import Mathlib.Data.List.Basic
import Mathlib.Data.List.TakeWhile
import Mathlib.Data.Nat.Digits.Defs
import Mathlib.Tactic.IntervalCases

namespace NetTools

abbrev Byte := UInt8
abbrev Bytes := List Byte

/-- A condition on the bytes of a text is decided along the text, not over all bytes. -/
instance (priority := high) (l : Bytes) (p : Byte → Prop) [DecidablePred p] :
    Decidable (∀ b ∈ l, p b) :=
  List.decidableBAll p l

instance (priority := high) (o : Option Byte) (p : Byte → Prop) [DecidablePred p] :
    Decidable (∀ b ∈ o, p b) :=
  Option.decidableForallMem o

instance (priority := high) (text : Bytes) (l : List Bytes) : Decidable (text ∈ l) :=
  List.instDecidableMemOfLawfulBEq text l

namespace CText

def exitSuccess : Int := 0

def exitFailure : Int := 1

/-- What has become of a process: `killed` is the end by a signal without a handler; after
`undefined`, an access outside an array, nothing is known about it. -/
inductive ProcessStatus
  | running
  | exited (code : Int)
  | killed
  | undefined
  deriving DecidableEq

def ascii (s : String) : Bytes := s.toList.map fun c => c.toUInt8

/-- `isspace` in the C locale. -/
def isSpace (b : Byte) : Bool := b = 32 || (9 ≤ b && b ≤ 13)

def isDigit (b : Byte) : Bool := 48 ≤ b && b ≤ 57

/-- `strncmp(s, word, strlen(word)) == 0`. -/
def startsWith (s word : Bytes) : Bool := word.isPrefixOf s

/-- `strchr(s, c)`, as the index of the byte that it points to. -/
def strchr (s : Bytes) (c : Byte) : Option ℕ := s.findIdx? fun b => b == c

/-- The C string held by a zeroed buffer of `cap` bytes after `data` was received
into it and cut at the first line feed. It is `none` when neither a line feed nor
a NUL byte ends the text inside the buffer, so that `strcspn` runs past its end. -/
def lineIn (cap : ℕ) (data : Bytes) : Option Bytes :=
  let line := data.takeWhile fun b => b ≠ 0 && b ≠ 10
  if line.length < cap then some line else none

/-- The token that `%s` reads, and the text after it. -/
def scanToken (s : Bytes) : Bytes × Bytes :=
  let r := s.dropWhile isSpace
  (r.takeWhile fun b => !isSpace b, r.dropWhile fun b => !isSpace b)

/-- The value of a run of decimal digits. -/
def digitsValue (ds : Bytes) : ℕ := ds.foldl (fun v d => 10*v+(d.toNat-48)) 0

/-- What `%zu` reads after optional white space and a sign, with the saturation of
`strtoul`, and the text after it. -/
def scanSize (s : Bytes) : Option (ℕ × Bytes) :=
  let r := s.dropWhile isSpace
  let signed := r.head? = some 45 ∨ r.head? = some 43
  let text := if signed then r.tail else r
  let ds := text.takeWhile isDigit
  let v := digitsValue ds
  let value := if 2^64 ≤ v then 2^64-1 else if r.head? = some 45 then (2^64-v)%2^64 else v
  if ds = [] then none else some (value, text.dropWhile isDigit)

/-- The text `%zu` and `%d` print for a natural number. -/
def decimal (n : ℕ) : Bytes := (Nat.toDigits 10 n).map fun c => c.toUInt8

/-- The text `%d` prints for an integer. -/
def decimalInt : Int → Bytes
  | .ofNat n => decimal n
  | .negSucc n => ascii "-" ++ decimal (n+1)

/-- `atoi`: `strtol` saturates at the range of `long`, then the value is cut to `int`. -/
def atoi (s : Bytes) : Int :=
  let r := s.dropWhile isSpace
  let signed := r.head? = some 45 ∨ r.head? = some 43
  let v : Int := digitsValue ((if signed then r.tail else r).takeWhile isDigit)
  let long := if r.head? = some 45 then max (-v) (-2^63) else min v (2^63-1)
  Int.bmod long (2^32)

/-- The number with which a text begins, after white space and a sign; 0 when there is none. -/
def leadingNumber (s : Bytes) : Int :=
  let r := s.dropWhile isSpace
  let digits := if r.head? = some 45 ∨ r.head? = some 43 then r.tail else r
  let v : Int := digitsValue (digits.takeWhile isDigit)
  if r.head? = some 45 then -v else v

/-- A number saturated at the range of `long` and cut to `int`. -/
def longToInt (n : Int) : Int := Int.bmod (max (min n (2^63-1)) (-2^63)) (2^32)

/-- Nothing of a text without a NUL byte is lost as a C string. -/
theorem takeWhile_ne_zero {s : Bytes} (h : (0 : Byte) ∉ s) : s.takeWhile (fun b => b ≠ 0) = s := by
  rw [List.takeWhile_eq_self_iff]
  intro b hb
  rw [decide_eq_true_eq]
  rintro rfl
  exact h hb

/-- A text that fits and has no NUL byte and no line feed is received as it is. -/
theorem lineIn_of_plain {cap : ℕ} {text : Bytes} (hlen : text.length < cap)
    (h : ∀ b ∈ text, b ≠ 0 ∧ b ≠ 10) : lineIn cap text = some text := by
  have hall : text.takeWhile (fun b => b ≠ 0 && b ≠ 10) = text := by
    rw [List.takeWhile_eq_self_iff]
    simpa using h
  rw [lineIn, hall, if_pos hlen]

def digit (n : ℕ) : Byte := (Nat.digitChar (n%10)).toUInt8

theorem digit_toNat (n : ℕ) : (digit n).toNat = 48+n%10 := by
  have h : n%10 < 10 := Nat.mod_lt _ (by decide)
  unfold digit
  interval_cases n%10 <;> rfl

theorem digit_isDigit (n : ℕ) : isDigit (digit n) = true := by
  have h := digit_toNat n
  simp only [isDigit, Bool.and_eq_true, decide_eq_true_eq, UInt8.le_iff_toNat_le, h]
  simp only [UInt8.reduceToNat]
  omega

theorem isSpace_of_isDigit {b : Byte} (h : isDigit b = true) : isSpace b = false := by
  simp only [isDigit, Bool.and_eq_true, decide_eq_true_eq, UInt8.le_iff_toNat_le,
    UInt8.reduceToNat] at h
  rw [Bool.eq_false_iff]
  intro hs
  simp only [isSpace, Bool.or_eq_true, Bool.and_eq_true, decide_eq_true_eq,
    UInt8.le_iff_toNat_le, UInt8.reduceToNat, ← UInt8.toNat_inj] at hs
  omega

theorem decimal_eq (n : ℕ) :
    decimal n = if n < 10 then [digit n] else decimal (n/10) ++ [digit n] := by
  rw [decimal, Nat.toDigits_eq_if (by decide)]
  split
  · rename_i h
    simp [digit, Nat.mod_eq_of_lt h]
  · simp [decimal, digit]

theorem decimal_ne_nil (n : ℕ) : decimal n ≠ [] := by
  rw [decimal_eq]
  split <;> simp

theorem decimal_all_digits (n : ℕ) : ∀ b ∈ decimal n, isDigit b = true := by
  induction n using Nat.strong_induction_on with
  | _ n ih =>
    rw [decimal_eq]
    split
    · simpa using digit_isDigit n
    · intro b hb
      rcases List.mem_append.mp hb with h | h
      · exact ih (n/10) (by omega) b h
      · rw [List.mem_singleton.mp h]
        exact digit_isDigit n

theorem zero_notMem_decimal (n : ℕ) : (0 : Byte) ∉ decimal n := by
  intro h
  exact absurd (decimal_all_digits n 0 h) (by decide)

theorem length_decimal_le_iff {n k : ℕ} (hk : 0 < k) : (decimal n).length ≤ k ↔ n < 10^k := by
  rw [decimal, List.length_map, Nat.length_toDigits_le_iff (by decide) hk]

theorem digitsValue_append_one (ds : Bytes) (d : Byte) :
    digitsValue (ds ++ [d]) = 10*digitsValue ds+(d.toNat-48) := by
  simp only [digitsValue, List.foldl_append, List.foldl_cons, List.foldl_nil]

theorem digitsValue_decimal (n : ℕ) : digitsValue (decimal n) = n := by
  induction n using Nat.strong_induction_on with
  | _ n ih =>
    rw [decimal_eq]
    split
    · rename_i h
      simp only [digitsValue, List.foldl_cons, List.foldl_nil, digit_toNat]
      omega
    · rw [digitsValue_append_one, ih (n/10) (by omega), digit_toNat]
      omega

section Digits
variable {ds : Bytes} (hne : ds ≠ []) (hds : ∀ b ∈ ds, isDigit b = true) (rest : Bytes)
include hds

/-- A run of digits ends where a byte follows that is none. -/
theorem takeWhile_isDigit_digits (hr : ∀ b ∈ rest.head?, isDigit b = false) :
    (ds ++ rest).takeWhile isDigit = ds := by
  rw [List.takeWhile_append_of_pos hds]
  cases rest with
  | nil => simp
  | cons b bs => simp [hr b (by simp)]

theorem dropWhile_isDigit_digits (hr : ∀ b ∈ rest.head?, isDigit b = false) :
    (ds ++ rest).dropWhile isDigit = rest := by
  rw [List.dropWhile_append_of_pos hds]
  cases rest with
  | nil => simp
  | cons b bs => simp [hr b (by simp)]

include hne

/-- Nothing is skipped in front of a digit. -/
theorem dropWhile_isSpace_digits : (ds ++ rest).dropWhile isSpace = ds ++ rest := by
  obtain ⟨b, bs, rfl⟩ := List.exists_cons_of_ne_nil hne
  have hb : isDigit b = true := hds b List.mem_cons_self
  simp [isSpace_of_isDigit hb]

theorem head_digits_ne {c : Byte} (hc : isDigit c = false) : (ds ++ rest).head? ≠ some c := by
  obtain ⟨b, bs, rfl⟩ := List.exists_cons_of_ne_nil hne
  have hb : isDigit b = true := hds b List.mem_cons_self
  rw [List.cons_append, List.head?_cons, ne_eq, Option.some.injEq]
  rintro rfl
  rw [hb] at hc
  cases hc

/-- A run of digits has no sign. -/
theorem digits_unsigned :
    ¬ ((ds ++ rest).head? = some 45 ∨ (ds ++ rest).head? = some 43) := by
  rintro (h | h)
  · exact head_digits_ne hne hds rest (by decide) h
  · exact head_digits_ne hne hds rest (by decide) h

/-- A text of digits begins with its own value. -/
theorem leadingNumber_digits (hr : ∀ b ∈ rest.head?, isDigit b = false) :
    leadingNumber (ds ++ rest) = digitsValue ds := by
  simp only [leadingNumber, dropWhile_isSpace_digits hne hds,
    if_neg (digits_unsigned hne hds rest), takeWhile_isDigit_digits hds rest hr,
    if_neg (head_digits_ne hne hds rest (by decide : isDigit 45 = false))]

/-- `%zu` on a run of digits whose value is a `size_t`. -/
theorem scanSize_digits (hv : digitsValue ds < 2^64) (hr : ∀ b ∈ rest.head?, isDigit b = false) :
    scanSize (ds ++ rest) = some (digitsValue ds, rest) := by
  simp only [scanSize, dropWhile_isSpace_digits hne hds,
    if_neg (digits_unsigned hne hds rest), takeWhile_isDigit_digits hds rest hr,
    dropWhile_isDigit_digits hds rest hr, hne, ↓reduceIte, if_neg (Nat.not_le.mpr hv),
    if_neg (head_digits_ne hne hds rest (by decide : isDigit 45 = false))]

end Digits

/-- Nothing is skipped in front of a printed number. -/
theorem dropWhile_isSpace_decimal (n : ℕ) (rest : Bytes) :
    (decimal n ++ rest).dropWhile isSpace = decimal n ++ rest :=
  dropWhile_isSpace_digits (decimal_ne_nil n) (decimal_all_digits n) rest

theorem head_decimal_ne (n : ℕ) (rest : Bytes) {c : Byte} (hc : isDigit c = false) :
    (decimal n ++ rest).head? ≠ some c :=
  head_digits_ne (decimal_ne_nil n) (decimal_all_digits n) rest hc

/-- A printed number has no sign. -/
theorem decimal_unsigned (n : ℕ) (rest : Bytes) :
    ¬ ((decimal n ++ rest).head? = some 45 ∨ (decimal n ++ rest).head? = some 43) :=
  digits_unsigned (decimal_ne_nil n) (decimal_all_digits n) rest

theorem takeWhile_isDigit_decimal (n : ℕ) (rest : Bytes)
    (hr : ∀ b ∈ rest.head?, isDigit b = false) :
    (decimal n ++ rest).takeWhile isDigit = decimal n :=
  takeWhile_isDigit_digits (decimal_all_digits n) rest hr

/-- Scanning a printed `size_t` gives it back, whatever non-digit follows. -/
theorem scanSize_decimal {n : ℕ} (hn : n < 2^64) (rest : Bytes)
    (hr : ∀ b ∈ rest.head?, isDigit b = false) :
    scanSize (decimal n ++ rest) = some (n, rest) := by
  have h := scanSize_digits (decimal_ne_nil n) (decimal_all_digits n) rest
    (by rwa [digitsValue_decimal]) hr
  rwa [digitsValue_decimal] at h

/-- A run ends where it did, with more text behind it that does not go on with it. -/
theorem takeWhile_append_of_ends {p : Byte → Bool} {s more : Bytes}
    (h : s.dropWhile p ≠ [] ∨ ∀ b ∈ more.head?, p b = false) :
    (s ++ more).takeWhile p = s.takeWhile p := by
  have hsplit := s.takeWhile_append_dropWhile (p := p)
  rw [List.takeWhile_append]
  split_ifs with hall
  · have hnil : s.dropWhile p = [] := by
      have hlen := congrArg List.length hsplit
      rw [List.length_append] at hlen
      exact List.length_eq_zero_iff.mp (by omega)
    have hstop : more.takeWhile p = [] := by
      cases more with
      | nil => rfl
      | cons b more => simp [h.resolve_left (not_not_intro hnil) b rfl]
    rw [hnil, List.append_nil] at hsplit
    rw [hstop, List.append_nil, hsplit]
  · rfl

theorem dropWhile_append_of_ends {p : Byte → Bool} {s more : Bytes}
    (h : s.dropWhile p ≠ [] ∨ ∀ b ∈ more.head?, p b = false) :
    (s ++ more).dropWhile p = s.dropWhile p ++ more := by
  have hsplit := (s ++ more).takeWhile_append_dropWhile (p := p)
  rw [takeWhile_append_of_ends h] at hsplit
  apply List.append_cancel_left (hsplit.trans _)
  rw [← List.append_assoc, List.takeWhile_append_dropWhile]

/-- A `%zu` that stopped in front of the end, or whose number does not go on behind it, reads the
same with more text. -/
theorem scanSize_append {s rest : Bytes} {v : ℕ} {more : Bytes} (h : scanSize s = some (v, rest))
    (hr : rest ≠ [] ∨ ∀ b ∈ more.head?, isDigit b = false) :
    scanSize (s ++ more) = some (v, rest ++ more) := by
  have hskip : s.dropWhile isSpace ≠ [] := by
    intro hnil
    simp [scanSize, hnil] at h
  obtain ⟨b, bs, hcons⟩ := List.exists_cons_of_ne_nil hskip
  have hskip' : (s ++ more).dropWhile isSpace = b :: (bs ++ more) := by
    rw [dropWhile_append_of_ends (Or.inl hskip), hcons, List.cons_append]
  -- the text behind the sign, with and without `more`
  have hnumber (text : Bytes) (hd : text.dropWhile isDigit = rest) :
      (text ++ more).takeWhile isDigit = text.takeWhile isDigit ∧
        (text ++ more).dropWhile isDigit = rest ++ more := by
    subst hd
    exact ⟨takeWhile_append_of_ends hr, dropWhile_append_of_ends hr⟩
  simp only [scanSize, hcons, hskip', List.head?_cons, List.tail_cons] at h ⊢
  have htext : (if some b = some 45 ∨ some b = some 43 then bs ++ more else b :: (bs ++ more)) =
      (if some b = some 45 ∨ some b = some 43 then bs else b :: bs) ++ more := by
    split_ifs <;> rfl
  obtain ⟨hne, h⟩ := Option.ite_none_left_eq_some.mp h
  obtain ⟨hv, hrest⟩ := Prod.mk.inj (Option.some.inj h)
  obtain ⟨htake, hdrop⟩ := hnumber _ hrest
  rw [htext, htake, hdrop, if_neg hne, hv]

theorem foldl_digits_ge (ds : Bytes) (v : ℕ) :
    v*10^ds.length ≤ ds.foldl (fun v d => 10*v+(d.toNat-48)) v := by
  induction ds generalizing v with
  | nil => simp
  | cons d ds ih =>
    calc v*10^(d :: ds).length
        = 10*v*10^ds.length := by rw [List.length_cons, Nat.pow_succ]; ring
      _ ≤ (10*v+(d.toNat-48))*10^ds.length := Nat.mul_le_mul_right _ (Nat.le_add_right _ _)
      _ ≤ (d :: ds).foldl (fun v d => 10*v+(d.toNat-48)) v := ih _

/-- The number printed in front of more digits is a smaller one. -/
theorem digitsValue_append_ge (ds rest : Bytes) :
    digitsValue ds*10^rest.length ≤ digitsValue (ds ++ rest) := by
  rw [digitsValue, digitsValue, List.foldl_append]
  exact foldl_digits_ge rest _

/-- No proper beginning of a printed number has its value. -/
theorem append_nil_of_digitsValue {ds rest : Bytes} {n : ℕ} (h : ds ++ rest = decimal n)
    (hne : ds ≠ []) (hv : digitsValue ds = n) : rest = [] := by
  have hge := digitsValue_append_ge ds rest
  rw [h, digitsValue_decimal, hv] at hge
  rcases Nat.eq_zero_or_pos n with rfl | hpos
  · -- the number is a single digit
    have hlen := congrArg List.length h
    have hds := List.length_pos_iff.mpr hne
    rw [List.length_append, decimal_eq, if_pos (by decide), List.length_singleton] at hlen
    exact List.length_eq_zero_iff.mp (by omega)
  · have hpow : 10^rest.length ≤ 1 := by
      apply Nat.le_of_mul_le_mul_left _ hpos
      rwa [Nat.mul_one]
    by_contra hrest
    have hlt := Nat.one_lt_pow (List.length_pos_iff.mpr hrest).ne' (by decide : 1 < 10)
    omega

theorem strchr_eq (s : Bytes) (c : Byte) :
    strchr s c = if c ∈ s then some (s.takeWhile fun b => b != c).length else none := by
  induction s with
  | nil => rfl
  | cons b s ih =>
    rw [strchr, List.findIdx?_cons]
    rw [strchr] at ih
    by_cases hb : b = c
    · simp [hb]
    · have hne : ¬ c = b := fun h => hb h.symm
      simp only [hb, beq_iff_eq, ↓reduceIte, ih, List.mem_cons, hne, false_or]
      split_ifs <;> simp [hb]

/-- The number a text begins with does not go on behind a byte that is neither part of a number
nor white space. -/
theorem leadingNumber_append {s more : Bytes}
    (hmore : ∀ b ∈ more.head?, isDigit b = false ∧ isSpace b = false ∧ b ≠ 45 ∧ b ≠ 43) :
    leadingNumber (s ++ more) = leadingNumber s := by
  have hstop : (s ++ more).dropWhile isSpace = s.dropWhile isSpace ++ more :=
    dropWhile_append_of_ends (Or.inr fun b hb => (hmore b hb).2.1)
  have hnumber (text : Bytes) : (text ++ more).takeWhile isDigit = text.takeWhile isDigit :=
    takeWhile_append_of_ends (Or.inr fun b hb => (hmore b hb).1)
  cases hskip : s.dropWhile isSpace with
  | nil =>
    have h45 : more.head? ≠ some 45 := fun h => (hmore 45 h).2.2.1 rfl
    have h43 : more.head? ≠ some 43 := fun h => (hmore 43 h).2.2.2 rfl
    have hnone := hnumber []
    rw [List.nil_append] at hnone
    rw [hskip, List.nil_append] at hstop
    simp [leadingNumber, hskip, hstop, h45, h43, hnone]
  | cons b bs =>
    rw [hskip, List.cons_append] at hstop
    simp only [leadingNumber, hskip, hstop, List.head?_cons, List.tail_cons]
    split_ifs
    · rw [hnumber]
    · rw [← List.cons_append, hnumber]
    · rw [hnumber]
    · rw [← List.cons_append, hnumber]

theorem leadingNumber_cons_space {b : Byte} (hb : isSpace b = true) (s : Bytes) :
    leadingNumber (b :: s) = leadingNumber s := by
  simp only [leadingNumber, List.dropWhile_cons_of_pos hb]

/-- A printed integer is read back in front of text that does not go on with digits. -/
theorem leadingNumber_decimalInt (n : Int) {rest : Bytes}
    (hr : ∀ b ∈ rest.head?, isDigit b = false) : leadingNumber (decimalInt n ++ rest) = n := by
  cases n with
  | ofNat n =>
    have hdigits := leadingNumber_digits (decimal_ne_nil n) (decimal_all_digits n) rest hr
    rw [digitsValue_decimal] at hdigits
    exact hdigits
  | negSucc n =>
    have hcons : decimalInt (.negSucc n) ++ rest = 45 :: (decimal (n+1) ++ rest) := rfl
    have hsign : ¬ isSpace 45 = true := by decide
    rw [hcons]
    simp only [leadingNumber, List.dropWhile_cons_of_neg hsign, List.head?_cons, true_or,
      ↓reduceIte, List.tail_cons, takeWhile_isDigit_decimal (n+1) rest hr, digitsValue_decimal]
    exact (Int.negSucc_eq n).symm

theorem atoi_eq_longToInt (s : Bytes) : atoi s = longToInt (leadingNumber s) := by
  simp only [atoi, longToInt, leadingNumber]
  generalize digitsValue _ = v
  split_ifs
  · congr 1
    omega
  · congr 1
    omega

theorem longToInt_of_range {n : Int} (hge : -2^31 ≤ n) (hlt : n < 2^31) : longToInt n = n := by
  rw [longToInt, min_eq_left (by omega), max_eq_left (by omega)]
  exact Int.bmod_eq_of_le (by omega) (by omega)

/-- `atoi` returns an `int`. -/
theorem atoi_range (s : Bytes) : -2^31 ≤ atoi s ∧ atoi s < 2^31 := by
  rw [atoi_eq_longToInt, longToInt]
  constructor
  · exact Int.le_bmod (by decide)
  · exact Int.bmod_lt (by decide)

/-- `atoi` of a printed `int`. -/
theorem atoi_decimal {n : ℕ} (hn : n < 2^31) : atoi (decimal n) = n := by
  have hread := leadingNumber_digits (decimal_ne_nil n) (decimal_all_digits n) [] nofun
  rw [List.append_nil, digitsValue_decimal] at hread
  rw [atoi_eq_longToInt, hread]
  exact longToInt_of_range (by omega) (by omega)

end CText

end NetTools
