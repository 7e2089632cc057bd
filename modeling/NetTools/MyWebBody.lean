import NetTools.HTTPMessage
import NetTools.MyWeb

namespace NetTools.MyWeb

open CText TextSearch HTTP

/-- An HTTP response: the header block reaches up to the first blank line. -/
structure Response where
  head : Bytes
  body : Bytes
  plain : (0 : Byte) ∉ head
  first : FirstAt blankLine head (head ++ blankLine)

namespace Response

/-- The header block with the blank line. -/
def header (r : Response) : Bytes := r.head ++ blankLine

def text (r : Response) : Bytes := r.header ++ r.body

end Response

/-- The pieces of a text between its CR LFs. -/
def linesOf : Bytes → List Bytes
  | [] => [[]]
  | [b] => [[b]]
  | b :: c :: s =>
    if b = 13 ∧ c = 10 then [] :: linesOf s else (linesOf (c :: s)).modifyHead fun l => b :: l

def toLower (b : Byte) : Byte := if 65 ≤ b && b ≤ 90 then b+32 else b

/-- The names of header fields are compared without regard to case. -/
def fieldName (line : Bytes) : Bytes := (line.takeWhile fun b => b != 58).map toLower

def fieldValue (line : Bytes) : Bytes := (line.dropWhile fun b => b != 58).tail

def isLengthField (line : Bytes) : Bool := 58 ∈ line && fieldName line = ascii "content-length"

/-- A decimal number with blanks around it. -/
def Decimal (value : Bytes) (n : ℕ) : Prop :=
  ∃ front digits behind, value = front ++ (digits ++ behind) ∧
    (∀ b ∈ front, b = 32 ∨ b = 9) ∧ (∀ b ∈ behind, b = 32 ∨ b = 9) ∧
    digits ≠ [] ∧ (∀ b ∈ digits, isDigit b = true) ∧ digitsValue digits = n

namespace Response

/-- Exactly one header field is a Content-Length, and its value is `n`. -/
def CarriesLength (r : Response) (n : ℕ) : Prop :=
  ∃ line, (linesOf r.head).tail.filter isLengthField = [line] ∧ Decimal (fieldValue line) n

/-- A field is spelled "Content-Length: ", and no line in front of it holds this text. -/
def LengthFirst (r : Response) : Prop :=
  ∃ front line rest, linesOf r.head = front ++ line :: rest ∧ front ≠ [] ∧
    lengthKey <+: line ∧ ∀ l ∈ front, ¬ lengthKey <:+: l

end Response

/-- The number that is read for the length: it stands behind the first "Content-Length: " of the
header and in front of the next CR. A text that does not begin with a number leaves `unset`,
which stands in the variable before. -/
def LengthAt (unset : Int) (header : Bytes) (length : Int) : Prop :=
  ∃ before rest, header = before ++ (lengthKey ++ rest) ∧ FirstAt lengthKey before header ∧
    let value := rest.takeWhile fun b => b != 13
    ¬ value.all isSpace ∧
      length = if beginsNumber value then longToInt (leadingNumber value) else unset

theorem scanLength_eq_some_iff {unset length : Int} {rest : Bytes} :
    scanLength unset ((lengthKey ++ rest).takeWhile fun b => b != 13) = some length ↔
      let value := rest.takeWhile fun b => b != 13
      ¬ value.all isSpace ∧
        length = if beginsNumber value then longToInt (leadingNumber value) else unset := by
  have hkey : ∀ b ∈ lengthKey, (b != 13) = true := by decide
  rw [scanLength, List.takeWhile_append_of_pos hkey, List.drop_left]
  dsimp only
  by_cases hblank : (rest.takeWhile fun b => b != 13).all isSpace
  · simp [hblank]
  · rw [if_neg hblank, and_iff_right hblank]
    split_ifs
    · rw [Option.some.injEq, eq_comm]
    · rw [Option.some.injEq, eq_comm]

theorem contentLength_eq_ok_iff {unset length : Int} {header : Bytes} :
    contentLength unset header = .ok length ↔ LengthAt unset header length := by
  rw [contentLength]
  constructor
  · intro h
    cases hfind : strstr header lengthKey with
    | none =>
      rw [hfind] at h
      cases h
    | some remainder =>
      obtain ⟨before, hheader, hfirst⟩ := search_eq_some_iff.mp hfind
      have hstarts : lengthKey <+: remainder :=
        (List.prefix_append_right_inj before).mp (hheader ▸ hfirst.stands)
      obtain ⟨rest, rfl⟩ := hstarts
      refine ⟨before, rest, hheader, hfirst, scanLength_eq_some_iff.mp ?_⟩
      rw [hfind] at h
      dsimp only at h
      cases hscan : scanLength unset ((lengthKey ++ rest).takeWhile fun b => b != 13) with
      | none =>
        rw [hscan] at h
        cases h
      | some m =>
        rw [hscan] at h
        rw [Except.ok.inj h]
  · rintro ⟨before, rest, rfl, hfirst, hvalue⟩
    have hfind : strstr (before ++ (lengthKey ++ rest)) lengthKey = some (lengthKey ++ rest) :=
      search_append_eq_some_iff.mpr hfirst
    rw [hfind]
    dsimp only
    rw [scanLength_eq_some_iff.mpr hvalue]

/-- What stands in `output.dat` when the program has written it. -/
theorem output_eq_some_iff {unset : Int} {r : Response} {out : Bytes} :
    (get unset r.text).output = some out ↔
      r.header.length < tempSize ∧ ∃ m, LengthAt unset r.header m ∧
        (r.body.take m.toNat).filter (fun b => b != 0) = out := by
  have hread := readHeader_eq r.first r.plain r.body (List.nil_append _) (by simp [blankLine])
  rw [get, getFrom, Response.text, Response.header, hread]
  by_cases hfit : (r.head ++ blankLine).length < tempSize
  · rw [if_pos hfit]
    simp only [hfit, true_and, ← contentLength_eq_ok_iff]
    cases contentLength unset (r.head ++ blankLine) with
    | error message => simp
    | ok m => simp [writeBody_eq]
  · rw [if_neg hfit]
    simp only [hfit, false_and, reduceCtorEq]

theorem headerText_append (front rest : List Bytes) :
    headerText (front ++ rest) = headerText front ++ headerText rest := by
  simp only [headerText, List.map_append, List.flatten_append]

theorem headerText_cons (line : Bytes) (rest : List Bytes) :
    headerText (line :: rest) = line ++ 13 :: 10 :: headerText rest := by
  simp [headerText, crlf]

theorem linesOf_ne_nil (s : Bytes) : linesOf s ≠ [] := by
  induction s using linesOf.induct with
  | case1 => exact List.cons_ne_nil _ _
  | case2 b => exact List.cons_ne_nil _ _
  | case3 b c s hcrlf ih =>
    rw [linesOf, if_pos hcrlf]
    exact List.cons_ne_nil _ _
  | case4 b c s hcrlf ih =>
    rw [linesOf, if_neg hcrlf, ne_eq, List.modifyHead_eq_nil_iff]
    exact ih

/-- The lines are the whole text. -/
theorem headerText_linesOf (s : Bytes) : headerText (linesOf s) = s ++ crlf := by
  induction s using linesOf.induct with
  | case1 => rfl
  | case2 b => rfl
  | case3 b c s hcrlf ih =>
    obtain ⟨rfl, rfl⟩ := hcrlf
    rw [linesOf, if_pos ⟨rfl, rfl⟩, headerText_cons, ih]
    rfl
  | case4 b c s hcrlf ih =>
    obtain ⟨line, rest, hlines⟩ := List.exists_cons_of_ne_nil (linesOf_ne_nil (c :: s))
    rw [hlines, headerText_cons] at ih
    rw [linesOf, if_neg hcrlf, hlines, List.modifyHead_cons, headerText_cons, List.cons_append, ih]
    rfl

/-- Behind lines without the key a text that begins with it holds it for the first time. -/
theorem firstAt_headerText {front : List Bytes} (hfront : ∀ l ∈ front, ¬ lengthKey <:+: l)
    {text : Bytes} (hstarts : lengthKey <+: text) :
    FirstAt lengthKey (headerText front) (headerText front ++ text) := by
  have hne : lengthKey ≠ [] := by decide
  induction front with
  | nil => exact FirstAt.nil_iff.mpr hstarts
  | cons line front ih =>
    obtain ⟨hline, hfront⟩ := List.forall_mem_cons.mp hfront
    have hnil : ¬ lengthKey <:+: [] := by decide
    have hlf : FirstAt lengthKey (10 :: headerText front) (10 :: (headerText front ++ text)) :=
      (ih hfront).append_cons (by decide : 10 ∉ lengthKey) hne hnil
    rw [headerText_cons, List.append_assoc]
    exact hlf.append_cons (by decide) hne hline

theorem blank_facts {b : Byte} (h : b = 32 ∨ b = 9) :
    isSpace b = true ∧ isDigit b = false ∧ b ≠ 13 := by
  rcases h with rfl | rfl <;> decide

namespace Decimal

variable {value : Bytes} {n : ℕ} (h : Decimal value n)
include h

/-- The number that `%d` reads. -/
theorem leadingNumber_eq : leadingNumber value = n := by
  obtain ⟨front, digits, behind, rfl, hfront, hbehind, hne, hdigits, rfl⟩ := h
  have hends : ∀ b ∈ behind.head?, isDigit b = false := fun b hb =>
    (blank_facts (hbehind b (List.mem_of_mem_head? hb))).2.1
  induction front with
  | nil => exact leadingNumber_digits hne hdigits behind hends
  | cons b front ih =>
    obtain ⟨hb, hfront⟩ := List.forall_mem_cons.mp hfront
    rw [List.cons_append, leadingNumber_cons_space (blank_facts hb).1]
    exact ih hfront

theorem begins : beginsNumber value = true := by
  obtain ⟨front, digits, behind, rfl, hfront, -, hne, hdigits, -⟩ := h
  have hskip : (front ++ (digits ++ behind)).dropWhile isSpace = digits ++ behind := by
    rw [List.dropWhile_append_of_pos fun b hb => (blank_facts (hfront b hb)).1,
      dropWhile_isSpace_digits hne hdigits]
  obtain ⟨d, ds, rfl⟩ := List.exists_cons_of_ne_nil hne
  rw [beginsNumber, hskip, if_neg (digits_unsigned hne hdigits behind)]
  exact hdigits d List.mem_cons_self

theorem not_all_isSpace : ¬ value.all isSpace := by
  obtain ⟨front, digits, behind, rfl, -, -, hne, hdigits, -⟩ := h
  obtain ⟨d, ds, rfl⟩ := List.exists_cons_of_ne_nil hne
  intro hall
  have hd : isSpace d = true := List.all_eq_true.mp hall d (by simp)
  rw [isSpace_of_isDigit (hdigits d List.mem_cons_self)] at hd
  cases hd

theorem ne_cr : ∀ b ∈ value, (b != 13) = true := by
  obtain ⟨front, digits, behind, rfl, hfront, hbehind, -, hdigits, -⟩ := h
  intro b hb
  rw [bne_iff_ne]
  rcases List.mem_append.mp hb with hb | hb
  · exact (blank_facts (hfront b hb)).2.2
  · rcases List.mem_append.mp hb with hb | hb
    · rintro rfl
      exact absurd (hdigits 13 hb) (by decide)
    · exact (blank_facts (hbehind b hb)).2.2

omit h in
/-- The blank that belongs to the key. -/
theorem of_cons (h : Decimal (32 :: value) n) : Decimal value n := by
  obtain ⟨front, digits, behind, hvalue, hfront, hbehind, hne, hdigits, hn⟩ := h
  cases front with
  | nil =>
    obtain ⟨d, ds, rfl⟩ := List.exists_cons_of_ne_nil hne
    obtain ⟨rfl, -⟩ := List.cons.inj hvalue
    exact absurd (hdigits 32 List.mem_cons_self) (by decide)
  | cons b front =>
    exact ⟨front, digits, behind, (List.cons.inj hvalue).2, (List.forall_mem_cons.mp hfront).2,
      hbehind, hne, hdigits, hn⟩

end Decimal

/-- The field is the one that is found, and its value is cut to `int`. -/
theorem lengthAt_of_lengthFirst {r : Response} {n : ℕ} (hfield : r.CarriesLength n)
    (hfirst : r.LengthFirst) (unset : Int) : LengthAt unset r.header (longToInt n) := by
  obtain ⟨front, line, rest, hlines, hne, ⟨value, rfl⟩, hfront⟩ := hfirst
  obtain ⟨field, hfilter, hdecimal⟩ := hfield
  have hheader : r.header = headerText front ++ (lengthKey ++ (value ++ 13 :: 10 ::
      (headerText rest ++ crlf))) := by
    calc r.header = headerText (linesOf r.head) ++ crlf := by
          rw [headerText_linesOf, List.append_assoc]
          rfl
      _ = _ := by
          rw [hlines, headerText_append, headerText_cons]
          simp only [List.append_assoc, List.cons_append]
  have hname : isLengthField (lengthKey ++ value) = true := by
    have hcolon : 58 ∈ lengthKey ++ value := List.mem_append_left value (by decide)
    have hlower : fieldName (lengthKey ++ value) = ascii "content-length" := rfl
    rw [isLengthField, hlower, decide_eq_true hcolon, decide_eq_true rfl, Bool.and_true]
  -- the line with the key is a length field, and the header has only one
  have hmine : lengthKey ++ value = field := by
    obtain ⟨status, front, rfl⟩ := List.exists_cons_of_ne_nil hne
    rw [hlines, List.cons_append, List.tail_cons, List.filter_append,
      List.filter_cons_of_pos hname] at hfilter
    have hmem := List.mem_append_right (front.filter isLengthField)
      (List.mem_cons_self (a := lengthKey ++ value) (l := rest.filter isLengthField))
    rw [hfilter] at hmem
    exact List.mem_singleton.mp hmem
  have hvalue : Decimal value n := by
    apply Decimal.of_cons
    rw [← hmine] at hdecimal
    exact hdecimal
  have hcut : ((value ++ 13 :: 10 :: (headerText rest ++ crlf)).takeWhile fun b => b != 13) =
      value := by
    rw [List.takeWhile_append_of_pos hvalue.ne_cr, List.takeWhile_cons_of_neg (by decide),
      List.append_nil]
  have hplace : FirstAt lengthKey (headerText front) r.header := by
    rw [hheader]
    exact firstAt_headerText hfront (List.prefix_append lengthKey _)
  refine ⟨headerText front, _, hheader, hplace, ?_⟩
  dsimp only
  rw [hcut, if_pos hvalue.begins, hvalue.leadingNumber_eq]
  exact ⟨hvalue.not_all_isSpace, rfl⟩

theorem LengthAt.unique {unset m m' : Int} {header : Bytes} (h : LengthAt unset header m)
    (h' : LengthAt unset header m') : m = m' := by
  rw [← contentLength_eq_ok_iff] at h h'
  rw [h] at h'
  exact Except.ok.inj h'

/-- `output.dat` holds the body exactly when the header fits into `temp`, no byte of the body is
NUL, and the number that is found is not too small and not so large that more is written. Where
the field itself is found, its value only has to be an `int`. -/
theorem writes_body_iff (unset : Int) (r : Response) {n : ℕ} (hfield : r.CarriesLength n)
    (hbody : n ≤ r.body.length) :
    ((get unset r.text).output = some (r.body.take n) ↔
      r.header.length < tempSize ∧ (0 : Byte) ∉ r.body.take n ∧
        ∃ m, LengthAt unset r.header m ∧ n ≤ m.toNat ∧
          ∀ b ∈ (r.body.take m.toNat).drop n, b = 0) ∧
    (r.header.length < tempSize → r.LengthFirst →
      ((get unset r.text).output = some (r.body.take n) ↔
        n < 2^31 ∧ (0 : Byte) ∉ r.body.take n)) := by
  have hwrites : (get unset r.text).output = some (r.body.take n) ↔
      r.header.length < tempSize ∧ (0 : Byte) ∉ r.body.take n ∧
        ∃ m, LengthAt unset r.header m ∧ n ≤ m.toNat ∧
          ∀ b ∈ (r.body.take m.toNat).drop n, b = 0 := by
    rw [output_eq_some_iff]
    simp only [filter_take_eq_take_iff hbody]
    constructor
    · rintro ⟨hfit, m, hm, hle, hplain, hzero⟩
      exact ⟨hfit, hplain, m, hm, hle, hzero⟩
    · rintro ⟨hfit, hplain, m, hm, hle, hzero⟩
      exact ⟨hfit, m, hm, hle, hplain, hzero⟩
  refine ⟨hwrites, fun hfit hfirst => ?_⟩
  have hlength := lengthAt_of_lengthFirst hfield hfirst unset
  rw [hwrites]
  constructor
  · rintro ⟨-, hplain, m, hm, hle, -⟩
    have hint : longToInt n < 2^31 := Int.bmod_lt (by decide)
    rw [hm.unique hlength] at hle
    exact ⟨by omega, hplain⟩
  · rintro ⟨hint, hplain⟩
    have hread : longToInt n = n := longToInt_of_range (by omega) (by omega)
    rw [hread] at hlength
    refine ⟨hfit, hplain, n, hlength, le_rfl, ?_⟩
    rw [Int.toNat_natCast, List.drop_eq_nil_of_le (List.length_take_le n r.body)]
    exact fun b hb => absurd hb List.not_mem_nil

def twoBytes : Response where
  head := ascii "HTTP/1.1 200 OK\x0d\x0aContent-Length: 2"
  body := ascii "ab"
  plain := by decide
  first := by decide

theorem writes_body_iff_two :
    (get 0 twoBytes.text).output = some (ascii "ab") ↔
      (2 : ℕ) < 2^31 ∧ (0 : Byte) ∉ ascii "ab" := by
  have hfield : twoBytes.CarriesLength 2 :=
    ⟨ascii "Content-Length: 2", by decide, [32], ascii "2", [], by decide, by decide, by decide,
      by decide, by decide, by decide⟩
  have hfirst : twoBytes.LengthFirst :=
    ⟨[ascii "HTTP/1.1 200 OK"], ascii "Content-Length: 2", [], by decide, by decide, by decide,
      by decide⟩
  exact (writes_body_iff 0 twoBytes hfield (by decide)).2 (by decide) hfirst

/-- A body of one NUL byte. -/
def nulByte : Response where
  head := ascii "HTTP/1.1 200 OK\x0d\x0aContent-Length: 1"
  body := [0]
  plain := by decide
  first := by decide

/-- It is printed as the empty string. -/
theorem not_writes_body : ¬ ∀ (unset : Int) (r : Response) (n : ℕ), r.CarriesLength n →
    n ≤ r.body.length → r.header.length < tempSize →
      (get unset r.text).output = some (r.body.take n) := by
  have hfield : nulByte.CarriesLength 1 :=
    ⟨ascii "Content-Length: 1", by decide, [32], ascii "1", [], by decide, by decide, by decide,
      by decide, by decide, by decide⟩
  intro h
  have houtput := h 0 nulByte 1 hfield (by decide) (by decide)
  exact absurd houtput (by decide)

end NetTools.MyWeb
