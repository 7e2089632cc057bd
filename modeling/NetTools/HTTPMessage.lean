import NetTools.CText

namespace NetTools.HTTP

open CText

structure Message where
  method : Bytes
  target : Bytes
  version : Bytes
  headers : List Bytes
  deriving DecidableEq

def crlf : Bytes := [13, 10]

/-- A line holds neither a CR nor an LF. -/
def IsLine (line : Bytes) : Prop := ∀ b ∈ line, b ≠ 13 ∧ b ≠ 10

instance (line : Bytes) : Decidable (IsLine line) :=
  inferInstanceAs (Decidable (∀ b ∈ line, b ≠ 13 ∧ b ≠ 10))

/-- The first line and the text behind its CR LF. -/
def takeLine (s : Bytes) : Option (Bytes × Bytes) :=
  let rest := s.dropWhile fun b => b != 13 && b != 10
  if startsWith rest crlf then some (s.takeWhile fun b => b != 13 && b != 10, rest.drop 2) else none

/-- At most `n` lines up to the first blank one, and the text behind that. -/
def takeHeaders : ℕ → Bytes → Option (List Bytes × Bytes)
  | 0, _ => none
  | n+1, s =>
    (takeLine s).bind fun first =>
      if first.1 = [] then some ([], first.2)
      else (takeHeaders n first.2).map fun more => (first.1 :: more.1, more.2)

/-- The words of a request line. -/
def requestWords (line : Bytes) : Option (Bytes × Bytes × Bytes) :=
  match line.splitOn 32 with
  | [method, target, version] => some (method, target, version)
  | _ => none

/-- The head at the beginning of a text, and what stands behind it. -/
def readMessage (s : Bytes) : Option (Message × Bytes) :=
  (takeLine s).bind fun first =>
    (requestWords first.1).bind fun words =>
      (takeHeaders (first.2.length+1) first.2).map fun more =>
        (⟨words.1, words.2.1, words.2.2, more.1⟩, more.2)

def requestLine (m : Message) : Bytes := m.method ++ 32 :: (m.target ++ 32 :: m.version)

def headerText (headers : List Bytes) : Bytes := (headers.map fun line => line ++ crlf).flatten

def Message.text (m : Message) : Bytes :=
  requestLine m ++ crlf ++ headerText m.headers ++ crlf

/-- The words hold no space, and nothing holds the end of a line. -/
structure Message.WellFormed (m : Message) : Prop where
  method : 32 ∉ m.method ∧ IsLine m.method
  target : 32 ∉ m.target ∧ IsLine m.target
  version : 32 ∉ m.version ∧ IsLine m.version
  headers : ∀ line ∈ m.headers, line ≠ [] ∧ IsLine line

theorem takeLine_eq_some_iff {s line rest : Bytes} :
    takeLine s = some (line, rest) ↔ s = line ++ crlf ++ rest ∧ IsLine line := by
  constructor
  · intro h
    obtain ⟨hstart, h⟩ := Option.ite_none_right_eq_some.mp h
    obtain ⟨rfl, rfl⟩ := Prod.mk.inj (Option.some.inj h)
    obtain ⟨more, hmore⟩ := List.isPrefixOf_iff_prefix.mp hstart
    refine ⟨?_, fun b hb => ?_⟩
    -- the two bytes that `drop 2` skips are those that were tested for
    · calc s = s.takeWhile (fun b => b != 13 && b != 10) ++ s.dropWhile fun b => b != 13 && b != 10 :=
            List.takeWhile_append_dropWhile.symm
        _ = s.takeWhile (fun b => b != 13 && b != 10) ++ (crlf ++ more) := by rw [hmore]
        _ = s.takeWhile (fun b => b != 13 && b != 10) ++ crlf ++ (crlf ++ more).drop 2 := by
            rw [List.append_assoc]
            rfl
        _ = _ := by rw [hmore]
    · simpa using List.mem_takeWhile_imp hb
  · rintro ⟨rfl, hline⟩
    have hplain : ∀ b ∈ line, (b != 13 && b != 10) = true := by simpa [IsLine] using hline
    have hdrop : (line ++ (crlf ++ rest)).dropWhile (fun b => b != 13 && b != 10) = crlf ++ rest := by
      rw [List.dropWhile_append_of_pos hplain]
      rfl
    have htake : (line ++ (crlf ++ rest)).takeWhile (fun b => b != 13 && b != 10) = line := by
      rw [List.takeWhile_append_of_pos hplain]
      exact List.append_nil line
    rw [List.append_assoc]
    simp only [takeLine, hdrop, htake]
    rfl

theorem takeHeaders_sound {n : ℕ} {s : Bytes} {headers : List Bytes} {rest : Bytes}
    (h : takeHeaders n s = some (headers, rest)) :
    s = headerText headers ++ crlf ++ rest ∧ ∀ line ∈ headers, line ≠ [] ∧ IsLine line := by
  induction n generalizing s headers with
  | zero => cases h
  | succ n ih =>
    obtain ⟨⟨line, more⟩, hline, hrest⟩ := Option.bind_eq_some_iff.mp h
    obtain ⟨rfl, hplain⟩ := takeLine_eq_some_iff.mp hline
    simp only at hrest
    by_cases hblank : line = []
    · rw [if_pos hblank] at hrest
      obtain ⟨rfl, rfl⟩ := Prod.mk.inj (Option.some.inj hrest)
      exact ⟨by rw [hblank]; rfl, by simp⟩
    · rw [if_neg hblank] at hrest
      obtain ⟨⟨lines, behind⟩, hmore, heq⟩ := Option.map_eq_some_iff.mp hrest
      obtain ⟨rfl, rfl⟩ := Prod.mk.inj heq
      obtain ⟨rfl, hlines⟩ := ih hmore
      refine ⟨by simp [headerText], ?_⟩
      exact List.forall_mem_cons.mpr ⟨⟨hblank, hplain⟩, hlines⟩

theorem takeHeaders_text {headers : List Bytes} (h : ∀ line ∈ headers, line ≠ [] ∧ IsLine line)
    {n : ℕ} (hn : headers.length < n) (rest : Bytes) :
    takeHeaders n (headerText headers ++ crlf ++ rest) = some (headers, rest) := by
  induction headers generalizing n with
  | nil =>
    obtain ⟨n, rfl⟩ := Nat.exists_eq_add_one.mpr hn
    have hline : takeLine (headerText [] ++ crlf ++ rest) = some ([], rest) :=
      takeLine_eq_some_iff.mpr ⟨rfl, by simp [IsLine]⟩
    rw [takeHeaders, hline, Option.bind_some, if_pos rfl]
  | cons line headers ih =>
    obtain ⟨n, rfl⟩ := Nat.exists_eq_add_one.mpr (Nat.zero_lt_of_lt hn)
    obtain ⟨⟨hne, hplain⟩, hmore⟩ := List.forall_mem_cons.mp h
    have hline : takeLine (headerText (line :: headers) ++ crlf ++ rest) =
        some (line, headerText headers ++ crlf ++ rest) :=
      takeLine_eq_some_iff.mpr ⟨by simp [headerText], hplain⟩
    rw [takeHeaders, hline, Option.bind_some, if_neg hne,
      ih hmore (by rw [List.length_cons] at hn; omega), Option.map_some]

/-- No piece between the separators holds one. -/
theorem notMem_of_mem_splitOn {c : Byte} {s piece : Bytes} (h : piece ∈ s.splitOn c) :
    c ∉ piece := by
  induction s generalizing piece with
  | nil =>
    rw [List.splitOn_nil, List.mem_singleton] at h
    simp [h]
  | cons b s ih =>
    rw [List.splitOn_cons_eq_if_modifyHead] at h
    split_ifs at h with hb
    · rcases List.mem_cons.mp h with rfl | h
      · exact List.not_mem_nil
      · exact ih h
    · have hne : c ≠ b := by
        rintro rfl
        exact hb (beq_self_eq_true c)
      cases hsplit : s.splitOn c with
      | nil => exact absurd hsplit (List.splitOn_ne_nil c s)
      | cons head pieces =>
        rw [hsplit] at h ih
        rcases List.mem_cons.mp h with rfl | h
        · rw [List.mem_cons, not_or]
          exact ⟨hne, ih List.mem_cons_self⟩
        · exact ih (List.mem_cons_of_mem _ h)

theorem requestWords_eq_some_iff {line method target version : Bytes} :
    requestWords line = some (method, target, version) ↔
      line = method ++ 32 :: (target ++ 32 :: version) ∧
        32 ∉ method ∧ 32 ∉ target ∧ 32 ∉ version := by
  have hjoin : [(32 : Byte)].intercalate [method, target, version] =
      method ++ 32 :: (target ++ 32 :: version) := by simp [List.intercalate]
  constructor
  · intro h
    have hwords : line.splitOn 32 = [method, target, version] := by
      unfold requestWords at h
      split at h
      · rename_i hsplit
        cases h
        exact hsplit
      · cases h
    have hline : [32].intercalate (line.splitOn 32) = line := List.intercalate_splitOn 32
    have hno (piece : Bytes) (hp : piece ∈ [method, target, version]) : 32 ∉ piece :=
      notMem_of_mem_splitOn (hwords ▸ hp)
    rw [hwords, hjoin] at hline
    exact ⟨hline.symm, hno _ (by simp), hno _ (by simp), hno _ (by simp)⟩
  · rintro ⟨rfl, hmethod, htarget, hversion⟩
    have hno : ∀ piece ∈ [method, target, version], 32 ∉ piece := by
      simp [hmethod, htarget, hversion]
    rw [requestWords, ← hjoin, List.splitOn_intercalate 32 hno (List.cons_ne_nil _ _)]

theorem isLine_requestLine {m : Message} (h : m.WellFormed) : IsLine (requestLine m) := by
  intro b hb
  simp only [requestLine, List.mem_append, List.mem_cons] at hb
  rcases hb with hb | rfl | hb | rfl | hb
  · exact h.method.2 b hb
  · decide
  · exact h.target.2 b hb
  · decide
  · exact h.version.2 b hb

theorem length_le_headerText (headers : List Bytes) :
    headers.length ≤ (headerText headers).length := by
  induction headers with
  | nil => rfl
  | cons line headers ih =>
    have hcons : headerText (line :: headers) = line ++ crlf ++ headerText headers := rfl
    have hcrlf : crlf.length = 2 := rfl
    rw [hcons, List.length_append, List.length_append, List.length_cons, hcrlf]
    omega

/-- A text is read as a request exactly when the request is well formed and the text begins with
it. -/
theorem readMessage_eq_some_iff {s : Bytes} {m : Message} {rest : Bytes} :
    readMessage s = some (m, rest) ↔ m.WellFormed ∧ s = m.text ++ rest := by
  constructor
  · intro h
    obtain ⟨⟨first, more⟩, hline, h⟩ := Option.bind_eq_some_iff.mp h
    obtain ⟨⟨method, target, version⟩, hwords, h⟩ := Option.bind_eq_some_iff.mp h
    obtain ⟨⟨headers, behind⟩, hheaders, heq⟩ := Option.map_eq_some_iff.mp h
    obtain ⟨rfl, rfl⟩ := Prod.mk.inj heq
    obtain ⟨rfl, hplain⟩ := takeLine_eq_some_iff.mp hline
    obtain ⟨rfl, hmethod, htarget, hversion⟩ := requestWords_eq_some_iff.mp hwords
    obtain ⟨hmore, hlines⟩ := takeHeaders_sound hheaders
    have hpart (part : Bytes) (hp : ∀ b ∈ part, b ∈ method ++ 32 :: (target ++ 32 :: version)) :
        IsLine part := fun b hb => hplain b (hp b hb)
    refine ⟨⟨⟨hmethod, hpart _ ?_⟩, ⟨htarget, hpart _ ?_⟩, ⟨hversion, hpart _ ?_⟩, hlines⟩, ?_⟩
    · simp +contextual
    · simp +contextual
    · simp +contextual
    · simp only at hmore
      rw [hmore]
      simp only [Message.text, requestLine, List.append_assoc]
  · rintro ⟨h, rfl⟩
    have hline : takeLine (m.text ++ rest) =
        some (requestLine m, headerText m.headers ++ crlf ++ rest) :=
      takeLine_eq_some_iff.mpr
        ⟨by simp only [Message.text, List.append_assoc], isLine_requestLine h⟩
    have hwords : requestWords (requestLine m) = some (m.method, m.target, m.version) :=
      requestWords_eq_some_iff.mpr ⟨rfl, h.method.1, h.target.1, h.version.1⟩
    -- the fuel of the reader is more than the number of header lines
    have hlen : m.headers.length < (headerText m.headers ++ crlf ++ rest).length+1 := by
      have hle := length_le_headerText m.headers
      rw [List.length_append, List.length_append]
      omega
    simp only [readMessage, hline, hwords, Option.bind_some, takeHeaders_text h.headers hlen,
      Option.map_some]

end NetTools.HTTP
