import NetTools.CText

namespace NetTools.Tokens

open CText

/-- One call: the word and the text where the next call goes on. `none` is `NULL`. -/
def strtok (delim : Byte → Bool) (s : Bytes) : Option (Bytes × Bytes) :=
  let t := s.dropWhile delim
  if t = [] then none
  else some (t.takeWhile fun b => !delim b, (t.dropWhile fun b => !delim b).tail)

variable {delim : Byte → Bool} {s word rest : Bytes} {b : Byte}

/-- A delimiter in front is passed over. -/
theorem strtok_cons_delim (hb : delim b = true) : strtok delim (b :: s) = strtok delim s := by
  rw [strtok, List.dropWhile_cons_of_pos hb]
  rfl

/-- A word up to the end or to a delimiter. -/
theorem strtok_word (hne : word ≠ []) (hword : ∀ b ∈ word, delim b = false)
    (hrest : ∀ b ∈ rest.head?, delim b = true) :
    strtok delim (word ++ rest) = some (word, rest.tail) := by
  have hdrop : (word ++ rest).dropWhile delim = word ++ rest := by
    cases word with
    | nil => exact absurd rfl hne
    | cons b word =>
      apply List.dropWhile_cons_of_neg
      simp [hword b List.mem_cons_self]
  have hall : ∀ b ∈ word, (!delim b) = true := by
    intro b hb
    rw [hword b hb]
    rfl
  have htake : (word ++ rest).takeWhile (fun b => !delim b) = word := by
    rw [takeWhile_append_of_ends (Or.inr fun b hb => by simp [hrest b hb]), List.takeWhile_eq_self_iff]
    exact hall
  have hskip : (word ++ rest).dropWhile (fun b => !delim b) = rest := by
    rw [dropWhile_append_of_ends (Or.inr fun b hb => by simp [hrest b hb]),
      List.dropWhile_eq_nil_iff.mpr hall, List.nil_append]
  rw [strtok, hdrop]
  simp only [List.append_eq_nil_iff, hne, false_and, ↓reduceIte, htake, hskip]

theorem strtok_self (hne : word ≠ []) (hword : ∀ b ∈ word, delim b = false) :
    strtok delim word = some (word, []) := by
  have h : strtok delim (word ++ []) = some (word, [].tail) := strtok_word hne hword (by simp)
  rwa [List.append_nil] at h

/-- A word holds no delimiter. -/
theorem strtok_plain (h : strtok delim s = some (word, rest)) : ∀ b ∈ word, delim b = false := by
  rw [strtok] at h
  split_ifs at h
  obtain ⟨rfl, -⟩ := Prod.mk.inj (Option.some.inj h)
  intro b hb
  have hnot := List.mem_takeWhile_imp hb
  simpa using hnot

/-- The whole text is its first word exactly when it is one. -/
theorem strtok_fst_eq_iff : (strtok delim s).map Prod.fst = some s ↔
    s ≠ [] ∧ ∀ b ∈ s, delim b = false := by
  constructor
  · intro h
    obtain ⟨⟨word, rest⟩, hs, hfst⟩ := Option.map_eq_some_iff.mp h
    dsimp only at hfst
    subst hfst
    refine ⟨?_, strtok_plain hs⟩
    rintro rfl
    cases hs
  · rintro ⟨hne, hplain⟩
    rw [strtok_self hne hplain]
    rfl

end NetTools.Tokens
