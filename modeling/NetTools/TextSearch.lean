import Mathlib.Data.List.Basic
import Mathlib.Data.List.Infix

namespace NetTools.TextSearch

variable {α : Type*}

/-- The word stands behind `before`, and nowhere in front of that place. -/
structure FirstAt (word before text : List α) : Prop where
  stands : before ++ word <+: text
  first : ∀ a, a ++ word <+: text → before.length ≤ a.length

namespace FirstAt

variable {word before text : List α}

theorem nil_iff : FirstAt word [] text ↔ word <+: text := by
  constructor
  · intro h
    exact h.stands
  · intro h
    exact ⟨h, fun a _ => Nat.zero_le a.length⟩

theorem cons_iff {b c : α} :
    FirstAt word (b :: before) (c :: text) ↔
      b = c ∧ ¬ word <+: c :: text ∧ FirstAt word before text := by
  constructor
  · rintro ⟨hstands, hfirst⟩
    obtain ⟨rfl, hbehind⟩ := List.cons_prefix_cons.mp hstands
    refine ⟨rfl, fun h => ?_, hbehind, fun a ha => ?_⟩
    · exact Nat.not_succ_le_zero _ (hfirst [] h)
    · exact Nat.le_of_succ_le_succ (hfirst (b :: a) (List.cons_prefix_cons.mpr ⟨rfl, ha⟩))
  · rintro ⟨rfl, hnot, hstands, hfirst⟩
    refine ⟨List.cons_prefix_cons.mpr ⟨rfl, hstands⟩, fun a ha => ?_⟩
    cases a with
    | nil => exact absurd ha hnot
    | cons d a =>
      exact Nat.succ_le_succ (hfirst a (List.cons_prefix_cons.mp ha).2)

/-- More text behind the word does not move its first place. -/
theorem append (h : FirstAt word before text) (more : List α) :
    FirstAt word before (text ++ more) := by
  refine ⟨h.stands.trans (List.prefix_append text more), fun a ha => ?_⟩
  by_contra hlt
  -- a place further in front would end inside `text`
  have hlen := h.stands.length_le
  have hshort : (a ++ word).length ≤ text.length := by
    rw [List.length_append] at hlen ⊢
    omega
  exact hlt (h.first a (List.prefix_of_prefix_length_le ha (List.prefix_append text more) hshort))

/-- A text that ends before the first place of the word has ended does not hold it. -/
theorem not_prefix (h : FirstAt word before text) {part : List α} (hpart : part <+: text)
    (hlt : part.length < (before ++ word).length) (a : List α) : ¬ a ++ word <+: part := by
  intro ha
  have hfirst := h.first a (ha.trans hpart)
  have hlen := ha.length_le
  rw [List.length_append] at hlen hlt
  omega

/-- A separator that is no part of the word, with text in front of it that does not hold the
word. -/
theorem append_cons (h : FirstAt word before text) {c : α} (hc : c ∉ word) (hne : word ≠ [])
    {front : List α} (hfront : ¬ word <:+: front) :
    FirstAt word (front ++ c :: before) (front ++ c :: text) := by
  induction front with
  | nil =>
    refine cons_iff.mpr ⟨rfl, fun hstarts => ?_, h⟩
    obtain ⟨w, rest, rfl⟩ := List.exists_cons_of_ne_nil hne
    obtain ⟨rfl, -⟩ := List.cons_prefix_cons.mp hstarts
    exact hc List.mem_cons_self
  | cons b front ih =>
    obtain ⟨hstarts, hrest⟩ := not_or.mp (List.infix_cons_iff.not.mp hfront)
    refine cons_iff.mpr ⟨rfl, fun hword => ?_, ih hrest⟩
    rcases le_or_gt word.length (b :: front).length with hle | hlt
    · exact hstarts (List.prefix_of_prefix_length_le hword (List.prefix_append _ _) hle)
    · -- a longer word would contain the separator
      have hsep : b :: front ++ [c] <+: b :: front ++ c :: text :=
        (List.prefix_append_right_inj _).mpr (List.cons_prefix_cons.mpr ⟨rfl, List.nil_prefix⟩)
      have hinside := List.prefix_of_prefix_length_le hsep hword (by rwa [List.length_append])
      exact hc (hinside.subset (by simp))

end FirstAt

variable [DecidableEq α]

/-- The text from the first place of the word on. -/
def search (word : List α) : List α → Option (List α)
  | [] => if word = [] then some [] else none
  | b :: text => if word <+: b :: text then some (b :: text) else search word text

variable {word text : List α}

theorem search_eq_some_iff {rest : List α} :
    search word text = some rest ↔ ∃ before, text = before ++ rest ∧ FirstAt word before text := by
  induction text with
  | nil =>
    rw [search]
    constructor
    · intro h
      obtain ⟨rfl, h⟩ := Option.ite_none_right_eq_some.mp h
      cases h
      exact ⟨[], rfl, FirstAt.nil_iff.mpr List.nil_prefix⟩
    · rintro ⟨before, htext, h⟩
      obtain ⟨rfl, rfl⟩ := List.append_eq_nil_iff.mp htext.symm
      have hword : word = [] := List.prefix_nil.mp h.stands
      rw [if_pos hword]
  | cons b text ih =>
    rw [search]
    by_cases hstarts : word <+: b :: text
    · rw [if_pos hstarts]
      constructor
      · intro h
        cases h
        exact ⟨[], rfl, FirstAt.nil_iff.mpr hstarts⟩
      · rintro ⟨before, htext, h⟩
        have hnil : before = [] := List.length_eq_zero_iff.mp (Nat.le_zero.mp (h.first [] hstarts))
        rw [htext, hnil, List.nil_append]
    · rw [if_neg hstarts, ih]
      constructor
      · rintro ⟨before, rfl, h⟩
        exact ⟨b :: before, rfl, FirstAt.cons_iff.mpr ⟨rfl, hstarts, h⟩⟩
      · rintro ⟨before, htext, h⟩
        cases before with
        | nil => exact absurd h.stands hstarts
        | cons c before =>
          exact ⟨before, (List.cons.inj htext).2, (FirstAt.cons_iff.mp h).2.2⟩

theorem search_eq_none_iff : search word text = none ↔ ∀ a, ¬ a ++ word <+: text := by
  induction text with
  | nil =>
    rw [search, ite_eq_right_iff]
    constructor
    · intro h a ha
      have hword := (List.append_eq_nil_iff.mp (List.prefix_nil.mp ha)).2
      cases h hword
    · intro h hword
      exact absurd (by rw [hword, List.append_nil]) (h [])
  | cons b text ih =>
    rw [search]
    split_ifs with hstarts
    · simp only [false_iff, not_forall, not_not]
      exact ⟨[], hstarts⟩
    · rw [ih]
      constructor
      · intro h a ha
        cases a with
        | nil => exact hstarts ha
        | cons c a => exact h a (List.cons_prefix_cons.mp ha).2
      · intro h a ha
        exact h (b :: a) (List.cons_prefix_cons.mpr ⟨rfl, ha⟩)

/-- The place that a search finds. -/
theorem search_append_eq_some_iff {before rest : List α} :
    search word (before ++ rest) = some rest ↔ FirstAt word before (before ++ rest) := by
  rw [search_eq_some_iff]
  constructor
  · rintro ⟨found, htext, h⟩
    rwa [← List.append_cancel_right htext] at h
  · intro h
    exact ⟨before, rfl, h⟩

instance (before rest : List α) : Decidable (FirstAt word before (before ++ rest)) :=
  decidable_of_iff _ search_append_eq_some_iff

end NetTools.TextSearch
