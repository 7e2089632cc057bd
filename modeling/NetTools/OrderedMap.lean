import Mathlib.Data.List.Basic
import Mathlib.Data.List.Nodup

namespace NetTools

structure OrderedMap {α κ : Type*} (key : α → κ) where
  toList : List α
  distinct : (toList.map key).Nodup

namespace OrderedMap

variable {α κ : Type*} {key : α → κ}

def empty : OrderedMap key := ⟨[], List.nodup_nil⟩

def Has (s : OrderedMap key) (k : κ) : Prop := ∃ a ∈ s.toList, key a = k

/-- A new entry, behind all others. -/
def insert (s : OrderedMap key) (a : α) (h : ¬ s.Has (key a)) : OrderedMap key :=
  ⟨s.toList ++ [a], by
    rw [List.map_append, List.nodup_append_comm]
    refine List.nodup_cons.mpr ⟨?_, s.distinct⟩
    intro hmem
    exact h (List.mem_map.mp hmem)⟩

theorem toList_insert (s : OrderedMap key) (a : α) (h : ¬ s.Has (key a)) :
    (s.insert a h).toList = s.toList ++ [a] := rfl

variable [DecidableEq κ]

def erase (s : OrderedMap key) (k : κ) : OrderedMap key :=
  ⟨s.toList.filter fun a => key a ≠ k, s.distinct.sublist (List.filter_sublist.map key)⟩

/-- Only the entry with the key goes. -/
theorem toList_erase {s : OrderedMap key} {front rest : List α} {a : α}
    (h : s.toList = front ++ a :: rest) : (s.erase (key a)).toList = front ++ rest := by
  have hdistinct := s.distinct
  rw [h, List.map_append, List.map_cons, List.nodup_append, List.nodup_cons] at hdistinct
  obtain ⟨-, ⟨hrest, -⟩, hfront⟩ := hdistinct
  have hkeep (l : List α) (hl : ∀ b ∈ l, key b ≠ key a) : l.filter (fun b => key b ≠ key a) = l := by
    rw [List.filter_eq_self]
    intro b hb
    exact decide_eq_true (hl b hb)
  have hf : ∀ b ∈ front, key b ≠ key a := by
    intro b hb
    exact hfront (key b) (List.mem_map_of_mem hb) (key a) List.mem_cons_self
  have hr : ∀ b ∈ rest, key b ≠ key a := by
    intro b hb heq
    exact hrest (heq ▸ List.mem_map_of_mem hb)
  calc (s.erase (key a)).toList
      = (front ++ a :: rest).filter fun b => key b ≠ key a := by rw [← h]; rfl
    _ = front.filter (fun b => key b ≠ key a) ++ rest.filter fun b => key b ≠ key a := by
        rw [List.filter_append, List.filter_cons_of_neg (by simp)]
    _ = front ++ rest := by rw [hkeep front hf, hkeep rest hr]

theorem not_has_erase (s : OrderedMap key) (k : κ) : ¬ (s.erase k).Has k := by
  rintro ⟨a, ha, hk⟩
  exact of_decide_eq_true (List.mem_filter.mp ha).2 hk

/-- The operations of a history with what came of them. -/
inductive Event (α κ : Type*)
  | inserted (a : α)
  | refused (a : α)
  | removed (k : κ)
  deriving DecidableEq

/-- The histories of a map: an insertion is refused exactly when the key is there, and only a key
that is there is removed. -/
inductive History : List (Event α κ) → OrderedMap key → Prop
  | start : History [] empty
  | insert {log : List (Event α κ)} {s : OrderedMap key} {a : α} (hs : History log s)
      (h : ¬ s.Has (key a)) : History (log ++ [.inserted a]) (s.insert a h)
  | refuse {log : List (Event α κ)} {s : OrderedMap key} {a : α} (hs : History log s)
      (h : s.Has (key a)) : History (log ++ [.refused a]) s
  | remove {log : List (Event α κ)} {s : OrderedMap key} {k : κ} (hs : History log s)
      (h : s.Has k) : History (log ++ [.removed k]) (s.erase k)

variable [DecidableEq α]

/-- What was inserted and not removed since, in the order of insertion. -/
def remaining (key : α → κ) : List (Event α κ) → List α
  | [] => []
  | .inserted a :: later =>
    if .removed (key a) ∈ later then remaining key later else a :: remaining key later
  | .refused _ :: later => remaining key later
  | .removed _ :: later => remaining key later

theorem remaining_inserted (log : List (Event α κ)) (a : α) :
    remaining key (log ++ [.inserted a]) = remaining key log ++ [a] := by
  induction log with
  | nil => rfl
  | cons e log ih =>
    cases e with
    | inserted b =>
      have hmem : Event.removed (key b) ∈ log ++ [Event.inserted a] ↔ Event.removed (key b) ∈ log := by
        simp
      rw [List.cons_append, remaining, remaining, ih]
      split_ifs with h h' h'
      · rfl
      · exact absurd (hmem.mp h) h'
      · exact absurd (hmem.mpr h') h
      · rfl
    | refused b => exact ih
    | removed k => exact ih

theorem remaining_refused (log : List (Event α κ)) (a : α) :
    remaining key (log ++ [.refused a]) = remaining key log := by
  induction log with
  | nil => rfl
  | cons e log ih =>
    cases e with
    | inserted b => simp [remaining, ih]
    | refused b => exact ih
    | removed k => exact ih

theorem remaining_removed (log : List (Event α κ)) (k : κ) :
    remaining key (log ++ [.removed k]) = (remaining key log).filter fun a => key a ≠ k := by
  induction log with
  | nil => rfl
  | cons e log ih =>
    cases e with
    | inserted b =>
      rw [List.cons_append, remaining, remaining, ih]
      by_cases hb : key b = k
      · -- removed here at the latest
        rw [if_pos (by simp [hb])]
        split_ifs
        · rfl
        · rw [List.filter_cons_of_neg (by simp [hb])]
      · have hmem : Event.removed (key b) ∈ log ++ [Event.removed k] ↔
            Event.removed (key b) ∈ log := by simp [hb]
        split_ifs with h h' h'
        · rfl
        · exact absurd (hmem.mp h) h'
        · exact absurd (hmem.mpr h') h
        · rw [List.filter_cons_of_pos (by simp [hb])]
    | refused b => exact ih
    | removed l => exact ih

theorem History.toList_eq {log : List (Event α κ)} {s : OrderedMap key} (h : History log s) :
    s.toList = remaining key log := by
  induction h with
  | start => rfl
  | insert _ _ ih => rw [remaining_inserted, ← ih, toList_insert]
  | refuse _ _ ih => rw [remaining_refused, ih]
  | remove _ _ ih => rw [remaining_removed, ← ih]; rfl

end OrderedMap

end NetTools
