import Mathlib.Data.List.Basic
import Mathlib.Data.List.Nodup

namespace NetTools

structure OrderedSet (α : Type*) where
  toList : List α
  nodup : toList.Nodup

namespace OrderedSet

variable {α : Type*}

instance : Membership α (OrderedSet α) := ⟨fun s a => a ∈ s.toList⟩

theorem mem_def {s : OrderedSet α} {a : α} : a ∈ s ↔ a ∈ s.toList := Iff.rfl

@[ext] theorem ext {s t : OrderedSet α} (h : s.toList = t.toList) : s = t := by
  cases s
  cases t
  cases h
  rfl

def empty : OrderedSet α := ⟨[], List.nodup_nil⟩

variable [DecidableEq α]

instance (s : OrderedSet α) (a : α) : Decidable (a ∈ s) :=
  inferInstanceAs (Decidable (a ∈ s.toList))

/-- Append an element that is not there yet. -/
def insert (s : OrderedSet α) (a : α) : OrderedSet α :=
  if h : a ∈ s then s
  else ⟨s.toList ++ [a], by
    rw [List.nodup_append_comm]
    exact List.nodup_cons.mpr ⟨h, s.nodup⟩⟩

def erase (s : OrderedSet α) (a : α) : OrderedSet α := ⟨s.toList.erase a, s.nodup.erase a⟩

theorem toList_insert_of_notMem {s : OrderedSet α} {a : α} (h : a ∉ s) :
    (s.insert a).toList = s.toList ++ [a] := by
  rw [insert, dif_neg h]

theorem erase_of_notMem {s : OrderedSet α} {a : α} (h : a ∉ s) : s.erase a = s :=
  ext (List.erase_of_not_mem h)

/-- Erasing the element at a position removes that position. -/
theorem toList_erase_getElem (s : OrderedSet α) (i : ℕ) (hi : i < s.toList.length) :
    (s.erase s.toList[i]).toList = s.toList.eraseIdx i :=
  s.nodup.erase_getElem i hi

end OrderedSet

end NetTools
