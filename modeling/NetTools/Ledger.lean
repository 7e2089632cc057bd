import Mathlib.Data.List.Nodup
import Mathlib.Data.List.Perm.Basic
import Mathlib.Data.List.Range

namespace NetTools

structure Ledger (α : Type*) where
  arrived : List α
  queued : List ℕ
  taken : List ℕ

namespace Ledger

variable {α : Type*} {l : Ledger α}

def empty : Ledger α := ⟨[], [], []⟩

def put (l : Ledger α) (a : α) : Ledger α :=
  { l with arrived := l.arrived ++ [a], queued := l.queued ++ [l.arrived.length] }

/-- Take the entry at position `i` out of the queue. -/
def take (l : Ledger α) (i : ℕ) : Ledger α :=
  { l with queued := l.queued.eraseIdx i, taken := l.taken ++ l.queued[i]?.toList }

/-- The queued arrivals, front first. -/
def contents (l : Ledger α) : List (Option α) := l.queued.map fun n => l.arrived[n]?

/-- The queue keeps the order of arrival, and every arrival is queued or taken, once. -/
structure Balanced (l : Ledger α) : Prop where
  ordered : l.queued.Pairwise (· < ·)
  complete : (l.queued ++ l.taken).Perm (List.range l.arrived.length)

theorem balanced_empty : Balanced (empty : Ledger α) := ⟨.nil, .nil⟩

theorem Balanced.lt_of_mem_queued (h : Balanced l) {n : ℕ} (hn : n ∈ l.queued) :
    n < l.arrived.length :=
  List.mem_range.mp (h.complete.subset (List.mem_append_left _ hn))

theorem Balanced.nodup (h : Balanced l) : (l.queued ++ l.taken).Nodup :=
  h.complete.nodup_iff.mpr List.nodup_range

/-- No arrival is taken twice. -/
theorem Balanced.taken_nodup (h : Balanced l) : l.taken.Nodup := (List.nodup_append.mp h.nodup).2.1

/-- The queue holds exactly the arrivals that were not taken, in order of arrival. -/
theorem Balanced.queued_eq (h : Balanced l) :
    l.queued = (List.range l.arrived.length).filter fun n => n ∉ l.taken := by
  have hperm : l.queued.Perm ((List.range l.arrived.length).filter fun n => n ∉ l.taken) := by
    have hd := h.nodup
    rw [List.perm_ext_iff_of_nodup (List.nodup_append.mp hd).1 (List.nodup_range.filter _)]
    intro n
    rw [List.mem_filter, decide_eq_true_eq, ← h.complete.mem_iff, List.mem_append]
    constructor
    · intro hn
      exact ⟨Or.inl hn, fun ht => (List.nodup_append.mp hd).2.2 n hn n ht rfl⟩
    · rintro ⟨hn | ht, hnot⟩
      · exact hn
      · exact absurd ht hnot
  have hasymm (n m : ℕ) (_ : n ∈ l.queued) (_ : m ∈ (List.range l.arrived.length).filter fun n =>
      n ∉ l.taken) (hnm : n < m) (hmn : m < n) : n = m := absurd hmn (Nat.lt_asymm hnm)
  exact List.Perm.eq_of_pairwise hasymm h.ordered (List.pairwise_lt_range.filter _) hperm

theorem Balanced.put (h : Balanced l) (a : α) : Balanced (l.put a) := by
  constructor
  · refine List.pairwise_append.mpr ⟨h.ordered, List.pairwise_singleton _ _, ?_⟩
    intro n hn m hm
    rw [List.mem_singleton.mp hm]
    exact h.lt_of_mem_queued hn
  · have hlen : (l.put a).arrived.length = l.arrived.length+1 := by simp [Ledger.put]
    rw [hlen, List.range_succ]
    -- the new number moves past the taken ones
    have hmove : (l.queued ++ [l.arrived.length] ++ l.taken).Perm
        (l.queued ++ l.taken ++ [l.arrived.length]) := by
      rw [List.append_assoc, List.append_assoc]
      exact List.Perm.append_left _ List.perm_append_comm
    exact hmove.trans (h.complete.append_right _)

theorem contents_put (h : Balanced l) (a : α) : (l.put a).contents = l.contents ++ [some a] := by
  have hold : ∀ n ∈ l.queued, (l.arrived ++ [a])[n]? = l.arrived[n]? := by
    intro n hn
    exact List.getElem?_append_left (h.lt_of_mem_queued hn)
  simp only [contents, put, List.map_append, List.map_congr_left hold, List.map_cons, List.map_nil]
  simp

theorem Balanced.take (h : Balanced l) {i : ℕ} (hi : i < l.queued.length) : Balanced (l.take i) := by
  constructor
  · exact h.ordered.sublist (List.eraseIdx_sublist _ _)
  · have hget : l.queued[i]?.toList = [l.queued[i]] := by
      rw [List.getElem?_eq_getElem hi]
      rfl
    have hperm : (l.queued.eraseIdx i ++ (l.taken ++ [l.queued[i]])).Perm (l.queued ++ l.taken) := by
      have hcons := List.getElem_cons_eraseIdx_perm hi
      refine List.Perm.trans ?_ (hcons.append_right l.taken)
      rw [← List.append_assoc]
      exact List.perm_append_comm
    simp only [Ledger.take, hget]
    exact hperm.trans h.complete

theorem contents_take (l : Ledger α) (i : ℕ) : (l.take i).contents = l.contents.eraseIdx i := by
  simp only [contents, take, List.eraseIdx_map]

end Ledger

end NetTools
