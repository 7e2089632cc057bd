import Mathlib.Data.List.Basic
import Mathlib.Data.List.Nodup
import Mathlib.Data.List.Perm.Basic
import Mathlib.Logic.Function.Basic

namespace NetTools.CArray

variable {α : Type*}

/-- The contents of the first `n` slots. -/
def slots (a : ℕ → α) (n : ℕ) : List α := (List.range n).map a

/-- `for (i = 0; i < n; i++) if (p(a[i])) break;` -/
def search (p : α → Bool) (a : ℕ → α) (n : ℕ) : Option ℕ :=
  (List.range n).find? fun i => p (a i)

/-- `for (i = t; i < t+k; i++) a[i] = a[i+1];` -/
def shiftDown (a : ℕ → α) (t : ℕ) : ℕ → ℕ → α
  | 0 => a
  | k+1 => shiftDown (Function.update a t (a (t+1))) (t+1) k

@[simp] theorem slots_length (a : ℕ → α) (n : ℕ) : (slots a n).length = n := by
  simp [slots]

@[simp] theorem slots_zero (a : ℕ → α) : slots a 0 = [] := rfl

@[simp] theorem slots_getElem (a : ℕ → α) (n i : ℕ) (hi : i < (slots a n).length) :
    (slots a n)[i] = a i := by
  simp [slots]

theorem mem_slots {a : ℕ → α} {n : ℕ} {x : α} : x ∈ slots a n ↔ ∃ i < n, a i = x := by
  simp [slots]

theorem slots_congr {a b : ℕ → α} {n : ℕ} (h : ∀ i < n, a i = b i) : slots a n = slots b n := by
  apply List.map_congr_left
  intro i hi
  exact h i (List.mem_range.mp hi)

theorem slots_succ (a : ℕ → α) (n : ℕ) : slots a (n+1) = slots a n ++ [a n] := by
  simp [slots, List.range_succ]

/-- Writing past the used slots does not change them. -/
theorem slots_update_of_le (a : ℕ → α) {n i : ℕ} (x : α) (hi : n ≤ i) :
    slots (Function.update a i x) n = slots a n := by
  apply slots_congr
  intro j hj
  exact Function.update_of_ne (by omega) _ _

theorem slots_push (a : ℕ → α) (n : ℕ) (x : α) :
    slots (Function.update a n x) (n+1) = slots a n ++ [x] := by
  rw [slots_succ, slots_update_of_le a x (Nat.le_refl n), Function.update_self]

theorem slots_nodup_iff {a : ℕ → α} {n : ℕ} :
    (slots a n).Nodup ↔ ∀ i < n, ∀ j < n, a i = a j → i = j := by
  rw [slots, List.nodup_map_iff_inj_on List.nodup_range]
  simp only [List.mem_range]

theorem search_eq_some {p : α → Bool} {a : ℕ → α} {n i : ℕ} (h : search p a n = some i) :
    i < n ∧ p (a i) = true ∧ ∀ j < i, p (a j) = false := by
  obtain ⟨hp, hi, hj⟩ := List.find?_range_eq_some.mp h
  exact ⟨List.mem_range.mp hi, hp, fun j hji => by simpa using hj j hji⟩

theorem search_eq_none {p : α → Bool} {a : ℕ → α} {n : ℕ} (h : search p a n = none) :
    ∀ i < n, p (a i) = false := by
  intro i hi
  simpa using List.find?_eq_none.mp h i (List.mem_range.mpr hi)

/-- A search for one of pairwise distinct contents finds its slot. -/
theorem search_eq_of_nodup [BEq α] [LawfulBEq α] {a : ℕ → α} {n i : ℕ} (hd : (slots a n).Nodup)
    (hi : i < n) : search (fun x => x == a i) a n = some i := by
  cases hs : search (fun x => x == a i) a n with
  | none => simpa using search_eq_none hs i hi
  | some k =>
    obtain ⟨hk, hp, -⟩ := search_eq_some hs
    exact congrArg some (slots_nodup_iff.mp hd k hk i hi (by simpa using hp))

theorem search_isSome_iff [BEq α] [LawfulBEq α] {a : ℕ → α} {n : ℕ} {x : α} :
    (search (fun y => y == x) a n).isSome = true ↔ x ∈ slots a n := by
  cases hs : search (fun y => y == x) a n with
  | none =>
    have hn := search_eq_none hs
    simp only [Option.isSome_none, Bool.false_eq_true, false_iff, mem_slots, not_exists, not_and]
    intro i hi he
    simpa [he] using hn i hi
  | some k =>
    obtain ⟨hk, hp, -⟩ := search_eq_some hs
    simp only [Option.isSome_some, true_iff]
    exact mem_slots.mpr ⟨k, hk, by simpa using hp⟩

/-- What the shift leaves in each slot. -/
theorem shiftDown_apply (a : ℕ → α) (t k j : ℕ) :
    shiftDown a t k j = if t ≤ j ∧ j < t+k then a (j+1) else a j := by
  induction k generalizing a t with
  | zero =>
    rw [shiftDown, if_neg (by omega)]
  | succ k ih =>
    rw [shiftDown, ih]
    -- slot `t` is written first, and the later turns read only slots behind it
    by_cases hjt : j = t
    · subst hjt
      rw [if_neg (by omega), if_pos (by omega), Function.update_self]
    · rw [Function.update_of_ne hjt]
      by_cases hj : t+1 ≤ j ∧ j < t+1+k
      · rw [if_pos hj, if_pos (by omega), Function.update_of_ne (by omega)]
      · rw [if_neg hj, if_neg (by omega)]

/-- Shifting from slot `t` to the end and dropping the last slot erases slot `t`. -/
theorem slots_shiftDown (a : ℕ → α) {n t : ℕ} (ht : t < n) :
    slots (shiftDown a t (n-1-t)) (n-1) = (slots a n).eraseIdx t := by
  apply List.ext_getElem
  · rw [slots_length, List.length_eraseIdx, slots_length, if_pos ht]
  · intro j hj hj'
    have hjn : j < n-1 := by simpa using hj
    rw [slots_getElem, shiftDown_apply, List.getElem_eraseIdx]
    by_cases hjt : j < t
    · rw [if_neg (by omega), dif_pos hjt, slots_getElem]
    · rw [if_pos (by omega), dif_neg hjt, slots_getElem]

/-- Moving the last slot over slot `i` removes the contents of slot `i`. -/
theorem slots_moveLast_perm (a : ℕ → α) {n i : ℕ} (hi : i < n) :
    (a i :: slots (Function.update a i (a (n-1))) (n-1)).Perm (slots a n) := by
  obtain ⟨m, rfl⟩ : ∃ m, n = m+1 := ⟨n-1, by omega⟩
  rw [Nat.add_sub_cancel, slots_succ]
  by_cases him : i = m
  · subst him
    rw [Function.update_eq_self]
    exact (List.perm_append_singleton (a i) (slots a i)).symm
  · have hset : slots (Function.update a i (a m)) m = (slots a m).set i (a m) := by
      apply List.ext_getElem
      · simp
      · intro j hj hj'
        rw [slots_getElem, List.getElem_set, slots_getElem, Function.update_apply]
        simp only [eq_comm]
    have hlen : i < (slots a m).length := by rw [slots_length]; omega
    have hsplit : slots a m = (slots a m).take i ++ a i :: (slots a m).drop (i+1) := by
      conv_lhs => rw [← List.take_append_drop i (slots a m)]
      rw [List.drop_eq_getElem_cons hlen, slots_getElem]
    rw [hset, List.set_eq_take_append_cons_drop, if_pos hlen]
    conv_rhs => rw [hsplit]
    rw [List.append_assoc, List.cons_append]
    refine (List.Perm.trans ?_ List.perm_middle.symm)
    apply List.Perm.cons
    exact List.perm_middle.trans (List.perm_append_singleton _ _).symm |>.trans
      (by rw [List.append_assoc])

end NetTools.CArray
