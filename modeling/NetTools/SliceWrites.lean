import NetTools.CArray
import Mathlib.Data.List.GetD

namespace NetTools.SliceWrites

open CArray

variable {ι α : Type*} [DecidableEq ι]

/-- `memcpy(a+p, xs, n)` for the `n` elements of `xs`. -/
def blit (a : ℕ → α) (p : ℕ) (xs : List α) : ℕ → α :=
  fun j => if p ≤ j then xs.getD (j-p) (a j) else a j

/-- Append by append: the writer's cursor moves past what it wrote. -/
def appends (a : ℕ → α) (cursor : ι → ℕ) : List (ι × List α) → (ℕ → α)
  | [] => a
  | (i, xs) :: rest =>
    appends (blit a (cursor i) xs) (Function.update cursor i (cursor i+xs.length)) rest

/-- What writer `i` appends in the schedule, in order. -/
def written (i : ι) (schedule : List (ι × List α)) : List α :=
  (schedule.filter fun p => p.1 = i).flatMap Prod.snd

/-- The writers' regions in a schedule do not overlap. -/
def Separate (cursor : ι → ℕ) (schedule : List (ι × List α)) : Prop :=
  ∀ i j p, i ≠ j → cursor i ≤ p → p < cursor i+(written i schedule).length →
    cursor j ≤ p → ¬ p < cursor j+(written j schedule).length

theorem blit_of_lt (a : ℕ → α) (p : ℕ) (xs : List α) {j : ℕ} (hj : j < p) :
    blit a p xs j = a j :=
  if_neg (by omega)

theorem blit_of_ge (a : ℕ → α) (p : ℕ) (xs : List α) {j : ℕ} (hj : p+xs.length ≤ j) :
    blit a p xs j = a j := by
  rw [blit, if_pos (by omega)]
  exact List.getD_eq_default _ _ (by omega)

theorem blit_add (a : ℕ → α) (p : ℕ) (xs : List α) {k : ℕ} (hk : k < xs.length) :
    blit a p xs (p+k) = xs[k] := by
  rw [blit, if_pos (by omega), Nat.add_sub_cancel_left]
  exact List.getD_eq_getElem _ _ hk

@[simp] theorem written_nil (i : ι) : written i ([] : List (ι × List α)) = [] := rfl

theorem written_cons (i j : ι) (xs : List α) (rest : List (ι × List α)) :
    written i ((j, xs) :: rest) = if j = i then xs ++ written i rest else written i rest := by
  unfold written
  by_cases h : j = i
  · rw [if_pos h, List.filter_cons_of_pos (by simpa using h), List.flatMap_cons]
  · rw [if_neg h, List.filter_cons_of_neg (by simpa using h)]

/-- One more append at the end of a schedule: its writer is behind all that it has written. -/
theorem appends_concat (a : ℕ → α) (cursor : ι → ℕ) (schedule : List (ι × List α)) (i : ι)
    (xs : List α) : appends a cursor (schedule ++ [(i, xs)]) =
      blit (appends a cursor schedule) (cursor i+(written i schedule).length) xs := by
  induction schedule generalizing a cursor with
  | nil => rfl
  | cons head rest ih =>
    obtain ⟨j, ys⟩ := head
    rw [List.cons_append, appends, appends, ih, written_cons]
    by_cases hji : j = i
    · subst hji
      rw [if_pos rfl, Function.update_self, List.length_append, Nat.add_assoc]
    · rw [if_neg hji, Function.update_of_ne (Ne.symm hji)]

/-- After its first append the regions of the rest of the schedule are still separate. -/
theorem Separate.tail {cursor : ι → ℕ} {i : ι} {xs : List α} {rest : List (ι × List α)}
    (h : Separate cursor ((i, xs) :: rest)) :
    Separate (Function.update cursor i (cursor i+xs.length)) rest := by
  intro j k p hjk hj hj' hk hk'
  have hend (l : ι) (hl : p < Function.update cursor i (cursor i+xs.length) l +
      (written l rest).length) : p < cursor l+(written l ((i, xs) :: rest)).length := by
    rw [written_cons]
    rw [Function.update_apply] at hl
    by_cases hli : i = l
    · subst hli
      simp only [↓reduceIte, List.length_append] at hl ⊢
      omega
    · rw [if_neg hli]
      rwa [if_neg (Ne.symm hli)] at hl
  have hbegin (l : ι) (hl : Function.update cursor i (cursor i+xs.length) l ≤ p) :
      cursor l ≤ p := by
    rw [Function.update_apply] at hl
    split_ifs at hl with hli
    · subst hli
      omega
    · exact hl
  exact h j k p hjk (hbegin j hj) (hend j hj') (hbegin k hk) (hend k hk')

/-- An address that no writer reaches keeps its contents. -/
theorem appends_outside (a : ℕ → α) (cursor : ι → ℕ) (schedule : List (ι × List α)) {p : ℕ}
    (hp : ∀ i, p < cursor i ∨ cursor i+(written i schedule).length ≤ p) :
    appends a cursor schedule p = a p := by
  induction schedule generalizing a cursor with
  | nil => rfl
  | cons head rest ih =>
    obtain ⟨i, xs⟩ := head
    have hi := hp i
    rw [written_cons, if_pos rfl, List.length_append] at hi
    have hblit : blit a (cursor i) xs p = a p := by
      rcases hi with hi | hi
      · exact blit_of_lt a _ xs hi
      · exact blit_of_ge a _ xs (by omega)
    rw [appends, ih, hblit]
    -- the moved cursor leaves the writer's remaining region as it was
    intro j
    by_cases hji : j = i
    · subst hji
      rw [Function.update_self]
      omega
    · have hj := hp j
      rw [written_cons, if_neg (Ne.symm hji)] at hj
      rwa [Function.update_of_ne hji]

/-- Every writer finds in its region exactly what it appended, whatever the order in
which the appends of the writers were interleaved. -/
theorem appends_region (a : ℕ → α) (cursor : ι → ℕ) (schedule : List (ι × List α))
    (hs : Separate cursor schedule) (i : ι) {k : ℕ} (hk : k < (written i schedule).length) :
    appends a cursor schedule (cursor i+k) = (written i schedule)[k] := by
  induction schedule generalizing a cursor k with
  | nil => simp at hk
  | cons head rest ih =>
    obtain ⟨j, xs⟩ := head
    rw [appends]
    by_cases hji : j = i
    · subst hji
      have hw : written j ((j, xs) :: rest) = xs ++ written j rest := by
        rw [written_cons, if_pos rfl]
      by_cases hkx : k < xs.length
      · -- the byte was written by this append, and no later one reaches it
        rw [appends_outside, blit_add a _ xs hkx]
        · simp only [hw, List.getElem_append_left hkx]
        · intro l
          by_cases hlj : l = j
          · subst hlj
            rw [Function.update_self]
            omega
          · have hsep := hs j l (cursor j+k) (Ne.symm hlj) (by omega) (by omega)
            rw [written_cons, if_neg (Ne.symm hlj)] at hsep
            rw [Function.update_of_ne hlj]
            omega
      -- the byte comes with a later append of the same writer
      · have hk' : k-xs.length < (written j rest).length := by
          rw [hw, List.length_append] at hk
          omega
        have hrest := ih (blit a (cursor j) xs) _ hs.tail hk'
        rw [Function.update_self] at hrest
        have haddr : cursor j+k = cursor j+xs.length+(k-xs.length) := by omega
        simp only [hw, List.getElem_append_right (Nat.le_of_not_lt hkx)]
        rw [haddr, hrest]
    -- an append of another writer only moves that writer
    · have hw : written i ((j, xs) :: rest) = written i rest := by
        rw [written_cons, if_neg hji]
      simp only [hw] at hk ⊢
      have hrest := ih (blit a (cursor j) xs) _ hs.tail hk
      rwa [Function.update_of_ne (Ne.symm hji)] at hrest

/-- Writers whose slices cover a file, each appending its own slice in order, leave
the file in the buffer. -/
theorem slots_appends_eq (a : ℕ → α) (base : ι → ℕ) (schedule : List (ι × List α))
    (file : List α)
    (hslice : ∀ i p, base i ≤ p → p < base i+(written i schedule).length →
      file[p]? = (written i schedule)[p-base i]?)
    (hcover : ∀ p < file.length, ∃ i, base i ≤ p ∧ p < base i+(written i schedule).length)
    (hs : Separate base schedule) :
    slots (appends a base schedule) file.length = file := by
  apply List.ext_getElem
  · exact slots_length _ _
  · intro p hp hp'
    rw [slots_getElem]
    obtain ⟨i, hi, hi'⟩ := hcover p hp'
    have hk : p-base i < (written i schedule).length := by omega
    have hregion := appends_region a base schedule hs i hk
    rw [Nat.add_sub_cancel' hi] at hregion
    have hfile := hslice i p hi hi'
    rw [List.getElem?_eq_getElem hp', List.getElem?_eq_getElem hk, Option.some.injEq] at hfile
    rw [hregion, hfile]

end NetTools.SliceWrites
