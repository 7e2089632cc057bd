import NetTools.Schedule

namespace NetTools.WorkerPool

open Schedule

/-- The program of a worker: `holds` says that it is inside the critical section. -/
structure Worker (σ α : Type*) where
  step : σ → α → Option σ
  holds : σ → Bool

/-- `lock` is the worker that has the lock. -/
structure Pool (σ : Type*) where
  lock : Option ℕ
  workers : ℕ → σ

variable {σ α : Type*} (W : Worker σ α)

namespace Pool

/-- The lock after worker `i` has gone from `w` to `w'`; `none` while it waits for the lock. -/
def lockAfter (s : Pool σ) (i : ℕ) (w w' : σ) : Option (Option ℕ) :=
  if W.holds w = W.holds w' then some s.lock
  else if W.holds w' then if s.lock = none then some (some i) else none
  else some none

/-- One step of worker `i`. -/
def step (s : Pool σ) (i : ℕ) (a : α) : Option (Pool σ) :=
  (W.step (s.workers i) a).bind fun w' =>
    (s.lockAfter W i (s.workers i) w').map fun lock => ⟨lock, Function.update s.workers i w'⟩

/-- Exactly the worker that has the lock is in the critical section. -/
def Guarded (s : Pool σ) : Prop := ∀ i, s.lock = some i ↔ W.holds (s.workers i) = true

variable {W} {s t : Pool σ} {i : ℕ} {a : α}

theorem step_eq_some (h : s.step W i a = some t) :
    ∃ w', W.step (s.workers i) a = some w' ∧ s.lockAfter W i (s.workers i) w' = some t.lock ∧
      t.workers = Function.update s.workers i w' := by
  obtain ⟨w', hw, h⟩ := Option.bind_eq_some_iff.mp h
  obtain ⟨lock, hlock, rfl⟩ := Option.map_eq_some_iff.mp h
  exact ⟨w', hw, hlock, rfl⟩

/-- Two workers are never in the critical section at the same time. -/
theorem Guarded.exclusive (h : s.Guarded W) {j : ℕ} (hi : W.holds (s.workers i) = true)
    (hj : W.holds (s.workers j) = true) : i = j := by
  have heq : some i = some j := ((h i).mpr hi).symm.trans ((h j).mpr hj)
  exact Option.some.inj heq

theorem Guarded.step (h : s.Guarded W) (hs : s.step W i a = some t) : t.Guarded W := by
  obtain ⟨w', -, hlock, hworkers⟩ := step_eq_some hs
  intro j
  rw [hworkers]
  rw [lockAfter] at hlock
  by_cases hji : j = i
  · subst hji
    rw [Function.update_self]
    split_ifs at hlock with hsame hin hfree
    · rw [← Option.some.inj hlock, h j, hsame]
    · rw [← Option.some.inj hlock]
      exact iff_of_true rfl hin
    · rw [← Option.some.inj hlock]
      exact iff_of_false (by simp) hin
  · rw [Function.update_of_ne hji, ← h j]
    split_ifs at hlock with hsame hin hfree
    · rw [← Option.some.inj hlock]
    · rw [← Option.some.inj hlock, hfree, Option.some.injEq]
      exact iff_of_false (Ne.symm hji) (by simp)
    -- the lock that is given back was the one of `i`
    · have hheld : W.holds (s.workers i) = true := by
        cases hw : W.holds (s.workers i) with
        | true => rfl
        | false => simp [hw, hin] at hsame
      rw [← Option.some.inj hlock, (h i).mpr hheld, Option.some.injEq]
      exact iff_of_false (by simp) (Ne.symm hji)

/-- A worker that has the lock does not wait, and nobody waits for a lock that is free. -/
theorem exists_step {w' : σ} (hw : W.step (s.workers i) a = some w')
    (hfree : W.holds (s.workers i) = true ∨ s.lock = none) : ∃ t, s.step W i a = some t := by
  have hlock : ∃ lock, s.lockAfter W i (s.workers i) w' = some lock := by
    rw [lockAfter]
    by_cases hsame : W.holds (s.workers i) = W.holds w'
    · exact ⟨s.lock, if_pos hsame⟩
    · rw [if_neg hsame]
      rcases hfree with hheld | hnone
      · exact ⟨none, if_neg fun hin => hsame (hheld.trans hin.symm)⟩
      · rw [if_pos hnone]
        split_ifs
        · exact ⟨some i, rfl⟩
        · exact ⟨none, rfl⟩
  obtain ⟨lock, hlock⟩ := hlock
  refine ⟨⟨lock, Function.update s.workers i w'⟩, ?_⟩
  rw [Pool.step, hw, Option.bind_some, hlock, Option.map_some]

/-- The lock is no reason for all of them to wait: if every running worker could go on by itself,
one of them can, and it is the one with the lock if there is one. -/
theorem Guarded.exists_step {C : α → Prop} {Running : ℕ → Prop} (h : s.Guarded W)
    (hruns : ∀ i, Running i → ∃ a w', C a ∧ W.step (s.workers i) a = some w')
    (hholds : ∀ i, W.holds (s.workers i) = true → Running i) (hi : Running i) :
    ∃ j a t, Running j ∧ C a ∧ s.step W j a = some t := by
  cases hlock : s.lock with
  | some j =>
    have hj : W.holds (s.workers j) = true := (h j).mp hlock
    obtain ⟨a, w', hc, hw⟩ := hruns j (hholds j hj)
    obtain ⟨t, ht⟩ := Pool.exists_step hw (Or.inl hj)
    exact ⟨j, a, t, hholds j hj, hc, ht⟩
  | none =>
    obtain ⟨a, w', hc, hw⟩ := hruns i hi
    obtain ⟨t, ht⟩ := Pool.exists_step hw (Or.inr hlock)
    exact ⟨i, a, t, hi, hc, ht⟩

end Pool

end NetTools.WorkerPool
