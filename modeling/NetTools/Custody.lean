import Mathlib.Logic.Function.Basic
import Mathlib.Data.List.Basic

namespace NetTools.Custody

variable {R : Type*} [DecidableEq R]

inductive Op (R : Type*)
  | acquire (r : R)
  | release (r : R)

def step (held : R → ℕ) : Op R → Option (R → ℕ)
  | .acquire r => some (Function.update held r (held r+1))
  | .release r => if held r = 0 then none else some (Function.update held r (held r-1))

def run (held : R → ℕ) : List (Op R) → Option (R → ℕ)
  | [] => some held
  | op :: ops => (step held op).bind fun held => run held ops

/-- The count of one resource. -/
def balance (r : R) (n : ℕ) : List (Op R) → Option ℕ
  | [] => some n
  | .acquire q :: ops => balance r (if q = r then n+1 else n) ops
  | .release q :: ops =>
    if q = r then (if n = 0 then none else balance r (n-1) ops) else balance r n ops

variable {held held' : R → ℕ} {ops : List (Op R)} {r q : R} {n : ℕ}

@[simp] theorem balance_nil : balance r n [] = some n := rfl

theorem balance_cons_release_self :
    balance r n (.release r :: ops) = if n = 0 then none else balance r (n-1) ops :=
  if_pos rfl

/-- What is acquired and released at once changes nothing. -/
theorem balance_borrow (r q : R) (n : ℕ) (ops : List (Op R)) :
    balance r n (.acquire q :: .release q :: ops) = balance r n ops := by
  by_cases h : q = r
  · simp [balance, h]
  · simp [balance, h]

theorem balance_append (xs ys : List (Op R)) :
    balance r n (xs ++ ys) = (balance r n xs).bind fun m => balance r m ys := by
  induction xs generalizing n with
  | nil => rfl
  | cons op xs ih =>
    cases op with
    | acquire q => exact ih
    | release q =>
      simp only [List.cons_append, balance]
      split_ifs
      · rfl
      · exact ih
      · exact ih

/-- A run is a run of every single count. -/
theorem run_eq_some_iff : run held ops = some held' ↔ ∀ r, balance r (held r) ops = some (held' r) := by
  induction ops generalizing held with
  | nil => simp only [run, balance, Option.some.injEq, funext_iff]
  | cons op ops ih =>
    cases op with
    | acquire q =>
      simp only [run, step, Option.bind_some, ih, balance, Function.update_apply]
      refine forall_congr' fun r => ?_
      by_cases h : r = q
      · subst h
        simp
      · simp [h, Ne.symm h]
    | release q =>
      by_cases hq : held q = 0
      · simp only [run, step, if_pos hq, Option.bind_none, reduceCtorEq, false_iff, not_forall]
        refine ⟨q, ?_⟩
        rw [balance_cons_release_self, if_pos hq]
        exact (Option.some_ne_none _).symm
      · simp only [run, step, if_neg hq, Option.bind_some, ih, balance, Function.update_apply]
        refine forall_congr' fun r => ?_
        by_cases h : r = q
        · subst h
          simp [hq]
        · simp [h, Ne.symm h]

/-- A run goes wrong exactly when one count does. -/
theorem run_eq_none_iff : run held ops = none ↔ ∃ r, balance r (held r) ops = none := by
  constructor
  · intro h
    by_contra hall
    rw [not_exists] at hall
    have hsome (r : R) : balance r (held r) ops = some ((balance r (held r) ops).getD 0) := by
      obtain ⟨n, hn⟩ := Option.ne_none_iff_exists'.mp (hall r)
      rw [hn, Option.getD_some]
    rw [run_eq_some_iff.mpr hsome] at h
    cases h
  · rintro ⟨r, hr⟩
    cases h : run held ops with
    | none => rfl
    | some held' =>
      rw [run_eq_some_iff.mp h r] at hr
      cases hr

end NetTools.Custody
