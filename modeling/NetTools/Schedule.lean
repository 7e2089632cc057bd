import Mathlib.Logic.Function.Basic
import Mathlib.Data.List.Basic
import Mathlib.Algebra.Order.BigOperators.Group.Finset
import Mathlib.Algebra.BigOperators.Group.Finset.Basic

/-! Schedules of an executable, partial step function. A condition on steps picks
out the schedules a result is about; the constant condition picks all of them. -/
namespace NetTools.Schedule

variable {S A : Type*}

/-- The states reached by schedules all of whose steps meet `C`. -/
inductive Reachable (step : S → A → Option S) (C : S → A → Prop) (s₀ : S) : S → Prop
  | start : Reachable step C s₀ s₀
  | step {s t : S} {a : A} :
      Reachable step C s₀ s → C s a → step s a = some t → Reachable step C s₀ t

/-- The condition that every step meets. -/
def anyStep : S → A → Prop := fun _ _ => True

variable {step : S → A → Option S} {C D : S → A → Prop} {s₀ s t : S}

/-- What holds at the start and survives every step that meets `C` holds throughout. -/
theorem Reachable.invariant {P : S → Prop} (h0 : P s₀)
    (hstep : ∀ s a t, P s → C s a → step s a = some t → P t)
    (h : Reachable step C s₀ s) : P s := by
  induction h with
  | start => exact h0
  | step _ hc hs ih => exact hstep _ _ _ ih hc hs

theorem Reachable.mono (hCD : ∀ s a, C s a → D s a) (h : Reachable step C s₀ s) :
    Reachable step D s₀ s := by
  induction h with
  | start => exact .start
  | step _ hc hs ih => exact .step ih (hCD _ _ hc) hs

theorem Reachable.any (h : Reachable step C s₀ s) : Reachable step anyStep s₀ s :=
  h.mono fun _ _ _ => trivial

theorem Reachable.trans (h : Reachable step C s₀ s) (h' : Reachable step C s t) :
    Reachable step C s₀ t := by
  induction h' with
  | start => exact h
  | step _ hc hs ih => exact .step ih hc hs

theorem Reachable.single {a : A} (hc : C s a) (hs : step s a = some t) :
    Reachable step C s t :=
  .step .start hc hs

/-- Replay that also checks the condition at every step. -/
def replayIf (step : S → A → Option S) (C : S → A → Prop) [∀ s a, Decidable (C s a)] (s : S) :
    List A → Option S
  | [] => some s
  | a :: as => if C s a then (step s a).bind fun t => replayIf step C t as else none

/-- A checked schedule reaches its last state. -/
theorem reachable_of_replayIf [∀ s a, Decidable (C s a)] (as : List A) (s t : S)
    (h : replayIf step C s as = some t) : Reachable step C s t := by
  induction as generalizing s with
  | nil =>
    cases h
    exact .start
  | cons a as ih =>
    simp only [replayIf, Option.ite_none_right_eq_some] at h
    obtain ⟨hc, h⟩ := h
    obtain ⟨u, hu, ht⟩ := Option.bind_eq_some_iff.mp h
    exact (Reachable.single hc hu).trans (ih u ht)

/-- A schedule is checked piece by piece. -/
theorem replayIf_append [∀ s a, Decidable (C s a)] (as bs : List A) (s : S) :
    replayIf step C s (as ++ bs) = (replayIf step C s as).bind fun t => replayIf step C t bs := by
  induction as generalizing s with
  | nil => rfl
  | cons a as ih =>
    simp only [List.cons_append, replayIf]
    split_ifs
    · rw [Option.bind_assoc]
      exact Option.bind_congr fun t _ => ih t
    · rfl

/-- When every step that keeps `P` spends some of a measure, a checked schedule is no longer
than what it has spent. -/
theorem replayIf_spends [∀ s a, Decidable (C s a)] {P : S → Prop} (measure : S → ℕ)
    (hstep : ∀ s a t, P s → C s a → step s a = some t → P t ∧ measure t < measure s) {as : List A}
    {s t : S} (hs : P s) (h : replayIf step C s as = some t) :
    P t ∧ as.length+measure t ≤ measure s := by
  induction as generalizing s with
  | nil =>
    cases h
    exact ⟨hs, by simp⟩
  | cons a as ih =>
    simp only [replayIf, Option.ite_none_right_eq_some] at h
    obtain ⟨hc, h⟩ := h
    obtain ⟨u, hu, ht⟩ := Option.bind_eq_some_iff.mp h
    obtain ⟨hPu, hlt⟩ := hstep s a u hs hc hu
    obtain ⟨hPt, hle⟩ := ih hPu ht
    refine ⟨hPt, ?_⟩
    rw [List.length_cons]
    omega

/-- In a system of several parties, one party's rank falls and no other changes: the sum of the
ranks falls. -/
theorem sum_rank_lt {n i : ℕ} {rank rank' : ℕ → ℕ} (hi : i < n) (hlt : rank' i < rank i)
    (hkeep : ∀ j, j ≠ i → rank' j = rank j) :
    ∑ j ∈ Finset.range n, rank' j < ∑ j ∈ Finset.range n, rank j := by
  apply Finset.sum_lt_sum
  · intro j _
    by_cases hj : j = i
    · subst hj
      exact hlt.le
    · exact (hkeep j hj).le
  · exact ⟨i, Finset.mem_range.mpr hi, hlt⟩

/-- A checked schedule is found to end in a state with a decidable property. -/
theorem exists_reachable_of_replayIf [∀ s a, Decidable (C s a)] (as : List A) (P : S → Prop)
    [DecidablePred P] (h : (replayIf step C s₀ as).any (fun s => decide (P s)) = true) :
    ∃ s, Reachable step C s₀ s ∧ P s := by
  cases hs : replayIf step C s₀ as with
  | none =>
    rw [hs] at h
    cases h
  | some s =>
    rw [hs] at h
    exact ⟨s, reachable_of_replayIf as s₀ s hs, of_decide_eq_true h⟩

/-- A condition is exact for a property that no step gives back: the schedules that meet it
are those that end in a state with the property. -/
theorem reachable_iff_of_exact {P : S → Prop} (h0 : P s₀)
    (hexact : ∀ s a t, Reachable step anyStep s₀ s → step s a = some t → (P t ↔ P s ∧ C s a)) :
    Reachable step C s₀ s ↔ Reachable step anyStep s₀ s ∧ P s := by
  constructor
  · intro h
    induction h with
    | start => exact ⟨.start, h0⟩
    | step _ hc hs ih => exact ⟨.step ih.1 trivial hs, (hexact _ _ _ ih.1 hs).mpr ⟨ih.2, hc⟩⟩
  · rintro ⟨h, hP⟩
    induction h with
    | start => exact .start
    | step hr _ hs ih =>
      obtain ⟨hPs, hc⟩ := (hexact _ _ _ hr hs).mp hP
      exact .step (ih hPs) hc hs

instance : ∀ (s : S) (a : A), Decidable (anyStep s a) := fun _ _ => inferInstanceAs (Decidable True)

end NetTools.Schedule
