import NetTools.Schedule

namespace NetTools.Monitors

open Schedule

/-- `ready` says that what a thread waits for is there, `owes` that the thread in the critical
section still has to broadcast. -/
structure Monitor (S T : Type*) where
  asleep : S → T → Prop
  ready : S → T → Prop
  owes : S → Prop

/-- What a step does to the sleepers: nobody falls asleep with what it waits for at hand, it
comes only with a broadcast to follow, and a broadcast stays due until all are woken. -/
structure Disciplined {S T : Type*} (M : Monitor S T) (s t : S) : Prop where
  sleeps : ∀ x, M.asleep t x → ¬ M.asleep s x → ¬ M.ready t x
  arrives : ∀ x, M.asleep s x → M.asleep t x → M.ready t x → M.ready s x ∨ M.owes t
  pays : M.owes s → M.owes t ∨ ∀ x, ¬ M.asleep t x

variable {S T A : Type*} {M : Monitor S T} {step : S → A → Option S} {C : S → A → Prop} {s₀ s t : S}

/-- A sleeper that could go on is about to be woken. -/
def Sound (M : Monitor S T) (s : S) : Prop := ∀ x, M.asleep s x → M.ready s x → M.owes s

theorem sound_step (h : Sound M s) (hd : Disciplined M s t) : Sound M t := by
  intro x ha hr
  by_cases hs : M.asleep s x
  · rcases hd.arrives x hs ha hr with hready | howes
    · rcases hd.pays (h x hs hready) with howes | hnone
      · exact howes
      · exact absurd ha (hnone x)
    · exact howes
  · exact absurd hr (hd.sleeps x ha hs)

theorem sound_of_reachable (h0 : ∀ x, ¬ M.asleep s₀ x)
    (hstep : ∀ s a t, Reachable step C s₀ s → C s a → step s a = some t → Disciplined M s t)
    (h : Reachable step C s₀ s) : Sound M s := by
  induction h with
  | start => exact fun x ha => absurd ha (h0 x)
  | step hr hc hs ih => exact sound_step ih (hstep _ _ _ hr hc hs)

/-- Once the broadcast is made no sleeper could go on. -/
theorem Sound.not_ready (h : Sound M s) (howes : ¬ M.owes s) {x : T} (ha : M.asleep s x) :
    ¬ M.ready s x :=
  fun hr => howes (h x ha hr)

end NetTools.Monitors
