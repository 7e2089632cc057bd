import NetTools.IRCRegistry

namespace NetTools.IRC

open CText CArray Schedule Registry

/-- The session whose handler (or accept) takes the step. -/
def Action.actor : Action → ℕ
  | .accept x _ | .recvId x _ | .register x | .recvCommand x _ | .removeClient x
  | .exec x _ _ | .sendList x | .recvPort x _ => x

theorem put_sessions_ne (s : Server) {x y : ℕ} (ses : Session) (h : y ≠ x) :
    (s.put x ses).sessions y = s.sessions y :=
  Function.update_of_ne h _ _

@[simp] theorem put_sessions_self (s : Server) (x : ℕ) (ses : Session) :
    (s.put x ses).sessions x = some ses :=
  Function.update_self _ _ _

/-- A step leaves every session but its actor's alone. -/
theorem Step.sessions_ne {s t : Server} {a : Action} (h : Step s a t) {y : ℕ}
    (hy : y ≠ a.actor) : t.sessions y = s.sessions y := by
  cases h <;> exact put_sessions_ne s _ hy

/-- How a step can change the waiting list. -/
theorem Step.waiting {s t : Server} {a : Action} (h : Step s a t) :
    t.registry.waiting = s.registry.waiting ∨
    (s.mutex = none ∧ t.registry.waiting.Sublist s.registry.waiting) ∨
    ∃ x ses data, a = .recvPort x data ∧ s.sessions x = some ses ∧ ses.phase = .portRecv ∧
      s.mutex = some x ∧ 0 < atoi data ∧
      t.registry.waiting = s.registry.waiting ++ [ses.clientId] := by
  cases h with
  | register hx hp hm ht hr =>
    left
    obtain ⟨-, rfl⟩ := addClient_eq hr
    rfl
  | removeClient hx hp hm => exact Or.inl (removeClient_waiting _)
  | portOk hx hp hm hl hport hr =>
    exact Or.inr (Or.inr ⟨_, _, _, rfl, hx, hp, hm, hport, addWaiting_waiting hr⟩)
  | connect hx hp hc hm ht hi hr => exact Or.inr (Or.inl ⟨hm, removeWaiting_sublist hr⟩)
  | stopWait hx hp hc hm hr => exact Or.inr (Or.inl ⟨hm, removeWaiting_sublist hr⟩)
  | _ => exact Or.inl rfl

structure WaitLock (s : Server) : Prop where
  nodup : s.registry.waiting.Nodup
  holder : ∀ x ses, s.sessions x = some ses → ses.phase = .portRecv →
    s.mutex = some x ∧ ses.clientId ∉ s.registry.waiting

theorem waitLock_start : WaitLock .start := by
  constructor
  · exact List.nodup_nil
  · intro x ses hx
    cases hx

/-- The actor of a step is in `portRecv` afterwards only by taking the lock. -/
theorem Step.actor_portRecv {s t : Server} {a : Action} (h : Step s a t) {ses : Session}
    (hx : t.sessions a.actor = some ses) (hp : ses.phase = .portRecv) :
    t.mutex = some a.actor ∧ ses.clientId ∉ t.registry.waiting := by
  cases h with
  | @waitLock x ses' buffer g k hx' hp' hc hm hi =>
    have he : ses'.at .portRecv = ses := by
      simpa [Server.withMutex, Action.actor] using hx
    subst he
    exact ⟨rfl, waitingIndex_none_iff.mp hi⟩
  | _ =>
    -- on every other path the actor ends in some other phase
    rw [← Option.some.inj ((put_sessions_self s _ _).symm.trans hx)] at hp
    cases hp

/-- While a session other than the actor waits for its port, the lock stays taken
and the waiting list stays as it is. -/
theorem Step.held {s t : Server} {a : Action} (h : Step s a t) {y : ℕ}
    (hm : s.mutex = some y) (hy : y ≠ a.actor) :
    t.mutex = some y ∧ t.registry.waiting = s.registry.waiting := by
  have hlock : t.mutex = some y := by
    cases h with
    | waitLock hx hp hc hm' hi => exact absurd (hm'.symm.trans hm) (by simp)
    | portOk hx hp hm' => exact absurd (Option.some.inj (hm.symm.trans hm')) hy
    | portBad hx hp hm' => exact absurd (Option.some.inj (hm.symm.trans hm')) hy
    | _ => exact hm
  refine ⟨hlock, ?_⟩
  rcases h.waiting with hw | ⟨hm', -⟩ | ⟨x, ses, data, rfl, -, -, hm', -⟩
  · exact hw
  · exact absurd (hm'.symm.trans hm) (by simp)
  · exact absurd (Option.some.inj (hm.symm.trans hm')) hy

theorem waitLock_step {s t : Server} {a : Action} (hs : WaitLock s) (h : Step s a t) :
    WaitLock t := by
  constructor
  · rcases h.waiting with hw | ⟨-, hw⟩ | ⟨x, ses, data, rfl, hx, hp, -, -, hw⟩
    · rw [hw]
      exact hs.nodup
    · exact hs.nodup.sublist hw
    · rw [hw, List.nodup_append_comm]
      exact List.nodup_cons.mpr ⟨(hs.holder x ses hx hp).2, hs.nodup⟩
  · intro y ses hy hp
    by_cases hya : y = a.actor
    · subst hya
      exact h.actor_portRecv hy hp
    · rw [h.sessions_ne hya] at hy
      obtain ⟨hm, hn⟩ := hs.holder y ses hy hp
      obtain ⟨hm', hw⟩ := h.held hm hya
      exact ⟨hm', hw ▸ hn⟩

theorem waitLock_of_reachable {C : Server → Action → Prop} {s : Server}
    (h : Reachable Server.step C .start s) : WaitLock s :=
  h.invariant waitLock_start fun _ _ _ hs _ hstep => waitLock_step hs (step_cases hstep)

end NetTools.IRC
