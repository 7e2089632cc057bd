import NetTools.IRCWaitLock

namespace NetTools.IRC

open CText CArray Schedule Registry

/-- The handler is in `recv` on the socket of its client. -/
def Phase.receiving : Phase → Bool
  | .joining | .reading | .portRecv => true
  | _ => false

/-- The handler has something to do that needs no more input of its client. -/
def Phase.busy : Phase → Bool
  | .registering | .running _ | .listing | .leaving => true
  | _ => false

/-- No handler waits for input of its client while it holds `client_mutex`. -/
def NoRecvUnderLock (s : Server) : Prop :=
  ∀ x ses, s.sessions x = some ses → s.mutex = some x → ses.phase.receiving = false

/-- The steps that the server takes by itself, with these values on the stacks of its handlers. -/
def ServerStep (stackId : Bytes) (stackIndex : Int) (_ : Server) : Action → Prop
  | .register _ | .removeClient _ | .sendList _ => True
  | .exec _ g k => g = stackId ∧ k = stackIndex
  | _ => False

/-- The pending command stays inside the arrays. A `/stop_wait` of a client that does not wait
takes its index from the stack. -/
def Fits (s : Server) (ses : Session) : Prop :=
  match ses.phase with
  | .registering => s.registry.idTaken ses.clientId = false → s.registry.clientCount < maxClients
  | .running buffer => (commandOf buffer = .connect → (connectTarget buffer []).isSome = true) ∧
      (commandOf buffer = .list → (Reply.waitingList s.registry.waiting).text.length < bufferSize) ∧
      (commandOf buffer = .stopWait → ses.clientId ∈ s.registry.waiting)
  | .listing => (Reply.waitingList s.registry.waiting).text.length < bufferSize
  | _ => True

/-- All pending commands do. -/
def AllFit (s : Server) : Prop := ∀ y ses, s.sessions y = some ses → Fits s ses

/-- With steps of the server alone session `y` gets to the end of its pending command. -/
def Completes (stackId : Bytes) (stackIndex : Int) (s : Server) (y : ℕ) : Prop :=
  ∃ t, Reachable Server.step (ServerStep stackId stackIndex) s t ∧
    ∃ ses, t.sessions y = some ses ∧ ses.phase.busy = false

/-- It does so whatever the stacks hold. -/
def CanComplete (s : Server) (y : ℕ) : Prop :=
  ∀ stackId stackIndex, Completes stackId stackIndex s y

/-- What the handlers owe to each other: no receive under the lock, and every pending
command can be completed. -/
structure Disciplined (s : Server) : Prop where
  noRecv : NoRecvUnderLock s
  complete : ∀ y ses, s.sessions y = some ses → ses.phase.busy = true → CanComplete s y

/-- A `/wait` is executed only for a client that is in the waiting list already. -/
def NoNewWaiter (s : Server) : Action → Prop
  | .exec x _ _ => ∀ ses ∈ s.sessions x, ∀ buffer ∈ ses.pending,
      commandOf buffer = .wait → ses.clientId ∈ s.registry.waiting
  | _ => True

instance (s : Server) : ∀ a, Decidable (NoNewWaiter s a)
  | .exec x _ _ => inferInstanceAs (Decidable (∀ ses ∈ s.sessions x, ∀ buffer ∈ ses.pending,
      commandOf buffer = .wait → ses.clientId ∈ s.registry.waiting))
  | .accept .. | .recvId .. | .register _ | .recvCommand .. | .removeClient _ | .sendList _
  | .recvPort .. => isTrue trivial

/-- The lock is taken over a step only by a new waiter. -/
theorem Step.mutex_none_iff {s t : Server} {a : Action} (h : Step s a t) (hm : s.mutex = none) :
    t.mutex = none ↔ NoNewWaiter s a := by
  have hkeep {x : ℕ} {ses : Session} {buffer g : Bytes} {k : Int} (hx : s.sessions x = some ses)
      (hp : ses.phase = .running buffer) (hc : commandOf buffer ≠ .wait) :
      NoNewWaiter s (.exec x g k) := by
    intro ses' hx' b hb hw
    obtain rfl : ses = ses' := Option.some.inj (hx.symm.trans hx')
    rw [Session.mem_pending, hp, Phase.running.injEq] at hb
    exact absurd (hb ▸ hw) hc
  cases h with
  | @waitLock x ses buffer g k hx hp hc hm' hi =>
    refine iff_of_false nofun ?_
    intro hn
    exact waitingIndex_none_iff.mp hi (hn ses hx buffer (Session.mem_pending.mpr hp) hc)
  -- the search found the client, so it is in the list
  | @waitAgain x i ses buffer g k hx hp hc hm' hi =>
    refine iff_of_true hm ?_
    intro ses' hx' b hb hw
    obtain rfl : ses = ses' := Option.some.inj (hx.symm.trans hx')
    obtain ⟨hlt, hid⟩ := waitingIndex_some hi
    exact mem_waiting.mpr ⟨i, hlt, hid⟩
  -- these release the lock
  | portOk | portBad => exact iff_of_true rfl trivial
  | listNone hx hp hc | listSome hx hp hc | connectNone hx hp hc | connect hx hp hc | stopWait hx hp hc
  | quit hx hp hc | badPrompt hx hp hc => exact iff_of_true hm (hkeep hx hp (by rw [hc]; decide))
  | _ => exact iff_of_true hm trivial

section

variable {s t : Server} {y : ℕ} {ses : Session} {g : Bytes} {k : Int}

theorem completes_of_step {a : Action} (ha : ServerStep g k s a) (hs : s.step a = some t)
    (hy : t.sessions y = some ses) (hb : ses.phase.busy = false) : Completes g k s y :=
  ⟨t, .single ha hs, ses, hy, hb⟩

theorem completes_listing (hm : s.mutex = none) (hy : s.sessions y = some ses)
    (hp : ses.phase = .listing)
    (hfits : (Reply.waitingList s.registry.waiting).text.length < bufferSize) :
    Completes g k s y := by
  have hs : s.step (.sendList y) =
      some (s.put y (ses.say (.waitingList s.registry.waiting) .reading)) := by
    simp only [Server.step, hy, Option.bind_some, hp, hm, hfits, and_self, ↓reduceIte]
  exact completes_of_step (a := .sendList y) trivial hs (put_sessions_self s y _) rfl

theorem completes_registering (hm : s.mutex = none) (hy : s.sessions y = some ses)
    (hp : ses.phase = .registering)
    (hfits : s.registry.idTaken ses.clientId = false → s.registry.clientCount < maxClients) :
    Completes g k s y := by
  cases ht : s.registry.idTaken ses.clientId with
  | true =>
    have hs : s.step (.register y) = some ((s.put y (ses.say .idTaken .ended)).close ses.socket) := by
      simp only [Server.step, hy, Option.bind_some, hp, hm, and_self, ↓reduceIte, ht]
    exact completes_of_step (a := .register y) trivial hs (put_sessions_self s y _) rfl
  | false =>
    have hs : s.step (.register y) = (s.registry.addClient ses.clientId ses.socket).map fun r =>
        (s.put y (ses.say (.connected ses.clientId) .reading)).withRegistry r := by
      simp only [Server.step, hy, Option.bind_some, hp, hm, and_self, ↓reduceIte, ht,
        Bool.false_eq_true]
    rw [addClient, if_pos (hfits ht)] at hs
    exact completes_of_step (a := .register y) trivial hs (put_sessions_self s y _) rfl

/-- Whether a token fits `target_id` does not depend on what the array held before. -/
theorem connectTarget_isSome {buffer : Bytes} (h : (connectTarget buffer []).isSome = true)
    (g : Bytes) : ∃ targetId, connectTarget buffer g = some targetId := by
  simp only [connectTarget] at h ⊢
  split_ifs at h ⊢ with hnil hlen
  · exact ⟨_, rfl⟩
  · exact ⟨_, rfl⟩
  · cases h

/-- A command line is executed, and `/list` then sends its reply. -/
theorem completes_running {buffer : Bytes} (hm : s.mutex = none) (hy : s.sessions y = some ses)
    (hp : ses.phase = .running buffer) (hfits : Fits s ses) : Completes g k s y := by
  rw [Fits, hp] at hfits
  obtain ⟨hconnect, hlist, hstop⟩ := hfits
  have hexec : s.step (.exec y g k) = s.execCommand y ses buffer g k := by
    simp only [Server.step, hy, Option.bind_some, hp]
  have hdone {u : Server} {ses' : Session} (hs : s.step (.exec y g k) = some u)
      (hu : u.sessions y = some ses') (hb : ses'.phase.busy = false) : Completes g k s y :=
    completes_of_step (a := .exec y g k) ⟨rfl, rfl⟩ hs hu hb
  unfold Server.execCommand at hexec
  cases hc : commandOf buffer with
  | list =>
    simp only [hc] at hexec
    by_cases hw : s.registry.waitingCount = 0
    · rw [if_pos hw] at hexec
      exact hdone hexec (put_sessions_self s y _) rfl
    · rw [if_neg hw] at hexec
      obtain ⟨t, ht, hend⟩ := completes_listing (s := s.put y (ses.at .listing)) hm
        (put_sessions_self s y _) rfl (hlist hc)
      exact ⟨t, (Reachable.single (a := .exec y g k) ⟨rfl, rfl⟩ hexec).trans ht, hend⟩
  | wait =>
    simp only [hc, hm, ↓reduceIte] at hexec
    cases hi : s.registry.waitingIndex ses.clientId with
    | none =>
      simp only [hi] at hexec
      exact hdone hexec (put_sessions_self s y _) rfl
    | some i =>
      simp only [hi] at hexec
      exact hdone hexec (put_sessions_self s y _) rfl
  | connect =>
    obtain ⟨targetId, ht⟩ := connectTarget_isSome (hconnect hc) g
    simp only [hc, hm, ↓reduceIte, ht, Option.bind_some] at hexec
    cases hi : s.registry.waitingIndex targetId with
    | none =>
      simp only [hi] at hexec
      exact hdone hexec (put_sessions_self s y _) rfl
    | some i =>
      obtain ⟨r, hr⟩ := removeWaiting_defined s.registry i
      simp only [hi, hr, Option.map_some] at hexec
      exact hdone hexec (put_sessions_self s y _) rfl
  | stopWait =>
    -- the client waits, so the index is that of its entry
    obtain ⟨i, hi⟩ : ∃ i, s.registry.waitingIndex ses.clientId = some i := by
      rw [← Option.ne_none_iff_exists']
      intro hnone
      exact waitingIndex_none_iff.mp hnone (hstop hc)
    obtain ⟨r, hr⟩ := removeWaiting_defined s.registry i
    have hk : stopIndex s.registry ses.clientId k = i := by rw [stopIndex, hi]
    simp only [hc, hm, ↓reduceIte, hk, hr, Option.map_some] at hexec
    exact hdone hexec (put_sessions_self s y _) rfl
  | quit | badPrompt =>
    simp only [hc] at hexec
    exact hdone hexec (put_sessions_self s y _) rfl

/-- From a state with a free lock, a pending command is completed in one or two steps. -/
theorem completes_of_mutex_none (hm : s.mutex = none) (hy : s.sessions y = some ses)
    (hb : ses.phase.busy = true) (hfits : Fits s ses) : Completes g k s y := by
  cases hp : ses.phase with
  | registering =>
    rw [Fits, hp] at hfits
    exact completes_registering hm hy hp hfits
  | running buffer => exact completes_running hm hy hp hfits
  | listing =>
    rw [Fits, hp] at hfits
    exact completes_listing hm hy hp hfits
  | leaving =>
    have hs : s.step (.removeClient y) =
        some ((s.put y (ses.at .ended)).withRegistry (s.registry.removeClient ses.socket)) := by
      simp only [Server.step, hy, Option.bind_some, hp, hm, and_self, ↓reduceIte]
    exact completes_of_step (a := .removeClient y) trivial hs (put_sessions_self s y _) rfl
  | joining | reading | portRecv | ended =>
    rw [hp] at hb
    cases hb

end

/-- The pending work of `ses` begins with `pthread_mutex_lock`. -/
def Session.NeedsLock (ses : Session) : Prop :=
  ses.phase = .registering ∨ ses.phase = .leaving ∨ ses.phase = .listing ∨
    ∃ buffer, ses.phase = .running buffer ∧ commandOf buffer ∈ [.wait, .connect, .stopWait]

theorem Session.NeedsLock.phase_ne {ses : Session} (h : ses.NeedsLock) :
    ses.phase ≠ .joining ∧ ses.phase ≠ .reading ∧ ses.phase ≠ .portRecv := by
  rcases h with hp | hp | hp | ⟨buffer, hp, -⟩ <;> rw [hp] <;> exact ⟨nofun, nofun, nofun⟩

theorem Session.NeedsLock.command {ses : Session} (h : ses.NeedsLock) {buffer : Bytes}
    (hp : ses.phase = .running buffer) : commandOf buffer ∈ [.wait, .connect, .stopWait] := by
  rcases h with hp' | hp' | hp' | ⟨b, hp', hc⟩
  · rw [hp] at hp'
    cases hp'
  · rw [hp] at hp'
    cases hp'
  · rw [hp] at hp'
    cases hp'
  · rw [hp, Phase.running.injEq] at hp'
    exact hp' ▸ hc

/-- Work that needs the lock is done only when the lock is free. -/
theorem Step.mutex_of_needsLock {s t : Server} {a : Action} (h : Step s a t) {ses : Session}
    (hx : s.sessions a.actor = some ses) (hn : ses.NeedsLock) : s.mutex = none := by
  have hactor {x : ℕ} {ses' : Session} (ha : a.actor = x) (hx' : s.sessions x = some ses') :
      ses'.NeedsLock := by
    subst ha
    exact Option.some.inj (hx.symm.trans hx') ▸ hn
  cases h with
  | accept hx' => exact absurd (hx.symm.trans hx') nofun
  | recvId hx' hp => exact absurd hp (hactor rfl hx').phase_ne.1
  | hangUp hx' hp | recvCommand hx' hp => exact absurd hp (hactor rfl hx').phase_ne.2.1
  | portOk hx' hp | portBad hx' hp => exact absurd hp (hactor rfl hx').phase_ne.2.2
  -- commands that do not begin with the lock
  | listNone hx' hp hc | listSome hx' hp hc | quit hx' hp hc | badPrompt hx' hp hc =>
    have hmem := (hactor rfl hx').command hp
    rw [hc] at hmem
    exact absurd hmem (by decide)
  | refuse | register | removeClient | sendList | waitLock | waitAgain | connectNone | connect
  | stopWait => assumption

/-- By itself the server moves only handlers that have something to do. -/
theorem Step.busy {g : Bytes} {k : Int} {s t : Server} {a : Action} (h : Step s a t)
    (ha : ServerStep g k s a) {ses : Session} (hx : s.sessions a.actor = some ses) :
    ses.phase.busy = true := by
  have hactor {x : ℕ} {ses' : Session} (ha : a.actor = x) (hx' : s.sessions x = some ses') :
      ses.phase = ses'.phase := by
    subst ha
    rw [Option.some.inj (hx.symm.trans hx')]
  cases h with
  | accept | recvId | hangUp | recvCommand | portOk | portBad => exact absurd ha id
  | refuse hx' hp | register hx' hp | removeClient hx' hp | sendList hx' hp | listNone hx' hp
  | listSome hx' hp | waitLock hx' hp | waitAgain hx' hp | connectNone hx' hp | connect hx' hp
  | stopWait hx' hp | quit hx' hp | badPrompt hx' hp =>
    rw [hactor rfl hx', hp]
    rfl

/-- While a handler waits for its port message, the work of the others that needs the lock
stands still, whatever the server does. -/
theorem blocked_while_held {g : Bytes} {k : Int} {s t : Server} {x y : ℕ} {ses sesx : Session}
    (hm : s.mutex = some x) (hx : s.sessions x = some sesx) (hp : sesx.phase = .portRecv)
    (hy : s.sessions y = some ses) (hn : ses.NeedsLock)
    (h : Reachable Server.step (ServerStep g k) s t) :
    t.mutex = some x ∧ t.sessions x = some sesx ∧ t.sessions y = some ses := by
  apply h.invariant (P := fun u : Server =>
    u.mutex = some x ∧ u.sessions x = some sesx ∧ u.sessions y = some ses)
  · exact ⟨hm, hx, hy⟩
  · rintro u a v ⟨hum, hux, huy⟩ ha huv
    have hstep := step_cases huv
    -- neither the holder nor a handler that needs the lock can be the one that moves
    have hay : y ≠ a.actor := by
      rintro rfl
      rw [hstep.mutex_of_needsLock huy hn] at hum
      cases hum
    have hax : x ≠ a.actor := by
      rintro rfl
      have hbusy := hstep.busy ha hux
      rw [hp] at hbusy
      cases hbusy
    exact ⟨(hstep.held hum hax).1, (hstep.sessions_ne hax).trans hux,
      (hstep.sessions_ne hay).trans huy⟩

/-- Only `portRecv` is left while holding the lock, so a free lock is what the discipline
comes down to. -/
theorem noRecvUnderLock_of_mutex_none {s : Server} (hm : s.mutex = none) : NoRecvUnderLock s := by
  intro x ses hx hmx
  rw [hm] at hmx
  cases hmx

theorem disciplined_of_mutex_none {s : Server} (hm : s.mutex = none) (hfit : AllFit s) :
    Disciplined s := by
  constructor
  · exact noRecvUnderLock_of_mutex_none hm
  · intro y ses hy hb stackId stackIndex
    exact completes_of_mutex_none hm hy hb (hfit y ses hy)

/-- A handler that takes the lock over a step waits for its port message next. -/
theorem Step.holder_portRecv {s t : Server} {a : Action} (h : Step s a t) (hm : s.mutex = none)
    {x : ℕ} (ht : t.mutex = some x) : ∃ ses, t.sessions x = some ses ∧ ses.phase = .portRecv := by
  cases h with
  | @waitLock y ses =>
    obtain rfl : y = x := Option.some.inj ht
    exact ⟨ses.at .portRecv, put_sessions_self s y _, rfl⟩
  | portOk | portBad => cases ht
  | _ => exact absurd (hm.symm.trans ht) nofun

/-- In a run in which nobody starts to wait, no handler receives under the lock, and every
pending command can be completed by the server alone, whatever its stacks hold, as long as the
pending commands stay inside the arrays. From a state of such a run, a step keeps the lock from a
handler that receives exactly when nobody starts to wait in it. -/
theorem lock_discipline {s : Server} (h : Reachable Server.step NoNewWaiter .start s) :
    NoRecvUnderLock s ∧ (AllFit s → Disciplined s) ∧
      ∀ a t, s.step a = some t → (NoRecvUnderLock t ↔ NoNewWaiter s a) ∧
        (AllFit t → (Disciplined t ↔ NoNewWaiter s a)) := by
  have hfree : s.mutex = none :=
    h.invariant (P := fun s : Server => s.mutex = none) rfl
      fun _ _ _ hm ha hs => ((step_cases hs).mutex_none_iff hm).mpr ha
  refine ⟨noRecvUnderLock_of_mutex_none hfree, disciplined_of_mutex_none hfree, ?_⟩
  intro a t hs
  rw [← (step_cases hs).mutex_none_iff hfree]
  have hnone (hno : NoRecvUnderLock t) : t.mutex = none := by
    cases hm : t.mutex with
    | none => rfl
    | some x =>
      obtain ⟨ses, hx, hp⟩ := (step_cases hs).holder_portRecv hfree hm
      have hrecv := hno x ses hx hm
      rw [hp] at hrecv
      cases hrecv
  refine ⟨⟨hnone, noRecvUnderLock_of_mutex_none⟩, fun hfit => ?_⟩
  exact ⟨fun hd => hnone hd.noRecv, fun hm => disciplined_of_mutex_none hm hfit⟩

/-- Client `a` sent `/wait` and nothing more, then client `b` sent `/connect c`. -/
def silentWaiter : List Action :=
  joinAs 0 "a" ++ joinAs 1 "b" ++ command 0 "/wait" ++ [.recvCommand 1 (ascii "/connect c")]

set_option maxRecDepth 4096 in
/-- The handler of the silent client holds the lock in `recv`, and no steps of the server
complete the command of the other client. -/
theorem silent_waiter_blocks_others :
    ∃ s, Reachable Server.step anyStep .start s ∧ ¬ NoRecvUnderLock s ∧
      (∃ ses ∈ s.sessions 1, ses.phase = .running (ascii "/connect c") ∧ Fits s ses) ∧
      ¬ CanComplete s 1 := by
  have hrun : ∃ s, Reachable Server.step anyStep .start s ∧ s.mutex = some 0 ∧
      (∃ ses ∈ s.sessions 0, ses.phase = .portRecv) ∧
      ∃ ses ∈ s.sessions 1, ses.phase = .running (ascii "/connect c") := by
    refine exists_reachable_of_replayIf silentWaiter _ ?_
    decide
  obtain ⟨s, hs, hm, ⟨ses₀, hx, hp⟩, ses₁, hy, hrunning⟩ := hrun
  refine ⟨s, hs, ?_, ⟨ses₁, hy, hrunning, ?_⟩, ?_⟩
  · intro hno
    have hrecv := hno 0 ses₀ hx hm
    rw [hp] at hrecv
    cases hrecv
  · unfold Fits
    rw [hrunning]
    exact ⟨fun _ => by decide, fun hc => absurd hc (by decide), fun hc => absurd hc (by decide)⟩
  · intro hall
    obtain ⟨t, ht, ses, hys, hb⟩ := hall [] 0
    have hneeds : ses₁.NeedsLock := Or.inr (Or.inr (Or.inr ⟨_, hrunning, by decide⟩))
    obtain ⟨-, -, hstill⟩ := blocked_while_held hm hx hp hy hneeds ht
    obtain rfl : ses₁ = ses := Option.some.inj (hstill.symm.trans hys)
    rw [hrunning] at hb
    cases hb

/-- The sessions that no step is about are never started. -/
theorem sessions_none_of_reachable {n : ℕ} {s : Server}
    (h : Reachable Server.step (fun s a => NoNewWaiter s a ∧ a.actor < n) .start s) :
    ∀ y, n ≤ y → s.sessions y = none := by
  refine h.invariant (P := fun s : Server => ∀ y, n ≤ y → s.sessions y = none) (fun _ _ => rfl) ?_
  intro s a t hs hc hstep y hy
  rw [(step_cases hstep).sessions_ne (by have := hc.2; omega)]
  exact hs y hy

set_option maxRecDepth 4096 in
/-- Without a new waiter the same `/connect` is completed. -/
theorem lock_discipline_noWaiter :
    ∃ s, Reachable Server.step NoNewWaiter .start s ∧ CanComplete s 1 := by
  have hrun : ∃ s, Reachable Server.step (fun s a => NoNewWaiter s a ∧ a.actor < 2) .start s ∧
      (∃ ses ∈ s.sessions 0, ses.phase = .reading) ∧
      ∃ ses ∈ s.sessions 1, ses.phase = .running (ascii "/connect c") := by
    refine exists_reachable_of_replayIf (joinAs 0 "a" ++ joinAs 1 "b" ++
      [.recvCommand 1 (ascii "/connect c")]) _ ?_
    decide
  obtain ⟨s, hs, ⟨ses₀, hx, hreading⟩, ses, hy, hrunning⟩ := hrun
  have hfit : AllFit s := by
    intro y ses' hses
    match y with
    | 0 =>
      obtain rfl : ses₀ = ses' := Option.some.inj (hx.symm.trans hses)
      rw [Fits, hreading]
      trivial
    | 1 =>
      obtain rfl : ses = ses' := Option.some.inj (hy.symm.trans hses)
      rw [Fits, hrunning]
      exact ⟨fun _ => by decide, fun hc => absurd hc (by decide),
        fun hc => absurd hc (by decide)⟩
    | y+2 =>
      rw [sessions_none_of_reachable hs (y+2) (by omega)] at hses
      cases hses
  have hquiet : Reachable Server.step NoNewWaiter .start s := hs.mono fun _ _ h => h.1
  refine ⟨s, hquiet, ((lock_discipline hquiet).2.1 hfit).complete 1 ses hy ?_⟩
  rw [hrunning]
  rfl

end NetTools.IRC
