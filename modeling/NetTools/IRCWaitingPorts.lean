import NetTools.IRCWaitLock

namespace NetTools.IRC

open CText CArray Schedule Registry

/-- The server together with the port each id announced in its last successful `/wait`. -/
structure Tracked where
  server : Server
  announced : Bytes → Option Int

def announce (s : Server) (announced : Bytes → Option Int) (a : Action) (id : Bytes) :
    Option Int :=
  match a with
  | .recvPort x data =>
    if (s.sessions x).map Session.clientId = some id ∧ 0 < atoi data then some (atoi data)
    else announced id
  | _ => announced id

namespace Tracked

def start : Tracked := ⟨.start, fun _ => none⟩

def step (s : Tracked) (a : Action) : Option Tracked :=
  (s.server.step a).map fun t => ⟨t, announce s.server s.announced a⟩

end Tracked

/-- The port in the reply to `/connect T`, when there is one. -/
def connectPort (r : Registry) (targetId : Bytes) : Option Int :=
  (r.waitingIndex targetId).map fun i => (r.clients i).port

/-- Every `/connect T` for a waiting `T` would be answered with the port `T` announced. -/
def PortsRight (s : Tracked) : Prop :=
  ∀ targetId ∈ s.server.registry.waiting,
    connectPort s.server.registry targetId = s.announced targetId

/-- The client slots from `k` up to the last waiter's hold one and the same port. -/
def SamePortsFrom (r : Registry) (k : Int) : Prop :=
  ∀ j < (r.waitingCount-1).toNat, k ≤ (j : Int) → (r.clients (j+1)).port = (r.clients j).port

/-- The slot from which a command shifts the waiting list down, if it does. -/
def shiftStart (r : Registry) (ses : Session) (stackId : Bytes) (stackIndex : Int) : Option Int :=
  match ses.phase with
  | .running buffer =>
    match commandOf buffer with
    | .connect => (connectTarget buffer stackId).bind fun targetId =>
        (r.waitingIndex targetId).map Int.ofNat
    | .stopWait => some (stopIndex r ses.clientId stackIndex)
    | _ => none
  | _ => none

/-- No port moves away from its waiter: a registration does not reuse the slot of a
waiter's port, a disconnect does not overwrite it with another port, and a removal
from the waiting list shifts no waiter to a slot with another port. -/
def PortsKept (s : Server) : Action → Prop
  | .register x => ∀ ses ∈ s.sessions x, s.registry.idTaken ses.clientId = false →
      s.registry.waitingCount ≤ s.registry.clientCount
  | .removeClient x => ∀ ses ∈ s.sessions x,
      ∀ i ∈ search (fun c => c.socket == ses.socket) s.registry.clients s.registry.clientCount,
        (i : Int) < s.registry.waitingCount →
        (s.registry.clients (s.registry.clientCount-1)).port = (s.registry.clients i).port
  | .exec x stackId stackIndex => ∀ ses ∈ s.sessions x,
      ∀ k ∈ shiftStart s.registry ses stackId stackIndex, SamePortsFrom s.registry k
  | _ => True

instance (r : Registry) (k : Int) : Decidable (SamePortsFrom r k) :=
  inferInstanceAs (Decidable (∀ j < (r.waitingCount-1).toNat, k ≤ (j : Int) → _))

instance (s : Server) : ∀ a, Decidable (PortsKept s a)
  | .register x => inferInstanceAs (Decidable (∀ ses ∈ s.sessions x,
      s.registry.idTaken ses.clientId = false → s.registry.waitingCount ≤ s.registry.clientCount))
  | .removeClient x => inferInstanceAs (Decidable (∀ ses ∈ s.sessions x,
      ∀ i ∈ search (fun c => c.socket == ses.socket) s.registry.clients s.registry.clientCount,
        (i : Int) < s.registry.waitingCount →
        (s.registry.clients (s.registry.clientCount-1)).port = (s.registry.clients i).port))
  | .exec x stackId stackIndex => inferInstanceAs (Decidable (∀ ses ∈ s.sessions x,
      ∀ k ∈ shiftStart s.registry ses stackId stackIndex, SamePortsFrom s.registry k))
  | .accept .. | .recvId .. | .recvCommand .. | .sendList _ | .recvPort .. => isTrue trivial

/-- What holds in every run: an announced port is positive, and every waiting id has
announced one. -/
structure WaitersKnown (s : Tracked) : Prop where
  lock : WaitLock s.server
  positive : ∀ id p, s.announced id = some p → 0 < p
  announced : ∀ id ∈ s.server.registry.waiting, ∃ p, s.announced id = some p

/-- Slot by slot form of `PortsRight`. -/
theorem portsRight_iff {s : Tracked} (hd : s.server.registry.waiting.Nodup) :
    PortsRight s ↔ ∀ i : ℕ, (i : Int) < s.server.registry.waitingCount →
      s.announced (s.server.registry.waitingClients i) = some (s.server.registry.clients i).port := by
  constructor
  · intro h i hi
    rw [← h _ (mem_waiting.mpr ⟨i, hi, rfl⟩), connectPort, waitingIndex_of_nodup hd hi]
    rfl
  · intro h id hid
    obtain ⟨i, hi, rfl⟩ := mem_waiting.mp hid
    rw [h i hi, connectPort, waitingIndex_of_nodup hd hi]
    rfl

theorem announce_portOk {s : Server} {x : ℕ} {ses : Session} {data : Bytes}
    (announced : Bytes → Option Int) (hx : s.sessions x = some ses) (hport : 0 < atoi data) :
    announce s announced (.recvPort x data) =
      Function.update announced ses.clientId (some (atoi data)) := by
  funext id
  simp only [announce, hx, Option.map_some, Option.some.injEq, hport, and_true,
    Function.update_apply, eq_comm]

/-- An announced port stays known: it is kept or replaced by a positive one. -/
theorem announce_cases (s : Server) (announced : Bytes → Option Int) (a : Action) (id : Bytes) :
    announce s announced a id = announced id ∨ ∃ p, 0 < p ∧ announce s announced a id = some p := by
  cases a with
  | recvPort x data =>
    simp only [announce]
    split_ifs with h
    · exact Or.inr ⟨_, h.2, rfl⟩
    · exact Or.inl rfl
  | _ => exact Or.inl rfl

theorem waitersKnown_step {s : Tracked} {t : Server} {a : Action} (hs : WaitersKnown s)
    (h : Step s.server a t) : WaitersKnown ⟨t, announce s.server s.announced a⟩ := by
  refine ⟨waitLock_step hs.lock h, ?_, ?_⟩
  · intro id p hp
    rcases announce_cases s.server s.announced a id with he | ⟨q, hq, he⟩
    · exact hs.positive id p (he ▸ hp)
    · have hpq : q = p := Option.some.inj (he.symm.trans hp)
      omega
  · intro id hid
    have hold (hid : id ∈ s.server.registry.waiting) :
        ∃ p, announce s.server s.announced a id = some p := by
      rcases announce_cases s.server s.announced a id with he | ⟨q, -, he⟩
      · exact he ▸ hs.announced id hid
      · exact ⟨q, he⟩
    rcases h.waiting with hw | ⟨-, hw⟩ | ⟨x, ses, data, rfl, hx, -, -, hport, hw⟩
    · exact hold (hw ▸ hid)
    · exact hold (hw.subset hid)
    · change id ∈ t.registry.waiting at hid
      rw [hw, List.mem_append, List.mem_singleton] at hid
      rcases hid with hid | rfl
      · exact hold hid
      · rw [announce_portOk s.announced hx hport]
        exact ⟨_, Function.update_self _ _ _⟩

theorem waitersKnown_of_reachable {C : Tracked → Action → Prop} {s : Tracked}
    (h : Reachable Tracked.step C .start s) : WaitersKnown s := by
  apply h.invariant
  · exact ⟨waitLock_start, by simp [Tracked.start], by simp [Tracked.start, Server.start, waiting, empty]⟩
  · intro s a t hs _ hstep
    obtain ⟨u, hu, rfl⟩ := Option.map_eq_some_iff.mp hstep
    exact waitersKnown_step hs (step_cases hu)

/-- A removal from the waiting list that starts at slot `k` keeps the ports right
exactly when the slots it shifts over hold one port. -/
theorem portsRight_remove {s t : Tracked} {k : Int} (hs : WaitersKnown s) (ht : WaitersKnown t)
    (hp : PortsRight s) (hr : s.server.registry.removeWaiting k = some t.server.registry)
    (ha : t.announced = s.announced) :
    PortsRight t ↔ SamePortsFrom s.server.registry k := by
  -- each waiter behind `k` moves down by one slot, and its port does not
  obtain ⟨hcount, hclients, -, hslots⟩ := removeWaiting_slots hr
  have hport := (portsRight_iff hs.lock.nodup).mp hp
  rw [portsRight_iff ht.lock.nodup, hcount, hclients, ha]
  constructor
  · intro h j hj hkj
    have hj' := h j (by omega)
    rw [hslots j (by omega), if_pos hkj, hport (j+1) (by omega)] at hj'
    exact Option.some.inj hj'
  · intro h j hj
    rw [hslots j hj]
    split_ifs with hkj
    · rw [hport (j+1) (by omega), h j (by omega) hkj]
    · exact hport j (by omega)

/-- A successful `/wait` keeps the ports right: it writes the announced port at the
slot of the new waiter, and that slot held no waiter's port. -/
theorem portsRight_portOk {s t : Tracked} {x : ℕ} {ses : Session} {data : Bytes}
    (hs : WaitersKnown s) (ht : WaitersKnown t) (hp : PortsRight s)
    (hx : s.server.sessions x = some ses) (hphase : ses.phase = .portRecv)
    (hr : s.server.registry.addWaiting ses.clientId (atoi data) = some t.server.registry)
    (ha : t.announced = Function.update s.announced ses.clientId (some (atoi data))) :
    PortsRight t := by
  have hn := (hs.lock.holder x ses hx hphase).2
  have hport := (portsRight_iff hs.lock.nodup).mp hp
  obtain ⟨h0, -, heq⟩ := addWaiting_eq hr
  rw [portsRight_iff ht.lock.nodup, ha, heq]
  intro j hj
  by_cases hjn : j = s.server.registry.waitingCount.toNat
  · subst hjn
    simp only [Function.update_self]
  · have hj' : (j : Int) < s.server.registry.waitingCount := by
      dsimp only at hj
      omega
    have hne : s.server.registry.waitingClients j ≠ ses.clientId := by
      intro he
      exact hn (mem_waiting.mpr ⟨j, hj', he⟩)
    simp only [Function.update_of_ne hjn, Function.update_of_ne hne]
    exact hport j hj'

/-- Overwriting a client slot keeps the ports right exactly when no waiter's port is
in that slot or the port stays the same. -/
theorem portsRight_setClient {s t : Tracked} {i : ℕ} {c : Client} (hs : WaitersKnown s)
    (hp : PortsRight s)
    (hclients : t.server.registry.clients = Function.update s.server.registry.clients i c)
    (hw : t.server.registry.waitingClients = s.server.registry.waitingClients)
    (hcount : t.server.registry.waitingCount = s.server.registry.waitingCount)
    (ha : t.announced = s.announced) :
    PortsRight t ↔ ((i : Int) < s.server.registry.waitingCount →
      c.port = (s.server.registry.clients i).port) := by
  have hport := (portsRight_iff hs.lock.nodup).mp hp
  have hd : t.server.registry.waiting.Nodup := by
    rw [waiting, hw, hcount]
    exact hs.lock.nodup
  rw [portsRight_iff hd, hw, hcount, hclients, ha]
  constructor
  · intro h hi
    have hi' := h i hi
    rw [hport i hi, Function.update_self] at hi'
    exact (Option.some.inj hi').symm
  · intro h j hj
    rw [hport j hj, Function.update_apply]
    split_ifs with hji
    · subst hji
      rw [h hj]
    · rfl

/-- A command that moves waiters down keeps the ports right exactly when the slots have the same
port from there on. -/
theorem portsKept_exec_iff {s : Server} {x : ℕ} {ses : Session} {g : Bytes} {k n : Int}
    (hx : s.sessions x = some ses) (hk : shiftStart s.registry ses g k = some n) :
    SamePortsFrom s.registry n ↔ PortsKept s (.exec x g k) := by
  constructor
  · intro h ses' hx' k' hk'
    rw [Option.some.inj (Eq.trans hx'.symm hx), hk, Option.mem_some_iff] at hk'
    exact hk' ▸ h
  · intro h
    exact h ses hx n hk

/-- From a state with right ports, a step keeps them right exactly when it meets
`PortsKept`. -/
theorem portsRight_step {s : Tracked} {a : Action} {t : Server} (hs : WaitersKnown s)
    (hp : PortsRight s) (h : Step s.server a t) :
    PortsRight ⟨t, announce s.server s.announced a⟩ ↔ PortsKept s.server a := by
  have ht := waitersKnown_step hs h
  -- a step that leaves the registry and the announced ports alone meets both sides
  have hsame (hr : t.registry = s.server.registry)
      (ha : announce s.server s.announced a = s.announced) (hk : PortsKept s.server a) :
      PortsRight ⟨t, announce s.server s.announced a⟩ ↔ PortsKept s.server a := by
    refine iff_of_true ?_ hk
    rw [ha]
    simpa only [PortsRight, hr] using hp
  have hactor {x : ℕ} {ses ses' : Session} (hx : s.server.sessions x = some ses)
      (hx' : ses' ∈ s.server.sessions x) : ses' = ses := Option.some.inj (hx'.symm.trans hx)
  cases h with
  -- the new entry gets port 0, and a waiter has announced a positive one
  | register hx hphase hm htaken hr =>
    obtain ⟨-, rfl⟩ := addClient_eq hr
    refine Iff.trans (portsRight_setClient hs hp rfl rfl rfl rfl) ?_
    have hpos (hlt : (s.server.registry.clientCount : Int) < s.server.registry.waitingCount) :
        0 < (s.server.registry.clients s.server.registry.clientCount).port :=
      hs.positive _ _ ((portsRight_iff hs.lock.nodup).mp hp s.server.registry.clientCount hlt)
    constructor
    · intro h ses hses _
      by_contra hlt
      have hneg := h (by omega)
      have hpos' := hpos (by omega)
      dsimp only at hneg
      omega
    · intro h hlt
      have hle := h _ hx htaken
      omega
  | @removeClient x ses hx hphase hm =>
    cases hsearch : search (fun c => c.socket == ses.socket) s.server.registry.clients
        s.server.registry.clientCount with
    | none =>
      have hr : s.server.registry.removeClient ses.socket = s.server.registry := by
        simp only [Registry.removeClient, hsearch]
      refine hsame hr rfl ?_
      intro ses' hx' i hi
      rw [hactor hx hx', hsearch] at hi
      cases hi
    | some i =>
      have hclients : (s.server.registry.removeClient ses.socket).clients =
          Function.update s.server.registry.clients i
            (s.server.registry.clients (s.server.registry.clientCount-1)) := by
        simp only [Registry.removeClient, hsearch]
      refine Iff.trans (portsRight_setClient hs hp hclients (removeClient_waitingClients _)
        (removeClient_waitingCount _) rfl) ?_
      constructor
      · intro h ses' hx' k hk hlt
        rw [hactor hx hx', hsearch, Option.mem_some_iff] at hk
        exact hk ▸ h (hk ▸ hlt)
      · intro h hlt
        exact h ses hx i hsearch hlt
  | portOk hx hphase hm hl hport hr =>
    refine iff_of_true ?_ trivial
    exact portsRight_portOk hs ht hp hx hphase hr (announce_portOk s.announced hx hport)
  | portBad hx hphase hm hl hport =>
    refine hsame rfl ?_ trivial
    funext id
    simp only [announce, hport, and_false, ↓reduceIte]
  | @connect x i ses buffer g targetId k r hx hphase hc hm htarget hi hr =>
    have hk : shiftStart s.server.registry ses g k = some (i : Int) := by
      simp only [shiftStart, hphase, hc, htarget, hi, Option.bind_some, Option.map_some]
      rfl
    exact (portsRight_remove hs ht hp hr rfl).trans (portsKept_exec_iff hx hk)
  | @stopWait x ses buffer g k r hx hphase hc hm hr =>
    have hk : shiftStart s.server.registry ses g k =
        some (stopIndex s.server.registry ses.clientId k) := by
      simp only [shiftStart, hphase, hc]
    exact (portsRight_remove hs ht hp hr rfl).trans (portsKept_exec_iff hx hk)
  | accept | recvId | hangUp | recvCommand | sendList => exact hsame rfl rfl trivial
  | refuse hx hphase hm htaken =>
    refine hsame rfl rfl ?_
    intro ses' hx' hfree
    rw [hactor hx hx', htaken] at hfree
    cases hfree
  | listNone hx hphase hc | listSome hx hphase hc | waitLock hx hphase hc | waitAgain hx hphase hc
  | quit hx hphase hc | badPrompt hx hphase hc =>
    refine hsame rfl rfl ?_
    intro ses' hx' k' hk'
    simp [hactor hx hx', shiftStart, hphase, hc] at hk'
  | connectNone hx hphase hc hm htarget hi =>
    refine hsame rfl rfl ?_
    intro ses' hx' k' hk'
    simp [hactor hx hx', shiftStart, hphase, hc, htarget, hi] at hk'

/-- The CONNECT reply sent by a step, if it sends one, names the announced port. -/
def ConnectReplyRight (s : Tracked) (a : Action) (t : Server) : Prop :=
  ∀ ses ∈ s.server.sessions a.actor, ∀ ses' ∈ t.sessions a.actor, ∀ targetId port,
    ses'.outbox = ses.outbox ++ [.connect targetId port] → s.announced targetId = some port

/-- A CONNECT reply carries `connectPort` of a waiting id. -/
theorem connectReply_port {s t : Server} {a : Action} (h : Step s a t) {ses ses' : Session}
    (hx : s.sessions a.actor = some ses) (hx' : t.sessions a.actor = some ses')
    {targetId : Bytes} {port : Int}
    (hreply : ses'.outbox = ses.outbox ++ [.connect targetId port]) :
    targetId ∈ s.registry.waiting ∧ connectPort s.registry targetId = some port := by
  cases h with
  | @connect x i ses₀ buffer g target k r hx₀ hp hc hm ht hi hr =>
    obtain rfl : ses₀ = ses := Option.some.inj (hx₀.symm.trans hx)
    have he := Option.some.inj ((put_sessions_self s x _).symm.trans hx')
    rw [← he] at hreply
    have hlast := List.append_cancel_left hreply
    simp only [List.cons.injEq, Reply.connect.injEq, and_true] at hlast
    obtain ⟨rfl, rfl⟩ := hlast
    obtain ⟨hlt, hw⟩ := waitingIndex_some hi
    exact ⟨mem_waiting.mpr ⟨i, hlt, hw⟩, by rw [connectPort, hi]; rfl⟩
  | accept hx₀ => exact absurd (hx₀.symm.trans hx) (by simp)
  | recvId hx₀ | refuse hx₀ | register hx₀ | hangUp hx₀ | recvCommand hx₀ | removeClient hx₀
  | listNone hx₀ | listSome hx₀ | sendList hx₀ | waitLock hx₀ | waitAgain hx₀ | portOk hx₀
  | portBad hx₀ | connectNone hx₀ | stopWait hx₀ | quit hx₀ | badPrompt hx₀ =>
    -- these paths append nothing or some other reply
    cases hx₀.symm.trans hx
    cases (put_sessions_self s _ _).symm.trans hx'
    simp [Session.say, Session.at] at hreply

/-- In a run whose steps all keep the ports, every waiter's port is right and every
CONNECT reply names the port its target announced last; and from a state of such a run
a step keeps the ports right only if it meets `PortsKept`. -/
theorem connect_replies_announced_port {s : Tracked}
    (h : Reachable Tracked.step (fun s a => PortsKept s.server a) .start s) :
    PortsRight s ∧ (∀ a t, s.server.step a = some t → ConnectReplyRight s a t) ∧
      ∀ a t, s.step a = some t → (PortsRight t ↔ PortsKept s.server a) := by
  have hright : PortsRight s := by
    induction h with
    | start =>
      intro id hid
      simp [Tracked.start, Server.start, waiting, empty] at hid
    | step hr hc hs ih =>
      obtain ⟨u, hu, rfl⟩ := Option.map_eq_some_iff.mp hs
      exact (portsRight_step (waitersKnown_of_reachable hr) ih (step_cases hu)).mpr hc
  refine ⟨hright, ?_, ?_⟩
  · intro a t hs ses hx ses' hx' targetId port hreply
    obtain ⟨hw, hport⟩ := connectReply_port (step_cases hs) hx hx' hreply
    rw [← hright targetId hw, hport]
  · intro a t hs
    obtain ⟨u, hu, rfl⟩ := Option.map_eq_some_iff.mp hs
    exact portsRight_step (waitersKnown_of_reachable h) hright (step_cases hu)

/-- Clients `a` and `b` wait with ports 5001 and 5002, a third one has connected to `a`
and now asks for `b`. -/
def shiftedRun : List Action :=
  joinAs 0 "a" ++ joinAs 1 "b" ++ joinAs 2 "c" ++ waitOn 0 "5001" ++ waitOn 1 "5002" ++
    command 2 "/connect a" ++ [.recvCommand 2 (ascii "/connect b")]

set_option maxRecDepth 4096 in
/-- After `/connect a` the port of `a` stays in the slot that `b` is shifted to, so
`/connect b` is answered with port 5001 although `b` announced 5002. -/
theorem connect_names_other_waiters_port :
    ∃ s, Reachable Tracked.step anyStep .start s ∧ ascii "b" ∈ s.server.registry.waiting ∧
      s.announced (ascii "b") = some 5002 ∧
      ∃ t ∈ s.server.step (.exec 2 [] 0),
        sentTo t 2 = sentTo s.server 2 ++ [.connect (ascii "b") 5001] := by
  refine exists_reachable_of_replayIf shiftedRun _ ?_
  decide

set_option maxRecDepth 4096 in
/-- The last waiter is taken first: the other one keeps its own port. -/
theorem connect_replies_announced_port_lastFirst :
    ∃ s, Reachable Tracked.step (fun s a => PortsKept s.server a) .start s ∧
      s.server.registry.waiting = [ascii "a"] ∧ PortsRight s := by
  have hrun : ∃ s, Reachable Tracked.step (fun s a => PortsKept s.server a) .start s ∧
      s.server.registry.waiting = [ascii "a"] := by
    refine exists_reachable_of_replayIf (joinAs 0 "a" ++ joinAs 1 "b" ++ joinAs 2 "c" ++
      waitOn 0 "5001" ++ waitOn 1 "5002" ++ command 2 "/connect b") _ ?_
    decide
  obtain ⟨s, hs, hw⟩ := hrun
  exact ⟨s, hs, hw, (connect_replies_announced_port hs).1⟩

end NetTools.IRC
