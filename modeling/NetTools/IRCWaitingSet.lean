import NetTools.IRCWaitLock
import NetTools.OrderedSet

namespace NetTools.IRC

open CText CArray Schedule Registry

/-- What a step means for the ordered set of waiting ids. -/
inductive WaitingChange
  | insert (id : Bytes)
  | erase (id : Bytes)
  | keep

def WaitingChange.apply (l : OrderedSet Bytes) : WaitingChange → OrderedSet Bytes
  | .insert id => l.insert id
  | .erase id => l.erase id
  | .keep => l

/-- The intended effect of a step: a positive port message inserts the client,
`/connect T` erases `T`, `/stop_wait` erases the client, and nothing else has one. -/
def waitingChange (s : Server) : Action → WaitingChange
  | .recvPort x data =>
    match s.sessions x with
    | some ses => if 0 < atoi data then .insert ses.clientId else .keep
    | none => .keep
  | .exec x stackId _ =>
    match s.sessions x with
    | some ses =>
      match ses.phase with
      | .running buffer =>
        match commandOf buffer, connectTarget buffer stackId with
        | .connect, some targetId => .erase targetId
        | .stopWait, _ => .erase ses.clientId
        | _, _ => .keep
      | _ => .keep
    | none => .keep
  | _ => .keep

/-- The arrays hold exactly the set, and `waiting_count` is its size. -/
def Represents (r : Registry) (l : OrderedSet Bytes) : Prop :=
  r.waiting = l.toList ∧ r.waitingCount = l.toList.length

/-- The handler is at the point of the step, with the lock it needs. -/
def Ready (s : Server) : Action → Prop
  | .accept x socket => s.sessions x = none ∧ socket ∉ s.openSockets
  | .recvId x data => ∃ ses, s.sessions x = some ses ∧ ses.phase = .joining ∧ data.length ≤ idSize
  | .register x => ∃ ses, s.sessions x = some ses ∧ ses.phase = .registering ∧ s.mutex = none
  | .recvCommand x data =>
    ∃ ses, s.sessions x = some ses ∧ ses.phase = .reading ∧ data.length ≤ bufferSize
  | .removeClient x => ∃ ses, s.sessions x = some ses ∧ ses.phase = .leaving ∧ s.mutex = none
  | .exec x _ _ => ∃ ses buffer, s.sessions x = some ses ∧ ses.phase = .running buffer ∧
      (commandOf buffer ∈ [.wait, .connect, .stopWait] → s.mutex = none)
  | .sendList x => ∃ ses, s.sessions x = some ses ∧ ses.phase = .listing ∧ s.mutex = none
  | .recvPort x data => ∃ ses, s.sessions x = some ses ∧ ses.phase = .portRecv ∧
      s.mutex = some x ∧ data.length ≤ bufferSize

/-- The text a client sends fits the buffer it is received into and the arrays have
room for what it asks. -/
def WithinBuffers (s : Server) : Action → Prop
  | .recvId _ data => (lineIn idSize data).isSome
  | .register x => ∀ ses ∈ s.sessions x, s.registry.idTaken ses.clientId = false →
      s.registry.clientCount < maxClients
  | .recvCommand _ data => data ≠ [] → (lineIn bufferSize data).isSome
  | .exec x stackId _ => ∀ ses ∈ s.sessions x, ∀ buffer ∈ ses.pending,
      commandOf buffer = .connect → (connectTarget buffer stackId).isSome
  | .sendList _ => (Reply.waitingList s.registry.waiting).text.length < bufferSize
  | .recvPort _ data => 0 < atoi data → s.registry.waitingCount < maxWaiting
  | _ => True

/-- A `/stop_wait` is executed only while its client is in the waiting list. -/
def StopsWaiter (s : Server) : Action → Prop
  | .exec x _ _ => ∀ ses ∈ s.sessions x, ∀ buffer ∈ ses.pending,
      commandOf buffer = .stopWait → ses.clientId ∈ s.registry.waiting
  | _ => True

/-- The step is possible and the arrays hold the changed set afterwards. -/
def Simulates (s : Server) (l : OrderedSet Bytes) (a : Action) : Prop :=
  ∃ t, s.step a = some t ∧ Represents t.registry ((waitingChange s a).apply l)

instance (s : Server) : ∀ a, Decidable (WithinBuffers s a)
  | .recvId _ data => inferInstanceAs (Decidable (lineIn idSize data).isSome)
  | .register x => inferInstanceAs (Decidable (∀ ses ∈ s.sessions x,
      s.registry.idTaken ses.clientId = false → s.registry.clientCount < maxClients))
  | .recvCommand _ data => inferInstanceAs (Decidable (data ≠ [] → (lineIn bufferSize data).isSome))
  | .exec x stackId _ => inferInstanceAs (Decidable (∀ ses ∈ s.sessions x, ∀ buffer ∈ ses.pending,
      commandOf buffer = .connect → (connectTarget buffer stackId).isSome))
  | .sendList _ =>
    inferInstanceAs (Decidable ((Reply.waitingList s.registry.waiting).text.length < bufferSize))
  | .recvPort _ data =>
    inferInstanceAs (Decidable (0 < atoi data → s.registry.waitingCount < maxWaiting))
  | .accept .. | .removeClient _ => isTrue trivial

instance (s : Server) : ∀ a, Decidable (StopsWaiter s a)
  | .exec x _ _ => inferInstanceAs (Decidable (∀ ses ∈ s.sessions x, ∀ buffer ∈ ses.pending,
      commandOf buffer = .stopWait → ses.clientId ∈ s.registry.waiting))
  | .accept .. | .recvId .. | .register _ | .recvCommand .. | .removeClient _ | .sendList _
  | .recvPort .. => isTrue trivial

theorem represents_empty : Represents .empty .empty := ⟨rfl, rfl⟩

theorem Represents.of_eq {r r' : Registry} {l : OrderedSet Bytes} (h : Represents r l)
    (hw : r'.waiting = r.waiting) (hc : r'.waitingCount = r.waitingCount) : Represents r' l :=
  ⟨hw.trans h.1, hc.trans h.2⟩

theorem Represents.addWaiting {r r' : Registry} {l : OrderedSet Bytes} {id : Bytes} {port : Int}
    (h : Represents r l) (hn : id ∉ r.waiting) (hr : r.addWaiting id port = some r') :
    Represents r' (l.insert id) := by
  have hn' : id ∉ l := by rwa [OrderedSet.mem_def, ← h.1]
  obtain ⟨-, -, heq⟩ := addWaiting_eq hr
  constructor
  · rw [addWaiting_waiting hr, h.1, OrderedSet.toList_insert_of_notMem hn']
  · rw [OrderedSet.toList_insert_of_notMem hn', List.length_append, heq]
    simp only [h.2, List.length_singleton]
    omega

/-- Removal at the index of an id erases that id. -/
theorem Represents.removeWaiting {r r' : Registry} {l : OrderedSet Bytes} {id : Bytes} {i : ℕ}
    (h : Represents r l) (hi : r.waitingIndex id = some i) (hr : r.removeWaiting i = some r') :
    Represents r' (l.erase id) := by
  obtain ⟨hlt, hid⟩ := waitingIndex_some hi
  have hil : i < l.toList.length := by
    have hc := h.2
    omega
  have hget : l.toList[i] = id := by
    simp only [← h.1, waiting, slots_getElem, hid]
  have hwaiting : r'.waiting = (l.erase id).toList := by
    rw [← hget, OrderedSet.toList_erase_getElem l i hil, ← h.1]
    exact removeWaiting_waiting hr hlt
  refine ⟨hwaiting, ?_⟩
  rw [(removeWaiting_slots hr).1, h.2, ← hwaiting, removeWaiting_waiting hr hlt,
    List.length_eraseIdx, h.1, if_pos hil]
  omega

/-- `/stop_wait` of a client in the list finds the client's index. -/
theorem stopIndex_of_mem {r : Registry} {id : Bytes} (h : id ∈ r.waiting) (k : Int) :
    ∃ i : ℕ, r.waitingIndex id = some i ∧ stopIndex r id k = i := by
  obtain ⟨i, hi⟩ := Option.ne_none_iff_exists'.mp fun hnone => waitingIndex_none_iff.mp hnone h
  exact ⟨i, hi, by simp only [stopIndex, hi]⟩

/-- `/stop_wait` by a client that is not in the list lowers the count all the same. -/
theorem not_represents_stopWait {r r' : Registry} {l : OrderedSet Bytes} {id : Bytes} {t : Int}
    (h : Represents r l) (hn : id ∉ r.waiting) (hr : r.removeWaiting t = some r') :
    ¬ Represents r' (l.erase id) := by
  intro h'
  have hn' : id ∉ l := by rwa [OrderedSet.mem_def, ← h.1]
  have hcount := h'.2
  rw [(removeWaiting_slots hr).1, OrderedSet.erase_of_notMem hn', ← h.2] at hcount
  omega

/-- The change a handler's pending command stands for. -/
theorem waitingChange_exec {s : Server} {x : ℕ} {ses : Session} {buffer g : Bytes} {k : Int}
    (hx : s.sessions x = some ses) (hp : ses.phase = .running buffer) :
    waitingChange s (.exec x g k) =
      match commandOf buffer, connectTarget buffer g with
      | .connect, some targetId => .erase targetId
      | .stopWait, _ => .erase ses.clientId
      | _, _ => .keep := by
  simp only [waitingChange, hx, hp]

/-- A defined step changes the arrays as the ordered set changes, provided a
`/stop_wait` finds its client. -/
theorem Represents.step {s t : Server} {l : OrderedSet Bytes} {a : Action}
    (h : Represents s.registry l) (hlock : WaitLock s) (hs : Step s a t) (hstop : StopsWaiter s a) :
    Represents t.registry ((waitingChange s a).apply l) := by
  cases hs with
  | register hx hp hm ht hr =>
    obtain ⟨-, rfl⟩ := addClient_eq hr
    exact h.of_eq rfl rfl
  | removeClient hx hp hm =>
    exact h.of_eq (removeClient_waiting _) (removeClient_waitingCount _)
  -- the mutex is held since the client was found not to wait
  | @portOk x ses data r hx hp hm hl hport hr =>
    have hc : waitingChange s (.recvPort x data) = .insert ses.clientId := by
      simp only [waitingChange, hx, hport, ↓reduceIte]
    rw [hc]
    exact h.addWaiting (hlock.holder x ses hx hp).2 hr
  | @portBad x ses data hx hp hm hl hport =>
    have hc : waitingChange s (.recvPort x data) = .keep := by
      simp only [waitingChange, hx, hport, ↓reduceIte]
    rw [hc]
    exact h
  | connect hx hp hc hm ht hi hr =>
    rw [waitingChange_exec hx hp, hc, ht]
    exact h.removeWaiting hi hr
  -- the erased id is not in the set
  | connectNone hx hp hc hm ht hi =>
    rw [waitingChange_exec hx hp, hc, ht]
    have hn := waitingIndex_none_iff.mp hi
    rw [h.1, ← OrderedSet.mem_def] at hn
    simp only [WaitingChange.apply, OrderedSet.erase_of_notMem hn]
    exact h
  -- the index is the client's own only because it is in the list
  | @stopWait x ses buffer g k r hx hp hc hm hr =>
    rw [waitingChange_exec hx hp, hc]
    obtain ⟨i, hi, hidx⟩ := stopIndex_of_mem (hstop ses hx buffer (Session.mem_pending.mpr hp) hc) k
    exact h.removeWaiting hi (hidx ▸ hr)
  | listNone hx hp hc | listSome hx hp hc | waitLock hx hp hc | waitAgain hx hp hc
  | quit hx hp hc | badPrompt hx hp hc =>
    rw [waitingChange_exec hx hp, hc]
    exact h
  | _ => exact h

/-- A step that is ready, within the buffers and no stray `/stop_wait` is defined. -/
theorem step_defined {s : Server} {l : OrderedSet Bytes} {a : Action} (h : Represents s.registry l)
    (hready : Ready s a) (hbuf : WithinBuffers s a) (hstop : StopsWaiter s a) :
    ∃ t, s.step a = some t := by
  cases a with
  | accept x socket => exact ⟨_, if_pos hready⟩
  | recvId x data =>
    obtain ⟨ses, hx, hp⟩ := hready
    obtain ⟨id, hid⟩ := Option.isSome_iff_exists.mp hbuf
    simp only [Server.step, hx, Option.bind_some, if_pos hp, hid]
    exact ⟨_, rfl⟩
  | register x =>
    obtain ⟨ses, hx, hp⟩ := hready
    simp only [Server.step, hx, Option.bind_some, if_pos hp]
    split_ifs with ht
    · exact ⟨_, rfl⟩
    · simp only [addClient, if_pos (hbuf ses hx (by simpa using ht))]
      exact ⟨_, rfl⟩
  | recvCommand x data =>
    obtain ⟨ses, hx, hp⟩ := hready
    simp only [Server.step, hx, Option.bind_some, if_pos hp]
    split_ifs with hd
    · exact ⟨_, rfl⟩
    · obtain ⟨buffer, hb⟩ := Option.isSome_iff_exists.mp (hbuf hd)
      simp only [hb]
      exact ⟨_, rfl⟩
  | removeClient x =>
    obtain ⟨ses, hx, hp⟩ := hready
    simp only [Server.step, hx, Option.bind_some, if_pos hp]
    exact ⟨_, rfl⟩
  | exec x g k =>
    obtain ⟨ses, buffer, hx, hp, hm⟩ := hready
    simp only [Server.step, hx, Option.bind_some, hp, Server.execCommand]
    cases hc : commandOf buffer with
    | list =>
      dsimp only
      split_ifs <;> exact ⟨_, rfl⟩
    | wait =>
      simp only [hm (by simp [hc]), ↓reduceIte]
      split <;> exact ⟨_, rfl⟩
    | connect =>
      obtain ⟨targetId, ht⟩ := Option.isSome_iff_exists.mp
        (hbuf ses hx buffer (Session.mem_pending.mpr hp) hc)
      simp only [hm (by simp [hc]), ↓reduceIte, ht, Option.bind_some]
      split
      · exact ⟨_, rfl⟩
      · rename_i i hi
        obtain ⟨r, hr⟩ := removeWaiting_defined s.registry i
        simp only [hr]
        exact ⟨_, rfl⟩
    | stopWait =>
      obtain ⟨i, -, hidx⟩ := stopIndex_of_mem (hstop ses hx buffer (Session.mem_pending.mpr hp) hc) k
      obtain ⟨r, hr⟩ := removeWaiting_defined s.registry i
      simp only [hm (by simp [hc]), ↓reduceIte, hidx, hr]
      exact ⟨_, rfl⟩
    | quit => exact ⟨_, rfl⟩
    | badPrompt => exact ⟨_, rfl⟩
  | sendList x =>
    obtain ⟨ses, hx, hp, hm⟩ := hready
    simp only [Server.step, hx, Option.bind_some]
    exact ⟨_, if_pos ⟨hp, hm, hbuf⟩⟩
  | recvPort x data =>
    obtain ⟨ses, hx, hp⟩ := hready
    simp only [Server.step, hx, Option.bind_some, if_pos hp]
    split_ifs with hport
    -- the count is a length, so only the upper bound is to be asked for
    · have hroom : 0 ≤ s.registry.waitingCount ∧ s.registry.waitingCount < maxWaiting := by
        refine ⟨?_, hbuf hport⟩
        rw [h.2]
        omega
      simp only [addWaiting, if_pos hroom]
      exact ⟨_, rfl⟩
    · exact ⟨_, rfl⟩

/-- A step that is defined stayed within the buffers. -/
theorem Step.withinBuffers {s t : Server} {a : Action} (h : Step s a t) : WithinBuffers s a := by
  have hexec {x : ℕ} {ses : Session} {buffer g : Bytes} {k : Int} (hx : s.sessions x = some ses)
      (hp : ses.phase = .running buffer)
      (hc : commandOf buffer = .connect → (connectTarget buffer g).isSome) :
      WithinBuffers s (.exec x g k) := by
    intro ses' hx' buffer' hb'
    obtain rfl : ses' = ses := Option.some.inj (hx'.symm.trans hx)
    rw [Session.mem_pending, hp, Phase.running.injEq] at hb'
    exact hb' ▸ hc
  cases h with
  | recvId hx hp hl hid =>
    simp only [WithinBuffers, hid, Option.isSome_some]
  | recvCommand hx hp hl hne hb =>
    intro _
    simp only [hb, Option.isSome_some]
  | register hx hp hm ht hr => exact fun _ _ _ => (addClient_eq hr).1
  | refuse hx hp hm ht =>
    intro ses' hx' hfree
    rw [Option.some.inj (hx'.symm.trans hx), ht] at hfree
    cases hfree
  | hangUp => exact fun hne => absurd rfl hne
  | sendList hx hp hm hl => exact hl
  | portOk hx hp hm hl hport hr => exact fun _ => (addWaiting_eq hr).2.1
  | portBad hx hp hm hl hport => exact fun h => absurd h hport
  | connect hx hp hc hm ht | connectNone hx hp hc hm ht => exact hexec hx hp fun _ => by rw [ht]; rfl
  | listNone hx hp hc | listSome hx hp hc | waitLock hx hp hc | waitAgain hx hp hc
  | stopWait hx hp hc | quit hx hp hc | badPrompt hx hp hc =>
    exact hexec hx hp fun hc' => absurd (hc.symm.trans hc') (by decide)
  | accept | removeClient => trivial

theorem stopsWaiter_of_represents {s t : Server} {l : OrderedSet Bytes} {a : Action}
    (h : Represents s.registry l) (hs : Step s a t)
    (h' : Represents t.registry ((waitingChange s a).apply l)) : StopsWaiter s a := by
  cases a with
  | exec x g k =>
    intro ses hx buffer hb hc
    rw [Session.mem_pending] at hb
    -- a stray `/stop_wait` lowers the count, and the set would keep its size
    by_contra hn
    cases hs with
    | @stopWait _ ses' buffer' _ _ r hx' hp' hc' hm hr =>
      obtain rfl : ses' = ses := Option.some.inj (hx'.symm.trans hx)
      rw [waitingChange_exec hx hb, hc] at h'
      exact not_represents_stopWait h hn hr h'
    | listNone hx' hp' hc' | listSome hx' hp' hc' | waitLock hx' hp' hc' | waitAgain hx' hp' hc'
    | connect hx' hp' hc' | connectNone hx' hp' hc' | quit hx' hp' hc' | badPrompt hx' hp' hc' =>
      rw [Option.some.inj (hx'.symm.trans hx), hb, Phase.running.injEq] at hp'
      exact absurd ((hp' ▸ hc').symm.trans hc) (by decide)
  | _ => trivial

/-- In a run without a stray `/stop_wait` the arrays represent an ordered set. -/
theorem exists_represents {C : Server → Action → Prop} (hC : ∀ s a, C s a → StopsWaiter s a)
    {s : Server} (h : Reachable Server.step C .start s) : ∃ l, Represents s.registry l := by
  induction h with
  | start => exact ⟨_, represents_empty⟩
  | step hr hc hs ih =>
    obtain ⟨l, hl⟩ := ih
    exact ⟨_, hl.step (waitLock_of_reachable hr) (step_cases hs) (hC _ _ hc)⟩

/-- In a run that stays within the buffers and has no stray `/stop_wait`, the arrays
represent an ordered set in every state, and a step that is ready does to them what it
should do to the set exactly when it, too, meets these two conditions. -/
theorem waiting_list_refines_ordered_set (s : Server)
    (h : Reachable Server.step (fun s a => WithinBuffers s a ∧ StopsWaiter s a) .start s) :
    ∃ l, Represents s.registry l ∧
      ∀ a, Ready s a → (Simulates s l a ↔ WithinBuffers s a ∧ StopsWaiter s a) := by
  obtain ⟨l, hl⟩ := exists_represents (fun _ _ hc => hc.2) h
  refine ⟨l, hl, ?_⟩
  intro a hready
  constructor
  · rintro ⟨t, hs, ht⟩
    exact ⟨(step_cases hs).withinBuffers, stopsWaiter_of_represents hl (step_cases hs) ht⟩
  · rintro ⟨hbuf, hstop⟩
    obtain ⟨t, hs⟩ := step_defined hl hready hbuf hstop
    exact ⟨t, hs, hl.step (waitLock_of_reachable h) (step_cases hs) hstop⟩

set_option maxRecDepth 4096 in
/-- Two waiters, one is connected to and the other stops waiting by itself. -/
theorem waiting_list_refines_ordered_set_twoWaiters :
    ∃ s, Reachable Server.step (fun s a => WithinBuffers s a ∧ StopsWaiter s a) .start s ∧
      s.registry.clientCount = 3 ∧ ∃ l, Represents s.registry l := by
  have hrun : ∃ s, Reachable Server.step (fun s a => WithinBuffers s a ∧ StopsWaiter s a)
      .start s ∧ s.registry.clientCount = 3 := by
    refine exists_reachable_of_replayIf (joinAs 0 "a" ++ joinAs 1 "b" ++ joinAs 2 "c" ++
      waitOn 0 "5001" ++ waitOn 1 "5002" ++ command 2 "/connect a" ++ command 1 "/stop_wait") _ ?_
    decide
  obtain ⟨s, hs, hcount⟩ := hrun
  obtain ⟨l, hl, -⟩ := waiting_list_refines_ordered_set s hs
  exact ⟨s, hs, hcount, l, hl⟩

/-- Client `a` stops waiting after `c` has connected to it, while `b` waits. -/
def strayStopRun : List Action :=
  joinAs 0 "a" ++ joinAs 1 "b" ++ joinAs 2 "c" ++ waitOn 0 "5001" ++ waitOn 1 "5002" ++
    command 2 "/connect a" ++ [.recvCommand 0 (ascii "/stop_wait")]

set_option maxRecDepth 4096 in
/-- The `/stop_wait` of a client that is no longer in the list removes another one. -/
theorem stray_stop_wait_removes_other_waiter :
    ∃ s, Reachable Server.step anyStep .start s ∧
      (s.sessions 0).map Session.clientId = some (ascii "a") ∧
      (s.sessions 0).bind Session.pending = some (ascii "/stop_wait") ∧
      s.registry.waiting = [ascii "b"] ∧
      ∃ t ∈ s.step (.exec 0 [] 0), t.registry.waiting = [] ∧ t.registry.waitingCount = 0 := by
  refine exists_reachable_of_replayIf strayStopRun _ ?_
  decide

end NetTools.IRC
