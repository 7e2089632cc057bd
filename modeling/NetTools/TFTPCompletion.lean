import NetTools.TFTPAckQueue
import NetTools.TFTPRecovery

namespace NetTools.TFTP

open CText Schedule StopAndWait

/-- A step that loses nothing: no datagram is lost, no call fails, no thread is woken up
without a reason, and no ACK finds the queue full. -/
def Lossless (s : Net) : Action → Prop
  | .loseToServer _ _ | .loseToClient _ _ | .setsockoptFails _ | .ackFails _ | .sendFails _ => False
  | .threadFails | .wake _ => False
  | .route _ => s.ackQueue.length < maxQueueSize
  | _ => True

/-- Steps that meet `C` can bring the client at `a` to its end with a complete chunk. -/
def CanComplete (files : Bytes → Option Bytes) (C : Net → Action → Prop) (s : Net) (a : ℕ) : Prop :=
  ∃ t, Reachable (Net.step files) C s t ∧ ∃ c ∈ t.clients a, c.phase = .ended .success

/-- The thread has neither given up nor completed. -/
def ClientThread.Running (c : ClientThread) : Prop := ∀ e, c.phase ≠ .ended e

variable {files : Bytes → Option Bytes} {s t : Net} {a : ℕ} {c : ClientThread} {file : Bytes}

/-- A stuck session stays stuck in every run. -/
theorem stuck_of_reachable {C : Net → Action → Prop} (hs : Stuck files (s.session a) c file)
    (h : Reachable (Net.step files) C s t) : ∃ c', Stuck files (t.session a) c' file := by
  refine h.invariant (P := fun u => ∃ c', Stuck files (u.session a) c' file) ⟨c, hs⟩ ?_
  rintro u act v ⟨c', hu⟩ - hstep
  rcases step_session hstep a with he | hmove
  · rw [he]
    exact ⟨c', hu⟩
  · exact hu.step hmove

theorem Stuck.not_canComplete {C : Net → Action → Prop} (hs : Stuck files (s.session a) c file) :
    ¬ CanComplete files C s a := by
  rintro ⟨t, ht, c', hc', hp⟩
  obtain ⟨c'', hstuck⟩ := stuck_of_reachable hs ht
  have heq : c'' = c' := Option.some.inj (hstuck.active.client.symm.trans hc')
  exact hstuck.not_success (heq ▸ hp)

/-- A session that cannot go on is stuck. -/
theorem Active.stuck {s : Session} (h : Active files s c file) (hn : ¬ CanGoOn s c) :
    Stuck files s c file := by
  have hle := h.acknowledged_le
  refine ⟨h, ?_, ?_, ?_⟩
  · exact Nat.lt_of_le_of_ne hle fun he => hn (Or.inl he)
  · intro hc he
    exact hn (Or.inr (Or.inl ⟨he, hc⟩))
  · intro ho hm
    exact hn (Or.inr (Or.inr ⟨ho, hm⟩))

theorem CanComplete.of_reachable {C : Net → Action → Prop} (h : Reachable (Net.step files) C s t)
    (ht : CanComplete files C t a) : CanComplete files C s a := by
  obtain ⟨u, hu, hc⟩ := ht
  exact ⟨u, h.trans hu, hc⟩

section Client

variable (hs : Reachable (Net.step files) anyStep .start s) (hc : s.clients a = some c)
include hs hc

/-- The client stores what it has acknowledged. -/
theorem exists_settled (hrun : c.Running) :
    ∃ t c', Reachable (Net.step files) Lossless s t ∧
      t.session a = { s.session a with client := some c' } ∧
      c'.acknowledged = c.acknowledged ∧ c'.size = c.size ∧ c'.acking = c.acking ∧
      (c'.phase = .receiving ∨ ∃ d, c'.phase = .acking d) := by
  have hsame : s.session a = { s.session a with client := some c } := by
    rw [← hc]
    rfl
  cases hp : c.phase with
  | receiving => exact ⟨s, c, .start, hsame, rfl, rfl, rfl, Or.inl hp⟩
  | acking d => exact ⟨s, c, .start, hsame, rfl, rfl, rfl, Or.inr ⟨d, hp⟩⟩
  | ended e => exact absurd hp (hrun e)
  | storing d =>
    obtain ⟨file, hact⟩ := active_of_reachable hs hc
    have hstoring : c.storing = some d := by rw [ClientThread.storing, hp]
    have hacking : c.acking = none := by rw [ClientThread.acking, hp]
    have hstep : s.step files (.store a) =
        some (s.putClient a (c.after (.ok (c.receiver.stored (payloadOf d))))) := by
      simp only [Net.step, hc, Option.bind_some, hp, hact.store_ok hp]
    refine ⟨_, c.after (.ok (c.receiver.stored (payloadOf d))), .single (a := .store a) trivial hstep,
      ?_, ?_, rfl, hacking.symm, Or.inl rfl⟩
    · rw [session_putClient, if_pos rfl]
    · rw [ClientThread.acknowledged, ClientThread.acknowledged, hstoring, ClientThread.after,
        Receiver.stored, List.length_append]
      rfl

/-- A client that has acknowledged everything completes. -/
theorem completes_of_acknowledged (hrun : c.Running) (hall : c.acknowledged = c.packets) :
    CanComplete files Lossless s a := by
  obtain ⟨t, c', ht, hsession, hacked, hsize, -, hp⟩ := exists_settled hs hc hrun
  have hc' : t.clients a = some c' := congrArg Session.client hsession
  obtain ⟨file, hact⟩ := active_of_reachable (hs.trans ht.any) hc'
  have hall' : c'.acknowledged = c'.packets := by
    rw [hacked, hall, ClientThread.packets, ClientThread.packets, hsize]
  rcases hp with hp | ⟨d, hp⟩
  · have hzero : ¬ 0 < c'.receiver.bytesRemaining := by
      have hstoring : c'.storing = none := by rw [ClientThread.storing, hp]
      have hpay : payloadSize = 1016 := rfl
      rw [ClientThread.acknowledged, hstoring, ClientThread.packets, hpay] at hall'
      rw [hact.bytesRemaining, hpay]
      simp only [Option.toList_none, List.length_nil] at hall'
      omega
    have hstep : t.step files (.finish a) = some (t.putClient a (c'.at (.ended .success))) := by
      simp only [Net.step, hc', Option.bind_some, hp, hzero, not_false_iff, and_self, ↓reduceIte]
    refine ⟨_, ht.trans (.single (a := .finish a) trivial hstep), c'.at (.ended .success), ?_, rfl⟩
    exact Function.update_self _ _ _
  · -- a packet that is not yet acknowledged is one that the client lacks
    have hacking : (t.session a).transfer.acking = some d := by
      rw [acking_cases hact.client, ClientThread.acking, hp]
    have hne : (t.session a).transfer.acking ≠ none := by
      rw [hacking]
      exact Option.some_ne_none d
    have hfresh := hact.sound.fresh (Or.inr hne)
    have hsent : (t.session a).transfer.acked < packetCount (c'.slice file) :=
      hact.sound.sent (hact.sound.waiting_of_underWay fun hz =>
        hne (underWay_eq_zero.mp hz).2.1)
    rw [hact.packets_eq] at hsent
    rw [hact.received_eq] at hfresh
    omega

omit hs in
/-- A packet that the client has received is acknowledged. -/
theorem acknowledges {d : Bytes} (hp : c.phase = .acking d) :
    ∃ t c', Reachable (Net.step files) Lossless s t ∧ t.clients a = some c' ∧ c'.Running ∧
      c'.acknowledged = c.acknowledged+1 ∧ c'.packets = c.packets ∧
      t.socketOpen = s.socketOpen ∧ (t.session a).acks ≠ [] := by
  have hstep : s.step files (.sendAck a) = some ((s.putClient a (c.at (.storing d))).setToServer a
      (s.toServer a ++ [ackPacket (seqNumOf d)])) := by
    simp only [Net.step, hc, Option.bind_some, hp]
  have hstoring : c.storing = none := by rw [ClientThread.storing, hp]
  refine ⟨_, c.at (.storing d), .single (a := .sendAck a) trivial hstep, Function.update_self _ _ _,
    (by simp [ClientThread.Running, ClientThread.at]), ?_, rfl, rfl, ?_⟩
  · rw [ClientThread.acknowledged, ClientThread.acknowledged, hstoring]
    rfl
  · rw [session_setToServer, if_pos rfl, session_putClient, if_pos rfl]
    have hmem : seqNumOf d ∈ ((s.toServer a ++ [ackPacket (seqNumOf d)]) ++
        s.inboxOf a).filterMap ackNumber := by
      refine List.mem_filterMap.mpr ⟨_, ?_, ackNumber_ackPacket (seqNumOf_lt d)⟩
      exact List.mem_append_left _ (List.mem_append_right _ List.mem_cons_self)
    exact List.ne_nil_of_mem (List.mem_append_left _ hmem)

/-- A packet that is coming is acknowledged. -/
theorem delivers (hrun : c.Running) (hlacks : c.acknowledged < c.packets)
    (hcoming : (s.session a).PacketComing) :
    ∃ t c', Reachable (Net.step files) Lossless s t ∧ t.clients a = some c' ∧ c'.Running ∧
      c'.acknowledged = c.acknowledged+1 ∧ c'.packets = c.packets ∧
      t.socketOpen = s.socketOpen ∧ (t.session a).acks ≠ [] := by
  obtain ⟨t, c', ht, hsession, hacked, hsize, hacking, hp⟩ := exists_settled hs hc hrun
  have hc' : t.clients a = some c' := congrArg Session.client hsession
  have hopen : t.socketOpen = s.socketOpen := congrArg Session.socketOpen hsession
  have hpackets : c'.packets = c.packets := by rw [ClientThread.packets, hsize]; rfl
  obtain ⟨file, hact⟩ := active_of_reachable (hs.trans ht.any) hc'
  rcases hp with hp | ⟨d, hp⟩
  -- the client is in `recvfrom`: the packet that is coming is received and acknowledged
  · have hdata : t.toClient a = s.toClient a := congrArg Session.toClient hsession
    have hne : s.toClient a ≠ [] := by
      rcases hcoming with hd | hg
      · exact hd
      · refine absurd ?_ hg
        rw [acking_cases (s := s.session a) hc, ← hacking, ClientThread.acking, hp]
    rw [← hdata] at hne
    obtain ⟨d, hd⟩ := List.exists_mem_of_ne_nil _ hne
    have hlong : d ≠ [] := by
      have hpacket : d = packetOf (c'.slice file) _ := hact.sound.data d hd
      rw [hpacket]
      refine List.ne_nil_of_length_pos ?_
      rw [packetOf, dataPacket_length]
      exact Nat.lt_of_lt_of_le (by decide) (Nat.le_add_right seqSize _)
    have hrem : 0 < c'.receiver.bytesRemaining := by
      refine hact.incomplete ?_
      unfold ClientThread.acknowledged at hacked hlacks
      omega
    have hstep : t.step files (.receive a d) = some ((t.putClient a (c'.at (.acking d))).setToClient a
        ((t.toClient a).erase d)) := by
      simp only [Net.step, hc', Option.bind_some, hp, hrem, hd, hlong, ne_eq, not_false_iff,
        and_self, ↓reduceIte]
    have hu := Reachable.single (C := Lossless) (a := .receive a d) trivial hstep
    have hcu : ((t.putClient a (c'.at (.acking d))).setToClient a
        ((t.toClient a).erase d)).clients a = some (c'.at (.acking d)) := Function.update_self _ _ _
    obtain ⟨v, c'', hv, hcv, hrv, hav, hpv, hov, hne'⟩ := acknowledges hcu rfl
    refine ⟨v, c'', ht.trans (hu.trans hv), hcv, hrv, ?_, hpv.trans hpackets, hov.trans hopen, hne'⟩
    have hstoring : c'.storing = none := by rw [ClientThread.storing, hp]
    rw [hav, ← hacked, ClientThread.acknowledged, ClientThread.acknowledged, hstoring]
    rfl
  -- it has been received already
  · obtain ⟨v, c'', hv, hcv, hrv, hav, hpv, hov, hne⟩ := acknowledges hc' hp
    exact ⟨v, c'', ht.trans hv, hcv, hrv, by rw [hav, hacked], hpv.trans hpackets, hov.trans hopen, hne⟩

end Client

section Server

/-- The client's request is on its way to become a handler, or its ACK to the handler. -/
def Session.ServerBound (s : Session) : Prop :=
  (s.handler = none ∧ ∃ d ∈ s.toServer ++ s.inbox, isRequest d = true) ∨ s.acks ≠ []

/-- The work of the server before a message of `a` has reached its handler. -/
def Net.backlog (s : Net) (a : ℕ) : ℕ :=
  3*(s.toServer a).length+2*s.inbox.toList.length+s.ackQueue.length

theorem Session.ServerBound.wake {s : Session} (h : s.ServerBound) :
    Session.ServerBound { s with handler := s.handler.map Handler.wake } := by
  rcases h with ⟨hn, hr⟩ | ha
  · exact Or.inl ⟨Option.map_eq_none_iff.mpr hn, hr⟩
  · exact Or.inr ha

/-- The handler of a queued ACK takes it and goes on sending. -/
theorem takes_queued (hs : Reachable (Net.step files) anyStep .start s) {ack : AckPacket}
    (hq : ack ∈ s.ackQueue) :
    ∃ h, s.step files (.scan ack.clientAddr) = some
      (Net.putHandler { s with ackQueue := s.ackQueue.erase ack } ack.clientAddr h) ∧
      h.phase = .sending := by
  obtain ⟨h, hh, hw, hn⟩ := waitsFor_of_queued hs hq
  have hmem : ack.seqNum ∈ (s.session ack.clientAddr).queue := (mem_queueOf s).mpr hq
  rcases sessionOk_of_reachable hs ack.clientAddr with hu | ⟨c, file, hact⟩
  · rw [hu] at hmem
    cases hmem
  · have hawake := hact.awake (List.ne_nil_of_mem hmem) h hh
    have hp : h.phase = .scanning := by
      rw [Handler.isWaiting, Bool.or_eq_true, decide_eq_true_eq, decide_eq_true_eq] at hw
      exact hw.resolve_right hawake
    obtain ⟨h₀, ha, -, heq⟩ := hact.handler_scanning hh hp
    refine ⟨h.acked, ?_, ?_⟩
    · simp only [Net.step, hh, Option.bind_some, hp, ↓reduceIte, takeAck, hn, hq]
    · rw [heq, Handler.acked_phase]
      exact (ha.acked hact.valid.inRange).2

/-- With room in the queue the receive loop queues an ACK or starts a handler. -/
theorem routes_inbox (hs : Reachable (Net.step files) anyStep .start s) {b : ℕ} {d : Bytes}
    (hi : s.inbox = some (b, d)) (hroom : s.ackQueue.length < maxQueueSize) :
    (∃ n, s.step files (.route 0) = some { s with
      inbox := none
      ackQueue := s.ackQueue ++ [⟨n, b⟩]
      handlers := fun b => (s.handlers b).map Handler.wake }) ∨
    ∃ h, s.step files (.route 0) = some (Net.putHandler { s with inbox := none } b h) ∧
      h.phase = .sending := by
  have hin : (s.session b).inbox = [d] := (inboxOf_of_inbox hi).trans (if_pos rfl)
  rcases sessionOk_of_reachable hs b with hu | ⟨c, file, hact⟩
  · rw [hu] at hin
    cases hin
  · rcases hact.texts d (by rw [hin]; exact List.mem_append_right _ List.mem_cons_self) with
      hd | ⟨n, hn, hd⟩
    · right
      have hroute : route d = .request _ := hd ▸ hact.valid.parsed
      obtain ⟨hstart, hreq, -⟩ := hact.inbox_request hin hroute
      have hnone : s.handlers b = none := by
        have hcount := hact.request
        rw [hin, List.countP_append, List.countP_singleton, if_pos hreq] at hcount
        cases hh : (s.session b).handler with
        | none => exact hh
        | some h =>
          rw [hh] at hcount
          exact absurd hcount (by simp)
      refine ⟨⟨file, c.offset, c.size, 0, [], .sending⟩, ?_, rfl⟩
      simp only [Net.step, hi, Option.bind_some, Net.routeStep, hroute, hstart, hnone, ↓reduceIte]
    · left
      refine ⟨n, ?_⟩
      have hroute : route d = .ack (some n) := hd ▸ route_ackPacket hn
      simp only [Net.step, hi, Option.bind_some, Net.routeStep, hroute, Option.getD_some, enqueueAck,
        hroom, ↓reduceIte]

/-- A message for the server that is neither queued nor received is in flight. -/
theorem exists_inFlight (hbound : (s.session a).ServerBound) (hq : s.ackQueue = [])
    (hi : s.inbox = none) :
    ∃ d ∈ s.toServer a, (s.handlers a = none ∧ isRequest d = true) ∨ ∃ n, ackNumber d = some n := by
  have hinbox : (s.session a).inbox = [] := by
    change s.inboxOf a = []
    rw [Net.inboxOf, hi]
  have hqueue : (s.session a).queue = [] := by
    change s.queueOf a = []
    rw [Net.queueOf, hq]
    rfl
  rcases hbound with ⟨hn, d, hd, hr⟩ | hacks
  · rw [hinbox, List.append_nil] at hd
    exact ⟨d, hd, Or.inl ⟨hn, hr⟩⟩
  · rw [Session.acks, hinbox, hqueue, List.append_nil, List.append_nil] at hacks
    obtain ⟨n, hn⟩ := List.exists_mem_of_ne_nil _ hacks
    obtain ⟨d, hd, hnum⟩ := List.mem_filterMap.mp hn
    exact ⟨d, hd, Or.inr ⟨n, hnum⟩⟩

/-- A step towards the next packet of a session: its handler is about to send, or less work stands
in front of a message that is still on its way. -/
structure Nearer (a : ℕ) (s t : Net) : Prop where
  clients : t.clients = s.clients
  socketOpen : t.socketOpen = s.socketOpen
  progress : (∃ h ∈ t.handlers a, h.phase = .sending) ∨
    (t.session a).ServerBound ∧ t.backlog a < s.backlog a

/-- A handler takes its ACK out of the queue. -/
theorem nearer_of_queued (hs : Reachable (Net.step files) anyStep .start s)
    (hbound : (s.session a).ServerBound) {ack : AckPacket} (hmem : ack ∈ s.ackQueue) :
    ∃ t, s.step files (.scan ack.clientAddr) = some t ∧ Nearer a s t := by
  obtain ⟨h, hstep, hp⟩ := takes_queued hs hmem
  refine ⟨_, hstep, rfl, rfl, ?_⟩
  by_cases hb : a = ack.clientAddr
  · left
    refine ⟨h, ?_, hp⟩
    rw [hb]
    exact Function.update_self _ _ _
  · right
    constructor
    · have hview : Net.session (Net.putHandler { s with ackQueue := s.ackQueue.erase ack }
          ack.clientAddr h) a = s.session a :=
        (session_takeAck s h ack.seqNum).trans (if_neg hb)
      rw [hview]
      exact hbound
    -- one entry of the queue less
    · have hlen := List.length_erase_add_one hmem
      change 3*(s.toServer a).length+2*s.inbox.toList.length+(s.ackQueue.erase ack).length < _
      unfold Net.backlog
      omega

/-- The receive loop routes what it has received. -/
theorem nearer_of_inbox (hs : Reachable (Net.step files) anyStep .start s)
    (hbound : (s.session a).ServerBound) (hq : s.ackQueue = []) {b : ℕ} {d : Bytes}
    (hi : s.inbox = some (b, d)) :
    ∃ t, s.step files (.route 0) = some t ∧ Nearer a s t := by
  have hroom : s.ackQueue.length < maxQueueSize := by
    rw [hq]
    decide
  rcases routes_inbox hs hi hroom with ⟨m, hstep⟩ | ⟨h, hstep, hp⟩
  · refine ⟨_, hstep, rfl, rfl, Or.inr ⟨?_, ?_⟩⟩
    · rw [session_enqueue hi]
      split_ifs with hb
      · have hqueued : m ∈ (s.session a).queue ++ [m] := List.mem_append_right _ List.mem_cons_self
        exact Or.inr (List.ne_nil_of_mem (List.mem_append_right _ hqueued))
      · exact hbound.wake
    · simp only [Net.backlog, hi, hq]
      simp
  · refine ⟨_, hstep, rfl, rfl, ?_⟩
    by_cases hb : a = b
    · left
      refine ⟨h, ?_, hp⟩
      rw [hb]
      exact Function.update_self _ _ _
    · right
      constructor
      · rw [session_putHandler, if_neg hb, session_emptyInbox hi, if_neg hb]
        exact hbound
      · simp only [Net.backlog, hi, Net.putHandler]
        simp

/-- The message of this session comes into the empty inbox. -/
theorem nearer_of_inFlight (hopen : s.socketOpen = true) (hbound : (s.session a).ServerBound)
    (hq : s.ackQueue = []) (hi : s.inbox = none) :
    ∃ d t, s.step files (.serverReceive a d) = some t ∧ Nearer a s t := by
  obtain ⟨d, hd, hkind⟩ := exists_inFlight hbound hq hi
  have hstep : s.step files (.serverReceive a d) = some (Net.setToServer
      { s with inbox := some (a, d) } a ((s.toServer a).erase d)) := by
    simp only [Net.step, hopen, hi, hd, and_self, ↓reduceIte]
  refine ⟨d, _, hstep, rfl, rfl, Or.inr ⟨?_, ?_⟩⟩
  · rw [session_fillInbox s hi, if_pos rfl]
    have hmem : d ∈ (s.toServer a).erase d ++ [d] := List.mem_append_right _ List.mem_cons_self
    rcases hkind with ⟨hnone, hreq⟩ | ⟨m, hm⟩
    · exact Or.inl ⟨hnone, d, hmem, hreq⟩
    · have hack := List.mem_filterMap.mpr ⟨d, hmem, hm⟩
      exact Or.inr (List.ne_nil_of_mem (List.mem_append_left _ hack))
  · have hlen := List.length_erase_add_one hd
    simp only [Net.backlog, hi, Net.setToServer, Function.update_self, Option.toList_some,
      Option.toList_none, List.length_singleton, List.length_nil]
    omega

/-- First what is queued, then the inbox, then a message in flight. -/
theorem exists_nearer (hs : Reachable (Net.step files) anyStep .start s)
    (hopen : s.socketOpen = true) (hbound : (s.session a).ServerBound) :
    ∃ act t, Lossless s act ∧ s.step files act = some t ∧ Nearer a s t := by
  cases hq : s.ackQueue with
  | cons ack rest =>
    have hmem : ack ∈ s.ackQueue := by
      rw [hq]
      exact List.mem_cons_self
    obtain ⟨t, hstep, hnear⟩ := nearer_of_queued hs hbound hmem
    exact ⟨.scan ack.clientAddr, t, trivial, hstep, hnear⟩
  | nil =>
    cases hi : s.inbox with
    | some p =>
      have hroom : s.ackQueue.length < maxQueueSize := by
        rw [hq]
        decide
      obtain ⟨t, hstep, hnear⟩ := nearer_of_inbox hs hbound hq hi
      exact ⟨.route 0, t, hroom, hstep, hnear⟩
    | none =>
      obtain ⟨d, t, hstep, hnear⟩ := nearer_of_inFlight hopen hbound hq hi
      exact ⟨.serverReceive a d, t, trivial, hstep, hnear⟩

/-- A message for the server brings the handler to its next packet. -/
theorem reaches_sending (hs : Reachable (Net.step files) anyStep .start s)
    (hc : s.clients a = some c) (hopen : s.socketOpen = true)
    (hbound : (s.session a).ServerBound) (n : ℕ) (hn : s.backlog a < n) :
    ∃ t, Reachable (Net.step files) Lossless s t ∧ t.clients a = some c ∧ t.socketOpen = true ∧
      ∃ h ∈ t.handlers a, h.phase = .sending := by
  induction n generalizing s with
  | zero => exact absurd hn (Nat.not_lt_zero _)
  | succ n ih =>
    obtain ⟨act, t, hloss, hstep, hclients, hsocket, hprogress⟩ := exists_nearer hs hopen hbound
    have hct : t.clients a = some c := by rw [hclients, hc]
    have hot : t.socketOpen = true := hsocket.trans hopen
    rcases hprogress with hsending | ⟨hbt, hless⟩
    · exact ⟨t, .single hloss hstep, hct, hot, hsending⟩
    · obtain ⟨u, hu, hcu, hou, hh⟩ := ih (.step hs trivial hstep) hct hot hbt (by omega)
      exact ⟨u, (Reachable.single hloss hstep).trans hu, hcu, hou, hh⟩

/-- A handler about to send sends a packet that the client lacks. -/
theorem sends (hs : Reachable (Net.step files) anyStep .start s) (hc : s.clients a = some c)
    (hopen : s.socketOpen = true) (hlacks : c.acknowledged < c.packets)
    (hsending : ∃ h ∈ s.handlers a, h.phase = .sending) :
    ∃ t, Reachable (Net.step files) Lossless s t ∧ t.clients a = some c ∧ t.socketOpen = true ∧
      (t.session a).PacketComing := by
  obtain ⟨h, hh, hp⟩ := hsending
  obtain ⟨file, hact⟩ := active_of_reachable hs hc
  have hwait : (s.session a).transfer.waiting = false := by
    change ((s.handlers a).map Handler.isWaiting).getD false = false
    rw [Option.mem_def.mp hh, Option.map_some, Option.getD_some, Handler.isWaiting, hp]
    rfl
  have hseq : (s.session a).transfer.acked = h.seqNum := by
    change ((s.handlers a).map Handler.seqNum).getD 0 = h.seqNum
    rw [Option.mem_def.mp hh, Option.map_some, Option.getD_some]
  -- at the end of its file the handler would have all packets acknowledged
  have hend : h.atEnd = false := by
    rw [Bool.eq_false_iff]
    intro he
    have hle := ((hact.handler_sending hh hp).atEnd hact.valid.inRange).mp he
    have hrec := hact.sound.ahead.resolve_right fun hw => by
      rw [hwait] at hw
      cases hw.1
    rw [hact.received_eq, hseq] at hrec
    change packetCount (c.slice file) ≤ h.seqNum at hle
    rw [hact.packets_eq] at hle
    omega
  have hstep : s.step files (.send a) = some ((s.putHandler a h.sent).setToClient a
      (s.toClient a ++ [h.packet])) := by
    simp only [Net.step, Option.mem_def.mp hh, Option.bind_some, hp, hend, hopen, Bool.false_eq_true,
      ↓reduceIte]
  refine ⟨_, .single (a := .send a) trivial hstep, hc, hopen, Or.inl ?_⟩
  rw [session_setToClient, if_pos rfl]
  exact List.append_ne_nil_of_right_ne_nil _ (List.cons_ne_nil _ _)

/-- What is under way in a session becomes a packet for its client. -/
theorem brings_packet (hs : Reachable (Net.step files) anyStep .start s) (hc : s.clients a = some c)
    (hopen : s.socketOpen = true) (hlacks : c.acknowledged < c.packets)
    (hmotion : (s.session a).InMotion) :
    ∃ t, Reachable (Net.step files) Lossless s t ∧ t.clients a = some c ∧ t.socketOpen = true ∧
      (t.session a).PacketComing := by
  have hbound (hb : (s.session a).ServerBound) :
      ∃ t, Reachable (Net.step files) Lossless s t ∧ t.clients a = some c ∧ t.socketOpen = true ∧
        (t.session a).PacketComing := by
    obtain ⟨t, ht, hct, hot, hh⟩ := reaches_sending hs hc hopen hb _ (Nat.lt_succ_self _)
    obtain ⟨u, hu, hcu, hou, hcoming⟩ := sends (hs.trans ht.any) hct hot hlacks hh
    exact ⟨u, ht.trans hu, hcu, hou, hcoming⟩
  -- a request or an ACK first wakes the handler; a handler about to send just sends
  rcases hmotion with hr | hh | ha | hcoming
  · exact hbound (Or.inl hr)
  · exact sends hs hc hopen hlacks hh
  · exact hbound (Or.inr ha)
  · exact ⟨s, .start, hc, hopen, hcoming⟩

end Server

/-- A session that can go on completes: by induction on the packets that the client has
not acknowledged yet. -/
theorem completes_of_canGoOn (n : ℕ) (hs : Reachable (Net.step files) anyStep .start s)
    (hc : s.clients a = some c) (hrun : c.Running) (hn : c.packets-c.acknowledged ≤ n)
    (hgo : CanGoOn (s.session a) c) : CanComplete files Lossless s a := by
  induction n generalizing s c with
  | zero =>
    obtain ⟨file, hact⟩ := active_of_reachable hs hc
    have hle := hact.acknowledged_le
    exact completes_of_acknowledged hs hc hrun (by omega)
  | succ n ih =>
    obtain ⟨file, hact⟩ := active_of_reachable hs hc
    have hle := hact.acknowledged_le
    by_cases hall : c.acknowledged = c.packets
    · exact completes_of_acknowledged hs hc hrun hall
    have hlacks : c.acknowledged < c.packets := by omega
    -- the packet arrives, and either it was the last one or its ACK is under way
    obtain ⟨t, ht, hct, hcoming, hlast⟩ : ∃ t, Reachable (Net.step files) Lossless s t ∧
        t.clients a = some c ∧ (t.session a).PacketComing ∧
        (c.acknowledged+1 = c.packets ∨ t.socketOpen = true) := by
      rcases hgo with he | ⟨he, hcoming⟩ | ⟨hopen, hmotion⟩
      · exact absurd he hall
      · exact ⟨s, .start, hc, hcoming, Or.inl he⟩
      · obtain ⟨t, ht, hct, hot, hcoming⟩ := brings_packet hs hc hopen hlacks hmotion
        exact ⟨t, ht, hct, hcoming, Or.inr hot⟩
    obtain ⟨u, c', hu, hcu, hru, hacked, hpackets, hou, hacks⟩ :=
      delivers (hs.trans ht.any) hct hrun hlacks hcoming
    refine .of_reachable (ht.trans hu) (ih (hs.trans (ht.trans hu).any) hcu hru (by omega) ?_)
    rcases hlast with he | hopen
    · exact Or.inl (by rw [hacked, hpackets, he])
    · exact Or.inr (Or.inr ⟨hou.trans hopen, Or.inr (Or.inr (Or.inl hacks))⟩)

/-- In every reachable state a client that has not ended can be brought to completion
without a further loss exactly when its session can go on; losses after that state, calls
that fail and timeouts do not change this. -/
theorem completable_iff (files : Bytes → Option Bytes) (s : Net)
    (h : Reachable (Net.step files) anyStep .start s) (a : ℕ) (c : ClientThread)
    (hc : s.clients a = some c) (hrun : ∀ e, c.phase ≠ .ended e) :
    (CanComplete files Lossless s a ↔ CanGoOn (s.session a) c) ∧
      (CanComplete files anyStep s a ↔ CanGoOn (s.session a) c) := by
  obtain ⟨file, hact⟩ := active_of_reachable h hc
  have hno {C : Net → Action → Prop} (hcan : CanComplete files C s a) : CanGoOn (s.session a) c := by
    by_contra hn
    exact (hact.stuck hn).not_canComplete hcan
  have hyes (hgo : CanGoOn (s.session a) c) : CanComplete files Lossless s a :=
    completes_of_canGoOn _ h hc hrun (Nat.le_refl _) hgo
  refine ⟨⟨hno, hyes⟩, ⟨hno, fun hgo => ?_⟩⟩
  obtain ⟨t, ht, hend⟩ := hyes hgo
  exact ⟨t, ht.any, hend⟩

set_option maxRecDepth 4096 in
/-- The one data packet of a session is lost: nothing is ever sent again. -/
theorem lost_packet_is_final :
    ∃ s c, Reachable (Net.step sixBytes) anyStep .start s ∧ s.clients 0 = some c ∧
      c.phase = .receiving ∧ 0 < c.receiver.bytesRemaining ∧ ¬ CanComplete sixBytes anyStep s 0 := by
  have hrun : ∃ s, Reachable (Net.step sixBytes) anyStep .start s ∧ ∃ c ∈ s.clients 0,
      c.phase = .receiving ∧ 0 < c.receiver.bytesRemaining ∧ ¬ CanGoOn (s.session 0) c := by
    refine exists_reachable_of_replayIf
      (openSession 0 0 ++ [.loseToClient 0 (dataPacket 0 (ascii "abc"))]) _ ?_
    decide
  obtain ⟨s, hs, c, hc, hp, hr, hn⟩ := hrun
  obtain ⟨file, hact⟩ := active_of_reachable hs hc
  exact ⟨s, c, hs, hc, hp, hr, (hact.stuck hn).not_canComplete⟩

set_option maxRecDepth 4096 in
/-- The last ACK of a session is lost: the client completes all the same. -/
theorem completable_iff_lastAck :
    ∃ s, Reachable (Net.step sixBytes) anyStep .start s ∧ s.toServer 0 = [] ∧
      CanComplete sixBytes Lossless s 0 := by
  have hrun : ∃ s, Reachable (Net.step sixBytes) anyStep .start s ∧ s.toServer 0 = [] ∧
      ∃ c ∈ s.clients 0, c.phase = .storing (dataPacket 0 (ascii "abc")) ∧
        CanGoOn (s.session 0) c := by
    refine exists_reachable_of_replayIf (openSession 0 0 ++
      [.receive 0 (dataPacket 0 (ascii "abc")), .sendAck 0, .loseToServer 0 (ackPacket 0)]) _ ?_
    decide
  obtain ⟨s, hs, hempty, c, hc, hp, hgo⟩ := hrun
  have hrunning (e : Exit) : c.phase ≠ .ended e := by
    rw [hp]
    exact nofun
  exact ⟨s, hs, hempty, (completable_iff sixBytes s hs 0 c hc hrunning).1.mpr hgo⟩

end NetTools.TFTP
