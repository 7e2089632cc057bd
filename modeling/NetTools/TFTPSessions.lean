import NetTools.TFTPNetwork

namespace NetTools.TFTP

open CText

/-- What belongs to one address; `inbox` and `queue` are its part of the server's, and
`socketOpen` is the server's. -/
structure Session where
  client : Option ClientThread
  handler : Option Handler
  toServer : List Bytes
  toClient : List Bytes
  inbox : List Bytes
  queue : List ℕ
  socketOpen : Bool

namespace Net

def inboxOf (s : Net) (a : ℕ) : List Bytes :=
  match s.inbox with
  | some (b, datagram) => if b = a then [datagram] else []
  | none => []

def queueOf (s : Net) (a : ℕ) : List ℕ :=
  (s.ackQueue.filter fun ack => ack.clientAddr = a).map AckPacket.seqNum

def session (s : Net) (a : ℕ) : Session :=
  ⟨s.clients a, s.handlers a, s.toServer a, s.toClient a, s.inboxOf a, s.queueOf a, s.socketOpen⟩

end Net

inductive SessionStep (files : Bytes → Option Bytes) (s : Session) : Session → Prop
  | start {filename file : Bytes} {offset size : ℕ} (hc : s.client = none)
      (hv : ValidGet files filename offset size file) :
      SessionStep files s
        { s with
          client := some ⟨filename, offset, size, .start size, .receiving⟩
          toServer := s.toServer ++ [getRequest filename offset size] }
  | timeout {c : ClientThread} (hc : s.client = some c) (hp : c.phase = .receiving)
      (hr : 0 < c.receiver.bytesRemaining) :
      SessionStep files s { s with client := some (c.after c.receiver.onTimeout) }
  | setsockoptFails {c : ClientThread} (hc : s.client = some c) (hp : c.phase = .receiving)
      (hr : 0 < c.receiver.bytesRemaining) :
      SessionStep files s { s with client := some (c.at (.ended .setsockoptFailed)) }
  | receive {c : ClientThread} {datagram : Bytes} (hc : s.client = some c)
      (hp : c.phase = .receiving) (hr : 0 < c.receiver.bytesRemaining)
      (hd : datagram ∈ s.toClient) :
      SessionStep files s
        { s with
          client := some (c.at (.acking datagram))
          toClient := s.toClient.erase datagram }
  | sendAck {c : ClientThread} {datagram : Bytes} (hc : s.client = some c)
      (hp : c.phase = .acking datagram) :
      SessionStep files s
        { s with
          client := some (c.at (.storing datagram))
          toServer := s.toServer ++ [ackPacket (seqNumOf datagram)] }
  | ackFails {c : ClientThread} {datagram : Bytes} (hc : s.client = some c)
      (hp : c.phase = .acking datagram) :
      SessionStep files s { s with client := some (c.at (.ended .ackFailed)) }
  | store {c : ClientThread} {datagram : Bytes} (hc : s.client = some c)
      (hp : c.phase = .storing datagram) :
      SessionStep files s
        { s with client := some (c.after (c.receiver.storePayload c.size datagram)) }
  | finish {c : ClientThread} (hc : s.client = some c) (hp : c.phase = .receiving)
      (hr : ¬ 0 < c.receiver.bytesRemaining) :
      SessionStep files s { s with client := some (c.at (.ended .success)) }
  | lose {toServer toClient : List Bytes} (hs : toServer.Sublist s.toServer)
      (hc : toClient.Sublist s.toClient) :
      SessionStep files s { s with toServer := toServer, toClient := toClient }
  | serverReceive {datagram : Bytes} (hi : s.inbox = []) (hd : datagram ∈ s.toServer) :
      SessionStep files s { s with toServer := s.toServer.erase datagram, inbox := [datagram] }
  | enqueue {datagram : Bytes} {seqNum : Option ℕ} (stackSeq : ℕ) (hi : s.inbox = [datagram])
      (hr : route datagram = .ack seqNum) :
      SessionStep files s
        { s with
          inbox := []
          queue := s.queue ++ [seqNum.getD stackSeq]
          handler := s.handler.map Handler.wake }
  | discard : SessionStep files s { s with inbox := [] }
  | reply {datagram text : Bytes} {request : Request} (hi : s.inbox = [datagram])
      (hr : route datagram = .request request)
      (ht : handleRequest files request = .replied text) :
      SessionStep files s { s with inbox := [], toClient := s.toClient ++ [text] }
  | spawn {datagram : Bytes} {request : Request} {h : Handler} (hi : s.inbox = [datagram])
      (hr : route datagram = .request request) (hs : handleRequest files request = .sending h)
      (hn : s.handler = none) :
      SessionStep files s { s with inbox := [], handler := some h }
  | handlerEnds {h : Handler} {socketOpen : Bool} (hh : s.handler = some h)
      (hp : h.phase = .sending) (ho : socketOpen = true → s.socketOpen = true) :
      SessionStep files s
        { s with handler := some { h with phase := .ended }, socketOpen := socketOpen }
  | close : SessionStep files s { s with socketOpen := false }
  | send {h : Handler} (hh : s.handler = some h) (hp : h.phase = .sending)
      (he : h.atEnd = false) (ho : s.socketOpen = true) :
      SessionStep files s
        { s with handler := some h.sent, toClient := s.toClient ++ [h.packet] }
  | takeAck {h : Handler} (hh : s.handler = some h) (hp : h.phase = .scanning)
      (hq : h.seqNum ∈ s.queue) :
      SessionStep files s
        { s with handler := some h.acked, queue := s.queue.erase h.seqNum }
  | sleep {h : Handler} (hh : s.handler = some h) (hp : h.phase = .scanning)
      (hq : h.seqNum ∉ s.queue) :
      SessionStep files s { s with handler := some { h with phase := .asleep } }
  | wake : SessionStep files s { s with handler := s.handler.map Handler.wake }

/-- A step of a session, or none. -/
def SessionMove (files : Bytes → Option Bytes) (s t : Session) : Prop :=
  t = s ∨ SessionStep files s t

section Views

variable (s : Net) {a b : ℕ}

theorem session_putClient (c : ClientThread) : (s.putClient a c).session b =
    if b = a then { s.session b with client := some c } else s.session b := by
  split_ifs with h
  · subst h
    simp only [Net.session, Net.putClient, Function.update_self]
    rfl
  · simp only [Net.session, Net.putClient, Function.update_of_ne h]
    rfl

theorem session_putHandler (h : Handler) : (s.putHandler a h).session b =
    if b = a then { s.session b with handler := some h } else s.session b := by
  split_ifs with hb
  · subst hb
    simp only [Net.session, Net.putHandler, Function.update_self]
    rfl
  · simp only [Net.session, Net.putHandler, Function.update_of_ne hb]
    rfl

theorem session_setToServer (l : List Bytes) : (s.setToServer a l).session b =
    if b = a then { s.session b with toServer := l } else s.session b := by
  split_ifs with hb
  · subst hb
    simp only [Net.session, Net.setToServer, Function.update_self]
    rfl
  · simp only [Net.session, Net.setToServer, Function.update_of_ne hb]
    rfl

theorem session_setToClient (l : List Bytes) : (s.setToClient a l).session b =
    if b = a then { s.session b with toClient := l } else s.session b := by
  split_ifs with hb
  · subst hb
    simp only [Net.session, Net.setToClient, Function.update_self]
    rfl
  · simp only [Net.session, Net.setToClient, Function.update_of_ne hb]
    rfl

/-- The inbox belongs to one session. -/
theorem inboxOf_of_inbox {s : Net} {datagram : Bytes} (hi : s.inbox = some (a, datagram)) :
    s.inboxOf b = if b = a then [datagram] else [] := by
  rw [Net.inboxOf, hi]
  simp only [eq_comm]

theorem session_putClient_setToServer (c : ClientThread) (l : List Bytes) :
    ((s.putClient a c).setToServer a l).session b =
      if b = a then { s.session b with client := some c, toServer := l } else s.session b := by
  rw [session_setToServer, session_putClient]
  split_ifs
  · rfl
  · rfl

theorem session_putClient_setToClient (c : ClientThread) (l : List Bytes) :
    ((s.putClient a c).setToClient a l).session b =
      if b = a then { s.session b with client := some c, toClient := l } else s.session b := by
  rw [session_setToClient, session_putClient]
  split_ifs
  · rfl
  · rfl

theorem session_putHandler_setToClient (h : Handler) (l : List Bytes) :
    ((s.putHandler a h).setToClient a l).session b =
      if b = a then { s.session b with handler := some h, toClient := l } else s.session b := by
  rw [session_setToClient, session_putHandler]
  split_ifs
  · rfl
  · rfl

/-- Emptying the inbox. -/
theorem session_emptyInbox {s : Net} {datagram : Bytes} (hi : s.inbox = some (a, datagram)) :
    Net.session { s with inbox := none } b =
      if b = a then { s.session b with inbox := [] } else s.session b := by
  have hb := inboxOf_of_inbox (b := b) hi
  unfold Net.session
  rw [hb]
  split_ifs <;> rfl

theorem queueOf_append (q : List AckPacket) (ack : AckPacket) :
    Net.queueOf { s with ackQueue := q ++ [ack] } b =
      if b = ack.clientAddr then Net.queueOf { s with ackQueue := q } b ++ [ack.seqNum]
      else Net.queueOf { s with ackQueue := q } b := by
  simp only [Net.queueOf, List.filter_append, List.map_append]
  split_ifs with h
  · rw [List.filter_cons_of_pos (by simp [h])]
    rfl
  · rw [List.filter_cons_of_neg (by simpa using Ne.symm h)]
    simp

/-- Putting an ACK into the queue also wakes the handlers of all sessions. -/
theorem session_enqueue {s : Net} {datagram : Bytes} (hi : s.inbox = some (a, datagram)) (n : ℕ) :
    Net.session { s with
      inbox := none
      ackQueue := s.ackQueue ++ [⟨n, a⟩]
      handlers := fun b => (s.handlers b).map Handler.wake } b =
    if b = a then { s.session b with
      inbox := []
      queue := (s.session b).queue ++ [n]
      handler := (s.session b).handler.map Handler.wake }
    else { s.session b with handler := (s.session b).handler.map Handler.wake } := by
  have hqueue := queueOf_append s (b := b) s.ackQueue ⟨n, a⟩
  have hsession := congrArg (fun q => ({ s.session b with
    inbox := []
    queue := q
    handler := (s.session b).handler.map Handler.wake } : Session)) hqueue
  refine Eq.trans hsession ?_
  split_ifs with hb
  · rfl
  · have hin : s.inboxOf b = [] := (inboxOf_of_inbox hi).trans (if_neg hb)
    simp only [Net.session, hin]

theorem mem_queueOf {n : ℕ} : n ∈ s.queueOf a ↔ (⟨n, a⟩ : AckPacket) ∈ s.ackQueue := by
  simp only [Net.queueOf, List.mem_map, List.mem_filter, decide_eq_true_eq]
  constructor
  · rintro ⟨ack, ⟨hm, rfl⟩, rfl⟩
    exact hm
  · intro hm
    exact ⟨_, ⟨hm, rfl⟩, rfl⟩

/-- Taking an ACK out of the shared queue takes it out of its session's part. -/
theorem queueOf_erase (n : ℕ) : Net.queueOf { s with ackQueue := s.ackQueue.erase ⟨n, a⟩ } b =
    if b = a then (s.queueOf b).erase n else s.queueOf b := by
  simp only [Net.queueOf]
  generalize s.ackQueue = q
  induction q with
  | nil => split_ifs <;> rfl
  | cons ack q ih =>
    obtain ⟨m, c⟩ := ack
    by_cases he : (⟨m, c⟩ : AckPacket) = ⟨n, a⟩
    · cases he
      rw [List.erase_cons_head]
      by_cases hb : b = a
      · subst hb
        rw [if_pos rfl, List.filter_cons_of_pos (by simp), List.map_cons, List.erase_cons_head]
      · rw [if_neg hb, List.filter_cons_of_neg (by simpa using Ne.symm hb)]
    · rw [List.erase_cons_tail (by simpa using he)]
      by_cases hc : c = b
      · rw [List.filter_cons_of_pos (by simpa using hc), List.filter_cons_of_pos (by simpa using hc),
          List.map_cons, List.map_cons, ih]
        split_ifs with hb
        · have hm : m ≠ n := by
            rintro rfl
            exact he (by rw [hc, hb])
          rw [List.erase_cons_tail (by simpa using hm)]
        · rfl
      · rw [List.filter_cons_of_neg (by simpa using hc), List.filter_cons_of_neg (by simpa using hc)]
        exact ih

/-- A handler takes its ACK out of the shared queue. -/
theorem session_takeAck (h : Handler) (n : ℕ) :
    Net.session (Net.putHandler { s with ackQueue := s.ackQueue.erase ⟨n, a⟩ } a h) b =
      if b = a then { s.session b with handler := some h, queue := (s.session b).queue.erase n }
      else s.session b := by
  have hqueue := queueOf_erase s (a := a) (b := b) n
  rw [session_putHandler]
  split_ifs with hb
  · rw [if_pos hb] at hqueue
    exact congrArg (fun q => ({ s.session b with handler := some h, queue := q } : Session)) hqueue
  · rw [if_neg hb] at hqueue
    exact congrArg (fun q => ({ s.session b with queue := q } : Session)) hqueue

/-- A datagram comes into the empty inbox of the receive loop. -/
theorem session_fillInbox (hi : s.inbox = none) (datagram : Bytes) (l : List Bytes) :
    Net.session (Net.setToServer { s with inbox := some (a, datagram) } a l) b =
      if b = a then { s.session b with toServer := l, inbox := [datagram] } else s.session b := by
  have hin : s.inboxOf b = [] := by rw [Net.inboxOf, hi]
  rw [session_setToServer]
  split_ifs with hb
  · subst hb
    simp only [Net.session, Net.inboxOf, ↓reduceIte]
    rfl
  · simp only [Net.session, hin]
    simp only [Net.inboxOf, if_neg (Ne.symm hb)]
    rfl

end Views

theorem SessionMove.of_ite {files : Bytes → Option Bytes} {s t u : Session} {p : Prop} [Decidable p]
    (ht : t = if p then u else s) (hu : p → SessionStep files s u) : SessionMove files s t := by
  rw [ht]
  split_ifs with h
  · exact Or.inr (hu h)
  · exact Or.inl rfl

/-- The receive loop on its inbox: the other sessions are only woken up. -/
theorem route_session {files : Bytes → Option Bytes} {s t : Net} {a stackSeq : ℕ} {datagram : Bytes}
    (hi : s.inbox = some (a, datagram)) (h : s.routeStep files a datagram stackSeq = some t)
    (b : ℕ) : SessionMove files (s.session b) (t.session b) := by
  have hinbox (hb : b = a) : (s.session b).inbox = [datagram] :=
    (inboxOf_of_inbox hi).trans (if_pos hb)
  unfold Net.routeStep at h
  split at h
  -- an ACK: a full queue drops it, and nobody is woken
  case h_1 seqNum hr =>
    cases h
    by_cases hroom : s.ackQueue.length < maxQueueSize
    · have hqueue : enqueueAck s.ackQueue ⟨seqNum.getD stackSeq, a⟩ =
          s.ackQueue ++ [⟨seqNum.getD stackSeq, a⟩] := if_pos hroom
      rw [hqueue, if_pos hroom, session_enqueue hi]
      right
      split_ifs with hb
      · exact .enqueue stackSeq (hinbox hb) hr
      · exact .wake
    · have hqueue : enqueueAck s.ackQueue ⟨seqNum.getD stackSeq, a⟩ = s.ackQueue := if_neg hroom
      rw [hqueue, if_neg hroom]
      exact .of_ite (session_emptyInbox hi) fun _ => .discard
  case h_2 hr =>
    cases h
    exact .of_ite (session_emptyInbox hi) fun _ => .discard
  -- a request is answered with a text, starts a handler, or is dropped
  case h_3 request hr =>
    split at h
    case h_1 text ht =>
      cases h
      have hview := session_setToClient { s with inbox := none } (a := a) (b := b)
        (s.toClient a ++ [text])
      rw [session_emptyInbox hi] at hview
      by_cases hb : b = a
      · rw [if_pos hb, if_pos hb] at hview
        right
        rw [hview, ← hb]
        exact .reply (hinbox hb) hr ht
      · rw [if_neg hb, if_neg hb] at hview
        exact Or.inl hview
    case h_2 h' hh =>
      split_ifs at h with hn
      cases h
      have hview := session_putHandler { s with inbox := none } (a := a) (b := b) h'
      rw [session_emptyInbox hi] at hview
      by_cases hb : b = a
      · rw [if_pos hb, if_pos hb] at hview
        right
        rw [hview]
        exact .spawn (hinbox hb) hr hh (by rw [hb]; exact hn)
      · rw [if_neg hb, if_neg hb] at hview
        exact Or.inl hview
    case h_3 =>
      cases h
      exact .of_ite (session_emptyInbox hi) fun _ => .discard
    case h_4 => cases h
    case h_5 => cases h

/-- Every step of the system is, at each address, a step of the session or none. -/
theorem step_session {files : Bytes → Option Bytes} {s t : Net} {act : Action}
    (h : s.step files act = some t) (b : ℕ) : SessionMove files (s.session b) (t.session b) := by
  cases act with
  | start a filename offset size =>
    obtain ⟨file, hf, h⟩ := Option.bind_eq_some_iff.mp h
    simp only [Option.ite_none_right_eq_some, Option.some.injEq] at h
    obtain ⟨⟨hc, hv⟩, rfl⟩ := h
    refine .of_ite (session_putClient_setToServer s _ _) ?_
    rintro rfl
    exact .start hc hv
  | timeout a =>
    obtain ⟨c, hc, h⟩ := Option.bind_eq_some_iff.mp h
    simp only [Option.ite_none_right_eq_some, Option.some.injEq] at h
    obtain ⟨⟨hp, hr⟩, rfl⟩ := h
    refine .of_ite (session_putClient s _) ?_
    rintro rfl
    exact .timeout hc hp hr
  | setsockoptFails a =>
    obtain ⟨c, hc, h⟩ := Option.bind_eq_some_iff.mp h
    simp only [Option.ite_none_right_eq_some, Option.some.injEq] at h
    obtain ⟨⟨hp, hr⟩, rfl⟩ := h
    refine .of_ite (session_putClient s _) ?_
    rintro rfl
    exact .setsockoptFails hc hp hr
  | receive a datagram =>
    obtain ⟨c, hc, h⟩ := Option.bind_eq_some_iff.mp h
    simp only [Option.ite_none_right_eq_some, Option.some.injEq] at h
    obtain ⟨⟨hp, hr, hd, -⟩, rfl⟩ := h
    refine .of_ite (session_putClient_setToClient s _ _) ?_
    rintro rfl
    exact .receive hc hp hr hd
  | sendAck a =>
    obtain ⟨c, hc, h⟩ := Option.bind_eq_some_iff.mp h
    split at h
    · rename_i datagram hp
      cases h
      refine .of_ite (session_putClient_setToServer s _ _) ?_
      rintro rfl
      exact .sendAck hc hp
    · cases h
  | ackFails a =>
    obtain ⟨c, hc, h⟩ := Option.bind_eq_some_iff.mp h
    split at h
    · rename_i datagram hp
      cases h
      refine .of_ite (session_putClient s _) ?_
      rintro rfl
      exact .ackFails hc hp
    · cases h
  | store a =>
    obtain ⟨c, hc, h⟩ := Option.bind_eq_some_iff.mp h
    split at h
    · rename_i datagram hp
      cases h
      refine .of_ite (session_putClient s _) ?_
      rintro rfl
      exact .store hc hp
    · cases h
  | finish a =>
    obtain ⟨c, hc, h⟩ := Option.bind_eq_some_iff.mp h
    simp only [Option.ite_none_right_eq_some, Option.some.injEq] at h
    obtain ⟨⟨hp, hr⟩, rfl⟩ := h
    refine .of_ite (session_putClient s _) ?_
    rintro rfl
    exact .finish hc hp hr
  | loseToServer a datagram =>
    simp only [Net.step, Option.ite_none_right_eq_some, Option.some.injEq] at h
    obtain ⟨hd, rfl⟩ := h
    refine .of_ite (session_setToServer s _) ?_
    rintro rfl
    exact .lose List.erase_sublist (List.Sublist.refl _)
  | loseToClient a datagram =>
    simp only [Net.step, Option.ite_none_right_eq_some, Option.some.injEq] at h
    obtain ⟨hd, rfl⟩ := h
    refine .of_ite (session_setToClient s _) ?_
    rintro rfl
    exact .lose (List.Sublist.refl _) List.erase_sublist
  | serverReceive a datagram =>
    simp only [Net.step, Option.ite_none_right_eq_some, Option.some.injEq] at h
    obtain ⟨⟨-, hi, hd⟩, rfl⟩ := h
    have hin : s.inboxOf b = [] := by rw [Net.inboxOf, hi]
    refine .of_ite (session_fillInbox s hi _ _) ?_
    rintro rfl
    exact .serverReceive hin hd
  | route stackSeq =>
    obtain ⟨⟨a, datagram⟩, hi, h⟩ := Option.bind_eq_some_iff.mp h
    exact route_session hi h b
  | threadFails =>
    obtain ⟨⟨a, datagram⟩, hi, h⟩ := Option.bind_eq_some_iff.mp h
    split at h
    · cases h
      exact .of_ite (session_emptyInbox hi) fun _ => .discard
    · cases h
  | send a =>
    obtain ⟨h', hh, h⟩ := Option.bind_eq_some_iff.mp h
    split_ifs at h with hp he hopen
    · cases h
      refine .of_ite (session_putHandler s _) ?_
      rintro rfl
      exact .handlerEnds hh hp id
    · cases h
      refine .of_ite (session_putHandler_setToClient s _ _) ?_
      rintro rfl
      exact .send hh hp (by simpa using he) hopen
  | sendFails a =>
    obtain ⟨h', hh, h⟩ := Option.bind_eq_some_iff.mp h
    simp only [Option.ite_none_right_eq_some, Option.some.injEq] at h
    obtain ⟨⟨hp, -⟩, rfl⟩ := h
    right
    rw [session_putHandler]
    split_ifs with hb
    · subst hb
      exact SessionStep.handlerEnds hh hp nofun
    -- the socket is the one of all sessions
    · exact .close
  | scan a =>
    obtain ⟨h', hh, h⟩ := Option.bind_eq_some_iff.mp h
    split_ifs at h with hp
    unfold takeAck at h
    split_ifs at h with hq
    · cases h
      refine .of_ite (session_takeAck s _ _) ?_
      rintro rfl
      exact .takeAck hh hp ((mem_queueOf s).mpr hq)
    · cases h
      refine .of_ite (session_putHandler s _) ?_
      rintro rfl
      exact .sleep hh hp (mt (mem_queueOf s).mp hq)
  | wake a =>
    obtain ⟨h', hh, h⟩ := Option.bind_eq_some_iff.mp h
    split_ifs at h with hp
    cases h
    refine .of_ite (session_putHandler s _) ?_
    rintro rfl
    have hw : some { h' with phase := HandlerPhase.scanning } =
        (s.session b).handler.map Handler.wake := by
      change _ = (s.handlers b).map Handler.wake
      rw [hh, Option.map_some, Handler.wake, if_pos hp]
    rw [hw]
    exact .wake

end NetTools.TFTP
