import NetTools.TFTPSessions
import NetTools.StopAndWait

namespace NetTools.TFTP

open CText Schedule StopAndWait

/-- The transfer of a slice. -/
def protocolOf (σ : Bytes) : Protocol Bytes Bytes :=
  ⟨packetOf σ, packetCount σ, seqNumOf, payloadOf⟩

/-- The sequence number of an ACK, as the receive loop reads it. -/
def ackNumber (datagram : Bytes) : Option ℕ :=
  match route datagram with
  | .ack seqNum => seqNum
  | _ => none

def isRequest (datagram : Bytes) : Bool :=
  match route datagram with
  | .request _ => true
  | _ => false

def Handler.isWaiting (h : Handler) : Bool := h.phase = .scanning || h.phase = .asleep

def ClientThread.acking (c : ClientThread) : Option Bytes :=
  match c.phase with
  | .acking datagram => some datagram
  | _ => none

def ClientThread.storing (c : ClientThread) : Option Bytes :=
  match c.phase with
  | .storing datagram => some datagram
  | _ => none

/-- The slice of the file that a thread fetches. -/
def ClientThread.slice (c : ClientThread) (file : Bytes) : Bytes := (file.drop c.offset).take c.size

namespace Session

/-- The ACKs of a session on their way: in flight, in the inbox and in the queue. -/
def acks (s : Session) : List ℕ := (s.toServer ++ s.inbox).filterMap ackNumber ++ s.queue

def transfer (s : Session) : Transfer Bytes Bytes where
  acked := (s.handler.map Handler.seqNum).getD 0
  waiting := (s.handler.map Handler.isWaiting).getD false
  data := s.toClient
  acks := s.acks
  acking := s.client.bind ClientThread.acking
  storing := s.client.bind ClientThread.storing
  stored := (s.client.map fun c => c.receiver.copied).getD []

/-- Nothing was ever sent from or to this address. -/
def untouched (socketOpen : Bool) : Session := ⟨none, none, [], [], [], [], socketOpen⟩

end Session

/-- The handler's variables, given how many packets are acknowledged. -/
inductive HandlerOk (file : Bytes) (offset size : ℕ) : Handler → Prop
  | ended {h : Handler} (hp : h.phase = .ended) : HandlerOk file offset size h
  | sending {h : Handler} (hp : h.phase = .sending) (ha : h.At file offset size h.seqNum) :
      HandlerOk file offset size h
  | waiting {h : Handler} (phase : HandlerPhase) (ha : h.At file offset size h.seqNum)
      (he : h.atEnd = false) (hp : phase = .scanning ∨ phase = .asleep) :
      HandlerOk file offset size { h.sent with phase := phase }

/-- The invariant of a session whose client has started. -/
structure Active (files : Bytes → Option Bytes) (s : Session) (c : ClientThread) (file : Bytes) :
    Prop where
  client : s.client = some c
  valid : ValidGet files c.filename c.offset c.size file
  texts : ∀ d ∈ s.toServer ++ s.inbox,
    d = getRequest c.filename c.offset c.size ∨ ∃ n < 2^64, d = ackPacket n
  sound : Sound (protocolOf (c.slice file)) s.transfer
  request : (s.toServer ++ s.inbox).countP isRequest ≤ if s.handler.isSome then 0 else 1
  handler : ∀ h ∈ s.handler, HandlerOk file c.offset c.size h
  receiver : c.receiver.Aligned c.size
  exits : c.phase ≠ .ended .moreThanExpected ∧ c.phase ≠ .ended .beyondBuffer ∧
    (c.phase = .ended .success → c.receiver.bytesRemaining = 0)
  awake : s.queue ≠ [] → ∀ h ∈ s.handler, h.phase ≠ .asleep

def SessionOk (files : Bytes → Option Bytes) (s : Session) : Prop :=
  s = .untouched s.socketOpen ∨ ∃ c file, Active files s c file

theorem seqNumOf_lt (datagram : Bytes) : seqNumOf datagram < 2^64 := by
  have hlt (l : Bytes) : decodeLE l < 256^l.length := by
    induction l with
    | nil => simp [decodeLE]
    | cons b l ih =>
      have hb := b.toNat_lt
      rw [decodeLE, List.length_cons, Nat.pow_succ]
      omega
  have hle : (datagram.take seqSize).length ≤ seqSize := List.length_take_le _ _
  calc seqNumOf datagram < 256^(datagram.take seqSize).length := hlt _
    _ ≤ 256^seqSize := Nat.pow_le_pow_right (by decide) hle
    _ = 2^64 := by decide

theorem ackNumber_ackPacket {n : ℕ} (h : n < 2^64) : ackNumber (ackPacket n) = some n := by
  rw [ackNumber, route_ackPacket h]

theorem isRequest_ackPacket {n : ℕ} (h : n < 2^64) : isRequest (ackPacket n) = false := by
  rw [isRequest, route_ackPacket h]

section Request

variable {files : Bytes → Option Bytes} {filename file : Bytes} {offset size : ℕ}

theorem ValidGet.ackNumber (h : ValidGet files filename offset size file) :
    ackNumber (getRequest filename offset size) = none := by
  rw [TFTP.ackNumber, h.parsed]

theorem ValidGet.isRequest (h : ValidGet files filename offset size file) :
    isRequest (getRequest filename offset size) = true := by
  rw [TFTP.isRequest, h.parsed]

theorem ValidGet.handleRequest (h : ValidGet files filename offset size file) :
    handleRequest files ⟨ascii "GET", filename, some offset, some size⟩ =
      .sending ⟨file, offset, size, 0, [], .sending⟩ := by
  have hcheck : ascii "GET" ≠ ascii "CHECK" := by decide
  rw [TFTP.handleRequest, if_neg hcheck, if_pos rfl]
  simp only [h.found, Handler.start_eq h.nonempty h.inRange h.fileSize]

end Request

theorem Handler.acked_phase (h : Handler) (phase : HandlerPhase) :
    Handler.acked { h with phase := phase } = h.acked := rfl

section Slice

variable {files : Bytes → Option Bytes} {s : Session} {c : ClientThread} {file : Bytes}

theorem Active.slice_length (h : Active files s c file) : (c.slice file).length = c.size := by
  have hin := h.valid.inRange
  rw [ClientThread.slice, List.length_take, List.length_drop]
  omega

/-- What is written is the prefix of the slice that the stored packets carry. -/
theorem Active.written (h : Active files s c file) :
    c.receiver.written = (c.slice file).take (payloadSize*c.receiver.copied.length) := by
  have hstored := h.sound.stored
  simp only [Session.transfer, h.client, Option.map_some, Option.getD_some, protocolOf, payloadOf,
    packetOf, dataPacket_drop] at hstored
  rw [Receiver.written, hstored, List.length_map, List.length_range]
  generalize c.receiver.copied.length = k
  induction k with
  | zero => rfl
  | succ k ih =>
    rw [List.range_succ, List.map_append, List.flatten_append, ih, take_succ_payload]
    simp

theorem Active.bytesRemaining (h : Active files s c file) :
    c.receiver.bytesRemaining = ((c.size-payloadSize*c.receiver.copied.length : ℕ) : Int) := by
  have hptr := h.receiver.written
  have hrem := h.receiver.remaining
  have hlen := congrArg List.length h.written
  rw [List.length_take, h.slice_length] at hlen
  omega

/-- A complete chunk is the slice. -/
theorem Active.complete (h : Active files s c file) (hc : c.receiver.bytesRemaining = 0) :
    c.receiver.written = c.slice file := by
  have hrem := h.bytesRemaining
  rw [h.written]
  apply List.take_of_length_le
  rw [h.slice_length]
  omega

end Slice

section Preservation

variable {files : Bytes → Option Bytes} {s t : Session} {c c' : ClientThread} {file : Bytes}

/-- A session that only loses, moves or reorders messages, or whose handler only changes
its phase. -/
theorem Active.weaken (h : Active files s c file) (hc : t.client = s.client)
    (htexts : (t.toServer ++ t.inbox).Subperm (s.toServer ++ s.inbox))
    (hdata : t.toClient.Sublist s.toClient) (hacks : t.acks.Subperm s.acks)
    (hseq : t.handler.map Handler.seqNum = s.handler.map Handler.seqNum)
    (hwait : t.handler.map Handler.isWaiting = s.handler.map Handler.isWaiting)
    (hok : ∀ h ∈ t.handler, HandlerOk file c.offset c.size h)
    (hawake : t.queue ≠ [] → ∀ h ∈ t.handler, h.phase ≠ .asleep) : Active files t c file where
  client := hc.trans h.client
  valid := h.valid
  texts d hd := h.texts d (htexts.subset hd)
  sound := by
    have ht : t.transfer =
        { s.transfer with data := t.toClient, acks := t.acks, acking := s.transfer.acking } := by
      simp only [Session.transfer, hc, hseq, hwait]
    rw [ht]
    exact sound_step h.sound (.lose hdata hacks (Or.inl rfl))
  request := by
    have hsome : t.handler.isSome = s.handler.isSome := by
      have hi := congrArg Option.isSome hseq
      simpa using hi
    rw [hsome]
    exact Nat.le_trans (htexts.countP_le _) h.request
  handler := hok
  receiver := h.receiver
  exits := h.exits
  awake := hawake

/-- A step of the client alone. -/
theorem Active.putClient (h : Active files s c file) (hname : c'.filename = c.filename)
    (hoffset : c'.offset = c.offset) (hsize : c'.size = c.size)
    (hsound : Sound (protocolOf (c.slice file)) (Session.transfer { s with client := some c' }))
    (hrec : c'.receiver.Aligned c.size)
    (hexits : c'.phase ≠ .ended .moreThanExpected ∧ c'.phase ≠ .ended .beyondBuffer ∧
      (c'.phase = .ended .success → c'.receiver.bytesRemaining = 0)) :
    Active files { s with client := some c' } c' file where
  client := rfl
  valid := by
    rw [hname, hoffset, hsize]
    exact h.valid
  texts := by
    rw [hname, hoffset, hsize]
    exact h.texts
  sound := by
    rw [ClientThread.slice, hoffset, hsize]
    exact hsound
  request := h.request
  handler := by
    rw [hoffset, hsize]
    exact h.handler
  receiver := by
    rw [hsize]
    exact hrec
  exits := hexits
  awake := h.awake

/-- A thread that gives up, or ends its loop, leaves the transfer as it is. -/
theorem Active.ends (h : Active files s c file) {e : Exit} (hs : c.storing = none)
    (hmore : e ≠ .moreThanExpected) (hbeyond : e ≠ .beyondBuffer)
    (hsuccess : e = .success → c.receiver.bytesRemaining = 0) :
    Active files { s with client := some (c.at (.ended e)) } (c.at (.ended e)) file := by
  refine h.putClient rfl rfl rfl ?_ h.receiver ?_
  · have ht : Session.transfer { s with client := some (c.at (.ended e)) } =
        { s.transfer with data := s.transfer.data, acks := s.transfer.acks, acking := none } := by
      simp only [Session.transfer, h.client, Option.bind_some, hs]
      rfl
    rw [ht]
    exact sound_step h.sound (.lose (List.Sublist.refl _) (List.Subperm.refl _) (Or.inr rfl))
  · refine ⟨?_, ?_, ?_⟩
    · intro hp
      cases hp
      exact hmore rfl
    · intro hp
      cases hp
      exact hbeyond rfl
    · intro hp
      cases hp
      exact hsuccess rfl

theorem Active.timeout (h : Active files s c file) (hp : c.phase = .receiving) :
    Active files { s with client := some (c.after c.receiver.onTimeout) }
      (c.after c.receiver.onTimeout) file := by
  have hstoring : c.storing = none := by rw [ClientThread.storing, hp]
  unfold Receiver.onTimeout
  split_ifs with hmax
  · exact h.ends hstoring (by decide) (by decide) nofun
  · refine h.putClient rfl rfl rfl ?_ ⟨h.receiver.written, h.receiver.remaining⟩ ⟨nofun, nofun, nofun⟩
    have hacking : c.acking = none := by rw [ClientThread.acking, hp]
    have ht : Session.transfer { s with client := some (c.after
        (.ok { c.receiver with retryCount := c.receiver.retryCount+1 })) } = s.transfer := by
      simp only [Session.transfer, h.client, Option.bind_some, hstoring, hacking]
      rfl
    rw [ht]
    exact h.sound

theorem Active.receive (h : Active files s c file) {d : Bytes} (hp : c.phase = .receiving)
    (hd : d ∈ s.toClient) :
    Active files { s with client := some (c.at (.acking d)), toClient := s.toClient.erase d }
      (c.at (.acking d)) file := by
  have hstoring : s.transfer.storing = none := by
    simp only [Session.transfer, h.client, Option.bind_some, ClientThread.storing, hp]
  have hacking : s.transfer.acking = none := by
    simp only [Session.transfer, h.client, Option.bind_some, ClientThread.acking, hp]
  have hsound := sound_step h.sound (.receive hd hacking hstoring)
  have hlost := h.weaken (t := { s with toClient := s.toClient.erase d }) rfl
    (List.Subperm.refl _) List.erase_sublist (List.Subperm.refl _) rfl rfl h.handler h.awake
  refine hlost.putClient rfl rfl rfl ?_ h.receiver ⟨nofun, nofun, nofun⟩
  have ht : Session.transfer
      { s with client := some (c.at (.acking d)), toClient := s.toClient.erase d } =
      { s.transfer with data := s.transfer.data.erase d, acking := some d } := by
    have hn : s.transfer.storing = (c.at (.acking d)).storing := hstoring
    simp only [Session.transfer, h.client, Option.bind_some] at hn ⊢
    rw [hn]
    rfl
  rw [ht]
  exact hsound

theorem Active.sendAck (h : Active files s c file) {d : Bytes} (hp : c.phase = .acking d) :
    Active files
      { s with
        client := some (c.at (.storing d))
        toServer := s.toServer ++ [ackPacket (seqNumOf d)] }
      (c.at (.storing d)) file := by
  have hacking : s.transfer.acking = some d := by
    simp only [Session.transfer, h.client, Option.bind_some, ClientThread.acking, hp]
  have hperm : ((s.toServer ++ [ackPacket (seqNumOf d)]) ++ s.inbox).Perm
      (ackPacket (seqNumOf d) :: (s.toServer ++ s.inbox)) := by
    rw [List.append_assoc]
    exact List.perm_middle
  have hacks : Session.acks { s with toServer := s.toServer ++ [ackPacket (seqNumOf d)] } |>.Perm
      (seqNumOf d :: s.acks) := by
    have hf := hperm.filterMap ackNumber
    rw [List.filterMap_cons_some (ackNumber_ackPacket (seqNumOf_lt d))] at hf
    exact hf.append_right s.queue
  have hsound := sound_step h.sound (.acknowledge hacking hacks)
  have ht : Session.transfer { s with
      client := some (c.at (.storing d))
      toServer := s.toServer ++ [ackPacket (seqNumOf d)] } =
      { s.transfer with
        acking := none
        storing := some d
        acks := Session.acks { s with toServer := s.toServer ++ [ackPacket (seqNumOf d)] } } := by
    simp only [Session.transfer, h.client]
    rfl
  refine ⟨rfl, h.valid, ?_, ?_, ?_, h.handler, h.receiver, ⟨nofun, nofun, nofun⟩, h.awake⟩
  · intro e he
    rcases List.mem_cons.mp (hperm.subset he) with rfl | he
    · exact Or.inr ⟨_, seqNumOf_lt d, rfl⟩
    · exact h.texts e he
  · rw [ht]
    exact hsound
  · have hcount := hperm.countP_eq isRequest
    rw [List.countP_cons_of_neg (by rw [isRequest_ackPacket (seqNumOf_lt d)]; decide)] at hcount
    exact Nat.le_trans (Nat.le_of_eq hcount) h.request

/-- The packet that is stored is the next one, and there is room for it. -/
theorem Active.storing_packet (h : Active files s c file) {d : Bytes} (hp : c.phase = .storing d) :
    d = packetOf (c.slice file) c.receiver.copied.length ∧
      c.receiver.copied.length < packetCount (c.slice file) := by
  have hstoring : s.transfer.storing = some d := by
    simp only [Session.transfer, h.client, Option.bind_some, ClientThread.storing, hp]
  have hstored : s.transfer.stored = c.receiver.copied := by
    simp only [Session.transfer, h.client, Option.map_some, Option.getD_some]
  have hd := h.sound.storing d hstoring
  have hahead := h.sound.ahead
  have hbound := h.sound.bound
  simp only [Transfer.received, hstoring, hstored, Option.toList_some, List.length_singleton]
    at hahead
  rw [hstored] at hd
  refine ⟨hd, ?_⟩
  change s.transfer.acked ≤ packetCount (c.slice file) at hbound
  rcases hahead with he | ⟨hw, he⟩
  · omega
  · have hsent : s.transfer.acked < packetCount (c.slice file) := h.sound.sent hw
    omega

theorem Active.store_ok (h : Active files s c file) {d : Bytes} (hp : c.phase = .storing d) :
    c.receiver.storePayload c.size d = .ok (c.receiver.stored (payloadOf d)) := by
  obtain ⟨hd, hlt⟩ := h.storing_packet hp
  have hpay : payloadOf d = payloadAt (c.slice file) c.receiver.copied.length := by
    rw [hd, payloadOf, packetOf, dataPacket_drop]
  have hlen : seqSize ≤ d.length := by
    rw [hd, packetOf, dataPacket_length]
    omega
  have hrem := h.bytesRemaining
  rw [Receiver.storePayload_eq h.receiver hlen, if_pos]
  rw [hpay, payloadAt_length, h.slice_length]
  omega

theorem Active.store (h : Active files s c file) {d : Bytes} (hp : c.phase = .storing d) :
    Active files { s with client := some (c.after (c.receiver.storePayload c.size d)) }
      (c.after (c.receiver.storePayload c.size d)) file := by
  have hstoring : s.transfer.storing = some d := by
    simp only [Session.transfer, h.client, Option.bind_some, ClientThread.storing, hp]
  have hsound := sound_step h.sound (.store hstoring)
  rw [h.store_ok hp]
  refine h.putClient rfl rfl rfl ?_ (h.receiver.stored _) ⟨nofun, nofun, nofun⟩
  have hacking : c.acking = none := by rw [ClientThread.acking, hp]
  have ht : Session.transfer
      { s with client := some (c.after (.ok (c.receiver.stored (payloadOf d)))) } =
      { s.transfer with storing := none, stored := s.transfer.stored ++ [payloadOf d] } := by
    simp only [Session.transfer, h.client, Option.bind_some, hacking, Option.map_some,
      Option.getD_some]
    rfl
  rw [ht]
  exact hsound

/-- The queue entries of a session are what its handler waits for. -/
theorem Active.queue_eq (h : Active files s c file) {n : ℕ} (hn : n ∈ s.queue) :
    s.transfer.waiting = true ∧ n = s.transfer.acked := by
  have hmem : n ∈ s.transfer.acks := List.mem_append_right _ hn
  have hw := h.sound.waiting_of_underWay (by
    have hpos := List.length_pos_of_mem hmem
    unfold Transfer.underWay
    omega)
  have hlt : s.transfer.acked < packetCount (c.slice file) := h.sound.sent hw
  have hlt' := lt_packetCount.mp hlt
  have hfile := h.valid.fileSize
  have hin := h.valid.inRange
  rw [h.slice_length] at hlt'
  have hp : payloadSize = 1016 := rfl
  rw [hp] at hlt'
  have hnum : n = seqNumOf (packetOf (c.slice file) s.transfer.acked) := h.sound.acks n hmem
  rw [packetOf, seqNumOf_dataPacket (by omega)] at hnum
  exact ⟨hw, hnum⟩

/-- The ACK moves from the inbox to the end of the queue. -/
theorem Active.enqueue_acks (h : Active files s c file) {d : Bytes} {seqNum : Option ℕ}
    (stackSeq : ℕ) (hi : s.inbox = [d]) (hr : route d = .ack seqNum) :
    (Session.acks { s with
      inbox := []
      queue := s.queue ++ [seqNum.getD stackSeq]
      handler := s.handler.map Handler.wake }).Perm s.acks := by
  obtain ⟨n, hlt, hn⟩ : ∃ n < 2^64, d = ackPacket n := by
    rcases h.texts d (by simp [hi]) with hd | hd
    · rw [hd, h.valid.parsed] at hr
      cases hr
    · exact hd
  have hseq : seqNum = some n := by
    rw [hn, route_ackPacket hlt] at hr
    cases hr
    rfl
  rw [hseq, Option.getD_some, Session.acks, Session.acks, hi, List.append_nil,
    List.filterMap_append, List.append_assoc]
  apply List.Perm.append_left
  rw [List.filterMap_cons_some (hn ▸ ackNumber_ackPacket hlt)]
  exact List.perm_append_comm

theorem Active.enqueue (h : Active files s c file) {d : Bytes} {seqNum : Option ℕ} (stackSeq : ℕ)
    (hi : s.inbox = [d]) (hr : route d = .ack seqNum) :
    Active files
      { s with
        inbox := []
        queue := s.queue ++ [seqNum.getD stackSeq]
        handler := s.handler.map Handler.wake } c file := by
  have hsame (h : Handler) : h.wake.seqNum = h.seqNum ∧ h.wake.isWaiting = h.isWaiting := by
    unfold Handler.wake Handler.isWaiting
    split_ifs with hp
    · simp [hp]
    · exact ⟨rfl, rfl⟩
  -- the ACK moves from the inbox to the queue, and handlers only wake up
  refine h.weaken rfl ?_ (List.Sublist.refl _) (h.enqueue_acks stackSeq hi hr).subperm ?_ ?_ ?_ ?_
  · rw [hi, List.append_nil]
    exact (List.sublist_append_left _ _).subperm
  · simp only [Option.map_map, Function.comp_def, (hsame _).1]
  · simp only [Option.map_map, Function.comp_def, (hsame _).2]
  · intro h' hh'
    obtain ⟨h₀, hh₀, rfl⟩ := Option.map_eq_some_iff.mp hh'
    cases h.handler h₀ hh₀ with
    | ended hp => exact .ended (by rw [Handler.wake, if_neg (by rw [hp]; decide), hp])
    | sending hp ha =>
      rw [Handler.wake, if_neg (by rw [hp]; decide)]
      exact .sending hp ha
    | waiting phase ha he hp =>
      rename_i h₁
      unfold Handler.wake
      split_ifs with hasleep
      · exact .waiting .scanning ha he (Or.inl rfl)
      · exact .waiting phase ha he hp
  · intro _ h' hh'
    obtain ⟨h₀, -, rfl⟩ := Option.map_eq_some_iff.mp hh'
    unfold Handler.wake
    split_ifs with hp
    · rintro ⟨⟩
    · exact hp

theorem Active.wake (h : Active files s c file) :
    Active files { s with handler := s.handler.map Handler.wake } c file := by
  cases hh : s.handler with
  | none =>
    have hs : { s with handler := Option.map Handler.wake none } = s := by
      rw [Option.map_none, ← hh]
    rw [hs]
    exact h
  | some h₀ =>
    rw [Option.map_some, Handler.wake]
    -- a sleeping handler scans again; the others stay as they are
    split_ifs with hp
    · refine h.weaken rfl (List.Subperm.refl _) (List.Sublist.refl _) (List.Subperm.refl _)
        (by rw [hh]; rfl) ?_ ?_ ?_
      · rw [hh, Option.map_some, Option.map_some, Handler.isWaiting, Handler.isWaiting, hp]
        rfl
      · intro h' hh'
        rw [Option.mem_some_iff] at hh'
        subst hh'
        cases h.handler h₀ hh with
        | ended hp' =>
          rw [hp'] at hp
          cases hp
        | sending hp' ha =>
          rw [hp'] at hp
          cases hp
        | waiting phase ha he hp' => exact .waiting .scanning ha he (Or.inl rfl)
      · intro _ h' hh'
        rw [Option.mem_some_iff] at hh'
        subst hh'
        rintro ⟨⟩
    · have hs : { s with handler := some h₀ } = s := by rw [← hh]
      rw [hs]
      exact h

/-- A request in the inbox is the client's. -/
theorem Active.inbox_request (h : Active files s c file) {d : Bytes} {request : Request}
    (hi : s.inbox = [d]) (hr : route d = .request request) :
    handleRequest files request = .sending ⟨file, c.offset, c.size, 0, [], .sending⟩ ∧
      isRequest d = true ∧ ackNumber d = none := by
  have hd : d = getRequest c.filename c.offset c.size := by
    rcases h.texts d (by simp [hi]) with hd | ⟨n, hn, hd⟩
    · exact hd
    · rw [hd, route_ackPacket hn] at hr
      cases hr
  have hreq := h.valid.parsed
  rw [← hd, hr, Incoming.request.injEq] at hreq
  rw [hreq, hd]
  exact ⟨h.valid.handleRequest, h.valid.isRequest, h.valid.ackNumber⟩

theorem Active.spawn (h : Active files s c file) {d : Bytes} {request : Request} {h' : Handler}
    (hi : s.inbox = [d]) (hr : route d = .request request)
    (hs : handleRequest files request = .sending h') (hn : s.handler = none) :
    Active files { s with inbox := [], handler := some h' } c file := by
  obtain ⟨hstart, hreq, hack⟩ := h.inbox_request hi hr
  obtain rfl : _ = h' := Started.sending.inj (hstart.symm.trans hs)
  have hacks : Session.acks { s with inbox := [] } = s.acks := by
    rw [Session.acks, Session.acks, hi, List.append_nil, List.filterMap_append,
      List.filterMap_cons_none hack, List.filterMap_nil, List.append_nil]
  refine ⟨h.client, h.valid, ?_, ?_, ?_, ?_, h.receiver, h.exits, ?_⟩
  · intro e he
    rw [List.append_nil] at he
    exact h.texts e (List.mem_append_left _ he)
  · have ht : Session.transfer { s with
        inbox := []
        handler := some ⟨file, c.offset, c.size, 0, [], .sending⟩ } = s.transfer := by
      simp only [Session.transfer, hn]
      change Session.acks { s with inbox := [] } = s.acks at hacks
      simp only [Session.acks] at hacks ⊢
      rw [hacks]
      rfl
    rw [ht]
    exact h.sound
  · have hcount := h.request
    rw [hn, hi, List.countP_append, List.countP_singleton, if_pos hreq] at hcount
    simp only [Option.isSome_none, Bool.false_eq_true, ↓reduceIte] at hcount
    simp only [Option.isSome_some, ↓reduceIte, List.append_nil]
    omega
  · intro h' hh'
    rw [Option.mem_some_iff] at hh'
    subst hh'
    exact .sending rfl (Handler.at_start _ _ _)
  · intro _ h' hh'
    rw [Option.mem_some_iff] at hh'
    subst hh'
    rintro ⟨⟩

theorem Active.handler_sending (h : Active files s c file) {h' : Handler} (hh : s.handler = some h')
    (hp : h'.phase = .sending) : h'.At file c.offset c.size h'.seqNum := by
  cases h.handler h' hh with
  | ended hp' =>
    rw [hp'] at hp
    cases hp
  | sending _ ha => exact ha
  | waiting phase ha he hp' =>
    rcases hp' with rfl | rfl <;> cases hp

theorem Active.send (h : Active files s c file) {h' : Handler} (hh : s.handler = some h')
    (hp : h'.phase = .sending) (he : h'.atEnd = false) :
    Active files { s with handler := some h'.sent, toClient := s.toClient ++ [h'.packet] } c
      file := by
  have ha := h.handler_sending hh hp
  have hacked : s.transfer.acked = h'.seqNum := by
    simp only [Session.transfer, hh, Option.map_some, Option.getD_some]
  have hwait : s.transfer.waiting = false := by
    simp only [Session.transfer, hh, Option.map_some, Option.getD_some, Handler.isWaiting, hp]
    rfl
  have hlt : s.transfer.acked < packetCount (c.slice file) := by
    rw [hacked]
    refine Nat.not_le.mp fun hle => ?_
    rw [(ha.atEnd h.valid.inRange).mpr hle] at he
    cases he
  have hpacket : h'.packet = packetOf (c.slice file) s.transfer.acked := by
    rw [Handler.packet, ha.read, packetOf, hacked]
    rfl
  have hsound := sound_step h.sound (.send hwait hlt)
  refine ⟨h.client, h.valid, h.texts, ?_, ?_, ?_, h.receiver, h.exits, ?_⟩
  · have ht : Session.transfer
        { s with handler := some h'.sent, toClient := s.toClient ++ [h'.packet] } =
        { s.transfer with
          data := s.transfer.data ++ [packetOf (c.slice file) s.transfer.acked]
          waiting := true } := by
      rw [← hpacket]
      simp only [Session.transfer, hh]
      rfl
    rw [ht]
    exact hsound
  · have hcount := h.request
    rw [hh] at hcount
    exact hcount
  · intro h'' hh''
    rw [Option.mem_some_iff] at hh''
    subst hh''
    exact .waiting .scanning ha he (Or.inl rfl)
  · intro _ h'' hh''
    rw [Option.mem_some_iff] at hh''
    subst hh''
    rintro ⟨⟩

theorem Active.handlerEnds (h : Active files s c file) {h' : Handler} (socketOpen : Bool)
    (hh : s.handler = some h') (hp : h'.phase = .sending) :
    Active files { s with handler := some { h' with phase := .ended }, socketOpen := socketOpen } c
      file := by
  refine h.weaken rfl (List.Subperm.refl _) (List.Sublist.refl _) (List.Subperm.refl _)
    (by rw [hh]; rfl) ?_ ?_ ?_
  · rw [hh, Option.map_some, Option.map_some, Handler.isWaiting, Handler.isWaiting, hp]
    rfl
  · intro h'' hh''
    rw [Option.mem_some_iff] at hh''
    subst hh''
    exact .ended rfl
  · intro _ h'' hh''
    rw [Option.mem_some_iff] at hh''
    subst hh''
    rintro ⟨⟩

/-- A handler that looks for its ACK waits, and its variables are those after a send. -/
theorem Active.handler_scanning (h : Active files s c file) {h' : Handler}
    (hh : s.handler = some h') (hp : h'.phase = .scanning) :
    ∃ h₀ : Handler, h₀.At file c.offset c.size h'.seqNum ∧ h₀.atEnd = false ∧
      h' = { h₀.sent with phase := .scanning } := by
  cases h.handler h' hh with
  | ended hp' =>
    rw [hp'] at hp
    cases hp
  | sending hp' ha =>
    rw [hp'] at hp
    cases hp
  | @waiting h₀ phase ha he hp' =>
    rcases hp' with rfl | rfl
    · exact ⟨h₀, ha, he, rfl⟩
    · cases hp

theorem Active.takeAck (h : Active files s c file) {h' : Handler} (hh : s.handler = some h')
    (hp : h'.phase = .scanning) (hq : h'.seqNum ∈ s.queue) :
    Active files { s with handler := some h'.acked, queue := s.queue.erase h'.seqNum } c file := by
  obtain ⟨h₀, ha, he, heq⟩ := h.handler_scanning hh hp
  obtain ⟨hnext, hphase⟩ := ha.acked h.valid.inRange
  have hacked : h'.acked = h₀.sent.acked := by rw [heq, Handler.acked_phase]
  have hseq : s.transfer.acked = h'.seqNum := by
    simp only [Session.transfer, hh, Option.map_some, Option.getD_some]
  have hwait := (h.queue_eq hq).1
  have hnum : h'.seqNum = (protocolOf (c.slice file)).number
      ((protocolOf (c.slice file)).packet s.transfer.acked) :=
    h.sound.acks _ (List.mem_append_right _ hq)
  have hperm : ((protocolOf (c.slice file)).number
      ((protocolOf (c.slice file)).packet s.transfer.acked) ::
        Session.acks { s with queue := s.queue.erase h'.seqNum }).Perm s.transfer.acks := by
    rw [← hnum]
    refine List.Perm.trans ?_ ((List.perm_cons_erase hq).symm.append_left _)
    exact List.perm_middle.symm
  -- the ACK in the queue has the awaited number, so that taking it is a step of stop-and-wait
  have hsound := sound_step h.sound (.consume hwait hperm)
  refine ⟨h.client, h.valid, h.texts, ?_, ?_, ?_, h.receiver, h.exits, ?_⟩
  · have ht : Session.transfer
        { s with handler := some h'.acked, queue := s.queue.erase h'.seqNum } =
        { s.transfer with
          acked := s.transfer.acked+1
          waiting := false
          acks := Session.acks { s with queue := s.queue.erase h'.seqNum } } := by
      have hw : h'.acked.isWaiting = false := by
        rw [hacked, Handler.isWaiting, hphase]
        rfl
      have hn : h'.acked.seqNum = s.transfer.acked+1 := by
        rw [hacked, hnext.seqNum, hseq]
      simp only [Session.transfer, Option.map_some, Option.getD_some, hw]
      rw [hn]
      rfl
    rw [ht]
    exact hsound
  · have hcount := h.request
    rw [hh] at hcount
    exact hcount
  · intro h'' hh''
    rw [Option.mem_some_iff] at hh''
    subst hh''
    rw [hacked]
    refine .sending hphase ?_
    rw [hnext.seqNum]
    exact hnext
  · intro _ h'' hh''
    rw [Option.mem_some_iff] at hh''
    subst hh''
    rw [hacked, hphase]
    rintro ⟨⟩

theorem Active.sleep (h : Active files s c file) {h' : Handler} (hh : s.handler = some h')
    (hp : h'.phase = .scanning) (hq : h'.seqNum ∉ s.queue) :
    Active files { s with handler := some { h' with phase := .asleep } } c file := by
  obtain ⟨h₀, ha, he, heq⟩ := h.handler_scanning hh hp
  have hseq : s.transfer.acked = h'.seqNum := by
    simp only [Session.transfer, hh, Option.map_some, Option.getD_some]
  refine h.weaken rfl (List.Subperm.refl _) (List.Sublist.refl _) (List.Subperm.refl _)
    (by rw [hh]; rfl) ?_ ?_ ?_
  · rw [hh, Option.map_some, Option.map_some, Handler.isWaiting, Handler.isWaiting, hp]
    rfl
  · intro h'' hh''
    rw [Option.mem_some_iff] at hh''
    subst hh''
    rw [heq]
    exact .waiting .asleep (ha.seqNum ▸ ha) he (Or.inr rfl)
  · intro hne
    -- an entry of this session would be the ACK it just looked for
    obtain ⟨n, hn⟩ := List.exists_mem_of_ne_nil _ hne
    exact absurd (hseq ▸ (h.queue_eq hn).2 ▸ hn) hq

theorem acks_subperm {s : Session} {toServer inbox : List Bytes}
    (h : (toServer ++ inbox).Subperm (s.toServer ++ s.inbox)) :
    (Session.acks { s with toServer := toServer, inbox := inbox }).Subperm s.acks := by
  obtain ⟨l, hl, hsub⟩ := h
  refine ⟨l.filterMap ackNumber ++ s.queue, ?_, ?_⟩
  · exact (hl.filterMap _).append_right _
  · exact (hsub.filterMap _).append_right _

/-- The part of the server's memory that a step leaves to a session keeps the invariant. -/
theorem Active.relocate (h : Active files s c file) {toServer toClient inbox : List Bytes}
    (htexts : (toServer ++ inbox).Subperm (s.toServer ++ s.inbox))
    (hdata : toClient.Sublist s.toClient) :
    Active files { s with toServer := toServer, toClient := toClient, inbox := inbox } c file := by
  exact h.weaken rfl htexts hdata (acks_subperm htexts) rfl rfl h.handler h.awake

/-- The bytes of a thread that has just started. -/
theorem active_start {filename : Bytes} {offset size : ℕ} (socketOpen : Bool)
    (hv : ValidGet files filename offset size file) :
    Active files ⟨some ⟨filename, offset, size, .start size, .receiving⟩, none,
      [getRequest filename offset size], [], [], [], socketOpen⟩
      ⟨filename, offset, size, .start size, .receiving⟩ file := by
  have hsize : size < 2^63 := by
    have hin := hv.inRange
    have hfile := hv.fileSize
    omega
  have hacks : [getRequest filename offset size].filterMap ackNumber = [] :=
    List.filterMap_cons_none hv.ackNumber
  refine ⟨rfl, hv, ?_, ?_, ?_, nofun, Receiver.aligned_start hsize, ⟨nofun, nofun, nofun⟩,
    fun hne => absurd rfl hne⟩
  · intro d hd
    exact Or.inl (List.mem_singleton.mp hd)
  · have ht : Session.transfer ⟨some ⟨filename, offset, size, .start size, .receiving⟩, none,
        [getRequest filename offset size], [], [], [], socketOpen⟩ = Transfer.start := by
      simp only [Session.transfer, Session.acks, List.append_nil, hacks]
      rfl
    rw [ht]
    exact sound_start
  · rw [List.append_nil, List.countP_singleton]
    change _ ≤ 1
    split_ifs <;> decide

/-- Every step of a session keeps its invariant. -/
theorem Active.step (h : Active files s c file) (hs : SessionStep files s t) :
    ∃ c', Active files t c' file := by
  have hclient {c' : ClientThread} (hc : s.client = some c') : c' = c :=
    Option.some.inj (hc.symm.trans h.client)
  cases hs with
  | start hc => exact absurd (hc.symm.trans h.client) nofun
  | timeout hc hp =>
    cases hclient hc
    exact ⟨_, h.timeout hp⟩
  | setsockoptFails hc hp =>
    cases hclient hc
    exact ⟨_, h.ends (by rw [ClientThread.storing, hp]) (by decide) (by decide) nofun⟩
  | receive hc hp hr hd =>
    cases hclient hc
    exact ⟨_, h.receive hp hd⟩
  | sendAck hc hp =>
    cases hclient hc
    exact ⟨_, h.sendAck hp⟩
  | ackFails hc hp =>
    cases hclient hc
    exact ⟨_, h.ends (by rw [ClientThread.storing, hp]) (by decide) (by decide) nofun⟩
  | store hc hp =>
    cases hclient hc
    exact ⟨_, h.store hp⟩
  | finish hc hp hr =>
    cases hclient hc
    refine ⟨_, h.ends (by rw [ClientThread.storing, hp]) (by decide) (by decide) fun _ => ?_⟩
    have hrem := h.bytesRemaining
    omega
  | lose hs hc => exact ⟨c, h.relocate (hs.append_right _).subperm hc⟩
  | serverReceive hi hd =>
    refine ⟨c, h.relocate ?_ (List.Sublist.refl _)⟩
    rw [hi, List.append_nil]
    exact (List.perm_append_comm.trans (List.perm_cons_erase hd).symm).subperm
  | enqueue stackSeq hi hr => exact ⟨c, h.enqueue stackSeq hi hr⟩
  | discard =>
    refine ⟨c, h.relocate ?_ (List.Sublist.refl _)⟩
    rw [List.append_nil]
    exact (List.sublist_append_left _ _).subperm
  | reply hi hr ht =>
    -- the one request of an active session is a valid `GET`
    have hstart := (h.inbox_request hi hr).1
    rw [ht] at hstart
    cases hstart
  | spawn hi hr hs hn => exact ⟨c, h.spawn hi hr hs hn⟩
  | handlerEnds hh hp => exact ⟨c, h.handlerEnds _ hh hp⟩
  | close =>
    exact ⟨c, h.weaken rfl (List.Subperm.refl _) (List.Sublist.refl _) (List.Subperm.refl _) rfl rfl
      h.handler h.awake⟩
  | send hh hp he => exact ⟨c, h.send hh hp he⟩
  | takeAck hh hp hq => exact ⟨c, h.takeAck hh hp hq⟩
  | sleep hh hp hq => exact ⟨c, h.sleep hh hp hq⟩
  | wake => exact ⟨c, h.wake⟩

/-- An address from which nothing was sent can only start. -/
theorem untouched_step {socketOpen : Bool} (hs : SessionStep files (.untouched socketOpen) t) :
    SessionOk files t := by
  cases hs with
  | start hc hv => exact Or.inr ⟨_, _, active_start _ hv⟩
  | close => exact Or.inl rfl
  | lose hs hc =>
    rw [Session.untouched, List.sublist_nil] at hs hc
    rw [hs, hc]
    exact Or.inl rfl
  | serverReceive hi hd => cases hd
  | enqueue stackSeq hi => cases hi
  | discard => exact Or.inl rfl
  | reply hi => cases hi
  | spawn hi => cases hi
  | wake => exact Or.inl rfl
  | timeout hc | setsockoptFails hc | receive hc | sendAck hc | ackFails hc | store hc
  | finish hc => cases hc
  | handlerEnds hh | send hh | takeAck hh | sleep hh => cases hh

theorem sessionOk_move (h : SessionOk files s) (hm : SessionMove files s t) : SessionOk files t := by
  rcases hm with rfl | hs
  · exact h
  · rcases h with h | ⟨c, file, h⟩
    · rw [h] at hs
      exact untouched_step hs
    · obtain ⟨c', h'⟩ := h.step hs
      exact Or.inr ⟨c', file, h'⟩

end Preservation

/-- In every reachable state every session meets its invariant. -/
theorem sessionOk_of_reachable {files : Bytes → Option Bytes} {C : Net → Action → Prop} {s : Net}
    (h : Reachable (Net.step files) C .start s) (a : ℕ) : SessionOk files (s.session a) := by
  revert a
  apply h.invariant
  · intro a
    exact Or.inl rfl
  · intro s act t hs _ hstep a
    exact sessionOk_move (hs a) (step_session hstep a)

theorem active_of_reachable {files : Bytes → Option Bytes} {C : Net → Action → Prop} {s : Net}
    (h : Reachable (Net.step files) C .start s) {a : ℕ} {c : ClientThread}
    (hc : s.clients a = some c) : ∃ file, Active files (s.session a) c file := by
  rcases sessionOk_of_reachable h a with hu | ⟨c', file, hact⟩
  · have hnone : s.clients a = none := congrArg Session.client hu
    rw [hnone] at hc
    cases hc
  · have heq : c' = c := Option.some.inj (hact.client.symm.trans hc)
    exact ⟨file, heq ▸ hact⟩

/-- For any number of sessions and under every schedule: what a client has written are the
payloads of the first packets of its slice, at most one data packet is in flight to it,
its two overrun exits are not taken, and a chunk without remaining bytes is the slice. -/
theorem transfers_are_safe (files : Bytes → Option Bytes) (s : Net)
    (h : Reachable (Net.step files) anyStep .start s) (a : ℕ) (c : ClientThread)
    (hc : s.clients a = some c) :
    ∃ file, files c.filename = some file ∧
      (∃ k, c.receiver.copied = (List.range k).map (payloadAt (c.slice file)) ∧
        c.receiver.written = (c.slice file).take (payloadSize*k)) ∧
      (s.toClient a).length ≤ 1 ∧
      c.phase ≠ .ended .moreThanExpected ∧ c.phase ≠ .ended .beyondBuffer ∧
      (c.receiver.bytesRemaining = 0 → c.receiver.written = c.slice file) ∧
      (c.phase = .ended .success → c.receiver.written = c.slice file) := by
  obtain ⟨file, hact⟩ := active_of_reachable h hc
  refine ⟨file, hact.valid.found, ⟨c.receiver.copied.length, ?_, hact.written⟩, ?_, hact.exits.1,
    hact.exits.2.1, hact.complete, fun hp => hact.complete (hact.exits.2.2 hp)⟩
  · have hstored := hact.sound.stored
    have hcopied : (s.session a).transfer.stored = c.receiver.copied := by
      simp only [Session.transfer, hact.client, Option.map_some, Option.getD_some]
    rw [hcopied] at hstored
    simpa only [protocolOf, payloadOf, packetOf, dataPacket_drop] using hstored
  · have hone := hact.sound.one
    unfold Transfer.underWay at hone
    change (s.toClient a).length+_+_ ≤ 1 at hone
    omega

/-- The file `f` with the six bytes `abcdef`. -/
def sixBytes (filename : Bytes) : Option Bytes :=
  if filename = ascii "f" then some (ascii "abcdef") else none

/-- A session at address `a` for the three bytes from `offset` on, up to its data packet. -/
def openSession (a offset : ℕ) : List Action :=
  [.start a (ascii "f") offset 3, .serverReceive a (getRequest (ascii "f") offset 3), .route 0,
    .send a, .scan a]

/-- Two sessions at a time; the ACK of the first one is lost after its client is done. -/
theorem transfers_are_safe_two :
    ∃ s c, Reachable (Net.step sixBytes) anyStep .start s ∧ s.clients 0 = some c ∧
      c.phase = .ended .success ∧ c.receiver.copied = [ascii "abc"] ∧
      ∃ file, sixBytes c.filename = some file ∧ c.receiver.written = c.slice file := by
  have hrun : ∃ s, Reachable (Net.step sixBytes) anyStep .start s ∧ ∃ c ∈ s.clients 0,
      c.phase = .ended .success ∧ c.receiver.copied = [ascii "abc"] := by
    refine exists_reachable_of_replayIf (openSession 0 0 ++ openSession 1 3 ++
      [.receive 0 (dataPacket 0 (ascii "abc")), .sendAck 0, .loseToServer 0 (ackPacket 0),
        .store 0, .finish 0]) _ ?_
    decide
  obtain ⟨s, hs, c, hc, hp, hcopied⟩ := hrun
  obtain ⟨file, hfile, -, -, -, -, -, hsuccess⟩ := transfers_are_safe sixBytes s hs 0 c hc
  exact ⟨s, c, hs, hc, hp, hcopied, file, hfile, hsuccess hp⟩

end NetTools.TFTP
