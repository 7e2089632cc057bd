import NetTools.TFTPReceiver
import NetTools.TFTPServer
import NetTools.Schedule

/-! One `tftp/server.c` and any number of `download_chunk` threads, each with a socket and
so an address of its own. The network loses, delays and reorders datagrams; it neither
repeats nor invents them. -/
namespace NetTools.TFTP

open CText Schedule

/-- What a request thread does first. -/
inductive Started
  | replied (text : Bytes)
  | sending (h : Handler)
  | done
  | serverExit
  | uninitialised

/-- `handle_request` up to the `GET` loop. -/
def handleRequest (files : Bytes → Option Bytes) (request : Request) : Started :=
  if request.command = ascii "CHECK" then
    match files request.filename with
    | some file => .replied (ascii "OK " ++ decimal file.length)
    | none => .replied (ascii "ERROR File not found")
  else if request.command = ascii "GET" then
    match files request.filename with
    | some file =>
      match request.offset, request.chunkSize with
      | some offset, some chunkSize =>
        match Handler.start file offset chunkSize with
        | some h => .sending h
        | none => .serverExit
      | _, _ => .uninitialised
    | none => .replied (ascii "ERROR File not found")
  else .done

/-- Where a `download_chunk` thread is in its loop. -/
inductive ClientPhase
  | receiving
  | acking (datagram : Bytes)
  | storing (datagram : Bytes)
  | ended (e : Exit)
  deriving DecidableEq

structure ClientThread where
  filename : Bytes
  offset : ℕ
  size : ℕ
  receiver : Receiver
  phase : ClientPhase

/-- The whole system. The lists hold the datagrams in flight from and to each address;
`inbox` is the datagram that the receive loop has received and not routed yet. -/
structure Net where
  socketOpen : Bool
  ackQueue : List AckPacket
  inbox : Option (ℕ × Bytes)
  handlers : ℕ → Option Handler
  clients : ℕ → Option ClientThread
  toServer : ℕ → List Bytes
  toClient : ℕ → List Bytes

namespace Net

def start : Net := ⟨true, [], none, fun _ => none, fun _ => none, fun _ => [], fun _ => []⟩

def putClient (s : Net) (a : ℕ) (c : ClientThread) : Net :=
  { s with clients := Function.update s.clients a (some c) }

def putHandler (s : Net) (a : ℕ) (h : Handler) : Net :=
  { s with handlers := Function.update s.handlers a (some h) }

def setToServer (s : Net) (a : ℕ) (l : List Bytes) : Net :=
  { s with toServer := Function.update s.toServer a l }

def setToClient (s : Net) (a : ℕ) (l : List Bytes) : Net :=
  { s with toClient := Function.update s.toClient a l }

end Net

def ClientThread.at (c : ClientThread) (phase : ClientPhase) : ClientThread :=
  { c with phase := phase }

/-- The loop variables after a turn that went on, or the end of the thread. -/
def ClientThread.after (c : ClientThread) (result : Except Exit Receiver) : ClientThread :=
  match result with
  | .ok d => { c with receiver := d, phase := .receiving }
  | .error e => { c with phase := .ended e }

/-- `start` is a thread that sends its request; `route` carries what the uninitialised
`seq_num` holds when an ACK has no number. -/
inductive Action
  | start (a : ℕ) (filename : Bytes) (offset size : ℕ)
  | timeout (a : ℕ)
  | setsockoptFails (a : ℕ)
  | receive (a : ℕ) (datagram : Bytes)
  | sendAck (a : ℕ)
  | ackFails (a : ℕ)
  | store (a : ℕ)
  | finish (a : ℕ)
  | loseToServer (a : ℕ) (datagram : Bytes)
  | loseToClient (a : ℕ) (datagram : Bytes)
  | serverReceive (a : ℕ) (datagram : Bytes)
  | route (stackSeq : ℕ)
  | threadFails
  | send (a : ℕ)
  | sendFails (a : ℕ)
  | scan (a : ℕ)
  | wake (a : ℕ)

/-- A request that the server parses as it was sent, for a range of an existing file. -/
structure ValidGet (files : Bytes → Option Bytes) (filename : Bytes) (offset size : ℕ)
    (file : Bytes) : Prop where
  found : files filename = some file
  parsed : route (getRequest filename offset size) =
    .request ⟨ascii "GET", filename, some offset, some size⟩
  nonempty : 0 < size
  inRange : offset+size ≤ file.length
  fileSize : file.length < 2^63

instance (files : Bytes → Option Bytes) (filename : Bytes) (offset size : ℕ) (file : Bytes) :
    Decidable (ValidGet files filename offset size file) :=
  decidable_of_iff (files filename = some file ∧ route (getRequest filename offset size) =
      .request ⟨ascii "GET", filename, some offset, some size⟩ ∧ 0 < size ∧
      offset+size ≤ file.length ∧ file.length < 2^63)
    ⟨fun ⟨h, hp, hn, hr, hs⟩ => ⟨h, hp, hn, hr, hs⟩, fun ⟨h, hp, hn, hr, hs⟩ => ⟨h, hp, hn, hr, hs⟩⟩

namespace Net

/-- The receive loop on the datagram in its inbox. -/
def routeStep (files : Bytes → Option Bytes) (s : Net) (a : ℕ) (datagram : Bytes)
    (stackSeq : ℕ) : Option Net :=
  match TFTP.route datagram with
  | .ack seqNum =>
    let queue := enqueueAck s.ackQueue ⟨seqNum.getD stackSeq, a⟩
    -- the broadcast comes with the entry: a full queue wakes nobody
    let handlers := if s.ackQueue.length < maxQueueSize then
      fun b => (s.handlers b).map Handler.wake else s.handlers
    some { s with inbox := none, ackQueue := queue, handlers := handlers }
  | .malformed => some { s with inbox := none }
  | .request request =>
    match handleRequest files request with
    | .replied text => some ({ s with inbox := none }.setToClient a (s.toClient a ++ [text]))
    | .sending h => if s.handlers a = none then some ({ s with inbox := none }.putHandler a h) else none
    | .done => some { s with inbox := none }
    | .serverExit | .uninitialised => none

/-- One step of the system; `none` when it is not possible. -/
def step (files : Bytes → Option Bytes) (s : Net) : Action → Option Net
  | .start a filename offset size => (files filename).bind fun file =>
    if s.clients a = none ∧ ValidGet files filename offset size file then
      some ((s.putClient a ⟨filename, offset, size, .start size, .receiving⟩).setToServer a
        (s.toServer a ++ [getRequest filename offset size]))
    else none
  | .timeout a => (s.clients a).bind fun c =>
    if c.phase = .receiving ∧ 0 < c.receiver.bytesRemaining then
      some (s.putClient a (c.after c.receiver.onTimeout))
    else none
  | .setsockoptFails a => (s.clients a).bind fun c =>
    if c.phase = .receiving ∧ 0 < c.receiver.bytesRemaining then
      some (s.putClient a (c.at (.ended .setsockoptFailed)))
    else none
  | .receive a datagram => (s.clients a).bind fun c =>
    if c.phase = .receiving ∧ 0 < c.receiver.bytesRemaining ∧ datagram ∈ s.toClient a ∧
        datagram ≠ [] then
      some ((s.putClient a (c.at (.acking datagram))).setToClient a
        ((s.toClient a).erase datagram))
    else none
  | .sendAck a => (s.clients a).bind fun c =>
    match c.phase with
    | .acking datagram =>
      some ((s.putClient a (c.at (.storing datagram))).setToServer a
        (s.toServer a ++ [ackPacket (seqNumOf datagram)]))
    | _ => none
  | .ackFails a => (s.clients a).bind fun c =>
    match c.phase with
    | .acking _ => some (s.putClient a (c.at (.ended .ackFailed)))
    | _ => none
  | .store a => (s.clients a).bind fun c =>
    match c.phase with
    | .storing datagram => some (s.putClient a (c.after (c.receiver.storePayload c.size datagram)))
    | _ => none
  | .finish a => (s.clients a).bind fun c =>
    if c.phase = .receiving ∧ ¬ 0 < c.receiver.bytesRemaining then
      some (s.putClient a (c.at (.ended .success)))
    else none
  | .loseToServer a datagram =>
    if datagram ∈ s.toServer a then some (s.setToServer a ((s.toServer a).erase datagram)) else none
  | .loseToClient a datagram =>
    if datagram ∈ s.toClient a then some (s.setToClient a ((s.toClient a).erase datagram)) else none
  | .serverReceive a datagram =>
    if s.socketOpen = true ∧ s.inbox = none ∧ datagram ∈ s.toServer a then
      some ({ s with inbox := some (a, datagram) }.setToServer a ((s.toServer a).erase datagram))
    else none
  | .route stackSeq => s.inbox.bind fun p => s.routeStep files p.1 p.2 stackSeq
  | .threadFails => s.inbox.bind fun p =>
    match TFTP.route p.2 with
    | .request _ => some { s with inbox := none }
    | _ => none
  | .send a => (s.handlers a).bind fun h =>
    if h.phase = .sending then
      if h.atEnd then some (s.putHandler a { h with phase := .ended })
      else if s.socketOpen then
        some ((s.putHandler a h.sent).setToClient a (s.toClient a ++ [h.packet]))
      else none
    else none
  | .sendFails a => (s.handlers a).bind fun h =>
    if h.phase = .sending ∧ h.atEnd = false then
      some ({ s with socketOpen := false }.putHandler a { h with phase := .ended })
    else none
  | .scan a => (s.handlers a).bind fun h =>
    if h.phase = .scanning then
      match takeAck s.ackQueue ⟨h.seqNum, a⟩ with
      | some queue => some ({ s with ackQueue := queue }.putHandler a h.acked)
      | none => some (s.putHandler a { h with phase := .asleep })
    else none
  | .wake a => (s.handlers a).bind fun h =>
    if h.phase = .asleep then some (s.putHandler a { h with phase := .scanning }) else none

end Net

end NetTools.TFTP
