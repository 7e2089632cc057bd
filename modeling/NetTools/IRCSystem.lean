import NetTools.IRCClient
import NetTools.Schedule

/-! One server and any number of client processes. A connection carries bytes; its two
lists hold what was sent and not received yet, one entry for each `send`. -/
namespace NetTools.IRC

open CText Schedule

structure System where
  server : Server
  processes : ℕ → Option ClientProcess
  toServer : ℕ → List Bytes
  toClient : ℕ → List Bytes
  started : List ℕ

/-- `start` is a process that connects and sends its id; `connect x y` is the `connect` of
`x` that reaches a listener of `y`; `leave` is the end of a conversation, of the thread
that reads from the server or of a wait thread. -/
inductive Event
  | server (a : Action)
  | start (x : ℕ) (id : Bytes)
  | typeLine (x : ℕ) (line : Bytes)
  | sigint (x : ℕ)
  | bindFails (x : ℕ)
  | announce (x port : ℕ)
  | recvServer (x : ℕ) (data : Bytes)
  | connect (x y : ℕ)
  | connectFails (x : ℕ)
  | acceptPeer (x : ℕ)
  | acceptFails (x : ℕ)
  | leave (x : ℕ) (own : Bool)

/-- What is left of a stream of sends when `recv` returns `data` from it. -/
def takeFrom : List Bytes → Bytes → Option (List Bytes)
  | sends, [] => some sends
  | [], _ :: _ => none
  | m :: sends, b :: data =>
    if m.isPrefixOf (b :: data) then takeFrom sends ((b :: data).drop m.length)
    else if (b :: data).isPrefixOf m then some (m.drop (data.length+1) :: sends)
    else none

namespace System

def start : System := ⟨.start, fun _ => none, fun _ => [], fun _ => [], []⟩

def setProcess (s : System) (x : ℕ) (c : Option ClientProcess) : System :=
  { s with processes := Function.update s.processes x c }

def modify (s : System) (x : ℕ) (f : ClientProcess → ClientProcess) : System :=
  s.setProcess x ((s.processes x).map f)

def setToClient (s : System) (x : ℕ) (l : List Bytes) : System :=
  { s with toClient := Function.update s.toClient x l }

def send (s : System) (x : ℕ) (l : List Bytes) : System :=
  { s with toServer := Function.update s.toServer x (s.toServer x ++ l) }

/-- A process starts: it connects and sends its id. -/
def join (s : System) (x : ℕ) (id : Bytes) : System :=
  ({ s with started := x :: s.started }.setProcess x (some (.start id))).send x
    (if id = [] then [] else [id])

/-- `recv` of a handler: no data is the end of the stream, which a process that has
exited leaves, or an error. -/
def received (s : System) (x : ℕ) (data : Bytes) : Option (List Bytes) :=
  if data = [] then if s.processes x = none then some [] else none
  else takeFrom (s.toServer x) data

/-- The streams to the server after a step of the server. -/
def streams (s : System) : Action → Option (ℕ → List Bytes)
  | .recvId x data | .recvCommand x data | .recvPort x data =>
    (s.received x data).map (Function.update s.toServer x)
  | .accept x _ => if x ∈ s.started then some s.toServer else none
  | _ => some s.toServer

/-- What a step of the server from `s` to `t` sends to client `x`. -/
def news (s t : Server) (x : ℕ) : List Bytes :=
  ((sentTo t x).drop (sentTo s x).length).map Reply.text

/-- The server goes on to `t`. -/
def serves (s : System) (t : Server) (toServer : ℕ → List Bytes) : System :=
  { s with
    server := t
    toServer := toServer
    toClient := fun x => s.toClient x ++ news s.server t x }

/-- The handler of `x` does not send any more. -/
def serverClosed (s : System) (x : ℕ) : Bool :=
  match s.server.sessions x with
  | some ses => ses.phase = .leaving || ses.phase = .ended
  | none => false

def recvServer (s : System) (x : ℕ) (c : ClientProcess) (data : Bytes) : Option System :=
  if data = [] then
    if s.toClient x = [] ∧ s.serverClosed x = true then some (s.setProcess x none) else none
  else (takeFrom (s.toClient x) data).bind fun rest =>
    (serverMessage data).map fun message =>
      match message with
      | .connect peerId peerPort =>
        (s.setToClient x rest).setProcess x (some { c with serverThread := .connecting peerId peerPort })
      | .idTaken => (s.setToClient x rest).setProcess x none
      | .other => s.setToClient x rest

/-- One step of the system; `none` when it is not possible or not defined. -/
def step (s : System) : Event → Option System
  | .server a => (s.streams a).bind fun toServer => (s.server.step a).map fun t => s.serves t toServer
  | .start x id =>
    if x ∉ s.started ∧ id.length < idSize then some (s.join x id) else none
  | .typeLine x line => (s.processes x).bind fun c =>
    if c.opening = false ∧ IsLine line then
      some ((s.setProcess x (c.typeLine line).1).send x (c.typeLine line).2)
    else none
  | .sigint x => (s.processes x).map fun c =>
    (s.setProcess x (some c.sigint.1)).send x c.sigint.2
  | .bindFails x => (s.processes x).bind fun c =>
    if c.opening = true then some (s.setProcess x (some c.bindFails)) else none
  | .announce x port => (s.processes x).bind fun c =>
    if c.opening = true ∧ port < 2^16 ∧ (c.mode = .wait → 0 < port) then
      some ((s.setProcess x (some (c.announce port).1)).send x (c.announce port).2)
    else none
  | .recvServer x data => (s.processes x).bind fun c =>
    if c.serverThread = .receiving ∧ data.length ≤ bufferSize then s.recvServer x c data else none
  | .connect x y => (s.processes x).bind fun c => (s.processes y).bind fun d =>
    match c.serverThread with
    | .connecting _ peerPort =>
      if ∃ p ∈ d.listening, (p : Int) = peerPort then
        some ((s.setProcess y (some { d with backlog := d.backlog ++ [c.id] })).modify x
          ClientProcess.connected)
      else none
    | _ => none
  | .connectFails x => (s.processes x).bind fun c =>
    match c.serverThread with
    | .connecting _ _ => some (s.setProcess x (some c.connectFailed))
    | _ => none
  | .acceptPeer x => (s.processes x).bind fun c =>
    match c.backlog with
    | peerId :: rest =>
      if 0 < c.waitThreads then
        some (s.setProcess x (some ({ c with backlog := rest }.accepted peerId)))
      else none
    | [] => none
  | .acceptFails x => (s.processes x).bind fun c =>
    if 0 < c.waitThreads then
      some (s.setProcess x (some { c with waitThreads := c.waitThreads-1 }))
    else none
  | .leave x own => (s.processes x).bind fun c =>
    if own then
      if c.serverThread = .joining then
        some (s.setProcess x (some { c with mode := .info, serverThread := .receiving }))
      else none
    else if 0 < c.waitTalks then
      some (s.setProcess x (some { c with mode := .info, waitTalks := c.waitTalks-1 }))
    else none

/-- No message is in flight, no handler is in the middle of a command, and no client is
between `/wait` and its port, about to connect or about to accept. -/
def Quiescent (s : System) : Prop :=
  ∀ x ∈ s.started, s.toServer x = [] ∧ s.toClient x = [] ∧
    (∀ ses ∈ s.server.sessions x, ses.phase = .reading ∨ ses.phase = .ended) ∧
    ∀ c ∈ s.processes x, c.opening = false ∧ c.backlog = [] ∧
      (c.serverThread = .receiving ∨ c.serverThread = .joining)

instance (s : System) : Decidable s.Quiescent :=
  inferInstanceAs (Decidable (∀ x ∈ s.started, s.toServer x = [] ∧ s.toClient x = [] ∧
    (∀ ses ∈ s.server.sessions x, ses.phase = .reading ∨ ses.phase = .ended) ∧
    ∀ c ∈ s.processes x, c.opening = false ∧ c.backlog = [] ∧
      (c.serverThread = .receiving ∨ c.serverThread = .joining)))

end System

end NetTools.IRC
