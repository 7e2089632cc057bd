import NetTools.IRCClient
import NetTools.Schedule

/-! One `irc/client.c` process with its sockets and threads: `global_peer_info`, the
listener, the threads in `accept` and those of `receive_peer_messages`. A step is one turn of
a loop of a thread, or the handler of `SIGINT`. -/
namespace NetTools.IRC

open CText Schedule

/-- `PeerInfo`; the socket is `none` for -1. -/
structure PeerInfo where
  id : Bytes
  socket : Option ℕ
  mode : Mode
  deriving DecidableEq

/-- A running `receive_peer_messages`: its number, and the socket that it is in `recv` on. -/
structure Receiver where
  thread : ℕ
  socket : ℕ
  deriving DecidableEq

/-- `waitThreads` are the listeners that threads are in `accept` on, `serverThread` is the
thread that `receive_server_messages` joins, `created` counts the receive threads, and
`unanswered` counts the `/connect` commands that the server has not answered yet. -/
structure ChatProcess where
  status : ProcessStatus
  peer : PeerInfo
  listener : Option ℕ
  openSockets : List ℕ
  waitThreads : List ℕ
  receivers : List Receiver
  created : ℕ
  serverThread : Option ℕ
  unanswered : ℕ

/-- What happens, with what the calls return: the listener of a `/wait` and whether `bind` and
`listen` succeed; a message of the server, whether it answers a `/connect`, and the socket of
`handle_connect` with whether it connects; an accepted socket with the id that its peer sends;
a result of `recv` on a peer socket, `none` for its -1. -/
inductive ChatEvent
  | typeLine (line : Bytes) (listener : Option ℕ) (opened : Bool)
  | sigint
  | recvServer (data : Bytes) (answers : Bool) (socket : Option ℕ) (connected : Bool)
  | accept (i socket : ℕ) (peerId : Bytes)
  | acceptFails (i : ℕ)
  | recvPeer (i : ℕ) (data : Option Bytes)

namespace ChatProcess

def start : ChatProcess := ⟨.running, ⟨[], none, .info⟩, none, [], [], [], 0, none, 0⟩

def ended (c : ChatProcess) (status : ProcessStatus) : ChatProcess := { c with status := status }

/-- `close`, also of a -1. -/
def close (c : ChatProcess) (socket : Option ℕ) : ChatProcess :=
  { c with openSockets := c.openSockets.filter fun k => some k ≠ socket }

/-- A call that returns a descriptor, or -1. -/
def opens (c : ChatProcess) (socket : Option ℕ) : ChatProcess :=
  { c with openSockets := socket.toList ++ c.openSockets }

/-- The kernel does not give out a number that is in use. -/
def Fresh (c : ChatProcess) (socket : Option ℕ) : Prop := ∀ k ∈ socket, k ∉ c.openSockets

instance (c : ChatProcess) (socket : Option ℕ) : Decidable (c.Fresh socket) :=
  inferInstanceAs (Decidable (∀ k ∈ socket, k ∉ c.openSockets))

/-- `/wait` in INFO mode. Without a listener `main` goes on with the mode set. -/
def startWait (c : ChatProcess) (listener : Option ℕ) (opened : Bool) : ChatProcess :=
  { c.opens listener with
    peer := { c.peer with mode := .wait }
    listener := listener
    waitThreads := if opened then c.waitThreads ++ listener.toList else c.waitThreads }

/-- One line in the loop of `main`; what is sent to the peer does not show here. -/
def typeLine (c : ChatProcess) (line : Bytes) (listener : Option ℕ) (opened : Bool) : ChatProcess :=
  if line = [] then c
  else if startsWith line (ascii "/quit") then c.ended (.exited exitSuccess)
  else if c.peer.mode = .chat then c
  else if startsWith line (ascii "/wait") then
    if c.peer.mode = .wait then c else c.startWait listener opened
  else if startsWith line (ascii "/connect") then
    if c.peer.mode = .wait then c else { c with unanswered := c.unanswered+1 }
  else c

/-- `handle_sigint`; in CHAT mode it only sends `LEAVE`. -/
def sigint (c : ChatProcess) : ChatProcess :=
  match c.peer.mode with
  | .info | .chat => c
  | .wait => { c.close c.listener with listener := none, peer := { c.peer with mode := .info } }

/-- The three stores to `global_peer_info` and the new receive thread, the same in
`handle_connect` and `wait_for_connection`. -/
def install (c : ChatProcess) (socket : ℕ) (peerId : Bytes) : ChatProcess :=
  { c.opens (some socket) with
    peer := ⟨peerId, some socket, .chat⟩
    receivers := c.receivers ++ [⟨c.created, socket⟩]
    created := c.created+1 }

/-- `handle_connect`. After a failure it closes the socket of `global_peer_info`, not its own. -/
def handleConnect (c : ChatProcess) (peerId : Bytes) (socket : Option ℕ) (connected : Bool) :
    ChatProcess :=
  match socket, connected with
  | some socket, true => { c.install socket peerId with serverThread := some c.created }
  | _, _ => { (c.opens socket).close c.peer.socket with peer := { c.peer with socket := none } }

/-- The answer to a `/connect` is counted when there is one to answer. -/
def answered (c : ChatProcess) (answers : Bool) : ChatProcess :=
  { c with unanswered := c.unanswered-(if answers then 1 else 0) }

/-- One turn of `receive_server_messages`. It calls `handle_connect` for every `CONNECT`, also for
one that no line of `main` asked for. A full buffer has no room for the NUL behind it. -/
def recvServer (c : ChatProcess) (data : Bytes) (answers : Bool) (socket : Option ℕ)
    (connected : Bool) : Option ChatProcess :=
  if data = [] then some (c.ended (.exited exitSuccess))
  else if data.length ≥ bufferSize then some (c.ended .undefined)
  else if answers = true ∧ c.unanswered = 0 then none
  else match serverMessage data with
    | none => some (c.ended .undefined)
    | some (.connect peerId _) =>
      some ((c.answered answers).handleConnect peerId socket connected)
    | some .idTaken => some (c.ended (.exited exitSuccess))
    | some .other => some (c.answered answers)

/-- The end of a wait thread's `accept`. -/
def waitEnds (c : ChatProcess) (i : ℕ) : ChatProcess :=
  { c with waitThreads := c.waitThreads.eraseIdx i }

/-- `wait_for_connection` after `accept`; an id of 32 bytes has no NUL for `strlen`. -/
def accept (c : ChatProcess) (i socket : ℕ) (peerId : Bytes) : ChatProcess :=
  let peerId := peerId.takeWhile fun b => b ≠ 0
  if peerId = [] then c.waitEnds i
  else if peerId.length < idSize then (c.waitEnds i).install socket peerId
  else c.ended .undefined

/-- `pthread_exit` of a receive thread; the thread that joins it goes on. -/
def receiverEnds (c : ChatProcess) (i : ℕ) (r : Receiver) : ChatProcess :=
  { c with
    receivers := c.receivers.eraseIdx i
    serverThread := if c.serverThread = some r.thread then none else c.serverThread }

/-- One turn of `receive_peer_messages`, with the test at the head of the next turn. -/
def recvPeer (c : ChatProcess) (i : ℕ) (r : Receiver) (data : Option Bytes) : ChatProcess :=
  if data.all fun data => data = [] ∨ startsWith data (ascii "LEAVE") = true then
    { (c.receiverEnds i r).close c.peer.socket with
      peer := { c.peer with socket := none, mode := .info } }
  else
    match c.peer.socket with
    | none => c.receiverEnds i r
    | some k => { c with receivers := c.receivers.set i { r with socket := k } }

/-- One step; `none` when it is not possible. -/
def step (c : ChatProcess) (e : ChatEvent) : Option ChatProcess :=
  if c.status = .running then
    match e with
    | .typeLine line listener opened =>
      if c.Fresh listener ∧ (opened = true → listener ≠ none) then
        some (c.typeLine line listener opened)
      else none
    | .sigint => some c.sigint
    | .recvServer data answers socket connected =>
      if c.serverThread = none ∧ c.Fresh socket ∧ data.length ≤ bufferSize then
        c.recvServer data answers socket connected
      else none
    | .accept i socket peerId =>
      if i < c.waitThreads.length ∧ c.Fresh (some socket) ∧ peerId.length ≤ idSize then
        some (c.accept i socket peerId)
      else none
    | .acceptFails i => if i < c.waitThreads.length then some (c.waitEnds i) else none
    | .recvPeer i data => (c.receivers[i]?).map fun r => c.recvPeer i r data
  else none

end ChatProcess

/-- A message of the server that names a peer. -/
def namesPeer (data : Bytes) : Bool :=
  match serverMessage data with
  | some (.connect _ _) => true
  | _ => false

end NetTools.IRC
