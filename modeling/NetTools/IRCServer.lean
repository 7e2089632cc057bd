import NetTools.CText
import NetTools.CArray
import NetTools.Schedule

/-! The shared state of `irc/server.c` and the handler thread it runs for every
client. One step of the model is one critical section, one `recv` or one `accept`. -/
namespace NetTools.IRC

open CText CArray

def maxClients : ℕ := 100

def maxWaiting : ℕ := 100

def bufferSize : ℕ := 1024

/-- `sizeof(client_id)`. -/
def idSize : ℕ := 32

structure Client where
  id : Bytes
  socket : ℕ
  port : Int
  inChat : Char

/-- The arrays and counters that `client_mutex` protects. -/
structure Registry where
  clients : ℕ → Client
  clientCount : ℕ
  waitingClients : ℕ → Bytes
  waitingCount : Int

namespace Registry

/-- The zero-initialised globals. -/
def empty : Registry := ⟨fun _ => ⟨[], 0, 0, '\x00'⟩, 0, fun _ => [], 0⟩

/-- The ids in `waiting_clients[0..waiting_count)`. -/
def waiting (r : Registry) : List Bytes := slots r.waitingClients r.waitingCount.toNat

def idTaken (r : Registry) (clientId : Bytes) : Bool :=
  (search (fun c => c.id == clientId) r.clients r.clientCount).isSome

/-- Append to `clients`; `none` is a write past the end of the array. -/
def addClient (r : Registry) (clientId : Bytes) (clientSocket : ℕ) : Option Registry :=
  if r.clientCount < maxClients then
    some { r with
      clients := Function.update r.clients r.clientCount ⟨clientId, clientSocket, -1, 'n'⟩
      clientCount := r.clientCount+1 }
  else none

/-- The removal on disconnect: the first entry with this socket number is
overwritten by the last entry. -/
def removeClient (r : Registry) (clientSocket : ℕ) : Registry :=
  match search (fun c => c.socket == clientSocket) r.clients r.clientCount with
  | some i => { r with
      clients := Function.update r.clients i (r.clients (r.clientCount-1))
      clientCount := r.clientCount-1 }
  | none => r

def waitingIndex (r : Registry) (id : Bytes) : Option ℕ :=
  search (fun w => w == id) r.waitingClients r.waitingCount.toNat

/-- The writes of `/wait`, all three at index `waiting_count`; `none` is a write
outside one of the arrays. -/
def addWaiting (r : Registry) (clientId : Bytes) (listeningPort : Int) : Option Registry :=
  if 0 ≤ r.waitingCount ∧ r.waitingCount < maxWaiting then
    let n := r.waitingCount.toNat
    some { r with
      waitingClients := Function.update r.waitingClients n clientId
      clients := Function.update r.clients n
        { r.clients n with port := listeningPort, inChat := 'y' }
      waitingCount := r.waitingCount+1 }
  else none

/-- `for (i = target_index; i < waiting_count-1; i++)` with its `strcpy`, then
`waiting_count--`; `none` is a write before the start of the array. -/
def removeWaiting (r : Registry) (targetIndex : Int) : Option Registry :=
  if targetIndex < r.waitingCount-1 then
    if 0 ≤ targetIndex then
      some { r with
        waitingClients := shiftDown r.waitingClients targetIndex.toNat
          (r.waitingCount-1-targetIndex).toNat
        waitingCount := r.waitingCount-1 }
    else none
  else some { r with waitingCount := r.waitingCount-1 }

end Registry

/-- What the server sends to a client. -/
inductive Reply
  | idTaken
  | connected (id : Bytes)
  | noneWaiting
  | waitingList (ids : List Bytes)
  | waiting
  | invalidPort
  | alreadyWaiting
  | notWaiting
  | connect (targetId : Bytes) (targetPort : Int)
  | stoppedWaiting
  | badPrompt
  deriving DecidableEq

/-- The bytes of a reply. Several literals are sent with their final NUL byte. -/
def Reply.text : Reply → Bytes
  | idTaken => ascii "Client ID is already taken.\n" ++ [0]
  | connected id => ascii "Client " ++ id ++ ascii " connected.\n"
  | noneWaiting => ascii "No clients are waiting.\n"
  | waitingList ids => ascii "Waiting clients:\n" ++ (ids.map fun id => id ++ ascii "\n").flatten
  | waiting => ascii "Waiting for connection. (Ctrl+C to stop waiting)\n" ++ [0]
  | invalidPort => ascii "Invalid port number.\n" ++ [0]
  | alreadyWaiting => ascii "You are already in WAIT mode.\n"
  | notWaiting => ascii "Client is not waiting.\n" ++ [0]
  | connect targetId targetPort =>
    ascii "CONNECT " ++ targetId ++ ascii " 127.0.0.1 " ++ decimalInt targetPort ++ ascii "\n"
  | stoppedWaiting => ascii "\nStopped waiting.\n"
  | badPrompt => ascii "Bad prompt.\n" ++ [0]

/-- Where a handler thread is in `client_handler`. -/
inductive Phase
  | joining
  | registering
  | reading
  | running (buffer : Bytes)
  | listing
  | portRecv
  | leaving
  | ended
  deriving DecidableEq

structure Session where
  socket : ℕ
  clientId : Bytes
  phase : Phase
  outbox : List Reply

def Session.at (ses : Session) (phase : Phase) : Session := { ses with phase := phase }

def Session.say (ses : Session) (reply : Reply) (phase : Phase) : Session :=
  { ses with outbox := ses.outbox ++ [reply], phase := phase }

structure Server where
  registry : Registry
  mutex : Option ℕ
  openSockets : List ℕ
  sessions : ℕ → Option Session

namespace Server

def start : Server := ⟨.empty, none, [], fun _ => none⟩

def put (s : Server) (x : ℕ) (ses : Session) : Server :=
  { s with sessions := Function.update s.sessions x (some ses) }

def close (s : Server) (socket : ℕ) : Server :=
  { s with openSockets := s.openSockets.erase socket }

def withRegistry (s : Server) (r : Registry) : Server := { s with registry := r }

def withMutex (s : Server) (holder : Option ℕ) : Server := { s with mutex := holder }

end Server

/-- The steps of the handler threads and of the accept loop. The two last values
of `exec` are what the stack holds in `target_id` and in `target_index` where the
code leaves them uninitialised. -/
inductive Action
  | accept (x socket : ℕ)
  | recvId (x : ℕ) (data : Bytes)
  | register (x : ℕ)
  | recvCommand (x : ℕ) (data : Bytes)
  | removeClient (x : ℕ)
  | exec (x : ℕ) (stackId : Bytes) (stackIndex : Int)
  | sendList (x : ℕ)
  | recvPort (x : ℕ) (data : Bytes)

inductive Command
  | list
  | wait
  | connect
  | stopWait
  | quit
  | badPrompt
  deriving DecidableEq

/-- The chain of `strncmp` tests of the command loop. -/
def commandOf (buffer : Bytes) : Command :=
  if startsWith buffer (ascii "/list") then .list
  else if startsWith buffer (ascii "/wait") then .wait
  else if startsWith buffer (ascii "/connect") then .connect
  else if startsWith buffer (ascii "/stop_wait") then .stopWait
  else if startsWith buffer (ascii "/quit") then .quit
  else .badPrompt

/-- `sscanf(buffer, "/connect %s", target_id)`: no token leaves `target_id` as it
was, and a token of 32 bytes or more overflows it. -/
def connectTarget (buffer stackId : Bytes) : Option Bytes :=
  let token := (scanToken (buffer.drop 8)).1
  if token = [] then some stackId
  else if token.length < idSize then some token
  else none

/-- `int target_index;` of `/stop_wait`: assigned only when the search succeeds. -/
def stopIndex (r : Registry) (clientId : Bytes) (stackIndex : Int) : Int :=
  match r.waitingIndex clientId with
  | some i => i
  | none => stackIndex

namespace Server

/-- The dispatch on `buffer` inside the command loop. -/
def execCommand (s : Server) (x : ℕ) (ses : Session) (buffer stackId : Bytes)
    (stackIndex : Int) : Option Server :=
  match commandOf buffer with
  | .list =>
    if s.registry.waitingCount = 0 then some (s.put x (ses.say .noneWaiting .reading))
    else some (s.put x (ses.at .listing))
  | .wait =>
    if s.mutex = none then
      match s.registry.waitingIndex ses.clientId with
      | none => some ((s.put x (ses.at .portRecv)).withMutex (some x))
      | some _ => some (s.put x (ses.say .alreadyWaiting .reading))
    else none
  | .connect =>
    if s.mutex = none then
      (connectTarget buffer stackId).bind fun targetId =>
        match s.registry.waitingIndex targetId with
        | none => some (s.put x (ses.say .notWaiting .reading))
        | some i => (s.registry.removeWaiting i).map fun r =>
            (s.put x (ses.say (.connect targetId (s.registry.clients i).port) .reading)).withRegistry r
    else none
  | .stopWait =>
    if s.mutex = none then
      (s.registry.removeWaiting (stopIndex s.registry ses.clientId stackIndex)).map fun r =>
        (s.put x (ses.say .stoppedWaiting .reading)).withRegistry r
    else none
  | .quit => some ((s.put x (ses.at .ended)).close ses.socket)
  | .badPrompt => some (s.put x (ses.say .badPrompt .reading))

/-- One step of the server; `none` when the step is not possible or when the code
would access memory outside an array. -/
def step (s : Server) : Action → Option Server
  | .accept x socket =>
    if s.sessions x = none ∧ socket ∉ s.openSockets then
      some { s.put x ⟨socket, [], .joining, []⟩ with openSockets := socket :: s.openSockets }
    else none
  | .recvId x data => (s.sessions x).bind fun ses =>
    if ses.phase = .joining ∧ data.length ≤ idSize then
      (lineIn idSize data).map fun id => s.put x { ses with clientId := id, phase := .registering }
    else none
  | .register x => (s.sessions x).bind fun ses =>
    if ses.phase = .registering ∧ s.mutex = none then
      if s.registry.idTaken ses.clientId then
        some ((s.put x (ses.say .idTaken .ended)).close ses.socket)
      else (s.registry.addClient ses.clientId ses.socket).map fun r =>
        (s.put x (ses.say (.connected ses.clientId) .reading)).withRegistry r
    else none
  | .recvCommand x data => (s.sessions x).bind fun ses =>
    if ses.phase = .reading ∧ data.length ≤ bufferSize then
      if data = [] then some ((s.put x (ses.at .leaving)).close ses.socket)
      else (lineIn bufferSize data).map fun buffer => s.put x (ses.at (.running buffer))
    else none
  | .removeClient x => (s.sessions x).bind fun ses =>
    if ses.phase = .leaving ∧ s.mutex = none then
      some ((s.put x (ses.at .ended)).withRegistry (s.registry.removeClient ses.socket))
    else none
  | .exec x stackId stackIndex => (s.sessions x).bind fun ses =>
    match ses.phase with
    | .running buffer => s.execCommand x ses buffer stackId stackIndex
    | _ => none
  | .sendList x => (s.sessions x).bind fun ses =>
    let reply := Reply.waitingList s.registry.waiting
    if ses.phase = .listing ∧ s.mutex = none ∧ reply.text.length < bufferSize then
      some (s.put x (ses.say reply .reading))
    else none
  | .recvPort x data => (s.sessions x).bind fun ses =>
    if ses.phase = .portRecv ∧ s.mutex = some x ∧ data.length ≤ bufferSize then
      if 0 < atoi data then
        (s.registry.addWaiting ses.clientId (atoi data)).map fun r =>
          ((s.put x (ses.say .waiting .reading)).withRegistry r).withMutex none
      else some ((s.put x (ses.say .invalidPort .reading)).withMutex none)
    else none

end Server

/-- The steps of a client that connects and registers. -/
def joinAs (x : ℕ) (id : String) : List Action :=
  [.accept x (4+x), .recvId x (ascii id), .register x]

/-- A command line received and executed. -/
def command (x : ℕ) (line : String) : List Action :=
  [.recvCommand x (ascii line), .exec x [] 0]

def waitOn (x : ℕ) (port : String) : List Action :=
  command x "/wait" ++ [.recvPort x (ascii port)]

def sentTo (s : Server) (x : ℕ) : List Reply := ((s.sessions x).map Session.outbox).getD []

end NetTools.IRC
