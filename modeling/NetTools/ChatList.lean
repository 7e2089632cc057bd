import NetTools.CText
import NetTools.LinkedHeap

/-! `archive/chat/src/clientlist.c`: the list of waiting clients and its mutex. A call returns,
blocks on the mutex or ends the process. -/
namespace NetTools.Chat

open CText LinkedHeap

def maxMsgLength : ℕ := 1024

def maxIdLength : ℕ := 32

/-- The strings in memory: `str` at the pointers that callers pass (the list keeps the pointers and
never writes to the strings), and `atInt` where `%s` is given an `int` in the place of a pointer;
without readable memory there the process is killed. -/
structure Memory where
  str : ℕ → Bytes
  atInt : Int → Option Bytes

/-- A node without its `next`; `id` and `ip` are pointers. -/
structure ClientNode where
  id : ℕ
  ip : ℕ
  port : Int
  deriving DecidableEq

/-- The list, the nodes it stands on and the global `mutex`. -/
structure ClientList where
  heap : Heap ClientNode
  top : Option ℕ
  numClients : Int
  locked : Bool

def newClientList : ClientList := ⟨.empty, none, 0, false⟩

def isEmpty (L : ClientList) : Bool := L.numClients = 0

/-- Why a call does not return. -/
inductive Halt
  | blocked
  | ended (status : ProcessStatus)
  deriving DecidableEq

/-- A read of memory that is not in use has no defined outcome. -/
def orUndefined {β : Type} : Option β → Except Halt β
  | none => .error (.ended .undefined)
  | some b => .ok b

/-- `pthread_mutex_lock`: the mutex is not recursive, so a locked one blocks its own thread too. -/
def lockMutex (L : ClientList) : Except Halt ClientList :=
  if L.locked then .error .blocked else .ok { L with locked := true }

def unlockMutex (L : ClientList) : ClientList := { L with locked := false }

/-- `numClients++` and `numClients--`, behind the critical section. -/
def addToCount (L : ClientList) (d : Int) : Except Halt ClientList :=
  let n := L.numClients+d
  if -2^31 ≤ n ∧ n < 2^31 then .ok { L with numClients := n } else .error (.ended .undefined)

/-- `strcmp(id, N->id) == 0`. -/
def sameId (m : Memory) (id : ℕ) (c : ClientNode) : Bool := m.str id = m.str c.id

/-- The first node with this id, for `lookup` and for the loop of `sendClientInfo`. -/
def findNode (m : Memory) (L : ClientList) (id : ℕ) : Except Halt (Option (Cell ClientNode)) := do
  match ← orUndefined (L.heap.find (sameId m id) L.heap.bound L.top) with
  | none => return none
  | some a => return some (← orUndefined (L.heap.cell a))

/-- The pointer to the id that is in the list, or `NULL`. -/
def lookup (m : Memory) (L : ClientList) (id : ℕ) : Except Halt (Option ℕ) :=
  (findNode m L id).map fun c => c.map fun c => c.value.id

/-- `malloc` gives an address that is not in use, or `NULL`, which the `assert` turns into an
abort. -/
def newNode (h : Heap ClientNode) (malloc : Option ℕ) (c : ClientNode) :
    Except Halt (Heap ClientNode × ℕ) :=
  match malloc with
  | none => .error (.ended .killed)
  | some a =>
    if (h.cell a).isNone then .ok (h.alloc a ⟨c, none⟩, a) else .error (.ended .undefined)

/-- The new node at the top of an empty list, or behind the last one. -/
def appendNode (L : ClientList) (malloc : Option ℕ) (c : ClientNode) :
    Except Halt ClientList := do
  match L.top with
  | none =>
    let (h, a) ← newNode L.heap malloc c
    return { L with heap := h, top := some a }
  | some t =>
    let n ← orUndefined (L.heap.last L.heap.bound t)
    let (h, a) ← newNode L.heap malloc c
    return { L with heap := h.setNext n (some a) }

def insertToList (m : Memory) (L : ClientList) (id ip : ℕ) (port : Int) (malloc : Option ℕ) :
    Except Halt (ClientList × Int) := do
  let L ← lockMutex L
  match ← lookup m L id with
  | some _ => return (L, -1)  -- the mutex stays locked
  | none =>
    let L ← appendNode L malloc ⟨id, ip, port⟩
    let L ← addToCount (unlockMutex L) 1
    return (L, 1)

/-- `M = N->next; N->next = N->next->next; freeNode(&M);` -/
def unlinkBehind (h : Heap ClientNode) (n : ℕ) : Option (Heap ClientNode) := do
  let c ← h.cell n
  let b ← c.next
  let d ← h.cell b
  return (h.setNext n d.next).free b

/-- The two branches of `removeFromList` that take a node out. -/
def unlinkNode (m : Memory) (L : ClientList) (id : ℕ) : Except Halt ClientList := do
  let t ← orUndefined L.top
  let first ← orUndefined (L.heap.cell t)
  if sameId m id first.value then
    return { L with heap := L.heap.free t, top := first.next }
  else
    match ← orUndefined (L.heap.before (sameId m id) L.heap.bound t) with
    | none => return L
    | some n => return { L with heap := ← orUndefined (unlinkBehind L.heap n) }

/-- The critical section of `removeFromList`. -/
def removeSection (m : Memory) (L : ClientList) (id : ℕ) : Except Halt ClientList := do
  let L ← lockMutex L
  match ← lookup m L id with
  | none => throw (.ended (.exited (-1)))
  | some _ => return unlockMutex (← unlinkNode m L id)

def removeFromList (m : Memory) (L : ClientList) (id : ℕ) : Except Halt ClientList := do
  addToCount (← removeSection m L id) (-1)

/-- A buffer of `size` zeroed bytes with a text in it. -/
def padded (size : ℕ) (text : Bytes) : Bytes := text ++ List.replicate (size-text.length) 0

/-- The loop of `sendClientList` from the node at `p` on, with the number of ids sent before: the
messages sent and whether all sends succeeded. An id that does not fit the buffer is written past
its end. -/
def sendIds (m : Memory) (h : Heap ClientNode) (sends : ℕ → Bool) :
    ℕ → Option ℕ → ℕ → Except Halt (List Bytes × Bool)
  | _, none, _ => .ok ([], true)
  | 0, some _, _ => .error (.ended .undefined)
  | n+1, some a, i => do
    let c ← orUndefined (h.cell a)
    if maxIdLength ≤ (m.str c.value.id).length then throw (.ended .undefined)
    else if sends i then
      let (more, all) ← sendIds m h sends n c.next (i+1)
      return (padded maxIdLength (m.str c.value.id) :: more, all)
    else return ([], false)

/-- `sends` says which of the sends succeed. -/
def sendClientList (m : Memory) (L : ClientList) (sends : ℕ → Bool) :
    Except Halt (ClientList × List Bytes × Int) := do
  let L ← lockMutex L
  let (ids, all) ← sendIds m L.heap sends L.heap.bound L.top 0
  if all && sends ids.length then return (unlockMutex L, ids ++ [ascii "\n"], 1)
  else return (unlockMutex L, ids, -1)

/-- `sprintf(buffer, "%s %s", N->ip, N->port)`, where the second `%s` is given an `int`. -/
def clientInfo (m : Memory) (c : ClientNode) : Except Halt Bytes :=
  match m.atInt c.port with
  | none => .error (.ended .killed)
  | some text =>
    let info := m.str c.ip ++ ascii " " ++ text
    if info.length < maxMsgLength then .ok info else .error (.ended .undefined)

/-- What the critical section of `sendClientInfo` leaves: what the client was sent, and whether the
call goes on to `removeFromList`. -/
structure Searched where
  list : ClientList
  received : Option Bytes
  found : Bool

def searchSection (m : Memory) (L : ClientList) (id : ℕ) (send : Bool) : Except Halt Searched := do
  let L ← lockMutex L
  match ← findNode m L id with
  | some c =>
    let info ← clientInfo m c.value
    if send then return ⟨unlockMutex L, some (padded maxMsgLength info), true⟩
    else return ⟨unlockMutex L, none, false⟩
  | none =>
    return ⟨unlockMutex L, if send then some (padded maxMsgLength (ascii "DNE")) else none, false⟩

def sendClientInfo (m : Memory) (L : ClientList) (id : ℕ) (send : Bool) :
    Except Halt (ClientList × Option Bytes × Int) := do
  let s ← searchSection m L id send
  if s.found then return (← removeFromList m s.list id, s.received, 1)
  else return (s.list, s.received, -1)

/-- A memory with two ids and an address; of an `int`, `%s` makes what glibc does. -/
def exampleMemory : Memory where
  str p := if p = 1 then ascii "a" else if p = 2 then ascii "b" else ascii "127.0.0.1"
  atInt n := if n = 0 then some (ascii "(null)") else none

end NetTools.Chat
