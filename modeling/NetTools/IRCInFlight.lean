import NetTools.IRCLiveSessions
import NetTools.IRCSystem
import NetTools.IRCWaitingSet

namespace NetTools.IRC

open CText Schedule

/-- Where a client is in the waiting protocol: not waiting, waiting, or asked for its port.
`stray` is a `/stop_wait` that does not find its client, `clash` a command that the client
does not send in this place. -/
inductive Standing
  | unlisted
  | listed
  | port
  | stray
  | clash
  deriving DecidableEq

def Standing.next (e : Standing) (m : Bytes) : Standing :=
  match e with
  | .port => if 0 < atoi m then .listed else .unlisted
  | .unlisted =>
    match commandOf m with
    | .wait => .port
    | .stopWait => .stray
    | .quit => .clash
    | .list | .connect | .badPrompt => .unlisted
  | .listed =>
    match commandOf m with
    | .stopWait => .unlisted
    | .list | .badPrompt => .listed
    | .wait | .connect | .quit => .clash
  | .stray => .stray
  | .clash => .clash

/-- The standing after all messages of a list. -/
def Standing.after (e : Standing) (messages : List Bytes) : Standing := messages.foldl Standing.next e

namespace System

/-- The messages of `x` that its handler has not executed; the first one is the id. -/
def unexecuted (s : System) (x : ℕ) : List Bytes :=
  match (s.server.sessions x).map Session.phase with
  | none | some .joining => (s.toServer x).tail
  | some (.running buffer) => buffer :: s.toServer x
  | _ => s.toServer x

/-- The standing of `x` with its handler. -/
def standing (s : System) (x : ℕ) : Standing :=
  match s.server.sessions x with
  | some ses =>
    if ses.phase = .portRecv then .port
    else if ses.phase.inLoop = true ∧ ses.clientId ∈ s.server.registry.waiting then .listed
    else .unlisted
  | none => .unlisted

/-- The standing of `x` once its messages are executed. -/
def outlook (s : System) (x : ℕ) : Standing := (s.standing x).after (s.unexecuted x)

end System

theorem Standing.after_append (e : Standing) (l l' : List Bytes) :
    e.after (l ++ l') = (e.after l).after l' := List.foldl_append

theorem Standing.after_stray (l : List Bytes) : Standing.stray.after l = .stray := by
  induction l with
  | nil => rfl
  | cons m l ih => exact ih

theorem Standing.after_clash (l : List Bytes) : Standing.clash.after l = .clash := by
  induction l with
  | nil => rfl
  | cons m l ih => exact ih

/-- A client that is taken off the list meanwhile ends up off the list, or its `/stop_wait`
is stray. -/
theorem Standing.after_taken (l : List Bytes) (h : Standing.listed.after l ≠ .clash) :
    (Standing.listed.after l = .listed ∧ Standing.unlisted.after l = .unlisted) ∨
      Standing.unlisted.after l = .stray := by
  induction l with
  | nil => exact Or.inl ⟨rfl, rfl⟩
  | cons m l ih =>
    change (Standing.listed.next m).after l ≠ .clash at h
    change ((Standing.listed.next m).after l = .listed ∧ (Standing.unlisted.next m).after l = .unlisted) ∨
      (Standing.unlisted.next m).after l = .stray
    unfold Standing.next at h ⊢
    cases hc : commandOf m with
    | list | badPrompt =>
      simp only [hc] at h ⊢
      exact ih h
    | stopWait =>
      right
      exact after_stray l
    | wait | connect | quit =>
      simp only [hc] at h
      exact absurd (after_clash l) h

/-- The peer that a message or a thread is about to connect to. -/
def ServerMessage.target : ServerMessage → Option Bytes
  | .connect peerId _ => some peerId
  | _ => none

def ServerThread.target : ServerThread → Option Bytes
  | .connecting peerId _ => some peerId
  | _ => none

namespace System

/-- The clients that `x` has been told to connect to and has not tried to reach yet. -/
def targets (s : System) (x : ℕ) : List Bytes :=
  (s.toClient x).filterMap (fun m => (serverMessage m).bind ServerMessage.target) ++
    ((s.processes x).bind fun c => c.serverThread.target).toList

/-- Some process is about to connect to this client. -/
def Named (s : System) (id : Bytes) : Prop := ∃ x, (s.processes x).isSome ∧ id ∈ s.targets x

def InLoop (s : System) (x : ℕ) : Prop := ∃ ses ∈ s.server.sessions x, ses.phase.inLoop = true

/-- Process `x` waits under this id, somebody has taken it off the list, and no connection
has reached it yet. -/
def Owed (s : System) (id : Bytes) (x : ℕ) : Prop :=
  s.InLoop x ∧ s.outlook x = .unlisted ∧
    ∃ c ∈ s.processes x, c.id = id ∧ c.mode = .wait ∧ c.opening = false ∧ c.backlog = []

def OwesNothing (s : System) (x : ℕ) : Prop :=
  ∀ id ∈ s.targets x, ∀ y ∈ s.started, ¬ s.Owed id y

instance (s : System) (x : ℕ) : Decidable (s.InLoop x) :=
  inferInstanceAs (Decidable (∃ ses ∈ s.server.sessions x, ses.phase.inLoop = true))

instance (s : System) (id : Bytes) (x : ℕ) : Decidable (s.Owed id x) :=
  inferInstanceAs (Decidable (s.InLoop x ∧ s.outlook x = .unlisted ∧
    ∃ c ∈ s.processes x, c.id = id ∧ c.mode = .wait ∧ c.opening = false ∧ c.backlog = []))

instance (s : System) (x : ℕ) : Decidable (s.OwesNothing x) :=
  inferInstanceAs (Decidable (∀ id ∈ s.targets x, ∀ y ∈ s.started, ¬ s.Owed id y))

/-- Neither the waiting list nor a handler in its command loop has this id. -/
def Unused (s : System) (id : Bytes) : Prop :=
  id ∉ s.server.registry.waiting ∧ ∀ y ∈ s.started, ∀ ses ∈ s.server.sessions y,
    ses.phase.inLoop = true → ses.clientId ≠ id

/-- A reply to `x` that names this id is read, or no process has the id. -/
def Reaches (s : System) (x : ℕ) (id : Bytes) : Prop :=
  s.processes x ≠ none ∨ ∀ y ∈ s.started, ∀ c ∈ s.processes y, c.id ≠ id

instance (s : System) (id : Bytes) : Decidable (s.Unused id) :=
  inferInstanceAs (Decidable (id ∉ s.server.registry.waiting ∧ ∀ y ∈ s.started,
    ∀ ses ∈ s.server.sessions y, ses.phase.inLoop = true → ses.clientId ≠ id))

instance (s : System) (x : ℕ) (id : Bytes) : Decidable (s.Reaches x id) :=
  inferInstanceAs (Decidable (s.processes x ≠ none ∨
    ∀ y ∈ s.started, ∀ c ∈ s.processes y, c.id ≠ id))

/-- Every `recv` returns one send. -/
def OneSend (stream : List Bytes) (data : Bytes) : Prop := data = [] ∨ stream.head? = some data

instance (stream : List Bytes) (data : Bytes) : Decidable (OneSend stream data) :=
  inferInstanceAs (Decidable (data = [] ∨ stream.head? = some data))

end System

/-- The steps that keep clients and server in agreement. -/
def Orderly (s : System) : Event → Prop
  | .server (.recvId x data) | .server (.recvCommand x data) | .server (.recvPort x data) =>
    System.OneSend (s.toServer x) data
  | .server (.register x) => ∀ ses ∈ s.server.sessions x,
      s.server.registry.idTaken ses.clientId = false → s.Unused ses.clientId
  | .server (.exec x stackId _) => ∀ ses ∈ s.server.sessions x, ∀ buffer ∈ ses.pending,
      (commandOf buffer = .stopWait → ses.clientId ∈ s.server.registry.waiting) ∧
      (commandOf buffer = .connect → ∀ targetId ∈ connectTarget buffer stackId,
        targetId ∈ s.server.registry.waiting → s.Reaches x targetId)
  | .start _ id => IsName id
  | .typeLine x line =>
    (startsWith line (ascii "/quit") = true → s.OwesNothing x) ∧
    (startsWith line (ascii "/stop_wait") = true → ∀ c ∈ s.processes x, c.mode ≠ .wait)
  | .bindFails x => ∀ c ∈ s.processes x, c.mode ≠ .wait
  | .recvServer x data => System.OneSend (s.toClient x) data ∧
      (data = [] ∨ serverMessage data = some .idTaken → s.OwesNothing x)
  | .connect x y => ∀ c ∈ s.processes x, c.mode = .info ∧
      ∀ id ∈ c.serverThread.target, s.Owed id y
  | .connectFails x => ∀ c ∈ s.processes x, ∀ id ∈ c.serverThread.target,
      ∀ y ∈ s.started, ¬ s.Owed id y
  | _ => True

instance (s : System) : ∀ e, Decidable (Orderly s e)
  | .server (.recvId x data) | .server (.recvCommand x data) | .server (.recvPort x data) =>
    inferInstanceAs (Decidable (System.OneSend (s.toServer x) data))
  | .server (.register x) => inferInstanceAs (Decidable (∀ ses ∈ s.server.sessions x,
      s.server.registry.idTaken ses.clientId = false → s.Unused ses.clientId))
  | .server (.exec x stackId _) => inferInstanceAs (Decidable
      (∀ ses ∈ s.server.sessions x, ∀ buffer ∈ ses.pending,
      (commandOf buffer = .stopWait → ses.clientId ∈ s.server.registry.waiting) ∧
      (commandOf buffer = .connect → ∀ targetId ∈ connectTarget buffer stackId,
        targetId ∈ s.server.registry.waiting → s.Reaches x targetId)))
  | .start _ id => inferInstanceAs (Decidable (IsName id))
  | .typeLine x line => inferInstanceAs (Decidable
      ((startsWith line (ascii "/quit") = true → s.OwesNothing x) ∧
      (startsWith line (ascii "/stop_wait") = true → ∀ c ∈ s.processes x, c.mode ≠ .wait)))
  | .bindFails x => inferInstanceAs (Decidable (∀ c ∈ s.processes x, c.mode ≠ .wait))
  | .recvServer x data => inferInstanceAs (Decidable (System.OneSend (s.toClient x) data ∧
      (data = [] ∨ serverMessage data = some .idTaken → s.OwesNothing x)))
  | .connect x y => inferInstanceAs (Decidable (∀ c ∈ s.processes x, c.mode = .info ∧
      ∀ id ∈ c.serverThread.target, s.Owed id y))
  | .connectFails x => inferInstanceAs (Decidable (∀ c ∈ s.processes x,
      ∀ id ∈ c.serverThread.target, ∀ y ∈ s.started, ¬ s.Owed id y))
  | .server (.accept ..) | .server (.removeClient _) | .server (.sendList _) | .sigint _
  | .announce .. | .acceptPeer _ | .acceptFails _ | .leave .. => isTrue trivial

end NetTools.IRC
