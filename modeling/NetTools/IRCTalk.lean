import NetTools.IRCOneConversation

/-! Two `irc/client.c` processes in one conversation. What the `send` calls of a side hand to
the connection arrives in order; a `recv` returns any non-empty beginning of what is in
flight, and the end of the stream when the other side has closed and everything was read. -/
namespace NetTools.IRC

open CText Schedule

inductive Side
  | a
  | b
  deriving DecidableEq

def Side.other : Side → Side
  | a => b
  | b => a

/-- What is in flight from one side: the texts of its lines, and behind them its `LEAVE`. -/
structure Stream where
  text : Bytes
  leave : Bytes

namespace Stream

def bytes (q : Stream) : Bytes := q.text ++ q.leave

/-- After `recv` took `n` bytes. -/
def drop (q : Stream) (n : ℕ) : Stream := ⟨q.text.drop n, q.leave.drop (n-q.text.length)⟩

/-- What `main` sends in CHAT mode for what `fgets` gave it. -/
def send (q : Stream) (text : Bytes) : Stream :=
  if startsWith text (ascii "/quit") then { q with leave := q.leave ++ ascii "LEAVE" }
  else { q with text := q.text ++ text }

end Stream

/-- `pending` is what `main` has not read of the line that was typed. `typed` are the lines of
side `a` that do not quit, `printed` the texts that side `b` printed as its messages, and
`leaving` holds since `a` issued its leave. -/
structure Talk where
  proc : Side → ChatProcess
  stream : Side → Stream
  pending : Side → Option Bytes
  typed : List Bytes
  printed : List Bytes
  leaving : Bool

/-- A line of `a` may be a `/quit`; `sigint` is the Ctrl+C of `a`. A `read` with `pipe` is a
`send` to a closed socket that raises SIGPIPE. -/
inductive TalkEvent
  | typeLine (x : Side) (line : Bytes)
  | read (x : Side) (pipe : Bool)
  | sigint
  | recv (x : Side) (data : Bytes)

/-- The text that one `fgets` makes of the rest of a line, and what is left of it. The line
feed behind the rest is not shown. -/
def fgets (rest : Bytes) : Bytes × Option Bytes :=
  ((rest.take (bufferSize-1)).takeWhile fun b => b ≠ 0,
    if bufferSize-1 ≤ rest.length then some (rest.drop (bufferSize-1)) else none)

namespace ChatProcess

instance (c : ChatProcess) : Decidable c.Chatting :=
  inferInstanceAs (Decidable (c.status = .running ∧ c.peer.mode = .chat ∧
    ∃ k ∈ c.openSockets, c.peer.socket = some k))

/-- In one conversation, with its one receive thread. -/
def Joined (c : ChatProcess) : Prop :=
  c.Chatting ∧ ∃ n k, c.receivers = [⟨n, k⟩] ∧ c.peer.socket = some k

/-- In an orderly run every conversation is such a one. -/
theorem Steady.joined {c : ChatProcess} (h : c.Steady) (hc : c.Chatting) : c.Joined := by
  obtain ⟨k, n, hk, -, hone, -⟩ := h.chat hc.2.1
  exact ⟨hc, n, k, hone, hk⟩

end ChatProcess

namespace Talk

def start (a b : ChatProcess) : Talk where
  proc x := match x with
    | .a => a
    | .b => b
  stream _ := ⟨[], []⟩
  pending _ := none
  typed := []
  printed := []
  leaving := false

def setProc (s : Talk) (x : Side) (c : ChatProcess) : Talk :=
  { s with proc := Function.update s.proc x c }

def setStream (s : Talk) (x : Side) (q : Stream) : Talk :=
  { s with stream := Function.update s.stream x q }

def setPending (s : Talk) (x : Side) (rest : Option Bytes) : Talk :=
  { s with pending := Function.update s.pending x rest }

def print (s : Talk) (x : Side) (text : Bytes) : Talk :=
  { s with printed := if x = .b then s.printed ++ [text] else s.printed }

def typeLine (s : Talk) (x : Side) (line : Bytes) : Talk :=
  let t := s.setPending x (some line)
  match x with
  | .b => t
  | .a => if startsWith line (ascii "/quit") then { t with leaving := true }
    else { t with typed := s.typed ++ [line] }

/-- One turn of `main` on the rest of a line. Out of CHAT mode nothing goes to the peer. -/
def read (s : Talk) (x : Side) (rest : Bytes) : Talk :=
  let (text, left) := fgets rest
  let c := s.proc x
  let t := (s.setPending x left).setProc x (c.typeLine text none false)
  if c.Chatting then t.setStream x ((s.stream x).send text) else t

/-- `handle_sigint` in CHAT mode. -/
def interrupt (s : Talk) : Talk :=
  { (s.setProc .a (s.proc .a).sigint).setStream .a
      { s.stream .a with leave := (s.stream .a).leave ++ ascii "LEAVE" } with leaving := true }

/-- One turn of `receive_peer_messages`. A full buffer without a NUL is printed beyond its end. -/
def recv (s : Talk) (x : Side) (r : Receiver) (data : Bytes) : Talk :=
  let c := s.proc x
  let t := s.setStream x.other ((s.stream x.other).drop data.length)
  if data = [] ∨ startsWith data (ascii "LEAVE") = true then
    t.setProc x (c.recvPeer 0 r (some data))
  else if data.length = bufferSize ∧ 0 ∉ data then t.setProc x (c.ended .undefined)
  else (t.setProc x (c.recvPeer 0 r (some data))).print x (data.takeWhile fun b => b ≠ 0)

/-- `recv` can return these bytes. -/
def CanRecv (s : Talk) (x : Side) (data : Bytes) : Prop :=
  (s.proc x).Chatting ∧
    if data = [] then (s.stream x.other).bytes = [] ∧ ¬ (s.proc x.other).Chatting
    else data <+: (s.stream x.other).bytes ∧ data.length ≤ bufferSize

instance (s : Talk) (x : Side) (data : Bytes) : Decidable (s.CanRecv x data) :=
  inferInstanceAs (Decidable ((s.proc x).Chatting ∧
    if data = [] then (s.stream x.other).bytes = [] ∧ ¬ (s.proc x.other).Chatting
    else data <+: (s.stream x.other).bytes ∧ data.length ≤ bufferSize))

/-- One step; `none` when it is not possible. Side `a` types nothing behind its leave, and
side `b` does not leave by itself. -/
def step (s : Talk) : TalkEvent → Option Talk
  | .typeLine x line =>
    if (s.proc x).Chatting ∧ s.pending x = none ∧ line ≠ [] ∧ 10 ∉ line ∧
        (x = .a → s.leaving = false) ∧
        (x = .b → startsWith line (ascii "/quit") = false) then
      some (s.typeLine x line)
    else none
  | .read x pipe => (s.pending x).bind fun rest =>
    if (s.proc x).status = .running then
      if pipe then
        if (s.proc x).Chatting ∧ ¬ (s.proc x.other).Chatting then
          some ((s.setPending x none).setProc x ((s.proc x).ended .killed))
        else none
      else some (s.read x rest)
    else none
  | .sigint =>
    if (s.proc .a).Chatting ∧ s.pending .a = none ∧ s.leaving = false then some s.interrupt
    else none
  | .recv x data => ((s.proc x).receivers[0]?).bind fun r =>
    if s.CanRecv x data then some (s.recv x r data) else none

end Talk

end NetTools.IRC
