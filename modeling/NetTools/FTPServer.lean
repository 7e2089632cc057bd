import NetTools.Schedule
import NetTools.TFTPMessages

/-! `ftp/server.c`: one process that serves one client after the other. A step is one system
call together with what the program does until the next one. -/
namespace NetTools.FTP

open CText Schedule
open TFTP (scanWidth scanRequest RangeRejected)

def bufferSize : ℕ := 1048576

/-- What `write` gives: a count, -1, or SIGPIPE, for which the server has no handler. -/
inductive WriteResult
  | sent (n : ℕ)
  | failed
  | brokenPipe
  deriving DecidableEq

/-- The bytes that the connection takes. -/
def WriteResult.count : WriteResult → ℕ
  | sent n => n
  | failed | brokenPipe => 0

/-- A request that passed the checks before the first `fopen`. -/
inductive Command
  | check (filename : Bytes)
  | get (filename : Bytes) (offset chunkSize : ℕ)
  deriving DecidableEq

/-- What becomes of the request text: `refused` is answered with no byte, `unprintable` is a
`%s` on an array without a NUL. -/
inductive Verdict
  | accepted (command : Command)
  | refused
  | unprintable
  deriving DecidableEq

/-- `sscanf(buffer, "%9s %255s %zu %zu", ...)` and the checks of its fields. Without a word in
the text `command` keeps `stale`, what its ten bytes held before. -/
def parse (text stale : Bytes) : Verdict :=
  let word := (scanWidth 9 text).map Prod.fst
  let command := word.getD (stale.takeWhile fun b => b ≠ 0)
  if command = ascii "CHECK" then
    match scanRequest text with
    | some request => .accepted (.check request.filename)
    | none => .refused
  else if command = ascii "GET" then
    match scanRequest text with
    | some ⟨_, filename, some offset, some chunkSize⟩ =>
      if chunkSize ≤ 0 then .refused else .accepted (.get filename offset chunkSize)
    | _ => .refused
  else if word = none ∧ 0 ∉ stale then .unprintable
  else .refused

/-- The variables of the two loops of a `GET`; `buffer` holds what the last `fread` gave. -/
structure Transfer where
  file : Bytes
  pos : ℕ
  bytesRemaining : ℕ
  buffer : Bytes
  bytesToSend : ℕ
  bytesSentTotal : ℕ
  deriving DecidableEq

namespace Transfer

def bytesToRead (t : Transfer) : ℕ :=
  if t.bytesRemaining > bufferSize then bufferSize else t.bytesRemaining

/-- `fread` gave `n` bytes. -/
def read (t : Transfer) (n : ℕ) : Transfer :=
  { t with
    pos := t.pos+n
    buffer := (t.file.drop t.pos).take n
    bytesToSend := n
    bytesSentTotal := 0 }

/-- The inner loop on the result of `write`, a `size_t`. -/
def wrote (t : Transfer) (bytesSent : ℕ) : Transfer :=
  { t with
    bytesToSend := (t.bytesToSend+(2^64-bytesSent))%2^64
    bytesSentTotal := (t.bytesSentTotal+bytesSent)%2^64 }

/-- The next `write` of the inner loop stays inside `buffer`. -/
def inBuffer (t : Transfer) : Bool := t.bytesSentTotal+t.bytesToSend ≤ bufferSize

end Transfer

/-- The call that the process is in. -/
inductive Place
  | accepting
  | receiving
  | answering (text : Bytes)
  | opening (command : Command)
  | reopening (command : Command)
  | reading (t : Transfer)
  | sending (t : Transfer)
  deriving DecidableEq

/-- `stream` is what the client at hand has been sent. -/
structure Server where
  status : ProcessStatus
  socketOpen : Bool
  place : Place
  stream : Bytes
  deriving DecidableEq

/-- The calls with their results; `fread` gives a count and `recv` fails with `none`. -/
inductive Call
  | accept (ok : Bool)
  | recv (data : Option Bytes) (stale : Bytes)
  | fopen (file : Option Bytes)
  | fread (n : ℕ)
  | write (result : WriteResult)

namespace Server

def start : Server := ⟨.running, true, .accepting, []⟩

def goTo (s : Server) (place : Place) : Server := { s with place := place }

/-- The end of the process closes its sockets. -/
def ended (s : Server) (status : ProcessStatus) : Server :=
  { s with status := status, socketOpen := false }

/-- `recv` and what follows; its -1 is `SIZE_MAX` and falls under the bound of the buffer. -/
def receive (s : Server) (data : Option Bytes) (stale : Bytes) : Server :=
  match data with
  | none | some [] => s.goTo .accepting
  | some data =>
    match parse (data.takeWhile fun b => b ≠ 0) stale with
    | .accepted command => s.goTo (.opening command)
    | .refused => s.goTo (.answering [])
    | .unprintable => s.ended .undefined

/-- The second `fopen`, with the branch of its command. -/
def reopen (s : Server) (file : Option Bytes) : Command → Server
  | .check _ =>
    match file with
    | some file => s.goTo (.answering (ascii "OK " ++ decimal file.length))
    | none => s.goTo .accepting
  | .get _ offset chunkSize =>
    match file with
    | some file =>
      if RangeRejected offset chunkSize file.length then s.ended (.exited exitFailure)
      else s.goTo (.reading ⟨file, offset, chunkSize, [], 0, 0⟩)
    | none => s.goTo .accepting

/-- After the inner loop or another turn of it. -/
def goOn (s : Server) (t : Transfer) : Server :=
  if t.bytesToSend > 0 then
    if t.inBuffer then s.goTo (.sending t) else s.ended .undefined
  else
    let t := { t with bytesRemaining := t.bytesRemaining-t.buffer.length }
    if t.bytesRemaining > 0 then s.goTo (.reading t) else s.goTo .accepting

/-- `write` in the inner loop. Its -1 is no `size_t` that is `<= 0`. -/
def send (s : Server) (t : Transfer) : WriteResult → Server
  | .sent 0 => s.goTo .accepting
  | .sent n =>
    { s with stream := s.stream ++ (t.buffer.drop t.bytesSentTotal).take n }.goOn (t.wrote n)
  | .failed => s.goOn (t.wrote (2^64-1))
  | .brokenPipe => s.ended .killed

/-- The one `write` of a text; only the signal is not ignored. -/
def answer (s : Server) (text : Bytes) : WriteResult → Server
  | .sent n => { s with stream := s.stream ++ text.take n }.goTo .accepting
  | .failed => s.goTo .accepting
  | .brokenPipe => s.ended .killed

/-- One call; `none` when the process is not in this call or the call cannot give this. -/
def step (s : Server) (c : Call) : Option Server :=
  if s.status = .running then
    match s.place, c with
    | .accepting, .accept ok => some (if ok then { s with stream := [] }.goTo .receiving else s)
    | .receiving, .recv data stale =>
      if (data.getD []).length < bufferSize ∧ stale.length = 10 then some (s.receive data stale)
      else none
    | .answering text, .write result =>
      if result.count ≤ text.length then some (s.answer text result) else none
    | .opening command, .fopen file =>
      some (if file = none then s.goTo (.answering (ascii "ERROR File not found"))
        else s.goTo (.reopening command))
    | .reopening command, .fopen file => some (s.reopen file command)
    | .reading t, .fread n =>
      if n ≤ t.bytesToRead ∧ n ≤ t.file.length-t.pos then
        some (if n = 0 then s.goTo .accepting else s.goTo (.sending (t.read n)))
      else none
    | .sending t, .write result =>
      if result.count ≤ t.bytesToSend then some (s.send t result) else none
    | _, _ => none
  else none

end Server

end NetTools.FTP
