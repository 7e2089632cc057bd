import NetTools.FTPTransfer
import NetTools.ChunkAssembly

/-! A whole download over FTP: the threads of one `ftp/client.c`, the server processes that they
dial, each serving one connection after the other, and the byte streams between them. No call
fails; what a failing call leaves is told elsewhere. -/
namespace NetTools.FTP

open CText Schedule Download
open TFTP (IsFilename)

/-- What is downloaded: `home i` is the server process that thread `i` dials. -/
structure Job where
  filename : Bytes
  file : Bytes
  tasks : List DownloadTask
  home : ℕ → ℕ
  name : IsFilename filename
  noNul : (0 : Byte) ∉ filename
  fits : file.length < 2^63
  tiles : Tiles file.length tasks
  named : ∀ task ∈ tasks, task.filename = filename

/-- How far `download_chunk` is before its receive loop. -/
inductive Stage
  | connecting
  | connected
  | requested
  deriving DecidableEq

/-- A thread and its connection, with the bytes in flight on it; `accepted` and `closed` are what
the server has done with it. -/
structure Thread where
  stage : Stage
  accepted : Bool
  closed : Bool
  toServer : Bytes
  toClient : Bytes
  bytesRemaining : Int
  copied : List Bytes

/-- `serving k` is the thread whose connection server `k` has accepted last; `appends` is what
the threads have stored in `file_data` so far. -/
structure Net where
  servers : ℕ → Server
  serving : ℕ → Option ℕ
  threads : ℕ → Thread
  appends : List (ℕ × Bytes)

/-- The size of chunk `i`, and the slice of the file that it is. -/
def Job.size (job : Job) (i : ℕ) : ℕ := ((job.tasks[i]?).map DownloadTask.size).getD 0

def Job.slice (job : Job) (i : ℕ) : Bytes :=
  ((job.tasks[i]?).map (Download.slice job.file)).getD []

/-- The request of thread `i`. -/
def Job.command (job : Job) (i : ℕ) : Command :=
  .get job.filename (outputOf job.tasks i) (job.size i)

/-- `connect`, `request` and `recv` are calls of a thread, the others of a server: `recvRequest`
takes the whole request, `call` is an `fread` or a `write`. -/
inductive NetAction
  | connect (i : ℕ)
  | request (i : ℕ)
  | recv (i n : ℕ)
  | accept (k i : ℕ)
  | recvRequest (k : ℕ) (stale : Bytes)
  | fopen (k : ℕ)
  | call (k : ℕ) (c : Call)

/-- The file that the process is about to open. -/
def Place.wanted : Place → Option Bytes
  | .opening command | .reopening command => some command.filename
  | _ => none

namespace Net

def start (job : Job) : Net :=
  ⟨fun _ => .start, fun _ => none,
    fun i => ⟨.connecting, false, false, [], [], toSSize (job.size i), []⟩, []⟩

def put (s : Net) (i : ℕ) (th : Thread) : Net :=
  { s with threads := Function.update s.threads i th }

/-- Server `k` goes on to `t` while it serves thread `i`: what it has written is on its way, and
back in `accept` it has closed the connection. -/
def served (s : Net) (k i : ℕ) (t : Server) (th : Thread) : Net :=
  { s with
    servers := Function.update s.servers k t
    serving := Function.update s.serving k (if t.place = .accepting then none else some i)
    threads := Function.update s.threads i
      { th with
        toClient := th.toClient ++ t.stream.drop (s.servers k).stream.length
        closed := t.place = .accepting } }

/-- One successful call of a thread or a server. -/
def step (job : Job) (s : Net) : NetAction → Option Net
  | .connect i =>
    let th := s.threads i
    if i < job.tasks.length ∧ th.stage = .connecting then some (s.put i { th with stage := .connected })
    else none
  | .request i =>
    let th := s.threads i
    if i < job.tasks.length ∧ th.stage = .connected then
      some (s.put i { th with stage := .requested, toServer := (job.command i).request })
    else none
  | .recv i n =>
    let th := s.threads i
    if i < job.tasks.length ∧ th.stage = .requested ∧ 0 < th.bytesRemaining ∧ 0 < n ∧
        n ≤ bufferSize ∧ (n : Int) ≤ th.bytesRemaining ∧ n ≤ th.toClient.length then
      let data := th.toClient.take n
      some { s.put i
          { th with
            toClient := th.toClient.drop n
            bytesRemaining := th.bytesRemaining-n
            copied := th.copied ++ [data] } with
        appends := s.appends ++ [(i, data)] }
    else none
  | .accept k i =>
    let th := s.threads i
    if i < job.tasks.length ∧ job.home i = k ∧ th.stage ≠ .connecting ∧ th.accepted = false ∧
        s.serving k = none then
      ((s.servers k).step (.accept true)).map fun t => s.served k i t { th with accepted := true }
    else none
  | .recvRequest k stale => (s.serving k).bind fun i =>
    let th := s.threads i
    if th.toServer = [] then none
    else ((s.servers k).step (.recv (some th.toServer) stale)).map fun t =>
      s.served k i t { th with toServer := [] }
  | .fopen k => (s.serving k).bind fun i => (s.servers k).place.wanted.bind fun name =>
    ((s.servers k).step (.fopen (if name = job.filename then some job.file else none))).map fun t =>
      s.served k i t (s.threads i)
  | .call k c => (s.serving k).bind fun i =>
    if (s.servers k).Progresses c then
      ((s.servers k).step c).map fun t => s.served k i t (s.threads i)
    else none

/-- Every thread has left its receive loop with `bytes_remaining` at zero. -/
def Finished (job : Job) (s : Net) : Prop :=
  ∀ i < job.tasks.length, (s.threads i).stage = .requested ∧ (s.threads i).bytesRemaining = 0

end Net

/-- A thread and the server that serves it now. -/
structure Session where
  thread : Thread
  server : Option Server

def Net.session (job : Job) (s : Net) (i : ℕ) : Session :=
  ⟨s.threads i, if s.serving (job.home i) = some i then some (s.servers (job.home i)) else none⟩

end NetTools.FTP
