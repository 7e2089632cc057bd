import NetTools.TFTPTransfer
import NetTools.DownloadContents

namespace NetTools.TFTP

open CText Schedule Download

/-- What the join gets from a thread, once it has ended. -/
def ClientThread.threadEnd (c : ClientThread) : Option ThreadEnd :=
  match c.phase with
  | .ended e => some ⟨e.status, c.receiver.copied⟩
  | _ => none

section

variable {files : Bytes → Option Bytes} {s t : Session}

end

/-- What `main` leaves behind the joins. -/
structure Ends (file : Bytes) (tasks : List DownloadTask) (threads : ℕ → ClientThread)
    (ends : ℕ → ThreadEnd) (outcome : Outcome) : Prop where
  nothing : outcome.outputDat = none ↔
    ∃ i < tasks.length, (threads i).phase = .ended .setsockoptFailed
  packets : ∀ i task, tasks[i]? = some task →
    ∃ k, (ends i).copied.flatten = (slice file task).take (payloadSize*k)
  gaps : ∀ out, outcome.outputDat = some out → LeavesGaps file tasks ends out
  reported : ∀ out, outcome.outputDat = some out → outcome.failed = [] → out = file

/-- A session to its end. -/
def closeSession (a : ℕ) (data : Bytes) : List Action :=
  [.receive a (dataPacket 0 data), .sendAck a, .store a, .finish a]

end NetTools.TFTP
