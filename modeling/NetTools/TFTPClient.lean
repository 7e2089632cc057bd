import NetTools.TFTPMessages
import NetTools.ChunkPlan

/-! `download_chunk` of `tftp/client.c`: a task sends one GET and copies the payloads
that arrive to its chunk, in the order in which they arrive. -/
namespace NetTools.TFTP

open CText Download

def maxRetries : ℕ := 5

/-- The ways in which `download_chunk` ends. -/
inductive Exit
  | socketFailed
  | requestFailed
  | setsockoptFailed
  | retriesUsedUp
  | ackFailed
  | moreThanExpected
  | beyondBuffer
  | undefinedCopy
  | success
  deriving DecidableEq

/-- The value of `pthread_exit`, or what the end of the whole process leaves; behind a `memcpy` of a
negative size nothing is defined. -/
def Exit.status : Exit → ThreadStatus
  | socketFailed | requestFailed | success => .joined 0
  | retriesUsedUp | ackFailed | moreThanExpected | beyondBuffer => .joined 1
  | setsockoptFailed => .process 1
  | undefinedCopy => .undefined

/-- The variables of the receive loop, `output_ptr` counted from `task->output`, and
the payloads copied there so far. -/
structure Receiver where
  bytesRemaining : Int
  outputPtr : Int
  retryCount : ℕ
  copied : List Bytes

/-- `ssize_t bytes_remaining = task->size`. -/
def Receiver.start (size : ℕ) : Receiver := ⟨toSSize size, 0, 0, []⟩

namespace Receiver

/-- `recvfrom` returned no data. -/
def onTimeout (d : Receiver) : Except Exit Receiver :=
  if d.retryCount+1 > maxRetries then .error .retriesUsedUp
  else .ok { d with retryCount := d.retryCount+1 }

/-- After the ACK: the two checks, then the copy. A datagram without a whole sequence
number makes the size of the copy negative: as a `size_t` it is larger than any object. -/
def storePayload (size : ℕ) (d : Receiver) (datagram : Bytes) : Except Exit Receiver :=
  let payloadSize : Int := datagram.length-seqSize
  if payloadSize > d.bytesRemaining then .error .moreThanExpected
  else if d.outputPtr+payloadSize > size then .error .beyondBuffer
  else if payloadSize < 0 then .error .undefinedCopy
  else .ok
    { bytesRemaining := d.bytesRemaining-payloadSize
      outputPtr := d.outputPtr+payloadSize
      retryCount := 0
      copied := d.copied ++ [datagram.drop seqSize] }

end Receiver

/-- What the calls of one turn of the loop return; no data stands for a result of
`recvfrom` that is not positive. -/
structure Turn where
  setsockopt : Bool
  datagram : Bytes
  ackSent : Bool

namespace Receiver

def turn (size : ℕ) (d : Receiver) (r : Turn) : Except Exit Receiver :=
  if r.setsockopt = false then .error .setsockoptFailed
  else if r.datagram = [] then d.onTimeout
  else if r.ackSent = false then .error .ackFailed
  else d.storePayload size r.datagram

/-- `while (bytes_remaining > 0)`. After the listed turns nothing arrives any more, so
that every further `recvfrom` times out. -/
def run (size : ℕ) (d : Receiver) : List Turn → Exit × Receiver
  | [] => if 0 < d.bytesRemaining then (.retriesUsedUp, d) else (.success, d)
  | r :: rest =>
    if 0 < d.bytesRemaining then
      match d.turn size r with
      | .ok d' => run size d' rest
      | .error e => (e, d)
    else (.success, d)

end Receiver

/-- What all the calls of `download_chunk` return. -/
structure Calls where
  socket : Bool
  sendRequest : Bool
  turns : List Turn

def downloadChunk (size : ℕ) (calls : Calls) : Exit × Receiver :=
  if calls.socket = false then (.socketFailed, .start size)
  else if calls.sendRequest = false then (.requestFailed, .start size)
  else (Receiver.start size).run size calls.turns

def planTasks : ServerInfo → Bytes → ℕ → Int → Option (List DownloadTask) := Download.planTasks

def threadEnd (size : ℕ) (calls : Calls) : ThreadEnd :=
  let (exit, d) := downloadChunk size calls
  ⟨exit.status, d.copied⟩

end NetTools.TFTP
