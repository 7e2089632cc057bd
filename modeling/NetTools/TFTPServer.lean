import NetTools.TFTPMessages

/-! The threads of `tftp/server.c`: the sending loop of `handle_request` and the ACK
queue that they share with the receive loop. -/
namespace NetTools.TFTP

open CText

def maxQueueSize : ℕ := 5

/-- The bytes of the file in one data packet. -/
def payloadSize : ℕ := bufferSize-seqSize

/-- Where a thread is in the `GET` loop: before the next packet, with the queue locked
and about to look for its ACK, or in `pthread_cond_wait`. -/
inductive HandlerPhase
  | sending
  | scanning
  | asleep
  | ended
  deriving DecidableEq

structure Handler where
  file : Bytes
  pos : ℕ
  bytesRemaining : ℕ
  seqNum : ℕ
  payload : Bytes
  phase : HandlerPhase

namespace Handler

/-- The range check and `fseek`; `none` is `exit(EXIT_FAILURE)`. -/
def start (file : Bytes) (offset chunkSize : ℕ) : Option Handler :=
  if offset ≥ file.length ∨ (offset+chunkSize)%2^64 > file.length then none
  else some ⟨file, offset, chunkSize, 0, [], .sending⟩

/-- What `fread` returns for the next packet. -/
def read (h : Handler) : Bytes :=
  (h.file.drop h.pos).take
    (if h.bytesRemaining > payloadSize then payloadSize else h.bytesRemaining)

/-- The loop ends without another packet. -/
def atEnd (h : Handler) : Bool := h.bytesRemaining = 0 || h.read = []

def packet (h : Handler) : Bytes := dataPacket h.seqNum h.read

def sent (h : Handler) : Handler :=
  { h with pos := h.pos+h.read.length, payload := h.read, phase := .scanning }

/-- After the ACK: `payload_size` is what the packet carried. -/
def acked (h : Handler) : Handler :=
  if h.payload.length > h.bytesRemaining then { h with phase := .ended }
  else { h with
    seqNum := h.seqNum+1
    bytesRemaining := h.bytesRemaining-h.payload.length
    phase := .sending }

def wake (h : Handler) : Handler :=
  if h.phase = .asleep then { h with phase := .scanning } else h

end Handler

structure AckPacket where
  seqNum : ℕ
  clientAddr : ℕ
  deriving DecidableEq

/-- The receive loop stores an ACK only while there is room. -/
def enqueueAck (queue : List AckPacket) (ack : AckPacket) : List AckPacket :=
  if queue.length < maxQueueSize then queue ++ [ack] else queue

/-- The scan of a handler: the first matching entry is removed. -/
def takeAck (queue : List AckPacket) (ack : AckPacket) : Option (List AckPacket) :=
  if ack ∈ queue then some (queue.erase ack) else none

/-- The payload of packet `i` of a slice. -/
def payloadAt (s : Bytes) (i : ℕ) : Bytes := (s.drop (payloadSize*i)).take payloadSize

def packetCount (s : Bytes) : ℕ := (s.length+(payloadSize-1))/payloadSize

/-- Packet `i` of a slice. -/
def packetOf (s : Bytes) (i : ℕ) : Bytes := dataPacket i (payloadAt s i)

theorem lt_packetCount {s : Bytes} {i : ℕ} : i < packetCount s ↔ payloadSize*i < s.length := by
  have h : payloadSize = 1016 := rfl
  rw [packetCount, h]
  omega

theorem payloadAt_length (s : Bytes) (i : ℕ) :
    (payloadAt s i).length = min payloadSize (s.length-payloadSize*i) := by
  rw [payloadAt, List.length_take, List.length_drop]

theorem payloadAt_ne_nil {s : Bytes} {i : ℕ} : payloadAt s i ≠ [] ↔ i < packetCount s := by
  have h : payloadSize = 1016 := rfl
  rw [← List.length_pos_iff, payloadAt_length, lt_packetCount]
  omega

/-- Packet by packet the slice is transferred from its beginning. -/
theorem take_succ_payload (s : Bytes) (i : ℕ) :
    s.take (payloadSize*(i+1)) = s.take (payloadSize*i) ++ payloadAt s i := by
  rw [payloadAt, Nat.mul_add, Nat.mul_one, List.take_add]

theorem take_of_packetCount_le {s : Bytes} {i : ℕ} (h : packetCount s ≤ i) :
    s.take (payloadSize*i) = s := by
  apply List.take_of_length_le
  have hlt := mt lt_packetCount.mpr (Nat.not_lt.mpr h)
  omega

namespace Handler

/-- The handler of a slice after `k` acknowledged packets. -/
structure At (file : Bytes) (offset size k : ℕ) (h : Handler) : Prop where
  file : h.file = file
  pos : h.pos = offset+min (payloadSize*k) size
  remaining : h.bytesRemaining = size-payloadSize*k
  seqNum : h.seqNum = k

theorem start_eq {file : Bytes} {offset size : ℕ} (hs : 0 < size)
    (hin : offset+size ≤ file.length) (hf : file.length < 2^63) :
    start file offset size = some ⟨file, offset, size, 0, [], .sending⟩ := by
  have hmod : (offset+size)%2^64 = offset+size := Nat.mod_eq_of_lt (by omega)
  rw [start, if_neg (by omega)]

theorem at_start (file : Bytes) (offset size : ℕ) :
    At file offset size 0 ⟨file, offset, size, 0, [], .sending⟩ := by
  refine ⟨rfl, ?_, ?_, rfl⟩
  · rw [Nat.mul_zero, Nat.zero_min, Nat.add_zero]
  · rw [Nat.mul_zero, Nat.sub_zero]

section At

variable {file : Bytes} {offset size k : ℕ} {h : Handler}

/-- The next read is the payload of packet `k`. -/
theorem At.read (ha : At file offset size k h) :
    h.read = payloadAt ((file.drop offset).take size) k := by
  have hp : payloadSize = 1016 := rfl
  rw [Handler.read, payloadAt, ha.file, ha.pos, ha.remaining, List.drop_take, List.take_take,
    List.drop_drop]
  by_cases hk : payloadSize*k ≤ size
  · rw [Nat.min_eq_left hk]
    congr 1
    split_ifs <;> omega
  · have hzero : size-payloadSize*k = 0 := by omega
    rw [hzero, Nat.min_zero, List.take_zero]
    simp

theorem At.atEnd (ha : At file offset size k h) (hin : offset+size ≤ file.length) :
    h.atEnd = true ↔ packetCount ((file.drop offset).take size) ≤ k := by
  have hne := payloadAt_ne_nil (s := (file.drop offset).take size) (i := k)
  have hlt := lt_packetCount (s := (file.drop offset).take size) (i := k)
  rw [List.length_take, List.length_drop, Nat.min_eq_left (by omega)] at hlt
  rw [Handler.atEnd, ha.read, Bool.or_eq_true, decide_eq_true_eq, decide_eq_true_eq,
    ha.remaining]
  constructor
  · rintro (hrem | hnil)
    · omega
    · exact Nat.not_lt.mp fun hk => hne.mpr hk hnil
  · intro hle
    left
    omega

/-- The ACK of packet `k` moves the handler to packet `k+1`. -/
theorem At.acked (ha : At file offset size k h) (hin : offset+size ≤ file.length) :
    At file offset size (k+1) h.sent.acked ∧ h.sent.acked.phase = .sending := by
  have hread := congrArg List.length (ha.read)
  rw [payloadAt_length, List.length_take, List.length_drop,
    Nat.min_eq_left (a := size) (by omega)] at hread
  have hrem := ha.remaining
  have hpos := ha.pos
  -- the last read is cut at the chunk, so the count does not go below zero
  have hle : ¬ h.sent.payload.length > h.sent.bytesRemaining := by
    change ¬ h.read.length > h.bytesRemaining
    omega
  rw [Handler.acked, if_neg hle]
  refine ⟨⟨ha.file, ?_, ?_, ?_⟩, rfl⟩
  · change h.pos+h.read.length = _
    rw [Nat.mul_add, Nat.mul_one]
    omega
  · change h.bytesRemaining-h.read.length = _
    rw [Nat.mul_add, Nat.mul_one]
    omega
  · exact congrArg (· + 1) ha.seqNum

end At

end Handler

end NetTools.TFTP
