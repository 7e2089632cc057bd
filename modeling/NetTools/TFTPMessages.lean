import NetTools.CText

namespace NetTools.TFTP

open CText

def bufferSize : ℕ := 1024

/-- `sizeof(seq_num)`. -/
def seqSize : ℕ := 8

/-- The bytes that `memcpy` takes from a little-endian integer of `k` bytes. -/
def encodeLE : ℕ → ℕ → Bytes
  | 0, _ => []
  | k+1, n => UInt8.ofNat n :: encodeLE k (n/256)

def decodeLE : Bytes → ℕ
  | [] => 0
  | b :: bs => b.toNat+256*decodeLE bs

/-- The `bytes_read` bytes of the file behind the sequence number. -/
def dataPacket (seqNum : ℕ) (payload : Bytes) : Bytes := encodeLE seqSize seqNum ++ payload

/-- The sequence number that the client reads from its zeroed buffer. -/
def seqNumOf (buffer : Bytes) : ℕ := decodeLE (buffer.take seqSize)

/-- `snprintf(ack_packet, BUFFER_SIZE, "ACK %zu", seq_num)`. -/
def ackPacket (seqNum : ℕ) : Bytes := ascii "ACK " ++ decimal seqNum

/-- `snprintf(request, BUFFER_SIZE, "GET %s %zu %zu", ...)`. -/
def getRequest (filename : Bytes) (offset size : ℕ) : Bytes :=
  (ascii "GET " ++ filename ++ ascii " " ++ decimal offset ++ ascii " " ++ decimal size).take
    (bufferSize-1)

/-- What `sscanf` stores in a `ClientRequest`; the numbers that it does not reach
keep whatever the allocation held. -/
structure Request where
  command : Bytes
  filename : Bytes
  offset : Option ℕ
  chunkSize : Option ℕ
  deriving DecidableEq

/-- `%<width>s`. -/
def scanWidth (width : ℕ) (s : Bytes) : Option (Bytes × Bytes) :=
  let r := s.dropWhile isSpace
  let token := (r.takeWhile fun b => !isSpace b).take width
  if token = [] then none else some (token, r.drop token.length)

/-- `sscanf(buffer, "%9s %255s %zu %zu", ...)`, which must store two fields. -/
def scanRequest (buffer : Bytes) : Option Request := do
  let (command, rest) ← scanWidth 9 buffer
  let (filename, rest) ← scanWidth 255 rest
  let offset := scanSize rest
  return ⟨command, filename, offset.map Prod.fst, (offset.bind fun o => scanSize o.2).map Prod.fst⟩

/-- The range check of a `GET`, as both file servers make it; the sum wraps as a `size_t`. -/
def RangeRejected (offset chunkSize fileSize : ℕ) : Prop :=
  offset ≥ fileSize ∨ (offset+chunkSize)%2^64 > fileSize

instance (offset chunkSize fileSize : ℕ) : Decidable (RangeRejected offset chunkSize fileSize) :=
  inferInstanceAs (Decidable (offset ≥ fileSize ∨ (offset+chunkSize)%2^64 > fileSize))

/-- How the receive loop routes a datagram. -/
inductive Incoming
  | ack (seqNum : Option ℕ)
  | request (request : Request)
  | malformed
  deriving DecidableEq

/-- The receive loop on one datagram: an ACK goes to the queue, anything else is a
request. `none` is an ACK whose number is never stored. -/
def route (datagram : Bytes) : Incoming :=
  let buffer := datagram.takeWhile fun b => b ≠ 0
  if startsWith buffer (ascii "ACK") then .ack ((scanSize (buffer.drop 4)).map Prod.fst)
  else match scanRequest buffer with
    | some request => .request request
    | none => .malformed

theorem decodeLE_encodeLE (k n : ℕ) : decodeLE (encodeLE k n) = n%256^k := by
  induction k generalizing n with
  | zero => simp [encodeLE, decodeLE, Nat.mod_one]
  | succ k ih =>
    have hlow : (UInt8.ofNat n).toNat = n%256 := UInt8.toNat_ofNat'
    rw [encodeLE, decodeLE, ih, hlow, Nat.pow_succ, Nat.mul_comm (256^k) 256, Nat.mod_mul]

@[simp] theorem encodeLE_length (k n : ℕ) : (encodeLE k n).length = k := by
  induction k generalizing n with
  | zero => rfl
  | succ k ih => rw [encodeLE, List.length_cons, ih]

@[simp] theorem dataPacket_length (seqNum : ℕ) (payload : Bytes) :
    (dataPacket seqNum payload).length = seqSize+payload.length := by
  rw [dataPacket, List.length_append, encodeLE_length]

@[simp] theorem dataPacket_drop (seqNum : ℕ) (payload : Bytes) :
    (dataPacket seqNum payload).drop seqSize = payload :=
  List.drop_left' (encodeLE_length _ _)

/-- The client reads the sequence number that the server wrote. -/
theorem seqNumOf_dataPacket {seqNum : ℕ} (h : seqNum < 2^64) (payload : Bytes) :
    seqNumOf (dataPacket seqNum payload) = seqNum := by
  rw [seqNumOf, dataPacket, List.take_left' (encodeLE_length _ _), decodeLE_encodeLE]
  exact Nat.mod_eq_of_lt h

theorem takeWhile_ne_zero_decimal (n : ℕ) :
    (decimal n).takeWhile (fun b => b ≠ 0) = decimal n :=
  takeWhile_ne_zero (zero_notMem_decimal n)

/-- The server reads the sequence number that the client acknowledged. -/
theorem route_ackPacket {seqNum : ℕ} (h : seqNum < 2^64) :
    route (ackPacket seqNum) = .ack (some seqNum) := by
  have htext : (ackPacket seqNum).takeWhile (fun b => b ≠ 0) = ackPacket seqNum := by
    rw [ackPacket, List.takeWhile_append_of_pos (by decide), takeWhile_ne_zero_decimal]
  have hdrop : (ackPacket seqNum).drop 4 = decimal seqNum := List.drop_left' rfl
  have hscan := scanSize_decimal h [] (by simp)
  rw [List.append_nil] at hscan
  have hack : startsWith (ackPacket seqNum) (ascii "ACK") = true := rfl
  simp only [route, htext, hack, ↓reduceIte, hdrop, hscan, Option.map_some]

end NetTools.TFTP
