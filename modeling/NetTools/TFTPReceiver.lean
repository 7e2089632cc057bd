import NetTools.TFTPClient

namespace NetTools.TFTP

open CText Download

/-- The payload behind the sequence number. -/
def payloadOf (datagram : Bytes) : Bytes := datagram.drop seqSize

namespace Receiver

/-- The bytes written from `task->output` on. -/
def written (d : Receiver) : Bytes := d.copied.flatten

/-- The loop variables agree: what is written and what remains make up the chunk. -/
structure Aligned (size : ℕ) (d : Receiver) : Prop where
  written : d.outputPtr = d.written.length
  remaining : d.outputPtr+d.bytesRemaining = size

/-- The loop variables after a payload was stored. -/
def stored (d : Receiver) (payload : Bytes) : Receiver :=
  { bytesRemaining := d.bytesRemaining-payload.length
    outputPtr := d.outputPtr+payload.length
    retryCount := 0
    copied := d.copied ++ [payload] }

theorem written_stored (d : Receiver) (payload : Bytes) :
    (d.stored payload).written = d.written ++ payload := by
  simp only [written, stored, List.flatten_append, List.flatten_cons, List.flatten_nil,
    List.append_nil]

theorem Aligned.stored {size : ℕ} {d : Receiver} (h : d.Aligned size) (payload : Bytes) :
    (d.stored payload).Aligned size := by
  constructor
  · rw [written_stored, List.length_append, Receiver.stored, h.written]
    push_cast
    rfl
  · have hr := h.remaining
    dsimp only [Receiver.stored]
    omega

theorem start_bytesRemaining {size : ℕ} (h : size < 2^63) :
    (Receiver.start size).bytesRemaining = size := by
  simp only [Receiver.start, toSSize_natCast h]

theorem aligned_start {size : ℕ} (h : size < 2^63) : (Receiver.start size).Aligned size := by
  constructor
  · rfl
  · rw [start_bytesRemaining h]
    exact Int.zero_add _

/-- With aligned variables the check against the end of the buffer never fails after
the check against the remaining size. -/
theorem storePayload_eq {size : ℕ} {d : Receiver} (h : d.Aligned size) {datagram : Bytes}
    (hlen : seqSize ≤ datagram.length) :
    d.storePayload size datagram =
      if ((payloadOf datagram).length : Int) ≤ d.bytesRemaining then
        .ok (d.stored (payloadOf datagram))
      else .error .moreThanExpected := by
  have hpay : ((payloadOf datagram).length : Int) = datagram.length-seqSize := by
    rw [payloadOf, List.length_drop]
    omega
  have hr := h.remaining
  unfold storePayload
  dsimp only
  rw [← hpay]
  by_cases hle : ((payloadOf datagram).length : Int) ≤ d.bytesRemaining
  · rw [if_neg (by omega), if_neg (by omega), if_neg (by omega), if_pos hle]
    rfl
  · rw [if_pos (by omega), if_neg hle]

/-- A complete chunk ends the loop, and so does a size that is negative. -/
theorem run_of_complete {size : ℕ} {d : Receiver} (h : d.bytesRemaining ≤ 0) (turns : List Turn) :
    d.run size turns = (.success, d) := by
  cases turns <;> rw [run, if_neg (by omega)]

end Receiver

/-- With a socket and the request sent, `download_chunk` is its receive loop. -/
theorem downloadChunk_started (size : ℕ) (turns : List Turn) :
    downloadChunk size ⟨true, true, turns⟩ = (Receiver.start size).run size turns := rfl

end NetTools.TFTP
