import NetTools.FTPDelivery
import NetTools.TFTPCopies

namespace NetTools

open CText Download

/-- Every call of the thread is defined, and status 0 says that the whole chunk has been received.
-/
structure Download.ThreadEnd.Truthful (size : ℕ) (e : ThreadEnd) : Prop where
  defined : e.status ≠ .undefined
  zero : e.status = .joined 0 ↔ e.copied.flatten.length = size

theorem Download.truthful_of_defined {e : ThreadEnd} (h : e.status ≠ .undefined) (size : ℕ) :
    e.Truthful size ↔ (e.status = .joined 0 ↔ e.copied.flatten.length = size) :=
  ⟨fun ht => ht.zero, fun hzero => ⟨h, hzero⟩⟩

namespace FTP

/-- The results of the calls of `connect` that the connect loop makes. -/
def connectsMade (retries : ℕ) : List Bool → List Bool
  | [] => []
  | true :: _ => [true]
  | false :: rest => if 0 < retries then false :: connectsMade (retries-1) rest else [false]

/-- The thread gives up connecting only when every `connect` has failed. -/
def GivesUpRight (size : ℕ) (calls : Calls) : Prop :=
  (downloadChunk size calls).1 = .unableToConnect → true ∉ connectsMade 3 calls.connects

/-- The thread comes to its receive loop, there `recv` gives no more than is missing, and behind
a chunk that has arrived the return register is 0. A size beyond `ssize_t` is negative: nothing
is received then, and the register must not be 0. -/
structure TellsStatus (size : ℕ) (calls : Calls) : Prop where
  starts : 0 < size → Starts calls
  fits : size < 2^63 → ¬ Overruns size calls.recvs
  stray : Starts calls → size < 2^63 → Arrives size calls.recvs → calls.stray = 0
  negative : 2^63 ≤ size → calls.stray ≠ 0

section

variable {n size : ℕ} {recvs : List Bytes} {calls : Calls}

/-- The status of a thread that reaches the receive loop. -/
theorem truthful_of_loopEnd {result : Exit × List Bytes} (h : LoopEnd n recvs result)
    (stray : ℕ) :
    (ThreadEnd.mk (result.1.status stray) result.2).Truthful n ↔
      ¬ Overruns n recvs ∧ (Arrives n recvs → stray = 0) := by
  rw [truthful_of_defined (status_ne_undefined _ stray)]
  cases h with
  | success harrives hfits hreceived =>
    constructor
    · intro h
      refine ⟨hfits, fun _ => ?_⟩
      have hzero := h.mpr hreceived
      rwa [Exit.status, ThreadStatus.joined.injEq] at hzero
    · rintro ⟨-, hstray⟩
      refine iff_of_true ?_ hreceived
      rw [Exit.status, hstray harrives]
  | moreThanExpected hoverruns hreceived =>
    refine iff_of_false ?_ (fun h => h.1 hoverruns)
    intro h
    exact hreceived.ne' (h.mp rfl)
  | recvFailed hmissing hfits hreceived =>
    refine iff_of_true ?_ ⟨hfits, fun h => absurd h hmissing⟩
    exact iff_of_false (by simp [Exit.status]) hreceived.ne

theorem threadEnd_eq (size : ℕ) (calls : Calls) :
    threadEnd size calls =
      ⟨(downloadChunk size calls).1.status calls.stray, (downloadChunk size calls).2⟩ := rfl

theorem threadEnd_of_not_starts (h : ¬ Starts calls) : threadEnd size calls = ⟨.joined 0, []⟩ := by
  obtain ⟨hstatus, hcopied⟩ := downloadChunk_of_not_starts size h
  rw [threadEnd_eq, hstatus, hcopied]

theorem truthful_iff (hsize : size < 2^64) (calls : Calls) :
    (threadEnd size calls).Truthful size ↔ TellsStatus size calls := by
  by_cases hstarts : Starts calls
  · rw [threadEnd_eq, downloadChunk_of_starts hstarts]
    rcases Nat.lt_or_ge size (2^63) with hsmall | hbig
    · rw [toSSize_natCast hsmall, truthful_of_loopEnd (loopEnd_recvLoop size calls.recvs)]
      constructor
      · rintro ⟨hfits, hstray⟩
        exact ⟨fun _ => hstarts, fun _ => hfits, fun _ _ => hstray, fun h => absurd h (by omega)⟩
      · intro h
        exact ⟨h.fits hsmall, h.stray hstarts hsmall⟩
    · rw [recvLoop_of_nonpos (toSSize_neg hbig hsize).le,
        truthful_of_defined (status_ne_undefined .success calls.stray), Exit.status,
        ThreadStatus.joined.injEq]
      have hne : ([] : List Bytes).flatten.length ≠ size := by
        change 0 ≠ size
        omega
      constructor
      · intro h
        exact ⟨fun _ => hstarts, fun h => absurd h (by omega), fun _ h => absurd h (by omega),
          fun _ hstray => hne (h.mp hstray)⟩
      · intro h
        exact iff_of_false (h.negative hbig) hne
  · rw [threadEnd_of_not_starts hstarts, truthful_of_defined (by simp)]
    constructor
    · intro h
      have hzero : 0 = size := h.mp rfl
      subst hzero
      exact ⟨fun h => absurd h (Nat.lt_irrefl 0), fun _ => not_overruns_zero _,
        fun h => absurd h hstarts, fun h => absurd h (by decide)⟩
    · intro h
      apply iff_of_true rfl
      rcases Nat.eq_zero_or_pos size with hzero | hpos
      · exact hzero.symm
      · exact absurd (h.starts hpos) hstarts

/-- When the first `retries` calls fail, one more is made. -/
theorem connectsMade_of_failed {retries : ℕ} {connects : List Bool}
    (h : true ∉ connects.take retries) :
    connectsMade retries connects = connects.take (retries+1) := by
  induction connects generalizing retries with
  | nil => rfl
  | cons ok rest ih =>
    cases retries with
    | zero => cases ok <;> rfl
    | succ retries =>
      rw [List.take_succ_cons, List.mem_cons, not_or] at h
      cases ok with
      | true => exact absurd rfl h.1
      | false => rw [connectsMade, if_pos (Nat.succ_pos _), Nat.add_sub_cancel, ih h.2,
          List.take_succ_cons]

/-- The call behind `n` failed ones succeeds. -/
theorem take_succ_eq_iff (n : ℕ) (connects : List Bool) :
    true ∉ connects.take n ∧ true ∈ connects.take (n+1) ↔
      connects.take (n+1) = List.replicate n false ++ [true] := by
  induction n generalizing connects with
  | zero => cases connects <;> simp [eq_comm]
  | succ n ih =>
    cases connects with
    | nil => simp
    | cons ok rest =>
      cases ok with
      | true => simp [List.replicate_succ]
      | false => simpa [List.replicate_succ] using ih rest

theorem recvLoop_ne_unableToConnect (remaining : Int) (recvs : List Bytes) :
    (recvLoop remaining recvs).1 ≠ .unableToConnect := by
  induction recvs generalizing remaining with
  | nil =>
    rw [recvLoop]
    split_ifs <;> simp
  | cons data rest ih =>
    rw [recvLoop]
    split_ifs
    · simp
    · simp
    · exact ih _
    · simp

theorem unableToConnect_iff : (downloadChunk size calls).1 = .unableToConnect ↔
    calls.socket = true ∧ true ∉ calls.connects.take 3 := by
  rw [← connectLoop_ne_zero, not_not, downloadChunk]
  split_ifs with hsocket hconn hwrite
  · simp [hsocket]
  · simp [hsocket, hconn]
  · simp [hconn]
  · simp [hconn, recvLoop_ne_unableToConnect]

/-- Only the fourth `connect` succeeds with `retries` at 0. -/
theorem givesUpRight_iff : GivesUpRight size calls ↔
    ¬ (calls.socket = true ∧ calls.connects.take 4 = [false, false, false, true]) := by
  have hlast := take_succ_eq_iff 3 calls.connects
  change _ ↔ calls.connects.take 4 = [false, false, false, true] at hlast
  rw [GivesUpRight, unableToConnect_iff, ← hlast]
  constructor
  · rintro h ⟨hsocket, hfailed, hok⟩
    apply h ⟨hsocket, hfailed⟩
    rw [connectsMade_of_failed hfailed]
    exact hok
  · rintro h ⟨hsocket, hfailed⟩ hok
    rw [connectsMade_of_failed hfailed] at hok
    exact h ⟨hsocket, hfailed, hok⟩

end

end FTP

namespace TFTP

/-- The thread comes to its receive loop with a size that is positive as an `ssize_t`, and there it
acknowledges no datagram without a whole sequence number. -/
structure TellsStatus (size : ℕ) (calls : Calls) : Prop where
  socket : 0 < size → calls.socket = true
  sendRequest : 0 < size → calls.sendRequest = true
  positive : size < 2^63
  whole : ¬ CopiesRunt size calls.turns

namespace Receiver

variable {size : ℕ} {d : Receiver} {r : Turn}

theorem written_length_iff (hd : d.Aligned size) :
    d.written.length = size ↔ d.bytesRemaining = 0 := by
  have hwritten := hd.written
  have hrem := hd.remaining
  omega

/-- No failure inside the loop has status 0. -/
theorem status_of_turn_error {e : Exit} (hd : d.Aligned size) (hrem : 0 < d.bytesRemaining)
    (h : d.turn size r = .error e) : e.status ≠ .joined 0 := by
  rw [turn_eq hd hrem] at h
  split_ifs at h with hsock hempty hack hrunt hle
  · cases h
    exact nofun
  · unfold onTimeout at h
    split_ifs at h
    cases h
    decide
  · cases h
    exact nofun
  · cases h
    exact nofun
  · cases h
    exact nofun

theorem run_status (hd : d.Aligned size) (hrem : 0 ≤ d.bytesRemaining) (turns : List Turn) :
    (d.run size turns).1.status = .joined 0 ↔ (d.run size turns).2.written.length = size := by
  induction turns generalizing d with
  | nil =>
    rw [run]
    split_ifs with hpos
    · apply iff_of_false (by simp [Exit.status])
      rw [written_length_iff hd]
      exact hpos.ne'
    · apply iff_of_true rfl
      rw [written_length_iff hd]
      omega
  | cons r rest ih =>
    rw [run]
    split_ifs with hpos
    · cases hturn : d.turn size r with
      | ok d' =>
        obtain ⟨hd', hrem'⟩ := aligned_turn hd hpos hturn
        exact ih hd' hrem'
      | error e =>
        apply iff_of_false (status_of_turn_error hd hpos hturn)
        rw [written_length_iff hd]
        exact hpos.ne'
    · apply iff_of_true rfl
      rw [written_length_iff hd]
      omega

end Receiver

/-- A thread that receives nothing copies nothing. -/
theorem not_copiesRunt_zero (turns : List Turn) : ¬ CopiesRunt 0 turns := by
  rintro ⟨k, r, -, -, -, -, -, -, hlen⟩
  exact Nat.not_lt_zero _ hlen

/-- In the receive loop a status is wrong only behind a runt. -/
theorem truthful_run {size : ℕ} (hsize : size < 2^63) (turns : List Turn) :
    (ThreadEnd.mk ((Receiver.start size).run size turns).1.status
      ((Receiver.start size).run size turns).2.copied).Truthful size ↔
      ¬ CopiesRunt size turns := by
  have haligned := Receiver.aligned_start hsize
  have hrem : 0 ≤ (Receiver.start size).bytesRemaining := by
    rw [Receiver.start_bytesRemaining hsize]
    exact Int.natCast_nonneg size
  have hrunt : ((Receiver.start size).run size turns).1.status = .undefined ↔
      CopiesRunt size turns := by
    rw [Exit.status_eq_undefined, Receiver.run_undefined_iff haligned, copiesRunt_iff hsize]
  constructor
  · intro h
    exact (not_congr hrunt).mp h.defined
  · intro h
    exact ⟨(not_congr hrunt).mpr h, Receiver.run_status haligned hrem turns⟩

theorem truthful_iff {size : ℕ} (hsize : size < 2^64) (calls : Calls) :
    (threadEnd size calls).Truthful size ↔ TellsStatus size calls := by
  by_cases hstarts : calls.socket = true ∧ calls.sendRequest = true
  · obtain ⟨hsocket, hrequest⟩ := hstarts
    have hstarted : downloadChunk size calls = (Receiver.start size).run size calls.turns := by
      rw [downloadChunk, hsocket, hrequest, if_neg Bool.true_eq_false.mp,
        if_neg Bool.true_eq_false.mp]
    rw [threadEnd, hstarted]
    rcases Nat.lt_or_ge size (2^63) with hsmall | hbig
    · refine (truthful_run hsmall calls.turns).trans ?_
      constructor
      · intro h
        exact ⟨fun _ => hsocket, fun _ => hrequest, hsmall, h⟩
      · intro h
        exact h.whole
    -- a size beyond `ssize_t` is negative, and the loop is not entered
    · refine iff_of_false ?_ (fun h => Nat.not_lt.mpr hbig h.positive)
      have hneg : (Receiver.start size).bytesRemaining ≤ 0 := by
        simp only [Receiver.start]
        exact (toSSize_neg hbig hsize).le
      rw [Receiver.run_of_complete hneg]
      intro h
      have hzero : 0 = size := h.zero.mp rfl
      omega
  -- the exits before the loop leave status 0 and nothing stored
  · have hend : threadEnd size calls = ⟨.joined 0, []⟩ := by
      rw [threadEnd, downloadChunk]
      split_ifs with hsocket hrequest
      · rfl
      · rfl
      · rw [Bool.not_eq_false] at hsocket hrequest
        exact absurd ⟨hsocket, hrequest⟩ hstarts
    rw [hend, truthful_of_defined (by simp)]
    constructor
    · intro h
      have hzero : 0 = size := h.mp rfl
      subst hzero
      exact ⟨fun h => absurd h (Nat.lt_irrefl 0), fun h => absurd h (Nat.lt_irrefl 0), by decide,
        not_copiesRunt_zero _⟩
    · intro h
      apply iff_of_true rfl
      rcases Nat.eq_zero_or_pos size with hzero | hpos
      · exact hzero.symm
      · exact absurd ⟨h.socket hpos, h.sendRequest hpos⟩ hstarts

end TFTP

namespace Download

/-- When the threads of both clients tell the truth: the statuses, and the end of the connect
loop. -/
theorem thread_status_iff {size : ℕ} (hsize : size < 2^64) (ftp : FTP.Calls)
    (tftp : TFTP.Calls) :
    ((FTP.threadEnd size ftp).Truthful size ↔ FTP.TellsStatus size ftp) ∧
      (FTP.GivesUpRight size ftp ↔
        ¬ (ftp.socket = true ∧ ftp.connects.take 4 = [false, false, false, true])) ∧
      ((TFTP.threadEnd size tftp).Truthful size ↔ TFTP.TellsStatus size tftp) :=
  ⟨FTP.truthful_iff hsize ftp, FTP.givesUpRight_iff, TFTP.truthful_iff hsize tftp⟩

/-- Three bytes that arrive, behind two failed calls of `connect` and as one packet. -/
theorem thread_status_three_bytes :
    (FTP.threadEnd 3 ⟨true, [false, false, true], true, [ascii "ab", ascii "c"], 0⟩).Truthful 3 ∧
      FTP.GivesUpRight 3 ⟨true, [false, false, true], true, [ascii "ab", ascii "c"], 0⟩ ∧
      (TFTP.threadEnd 3 ⟨true, true, [⟨true, List.replicate 8 0 ++ ascii "abc", true⟩]⟩).Truthful 3 := by
  have hsize : 3 < 2^64 := by decide
  obtain ⟨hftp, hgives, htftp⟩ := thread_status_iff hsize
    ⟨true, [false, false, true], true, [ascii "ab", ascii "c"], 0⟩
    ⟨true, true, [⟨true, List.replicate 8 0 ++ ascii "abc", true⟩]⟩
  refine ⟨hftp.mpr ?_, hgives.mpr (by decide), htftp.mpr ?_⟩
  · exact ⟨fun _ => ⟨rfl, by decide, rfl⟩, fun _ => FTP.not_overruns_of_length_le (by decide),
      fun _ _ _ => rfl, fun h => absurd h (by decide)⟩
  · refine ⟨fun _ => rfl, fun _ => rfl, by decide, ?_⟩
    rintro ⟨k, r, hk, -, -, hrunt, -⟩
    obtain rfl := List.mem_singleton.mp (List.mem_of_getElem? hk)
    exact absurd hrunt.2 (by decide)

/-- The fourth `connect` of an FTP thread succeeds and the request of a TFTP thread fails: both
end with status 0 and no byte. -/
theorem status_zero_without_data :
    ¬ (FTP.threadEnd 3 ⟨true, [false, false, false, true], true, [ascii "abc"], 0⟩).Truthful 3 ∧
      ¬ FTP.GivesUpRight 3 ⟨true, [false, false, false, true], true, [ascii "abc"], 0⟩ ∧
      ¬ (TFTP.threadEnd 3 ⟨true, false, []⟩).Truthful 3 := by
  refine ⟨?_, ?_, ?_⟩
  · intro h
    exact absurd (h.zero.mp rfl) (by decide)
  · intro h
    exact absurd (h rfl) (by decide)
  · intro h
    exact absurd (h.zero.mp rfl) (by decide)

end Download

end NetTools
