import NetTools.TFTPCopies

namespace NetTools.TFTP

open CText Download

/-- A datagram that is acknowledged and holds nothing behind its sequence number, or not even that.
-/
structure Turn.Empty (r : Turn) : Prop where
  setsockopt : r.setsockopt = true
  ackSent : r.ackSent = true
  arrived : 0 < r.datagram.length
  short : r.datagram.length ≤ seqSize

/-- The loop of a chunk of `size` bytes makes at most `n` turns when its calls return `results`:
no turn begins behind `n` others, and none comes to the copy of a runt. -/
def LeavesWithin (size : ℕ) (results : ℕ → Turn) (n : ℕ) : Prop :=
  ∀ k, (Receiver.start size).Receives size ((List.range k).map results) →
    k < n ∧ ¬ ((results k).setsockopt = true ∧ (results k).ackSent = true ∧ (results k).Runt)

namespace Receiver

variable {size : ℕ} {d : Receiver} {r : Turn} {turns : List Turn}

/-- The turns that can still come when each of them makes progress. -/
def potential (d : Receiver) : Int := (maxRetries+1)*d.bytesRemaining-d.retryCount

/-- A turn counts towards the timeouts or brings payload. -/
theorem turn_progress {d' : Receiver} (hretry : d.retryCount ≤ maxRetries) (hr : ¬ r.Empty)
    (h : d.turn size r = .ok d') :
    d'.retryCount ≤ maxRetries ∧ d'.potential+1 ≤ d.potential := by
  have hmax : maxRetries = 5 := rfl
  unfold turn at h
  split_ifs at h with hsock hdata hack
  · -- a timeout
    unfold onTimeout at h
    split_ifs at h with hfull
    cases h
    refine ⟨Nat.le_of_not_gt hfull, ?_⟩
    simp only [potential]
    omega
  -- a datagram gives the retries back, and at least one byte pays for them
  · unfold storePayload at h
    dsimp only at h
    split_ifs at h with hmore hbeyond hwild
    cases h
    have hlen : seqSize < r.datagram.length := by
      by_contra hshort
      exact hr ⟨by simpa using hsock, by simpa using hack, List.length_pos_iff.mpr hdata, by omega⟩
    refine ⟨Nat.zero_le _, ?_⟩
    simp only [potential, hmax]
    omega

/-- Each turn of a run of progress is paid from the potential. -/
theorem head_potential {d' : Receiver} (hretry : d.retryCount ≤ maxRetries)
    (hturns : ∀ r ∈ turns, ¬ r.Empty) (h : d.head size turns = some d') :
    d'.retryCount ≤ maxRetries ∧ d'.potential+turns.length ≤ d.potential := by
  induction turns generalizing d with
  | nil =>
    cases h
    exact ⟨hretry, by simp⟩
  | cons r rest ih =>
    obtain ⟨-, next, hturn, h⟩ := head_cons.mp h
    obtain ⟨hr, hrest⟩ := List.forall_mem_cons.mp hturns
    obtain ⟨hnext, hstep⟩ := turn_progress hretry hr hturn
    obtain ⟨hend, hle⟩ := ih hnext hrest h
    refine ⟨hend, ?_⟩
    rw [List.length_cons]
    omega

/-- A packet without payload changes nothing that the loop waits for. -/
theorem turn_empty (hr : r.Empty) (hlen : r.datagram.length = seqSize)
    (hrem : 0 < d.bytesRemaining) (hout : d.outputPtr ≤ size) :
    ∃ next, d.turn size r = .ok next ∧ next.bytesRemaining = d.bytesRemaining ∧
      next.outputPtr = d.outputPtr := by
  obtain ⟨hsock, hack, harrived, -⟩ := hr
  have hdata : r.datagram ≠ [] := List.length_pos_iff.mp harrived
  have hpayload : (r.datagram.length : Int)-seqSize = 0 := by omega
  rw [turn, hsock, hack, if_neg Bool.true_eq_false.mp, if_neg hdata, if_neg Bool.true_eq_false.mp,
    storePayload, hpayload, if_neg (by omega),
    if_neg (by omega), if_neg (by omega)]
  exact ⟨_, rfl, sub_zero _, add_zero _⟩

theorem receives_empty (hr : r.Empty) (hlen : r.datagram.length = seqSize)
    (hrem : 0 < d.bytesRemaining) (hout : d.outputPtr ≤ size) (k : ℕ) :
    d.Receives size (List.replicate k r) := by
  induction k generalizing d with
  | zero => exact ⟨d, rfl, hrem⟩
  | succ k ih =>
    obtain ⟨next, hturn, hrem', hout'⟩ := turn_empty hr hlen hrem hout
    rw [List.replicate_succ]
    exact receives_cons.mpr ⟨hrem, next, hturn, ih (hrem' ▸ hrem) (hout'.le.trans hout)⟩

end Receiver

theorem bmod_le (n m : ℕ) : Int.bmod n m ≤ n := by
  have hmod : (n : Int)%m ≤ n := by exact_mod_cast Nat.mod_le n m
  rw [Int.bmod_def]
  split_ifs <;> omega

theorem Receiver.bytesRemaining_start (size : ℕ) :
    (Receiver.start size).bytesRemaining = toSSize size := by
  simp only [Receiver.start]

/-- When every datagram brings payload, each byte costs at most as many turns as there are timeouts
in a row. -/
theorem leavesWithin_of_progress (size : ℕ) {results : ℕ → Turn} (h : ∀ k, ¬ (results k).Empty) :
    LeavesWithin size results ((maxRetries+1)*(size+1)) := by
  rintro k ⟨d, hd, hpos⟩
  refine ⟨?_, fun ⟨hsock, hack, hrunt⟩ => h k ⟨hsock, hack, hrunt.1, hrunt.2.le⟩⟩
  have hturns : ∀ r ∈ (List.range k).map results, ¬ r.Empty := by
    intro r hr
    obtain ⟨i, -, rfl⟩ := List.mem_map.mp hr
    exact h i
  have hcount : (Receiver.start size).retryCount = 0 := by simp only [Receiver.start]
  obtain ⟨hretry, hle⟩ := Receiver.head_potential (hcount.trans_le (Nat.zero_le _)) hturns hd
  have hstart : (Receiver.start size).bytesRemaining ≤ size :=
    (Receiver.bytesRemaining_start size).trans_le (bmod_le size (2^64))
  have hmax : maxRetries = 5 := rfl
  rw [List.length_map, List.length_range] at hle
  simp only [Receiver.potential, hmax, hcount] at hle hretry ⊢
  omega

/-- Nothing is waited for when the size is not positive as an `ssize_t`. -/
theorem leavesWithin_of_nothing {size : ℕ} (h : toSSize size ≤ 0) (results : ℕ → Turn) (n : ℕ) :
    LeavesWithin size results n := by
  rw [← Receiver.bytesRemaining_start] at h
  intro k hk
  cases k with
  | zero =>
    obtain ⟨d, hd, hpos⟩ := hk
    obtain rfl := Option.some.inj hd
    exact absurd hpos (Int.not_lt.mpr h)
  | succ k =>
    rw [List.range_succ_eq_map, List.map_cons] at hk
    exact absurd (receives_cons.mp hk).1 (Int.not_lt.mpr h)

/-- With the same short datagram in every turn, a loop that is entered is not left in time. -/
theorem not_leavesWithin_of_empty {size : ℕ} {r : Turn} (hr : r.Empty) (hpos : 0 < toSSize size)
    (n : ℕ) : ¬ LeavesWithin size (fun _ => r) n := by
  intro h
  rw [← Receiver.bytesRemaining_start] at hpos
  rcases hr.short.lt_or_eq with hshort | hlen
  -- the first copy has a negative size
  · exact (h 0 ⟨.start size, rfl, hpos⟩).2 ⟨hr.setsockopt, hr.ackSent, hr.arrived, hshort⟩
  · have hout : (Receiver.start size).outputPtr ≤ size := Int.natCast_nonneg size
    have hn := Receiver.receives_empty hr hlen hpos hout n
    rw [← List.length_range (n := n), ← List.map_const'] at hn
    exact Nat.lt_irrefl _ (h n hn).1

/-- Whatever results are possible, the loop leaves in time in every sequence of them exactly when
none of them is a datagram without payload, or nothing is to be received at all. -/
theorem leavesWithin_iff (size : ℕ) (possible : Turn → Prop) :
    (∀ results : ℕ → Turn, (∀ k, possible (results k)) →
      LeavesWithin size results ((maxRetries+1)*(size+1))) ↔
      toSSize size ≤ 0 ∨ ∀ r, possible r → ¬ r.Empty := by
  constructor
  · -- a possible datagram without payload can come in every turn
    intro h
    by_contra hnot
    rw [not_or, Int.not_le] at hnot
    obtain ⟨hpos, hempty⟩ := hnot
    apply hempty
    intro r hr hrempty
    exact not_leavesWithin_of_empty hrempty hpos _ (h (fun _ => r) fun _ => hr)
  · rintro (hnothing | hprogress) results hresults
    · exact leavesWithin_of_nothing hnothing results _
    · exact leavesWithin_of_progress size fun k => hprogress _ (hresults k)

/-- Eight bytes, over and over, keep the thread in its loop. -/
theorem not_leavesWithin : ¬ ∀ size results,
    LeavesWithin size results ((maxRetries+1)*(size+1)) := by
  intro h
  have hempty : Turn.Empty ⟨true, List.replicate 8 0, true⟩ := ⟨rfl, rfl, by decide, by decide⟩
  exact not_leavesWithin_of_empty hempty (by decide) _ (h 1 fun _ => ⟨true, List.replicate 8 0, true⟩)

end NetTools.TFTP
