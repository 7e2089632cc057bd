import NetTools.TFTPDelivery

namespace NetTools.TFTP

open CText Download

namespace Receiver

/-- The loop variables before the turn that follows; `none` when the loop has been left. -/
def head (size : ℕ) (d : Receiver) : List Turn → Option Receiver
  | [] => some d
  | r :: rest =>
    if 0 < d.bytesRemaining then
      match d.turn size r with
      | .ok d' => head size d' rest
      | .error _ => none
    else none

/-- The third argument of the `memcpy` of a turn, when the turn comes to it. -/
def copyLength (size : ℕ) (d : Receiver) (r : Turn) : Option ℕ :=
  let payloadSize : Int := r.datagram.length-seqSize
  if r.setsockopt = false ∨ r.datagram = [] ∨ r.ackSent = false then none
  else if payloadSize > d.bytesRemaining ∨ d.outputPtr+payloadSize > size then none
  else some (toSizeT payloadSize)

end Receiver

/-- In every turn that begins the two cursors agree, and what is copied is part of the datagram and
of the rest of the chunk. -/
structure CopiesInChunk (size : ℕ) (turns : List Turn) : Prop where
  cursors : ∀ k d, (Receiver.start size).head size (turns.take k) = some d →
    d.outputPtr+d.bytesRemaining = size
  copies : ∀ k d r n, (Receiver.start size).head size (turns.take k) = some d →
    turns[k]? = some r → 0 < d.bytesRemaining → d.copyLength size r = some n →
      (n : Int) ≤ r.datagram.length-seqSize ∧ n ≤ d.bytesRemaining ∧
        0 ≤ d.outputPtr ∧ d.outputPtr+n ≤ size

/-- A datagram without a whole sequence number. -/
def Turn.Runt (r : Turn) : Prop := 0 < r.datagram.length ∧ r.datagram.length < seqSize

/-- The thread acknowledges a runt while it still receives: every call before it succeeds, no six
timeouts follow each other, and fewer than `size` bytes of payload have come, none with a runt. -/
def CopiesRunt (size : ℕ) (turns : List Turn) : Prop :=
  ∃ k r, turns[k]? = some r ∧ r.setsockopt = true ∧ r.ackSent = true ∧ r.Runt ∧
    Undisturbed (turns.take k) ∧ (∀ t ∈ turns.take k, ¬ t.Runt) ∧
    (payloads (turns.take k)).length < size

namespace Receiver

variable {size : ℕ} {d : Receiver} {r : Turn} {turns : List Turn}

theorem head_cons {d' : Receiver} :
    d.head size (r :: turns) = some d' ↔
      0 < d.bytesRemaining ∧ ∃ next, d.turn size r = .ok next ∧ next.head size turns = some d' := by
  rw [head, Option.ite_none_right_eq_some]
  cases d.turn size r <;> simp

/-- One turn of a loop that still receives, for any datagram. -/
theorem turn_eq (hd : d.Aligned size) (hrem : 0 < d.bytesRemaining) :
    d.turn size r =
      if r.setsockopt = false then .error .setsockoptFailed
      else if r.datagram = [] then d.onTimeout
      else if r.ackSent = false then .error .ackFailed
      else if r.datagram.length < seqSize then .error .undefinedCopy
      else if ((payloadOf r.datagram).length : Int) ≤ d.bytesRemaining then
        .ok (d.stored (payloadOf r.datagram))
      else .error .moreThanExpected := by
  have hr := hd.remaining
  unfold turn
  split_ifs with hsock hempty hack hrunt hle
  · rfl
  · rfl
  · rfl
  · unfold storePayload
    dsimp only
    rw [if_neg (by omega), if_neg (by omega), if_pos (by omega)]
  · rw [storePayload_eq hd (by omega), if_pos hle]
  · rw [storePayload_eq hd (by omega), if_neg hle]

/-- A turn comes to a copy of negative size with an acknowledged runt. -/
theorem turn_undefined_iff (hd : d.Aligned size) (hrem : 0 < d.bytesRemaining) :
    d.turn size r = .error .undefinedCopy ↔ r.setsockopt = true ∧ r.ackSent = true ∧ r.Runt := by
  rw [turn_eq hd hrem, Turn.Runt, List.length_pos_iff]
  split_ifs with hsock hempty hack hrunt hle
  · simp [hsock]
  · unfold onTimeout
    split_ifs <;> simp [hempty]
  · simp [hack]
  · simp [hsock, hempty, hack, hrunt]
  · simp [hrunt]
  · simp [hrunt]

/-- The `memcpy` of a turn stores the payload, or its size is negative. -/
theorem turn_of_copyLength {n : ℕ} (hd : d.Aligned size) (hrem : 0 < d.bytesRemaining)
    (h : d.copyLength size r = some n) :
    d.turn size r =
      if r.datagram.length < seqSize then .error .undefinedCopy
      else .ok (d.stored (payloadOf r.datagram)) := by
  simp only [copyLength, Option.ite_none_left_eq_some, not_or, Bool.not_eq_false] at h
  obtain ⟨⟨hsock, hdata, hack⟩, ⟨hle, -⟩, -⟩ := h
  rw [turn_eq hd hrem, hsock, hack, if_neg Bool.true_eq_false.mp, if_neg hdata,
    if_neg Bool.true_eq_false.mp]
  split_ifs with hrunt hmore
  · rfl
  · rfl
  · rw [payloadOf, List.length_drop] at hmore
    omega

/-- Without the `memcpy` a turn stores nothing. -/
theorem copied_of_copyLength {d' : Receiver} (hd : d.Aligned size) (hrem : 0 < d.bytesRemaining)
    (h : d.copyLength size r = none) (hturn : d.turn size r = .ok d') :
    d'.copied = d.copied := by
  rw [turn_eq hd hrem] at hturn
  split_ifs at hturn with hsock hempty hack hrunt hle
  · unfold onTimeout at hturn
    split_ifs at hturn
    cases hturn
    rfl
  · -- every check is passed, so the `memcpy` is reached
    have hr := hd.remaining
    rw [payloadOf, List.length_drop] at hle
    have hreached : ¬ (r.setsockopt = false ∨ r.datagram = [] ∨ r.ackSent = false) := by tauto
    have hfits : ¬ ((r.datagram.length : Int)-seqSize > d.bytesRemaining ∨
        d.outputPtr+((r.datagram.length : Int)-seqSize) > size) := by omega
    rw [copyLength, if_neg hreached, if_neg hfits] at h
    cases h

/-- A turn keeps the cursors together. -/
theorem aligned_turn {d' : Receiver} (hd : d.Aligned size) (hrem : 0 < d.bytesRemaining)
    (h : d.turn size r = .ok d') : d'.Aligned size ∧ 0 ≤ d'.bytesRemaining := by
  rw [turn_eq hd hrem] at h
  split_ifs at h with hsock hempty hack hrunt hle
  · unfold onTimeout at h
    split_ifs at h
    cases h
    exact ⟨⟨hd.written, hd.remaining⟩, hrem.le⟩
  · cases h
    refine ⟨hd.stored _, ?_⟩
    change 0 ≤ d.bytesRemaining-(payloadOf r.datagram).length
    omega

theorem aligned_head {d' : Receiver} (hd : d.Aligned size) (hrem : 0 ≤ d.bytesRemaining)
    (h : d.head size turns = some d') : d'.Aligned size ∧ 0 ≤ d'.bytesRemaining := by
  induction turns generalizing d with
  | nil =>
    cases h
    exact ⟨hd, hrem⟩
  | cons r rest ih =>
    obtain ⟨hpos, next, hturn, h⟩ := head_cons.mp h
    obtain ⟨hnext, hnext'⟩ := aligned_turn hd hpos hturn
    exact ih hnext hnext' h

end Receiver

theorem not_runt_of_empty {r : Turn} (h : r.datagram = []) : ¬ r.Runt := by
  rw [Turn.Runt, h]
  exact fun hr => Nat.lt_irrefl 0 hr.1

/-- The thread is not yet done with its chunk behind `turns`. -/
def Receiver.Receives (size : ℕ) (d : Receiver) (turns : List Turn) : Prop :=
  ∃ d', d.head size turns = some d' ∧ 0 < d'.bytesRemaining

/-- Nothing ends the loop within `turns`, `n` timeouts after the last packet and with `m` bytes to
come. -/
structure Clear (n m : ℕ) (turns : List Turn) : Prop where
  undisturbed : Undisturbed (List.replicate n idle ++ turns)
  whole : ∀ t ∈ turns, ¬ t.Runt
  missing : (payloads turns).length < m

section Cons

variable {size n m : ℕ} {d : Receiver} {r : Turn} {turns : List Turn}

theorem receives_cons : d.Receives size (r :: turns) ↔
    0 < d.bytesRemaining ∧ ∃ next, d.turn size r = .ok next ∧ next.Receives size turns := by
  constructor
  · rintro ⟨d', h, hpos⟩
    obtain ⟨hrem, next, hturn, h⟩ := Receiver.head_cons.mp h
    exact ⟨hrem, next, hturn, d', h, hpos⟩
  · rintro ⟨hrem, next, hturn, d', h, hpos⟩
    exact ⟨d', Receiver.head_cons.mpr ⟨hrem, next, hturn, h⟩, hpos⟩

/-- A timeout is counted, up to the sixth. -/
theorem receives_cons_idle (turns : List Turn) (hd : d.Aligned size) (hpos : 0 < d.bytesRemaining)
    (hn : d.retryCount ≤ maxRetries) (ht : r.datagram = []) :
    d.Receives size (r :: turns) ↔ r.setsockopt = true ∧ d.retryCount ≠ maxRetries ∧
      Receiver.Receives size { d with retryCount := d.retryCount+1 } turns := by
  rw [receives_cons, and_iff_right hpos, Receiver.turn_eq hd hpos, if_pos ht, Receiver.onTimeout]
  cases r.setsockopt with
  | false => simp
  | true =>
    rw [if_neg Bool.true_eq_false.mp, and_iff_right rfl]
    by_cases hfull : d.retryCount = maxRetries
    · rw [if_pos (by omega)]
      simp [hfull]
    · rw [if_neg (by omega)]
      simp [hfull]

/-- A packet is stored unless it is a runt or too long. -/
theorem receives_cons_packet (turns : List Turn) (hd : d.Aligned size)
    (hpos : 0 < d.bytesRemaining) (ht : r.datagram ≠ []) :
    d.Receives size (r :: turns) ↔ r.setsockopt = true ∧ r.ackSent = true ∧ ¬ r.Runt ∧
      ((payloadOf r.datagram).length : Int) ≤ d.bytesRemaining ∧
      (d.stored (payloadOf r.datagram)).Receives size turns := by
  have hlong := List.length_pos_iff.mpr ht
  have hrunt : r.Runt ↔ r.datagram.length < seqSize := and_iff_right hlong
  rw [receives_cons, and_iff_right hpos, Receiver.turn_eq hd hpos, if_neg ht, hrunt]
  cases r.setsockopt with
  | false => simp
  | true =>
    cases r.ackSent with
    | false => simp
    | true =>
      rw [if_neg Bool.true_eq_false.mp, if_neg Bool.true_eq_false.mp, and_iff_right rfl,
        and_iff_right rfl]
      by_cases hshort : r.datagram.length < seqSize
      · rw [if_pos hshort]
        simp [hshort]
      · rw [if_neg hshort, and_iff_right hshort]
        by_cases hle : ((payloadOf r.datagram).length : Int) ≤ d.bytesRemaining
        · rw [if_pos hle, and_iff_right hle]
          simp
        · rw [if_neg hle]
          simp [hle]

theorem clear_cons_idle (turns : List Turn) (ht : r.datagram = []) :
    Clear n m (r :: turns) ↔ r.setsockopt = true ∧ Clear (n+1) m turns := by
  have hpay := payloads_cons_idle ht turns
  constructor
  · intro h
    obtain ⟨hsock, hu⟩ := (undisturbed_cons_idle ht turns).mp h.undisturbed
    exact ⟨hsock, hu, fun t htt => h.whole t (List.mem_cons_of_mem r htt), hpay ▸ h.missing⟩
  · rintro ⟨hsock, h⟩
    refine ⟨(undisturbed_cons_idle ht turns).mpr ⟨hsock, h.undisturbed⟩, ?_, hpay.symm ▸ h.missing⟩
    intro t htt
    rcases List.mem_cons.mp htt with rfl | htt
    · exact not_runt_of_empty ht
    · exact h.whole t htt

theorem clear_cons_packet (turns : List Turn) (hn : n ≤ maxRetries) (ht : r.datagram ≠ []) :
    Clear n m (r :: turns) ↔ r.setsockopt = true ∧ r.ackSent = true ∧ ¬ r.Runt ∧
      Clear 0 (m-(payloadOf r.datagram).length) turns := by
  have hpay := congrArg List.length (payloads_cons r turns)
  rw [List.length_append] at hpay
  constructor
  · intro h
    obtain ⟨hsock, hack, hu⟩ := (undisturbed_cons_packet hn ht turns).mp h.undisturbed
    have hmissing := h.missing
    refine ⟨hsock, hack, h.whole r List.mem_cons_self, hu, ?_, by omega⟩
    intro t htt
    exact h.whole t (List.mem_cons_of_mem r htt)
  · rintro ⟨hsock, hack, hrunt, h⟩
    have hmissing := h.missing
    refine ⟨(undisturbed_cons_packet hn ht turns).mpr ⟨hsock, hack, h.undisturbed⟩, ?_, by omega⟩
    intro t htt
    rcases List.mem_cons.mp htt with rfl | htt
    · exact hrunt
    · exact h.whole t htt

/-- The count of timeouts is used up. -/
theorem not_clear_full : ¬ Clear (maxRetries+1) m turns := by
  intro h
  exact not_undisturbed_idle _ h.undisturbed

end Cons

/-- The loop still receives behind `turns` exactly when nothing in them has ended it. -/
theorem receives_iff {size : ℕ} {d : Receiver} (turns : List Turn) {m : ℕ} (hd : d.Aligned size)
    (hm : d.bytesRemaining = m) (hn : d.retryCount ≤ maxRetries) :
    d.Receives size turns ↔ Clear d.retryCount m turns := by
  induction turns generalizing d m with
  | nil =>
    constructor
    · rintro ⟨d', ⟨⟩, hpos⟩
      refine ⟨?_, by simp, ?_⟩
      · rw [List.append_nil]
        exact undisturbed_idle hn
      · rw [hm] at hpos
        exact Int.natCast_pos.mp hpos
    · intro h
      refine ⟨d, rfl, ?_⟩
      rw [hm]
      exact Int.natCast_pos.mpr h.missing
  | cons r rest ih =>
    by_cases hpos : 0 < d.bytesRemaining
    · by_cases ht : r.datagram = []
      -- a timeout takes one of the retries that are left
      · rw [receives_cons_idle rest hd hpos hn ht, clear_cons_idle rest ht]
        apply and_congr_right
        intro _
        by_cases hfull : d.retryCount = maxRetries
        · rw [hfull]
          exact iff_of_false (fun h => h.1 rfl) not_clear_full
        · have hnext := ih (d := { d with retryCount := d.retryCount+1 }) (m := m)
            ⟨hd.written, hd.remaining⟩ hm (by change d.retryCount+1 ≤ maxRetries; omega)
          exact (and_iff_right hfull).trans hnext
      -- a packet gives them back and brings its payload
      · rw [receives_cons_packet rest hd hpos ht, clear_cons_packet rest hn ht]
        refine and_congr_right fun _ => and_congr_right fun _ => and_congr_right fun _ => ?_
        by_cases hle : ((payloadOf r.datagram).length : Int) ≤ d.bytesRemaining
        · have hm' : (d.stored (payloadOf r.datagram)).bytesRemaining =
              (m-(payloadOf r.datagram).length : ℕ) := by
            change d.bytesRemaining-(payloadOf r.datagram).length = _
            omega
          exact (and_iff_right hle).trans (ih (hd.stored _) hm' (Nat.zero_le _))
        · apply iff_of_false (fun h => hle h.1)
          intro h
          have hmissing := h.missing
          omega
    · constructor
      · intro h
        exact absurd (receives_cons.mp h).1 hpos
      · intro h
        have hmissing := h.missing
        omega

/-- The loop ends in a copy of negative size exactly when an acknowledged runt finds it receiving.
-/
theorem Receiver.run_undefined_iff {size : ℕ} {d : Receiver} (hd : d.Aligned size)
    (turns : List Turn) : (d.run size turns).1 = .undefinedCopy ↔
      ∃ k r, turns[k]? = some r ∧ r.setsockopt = true ∧ r.ackSent = true ∧ r.Runt ∧
        d.Receives size (turns.take k) := by
  induction turns generalizing d with
  | nil =>
    rw [run]
    split_ifs <;> simp
  | cons r rest ih =>
    rw [run]
    split_ifs with hpos
    · have hhere := turn_undefined_iff (r := r) hd hpos
      cases hturn : d.turn size r with
      | error e =>
        constructor
        · rintro rfl
          obtain ⟨hsock, hack, hrunt⟩ := hhere.mp hturn
          exact ⟨0, r, rfl, hsock, hack, hrunt, d, rfl, hpos⟩
        · rintro ⟨k, t, hk, hsock, hack, hrunt, hreceives⟩
          cases k with
          | zero =>
            obtain rfl := Option.some.inj hk
            exact Except.error.inj (hturn.symm.trans (hhere.mpr ⟨hsock, hack, hrunt⟩))
          | succ k =>
            -- the loop has ended in the first turn
            obtain ⟨-, next, hnext, -⟩ := receives_cons.mp hreceives
            rw [hturn] at hnext
            cases hnext
      | ok next =>
        refine (ih (aligned_turn hd hpos hturn).1).trans ?_
        constructor
        · rintro ⟨k, t, hk, hsock, hack, hrunt, hreceives⟩
          exact ⟨k+1, t, hk, hsock, hack, hrunt, receives_cons.mpr ⟨hpos, next, hturn, hreceives⟩⟩
        · rintro ⟨k, t, hk, hsock, hack, hrunt, hreceives⟩
          cases k with
          | zero =>
            obtain rfl := Option.some.inj hk
            rw [hhere.mpr ⟨hsock, hack, hrunt⟩] at hturn
            cases hturn
          | succ k =>
            obtain ⟨-, next', hnext, hreceives⟩ := receives_cons.mp hreceives
            obtain rfl := Except.ok.inj (hturn.symm.trans hnext)
            exact ⟨k, t, hk, hsock, hack, hrunt, hreceives⟩
    · refine iff_of_false (by simp) ?_
      rintro ⟨k, t, -, -, -, -, d', hd', hpos'⟩
      cases k with
      | zero =>
        obtain rfl := Option.some.inj hd'
        exact hpos hpos'
      | succ k => exact hpos (Receiver.head_cons.mp hd').1

theorem Exit.status_eq_undefined {e : Exit} : e.status = .undefined ↔ e = .undefinedCopy := by
  cases e <;> simp [Exit.status]

/-- Without runts every call of a thread is defined. -/
theorem threadEnd_defined {size : ℕ} {calls : Calls} (hsize : size < 2^63)
    (h : ∀ r ∈ calls.turns, ¬ r.Runt) : (threadEnd size calls).status ≠ .undefined := by
  rw [threadEnd]
  change (downloadChunk size calls).1.status ≠ .undefined
  rw [ne_eq, Exit.status_eq_undefined, downloadChunk]
  split_ifs with hsocket hrequest
  · nofun
  · nofun
  · rw [Receiver.run_undefined_iff (Receiver.aligned_start hsize)]
    rintro ⟨k, r, hk, -, -, hrunt, -⟩
    exact h r (List.mem_of_getElem? hk) hrunt

/-- The thread acknowledges a runt while it still receives: the same of the loop. -/
theorem copiesRunt_iff {size : ℕ} (hsize : size < 2^63) (turns : List Turn) :
    CopiesRunt size turns ↔ ∃ k r, turns[k]? = some r ∧ r.setsockopt = true ∧ r.ackSent = true ∧
      r.Runt ∧ (Receiver.start size).Receives size (turns.take k) := by
  have hreceives (k : ℕ) := receives_iff (turns.take k) (Receiver.aligned_start hsize)
    (Receiver.start_bytesRemaining hsize) (Nat.zero_le _)
  constructor
  · rintro ⟨k, r, hk, hsock, hack, hrunt, hu, hwhole, hlen⟩
    exact ⟨k, r, hk, hsock, hack, hrunt, (hreceives k).mpr ⟨hu, hwhole, hlen⟩⟩
  · rintro ⟨k, r, hk, hsock, hack, hrunt, h⟩
    obtain ⟨hu, hwhole, hlen⟩ := (hreceives k).mp h
    exact ⟨k, r, hk, hsock, hack, hrunt, hu, hwhole, hlen⟩

/-- The copies of a thread stay in its chunk exactly when it acknowledges no runt while it still
receives. -/
theorem copies_in_chunk_iff {size : ℕ} (hsize : size < 2^63) (turns : List Turn) :
    CopiesInChunk size turns ↔ ¬ CopiesRunt size turns := by
  have hd := Receiver.aligned_start hsize
  have hrem := Receiver.start_bytesRemaining hsize
  rw [copiesRunt_iff hsize]
  constructor
  · rintro h ⟨k, r, hk, hsock, hack, hrunt, d, hdk, hpos⟩
    have hcopy : d.copyLength size r = some (toSizeT (r.datagram.length-seqSize)) := by
      have hreached : ¬ (r.setsockopt = false ∨ r.datagram = [] ∨ r.ackSent = false) := by
        rw [hsock, hack, ← List.length_eq_zero_iff]
        simp [hrunt.1.ne']
      have hr := (Receiver.aligned_head hd (by omega) hdk).1.remaining
      have hshort := hrunt.2
      rw [Receiver.copyLength, if_neg hreached, if_neg (by omega)]
    have hlong := (h.copies k d r _ hdk hk hpos hcopy).1
    have hshort := hrunt.2
    omega
  · intro h
    refine ⟨?_, ?_⟩
    · intro k d hdk
      exact (Receiver.aligned_head hd (by omega) hdk).1.remaining
    · intro k d r n hdk hk hpos hcopy
      obtain ⟨haligned, -⟩ := Receiver.aligned_head hd (by omega) hdk
      have hr := haligned.remaining
      have hw := haligned.written
      simp only [Receiver.copyLength, Option.ite_none_left_eq_some, not_or, Bool.not_eq_false,
        Option.some.injEq] at hcopy
      obtain ⟨⟨hsock, hdata, hack⟩, ⟨hle, hfits⟩, rfl⟩ := hcopy
      have hlong := List.length_pos_iff.mpr hdata
      -- a runt here would be acknowledged
      have hwhole : seqSize ≤ r.datagram.length := by
        by_contra hrunt
        exact h ⟨k, r, hk, hsock, hack, ⟨hlong, by omega⟩, d, hdk, hpos⟩
      have hcast : ((r.datagram.length : Int)-seqSize) = (r.datagram.length-seqSize : ℕ) := by omega
      rw [hcast, toSizeT_natCast (by omega)]
      omega

/-- A chunk of three bytes in one packet. -/
theorem copies_in_chunk_iff_packet : CopiesInChunk 3 [⟨true, dataPacket 0 (ascii "abc"), true⟩] := by
  apply (copies_in_chunk_iff (by decide) _).mpr
  rintro ⟨k, r, hk, -, -, hrunt, -⟩
  cases k with
  | zero =>
    cases hk
    exact absurd hrunt.2 (by decide)
  | succ k => cases hk

/-- The copy of a datagram of four bytes takes its size for one below `2^64`. -/
theorem runt_copied_outside :
    (Receiver.start 10).copyLength 10 ⟨true, ascii "abcd", true⟩ = some (2^64-4) ∧
      ¬ CopiesInChunk 10 [⟨true, ascii "abcd", true⟩] := by
  refine ⟨by decide, fun h => ?_⟩
  have hcopy := h.copies 0 (.start 10) ⟨true, ascii "abcd", true⟩ (2^64-4) rfl rfl (by decide)
    (by decide)
  exact absurd hcopy.1 (by decide)

end NetTools.TFTP
