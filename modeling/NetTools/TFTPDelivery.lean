import NetTools.TFTPReceiver
import Mathlib.Data.List.Infix

namespace NetTools.TFTP

open Download

/-- What the turns bring, in order. -/
def payloads (turns : List Turn) : Bytes := turns.flatMap fun r => payloadOf r.datagram

/-- No call fails, every packet is acknowledged, and no six timeouts follow each other. -/
structure Undisturbed (turns : List Turn) : Prop where
  calls : ∀ r ∈ turns, r.setsockopt = true ∧ (r.datagram ≠ [] → r.ackSent = true)
  timeouts : ¬ List.replicate (maxRetries+1) true <:+: turns.map fun r => r.datagram.isEmpty

/-- The packets of the turns carry the beginning of the chunk. -/
structure FromServer (s : Bytes) (turns : List Turn) : Prop where
  packet : ∀ r ∈ turns, r.datagram ≠ [] → seqSize < r.datagram.length
  order : payloads turns <+: s

/-- The chunk arrives. -/
structure Delivers (size : ℕ) (calls : Calls) : Prop where
  socket : calls.socket = true
  sendRequest : calls.sendRequest = true
  data : ∃ k, Undisturbed (calls.turns.take k) ∧ (payloads (calls.turns.take k)).length = size

/-- `setsockopt` fails while the thread still receives. -/
structure EndsProcess (size : ℕ) (calls : Calls) : Prop where
  socket : calls.socket = true
  sendRequest : calls.sendRequest = true
  setsockopt : ∃ k t, calls.turns[k]? = some t ∧ t.setsockopt = false ∧
    Undisturbed (calls.turns.take k) ∧ (payloads (calls.turns.take k)).length < size

/-- A turn in which nothing arrives; `n` of them stand for `retry_count == n`. -/
def idle : Turn := ⟨true, [], true⟩

theorem infix_append_cons {α : Type*} {xs a c : List α} {b : α} (hb : b ∉ xs)
    (h : xs <:+: a ++ b :: c) : xs <:+: a ∨ xs <:+: c := by
  obtain ⟨s, t, h⟩ := h
  rcases List.append_eq_append_iff.mp h with ⟨a', ha, -⟩ | ⟨c', hc, ht⟩
  · exact Or.inl ⟨s, a', ha.symm⟩
  · rcases List.append_eq_append_iff.mp hc with ⟨s', hs', hxs⟩ | ⟨d, hs', hxs⟩
    · -- the block begins in `a`: it would have to contain `b`
      cases c' with
      | nil =>
        rw [List.append_nil] at hxs
        exact Or.inl ⟨s, [], by rw [List.append_nil, hs', hxs]⟩
      | cons x c' =>
        obtain ⟨rfl, -⟩ := List.cons.inj ht
        exact absurd (hxs ▸ List.mem_append_right s' List.mem_cons_self) hb
    · cases d with
      | nil =>
        rw [List.nil_append] at hxs
        cases c' with
        | nil =>
          rw [List.nil_append] at ht
          exact Or.inr ⟨[], c, by rw [← hxs]; rfl⟩
        | cons x c' =>
          obtain ⟨rfl, -⟩ := List.cons.inj ht
          exact absurd (hxs ▸ List.mem_cons_self) hb
      | cons x d =>
        rw [hxs, List.cons_append, List.cons_append] at ht
        obtain ⟨-, rfl⟩ := List.cons.inj ht
        exact Or.inr ⟨d, t, rfl⟩

theorem undisturbed_idle {n : ℕ} (hn : n ≤ maxRetries) : Undisturbed (List.replicate n idle) := by
  constructor
  · intro r hr
    rw [List.eq_of_mem_replicate hr]
    exact ⟨rfl, fun _ => rfl⟩
  · intro h
    have hlen := h.length_le
    simp only [List.length_replicate, List.length_map] at hlen
    omega

theorem not_undisturbed_idle (turns : List Turn) :
    ¬ Undisturbed (List.replicate (maxRetries+1) idle ++ turns) := by
  intro h
  apply h.timeouts
  rw [List.map_append, List.map_replicate]
  exact (List.prefix_append _ _).isInfix

/-- A turn in which nothing arrives. -/
theorem undisturbed_cons_idle {n : ℕ} {t : Turn} (ht : t.datagram = []) (turns : List Turn) :
    Undisturbed (List.replicate n idle ++ t :: turns) ↔
      t.setsockopt = true ∧ Undisturbed (List.replicate (n+1) idle ++ turns) := by
  have hmap : ((List.replicate n idle ++ t :: turns).map fun r => r.datagram.isEmpty) =
      (List.replicate (n+1) idle ++ turns).map fun r => r.datagram.isEmpty := by
    simp [List.replicate_succ', ht, idle]
  constructor
  · intro h
    refine ⟨(h.calls t (by simp)).1, ⟨?_, hmap ▸ h.timeouts⟩⟩
    intro r hr
    rcases List.mem_append.mp hr with hr | hr
    · rw [List.eq_of_mem_replicate hr]
      exact ⟨rfl, fun _ => rfl⟩
    · exact h.calls r (by simp [hr])
  · rintro ⟨hsock, h⟩
    refine ⟨?_, hmap.symm ▸ h.timeouts⟩
    intro r hr
    rcases List.mem_append.mp hr with hr | hr
    · rw [List.eq_of_mem_replicate hr]
      exact ⟨rfl, fun _ => rfl⟩
    · rcases List.mem_cons.mp hr with rfl | hr
      · exact ⟨hsock, fun hne => absurd ht hne⟩
      · exact h.calls r (by simp [hr])

/-- A turn with a packet starts the count of the timeouts again. -/
theorem undisturbed_cons_packet {n : ℕ} (hn : n ≤ maxRetries) {t : Turn} (ht : t.datagram ≠ [])
    (turns : List Turn) : Undisturbed (List.replicate n idle ++ t :: turns) ↔
      t.setsockopt = true ∧ t.ackSent = true ∧ Undisturbed turns := by
  have hempty : t.datagram.isEmpty = false := by simpa using ht
  constructor
  · intro h
    have hcalls := h.calls t (by simp)
    refine ⟨hcalls.1, hcalls.2 ht, fun r hr => h.calls r (by simp [hr]), ?_⟩
    intro hi
    apply h.timeouts
    rw [List.map_append, List.map_cons]
    exact hi.trans ((List.suffix_cons _ _).trans (List.suffix_append _ _)).isInfix
  · rintro ⟨hsock, hack, h⟩
    refine ⟨?_, ?_⟩
    · intro r hr
      rcases List.mem_append.mp hr with hr | hr
      · rw [List.eq_of_mem_replicate hr]
        exact ⟨rfl, fun _ => rfl⟩
      · rcases List.mem_cons.mp hr with rfl | hr
        · exact ⟨hsock, fun _ => hack⟩
        · exact h.calls r hr
    · rw [List.map_append, List.map_cons, hempty]
      intro hi
      -- the packet splits the six timeouts: they lie before it or behind it
      rcases infix_append_cons (by simp) hi with hi | hi
      · have hlen := hi.length_le
        simp only [List.length_replicate, List.length_map] at hlen
        omega
      · exact h.timeouts hi

theorem payloads_cons (t : Turn) (turns : List Turn) :
    payloads (t :: turns) = payloadOf t.datagram ++ payloads turns :=
  List.flatMap_cons

theorem payloads_cons_idle {t : Turn} (ht : t.datagram = []) (turns : List Turn) :
    payloads (t :: turns) = payloads turns := by
  rw [payloads_cons, ht]
  rfl

namespace Receiver

/-- One turn of a loop that still receives, when the packets are the server's. -/
theorem run_cons {size : ℕ} {d : Receiver} {t : Turn} {turns : List Turn} {s : Bytes}
    (hd : d.Aligned size) (hrem : d.bytesRemaining = s.length) (hs : s ≠ [])
    (hr : d.retryCount ≤ maxRetries) (hfrom : FromServer s (t :: turns)) :
    d.run size (t :: turns) =
      if t.setsockopt = false then (.setsockoptFailed, d)
      else if t.datagram = [] then
        if d.retryCount = maxRetries then (.retriesUsedUp, d)
        else run size { d with retryCount := d.retryCount+1 } turns
      else if t.ackSent = false then (.ackFailed, d)
      else run size (d.stored (payloadOf t.datagram)) turns := by
  have hpos := List.length_pos_iff.mpr hs
  rw [run, if_pos (by omega), turn]
  split_ifs with hsock hempty hfull hack
  · rfl
  · rw [onTimeout, if_pos (by omega)]
  · rw [onTimeout, if_neg (by omega)]
  · rfl
  · have hlen := hfrom.packet t List.mem_cons_self hempty
    have hle := hfrom.order.length_le
    rw [payloads_cons, List.length_append] at hle
    rw [storePayload_eq hd (Nat.le_of_lt hlen), if_pos (by omega)]

end Receiver

/-- What is still to come after a packet. -/
theorem FromServer.tail {s : Bytes} {t : Turn} {turns : List Turn} (h : FromServer s (t :: turns)) :
    ∃ s', s = payloadOf t.datagram ++ s' ∧ FromServer s' turns := by
  have hpay := payloads_cons t turns
  obtain ⟨s', hs'⟩ : payloadOf t.datagram <+: s :=
    (List.prefix_append _ _).trans (hpay ▸ h.order)
  refine ⟨s', hs'.symm, fun r hr => h.packet r (List.mem_cons_of_mem t hr), ?_⟩
  have horder := h.order
  rw [hpay, ← hs'] at horder
  exact (List.prefix_append_right_inj _).mp horder

/-- `m` more bytes arrive, `n` timeouts after the last packet. -/
def Completes (n m : ℕ) (turns : List Turn) : Prop :=
  ∃ k, Undisturbed (List.replicate n idle ++ turns.take k) ∧ (payloads (turns.take k)).length = m

/-- `setsockopt` fails before `m` more bytes arrive, `n` timeouts after the last packet. -/
def Kills (n m : ℕ) (turns : List Turn) : Prop :=
  ∃ k t, turns[k]? = some t ∧ t.setsockopt = false ∧
    Undisturbed (List.replicate n idle ++ turns.take k) ∧ (payloads (turns.take k)).length < m

theorem completes_cons {n m : ℕ} (hm : 0 < m) (t : Turn) (turns : List Turn) :
    Completes n m (t :: turns) ↔ ∃ k, Undisturbed (List.replicate n idle ++ t :: turns.take k) ∧
      (payloads (t :: turns.take k)).length = m := by
  constructor
  · rintro ⟨k, hu, hlen⟩
    cases k with
    | zero =>
      simp only [List.take_zero, payloads, List.flatMap_nil, List.length_nil] at hlen
      omega
    | succ k => exact ⟨k, hu, hlen⟩
  · rintro ⟨k, h⟩
    exact ⟨k+1, h⟩

theorem kills_cons {n m : ℕ} (hn : n ≤ maxRetries) (hm : 0 < m) (t : Turn) (turns : List Turn) :
    Kills n m (t :: turns) ↔ t.setsockopt = false ∨
      ∃ k u, turns[k]? = some u ∧ u.setsockopt = false ∧
        Undisturbed (List.replicate n idle ++ t :: turns.take k) ∧
        (payloads (t :: turns.take k)).length < m := by
  constructor
  · rintro ⟨k, u, hk, hu, h⟩
    cases k with
    | zero =>
      cases hk
      exact Or.inl hu
    | succ k => exact Or.inr ⟨k, u, hk, hu, h⟩
  · rintro (h | ⟨k, u, hk, hu, h⟩)
    · refine ⟨0, t, rfl, h, ?_, hm⟩
      rw [List.take_zero, List.append_nil]
      exact undisturbed_idle hn
    · exact ⟨k+1, u, hk, hu, h⟩

section Cons

variable {n m : ℕ} {t : Turn} {turns : List Turn}

theorem completes_cons_idle (turns : List Turn) (hm : 0 < m) (ht : t.datagram = []) :
    Completes n m (t :: turns) ↔ t.setsockopt = true ∧ Completes (n+1) m turns := by
  rw [completes_cons hm]
  simp only [undisturbed_cons_idle ht, payloads_cons_idle ht, and_assoc, exists_and_left]
  rfl

theorem kills_cons_idle (turns : List Turn) (hn : n ≤ maxRetries) (hm : 0 < m)
    (ht : t.datagram = []) :
    Kills n m (t :: turns) ↔ t.setsockopt = false ∨ Kills (n+1) m turns := by
  rw [kills_cons hn hm]
  simp only [undisturbed_cons_idle ht, payloads_cons_idle ht, Kills]
  cases t.setsockopt <;> simp

theorem completes_cons_packet (turns : List Turn) (hn : n ≤ maxRetries) (hm : 0 < m)
    (ht : t.datagram ≠ []) (hle : (payloadOf t.datagram).length ≤ m) :
    Completes n m (t :: turns) ↔ t.setsockopt = true ∧ t.ackSent = true ∧
      Completes 0 (m-(payloadOf t.datagram).length) turns := by
  have hlen (l : ℕ) : (payloadOf t.datagram).length+l = m ↔
      l = m-(payloadOf t.datagram).length := by omega
  rw [completes_cons hm]
  simp only [undisturbed_cons_packet hn ht, payloads_cons, List.length_append, hlen, and_assoc,
    exists_and_left]
  rfl

theorem kills_cons_packet (turns : List Turn) (hn : n ≤ maxRetries) (hm : 0 < m)
    (ht : t.datagram ≠ []) :
    Kills n m (t :: turns) ↔ t.setsockopt = false ∨
      (t.ackSent = true ∧ Kills 0 (m-(payloadOf t.datagram).length) turns) := by
  have hlen (l : ℕ) : (payloadOf t.datagram).length+l < m ↔
      l < m-(payloadOf t.datagram).length := by omega
  rw [kills_cons hn hm]
  simp only [undisturbed_cons_packet hn ht, payloads_cons, List.length_append, hlen, Kills,
    List.replicate_zero, List.nil_append]
  cases t.setsockopt <;> cases t.ackSent <;> simp

theorem not_completes_full : ¬ Completes (maxRetries+1) m turns := by
  rintro ⟨k, h, -⟩
  exact not_undisturbed_idle _ h

theorem not_kills_full : ¬ Kills (maxRetries+1) m turns := by
  rintro ⟨k, u, -, -, h, -⟩
  exact not_undisturbed_idle _ h

theorem completes_zero (hn : n ≤ maxRetries) : Completes n 0 turns := by
  refine ⟨0, ?_, rfl⟩
  rw [List.take_zero, List.append_nil]
  exact undisturbed_idle hn

theorem not_kills_zero : ¬ Kills n 0 turns := by
  rintro ⟨k, u, -, -, -, h⟩
  exact Nat.not_lt_zero _ h

end Cons

/-- What a run of the loop stores, and how it can end the process. -/
structure RunOutcome (size : ℕ) (d : Receiver) (s : Bytes) (turns : List Turn) : Prop where
  complete : (d.run size turns).2.written = d.written ++ s ↔
    Completes d.retryCount s.length turns
  process : (∃ exitCode, (d.run size turns).1.status = .process exitCode) ↔
    Kills d.retryCount s.length turns

section Outcome

variable {size : ℕ} {d : Receiver} {s : Bytes} {t : Turn} {turns : List Turn}

theorem runOutcome_done (hrem : d.bytesRemaining = 0) (hr : d.retryCount ≤ maxRetries) :
    RunOutcome size d [] turns := by
  have hrun : d.run size turns = (.success, d) := Receiver.run_of_complete hrem.le turns
  constructor
  · rw [hrun, List.append_nil]
    exact iff_of_true rfl (completes_zero hr)
  · rw [hrun]
    exact iff_of_false (by simp [Exit.status]) not_kills_zero

/-- A loop that stops before the chunk is complete, with a status for the join. -/
theorem runOutcome_stop {e : Exit} (hs : s ≠ []) (hrun : d.run size turns = (e, d))
    (hexit : ∀ exitCode, e.status ≠ .process exitCode)
    (hc : ¬ Completes d.retryCount s.length turns) (hk : ¬ Kills d.retryCount s.length turns) :
    RunOutcome size d s turns := by
  constructor
  · rw [hrun]
    exact iff_of_false (fun h => hs (List.self_eq_append_right.mp h)) hc
  · rw [hrun]
    refine iff_of_false ?_ hk
    rintro ⟨exitCode, h⟩
    exact hexit exitCode h

theorem runOutcome_setsockopt (hs : s ≠ []) (hsock : t.setsockopt = false)
    (hr : d.retryCount ≤ maxRetries)
    (hrun : d.run size (t :: turns) = (.setsockoptFailed, d)) :
    RunOutcome size d s (t :: turns) := by
  have hpos := List.length_pos_iff.mpr hs
  constructor
  · rw [hrun]
    refine iff_of_false (fun h => hs (List.self_eq_append_right.mp h)) ?_
    rw [completes_cons hpos]
    rintro ⟨k, hu, -⟩
    have hcalls := (hu.calls t (by simp)).1
    rw [hsock] at hcalls
    cases hcalls
  · rw [hrun]
    exact iff_of_true ⟨1, rfl⟩ ((kills_cons hr hpos t turns).mpr (Or.inl hsock))

theorem runOutcome_idle (hs : s ≠ []) (hr : d.retryCount ≤ maxRetries)
    (hsock : t.setsockopt = true) (ht : t.datagram = [])
    (hrun : d.run size (t :: turns) =
      if d.retryCount = maxRetries then (.retriesUsedUp, d)
      else Receiver.run size { d with retryCount := d.retryCount+1 } turns)
    (ih : d.retryCount+1 ≤ maxRetries →
      RunOutcome size { d with retryCount := d.retryCount+1 } s turns) :
    RunOutcome size d s (t :: turns) := by
  have hpos := List.length_pos_iff.mpr hs
  have hc := completes_cons_idle turns (n := d.retryCount) hpos ht
  have hk := kills_cons_idle turns hr hpos ht
  simp only [hsock, true_and, Bool.true_eq_false, false_or] at hc hk
  by_cases hfull : d.retryCount = maxRetries
  · rw [if_pos hfull] at hrun
    refine runOutcome_stop hs hrun nofun ?_ ?_
    · rw [hc, hfull]
      exact not_completes_full
    · rw [hk, hfull]
      exact not_kills_full
  · rw [if_neg hfull] at hrun
    obtain ⟨hcomplete, hprocess⟩ := ih (by omega)
    constructor
    · rw [hrun, hc]
      exact hcomplete
    · rw [hrun, hk]
      exact hprocess

theorem runOutcome_packet {s' : Bytes} (hs : s ≠ []) (hs' : s = payloadOf t.datagram ++ s')
    (hr : d.retryCount ≤ maxRetries) (hsock : t.setsockopt = true) (ht : t.datagram ≠ [])
    (hrun : d.run size (t :: turns) =
      if t.ackSent = false then (.ackFailed, d)
      else Receiver.run size (d.stored (payloadOf t.datagram)) turns)
    (ih : RunOutcome size (d.stored (payloadOf t.datagram)) s' turns) :
    RunOutcome size d s (t :: turns) := by
  have hpos := List.length_pos_iff.mpr hs
  have hlen : s.length = (payloadOf t.datagram).length+s'.length := by
    rw [hs', List.length_append]
  have hc := completes_cons_packet turns hr hpos ht (by omega)
  have hk := kills_cons_packet turns hr hpos ht
  rw [show s.length-(payloadOf t.datagram).length = s'.length by omega] at hc hk
  simp only [hsock, true_and, Bool.true_eq_false, false_or] at hc hk
  cases hack : t.ackSent with
  | false =>
    rw [hack, if_pos rfl] at hrun
    rw [hack] at hc hk
    exact runOutcome_stop hs hrun nofun (by rw [hc]; simp) (by rw [hk]; simp)
  | true =>
    rw [hack, if_neg (by simp)] at hrun
    simp only [hack, true_and] at hc hk
    obtain ⟨hcomplete, hprocess⟩ := ih
    constructor
    · rw [hrun, hc, hs', ← List.append_assoc, ← Receiver.written_stored]
      exact hcomplete
    · rw [hrun, hk]
      exact hprocess

end Outcome

theorem run_outcome {size : ℕ} (turns : List Turn) (d : Receiver) (s : Bytes)
    (hd : d.Aligned size) (hrem : d.bytesRemaining = s.length) (hr : d.retryCount ≤ maxRetries)
    (hfrom : FromServer s turns) : RunOutcome size d s turns := by
  induction turns generalizing d s with
  | nil =>
    by_cases hs : s = []
    · subst hs
      exact runOutcome_done hrem hr
    -- the results are used up, and only timeouts follow
    · have hpos := List.length_pos_iff.mpr hs
      refine runOutcome_stop (e := .retriesUsedUp) hs ?_ nofun ?_ (by simp [Kills])
      · rw [Receiver.run, if_pos (by omega)]
      · rintro ⟨k, -, hlen⟩
        rw [List.take_nil] at hlen
        simp only [payloads, List.flatMap_nil, List.length_nil] at hlen
        omega
  | cons t turns ih =>
    by_cases hs : s = []
    · subst hs
      exact runOutcome_done hrem hr
    · obtain ⟨s', hs', htail⟩ := hfrom.tail
      have hrun := Receiver.run_cons hd hrem hs hr hfrom
      cases hsock : t.setsockopt with
      | false =>
        rw [hsock, if_pos rfl] at hrun
        exact runOutcome_setsockopt hs hsock hr hrun
      | true =>
        rw [hsock, if_neg (by simp)] at hrun
        by_cases ht : t.datagram = []
        · rw [if_pos ht] at hrun
          refine runOutcome_idle hs hr hsock ht hrun ?_
          intro hr'
          have hss : s = s' := by
            rw [hs', ht]
            rfl
          exact ih _ s ⟨hd.written, hd.remaining⟩ hrem hr' (hss ▸ htail)
        · rw [if_neg ht] at hrun
          refine runOutcome_packet hs hs' hr hsock ht hrun (ih _ s' (hd.stored _) ?_ ?_ htail)
          · rw [hs', List.length_append] at hrem
            dsimp only [Receiver.stored]
            push_cast at hrem
            omega
          · exact Nat.zero_le _

theorem downloadChunk_outcome {calls : Calls} {s : Bytes} (hs : 0 < s.length)
    (hs' : s.length < 2^63) (h : FromServer s calls.turns) :
    ((downloadChunk s.length calls).2.copied.flatten = s ↔ Delivers s.length calls) ∧
    ((∃ exitCode, (downloadChunk s.length calls).1.status = .process exitCode) ↔
      EndsProcess s.length calls) := by
  have hne : [] ≠ s := by
    rintro rfl
    simp at hs
  unfold downloadChunk
  by_cases hsock : calls.socket = false
  · rw [if_pos hsock]
    refine ⟨iff_of_false hne ?_, iff_of_false (by simp [Exit.status]) ?_⟩
    · intro hd
      simp [hd.socket] at hsock
    · intro hd
      simp [hd.socket] at hsock
  · rw [if_neg hsock]
    by_cases hsend : calls.sendRequest = false
    · rw [if_pos hsend]
      refine ⟨iff_of_false hne ?_, iff_of_false (by simp [Exit.status]) ?_⟩
      · intro hd
        simp [hd.sendRequest] at hsend
      · intro hd
        simp [hd.sendRequest] at hsend
    · rw [if_neg hsend]
      obtain ⟨hcomplete, hprocess⟩ := run_outcome calls.turns (Receiver.start s.length) s
        (Receiver.aligned_start hs') (Receiver.start_bytesRemaining hs') (Nat.zero_le _) h
      simp only [Bool.not_eq_false] at hsock hsend
      constructor
      · refine Iff.trans hcomplete ?_
        constructor
        · intro hk
          exact ⟨hsock, hsend, hk⟩
        · intro hd
          exact hd.data
      · refine Iff.trans hprocess ?_
        constructor
        · intro hk
          exact ⟨hsock, hsend, hk⟩
        · intro hd
          exact hd.setsockopt

theorem Exit.status_ne_zero (e : Exit) : e.status ≠ .process 0 := by
  cases e <;> simp [Exit.status]

end NetTools.TFTP
