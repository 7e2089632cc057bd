import NetTools.TFTPReceiver
import NetTools.TFTPServer
import Mathlib.Data.List.Induction

namespace NetTools.TFTP

open CText Download

/-- The packets with the numbers in `seqs` arrive one after the other. -/
def arrivals (s : Bytes) (seqs : List ℕ) : List Turn :=
  seqs.map fun i => ⟨true, packetOf s i, true⟩

/-- What packets carry together. -/
def carried (s : Bytes) (seqs : List ℕ) : Bytes := seqs.flatMap (payloadAt s)

/-- When `download_chunk` ends with success it has written the slice. -/
def StoresRight (s : Bytes) (seqs : List ℕ) : Prop :=
  (downloadChunk s.length ⟨true, true, arrivals s seqs⟩).1 = .success →
    (downloadChunk s.length ⟨true, true, arrivals s seqs⟩).2.written = s

/-- Of the packets that fill the chunk, each carries what the slice has at the place
where it is appended. -/
def ArrivesInPlace (s : Bytes) (seqs : List ℕ) : Prop :=
  ∀ k, (carried s (seqs.take k)).length = s.length → ∀ j < k, ∀ i, seqs[j]? = some i →
    (s.drop (carried s (seqs.take j)).length).take (payloadAt s i).length = payloadAt s i

/-- The bytes that packets of a slice of `size` bytes carry together. -/
def carriedSize (size : ℕ) (seqs : List ℕ) : ℕ :=
  (seqs.map fun i => min payloadSize (size-payloadSize*i)).sum

/-- The packets that fill the chunk are all the packets in order. -/
def ArrivesInOrder (size : ℕ) (seqs : List ℕ) : Prop :=
  ∀ k, carriedSize size (seqs.take k) = size →
    seqs.take k = List.range ((size+(payloadSize-1))/payloadSize)

theorem carried_cons (s : Bytes) (i : ℕ) (seqs : List ℕ) :
    carried s (i :: seqs) = payloadAt s i ++ carried s seqs :=
  List.flatMap_cons

theorem carried_append (s : Bytes) (l l' : List ℕ) :
    carried s (l ++ l') = carried s l ++ carried s l' :=
  List.flatMap_append

theorem carried_length (s : Bytes) (seqs : List ℕ) :
    (carried s seqs).length = carriedSize s.length seqs := by
  simp only [carried, carriedSize, List.length_flatMap, payloadAt_length]

theorem carried_range (s : Bytes) (k : ℕ) : carried s (List.range k) = s.take (payloadSize*k) := by
  induction k with
  | zero => rfl
  | succ k ih => rw [List.range_succ, carried_append, ih, take_succ_payload, carried_cons,
      carried, List.flatMap_nil, List.append_nil]

/-- One packet more: it is stored when it still fits, and ends the run otherwise. -/
theorem run_arrivals_cons {size : ℕ} (s : Bytes) (seqs : List ℕ) {i : ℕ} {d : Receiver}
    (hi : i < packetCount s) (hd : d.Aligned size) (hrem : 0 < d.bytesRemaining) :
    d.run size (arrivals s (i :: seqs)) =
      if (payloadAt s i).length ≤ d.bytesRemaining then
        (d.stored (payloadAt s i)).run size (arrivals s seqs)
      else (.moreThanExpected, d) := by
  have hpos := List.length_pos_iff.mpr (payloadAt_ne_nil.mpr hi)
  have hne : packetOf s i ≠ [] := by
    intro h
    have hlen := congrArg List.length h
    rw [packetOf, dataPacket_length, List.length_nil] at hlen
    omega
  have hlong : seqSize ≤ (packetOf s i).length := by
    rw [packetOf, dataPacket_length]
    omega
  have hstore := Receiver.storePayload_eq hd hlong
  rw [payloadOf, packetOf, dataPacket_drop] at hstore
  have hturn : d.turn size ⟨true, packetOf s i, true⟩ = d.storePayload size (packetOf s i) := by
    simp only [Receiver.turn, Bool.true_eq_false, ↓reduceIte, if_neg hne]
  rw [arrivals, List.map_cons, Receiver.run, if_pos hrem, hturn, packetOf, hstore]
  split_ifs
  · rfl
  · rfl

/-- When the chunk is complete, what arrives later stays unread. -/
theorem run_arrivals_complete {size : ℕ} (s : Bytes) (seqs : List ℕ) {d : Receiver}
    (hm : d.bytesRemaining = 0) :
    (∀ k, (carried s (seqs.take k)).length = 0 →
      (d.run size (arrivals s seqs)).1 = .success ∧
      (d.run size (arrivals s seqs)).2.written = d.written ++ carried s (seqs.take k)) ∧
    ((d.run size (arrivals s seqs)).1 = .success → ∃ k, (carried s (seqs.take k)).length = 0) := by
  rw [Receiver.run_of_complete (by omega)]
  refine ⟨?_, fun _ => ⟨0, rfl⟩⟩
  intro k hk
  rw [List.length_eq_zero_iff.mp hk, List.append_nil]
  exact ⟨rfl, rfl⟩

/-- A run over packets succeeds exactly when some of the first ones fill the chunk, and
then it has written what they carry. -/
theorem run_arrivals {size m : ℕ} (s : Bytes) (seqs : List ℕ) (d : Receiver)
    (hseqs : ∀ i ∈ seqs, i < packetCount s) (hd : d.Aligned size) (hm : d.bytesRemaining = m) :
    (∀ k, (carried s (seqs.take k)).length = m →
      (d.run size (arrivals s seqs)).1 = .success ∧
      (d.run size (arrivals s seqs)).2.written = d.written ++ carried s (seqs.take k)) ∧
    ((d.run size (arrivals s seqs)).1 = .success →
      ∃ k, (carried s (seqs.take k)).length = m) := by
  induction seqs generalizing d m with
  | nil =>
    by_cases hzero : m = 0
    · rw [hzero]
      exact run_arrivals_complete s [] (by omega)
    · have hrun : d.run size (arrivals s []) = (.retriesUsedUp, d) := if_pos (by omega)
      rw [hrun]
      refine ⟨?_, fun hsuccess => by cases hsuccess⟩
      intro k hk
      rw [List.take_nil] at hk
      exact absurd hk.symm hzero
  | cons i seqs ih =>
    by_cases hzero : m = 0
    · rw [hzero]
      exact run_arrivals_complete s (i :: seqs) (by omega)
    · rw [run_arrivals_cons s seqs (hseqs i List.mem_cons_self) hd (by omega)]
      by_cases hle : (payloadAt s i).length ≤ m
      · have hm' : (d.stored (payloadAt s i)).bytesRemaining =
            ((m-(payloadAt s i).length : ℕ) : Int) := by
          dsimp only [Receiver.stored]
          omega
        obtain ⟨hfill, hsuccess⟩ := ih (d.stored (payloadAt s i))
          (fun j hj => hseqs j (List.mem_cons_of_mem i hj)) (hd.stored _) hm'
        rw [if_pos (by omega)]
        constructor
        · intro k hk
          cases k with
          | zero => exact absurd hk.symm hzero
          | succ k =>
            rw [List.take_succ_cons, carried_cons, List.length_append] at hk
            rw [List.take_succ_cons, carried_cons, ← List.append_assoc, ← Receiver.written_stored]
            exact hfill k (by omega)
        · intro h
          obtain ⟨k, hk⟩ := hsuccess h
          refine ⟨k+1, ?_⟩
          rw [List.take_succ_cons, carried_cons, List.length_append, hk]
          omega
      · rw [if_neg (by omega)]
        refine ⟨?_, fun hsuccess => by cases hsuccess⟩
        intro k hk
        cases k with
        | zero => exact absurd hk.symm hzero
        | succ k =>
          rw [List.take_succ_cons, carried_cons, List.length_append] at hk
          omega

/-- Blocks of the right total length make up `s` exactly when each is what `s` has at the
place where it lies. -/
theorem flatten_eq_iff {α : Type*} (bs : List (List α)) (s : List α)
    (h : bs.flatten.length = s.length) :
    bs.flatten = s ↔ ∀ j b, bs[j]? = some b →
      (s.drop (bs.take j).flatten.length).take b.length = b := by
  induction bs generalizing s with
  | nil =>
    refine iff_of_true (List.eq_nil_of_length_eq_zero h.symm).symm ?_
    intro j b hb
    simp at hb
  | cons c bs ih =>
    rw [List.flatten_cons, List.length_append] at h
    have hrest := ih (s.drop c.length) (by rw [List.length_drop]; omega)
    constructor
    · intro hs j b hb
      rw [← hs, List.flatten_cons]
      cases j with
      | zero =>
        cases hb
        rw [List.take_zero, List.flatten_nil, List.length_nil, List.drop_zero, List.take_left]
      | succ j =>
        have hdrop : bs.flatten = s.drop c.length := by
          rw [← hs, List.flatten_cons, List.drop_left]
        have hj := hrest.mp hdrop j b hb
        rw [List.take_succ_cons, List.flatten_cons, List.length_append, ← List.drop_drop,
          List.drop_left, hdrop]
        exact hj
    · intro hall
      have hfirst : s.take c.length = c := hall 0 c rfl
      rw [List.flatten_cons, hrest.mpr, ← hfirst, List.length_take]
      · rw [Nat.min_eq_left (by omega), List.take_append_drop]
      · intro j b hb
        have hj := hall (j+1) b hb
        rwa [List.take_succ_cons, List.flatten_cons, List.length_append, ← List.drop_drop] at hj

/-- The content of packets that fill the chunk is the slice exactly when each of them
lies at its own place. -/
theorem carried_eq_iff {s : Bytes} {l : List ℕ} (h : (carried s l).length = s.length) :
    carried s l = s ↔ ∀ j i, l[j]? = some i →
      (s.drop (carried s (l.take j)).length).take (payloadAt s i).length = payloadAt s i := by
  have hmap (l : List ℕ) : carried s l = (l.map (payloadAt s)).flatten := List.flatMap_def
  rw [hmap] at h ⊢
  rw [flatten_eq_iff _ _ h]
  constructor
  · intro hb j i hi
    rw [hmap, List.map_take]
    exact hb j _ (by rw [List.getElem?_map, hi, Option.map_some])
  · intro hi j b hb
    rw [List.getElem?_map, Option.map_eq_some_iff] at hb
    obtain ⟨i, hj, rfl⟩ := hb
    rw [← List.map_take, ← hmap]
    exact hi j i hj

/-- For one slice: the chunk is stored right exactly when the packets arrive in place. -/
theorem storesRight_iff {s : Bytes} {seqs : List ℕ} (hs : s.length < 2^63)
    (hseqs : ∀ i ∈ seqs, i < packetCount s) : StoresRight s seqs ↔ ArrivesInPlace s seqs := by
  obtain ⟨hfill, hsuccess⟩ := run_arrivals s seqs (Receiver.start s.length) hseqs
    (Receiver.aligned_start hs) (Receiver.start_bytesRemaining hs)
  have hinplace (k : ℕ) (hk : (carried s (seqs.take k)).length = s.length) :
      carried s (seqs.take k) = s ↔ ∀ j < k, ∀ i, seqs[j]? = some i →
        (s.drop (carried s (seqs.take j)).length).take (payloadAt s i).length = payloadAt s i := by
    rw [carried_eq_iff hk]
    constructor
    · intro h j hj i hi
      have hji := h j i (by rw [List.getElem?_take, if_pos hj, hi])
      rwa [List.take_take, Nat.min_eq_left (by omega)] at hji
    · intro h j i hi
      rw [List.getElem?_take] at hi
      split_ifs at hi with hj
      rw [List.take_take, Nat.min_eq_left (by omega)]
      exact h j hj i hi
  constructor
  · intro h k hk
    obtain ⟨hend, hwritten⟩ := hfill k hk
    exact (hinplace k hk).mp (hwritten.symm.trans (h hend))
  · intro h hend
    obtain ⟨k, hk⟩ := hsuccess hend
    exact (hfill k hk).2.trans ((hinplace k hk).mpr (h k hk))

/-- A list of numbers counts up from zero, or has a first number out of order. -/
theorem range_or_mismatch (l : List ℕ) :
    l = List.range l.length ∨ ∃ j i rest, l = List.range j ++ i :: rest ∧ i ≠ j := by
  induction l using List.reverseRecOn with
  | nil => exact Or.inl rfl
  | append_singleton l x ih =>
    rcases ih with h | ⟨j, i, rest, h, hij⟩
    · by_cases hx : x = l.length
      · left
        rw [List.length_append, List.length_singleton, List.range_succ, ← h, hx]
      · exact Or.inr ⟨l.length, x, [], by rw [← h], hx⟩
    · exact Or.inr ⟨j, i, rest ++ [x], by rw [h, List.append_assoc, List.cons_append], hij⟩

/-- A slice that is 1 at one byte and 0 elsewhere. -/
def markedSlice (size p : ℕ) : Bytes := (List.replicate size 0).set p 1

/-- A packet out of order spoils the slice that is marked at the first byte of the packet
which should have arrived. -/
theorem carried_marked_ne {size j i : ℕ} (rest : List ℕ) (hij : i ≠ j)
    (hi : payloadSize*i < size) (hj : payloadSize*j < size) :
    carried (markedSlice size (payloadSize*j)) (List.range j ++ i :: rest) ≠
      markedSlice size (payloadSize*j) := by
  have hp : payloadSize = 1016 := rfl
  have hlen : (markedSlice size (payloadSize*j)).length = size := by
    rw [markedSlice, List.length_set, List.length_replicate]
  intro h
  -- the marked byte is where the wrong packet lies, and that packet is all zeros
  have hget := congrArg (fun l => l[payloadSize*j]?) h
  have hbefore : ((markedSlice size (payloadSize*j)).take (payloadSize*j)).length =
      payloadSize*j := by
    rw [List.length_take, hlen, Nat.min_eq_left (by omega)]
  have hpay : 0 < (payloadAt (markedSlice size (payloadSize*j)) i).length := by
    rw [payloadAt_length, hlen]
    omega
  rw [carried_append, carried_range, carried_cons, List.getElem?_append_right (by omega), hbefore,
    Nat.sub_self, List.getElem?_append_left hpay, payloadAt, List.getElem?_take,
    if_pos (show 0 < payloadSize by decide), List.getElem?_drop, Nat.add_zero] at hget
  have hne : payloadSize*j ≠ payloadSize*i := by
    rw [hp]
    omega
  simp only [markedSlice, List.getElem?_set, List.getElem?_replicate, List.length_replicate,
    if_neg hne, if_pos hi, if_pos hj, ↓reduceIte] at hget
  cases hget

/-- For all slices of one size: every chunk is stored right exactly when the packets that
fill it arrive in order and once each. -/
theorem all_storesRight_iff {size : ℕ} {seqs : List ℕ} (hs : size < 2^63)
    (hseqs : ∀ i ∈ seqs, payloadSize*i < size) :
    (∀ s : Bytes, s.length = size → StoresRight s seqs) ↔ ArrivesInOrder size seqs := by
  have hlt (s : Bytes) (hlen : s.length = size) : ∀ i ∈ seqs, i < packetCount s := by
    intro i hi
    rw [lt_packetCount, hlen]
    exact hseqs i hi
  constructor
  · intro h k hk
    have hcarried (s : Bytes) (hlen : s.length = size) : carried s (seqs.take k) = s := by
      have hfill : (carried s (seqs.take k)).length = s.length := by
        rw [carried_length, hlen, hk]
      obtain ⟨hend, hwritten⟩ := (run_arrivals s seqs (Receiver.start s.length) (hlt s hlen)
        (Receiver.aligned_start (hlen ▸ hs)) (Receiver.start_bytesRemaining (hlen ▸ hs))).1 k hfill
      exact hwritten.symm.trans (h s hlen hend)
    rcases range_or_mismatch (seqs.take k) with hrange | ⟨j, i, rest, hl, hij⟩
    · -- the numbers count up: they can only stop at the last packet
      generalize (seqs.take k).length = n at hrange
      rw [hrange] at hk ⊢
      congr 1
      have hlen := carried_length (List.replicate size 0) (List.range n)
      rw [carried_range, List.length_take, List.length_replicate, hk] at hlen
      have hlast : ∀ i < n, payloadSize*i < size := by
        intro i hi
        refine hseqs i (List.mem_of_mem_take (i := k) ?_)
        rw [hrange]
        exact List.mem_range.mpr hi
      have hp : payloadSize = 1016 := rfl
      have hlast' := hlast (n-1)
      rw [hp] at hlen hlast' ⊢
      omega
    · have hmem : i ∈ seqs.take k := by
        rw [hl]
        exact List.mem_append_right _ List.mem_cons_self
      have hi := hseqs i (List.mem_of_mem_take hmem)
      have hj : payloadSize*j < size := by
        have hlen := carried_length (List.replicate size 0) (seqs.take k)
        rw [List.length_replicate, hk, hl, carried_append, carried_range, carried_cons,
          List.length_append, List.length_append, payloadAt_length, List.length_take,
          List.length_replicate] at hlen
        have hp : payloadSize = 1016 := rfl
        omega
      refine absurd ?_ (carried_marked_ne rest hij hi hj)
      rw [← hl]
      exact hcarried _ (by rw [markedSlice, List.length_set, List.length_replicate])
  · intro h s hlen hend
    obtain ⟨hfill, hsuccess⟩ := run_arrivals s seqs (Receiver.start s.length) (hlt s hlen)
      (Receiver.aligned_start (hlen ▸ hs)) (Receiver.start_bytesRemaining (hlen ▸ hs))
    obtain ⟨k, hk⟩ := hsuccess hend
    have hrange := h k (by rw [← hlen, ← carried_length, hk])
    refine (hfill k hk).2.trans ?_
    rw [hrange, carried_range]
    exact take_of_packetCount_le (by rw [packetCount, hlen])

/-- For every arrival sequence of the packets of a slice: `download_chunk` is right about a
slice exactly when the packets arrive in place, and about every slice of that size
exactly when they arrive in order. -/
theorem arrivals_store_right (size : ℕ) (seqs : List ℕ) (hs : size < 2^63)
    (hseqs : ∀ i ∈ seqs, i < (size+(payloadSize-1))/payloadSize) :
    (∀ s : Bytes, s.length = size → (StoresRight s seqs ↔ ArrivesInPlace s seqs)) ∧
    ((∀ s : Bytes, s.length = size → StoresRight s seqs) ↔ ArrivesInOrder size seqs) := by
  constructor
  · rintro s rfl
    exact storesRight_iff hs hseqs
  · apply all_storesRight_iff hs
    intro i hi
    have hlt := lt_packetCount (s := List.replicate size 0) (i := i)
    rw [packetCount, List.length_replicate] at hlt
    exact hlt.mp (hseqs i hi)

/-- One packet of three bytes. -/
theorem arrivals_store_right_abc : StoresRight (ascii "abc") [0] := by
  refine ((arrivals_store_right 3 [0] (by decide) (by decide)).1
    (ascii "abc") rfl).mpr ?_
  intro k hk j hj i hi
  cases j with
  | zero =>
    cases hi
    rfl
  | succ j => cases hi

/-- A slice of two full packets with different contents. -/
def twoPackets : Bytes := List.replicate payloadSize 1 ++ List.replicate payloadSize 2

/-- Packet 0 arrives twice before packet 1: the chunk ends with success, and the payload
of packet 0 stands in both halves. -/
theorem repeated_packet_is_stored_twice :
    (∀ i < packetCount twoPackets, i ∈ [0, 0, 1]) ∧
    (downloadChunk twoPackets.length ⟨true, true, arrivals twoPackets [0, 0, 1]⟩).1 = .success ∧
    (downloadChunk twoPackets.length ⟨true, true, arrivals twoPackets [0, 0, 1]⟩).2.written =
      List.replicate payloadSize 1 ++ List.replicate payloadSize 1 ∧
    ¬ StoresRight twoPackets [0, 0, 1] := by
  have hlen : twoPackets.length = 2032 := by
    rw [twoPackets, List.length_append, List.length_replicate, List.length_replicate]
    rfl
  have hcount : packetCount twoPackets = 2 := by
    rw [packetCount, hlen]
    rfl
  have hzero : payloadAt twoPackets 0 = List.replicate payloadSize 1 :=
    List.take_left' (List.length_replicate ..)
  have htwo : carried twoPackets [0, 0] =
      List.replicate payloadSize 1 ++ List.replicate payloadSize 1 := by
    rw [carried_cons, carried_cons, hzero, carried, List.flatMap_nil, List.append_nil]
  obtain ⟨hend, hwritten⟩ := (run_arrivals twoPackets [0, 0, 1] (Receiver.start twoPackets.length)
    (by rw [hcount]; decide) (Receiver.aligned_start (by omega))
    (Receiver.start_bytesRemaining (by omega))).1 2 (by
      change (carried twoPackets [0, 0]).length = _
      rw [htwo, hlen, List.length_append, List.length_replicate]
      rfl)
  have hbad : (Receiver.start twoPackets.length).written ++
      carried twoPackets ([0, 0, 1].take 2) =
        List.replicate payloadSize 1 ++ List.replicate payloadSize 1 := htwo
  rw [StoresRight, downloadChunk_started]
  refine ⟨?_, hend, hwritten.trans hbad, ?_⟩
  · rw [hcount]
    decide
  · intro h
    have heq := hbad.symm.trans (hwritten.symm.trans (h hend))
    have hsame := List.append_cancel_left heq
    rw [List.replicate_inj] at hsame
    simp [payloadSize, bufferSize, seqSize] at hsame

end NetTools.TFTP
