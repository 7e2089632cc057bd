import NetTools.TFTPServer
import NetTools.TFTPReceiver

namespace NetTools.TFTP

open CText

namespace Handler

/-- The `GET` loop when no `sendto` fails and every ACK arrives: the datagrams of at most `n` turns
and the handler behind the loop, which is `none` when `n` turns are not enough. -/
def getLoop : ℕ → Handler → Option (List Bytes × Handler)
  | 0, h => if h.atEnd then some ([], h) else none
  | n+1, h =>
    if h.atEnd then some ([], h)
    else if h.sent.acked.phase = .ended then some ([h.packet], h.sent.acked)
    else (getLoop n h.sent.acked).map fun p => (h.packet :: p.1, p.2)

end Handler

/-- The datagrams are a packetisation of `slice` that the client decodes. -/
structure Packetises (slice : Bytes) (packets : List Bytes) : Prop where
  count : packets.length = (slice.length+(payloadSize-1))/payloadSize
  numbers : packets.map seqNumOf = List.range packets.length
  fits : ∀ p ∈ packets, p.length ≤ bufferSize
  full : ∀ p ∈ packets.dropLast, (payloadOf p).length = payloadSize
  nonempty : ∀ p ∈ packets, payloadOf p ≠ []
  stream : (packets.map payloadOf).flatten = slice

/-- The packets of a slice. -/
def packetsOf (slice : Bytes) : List Bytes := (List.range (packetCount slice)).map (packetOf slice)

theorem packetsOf_length (slice : Bytes) : (packetsOf slice).length = packetCount slice := by
  rw [packetsOf, List.length_map, List.length_range]

@[simp] theorem payloadOf_packetOf (slice : Bytes) (i : ℕ) :
    payloadOf (packetOf slice i) = payloadAt slice i :=
  dataPacket_drop i (payloadAt slice i)

/-- The first `n` payloads are the beginning of the slice. -/
theorem payloads_flatten (slice : Bytes) (n : ℕ) :
    ((List.range n).map (payloadAt slice)).flatten = slice.take (payloadSize*n) := by
  induction n with
  | zero => rfl
  | succ n ih =>
    calc ((List.range (n+1)).map (payloadAt slice)).flatten
        = ((List.range n).map (payloadAt slice)).flatten ++ payloadAt slice n := by
          rw [List.range_succ, List.map_append, List.flatten_append, List.map_singleton,
            List.flatten_singleton]
      _ = slice.take (payloadSize*n) ++ payloadAt slice n := by rw [ih]
      _ = slice.take (payloadSize*(n+1)) := (take_succ_payload slice n).symm

theorem packetsOf_take {slice : Bytes} {k : ℕ} (hk : k ≤ packetCount slice) :
    ((packetsOf slice).take k).map payloadOf = (List.range k).map (payloadAt slice) := by
  rw [packetsOf, List.map_take.symm, List.take_range, Nat.min_eq_left hk, List.map_map]
  exact List.map_congr_left fun i _ => payloadOf_packetOf slice i

theorem payloadAt_full {slice : Bytes} {i : ℕ} (h : i+1 < packetCount slice) :
    (payloadAt slice i).length = payloadSize := by
  have hnext := lt_packetCount.mp h
  rw [Nat.mul_add, Nat.mul_one] at hnext
  rw [payloadAt_length]
  omega

/-- What the server sends is what the client makes of it. -/
theorem packetsOf_packetises {slice : Bytes} (h : slice.length < 2^63) :
    Packetises slice (packetsOf slice) := by
  have hsize : payloadSize = 1016 := rfl
  have hcount : packetCount slice ≤ slice.length := by
    rw [packetCount, hsize]
    omega
  have hmem {p : Bytes} (hp : p ∈ packetsOf slice) :
      ∃ i < packetCount slice, p = packetOf slice i := by
    obtain ⟨i, hi, rfl⟩ := List.mem_map.mp hp
    exact ⟨i, List.mem_range.mp hi, rfl⟩
  refine ⟨packetsOf_length slice, ?_, ?_, ?_, ?_, ?_⟩
  · rw [packetsOf_length, packetsOf, List.map_map]
    calc (List.range (packetCount slice)).map (seqNumOf ∘ packetOf slice)
        = (List.range (packetCount slice)).map id := by
          apply List.map_congr_left
          intro i hi
          have hlt := List.mem_range.mp hi
          exact seqNumOf_dataPacket (by omega) _
      _ = List.range (packetCount slice) := List.map_id _
  · intro p hp
    obtain ⟨i, -, rfl⟩ := hmem hp
    have hlen := payloadAt_length slice i
    have hseq : seqSize = 8 := rfl
    have hbuffer : bufferSize = 1024 := rfl
    rw [packetOf, dataPacket_length]
    omega
  · intro p hp
    obtain ⟨i, hi, rfl⟩ := List.mem_iff_getElem.mp hp
    rw [List.length_dropLast, packetsOf_length] at hi
    rw [List.getElem_dropLast]
    simp only [packetsOf, List.getElem_map, List.getElem_range, payloadOf_packetOf]
    exact payloadAt_full (by omega)
  · intro p hp
    obtain ⟨i, hi, rfl⟩ := hmem hp
    rw [payloadOf_packetOf]
    exact payloadAt_ne_nil.mpr hi
  · have hmap := packetsOf_take (Nat.le_refl (packetCount slice))
    rw [List.take_of_length_le (packetsOf_length slice).le] at hmap
    rw [hmap, payloads_flatten, take_of_packetCount_le (Nat.le_refl _)]

namespace Handler

variable {file : Bytes} {offset size k : ℕ} {h : Handler}

theorem At.packet (ha : At file offset size k h) :
    h.packet = packetOf ((file.drop offset).take size) k := by
  rw [Handler.packet, ha.read, ha.seqNum, packetOf]

/-- The handler before turn `k`. -/
theorem at_iterate (ha : At file offset size 0 h) (hin : offset+size ≤ file.length)
    (hphase : h.phase = .sending) (k : ℕ) :
    At file offset size k ((fun h => h.sent.acked)^[k] h) ∧
      ((fun h => h.sent.acked)^[k] h).phase = .sending := by
  induction k with
  | zero => exact ⟨ha, hphase⟩
  | succ k ih =>
    rw [Function.iterate_succ_apply']
    exact ih.1.acked hin

/-- From packet `k` on the loop sends the packets that are left, one in each turn. -/
theorem getLoop_at {n : ℕ} (ha : At file offset size k h) (hin : offset+size ≤ file.length)
    (hk : k ≤ packetCount ((file.drop offset).take size))
    (hn : packetCount ((file.drop offset).take size) ≤ k+n) :
    h.getLoop n = some
      ((List.range' k (packetCount ((file.drop offset).take size)-k)).map
        (packetOf ((file.drop offset).take size)),
      (fun h => h.sent.acked)^[packetCount ((file.drop offset).take size)-k] h) := by
  induction n generalizing k h with
  | zero =>
    have hdone : k = packetCount ((file.drop offset).take size) := by omega
    have hend : h.atEnd = true := (ha.atEnd hin).mpr hdone.ge
    rw [getLoop, if_pos hend, ← hdone, Nat.sub_self]
    rfl
  | succ n ih =>
    by_cases hend : h.atEnd = true
    · have hdone : k = packetCount ((file.drop offset).take size) :=
        Nat.le_antisymm hk ((ha.atEnd hin).mp hend)
      rw [getLoop, if_pos hend, ← hdone, Nat.sub_self]
      rfl
    · have hlt := Nat.not_le.mp (mt (ha.atEnd hin).mpr hend)
      obtain ⟨hnext, hsending⟩ := ha.acked hin
      have hcount : packetCount ((file.drop offset).take size)-k =
          packetCount ((file.drop offset).take size)-(k+1)+1 := by omega
      rw [getLoop, if_neg hend, if_neg (by rw [hsending]; exact nofun), ih hnext hlt (by omega),
        hcount, List.range'_succ, List.map_cons, ha.packet, Option.map_some,
        Function.iterate_succ_apply]

end Handler

/-- The loop of a `GET` sends its chunk in packets of 1016 bytes, numbered from zero, and ends by
itself; before each turn what has been sent and what remains make up the chunk. -/
theorem get_loop_packetises {file : Bytes} {offset size : ℕ} (hsize : 1 ≤ size)
    (hin : offset+size ≤ file.length) (hfile : file.length < 2^63) :
    ∃ h packets h', Handler.start file offset size = some h ∧
      (∀ n, (size+1015)/1016 ≤ n → h.getLoop n = some (packets, h')) ∧
      h'.phase = .sending ∧ h'.bytesRemaining = 0 ∧ packets.length = (size+1015)/1016 ∧
      Packetises ((file.drop offset).take size) packets ∧
      ∀ k ≤ packets.length, ((fun h => h.sent.acked)^[k] h).bytesRemaining+
        ((packets.take k).map payloadOf).flatten.length = size := by
  have hlen : ((file.drop offset).take size).length = size := by
    rw [List.length_take, List.length_drop]
    omega
  have hcount : packetCount ((file.drop offset).take size) = (size+1015)/1016 := by
    rw [packetCount, hlen]
    rfl
  have hat := Handler.at_start file offset size
  have hsent : (packetsOf ((file.drop offset).take size)).length = (size+1015)/1016 := by
    rw [packetsOf_length, hcount]
  obtain ⟨hdone, hphase⟩ := Handler.at_iterate hat hin rfl ((size+1015)/1016)
  refine ⟨_, packetsOf ((file.drop offset).take size), _, Handler.start_eq hsize hin hfile, ?_,
    hphase, ?_, hsent, packetsOf_packetises (by omega), ?_⟩
  · intro n hn
    have hloop := Handler.getLoop_at hat hin (Nat.zero_le _) (n := n) (by omega)
    rw [Nat.sub_zero, ← List.range_eq_range', hcount] at hloop
    rw [hloop, packetsOf, hcount]
  · have hrem := hdone.remaining
    have hp : payloadSize = 1016 := rfl
    rw [hp] at hrem
    omega
  · intro k hk
    rw [hsent] at hk
    have hrem := (Handler.at_iterate hat hin rfl k).1.remaining
    rw [packetsOf_take (hcount ▸ hk), payloads_flatten, List.length_take, hlen, hrem]
    omega

/-- Three bytes from a file of five. -/
theorem get_loop_packetises_middle :
    ∃ h packets h', Handler.start (ascii "abcde") 1 3 = some h ∧
      (∀ n, (3+1015)/1016 ≤ n → h.getLoop n = some (packets, h')) ∧
      h'.phase = .sending ∧ h'.bytesRemaining = 0 ∧ packets.length = (3+1015)/1016 ∧
      Packetises (((ascii "abcde").drop 1).take 3) packets ∧
      ∀ k ≤ packets.length, ((fun h => h.sent.acked)^[k] h).bytesRemaining+
        ((packets.take k).map payloadOf).flatten.length = 3 :=
  get_loop_packetises (by decide) (by decide) (by decide)

end NetTools.TFTP
