import NetTools.CText
import Mathlib.Data.Nat.Digits.Lemmas

namespace NetTools.NetworkOrder

/-- The number that bytes stand for. -/
def decode (s : Bytes) : ℕ := Nat.ofDigits 256 (s.reverse.map UInt8.toNat)

/-- The lowest `w` bytes of a number. -/
def encode : ℕ → ℕ → Bytes
  | 0, _ => []
  | w+1, n => UInt8.ofNat (n/256^w) :: encode w n

@[simp] theorem length_encode (w n : ℕ) : (encode w n).length = w := by
  induction w with
  | zero => rfl
  | succ w ih => rw [encode, List.length_cons, ih]

@[simp] theorem decode_nil : decode [] = 0 := rfl

theorem decode_append (s t : Bytes) : decode (s ++ t) = decode s*256^t.length+decode t := by
  rw [decode, List.reverse_append, List.map_append, Nat.ofDigits_append, List.length_map,
    List.length_reverse, Nat.add_comm, Nat.mul_comm]
  rfl

theorem decode_singleton (b : Byte) : decode [b] = b.toNat := by
  rw [decode, List.reverse_singleton, List.map_singleton, Nat.ofDigits_singleton]

theorem decode_cons (b : Byte) (s : Bytes) : decode (b :: s) = b.toNat*256^s.length+decode s := by
  have h := decode_append [b] s
  rwa [decode_singleton] at h

theorem decode_lt (s : Bytes) : decode s < 256^s.length := by
  have hdigits : ∀ d ∈ s.reverse.map UInt8.toNat, d < 256 := by
    intro d hd
    obtain ⟨b, -, rfl⟩ := List.mem_map.mp hd
    exact b.toNat_lt
  have h := Nat.ofDigits_lt_base_pow_length (by decide : 1 < 256) hdigits
  rwa [List.length_map, List.length_reverse] at h

/-- The first bytes are the quotient, and the other ones the remainder. -/
theorem decode_take (s : Bytes) (k : ℕ) : decode (s.take k) = decode s/256^(s.drop k).length := by
  have hsplit := decode_append (s.take k) (s.drop k)
  rw [List.take_append_drop] at hsplit
  have hlt := decode_lt (s.drop k)
  rw [hsplit, Nat.mul_comm, Nat.mul_add_div (by positivity), Nat.div_eq_of_lt hlt, Nat.add_zero]

theorem decode_drop (s : Bytes) (k : ℕ) : decode (s.drop k) = decode s%256^(s.drop k).length := by
  have hsplit := decode_append (s.take k) (s.drop k)
  rw [List.take_append_drop] at hsplit
  rw [hsplit, Nat.mul_comm, Nat.mul_add_mod, Nat.mod_eq_of_lt (decode_lt _)]

/-- What was written is read, as far as it fits. -/
theorem decode_encode (w n : ℕ) : decode (encode w n) = n%256^w := by
  induction w with
  | zero => simp [encode, Nat.mod_one]
  | succ w ih =>
    have hbyte : (UInt8.ofNat (n/256^w)).toNat = n/256^w%256 := UInt8.toNat_ofNat'
    rw [encode, decode_cons, ih, length_encode, hbyte, pow_succ, Nat.mod_mul, Nat.mul_comm]
    omega

theorem decode_encode_of_lt {w n : ℕ} (h : n < 256^w) : decode (encode w n) = n := by
  rw [decode_encode, Nat.mod_eq_of_lt h]

end NetTools.NetworkOrder
