import Wave.Lib.Bytes

/-! # Integers behind a prefix

A number in the low bits of a byte and, when these are all set, in bytes of seven bits each. It is unbounded here. -/

namespace Wave.Lib.PrefixInteger

open Lib Lib.Bytes

def continued : Bytes → Option (Nat × Nat)
  | [] => none
  | b :: rest =>
    if b < 0x80 then some (b.toNat, 1) else (continued rest).map fun r => (b.toNat % 128 + 128 * r.1, r.2 + 1)

/-- The integer at the front of a string, with `bits` bits in its first byte, and how many bytes it has. -/
def read (bits : Nat) : Bytes → Option (Nat × Nat)
  | [] => none
  | b :: rest =>
    if b.toNat % 2 ^ bits < 2 ^ bits - 1 then some (b.toNat % 2 ^ bits, 1)
    else (continued rest).map fun r => (2 ^ bits - 1 + r.1, r.2 + 1)

theorem continued_last {b : UInt8} (h : b < 0x80) (rest : Bytes) : continued (b :: rest) = some (b.toNat, 1) := if_pos h

theorem continued_more {b : UInt8} (h : ¬ b < 0x80) (rest : Bytes) :
    continued (b :: rest) = (continued rest).map fun r => (b.toNat % 128 + 128 * r.1, r.2 + 1) := if_neg h

theorem continued_pos {bytes : Bytes} {v n : Nat} (h : continued bytes = some (v, n)) : 1 ≤ n := by
  cases bytes with
  | nil => cases h
  | cons b rest =>
    by_cases hb : b < 0x80
    · rw [continued_last hb] at h
      cases h
      exact le_rfl
    · rw [continued_more hb] at h
      obtain ⟨r, -, hr⟩ := map_eq_some_iff.mp h
      cases hr
      exact Nat.le_add_left 1 r.2

theorem low_seven (b : UInt8) : (b &&& 0x7F).toNat = b.toNat % 128 := by
  rw [UInt8.toNat_and]
  exact Nat.and_two_pow_sub_one_eq_mod b.toNat 7

theorem high_bit_iff (b : UInt8) : b &&& 0x80 = 0 ↔ b < 0x80 :=
  of_every_byte (P := fun b => b &&& 0x80 = 0 ↔ b < 0x80) (by decide +kernel) b

end Wave.Lib.PrefixInteger
