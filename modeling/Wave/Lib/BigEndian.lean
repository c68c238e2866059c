import Wave.Lib.Bytes
import Mathlib.Data.List.Induction

/-! # Byte strings as numbers, most significant byte first -/

namespace Wave.Lib.Bytes

def beNat (b : Bytes) : Nat := b.foldl (fun acc x => acc * 256 + x.toNat) 0

def beBytes : (len : Nat) → (n : Nat) → Bytes
  | 0, _ => []
  | len + 1, n => beBytes len (n / 256) ++ [UInt8.ofNat n]

@[simp] theorem length_beBytes (len n : Nat) : (beBytes len n).length = len := by
  induction len generalizing n with
  | zero => rfl
  | succ len ih => rw [beBytes, length_append, ih, length_singleton]

theorem beNat_concat (b : Bytes) (x : UInt8) : beNat (b ++ [x]) = beNat b * 256 + x.toNat := by
  rw [beNat, foldl_append]
  rfl

theorem beNat_append (a b : Bytes) : beNat (a ++ b) = beNat a * 256 ^ b.length + beNat b := by
  induction b using List.reverseRecOn with
  | nil => rw [append_nil, length_nil, Nat.pow_zero, Nat.mul_one]; rfl
  | append_singleton b x ih =>
    rw [← append_assoc, beNat_concat, ih, beNat_concat, length_append, length_singleton, Nat.pow_succ,
      Nat.add_mul, Nat.mul_assoc, Nat.add_assoc]

theorem beNat_lt (b : Bytes) : beNat b < 256 ^ b.length := by
  induction b using List.reverseRecOn with
  | nil => exact Nat.one_pos
  | append_singleton b x ih =>
    have hx := x.toNat_lt
    rw [beNat_concat, length_append, length_singleton, Nat.pow_succ]
    omega

theorem beNat_injective {a b : Bytes} (hlen : a.length = b.length) (h : beNat a = beNat b) : a = b := by
  induction a using List.reverseRecOn generalizing b with
  | nil => exact (length_eq_zero_iff.mp hlen.symm).symm
  | append_singleton a x ih =>
    rcases eq_nil_or_concat b with rfl | ⟨b, y, hb⟩
    · rw [length_append, length_singleton] at hlen
      cases hlen
    · rw [concat_eq_append] at hb
      subst hb
      have hx := x.toNat_lt
      have hy := y.toNat_lt
      rw [beNat_concat, beNat_concat] at h
      rw [length_append, length_append, length_singleton, length_singleton] at hlen
      have hrest : a = b := ih (by omega) (by omega)
      have hlast : x = y := UInt8.toNat.inj (by omega)
      rw [hrest, hlast]

theorem beNat_beBytes {len n : Nat} (h : n < 256 ^ len) : beNat (beBytes len n) = n := by
  induction len generalizing n with
  | zero =>
    rw [Nat.pow_zero] at h
    rw [beBytes]
    exact (Nat.lt_one_iff.mp h).symm
  | succ len ih =>
    have hdiv : n / 256 < 256 ^ len := Nat.div_lt_of_lt_mul (by rw [Nat.mul_comm, ← Nat.pow_succ]; exact h)
    have hmod : (UInt8.ofNat n).toNat = n % 256 := UInt8.toNat_ofNat'
    rw [beBytes, beNat_concat, ih hdiv, hmod, Nat.mul_comm, Nat.div_add_mod]

theorem xor_parts {a b c d k : Nat} (hb : b < 2 ^ k) (hd : d < 2 ^ k) :
    (a * 2 ^ k + b) ^^^ (c * 2 ^ k + d) = (a ^^^ c) * 2 ^ k + (b ^^^ d) := by
  apply Nat.eq_of_testBit_eq
  intro i
  rw [Nat.testBit_xor, Nat.mul_comm a, Nat.mul_comm c, Nat.mul_comm (a ^^^ c), Nat.testBit_two_pow_mul_add _ hb,
    Nat.testBit_two_pow_mul_add _ hd, Nat.testBit_two_pow_mul_add _ (Nat.xor_lt_two_pow hb hd)]
  split
  · rw [Nat.testBit_xor]
  · rw [Nat.testBit_xor]

theorem xor_low {a b k : Nat} (h : b < 2 ^ k) : a * 2 ^ k ^^^ b = a * 2 ^ k + b := by
  have hparts := xor_parts (a := a) (c := 0) (Nat.two_pow_pos k) h
  rw [Nat.add_zero, Nat.zero_mul, Nat.zero_add, Nat.xor_zero, Nat.zero_xor] at hparts
  exact hparts

theorem xor_mul_two_pow (a b k : Nat) : a * 2 ^ k ^^^ b * 2 ^ k = (a ^^^ b) * 2 ^ k := by
  have hparts := xor_parts (a := a) (c := b) (Nat.two_pow_pos k) (Nat.two_pow_pos k)
  rw [Nat.add_zero, Nat.add_zero, Nat.xor_self, Nat.add_zero] at hparts
  exact hparts

theorem beNat_xorWith {a b : Bytes} (h : a.length = b.length) : beNat (xorWith a b) = beNat a ^^^ beNat b := by
  induction a generalizing b with
  | nil => rw [length_eq_zero_iff.mp h.symm]; rfl
  | cons x a ih =>
    cases b with
    | nil => cases h
    | cons y b =>
      have hlen : a.length = b.length := Nat.succ.inj h
      have hpow : (256 : Nat) ^ a.length = 2 ^ (8 * a.length) := by rw [Nat.pow_mul]
      have ha := beNat_lt a
      have hb := beNat_lt b
      have hcons : ∀ (z : UInt8) (c : Bytes), beNat (z :: c) = z.toNat * 256 ^ c.length + beNat c := fun z c => by
        rw [← singleton_append, beNat_append, beNat, foldl_cons, foldl_nil, Nat.zero_mul, Nat.zero_add]
      have hxor : xorWith (x :: a) (y :: b) = (x ^^^ y) :: xorWith a b := rfl
      have hsame : (xorWith a b).length = a.length := by rw [length_xorWith, hlen, Nat.min_self]
      rw [← hlen] at hb
      rw [hxor, hcons, hcons, hcons, ih hlen, hsame, ← hlen, hpow, UInt8.toNat_xor]
      rw [hpow] at ha hb
      exact (xor_parts ha hb).symm

theorem beNat_be16 (n : UInt16) : beNat (be16 n) = n.toNat := by
  have hn := n.toNat_lt
  simp [beNat, be16, Nat.shiftRight_eq_div_pow]
  omega

theorem beNat_be32 (n : UInt32) : beNat (be32 n) = n.toNat := by
  have hn := n.toNat_lt
  simp [beNat, be32, Nat.shiftRight_eq_div_pow]
  omega

end Wave.Lib.Bytes
