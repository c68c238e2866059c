import Mathlib.Data.List.Induction
import Mathlib.Data.Nat.Bitwise

/-! # Strings of bits, most significant first -/

namespace Wave.Lib.Bits

def toBits : Nat → Nat → List Bool
  | 0, _ => []
  | n + 1, v => v.testBit n :: toBits n v

def value (p : List Bool) : Nat := p.foldl (fun v b => v * 2 + b.toNat) 0

variable {n v : Nat} {p : List Bool}

@[simp] theorem length_toBits (n v : Nat) : (toBits n v).length = n := by
  induction n with
  | zero => rfl
  | succ n ih => rw [toBits, List.length_cons, ih]

@[simp] theorem value_nil : value [] = 0 := rfl

theorem value_concat (p : List Bool) (b : Bool) : value (p ++ [b]) = value p * 2 + b.toNat := by
  simp [value]

theorem toBits_concat (n v : Nat) : toBits (n + 1) v = toBits n (v / 2) ++ [v.testBit 0] := by
  induction n with
  | zero => rfl
  | succ n ih =>
    rw [toBits, ih, ← Nat.testBit_div_two]
    rfl

theorem value_lt (p : List Bool) : value p < 2 ^ p.length := by
  induction p using List.reverseRecOn with
  | nil => exact Nat.one_pos
  | append_singleton p b ih =>
    have hb := Bool.toNat_lt b
    rw [value_concat, List.length_append, List.length_singleton, Nat.pow_succ]
    omega

theorem toBits_value (p : List Bool) : toBits p.length (value p) = p := by
  induction p using List.reverseRecOn with
  | nil => rfl
  | append_singleton p b ih =>
    have hb := Bool.toNat_lt b
    have hhalf : (value p * 2 + b.toNat) / 2 = value p := by omega
    have hlow : (value p * 2 + b.toNat).testBit 0 = b := by
      rw [Nat.testBit_zero]
      cases b <;> simp [Nat.add_mod]
    rw [List.length_append, List.length_singleton, value_concat, toBits_concat, hhalf, hlow, ih]

theorem value_toBits (h : v < 2 ^ n) : value (toBits n v) = v := by
  induction n generalizing v with
  | zero =>
    rw [Nat.pow_zero] at h
    rw [toBits, value_nil]
    omega
  | succ n ih =>
    have hlow : (v.testBit 0).toNat = v % 2 := by
      rw [Nat.testBit_zero]
      rcases Nat.mod_two_eq_zero_or_one v with h0 | h1
      · rw [h0]; rfl
      · rw [h1]; rfl
    rw [toBits_concat, value_concat, ih (by rw [Nat.pow_succ] at h; omega), hlow]
    omega

theorem value_inj {q : List Bool} (hlen : p.length = q.length) (h : value p = value q) : p = q := by
  rw [← toBits_value p, ← toBits_value q, hlen, h]

theorem value_ones (n : Nat) : value (List.replicate n true) = 2 ^ n - 1 := by
  induction n with
  | zero => rfl
  | succ n ih =>
    have hpos := Nat.two_pow_pos n
    rw [List.replicate_succ', value_concat, ih, Nat.pow_succ, Bool.toNat_true]
    omega

end Wave.Lib.Bits
