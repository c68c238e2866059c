import Wave.Lib.Bytes

/-! # Decimals, digit by digit -/

namespace Wave.Lib

def digitByte (d : Nat) : UInt8 := UInt8.ofNat (48 + d)

theorem digitChar_byte {d : Nat} (hd : d < 10) : UInt8.ofNat d.digitChar.toNat = digitByte d := by
  have hall : ∀ d < 10, UInt8.ofNat (Nat.digitChar d).toNat = digitByte d := by decide
  exact hall d hd

theorem decimal_small {n : Nat} (h : n < 10) : decimal n = [digitByte n] := by
  rw [decimal, Nat.toDigits_of_lt_base h, map_singleton, digitChar_byte h]

theorem decimal_big {n : Nat} (h : 10 ≤ n) : decimal n = decimal (n / 10) ++ [digitByte (n % 10)] := by
  rw [decimal, Nat.toDigits_of_base_le (by decide) h, map_append, map_singleton,
    digitChar_byte (Nat.mod_lt n (by decide)), ← decimal]

/-- What holds of a number of one digit, and of a number when it holds without the last digit. -/
theorem decimal_induction {P : Nat → Bytes → Prop} (hsmall : ∀ d < 10, P d [digitByte d])
    (hbig : ∀ n digits d, P n digits → d < 10 → P (n * 10 + d) (digits ++ [digitByte d])) (n : Nat) : P n (decimal n) := by
  induction n using Nat.strong_induction_on with
  | h n ih =>
    by_cases h : n < 10
    · rw [decimal_small h]
      exact hsmall n h
    · have hall := hbig (n / 10) _ (n % 10) (ih (n / 10) (by omega)) (Nat.mod_lt n (by decide))
      rwa [← decimal_big (not_lt.mp h), Nat.div_add_mod'] at hall

theorem decimal_ne_nil (n : Nat) : decimal n ≠ [] := by
  rw [decimal, ne_eq, map_eq_nil_iff]
  exact Nat.toDigits_ne_nil

theorem length_decimal {n : Nat} (k : Nat) (h : n < 10 ^ (k + 1)) : (decimal n).length ≤ k + 1 := by
  induction k generalizing n with
  | zero =>
    rw [decimal_small (by omega)]
    exact le_rfl
  | succ k ih =>
    by_cases hsmall : n < 10
    · rw [decimal_small hsmall]
      exact Nat.le_add_left _ _
    · have hrest := ih (n := n / 10) (by rw [Nat.pow_succ] at h; omega)
      rw [decimal_big (not_lt.mp hsmall), length_append, length_singleton]
      omega

end Wave.Lib
