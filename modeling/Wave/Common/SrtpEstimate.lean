import Wave.Common.SrtpCore

/-! # What the rollover estimate gets right

`estimateRoc` goes a rollover back where it should go one on, and the other way round. -/

namespace Wave.Common.SrtpCore

section

variable (last index : UInt64)

theorem packetIndex_toNat (roc : UInt32) (sequence : UInt16) :
    (packetIndex roc sequence).toNat = roc.toNat * 2 ^ 16 + sequence.toNat := by
  have hroc := roc.toNat_lt
  have hseq := sequence.toNat_lt
  have hshift : (roc.toUInt64 <<< 16).toNat = roc.toNat <<< 16 := by
    rw [UInt64.toNat_shiftLeft, UInt32.toNat_toUInt64]
    change roc.toNat <<< 16 % 2 ^ 64 = _
    rw [Nat.shiftLeft_eq]
    exact Nat.mod_eq_of_lt (by omega)
  rw [packetIndex, UInt64.toNat_or, hshift, UInt16.toNat_toUInt64, ← Nat.shiftLeft_add_eq_or_of_lt hseq,
    Nat.shiftLeft_eq]

theorem estimateRoc_toNat (h : last.toNat < 2 ^ 48) (sequence : UInt16) :
    (estimateRoc last sequence).toNat =
      if sequence.toNat < 0x8000 ∧ 0x8000 < last.toNat % 2 ^ 16 ∧ 0 < last.toNat / 2 ^ 16 then last.toNat / 2 ^ 16 - 1
      else if 0x8000 < sequence.toNat ∧ last.toNat % 2 ^ 16 < 0x8000 then last.toNat / 2 ^ 16 + 1
      else last.toNat / 2 ^ 16 := by
  have hroc : (last >>> 16).toNat = last.toNat / 2 ^ 16 := by
    rw [UInt64.toNat_shiftRight]
    change last.toNat >>> 16 = _
    rw [Nat.shiftRight_eq_div_pow]
  have hseq : last.toUInt16.toNat = last.toNat % 2 ^ 16 := UInt64.toNat_toUInt16 last
  unfold estimateRoc
  dsimp only
  simp only [gt_iff_lt, UInt16.lt_iff_toNat_lt, UInt64.lt_iff_toNat_lt, hroc, hseq]
  change (if sequence.toNat < 0x8000 ∧ 0x8000 < last.toNat % 2 ^ 16 ∧ 0 < last.toNat / 2 ^ 16 then last >>> 16 - 1
    else if 0x8000 < sequence.toNat ∧ last.toNat % 2 ^ 16 < 0x8000 then last >>> 16 + 1 else last >>> 16).toNat = _
  split
  next hback =>
    rw [UInt64.toNat_sub_of_le _ _ (by rw [UInt64.le_iff_toNat_le, hroc]; exact hback.2.2), hroc]
    rfl
  · split
    · rw [UInt64.toNat_add, hroc]
      change (last.toNat / 2 ^ 16 + 1) % 2 ^ 64 = _
      omega
    · exact hroc

/-- Packets with no rollover in between, unless on two sides of the middle; and of the first 2^16 also the early ones.
-/
theorem estimate_iff (hlast : last.toNat < 2 ^ 48) (hindex : index.toNat < 2 ^ 48)
    (hnear : index.toNat < last.toNat + 2 ^ 15 ∧ last.toNat < index.toNat + 2 ^ 15) :
    packetIndex (estimateRoc last index.toUInt16).toUInt32 index.toUInt16 = index ↔
      ¬ (index.toNat % 2 ^ 16 < 0x8000 ∧ 0x8000 < last.toNat % 2 ^ 16 ∧
          (2 ^ 16 ≤ last.toNat ∨ 2 ^ 16 ≤ index.toNat)) ∧
        ¬ (last.toNat % 2 ^ 16 < 0x8000 ∧ 0x8000 < index.toNat % 2 ^ 16) := by
  rw [← UInt64.toNat_inj, packetIndex_toNat, UInt64.toNat_toUInt32, estimateRoc_toNat last hlast,
    UInt64.toNat_toUInt16]
  -- Both indices by their rollover counter and their sequence number.
  obtain ⟨r, l, hl, hL⟩ : ∃ r l, l < 2 ^ 16 ∧ last.toNat = r * 2 ^ 16 + l :=
    ⟨last.toNat / 2 ^ 16, last.toNat % 2 ^ 16, Nat.mod_lt _ (by decide), (Nat.div_add_mod' _ _).symm⟩
  obtain ⟨q, s, hs, hI⟩ : ∃ q s, s < 2 ^ 16 ∧ index.toNat = q * 2 ^ 16 + s :=
    ⟨index.toNat / 2 ^ 16, index.toNat % 2 ^ 16, Nat.mod_lt _ (by decide), (Nat.div_add_mod' _ _).symm⟩
  rw [hL] at hlast hnear
  rw [hI] at hindex hnear
  rw [hL, hI, show (r * 2 ^ 16 + l) % 2 ^ 16 = l by omega, show (r * 2 ^ 16 + l) / 2 ^ 16 = r by omega,
    show (q * 2 ^ 16 + s) % 2 ^ 16 = s by omega]
  split
  next hback => omega
  next hback =>
    split
    next hon => omega
    next hon => omega

/-- The first packet behind a rollover is taken for one of the rollover before. -/
theorem estimate_first_rollover :
    (0x10000 : UInt64).toNat < 2 ^ 48 ∧ (0x10000 : UInt64).toNat < (0xFFFF : UInt64).toNat + 2 ^ 15 ∧
      packetIndex (estimateRoc 0xFFFF (0x10000 : UInt64).toUInt16).toUInt32 (0x10000 : UInt64).toUInt16 = 0 := by
  decide

theorem estimate_iff_near :
    packetIndex (estimateRoc 0x12345 (0x12346 : UInt64).toUInt16).toUInt32 (0x12346 : UInt64).toUInt16 = 0x12346 :=
  (estimate_iff 0x12345 0x12346 (by decide) (by decide) (by decide)).mpr (by decide)

end

end Wave.Common.SrtpCore
