import Wave.Common.SrtpTag
import Wave.Lib.BigEndian

/-! # The counter of AES-CM

`counterOf` has salt, SSRC, index and block number each in its place; `aes_cm_xor` puts two of them elsewhere. -/

namespace Wave.Common.SrtpCore

open Lib Lib.Bytes

/-- The `j`-th counter: the salt, the SSRC and the index in their places, and the block number. -/
def counterOf (salt : Bytes) (ssrc : UInt32) (index : UInt64) (j : Nat) : Nat :=
  (beNat salt * 2 ^ 16 ^^^ ssrc.toNat * 2 ^ 64 ^^^ index.toNat * 2 ^ 16) + j

def blockOf (data : Bytes) (j : Nat) : Bytes := (data.drop (16 * j)).take 16

/-- The places that the index takes in `aes_cm_xor` are the ones it has. -/
def IndexPlaced (salt : Bytes) (index : UInt64) : Prop :=
  index.toNat / 2 ^ 16 = index.toNat % 2 ^ 32 ∧ beNat (salt.drop 12) = index.toNat % 2 ^ 16

instance (salt : Bytes) (index : UInt64) : Decidable (IndexPlaced salt index) := inferInstanceAs (Decidable (_ ∧ _))

section Counter

variable {salt : Bytes} {ssrc : UInt32} {index : UInt64} {j : Nat}

theorem beBytes_counterOf (hsalt : salt.length = 14) (hindex : index.toNat < 2 ^ 48) (hj : j < 2 ^ 16) :
    beBytes 16 (counterOf salt ssrc index j) =
      xorWith (salt.take 12) (([0, 0, 0, 0] : Bytes) ++ be32 ssrc ++ be32 (index >>> 16).toUInt32) ++
        xorWith (salt.drop 12) (be16 index.toUInt16) ++ be16 (UInt16.ofNat j) := by
  have htake : (salt.take 12).length = 12 := length_take_of_le (by omega)
  have hdrop : (salt.drop 12).length = 2 := by rw [length_drop, hsalt]
  have hhigh : (index >>> 16).toUInt32.toNat = index.toNat / 2 ^ 16 := by
    rw [UInt64.toNat_toUInt32, UInt64.toNat_shiftRight]
    change index.toNat >>> 16 % 2 ^ 32 = _
    rw [Nat.shiftRight_eq_div_pow]
    omega
  have hlow : index.toUInt16.toNat = index.toNat % 2 ^ 16 := UInt64.toNat_toUInt16 index
  have hblock : (UInt16.ofNat j).toNat = j := UInt16.toNat_ofNat_of_lt' hj
  have hssrc := ssrc.toNat_lt
  have hparts : beNat salt = beNat (salt.take 12) * 2 ^ 16 + beNat (salt.drop 12) := by
    conv_lhs => rw [← take_append_drop 12 salt]
    rw [beNat_append, hdrop]
    rfl
  have hsaltHigh : beNat (salt.take 12) < 2 ^ 96 := by
    have hlt := beNat_lt (salt.take 12)
    rw [htake] at hlt
    exact hlt
  have hsaltLow : beNat (salt.drop 12) < 2 ^ 16 := by
    have hlt := beNat_lt (salt.drop 12)
    rw [hdrop] at hlt
    exact hlt
  have hindexHigh : index.toNat / 2 ^ 16 < 2 ^ 32 := by omega
  have hindexLow : index.toNat % 2 ^ 16 < 2 ^ 16 := Nat.mod_lt _ (Nat.two_pow_pos 16)
  have hindexParts : index.toNat = index.toNat / 2 ^ 16 * 2 ^ 16 + index.toNat % 2 ^ 16 := (Nat.div_add_mod' _ _).symm
  -- the numbers, each in the parts of the bytes
  have hplaces : ssrc.toNat * 2 ^ 48 ^^^ index.toNat =
      (ssrc.toNat * 2 ^ 32 + index.toNat / 2 ^ 16) * 2 ^ 16 + index.toNat % 2 ^ 16 := by
    have hparts := xor_parts (a := ssrc.toNat * 2 ^ 32) (c := index.toNat / 2 ^ 16) (Nat.two_pow_pos 16) hindexLow
    rw [Nat.add_zero, ← hindexParts, Nat.zero_xor, xor_low hindexHigh] at hparts
    rw [← hparts]
    exact congrArg (· ^^^ index.toNat) (Nat.mul_assoc ssrc.toNat (2 ^ 32) (2 ^ 16)).symm
  have hvalue : counterOf salt ssrc index j =
      ((beNat (salt.take 12) ^^^ (ssrc.toNat * 2 ^ 32 + index.toNat / 2 ^ 16)) * 2 ^ 16 +
        (beNat (salt.drop 12) ^^^ index.toNat % 2 ^ 16)) * 2 ^ 16 + j := by
    have hshift : ssrc.toNat * 2 ^ 64 = ssrc.toNat * 2 ^ 48 * 2 ^ 16 := (Nat.mul_assoc ssrc.toNat (2 ^ 48) (2 ^ 16)).symm
    rw [counterOf, hshift, xor_mul_two_pow, xor_mul_two_pow, Nat.xor_assoc, hplaces, hparts, xor_parts hsaltLow hindexLow]
  have hfits : counterOf salt ssrc index j < 256 ^ 16 := by
    have hfront : beNat (salt.take 12) ^^^ (ssrc.toNat * 2 ^ 32 + index.toNat / 2 ^ 16) < 2 ^ 96 :=
      Nat.xor_lt_two_pow hsaltHigh (by omega)
    have hback : beNat (salt.drop 12) ^^^ index.toNat % 2 ^ 16 < 2 ^ 16 := Nat.xor_lt_two_pow hsaltLow hindexLow
    rw [hvalue]
    omega
  apply beNat_injective
  · simp only [length_beBytes, length_append, length_xorWith, length_be32, length_be16, htake, hdrop]
    rfl
  · rw [beNat_beBytes hfits, hvalue, beNat_append, beNat_append, beNat_xorWith, beNat_xorWith, beNat_append, beNat_append,
      beNat_be32, beNat_be32, beNat_be16, beNat_be16, hhigh, hlow, hblock]
    · have htwo : (256 : Nat) ^ 2 = 2 ^ 16 := by decide
      have hfour : (256 : Nat) ^ 4 = 2 ^ 32 := by decide
      have hzero : beNat [0, 0, 0, 0] = 0 := rfl
      simp only [length_xorWith, hdrop, length_be16, length_be32, Nat.min_self, hzero, Nat.zero_mul, Nat.zero_add, htwo, hfour]
    · rw [hdrop, length_be16]
    · rw [htake]
      rfl

theorem be32_small (hj : j < 2 ^ 16) : be32 (UInt32.ofNat j) = [0, 0] ++ be16 (UInt16.ofNat j) := by
  apply beNat_injective
  · rfl
  · rw [beNat_be32, beNat_append, beNat_be16, UInt32.toNat_ofNat_of_lt' (Nat.lt_trans hj (by decide)),
      UInt16.toNat_ofNat_of_lt' hj, show beNat [0, 0] = 0 from rfl, Nat.zero_mul, Nat.zero_add]

theorem cmCounter_eq_iff (hsalt : salt.length = 14) (hindex : index.toNat < 2 ^ 48) (hj : j < 2 ^ 16) :
    cmCounter salt ssrc index (UInt32.ofNat j) = beBytes 16 (counterOf salt ssrc index j) ↔ IndexPlaced salt index := by
  have htake : (salt.take 12).length = 12 := length_take_of_le (by omega)
  have hdrop : (salt.drop 12).length = 2 := by rw [length_drop, hsalt]
  have hlowHalf : index.toUInt32.toNat = index.toNat % 2 ^ 32 := UInt64.toNat_toUInt32 index
  have hhigh : (index >>> 16).toUInt32.toNat = index.toNat / 2 ^ 16 := by
    rw [UInt64.toNat_toUInt32, UInt64.toNat_shiftRight]
    change index.toNat >>> 16 % 2 ^ 32 = _
    rw [Nat.shiftRight_eq_div_pow]
    omega
  have hlow : index.toUInt16.toNat = index.toNat % 2 ^ 16 := UInt64.toNat_toUInt16 index
  have hfront : xorWith (salt.take 12) (([0, 0, 0, 0] : Bytes) ++ be32 ssrc ++ be32 index.toUInt32) =
      xorWith (salt.take 12) (([0, 0, 0, 0] : Bytes) ++ be32 ssrc ++ be32 (index >>> 16).toUInt32) ↔
        index.toNat / 2 ^ 16 = index.toNat % 2 ^ 32 := by
    constructor
    · intro h
      have hin := xorWith_cancel_left (by rw [htake]; exact le_rfl) (by rw [htake]; exact le_rfl) h
      have hsame := be32_injective (append_cancel_left hin)
      rw [← hhigh, ← hlowHalf, hsame]
    · intro h
      rw [UInt32.toNat.inj (show index.toUInt32.toNat = (index >>> 16).toUInt32.toNat by omega)]
  have hback : ([0, 0] : Bytes) = xorWith (salt.drop 12) (be16 index.toUInt16) ↔
      beNat (salt.drop 12) = index.toNat % 2 ^ 16 := by
    have hlen : (salt.drop 12).length = (be16 index.toUInt16).length := hdrop
    have hxor : (xorWith (salt.drop 12) (be16 index.toUInt16)).length = 2 := by rw [length_xorWith, hdrop]; rfl
    rw [← hlow, ← beNat_be16]
    constructor
    · intro h
      rw [(xorWith_eq_zero hlen).mp fun x hx => by
        rw [← h] at hx
        simpa using hx]
    · intro h
      have hzero := (xorWith_eq_zero hlen).mpr (beNat_injective hlen h)
      obtain ⟨x, y, hxy⟩ := List.length_eq_two.mp hxor
      rw [hxy] at hzero ⊢
      rw [hzero x (by simp), hzero y (by simp)]
  rw [beBytes_counterOf hsalt hindex hj, cmCounter, be32_small hj, ← append_assoc, IndexPlaced, ← hfront, ← hback]
  constructor
  · intro h
    have hinner := List.append_cancel_right h
    exact append_inj hinner (by rw [length_xorWith, length_xorWith, htake]; rfl)
  · rintro ⟨ha, hb⟩
    rw [ha, ← hb]

theorem cmCounter_shared_iff (hsalt : salt.length = 14) {ssrc' : UInt32} {index' : UInt64} {a b : UInt32} :
    cmCounter salt ssrc index a = cmCounter salt ssrc' index' b ↔
      ssrc = ssrc' ∧ index.toNat % 2 ^ 32 = index'.toNat % 2 ^ 32 ∧ a = b := by
  have htake : (salt.take 12).length = 12 := length_take_of_le (by omega)
  constructor
  · intro h
    obtain ⟨hfront, hblock⟩ := append_inj h (by rw [length_xorWith, length_xorWith, htake]; rfl)
    have hin := xorWith_cancel_left (by rw [htake]; exact le_rfl) (by rw [htake]; exact le_rfl) hfront
    obtain ⟨hhead, hindex⟩ := append_inj hin rfl
    refine ⟨be32_injective (append_cancel_left hhead), ?_, be32_injective hblock⟩
    rw [← UInt64.toNat_toUInt32, ← UInt64.toNat_toUInt32, be32_injective hindex]
  · rintro ⟨rfl, hindex, rfl⟩
    have hsame : index.toUInt32 = index'.toUInt32 := UInt32.toNat.inj (by
      rw [UInt64.toNat_toUInt32, UInt64.toNat_toUInt32]
      exact hindex)
    rw [cmCounter, cmCounter, hsame]

end Counter

section Stream

variable (sdk : SdkCrypto) {key salt data : Bytes} {ssrc : UInt32} {index : UInt64} {fuel : Nat} {blockNo : UInt32} {j : Nat}

theorem blockOf_loop (hfuel : data.length ≤ fuel) (hj : 16 * j < data.length) :
    blockOf (aesCmXorLoop sdk key salt ssrc index fuel blockNo data) j =
      xorWith (blockOf data j)
        (sdk.aes128EcbEncryptBlock key (cmCounter salt ssrc index (blockNo + UInt32.ofNat j))) := by
  induction fuel generalizing blockNo data j with
  | zero => omega
  | succ fuel ih =>
    have hne : data ≠ [] := ne_nil_of_length_pos (by omega)
    have hfirst : (xorWith (data.take 16) (sdk.aes128EcbEncryptBlock key (cmCounter salt ssrc index blockNo))).length =
        min 16 data.length := by
      rw [length_xorWith, sdk.length_aes, length_take]
      omega
    unfold aesCmXorLoop
    rw [if_neg hne]
    dsimp only
    cases j with
    | zero =>
      have hstart : blockNo + UInt32.ofNat 0 = blockNo := UInt32.add_zero blockNo
      rw [hstart]
      unfold blockOf
      rw [Nat.mul_zero, drop_zero, drop_zero]
      rcases Nat.lt_or_ge data.length 16 with hshort | hlong
      · have hrest : data.drop 16 = [] := drop_eq_nil_of_le (Nat.le_of_lt hshort)
        have hnil : aesCmXorLoop sdk key salt ssrc index fuel (blockNo + 1) [] = [] := by
          cases fuel with
          | zero => rfl
          | succ fuel => exact if_pos rfl
        rw [hrest, hnil, append_nil, take_of_length_le (by omega)]
      · rw [take_append_of_le_length (by omega), take_of_length_le (by omega)]
    | succ j =>
      have hnext : blockOf (aesCmXorLoop sdk key salt ssrc index fuel (blockNo + 1) (data.drop 16)) j = _ :=
        ih (by rw [length_drop]; omega) (by rw [length_drop]; omega)
      have hblock : blockNo + 1 + UInt32.ofNat j = blockNo + UInt32.ofNat (j + 1) := by
        rw [UInt32.add_assoc, UInt32.ofNat_add, UInt32.add_comm 1]
        rfl
      have hlen : (xorWith (data.take 16) (sdk.aes128EcbEncryptBlock key (cmCounter salt ssrc index blockNo))).length = 16 := by
        omega
      have hat : 16 * (j + 1) = 16 + 16 * j := by omega
      rw [hblock] at hnext
      unfold blockOf at hnext ⊢
      rw [hat, ← drop_drop, List.drop_left' hlen, hnext, drop_drop]

end Stream

theorem length_ones : (List.replicate 16 (1 : UInt8)).length = 16 := length_replicate

def markedSdk (block : Bytes) : SdkCrypto :=
  plainSdk fun _ b => if b = block then FixedBytes.zero 16 else ⟨List.replicate 16 1, length_ones⟩

theorem markedSdk_ne {key block other data : Bytes} (hne : other ≠ block) (hdata : data ≠ []) :
    xorWith data ((markedSdk block).aes128EcbEncryptBlock key block) ≠
      xorWith data ((markedSdk block).aes128EcbEncryptBlock key other) := by
  obtain ⟨b, rest, rfl⟩ := exists_cons_of_ne_nil hdata
  have hzero : (markedSdk block).aes128EcbEncryptBlock key block = List.replicate 16 0 :=
    congrArg Subtype.val (if_pos (rfl : block = block))
  have hones : (markedSdk block).aes128EcbEncryptBlock key other = List.replicate 16 1 :=
    congrArg Subtype.val (if_neg hne)
  rw [hzero, hones]
  intro h
  have hfirst : (b ^^^ 0) = b ^^^ 1 := (List.cons.inj h).1
  revert hfirst
  exact of_every_byte (P := fun b => (b ^^^ 0) ≠ b ^^^ 1) (by decide +kernel) b

/-- Every block is xored under its own counter exactly when there is none or the index is placed; two blocks have one
counter exactly when their indices have one low half. -/
theorem counter_iff (key salt : Bytes) (ssrc : UInt32) (index : UInt64) (data : Bytes) (hsalt : salt.length = 14)
    (hindex : index.toNat < 2 ^ 48) (hdata : data.length ≤ 16 * 2 ^ 16) :
    ((∀ sdk j, 16 * j < data.length →
        blockOf (aesCmXor sdk key salt ssrc index data) j =
          xorWith (blockOf data j) (sdk.aes128EcbEncryptBlock key (beBytes 16 (counterOf salt ssrc index j)))) ↔
      data = [] ∨ IndexPlaced salt index) ∧
    ∀ (ssrc' : UInt32) (index' : UInt64) (a b : UInt32),
      cmCounter salt ssrc index a = cmCounter salt ssrc' index' b ↔
        ssrc = ssrc' ∧ index.toNat % 2 ^ 32 = index'.toNat % 2 ^ 32 ∧ a = b := by
  have hzero : ∀ j, (0 : UInt32) + UInt32.ofNat j = UInt32.ofNat j := fun j => UInt32.zero_add _
  refine ⟨⟨fun hall => ?_, fun h sdk j hj => ?_⟩, fun _ _ _ _ => cmCounter_shared_iff hsalt⟩
  · by_cases hnil : data = []
    · exact .inl hnil
    right
    have hpos : 16 * 0 < data.length := length_pos_iff.mpr hnil
    have hplaced : cmCounter salt ssrc index (UInt32.ofNat 0) = beBytes 16 (counterOf salt ssrc index 0) ↔
        IndexPlaced salt index := cmCounter_eq_iff hsalt hindex (Nat.two_pow_pos 16)
    rw [← hplaced]
    by_contra hne
    have hblock : blockOf (aesCmXorLoop (markedSdk (cmCounter salt ssrc index (UInt32.ofNat 0))) key salt ssrc index
        data.length 0 data) 0 = _ := blockOf_loop _ le_rfl hpos
    have hclaim := hall (markedSdk (cmCounter salt ssrc index (UInt32.ofNat 0))) 0 hpos
    rw [hzero] at hblock
    rw [aesCmXor, hblock] at hclaim
    refine markedSdk_ne (Ne.symm hne) ?_ hclaim
    unfold blockOf
    rw [Nat.mul_zero, drop_zero]
    exact ne_nil_of_length_pos (by rw [length_take]; omega)
  · have hplaced := h.resolve_left (ne_nil_of_length_pos (by omega))
    have hblock : blockOf (aesCmXorLoop sdk key salt ssrc index data.length 0 data) j = _ := blockOf_loop sdk le_rfl hj
    rw [hzero, (cmCounter_eq_iff hsalt hindex (by omega)).mpr hplaced] at hblock
    exact hblock

theorem counter_zero :
    IndexPlaced zeroSalt 0 ∧ ∀ sdk j, 16 * j < zeroKey.length →
      blockOf (aesCmXor sdk zeroKey zeroSalt 7 0 zeroKey) j =
        xorWith (blockOf zeroKey j) (sdk.aes128EcbEncryptBlock zeroKey (beBytes 16 (counterOf zeroSalt 7 0 j))) :=
  ⟨by decide, (counter_iff zeroKey zeroSalt 7 0 zeroKey (by decide) (by decide) (by decide)).1.mpr (.inr (by decide))⟩

/-- The second packet of a stream is enciphered under a counter that is not its own, and one 2^32 packets on under the
same. -/
theorem second_packet_misplaced :
    cmCounter zeroSalt 7 1 0 ≠ beBytes 16 (counterOf zeroSalt 7 1 0) ∧
      blockOf (aesCmXor (markedSdk (cmCounter zeroSalt 7 1 0)) zeroKey zeroSalt 7 1 zeroKey) 0 ≠
        xorWith (blockOf zeroKey 0)
          ((markedSdk (cmCounter zeroSalt 7 1 0)).aes128EcbEncryptBlock zeroKey (beBytes 16 (counterOf zeroSalt 7 1 0))) ∧
      cmCounter zeroSalt 7 1 0 = cmCounter zeroSalt 7 0x100000001 0 := by
  decide +kernel

end Wave.Common.SrtpCore
