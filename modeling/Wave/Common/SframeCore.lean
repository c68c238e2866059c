import Wave.Lib.BigEndian

/-! # SFrame headers (`common/sframe_core.rs`) -/

namespace Wave.Common

open Lib Bytes

variable {width : Nat}

def SFRAME_EXTENDED_KID : UInt8 := 0x80
def SFRAME_EXTENDED_CTR : UInt8 := 0x08

def SFRAME_INLINE_MAX : UInt64 := 7

structure SframeHeader where
  keyId : UInt64
  counter : UInt64
  headerLen : Nat

/-- The loop of `sframe_width`. -/
def sframeWidthLoop : (fuel width : Nat) → (remaining : UInt64) → Nat
  | 0, width, _ => width
  | fuel + 1, width, remaining =>
    if remaining ≠ 0 ∧ width < 8 then sframeWidthLoop fuel (width + 1) (remaining >>> 8) else width

def sframeWidth (value : UInt64) : Nat := sframeWidthLoop 8 1 (value >>> 8)

def sframeExtra (value : UInt64) : Nat := if value > SFRAME_INLINE_MAX then sframeWidth value else 0

def sframeHeaderLen (keyId counter : UInt64) : Nat := 1 + sframeExtra keyId + sframeExtra counter

/-- `write_be`: the last `width` bytes. -/
def writeBe (value : UInt64) (width : Nat) : Bytes := (be64 value).drop (8 - width)

def readBe (bytes : Bytes) : UInt64 := bytes.foldl (fun value b => (value <<< 8) ||| b.toUInt64) 0

/-- The config byte of `write_sframe_header`. -/
def sframeConfig (keyId counter : UInt64) : UInt8 :=
  let key :=
    if keyId > SFRAME_INLINE_MAX then SFRAME_EXTENDED_KID ||| ((UInt8.ofNat (sframeWidth keyId) - 1) &&& 0x07) <<< 4
    else (keyId.toUInt8 &&& 0x07) <<< 4
  if counter > SFRAME_INLINE_MAX then key ||| SFRAME_EXTENDED_CTR ||| ((UInt8.ofNat (sframeWidth counter) - 1) &&& 0x07)
  else key ||| (counter.toUInt8 &&& 0x07)

/-- What is in `out` after it, and how many bytes were written; nothing is, if they do not fit. -/
def writeSframeHeader (keyId counter : UInt64) (out : Bytes) : Option (Bytes × Nat) :=
  if out.length < sframeHeaderLen keyId counter then none
  else
    let out := out.set 0 (sframeConfig keyId counter)
    let out := if keyId > SFRAME_INLINE_MAX then splice out 1 (writeBe keyId (sframeWidth keyId)) else out
    let out :=
      if counter > SFRAME_INLINE_MAX then splice out (1 + sframeExtra keyId) (writeBe counter (sframeWidth counter)) else out
    some (out, sframeHeaderLen keyId counter)

def parseSframeHeader (buf : Bytes) : Option SframeHeader :=
  if buf = [] then none
  else
    let config := at0 buf 0
    let keyField := (config >>> 4) &&& 0x07
    let counterField := config &&& 0x07
    let keyWidth := if config &&& SFRAME_EXTENDED_KID ≠ 0 then (keyField + 1).toNat else 0
    let counterWidth := if config &&& SFRAME_EXTENDED_CTR ≠ 0 then (counterField + 1).toNat else 0
    let headerLen := 1 + keyWidth + counterWidth
    if headerLen > buf.length then none
    else some
      { keyId := if config &&& SFRAME_EXTENDED_KID ≠ 0 then readBe (slice buf 1 (1 + keyWidth)) else keyField.toUInt64
        counter := if config &&& SFRAME_EXTENDED_CTR ≠ 0 then readBe (slice buf (1 + keyWidth) headerLen) else counterField.toUInt64
        headerLen }

def sframeNonce (counter : UInt64) (salt out : Bytes) : Option Bytes :=
  if out.length < 8 ∨ out.length ≠ salt.length then none
  else some (xorWith (List.replicate (out.length - 8) 0 ++ be64 counter) salt)

section Width

variable {v : UInt64}

theorem sframeWidthLoop_spec {fuel width : Nat} {remaining : UInt64} (hfuel : fuel + width = 9) (hwidth : 1 ≤ width)
    (hremaining : remaining.toNat = v.toNat / 256 ^ width) (hneed : width = 1 ∨ 256 ^ (width - 1) ≤ v.toNat) (hle : width ≤ 8) :
    let w := sframeWidthLoop fuel width remaining
    1 ≤ w ∧ w ≤ 8 ∧ v.toNat < 256 ^ w ∧ (w = 1 ∨ 256 ^ (w - 1) ≤ v.toNat) := by
  induction fuel generalizing width remaining with
  | zero => omega
  | succ fuel ih =>
    rw [sframeWidthLoop]
    split
    next hmore =>
      obtain ⟨hne, hlt⟩ := hmore
      have hpos : 0 < v.toNat / 256 ^ width := by
        rw [← hremaining]
        exact Nat.pos_of_ne_zero fun h => hne (UInt64.toNat.inj h)
      refine ih (by omega) (by omega) ?_ (Or.inr ?_) hlt
      · rw [UInt64.toNat_shiftRight, hremaining, Nat.shiftRight_eq_div_pow, Nat.pow_succ, ← Nat.div_div_eq_div_mul]
        rfl
      · rw [Nat.add_sub_cancel]
        exact (Nat.div_pos_iff.mp hpos).2
    next hlast =>
      refine ⟨hwidth, hle, ?_, hneed⟩
      by_cases hzero : remaining = 0
      · rw [hzero] at hremaining
        exact Nat.lt_of_div_eq_zero (Nat.pow_pos (by decide)) hremaining.symm
      · have h8 : width = 8 := by
          by_contra hne
          exact hlast ⟨hzero, by omega⟩
        rw [h8]
        exact v.toNat_lt

theorem sframeWidth_spec (v : UInt64) :
    1 ≤ sframeWidth v ∧ sframeWidth v ≤ 8 ∧ v.toNat < 256 ^ sframeWidth v ∧
      (sframeWidth v = 1 ∨ 256 ^ (sframeWidth v - 1) ≤ v.toNat) := by
  refine sframeWidthLoop_spec rfl le_rfl ?_ (Or.inl rfl) (by decide)
  rw [UInt64.toNat_shiftRight, Nat.shiftRight_eq_div_pow]
  rfl

theorem sframeWidth_le {n : Nat} (h : v.toNat < 256 ^ n) (hn : 1 ≤ n) : sframeWidth v ≤ n := by
  obtain ⟨-, -, -, hone | hneed⟩ := sframeWidth_spec v
  · omega
  · have hlt : 256 ^ (sframeWidth v - 1) < 256 ^ n := hneed.trans_lt h
    have hexp := (Nat.pow_lt_pow_iff_right (by decide)).mp hlt
    omega

theorem length_writeBe (h : width ≤ 8) : (writeBe v width).length = width := by
  rw [writeBe, length_drop, length_be64]
  omega

theorem readBe_toNat {bytes : Bytes} (h : bytes.length ≤ 8) : (readBe bytes).toNat = beNat bytes := by
  induction bytes using List.reverseRecOn with
  | nil => rfl
  | append_singleton bytes b ih =>
    rw [length_append, length_singleton] at h
    have hrest := ih (by omega)
    have hlt := beNat_lt bytes
    have hpow : 256 ^ bytes.length ≤ 256 ^ 7 := Nat.pow_le_pow_right (by decide) (by omega)
    have hb := b.toNat_lt
    have hstep : readBe (bytes ++ [b]) = (readBe bytes <<< 8) ||| b.toUInt64 := by
      rw [readBe, foldl_append]
      rfl
    have hshift : (readBe bytes <<< 8).toNat = 2 ^ 8 * beNat bytes := by
      rw [UInt64.toNat_shiftLeft, hrest, Nat.shiftLeft_eq]
      change beNat bytes * 2 ^ 8 % 2 ^ 64 = _
      omega
    rw [hstep, UInt64.toNat_or, hshift, UInt8.toNat_toUInt64, ← Nat.two_pow_add_eq_or_of_lt hb, beNat_concat]
    omega

theorem readBe_writeBe (hwidth : width ≤ 8) (h : v.toNat < 256 ^ width) : readBe (writeBe v width) = v := by
  apply UInt64.toNat.inj
  rw [readBe_toNat (by rw [length_writeBe hwidth]; exact hwidth)]
  have hall : beNat (be64 v) = v.toNat := value_be64 v
  have hsplit := beNat_append ((be64 v).take (8 - width)) (writeBe v width)
  rw [writeBe, take_append_drop, ← writeBe, hall, length_writeBe hwidth] at hsplit
  have hlt := beNat_lt (writeBe v width)
  rw [length_writeBe hwidth] at hlt
  have hzero : beNat ((be64 v).take (8 - width)) = 0 := by
    by_contra hne
    have hle : 256 ^ width ≤ beNat ((be64 v).take (8 - width)) * 256 ^ width :=
      Nat.le_mul_of_pos_left _ (Nat.pos_of_ne_zero hne)
    omega
  rw [hzero] at hsplit
  omega

end Width

/-- What the config byte holds for a value: the value, or its width less one. -/
def configField (v : UInt64) : Nat := if v > SFRAME_INLINE_MAX then sframeWidth v - 1 else v.toNat

def configByte (x : Bool) (k : Nat) (y : Bool) (c : Nat) : UInt8 :=
  let key := if x then SFRAME_EXTENDED_KID ||| (UInt8.ofNat k &&& 0x07) <<< 4 else (UInt8.ofNat k &&& 0x07) <<< 4
  if y then key ||| SFRAME_EXTENDED_CTR ||| (UInt8.ofNat c &&& 0x07) else key ||| (UInt8.ofNat c &&& 0x07)

theorem configByte_parts : ∀ (x y : Bool), ∀ k < 8, ∀ c < 8,
    (configByte x k y c &&& SFRAME_EXTENDED_KID ≠ 0 ↔ x = true) ∧ (configByte x k y c >>> 4) &&& 0x07 = UInt8.ofNat k ∧
      (configByte x k y c &&& SFRAME_EXTENDED_CTR ≠ 0 ↔ y = true) ∧ configByte x k y c &&& 0x07 = UInt8.ofNat c := by
  decide +kernel

section Config

variable (keyId counter v : UInt64)

theorem inline_toNat : v > SFRAME_INLINE_MAX ↔ 7 < v.toNat := by
  rw [gt_iff_lt, UInt64.lt_iff_toNat_lt]
  rfl

theorem configField_lt : configField v < 8 := by
  obtain ⟨hpos, hle, -, -⟩ := sframeWidth_spec v
  unfold configField
  split
  · omega
  next h =>
    rw [inline_toNat] at h
    omega

theorem width_field : UInt8.ofNat (sframeWidth v) - 1 = UInt8.ofNat (sframeWidth v - 1) := by
  have hall : ∀ w < 9, 1 ≤ w → UInt8.ofNat w - 1 = UInt8.ofNat (w - 1) := by decide
  obtain ⟨hpos, hle, -, -⟩ := sframeWidth_spec v
  exact hall _ (by omega) hpos

theorem ofNat_configField :
    UInt8.ofNat (configField v) = if v > SFRAME_INLINE_MAX then UInt8.ofNat (sframeWidth v) - 1 else v.toUInt8 := by
  unfold configField
  split
  · exact (width_field v).symm
  · rfl

theorem sframeConfig_eq :
    sframeConfig keyId counter =
      configByte (keyId > SFRAME_INLINE_MAX) (configField keyId) (counter > SFRAME_INLINE_MAX) (configField counter) := by
  unfold sframeConfig configByte
  rw [ofNat_configField, ofNat_configField]
  simp only [decide_eq_true_eq]
  by_cases hkey : keyId > SFRAME_INLINE_MAX <;> by_cases hcounter : counter > SFRAME_INLINE_MAX
  · simp only [if_pos hkey, if_pos hcounter]
  · simp only [if_pos hkey, if_neg hcounter]
  · simp only [if_neg hkey, if_pos hcounter]
  · simp only [if_neg hkey, if_neg hcounter]

end Config

section Header

variable {keyId counter : UInt64} {rest buf : Bytes}

def extraBytes (v : UInt64) : Bytes := if v > SFRAME_INLINE_MAX then writeBe v (sframeWidth v) else []

def sframeHeader (keyId counter : UInt64) : Bytes := sframeConfig keyId counter :: (extraBytes keyId ++ extraBytes counter)

theorem length_extraBytes (v : UInt64) : (extraBytes v).length = sframeExtra v := by
  unfold extraBytes sframeExtra
  split
  · exact length_writeBe (sframeWidth_spec v).2.1
  · rfl

theorem length_sframeHeader (keyId counter : UInt64) : (sframeHeader keyId counter).length = sframeHeaderLen keyId counter := by
  rw [sframeHeader, length_cons, length_append, length_extraBytes, length_extraBytes, sframeHeaderLen]
  omega

theorem sframeHeaderLen_le (keyId counter : UInt64) : sframeHeaderLen keyId counter ≤ 17 := by
  have hextra : ∀ v, sframeExtra v ≤ 8 := by
    intro v
    unfold sframeExtra
    split
    · exact (sframeWidth_spec v).2.1
    · exact Nat.zero_le _
  have hkey := hextra keyId
  have hcounter := hextra counter
  unfold sframeHeaderLen
  omega

theorem writeSframeHeader_eq (keyId counter : UInt64) (out : Bytes) :
    writeSframeHeader keyId counter out =
      if out.length < sframeHeaderLen keyId counter then none
      else some (sframeHeader keyId counter ++ out.drop (sframeHeaderLen keyId counter), sframeHeaderLen keyId counter) := by
  unfold writeSframeHeader
  split
  · rfl
  next hroom =>
    have hlength : sframeHeaderLen keyId counter ≤ out.length := not_lt.mp hroom
    have hkey := length_extraBytes keyId
    have hcounter := length_extraBytes counter
    unfold sframeHeaderLen at hlength
    obtain ⟨first, out, rfl⟩ := List.exists_cons_of_length_pos (by omega : 0 < out.length)
    rw [length_cons] at hlength
    -- the room of the key id, the room of the counter, and the rest
    obtain ⟨a, ha, out, rfl⟩ : ∃ a : Bytes, a.length = sframeExtra keyId ∧ ∃ more, out = a ++ more :=
      ⟨out.take (sframeExtra keyId), by rw [length_take]; omega, _, (take_append_drop _ _).symm⟩
    rw [length_append] at hlength
    obtain ⟨b, hb, out, rfl⟩ : ∃ b : Bytes, b.length = sframeExtra counter ∧ ∃ more, out = b ++ more :=
      ⟨out.take (sframeExtra counter), by rw [length_take]; omega, _, (take_append_drop _ _).symm⟩
    have hfirst : ∀ c : UInt8, (if keyId > SFRAME_INLINE_MAX then splice (c :: (a ++ (b ++ out))) 1 (writeBe keyId (sframeWidth keyId))
        else c :: (a ++ (b ++ out))) = c :: (extraBytes keyId ++ (b ++ out)) := by
      intro c
      have hput := splice_middle (a := [c]) (b := a) (c := b ++ out) (hkey.trans ha.symm)
      unfold extraBytes at hput hkey ⊢
      split
      next hlong =>
        rw [if_pos hlong] at hput
        exact hput
      next hshort =>
        rw [if_neg hshort, length_nil] at hkey
        rw [eq_nil_of_length_eq_zero (ha.trans hkey.symm)]
    have hsecond : ∀ c : UInt8, (if counter > SFRAME_INLINE_MAX then
          splice (c :: (extraBytes keyId ++ (b ++ out))) (1 + sframeExtra keyId) (writeBe counter (sframeWidth counter))
        else c :: (extraBytes keyId ++ (b ++ out))) = c :: (extraBytes keyId ++ (extraBytes counter ++ out)) := by
      intro c
      have hput := splice_middle (a := c :: extraBytes keyId) (b := b) (c := out) (hcounter.trans hb.symm)
      rw [length_cons, hkey, Nat.add_comm] at hput
      generalize extraBytes keyId = front at hput ⊢
      unfold extraBytes at hput hcounter ⊢
      split
      next hlong =>
        rw [if_pos hlong] at hput
        exact hput
      next hshort =>
        rw [if_neg hshort, length_nil] at hcounter
        rw [eq_nil_of_length_eq_zero (hb.trans hcounter.symm)]
    dsimp only [List.set_cons_zero]
    rw [hfirst, hsecond]
    have hdrop : (first :: (a ++ (b ++ out))).drop (sframeHeaderLen keyId counter) = out := by
      have hparts : first :: (a ++ (b ++ out)) = first :: (a ++ b) ++ out := by rw [cons_append, append_assoc]
      rw [hparts, List.drop_left']
      rw [length_cons, length_append, ha, hb, sframeHeaderLen]
      omega
    rw [hdrop, sframeHeader, cons_append, append_assoc]

theorem sframeConfig_parts (keyId counter : UInt64) :
    (sframeConfig keyId counter &&& SFRAME_EXTENDED_KID ≠ 0 ↔ keyId > SFRAME_INLINE_MAX) ∧
      (sframeConfig keyId counter >>> 4) &&& 0x07 = UInt8.ofNat (configField keyId) ∧
      (sframeConfig keyId counter &&& SFRAME_EXTENDED_CTR ≠ 0 ↔ counter > SFRAME_INLINE_MAX) ∧
      sframeConfig keyId counter &&& 0x07 = UInt8.ofNat (configField counter) := by
  have hparts := configByte_parts (keyId > SFRAME_INLINE_MAX) (counter > SFRAME_INLINE_MAX) (configField keyId)
    (configField_lt keyId) (configField counter) (configField_lt counter)
  rw [← sframeConfig_eq, decide_eq_true_eq, decide_eq_true_eq] at hparts
  exact hparts

theorem sframeExtra_field {v : UInt64} (h : v > SFRAME_INLINE_MAX) : (UInt8.ofNat (configField v) + 1).toNat = sframeExtra v := by
  have hall : ∀ w < 9, 1 ≤ w → (UInt8.ofNat (w - 1) + 1).toNat = w := by decide
  obtain ⟨hpos, hle, -, -⟩ := sframeWidth_spec v
  rw [configField, if_pos h, sframeExtra, if_pos h]
  exact hall _ (by omega) hpos

theorem inline_field {v : UInt64} (h : ¬v > SFRAME_INLINE_MAX) : (UInt8.ofNat (configField v)).toUInt64 = v := by
  rw [configField, if_neg h]
  rw [inline_toNat] at h
  apply UInt64.toNat.inj
  rw [UInt8.toNat_toUInt64, UInt8.toNat_ofNat']
  omega

theorem parseSframeHeader_config (keyId counter : UInt64) (rest : Bytes) :
    parseSframeHeader (sframeConfig keyId counter :: rest) =
      if sframeHeaderLen keyId counter > rest.length + 1 then none
      else some
        { keyId := if keyId > SFRAME_INLINE_MAX then readBe (rest.take (sframeExtra keyId)) else keyId
          counter := if counter > SFRAME_INLINE_MAX then readBe ((rest.drop (sframeExtra keyId)).take (sframeExtra counter)) else counter
          headerLen := sframeHeaderLen keyId counter } := by
  obtain ⟨hkid, hkey, hctr, hcounter⟩ := sframeConfig_parts keyId counter
  have hwidth : ∀ v : UInt64, (if v > SFRAME_INLINE_MAX then (UInt8.ofNat (configField v) + 1).toNat else 0) = sframeExtra v := by
    intro v
    split
    next h => exact sframeExtra_field h
    next h => rw [sframeExtra, if_neg h]
  have hvalue : ∀ (v : UInt64) (x : UInt64), (if v > SFRAME_INLINE_MAX then x else (UInt8.ofNat (configField v)).toUInt64) =
      if v > SFRAME_INLINE_MAX then x else v := by
    intro v x
    split
    · rfl
    next h => exact inline_field h
  have hfirst : ∀ c : UInt8, slice (c :: rest) 1 (1 + sframeExtra keyId) = rest.take (sframeExtra keyId) := by
    intro c
    rw [slice, drop_one, tail_cons, Nat.add_sub_cancel_left]
  have hsecond : ∀ c : UInt8, slice (c :: rest) (1 + sframeExtra keyId) (1 + sframeExtra keyId + sframeExtra counter) =
      (rest.drop (sframeExtra keyId)).take (sframeExtra counter) := by
    intro c
    rw [slice, Nat.add_sub_cancel_left, Nat.add_comm, List.drop_succ_cons]
  have hat : at0 (sframeConfig keyId counter :: rest) 0 = sframeConfig keyId counter := rfl
  unfold parseSframeHeader
  rw [if_neg (cons_ne_nil _ _), hat]
  simp only [hkid, hkey, hctr, hcounter, hwidth, hvalue, hfirst, hsecond, length_cons]
  rfl

theorem parseSframeHeader_header (keyId counter : UInt64) (rest : Bytes) :
    parseSframeHeader (sframeHeader keyId counter ++ rest) = some ⟨keyId, counter, sframeHeaderLen keyId counter⟩ := by
  have hlength := length_sframeHeader keyId counter
  have hkey := length_extraBytes keyId
  have hcounter := length_extraBytes counter
  have hback : ∀ v : UInt64, (if v > SFRAME_INLINE_MAX then readBe (extraBytes v) else v) = v := by
    intro v
    split
    next h =>
      obtain ⟨-, hle, hlt, -⟩ := sframeWidth_spec v
      rw [extraBytes, if_pos h, readBe_writeBe hle hlt]
    · rfl
  have hroom : ¬sframeHeaderLen keyId counter > (extraBytes keyId ++ (extraBytes counter ++ rest)).length + 1 := by
    rw [length_append, length_append, hkey, hcounter, sframeHeaderLen]
    omega
  rw [sframeHeader, cons_append, append_assoc, parseSframeHeader_config, if_neg hroom, ← hkey, take_left,
    drop_left, ← hcounter, take_left, hback, hback]

theorem parseSframeHeader_short {j : Nat} (h : j < sframeHeaderLen keyId counter) :
    parseSframeHeader ((sframeHeader keyId counter).take j) = none := by
  cases j with
  | zero => rfl
  | succ j =>
    rw [sframeHeader, take_succ_cons, parseSframeHeader_config, if_pos]
    have hle := length_take_le j (extraBytes keyId ++ extraBytes counter)
    omega

theorem field_bounds (b : UInt8) : 1 ≤ ((b &&& 0x07) + 1).toNat ∧ ((b &&& 0x07) + 1).toNat ≤ 8 ∧ (b &&& 0x07).toUInt64 ≤ SFRAME_INLINE_MAX := by
  revert b
  exact of_every_byte (by decide +kernel)

theorem sframeExtra_le {isExtended : Prop} [Decidable isExtended] {v : UInt64} {b : UInt8} {bytes : Bytes}
    (hwidth : width = if isExtended then ((b &&& 0x07) + 1).toNat else 0)
    (hlength : bytes.length = width) (h : v = if isExtended then readBe bytes else (b &&& 0x07).toUInt64) : sframeExtra v ≤ width := by
  obtain ⟨hpos, hle, hinline⟩ := field_bounds b
  unfold sframeExtra
  split
  next hlong =>
    by_cases hext : isExtended
    · rw [if_pos hext] at h hwidth
      have hlt := beNat_lt bytes
      rw [hlength] at hlt
      refine sframeWidth_le ?_ (by omega)
      rw [h, readBe_toNat (by omega)]
      exact hlt
    · rw [if_neg hext] at h
      rw [h] at hlong
      exact absurd hinline (UInt64.not_le.mpr hlong)
  · exact Nat.zero_le _

theorem parseSframeHeader_minimal {n : Nat} (h : parseSframeHeader buf = some ⟨keyId, counter, n⟩) :
    sframeHeaderLen keyId counter ≤ n := by
  unfold parseSframeHeader at h
  by_cases hempty : buf = []
  · rw [if_pos hempty] at h
    cases h
  rw [if_neg hempty] at h
  dsimp only at h
  generalize hkw : (if at0 buf 0 &&& SFRAME_EXTENDED_KID ≠ 0 then (((at0 buf 0 >>> 4) &&& 0x07) + 1).toNat else 0) = keyWidth at h
  generalize hcw : (if at0 buf 0 &&& SFRAME_EXTENDED_CTR ≠ 0 then ((at0 buf 0 &&& 0x07) + 1).toNat else 0) = counterWidth at h
  by_cases hroom : 1 + keyWidth + counterWidth > buf.length
  · rw [if_pos hroom] at h
    cases h
  · rw [if_neg hroom] at h
    obtain ⟨hkey, hcounter, hn⟩ := SframeHeader.mk.inj (Option.some.inj h)
    have hfirst := sframeExtra_le hkw.symm (by rw [length_slice_of_le (by omega)]; omega) hkey.symm
    have hsecond := sframeExtra_le hcw.symm (by rw [length_slice_of_le (by omega)]; omega) hcounter.symm
    unfold sframeHeaderLen
    omega

theorem be64_injective {a b : UInt64} (h : be64 a = be64 b) : a = b := by
  have ha : beNat (be64 a) = a.toNat := value_be64 a
  have hb : beNat (be64 b) = b.toNat := value_be64 b
  exact UInt64.toNat.inj (by rw [← ha, ← hb, h])

theorem sframeNonce_injective {a b : UInt64} {salt out nonce : Bytes} (ha : sframeNonce a salt out = some nonce)
    (hb : sframeNonce b salt out = some nonce) : a = b := by
  unfold sframeNonce at ha hb
  split at ha
  · cases ha
  next hroom =>
    rw [if_neg hroom] at hb
    obtain ⟨hlong, hsalt⟩ := not_or.mp hroom
    have hlength : ∀ c : UInt64, (List.replicate (out.length - 8) 0 ++ be64 c).length = salt.length := by
      intro c
      rw [length_append, length_replicate, length_be64]
      omega
    have hsame := (Option.some.inj ha).trans (Option.some.inj hb).symm
    have hback := congrArg (xorWith · salt) hsame
    rw [xorWith_xorWith_cancel _ _ (hlength a).le, xorWith_xorWith_cancel _ _ (hlength b).le] at hback
    exact be64_injective (append_cancel_left hback)

theorem sframeNonce_some {counter : UInt64} {salt out : Bytes} (hlong : 8 ≤ salt.length) (hroom : out.length = salt.length) :
    ∃ nonce : Bytes, nonce.length = salt.length ∧ sframeNonce counter salt out = some nonce := by
  refine ⟨_, ?_, if_neg (by omega)⟩
  rw [length_xorWith, length_append, length_replicate, length_be64]
  omega

/-- A header is written in the fewest bytes and read back with any bytes behind; cut off it is refused. Each counter
has a nonce of its own. -/
theorem sframeHeader_codec (keyId counter : UInt64) :
    sframeHeaderLen keyId counter ≤ 17 ∧
      ∃ header : Bytes, header.length = sframeHeaderLen keyId counter ∧
        (∀ out : Bytes, writeSframeHeader keyId counter out =
          if out.length < sframeHeaderLen keyId counter then none
          else some (header ++ out.drop (sframeHeaderLen keyId counter), sframeHeaderLen keyId counter)) ∧
        (∀ rest, parseSframeHeader (header ++ rest) = some ⟨keyId, counter, sframeHeaderLen keyId counter⟩) ∧
        (∀ buf n, parseSframeHeader buf = some ⟨keyId, counter, n⟩ → sframeHeaderLen keyId counter ≤ n) ∧
        (∀ j < sframeHeaderLen keyId counter, parseSframeHeader (header.take j) = none) ∧
        (∀ salt out : Bytes, 8 ≤ salt.length → out.length = salt.length →
          ∃ nonce : Bytes, nonce.length = salt.length ∧ sframeNonce counter salt out = some nonce) ∧
        ∀ (other : UInt64) (salt out nonce : Bytes), sframeNonce counter salt out = some nonce →
          sframeNonce other salt out = some nonce → counter = other :=
  ⟨sframeHeaderLen_le keyId counter, sframeHeader keyId counter, length_sframeHeader keyId counter,
    writeSframeHeader_eq keyId counter, parseSframeHeader_header keyId counter, fun _ _ => parseSframeHeader_minimal,
    fun _ => parseSframeHeader_short, fun _ _ => sframeNonce_some, fun _ _ _ _ => sframeNonce_injective⟩

end Header

end Wave.Common
