import Wave.Http.HpackRoundTrip
import Wave.Lib.PrefixInteger

/-! # What an HPACK integer is read as

`decode_integer` shifts bits of its fifth continuation byte out of a `u32`. -/

namespace Wave.Http.Hpack

open Lib Lib.Bytes

section Integer

variable {block : Bytes}

theorem drop_at0 {i : Nat} (h : i < block.length) : block.drop i = block.at0 i :: block.drop (i + 1) := by
  rw [drop_eq_getElem_cons h, Bytes.at0, List.getD_eq_getElem _ _ h]

theorem chunk_mod {j c r : Nat} (hj : j ≤ 3) (hc : c < 128) :
    (c + 128 * r) * 2 ^ (7 * j) % 2 ^ 32 = c * 2 ^ (7 * j) % 2 ^ 32 + r * 2 ^ (7 * (j + 1)) % 2 ^ 32 := by
  have hcases : j = 0 ∨ j = 1 ∨ j = 2 ∨ j = 3 := by omega
  rcases hcases with rfl | rfl | rfl | rfl <;> omega

theorem integerLoop_turn {turns j value : Nat} (hin : j + 1 < block.length) (hj : j ≤ 4) :
    (integerLoop block 0 block.length (turns + 1) (j + 1) (7 * j) value).result =
      let sum := value + (block.at0 (j + 1)).toNat % 128 * 2 ^ (7 * j) % 2 ^ 32
      if sum ≥ 2 ^ 32 then none
      else if block.at0 (j + 1) < 0x80 then some (sum, j + 1 + 1)
      else if j + 1 + 1 > 5 then none
      else (integerLoop block 0 block.length turns (j + 1 + 1) (7 * (j + 1)) sum).result := by
  have hbyte : (block.at0 (0 + (j + 1)) &&& 0x7F).toNat <<< (7 * j) =
      (block.at0 (j + 1)).toNat % 128 * 2 ^ (7 * j) := by
    rw [Nat.shiftLeft_eq, PrefixInteger.low_seven, Nat.zero_add]
  rw [integerLoop, if_neg (Nat.not_le.mpr hin), Traced.result_bind]
  change (if 7 * j ≥ 32 then (Traced.err : Reading (Nat × Nat)) else _).result = _
  rw [if_neg (by omega)]
  dsimp only
  rw [hbyte, Nat.zero_add, Nat.mul_succ]
  simp only [PrefixInteger.high_bit_iff]
  split
  · rfl
  · split
    · rfl
    · split <;> rfl

theorem integerLoop_result (turns j value : Nat) (hj : turns + j = 5) :
    (integerLoop block 0 block.length turns (j + 1) (7 * j) value).result =
      (PrefixInteger.continued (block.drop (j + 1))).bind fun r =>
        if r.2 ≤ turns ∧ value + r.1 * 2 ^ (7 * j) % 2 ^ 32 < 2 ^ 32 then
          some (value + r.1 * 2 ^ (7 * j) % 2 ^ 32, j + 1 + r.2)
        else none := by
  induction turns generalizing j value with
  | zero =>
    cases hcont : PrefixInteger.continued (block.drop (j + 1)) with
    | none => rfl
    | some r =>
      have hpos := PrefixInteger.continued_pos hcont
      rw [bind_some, if_neg (by omega)]
      rfl
  | succ turns ih =>
    rcases Nat.lt_or_ge (j + 1) block.length with hin | hend
    swap
    · unfold integerLoop
      rw [if_pos hend, drop_eq_nil_of_le hend]
      rfl
    rw [integerLoop_turn hin (by omega), drop_at0 hin]
    dsimp only
    by_cases hlast : block.at0 (j + 1) < 0x80
    · have hbyte : (block.at0 (j + 1)).toNat % 128 = (block.at0 (j + 1)).toNat := Nat.mod_eq_of_lt hlast
      rw [PrefixInteger.continued_last hlast, bind_some, hbyte]
      dsimp only
      by_cases hover : value + (block.at0 (j + 1)).toNat * 2 ^ (7 * j) % 2 ^ 32 ≥ 2 ^ 32
      · rw [if_pos hover, if_neg (by omega)]
      · rw [if_neg hover, if_pos hlast, if_pos (by omega)]
    · rw [PrefixInteger.continued_more hlast, if_neg hlast]
      rcases Nat.eq_zero_or_pos turns with rfl | hturns
      · -- the last turn, and the integer goes on
        have hnone : (if value + (block.at0 (j + 1)).toNat % 128 * 2 ^ (7 * j) % 2 ^ 32 ≥ 2 ^ 32 then none
            else if j + 1 + 1 > 5 then none
            else
              (integerLoop block 0 block.length 0 (j + 1 + 1) (7 * (j + 1))
                (value + (block.at0 (j + 1)).toNat % 128 * 2 ^ (7 * j) % 2 ^ 32)).result) = none := by
          rw [if_pos (show j + 1 + 1 > 5 by omega), ite_self]
        rw [hnone]
        cases hcont : PrefixInteger.continued (block.drop (j + 1 + 1)) with
        | none => rfl
        | some r =>
          have hpos := PrefixInteger.continued_pos hcont
          rw [map_some, bind_some, if_neg (by omega)]
      · have hchunk : (block.at0 (j + 1)).toNat % 128 < 128 := Nat.mod_lt _ (by decide)
        rw [if_neg (show ¬ j + 1 + 1 > 5 by omega), ih (j + 1) _ (by omega)]
        cases hcont : PrefixInteger.continued (block.drop (j + 1 + 1)) with
        | none => exact ite_self _
        | some r =>
          rw [map_some, bind_some, bind_some]
          dsimp only
          rw [chunk_mod (by omega) hchunk]
          split
          next hover => rw [if_neg (by omega)]
          next hroom =>
            split
            next hfits =>
              rw [if_pos (by omega), Nat.add_assoc, Nat.add_assoc (j + 1), Nat.add_comm 1]
            next hfits => rw [if_neg (by omega)]

theorem decodeInteger_result (bits : Nat) :
    (decodeInteger block 0 block.length bits).result =
      match block with
      | [] => none
      | b :: rest =>
        if b.toNat % 2 ^ bits < 2 ^ bits - 1 then some (b.toNat % 2 ^ bits, 1)
        else
          (PrefixInteger.continued rest).bind fun r =>
            if r.2 ≤ 5 ∧ 2 ^ bits - 1 + r.1 % 2 ^ 32 < 2 ^ 32 then some (2 ^ bits - 1 + r.1 % 2 ^ 32, 1 + r.2) else none := by
  unfold decodeInteger
  cases block with
  | nil => rfl
  | cons b rest =>
    rw [if_neg (show ¬ (b :: rest).length = 0 from Nat.succ_ne_zero _), Traced.result_bind]
    change (if b.toNat % 2 ^ bits < 2 ^ bits - 1 then (pure (b.toNat % 2 ^ bits, 1) : Reading (Nat × Nat)) else _).result = _
    dsimp only
    split
    · rfl
    · have hloop : (integerLoop (b :: rest) 0 (b :: rest).length 5 (0 + 1) (7 * 0) (2 ^ bits - 1)).result = _ :=
        integerLoop_result 5 0 (2 ^ bits - 1) rfl
      rw [Nat.mul_zero, Nat.pow_zero] at hloop
      simp only [Nat.mul_one, Nat.zero_add, List.drop_succ_cons, drop_zero] at hloop
      exact hloop

/-- At most five continuation bytes, bits above the lowest 32 not all zero, and what is left fits behind the first
byte. -/
def LosesBits (bits : Nat) (buf : Bytes) : Prop :=
  ∃ v n, PrefixInteger.read bits buf = some (v, n) ∧ n ≤ 6 ∧ 2 ^ 32 ≤ v - (2 ^ bits - 1) ∧
    2 ^ bits - 1 + (v - (2 ^ bits - 1)) % 2 ^ 32 < 2 ^ 32

theorem decodeInteger_read_iff (bits : Nat) (buf : Bytes) (hbits : bits ≤ 8) :
    (∀ v n, (decodeInteger buf 0 buf.length bits).result = some (v, n) → PrefixInteger.read bits buf = some (v, n)) ↔
      ¬ LosesBits bits buf := by
  have hpow : 2 ^ bits ≤ 2 ^ 8 := Nat.pow_le_pow_right (by omega) hbits
  rw [decodeInteger_result]
  cases buf with
  | nil => exact iff_of_true (by rintro _ _ ⟨⟩) fun h => by obtain ⟨v, n, h, -⟩ := h; cases h
  | cons b rest =>
    dsimp only
    have hfirst : b.toNat % 2 ^ bits < 2 ^ bits := Nat.mod_lt _ (Nat.two_pow_pos bits)
    by_cases hsmall : b.toNat % 2 ^ bits < 2 ^ bits - 1
    · rw [if_pos hsmall]
      refine iff_of_true (fun v n h => ?_) ?_
      · rw [PrefixInteger.read, if_pos hsmall]
        exact h
      · rintro ⟨v, n, hread, -, hlarge, -⟩
        rw [PrefixInteger.read, if_pos hsmall] at hread
        cases hread
        omega
    · rw [if_neg hsmall]
      have hread : PrefixInteger.read bits (b :: rest) =
          (PrefixInteger.continued rest).map fun r => (2 ^ bits - 1 + r.1, r.2 + 1) := if_neg hsmall
      cases hcont : PrefixInteger.continued rest with
      | none =>
        rw [hcont] at hread
        refine iff_of_true (by rintro _ _ ⟨⟩) ?_
        rintro ⟨v, n, hsome, -⟩
        rw [hread] at hsome
        cases hsome
      | some r =>
        rw [hcont, map_some] at hread
        have hpos := PrefixInteger.continued_pos hcont
        rw [bind_some]
        constructor
        · rintro hall ⟨v, n, hsome, hn, hlarge, hfits⟩
          rw [hread] at hsome
          cases hsome
          rw [Nat.add_sub_cancel_left] at hlarge hfits
          have hgiven := hall _ _ (if_pos ⟨by omega, hfits⟩)
          rw [hread] at hgiven
          have hvalue := (Prod.mk.inj (Option.some.inj hgiven)).1
          omega
        · intro hnot v n h
          split at h
          next hok =>
            cases h
            rw [hread]
            have hsame : r.1 < 2 ^ 32 := by
              by_contra hlarge
              refine hnot ⟨_, _, hread, by omega, ?_, ?_⟩
              · rw [Nat.add_sub_cancel_left]
                omega
              · rw [Nat.add_sub_cancel_left]
                exact hok.2
            rw [Nat.mod_eq_of_lt hsame, Nat.add_comm 1]
          · cases h

theorem decodeInteger_of_read {bits v n : Nat} {buf : Bytes} (h : PrefixInteger.read bits buf = some (v, n)) (hn : n ≤ 6)
    (hv : v < 2 ^ 32) : (decodeInteger buf 0 buf.length bits).result = some (v, n) := by
  rw [decodeInteger_result]
  cases buf with
  | nil => cases h
  | cons b rest =>
    rw [PrefixInteger.read] at h
    dsimp only
    split at h
    next hsmall =>
      rw [if_pos hsmall]
      exact h
    next hsmall =>
      rw [if_neg hsmall]
      obtain ⟨r, hcont, hr⟩ := map_eq_some_iff.mp h
      cases hr
      have hfits : r.1 % 2 ^ 32 = r.1 := Nat.mod_eq_of_lt (by omega)
      rw [hcont, bind_some, hfits, if_pos ⟨by omega, hv⟩, Nat.add_comm 1]

theorem encodeTail_written {cap turns o rem : Nat} {bs : Bytes} (h : encodeTail cap turns o rem = some bs) (more : Bytes) :
    PrefixInteger.continued (bs ++ more) = some (rem, bs.length) ∧ bs.length ≤ turns := by
  induction turns generalizing o rem bs with
  | zero => cases h
  | succ turns ih =>
    unfold encodeTail at h
    split at h
    next hrem =>
      split at h
      · cases h
      obtain ⟨rest, hrest, rfl⟩ := map_eq_some_iff.mp h
      obtain ⟨hcont, hlen⟩ := ih hrest
      obtain ⟨hlow, hhigh⟩ := continued_byte (rem % 128) (Nat.mod_lt _ (by decide))
      rw [PrefixInteger.low_seven] at hlow
      rw [ne_eq, PrefixInteger.high_bit_iff] at hhigh
      refine ⟨?_, by rw [length_cons]; omega⟩
      rw [cons_append, PrefixInteger.continued_more hhigh, hcont, map_some, hlow, Nat.mod_add_div]
      rfl
    next hrem =>
      split at h
      · cases h
      · cases h
        obtain ⟨hlow, hhigh⟩ := last_byte rem (by omega)
        rw [PrefixInteger.low_seven] at hlow
        rw [PrefixInteger.high_bit_iff] at hhigh
        have hbyte : (UInt8.ofNat rem).toNat = rem := by
          have hsmall : (UInt8.ofNat rem).toNat % 128 = (UInt8.ofNat rem).toNat := Nat.mod_eq_of_lt hhigh
          exact hsmall.symm.trans hlow
        refine ⟨?_, by rw [length_singleton]; omega⟩
        rw [singleton_append, PrefixInteger.continued_last hhigh, hbyte]
        rfl

theorem encodeTail_room {cap turns o rem : Nat} (hrem : rem < 128 ^ (turns + 1)) (hcap : o + turns < cap) :
    ∃ bs, encodeTail cap (turns + 1) o rem = some bs := by
  induction turns generalizing o rem with
  | zero =>
    rw [Nat.zero_add, Nat.pow_one] at hrem
    unfold encodeTail
    rw [if_neg (by omega), if_neg (by omega)]
    exact ⟨_, rfl⟩
  | succ turns ih =>
    unfold encodeTail
    split
    · have hdiv : rem / 128 < 128 ^ (turns + 1) := Nat.div_lt_of_lt_mul (by rw [Nat.mul_comm, ← Nat.pow_succ]; exact hrem)
      obtain ⟨bs, hbs⟩ := ih (o := o + 1) hdiv (by omega)
      rw [if_neg (by omega), hbs]
      exact ⟨_, rfl⟩
    · rw [if_neg (by omega)]
      exact ⟨_, rfl⟩

theorem first_byte {pre : UInt8} {bits x : Nat} (hbits : bits ≤ 8) (hpre : pre.toNat % 2 ^ bits = 0) (hx : x < 2 ^ bits) :
    (pre ||| UInt8.ofNat x).toNat % 2 ^ bits = x := by
  have hpow : 2 ^ bits ≤ 2 ^ 8 := Nat.pow_le_pow_right (by omega) hbits
  have hbyte : (UInt8.ofNat x).toNat = x := by
    rw [UInt8.toNat_ofNat']
    exact Nat.mod_eq_of_lt (by omega)
  rw [UInt8.toNat_or, Nat.or_mod_two_pow, hpre, Nat.zero_or, hbyte, Nat.mod_eq_of_lt hx]

theorem encodeInteger_read {cap bits value : Nat} {pre : UInt8} {bs : Bytes} (hbits : bits ≤ 8)
    (hpre : pre.toNat % 2 ^ bits = 0) (h : encodeInteger cap pre bits value = some bs) (more : Bytes) :
    PrefixInteger.read bits (bs ++ more) = some (value, bs.length) ∧ bs.length ≤ 6 := by
  have hpos := Nat.two_pow_pos bits
  unfold encodeInteger at h
  split at h
  · cases h
  split at h
  next hsmall =>
    cases h
    have hbyte := first_byte hbits hpre (show value < 2 ^ bits by omega)
    refine ⟨?_, by rw [length_singleton]; omega⟩
    rw [singleton_append, PrefixInteger.read, hbyte, if_pos hsmall]
    rfl
  next hlarge =>
    obtain ⟨rest, hrest, rfl⟩ := map_eq_some_iff.mp h
    obtain ⟨hcont, hlen⟩ := encodeTail_written hrest more
    have hbyte := first_byte hbits hpre (show 2 ^ bits - 1 < 2 ^ bits by omega)
    refine ⟨?_, by rw [length_cons]; omega⟩
    rw [cons_append, PrefixInteger.read, hbyte, if_neg (Nat.lt_irrefl _), hcont, map_some, length_cons,
      Nat.add_sub_cancel' (Nat.not_lt.mp hlarge)]

/-- What is read is what is written exactly when no bits are lost; a `u32` that is written is read back, and six bytes
are room enough. -/
theorem decodeInteger_iff (bits : Nat) (hbits : 1 ≤ bits ∧ bits ≤ 8) :
    (∀ buf, (∀ v n, (decodeInteger buf 0 buf.length bits).result = some (v, n) →
        PrefixInteger.read bits buf = some (v, n)) ↔ ¬ LosesBits bits buf) ∧
    (∀ (cap value : Nat) (pre : UInt8) (bs more : Bytes), pre.toNat % 2 ^ bits = 0 → value < 2 ^ 32 →
      encodeInteger cap pre bits value = some bs →
        (decodeInteger (bs ++ more) 0 (bs ++ more).length bits).result = some (value, bs.length)) ∧
    ∀ (cap value : Nat) (pre : UInt8), 6 ≤ cap → value < 2 ^ 32 → (encodeInteger cap pre bits value).isSome := by
  refine ⟨fun buf => decodeInteger_read_iff bits buf hbits.2, fun cap value pre bs more hpre hvalue hbs => ?_,
    fun cap value pre hcap hvalue => ?_⟩
  · obtain ⟨hread, hlen⟩ := encodeInteger_read hbits.2 hpre hbs more
    exact decodeInteger_of_read hread hlen hvalue
  · unfold encodeInteger
    rw [if_neg (by omega)]
    split
    · rfl
    · have hroom : ∃ bs, encodeTail cap (4 + 1) 1 (value - (2 ^ bits - 1)) = some bs := encodeTail_room (by omega) (by omega)
      obtain ⟨bs, hbs⟩ := hroom
      rw [hbs]
      rfl

theorem decodeInteger_seven : (decodeInteger [0x7f, 0x80, 0x01] 0 3 7).result = some (255, 3) ∧
    ∀ v n, (decodeInteger [0x7f, 0x80, 0x01] 0 3 7).result = some (v, n) →
      PrefixInteger.read 7 [0x7f, 0x80, 0x01] = some (v, n) := by
  refine ⟨by decide, ((decodeInteger_iff 7 (by decide)).1 [0x7f, 0x80, 0x01]).mpr ?_⟩
  rintro ⟨v, n, hread, -, hlarge, -⟩
  have hvalue : PrefixInteger.read 7 [0x7f, 0x80, 0x01] = some (255, 3) := by decide
  rw [hvalue] at hread
  cases hread
  revert hlarge
  decide

/-- The number 2^32 + 127 is read as 127. -/
theorem lost_bits_read :
    (decodeInteger [0x7f, 0x80, 0x80, 0x80, 0x80, 0x10] 0 6 7).result = some (127, 6) ∧
      PrefixInteger.read 7 [0x7f, 0x80, 0x80, 0x80, 0x80, 0x10] = some (2 ^ 32 + 127, 6) := by
  decide

end Integer

end Wave.Http.Hpack
