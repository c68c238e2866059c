import Wave.Http.HpackReads

/-! # What is written is read back -/

namespace Wave.Http.Hpack

open Lib Lib.Bytes Lib.Paths

def sunk : Event → Option (Bytes × Bytes)
  | .sink name value => some (name, value)
  | _ => none

variable {block : Bytes} {cap : Nat}

theorem at0_of_front {pos : Nat} {b : UInt8} {bs : Bytes} (h : b :: bs <+: block.drop pos) :
    block.at0 pos = b ∧ bs <+: block.drop (pos + 1) := by
  obtain ⟨post, hpost⟩ := h
  refine ⟨?_, post, ?_⟩
  · rw [Bytes.at0, List.getD_eq_getElem?_getD, ← List.head?_drop, ← hpost, cons_append, List.head?_cons,
      getD_some]
  · rw [← drop_drop, ← hpost, cons_append, drop_one, tail_cons]

theorem continued_byte :
    ∀ r < 128, ((UInt8.ofNat r ||| 0x80) &&& 0x7F).toNat = r ∧ (UInt8.ofNat r ||| 0x80) &&& 0x80 ≠ 0 := by
  decide

theorem last_byte : ∀ r < 128, (UInt8.ofNat r &&& 0x7F).toNat = r ∧ UInt8.ofNat r &&& 0x80 = 0 := by
  decide

theorem shifted_low {r shift : Nat} (value : Nat) (h : value + r * 2 ^ shift < 2 ^ 32) :
    (r <<< shift) % 2 ^ 32 = r * 2 ^ shift := by
  rw [Nat.shiftLeft_eq]
  exact Nat.mod_eq_of_lt (by omega)

/-- The reader has as many turns left as the writer, and its sum lacks what the writer has still to write. -/
theorem integerLoop_tail (pos len turns i rem value : Nat) {bs : Bytes} (hi : turns + i = 6) (hone : 1 ≤ i)
    (hw : encodeTail cap turns i rem = some bs) (hfront : bs <+: block.drop (pos + i)) (hlen : i + bs.length ≤ len)
    (hvalue : value + rem * 2 ^ (7 * (i - 1)) < 2 ^ 32) :
    (integerLoop block pos len turns i (7 * (i - 1)) value).result =
      some (value + rem * 2 ^ (7 * (i - 1)), i + bs.length) := by
  induction turns generalizing i rem value bs with
  | zero => cases hw
  | succ turns ih =>
    obtain ⟨j, rfl⟩ := Nat.exists_eq_add_of_le' hone
    rw [Nat.add_sub_cancel] at hvalue ⊢
    unfold encodeTail at hw
    unfold integerLoop
    split at hw
    next hrem =>
      split at hw
      · cases hw
      obtain ⟨rest, hrest, rfl⟩ := map_eq_some_iff.mp hw
      rw [length_cons] at hlen ⊢
      obtain ⟨hbyte, hfront⟩ := at0_of_front hfront
      obtain ⟨hlow, hmore⟩ := continued_byte (rem % 128) (Nat.mod_lt _ (by omega))
      have hsplit : rem % 128 * 2 ^ (7 * j) + rem / 128 * 2 ^ (7 * (j + 1)) = rem * 2 ^ (7 * j) := by
        rw [Nat.mul_add, Nat.pow_add, Nat.mul_comm (2 ^ (7 * j)), ← Nat.mul_assoc, ← Nat.add_mul,
          Nat.mul_comm (rem / 128), Nat.mod_add_div]
      have hturns : turns ≠ 0 := by
        rintro rfl
        cases hrest
      rw [if_neg (by omega), Traced.result_bind, byteAt_result, bind_some, if_neg (by omega), hbyte, hlow,
        shifted_low value (by omega)]
      dsimp only
      rw [if_neg (by omega), if_neg hmore, if_neg (by omega)]
      have hnext := ih (j + 1 + 1) (rem / 128) (value + rem % 128 * 2 ^ (7 * j)) (by omega) (by omega) hrest hfront
        (by omega) (by rw [Nat.add_sub_cancel]; omega)
      rw [Nat.add_sub_cancel] at hnext
      rw [show 7 * j + 7 = 7 * (j + 1) by omega, hnext]
      congr 2 <;> omega
    next hrem =>
      split at hw
      · cases hw
      cases hw
      rw [length_singleton] at hlen ⊢
      obtain ⟨hbyte, -⟩ := at0_of_front hfront
      obtain ⟨hlow, hlast⟩ := last_byte rem (by omega)
      rw [if_neg (by omega), Traced.result_bind, byteAt_result, bind_some, if_neg (by omega), hbyte, hlow,
        shifted_low value (by omega)]
      dsimp only
      rw [if_neg (by omega), if_pos hlast, Traced.result_pure]

section Integer

variable {prefixBits v : Nat} {bs : Bytes} (hbits : prefixBits ≤ 7)
include hbits

theorem ofNat_mod {n : Nat} (hn : n < 2 ^ prefixBits) :
    (UInt8.ofNat n).toNat < 2 ^ prefixBits ∧ (UInt8.ofNat n).toNat % 2 ^ prefixBits = n := by
  have hpow : 2 ^ prefixBits ≤ 2 ^ 7 := Nat.pow_le_pow_right (by omega) hbits
  have hnat : (UInt8.ofNat n).toNat = n := UInt8.toNat_ofNat_of_lt' (by change n < 256; omega)
  rw [hnat]
  exact ⟨hn, Nat.mod_eq_of_lt hn⟩

theorem encodeInteger_first (hw : encodeInteger cap 0x00 prefixBits v = some bs) :
    ∃ b rest, bs = b :: rest ∧ b.toNat < 2 ^ prefixBits := by
  have hpow := Nat.two_pow_pos prefixBits
  unfold encodeInteger at hw
  split at hw
  · cases hw
  split at hw
  · cases hw
    rw [UInt8.zero_or]
    exact ⟨_, [], rfl, (ofNat_mod hbits (by omega)).1⟩
  · obtain ⟨rest, -, rfl⟩ := map_eq_some_iff.mp hw
    rw [UInt8.zero_or]
    exact ⟨_, rest, rfl, (ofNat_mod hbits (by omega)).1⟩

theorem decodeInteger_written (pos len : Nat) (hw : encodeInteger cap 0x00 prefixBits v = some bs)
    (hfront : bs <+: block.drop pos) (hlen : bs.length ≤ len) (hv : v < 2 ^ 32) :
    (decodeInteger block pos len prefixBits).result = some (v, bs.length) := by
  have hpow := Nat.two_pow_pos prefixBits
  unfold encodeInteger at hw
  unfold decodeInteger
  split at hw
  · cases hw
  split at hw
  next hsmall =>
    cases hw
    rw [UInt8.zero_or] at hfront
    obtain ⟨hbyte, -⟩ := at0_of_front hfront
    rw [length_singleton] at hlen ⊢
    rw [if_neg (by omega), Traced.result_bind, byteAt_result, bind_some, hbyte]
    dsimp only
    rw [(ofNat_mod hbits (by omega)).2, if_pos hsmall, Traced.result_pure]
  next hlarge =>
    obtain ⟨rest, hrest, rfl⟩ := map_eq_some_iff.mp hw
    rw [UInt8.zero_or] at hfront
    obtain ⟨hbyte, hfront⟩ := at0_of_front hfront
    rw [length_cons] at hlen ⊢
    rw [if_neg (by omega), Traced.result_bind, byteAt_result, bind_some, hbyte]
    dsimp only
    rw [(ofNat_mod hbits (by omega)).2, if_neg (lt_irrefl _)]
    have hloop := integerLoop_tail pos len 5 1 (v - (2 ^ prefixBits - 1)) (2 ^ prefixBits - 1) rfl le_rfl hrest hfront
      (by omega) (by omega)
    rw [show 7 * (1 - 1) = 0 from rfl, Nat.pow_zero, Nat.mul_one] at hloop
    rw [hloop]
    congr 2 <;> omega

end Integer

theorem decodeInteger_gives {pos len prefixBits v n : Nat} (hbits : prefixBits ≤ 7)
    (h : (decodeInteger block pos len prefixBits).result = some (v, n)) :
    Traced.Gives sunk (decodeInteger block pos len prefixBits) [] (v, n) :=
  Traced.Gives.silent (decodeInteger_spec block pos len _ (fun _ _ => rfl) (by omega)) h

theorem byteAt_gives (pos : Nat) : Traced.Gives sunk (byteAt block pos) [] (block.at0 pos) := ⟨rfl, rfl⟩

theorem encodeString_eq {s bs : Bytes} (hw : encodeString cap s = some bs) (hs : s.length < 2 ^ 32) :
    ∃ head, encodeInteger cap 0x00 7 s.length = some head ∧ bs = head ++ s := by
  unfold encodeString at hw
  rw [Nat.mod_eq_of_lt hs] at hw
  split at hw
  · cases hw
  next head hhead =>
    split at hw
    · cases hw
    · cases hw
      exact ⟨head, hhead, rfl⟩

theorem decodeString_written (w pos len : Nat) {s bs : Bytes} (hw : encodeString cap s = some bs)
    (hs : s.length < 2 ^ 32) (hfront : bs <+: block.drop pos) (hlen : bs.length ≤ len) (hwide : len < 2 ^ w) :
    ∃ off, Traced.Gives sunk (decodeString (usize w) block pos len) [] (off, s.length, bs.length, false) ∧
      (block.drop (pos + off)).take s.length = s := by
  obtain ⟨head, hhead, rfl⟩ := encodeString_eq hw hs
  obtain ⟨post, hpost⟩ := hfront
  obtain ⟨b, rest, hb, hlow⟩ := encodeInteger_first (by omega) hhead
  rw [length_append] at hlen ⊢
  have hinteger := decodeInteger_written (by omega) pos len hhead ⟨s ++ post, by rw [← hpost, append_assoc]⟩
    (by omega : head.length ≤ len) hs
  have hbyte : block.at0 pos = b := (at0_of_front ((⟨post, by rw [← hpost, hb]; rfl⟩ : b :: (rest ++ s) <+: _))).1
  have hflag : (b &&& 0x80 != 0) = false := by
    have hlast := (last_byte b.toNat hlow).2
    rw [UInt8.ofNat_toNat] at hlast
    rw [hlast]
    rfl
  refine ⟨head.length, ?_, ?_⟩
  · unfold decodeString
    rw [if_neg (by rw [hb, length_cons] at hlen; omega)]
    refine ((byteAt_gives pos).bind (k := _) ?_)
    refine ((decodeInteger_gives (by omega) hinteger).bind ?_)
    dsimp only
    rw [show usize w (head.length + s.length) = head.length + s.length from Nat.mod_eq_of_lt (by omega),
      if_neg (by omega), hbyte, hflag]
    exact (Traced.Gives.emit _).bind Traced.Gives.pure
  · rw [← drop_drop, ← hpost, append_assoc, drop_left, take_left]

theorem staticNameIndex_le (name : Bytes) : staticNameIndex name ≤ 61 := by
  unfold staticNameIndex
  split
  next i hi =>
    obtain ⟨hlt, -⟩ := List.findIdx?_eq_some_iff_getElem.mp hi
    exact hlt
  · omega

theorem staticNameIndex_lookup {name : Bytes} (h : staticNameIndex name > 0) :
    ∃ value, staticLookup (staticNameIndex name) = some (name, value) := by
  unfold staticNameIndex at h ⊢
  split at h
  next i hi =>
    obtain ⟨hlt, hname, -⟩ := List.findIdx?_eq_some_iff_getElem.mp hi
    refine ⟨staticTable[i].2, ?_⟩
    rw [staticLookup, if_neg (by omega), Nat.add_sub_cancel, List.getElem?_eq_getElem hlt]
    rw [← of_decide_eq_true hname]
  · omega

section Field

variable {name value bs : Bytes} {w : Nat}

theorem encodeHeader_eq (hw : encodeHeader cap name value = some bs) :
    ∃ head string, bs = head ++ string ∧ encodeString (cap - head.length) value = some string ∧
      (staticNameIndex name > 0 ∧ encodeInteger cap 0x00 4 (staticNameIndex name) = some head ∨
        ∃ named, encodeString (cap - 1) name = some named ∧ head = 0x00 :: named) := by
  unfold encodeHeader at hw
  dsimp only at hw
  split at hw
  · cases hw
  next head hhead =>
    obtain ⟨string, hstring, rfl⟩ := map_eq_some_iff.mp hw
    refine ⟨head, string, rfl, hstring, ?_⟩
    split at hhead
    next hidx => exact Or.inl ⟨hidx, hhead⟩
    split at hhead
    · cases hhead
    · obtain ⟨named, hnamed, rfl⟩ := map_eq_some_iff.mp hhead
      exact Or.inr ⟨named, hnamed, rfl⟩

theorem encodeHeader_first (hw : encodeHeader cap name value = some bs) :
    ∃ b rest, bs = b :: rest ∧ b.toNat < 2 ^ 4 := by
  obtain ⟨head, string, rfl, -, ⟨-, hindex⟩ | ⟨named, -, rfl⟩⟩ := encodeHeader_eq hw
  · obtain ⟨b, rest, rfl, hb⟩ := encodeInteger_first (by omega) hindex
    exact ⟨b, rest ++ string, rfl, hb⟩
  · exact ⟨0x00, named ++ string, rfl, by decide⟩

theorem literal_byte : ∀ b : UInt8, b.toNat < 2 ^ 4 →
    b &&& 0x80 = 0 ∧ b &&& 0xC0 ≠ 0x40 ∧ b &&& 0xE0 ≠ 0x20 ∧ b &&& 0xF0 ≠ 0x10 := by
  have hall : ∀ n < 2 ^ 4, UInt8.ofNat n &&& 0x80 = 0 ∧ UInt8.ofNat n &&& 0xC0 ≠ 0x40 ∧ UInt8.ofNat n &&& 0xE0 ≠ 0x20 ∧
      UInt8.ofNat n &&& 0xF0 ≠ 0x10 := by decide
  intro b hb
  rw [← UInt8.ofNat_toNat (x := b)]
  exact hall b.toNat hb

theorem decodedSlice_plain (block : Bytes) (off len cap : Nat) :
    Traced.Gives sunk (decodedSlice block off len false cap) [] (some ((block.drop off).take len)) := ⟨rfl, rfl⟩

theorem literalName_written {head post : Bytes} {i len : Nat} (hname : name.length < 2 ^ 32)
    (hw : staticNameIndex name > 0 ∧ encodeInteger cap 0x00 4 (staticNameIndex name) = some head ∨
      ∃ named, encodeString (cap - 1) name = some named ∧ head = 0x00 :: named)
    (hblock : block.drop i = head ++ post) (hlen : head.length ≤ len - i) (hwide : len < 2 ^ w) :
    ∃ named, Traced.Gives sunk (literalName (usize w) block len i 4) [] (named, head.length) ∧
      Traced.Gives sunk named [] (some name) := by
  obtain ⟨hidx, hindex⟩ | ⟨string, hstring, rfl⟩ := hw
  · obtain ⟨value, hlookup⟩ := staticNameIndex_lookup hidx
    have hle := staticNameIndex_le name
    have hinteger := decodeInteger_written (by omega) i (len - i) hindex ⟨post, hblock.symm⟩ hlen (by omega)
    refine ⟨pure (some name), (decodeInteger_gives (by omega) hinteger).bind ?_, Traced.Gives.pure⟩
    dsimp only
    rw [if_neg (by omega)]
    exact (Traced.Gives.ofOption hlookup).bind Traced.Gives.pure
  · have hzero : encodeInteger 1 0x00 4 0 = some [0x00] := rfl
    rw [length_cons] at hlen
    have hfirst : [0x00] <+: block.drop i := ⟨string ++ post, hblock.symm⟩
    have hinteger := decodeInteger_written (by omega) i (len - i) hzero hfirst (by rw [length_singleton]; omega)
      (by omega)
    have hfront : string <+: block.drop (i + 1) := ⟨post, by rw [← drop_drop, hblock]; rfl⟩
    obtain ⟨off, hdecoded, hslice⟩ := decodeString_written w (i + 1) (len - i - 1) hstring hname hfront
      (by omega) (by omega)
    refine ⟨decodedSlice block (i + 1 + off) name.length false HUFF_SCRATCH,
      (decodeInteger_gives (by omega) hinteger).bind ?_, ?_⟩
    · dsimp only
      rw [if_pos rfl]
      refine hdecoded.bind ?_
      have hlength : ((0x00 : UInt8) :: string).length = 1 + string.length := Nat.add_comm _ _
      rw [hlength]
      exact Traced.Gives.pure
    · have hgives := decodedSlice_plain block (i + 1 + off) name.length HUFF_SCRATCH
      rwa [hslice] at hgives

theorem decodeLiteral_written {i len : Nat} (hname : name.length < 2 ^ 32) (hvalue : value.length < 2 ^ 32)
    (hw : encodeHeader cap name value = some bs) (hfront : bs <+: block.drop i) (hlen : bs.length ≤ len - i)
    (hwide : len < 2 ^ w) :
    Traced.Gives sunk (decodeLiteral (usize w) block len i 4) [(name, value)] bs.length := by
  obtain ⟨head, string, rfl, hstring, hhead⟩ := encodeHeader_eq hw
  obtain ⟨post, hpost⟩ := hfront
  rw [append_assoc] at hpost
  rw [length_append] at hlen ⊢
  obtain ⟨named, hliteral, hnamed⟩ := literalName_written hname hhead hpost.symm (by omega) hwide
  have hfront : string <+: block.drop (i + head.length) := ⟨post, by rw [← drop_drop, ← hpost, drop_left]⟩
  obtain ⟨off, hdecoded, hslice⟩ := decodeString_written w _ (len - i - head.length) hstring hvalue hfront (by omega)
    (by omega)
  refine hliteral.bind (hdecoded.bind (hnamed.bind ?_))
  have hgives := decodedSlice_plain block (i + head.length + off) value.length HUFF_VALUE_SCRATCH
  rw [hslice] at hgives
  exact hgives.bind ((Traced.Gives.emit _).bind Traced.Gives.pure)

theorem representation_written {i len : Nat} (hname : name.length < 2 ^ 32) (hvalue : value.length < 2 ^ 32)
    (hw : encodeHeader cap name value = some bs) (hfront : bs <+: block.drop i) (hlen : bs.length ≤ len - i)
    (hwide : len < 2 ^ w) :
    Traced.Gives sunk (representation (usize w) block len i) [(name, value)] bs.length := by
  obtain ⟨b, rest, rfl, hb⟩ := encodeHeader_first hw
  obtain ⟨hindexed, hincremental, hupdate, hnever⟩ := literal_byte b hb
  refine (byteAt_gives i).bind ?_
  rw [(at0_of_front hfront).1, if_neg (not_not.mpr hindexed), if_neg hincremental, if_neg hupdate, if_neg hnever]
  exact decodeLiteral_written hname hvalue hw hfront hlen hwide

end Field

/-- `piece` is what `encode_header` wrote for a field into some buffer. -/
def Written (field : Bytes × Bytes) (piece : Bytes) : Prop := ∃ cap, encodeHeader cap field.1 field.2 = some piece

/-- From the place where the first of the pieces begins, the loop reads one field from each. -/
theorem blockLoop_written {w : Nat} {fields : List (Bytes × Bytes)} {pieces : List Bytes} (turns i : Nat)
    (hlens : ∀ f ∈ fields, f.1.length < 2 ^ 32 ∧ f.2.length < 2 ^ 32) (hw : List.Forall₂ Written fields pieces)
    (hblock : block.drop i = pieces.flatten) (hi : i ≤ block.length) (hturns : block.length ≤ turns + i)
    (hwide : block.length < 2 ^ w) :
    Traced.Gives sunk (blockLoop (usize w) block block.length turns i) fields () := by
  induction hw generalizing turns i with
  | nil =>
    have hend : i = block.length := by
      have hzero := congrArg List.length hblock
      rw [length_drop, flatten_nil, length_nil] at hzero
      omega
    have hdone : ¬ i < block.length := by omega
    cases turns with
    | zero =>
      refine (Traced.Gives.emit (Event.cursor i)).bind ?_
      rw [if_neg hdone]
      exact Traced.Gives.pure
    | succ turns =>
      refine (Traced.Gives.emit (Event.cursor i)).bind ?_
      rw [if_neg hdone]
      exact Traced.Gives.pure
  | @cons field piece fields pieces hfield hrest ih =>
    obtain ⟨cap, hw⟩ := hfield
    obtain ⟨hname, hvalue⟩ := hlens field mem_cons_self
    obtain ⟨b, rest, hb, -⟩ := encodeHeader_first hw
    have hpos : 0 < piece.length := by
      rw [hb]
      exact Nat.succ_pos _
    rw [flatten_cons] at hblock
    have hlength := congrArg List.length hblock
    rw [length_drop, length_append] at hlength
    cases turns with
    | zero => omega
    | succ turns =>
      have hturn := representation_written hname hvalue hw ⟨_, hblock.symm⟩ (by omega) hwide
      have hnext : block.drop (i + piece.length) = pieces.flatten := by
        rw [← drop_drop, hblock, drop_left]
      change Traced.Gives sunk (_ >>= _) ([] ++ field :: fields) ()
      refine (Traced.Gives.emit (Event.cursor i)).bind ?_
      rw [if_pos (by omega)]
      exact hturn.bind
        (ih turns (i + piece.length) (fun f hf => hlens f (mem_cons_of_mem _ hf)) hnext (by omega) (by omega))

/-- The fields written one after another are what the sink is called with, each once and in order. -/
theorem encode_then_decode (w : Nat) (fields : List (Bytes × Bytes)) (pieces : List Bytes)
    (hlens : ∀ f ∈ fields, f.1.length < 2 ^ 32 ∧ f.2.length < 2 ^ 32) (hw : List.Forall₂ Written fields pieces)
    (hwide : pieces.flatten.length < 2 ^ w) :
    (decodeBlock (usize w) pieces.flatten).result = some () ∧
      (decodeBlock (usize w) pieces.flatten).events.filterMap sunk = fields :=
  blockLoop_written pieces.flatten.length 0 hlens hw drop_zero (Nat.zero_le _) le_rfl hwide

/-- A field with a name of the static table, and one with a name of its own. -/
theorem encode_then_decode_two :
    (decodeBlock (usize 32) [0x0f, 0x10, 0x01, 0x61, 0x00, 0x01, 0x62, 0x00]).result = some () ∧
      (decodeBlock (usize 32) [0x0f, 0x10, 0x01, 0x61, 0x00, 0x01, 0x62, 0x00]).events.filterMap sunk =
        [(ascii "content-type", [0x61]), ([0x62], [])] :=
  encode_then_decode 32 [(ascii "content-type", [0x61]), ([0x62], [])]
    [[0x0f, 0x10, 0x01, 0x61], [0x00, 0x01, 0x62, 0x00]] (by decide) (.cons ⟨64, by decide⟩ (.cons ⟨64, by decide⟩ .nil)) (by decide)

end Wave.Http.Hpack
