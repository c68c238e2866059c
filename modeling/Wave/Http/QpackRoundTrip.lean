import Wave.Http.HpackRoundTrip
import Wave.Http.Qpack
import Mathlib.Tactic.IntervalCases

/-! # QPACK field lines, written and read back -/

namespace Wave.Http.Qpack

open Lib Lib.Bytes Lib.Paths

variable {cap : Nat} {bs : Bytes}

theorem maskLow_toNat {p : Nat} (hp : p ≤ 8) : (maskLow p).toNat = 2 ^ p - 1 := by
  interval_cases p <;> rfl

theorem low_and_mask {p n : Nat} (hp : p ≤ 8) (hn : n < 2 ^ p) : UInt8.ofNat n &&& maskLow p = UInt8.ofNat n := by
  have hle : 2 ^ p ≤ 2 ^ 8 := Nat.pow_le_pow_right (by omega) hp
  have hnat : (UInt8.ofNat n).toNat = n := UInt8.toNat_ofNat_of_lt' (by change n < 256; omega)
  apply UInt8.toNat_inj.mp
  rw [UInt8.toNat_and, maskLow_toNat hp, hnat, Nat.and_two_pow_sub_one_eq_mod, Nat.mod_eq_of_lt hn]

theorem first_and_mask {p n : Nat} (hp : p ≤ 8) (hn : n < 2 ^ p) (flags : UInt8) :
    ((flags &&& ~~~maskLow p) ||| UInt8.ofNat n) &&& maskLow p = UInt8.ofNat n := by
  have hlow := congrArg UInt8.toBitVec (low_and_mask hp hn)
  apply UInt8.eq_of_toBitVec_eq
  rw [UInt8.toBitVec_and] at hlow ⊢
  rw [UInt8.toBitVec_or, BitVec.and_or_distrib_right, hlow, UInt8.toBitVec_and, UInt8.toBitVec_not, BitVec.and_assoc,
    BitVec.not_and_self]
  exact (congrArg (· ||| _) BitVec.and_zero).trans BitVec.zero_or

theorem chunk_le {r j : Nat} (hr : r < 128) (hj : j ≤ 9) (hfits : r * 2 ^ (7 * j) < 2 ^ 64) :
    ¬ r > ((2 ^ 64 - 1) >>> (7 * j)) &&& 0x7F := by
  have hmax : ((2 ^ 64 - 1) >>> (7 * j)) &&& 0x7F = if j = 9 then 1 else 127 := by interval_cases j <;> rfl
  rw [hmax]
  split
  next hlast =>
    rw [hlast] at hfits
    omega
  · omega

theorem decodeIntLoop_tail (post : Bytes) {turns o rem j : Nat} (value cursor : Nat) (hw : Hpack.encodeTail cap turns o rem = some bs)
    (hrem : j = 0 ∨ 1 ≤ rem) (hvalue : value + rem * 2 ^ (7 * j) < 2 ^ 64) :
    decodeIntLoop (bs ++ post) (7 * j) value cursor = some (value + rem * 2 ^ (7 * j), cursor + bs.length) := by
  induction turns generalizing o rem j value cursor bs with
  | zero => cases hw
  | succ turns ih =>
    have hj : j ≤ 9 := by
      by_contra hlarge
      have hpow : 2 ^ (7 * 10) ≤ 2 ^ (7 * j) := Nat.pow_le_pow_right (by omega) (by omega)
      have hle := Nat.mul_le_mul (show 1 ≤ rem by omega) hpow
      norm_num at hle hvalue
      omega
    unfold Hpack.encodeTail at hw
    split at hw
    next hmore =>
      split at hw
      · cases hw
      obtain ⟨rest, hrest, rfl⟩ := map_eq_some_iff.mp hw
      obtain ⟨hlow, hflag⟩ := Hpack.continued_byte (rem % 128) (Nat.mod_lt _ (by omega))
      have hsplit : rem % 128 * 2 ^ (7 * j) + rem / 128 * 2 ^ (7 * (j + 1)) = rem * 2 ^ (7 * j) := by
        rw [Nat.mul_add, Nat.pow_add, Nat.mul_comm (2 ^ (7 * j)), ← Nat.mul_assoc, ← Nat.add_mul,
          Nat.mul_comm (rem / 128), Nat.mod_add_div]
      have hnext := ih (j := j + 1) (value + rem % 128 * 2 ^ (7 * j)) (cursor + 1) hrest (Or.inr (by omega))
        (by omega)
      rw [cons_append, decodeIntLoop, if_neg (by omega), hlow]
      dsimp only
      rw [if_neg (chunk_le (Nat.mod_lt _ (by omega)) hj (by omega)), Nat.shiftLeft_eq, if_neg (by omega), if_neg hflag,
        show 7 * j + 7 = 7 * (j + 1) by omega, hnext, length_cons]
      congr 2 <;> omega
    next hlast =>
      split at hw
      · cases hw
      cases hw
      obtain ⟨hlow, hflag⟩ := Hpack.last_byte rem (by omega)
      rw [singleton_append, decodeIntLoop, if_neg (by omega), hlow]
      dsimp only
      rw [if_neg (chunk_le (by omega) hj (by omega)), Nat.shiftLeft_eq, if_neg (by omega), if_pos hflag,
        length_singleton]

theorem encodeInt_first {value p : Nat} {flags : UInt8} (hw : encodeInt cap value p flags = some bs) :
    ∃ n < 2 ^ p, ∃ rest, bs = ((flags &&& ~~~maskLow p) ||| UInt8.ofNat n) :: rest := by
  have hpow := Nat.two_pow_pos p
  unfold encodeInt at hw
  split at hw
  · cases hw
  split at hw
  · cases hw
    exact ⟨value, by omega, [], rfl⟩
  · obtain ⟨rest, -, rfl⟩ := map_eq_some_iff.mp hw
    exact ⟨2 ^ p - 1, by omega, rest, rfl⟩

theorem decodeInt_written (post : Bytes) {value p : Nat} {flags : UInt8} (hp : p ≤ 8) (hw : encodeInt cap value p flags = some bs)
    (hvalue : value < 2 ^ 64) : decodeInt (bs ++ post) p = some (value, bs.length) := by
  have hpow := Nat.two_pow_pos p
  have hle : 2 ^ p ≤ 2 ^ 8 := Nat.pow_le_pow_right (by omega) hp
  have hmask := maskLow_toNat hp
  unfold encodeInt at hw
  split at hw
  · cases hw
  split at hw
  next hsmall =>
    cases hw
    have hnat : (UInt8.ofNat value).toNat = value := UInt8.toNat_ofNat_of_lt' (by change value < 256; omega)
    rw [singleton_append, decodeInt]
    rw [first_and_mask hp (by omega), hnat, hmask, if_pos hsmall, length_singleton]
  next hlarge =>
    obtain ⟨rest, hrest, rfl⟩ := map_eq_some_iff.mp hw
    have hnat : (UInt8.ofNat (2 ^ p - 1)).toNat = 2 ^ p - 1 :=
      UInt8.toNat_ofNat_of_lt' (by change 2 ^ p - 1 < 256; omega)
    have hloop := decodeIntLoop_tail post (j := 0) (2 ^ p - 1) 1 hrest (Or.inl rfl)
      (by rw [Nat.mul_zero, Nat.pow_zero]; omega)
    rw [Nat.mul_zero, Nat.pow_zero, Nat.mul_one] at hloop
    rw [cons_append, decodeInt]
    rw [first_and_mask hp (by omega), hnat, hmask, if_neg (lt_irrefl _), hloop, length_cons]
    congr 2 <;> omega

section Strings

variable {w p at' : Nat} {flags : UInt8} {s block post : Bytes}

theorem encodeLiteral_eq (hw : encodeLiteral cap p flags s = some bs) :
    ∃ head, encodeInt cap s.length p flags = some head ∧ bs = head ++ s := by
  unfold encodeLiteral at hw
  split at hw
  · cases hw
  next head hhead =>
    split at hw
    · cases hw
    · cases hw
      exact ⟨head, hhead, rfl⟩

theorem checked_of_lt {n : Nat} (h : n < 2 ^ w) : checked w n = some n := if_pos h

theorem rawInto_written (hp : p ≤ 8) (hw : encodeLiteral cap p flags s = some bs) (hblock : block.drop at' = bs ++ post)
    (hat : at' ≤ block.length) (hlen : block.length < 2 ^ w) (hwidth : w ≤ 64) :
    rawInto w block at' p = some (s, at' + bs.length) := by
  obtain ⟨head, hhead, rfl⟩ := encodeLiteral_eq hw
  have hall := congrArg List.length hblock
  rw [length_drop, length_append, length_append] at hall
  have hbound : 2 ^ w ≤ 2 ^ 64 := Nat.pow_le_pow_right (by omega) hwidth
  have hint := decodeInt_written (s ++ post) hp hhead (by omega : s.length < 2 ^ 64)
  rw [← append_assoc, ← hblock] at hint
  have hget : get block (at' + head.length) (at' + head.length + s.length) = some s := by
    rw [get, if_pos (by omega), slice, Nat.add_sub_cancel_left, ← drop_drop, hblock, append_assoc, drop_left,
      take_left]
  rw [rawInto, hint, bind_eq_bind, bind_some]
  dsimp only
  rw [checked_of_lt (by omega), bind_eq_bind, bind_some, checked_of_lt (by omega), bind_eq_bind,
    bind_some, hget, length_append, Nat.add_assoc]
  rfl

theorem rawString_written {huff b : UInt8} {rest : Bytes} (hp : p ≤ 8) (hw : encodeLiteral cap p flags s = some bs)
    (hfirst : bs = b :: rest) (hhuff : b &&& huff = 0) (hblock : block.drop at' = bs ++ post)
    (hlen : block.length < 2 ^ w) (hwidth : w ≤ 64) : rawString w block at' p huff = some (s, at' + bs.length) := by
  obtain ⟨head, hhead, hbs⟩ := encodeLiteral_eq hw
  have hbyte : block[at']? = some b := by
    rw [← List.head?_drop, hblock, hfirst]
    rfl
  have hall := congrArg List.length hblock
  rw [length_drop, length_append, hbs, length_append] at hall
  have hbound : 2 ^ w ≤ 2 ^ 64 := Nat.pow_le_pow_right (by omega) hwidth
  have hint := decodeInt_written (s ++ post) hp hhead (by omega : s.length < 2 ^ 64)
  rw [← append_assoc, ← hbs, ← hblock] at hint
  have hdrop : block.drop (at' + head.length) = s ++ post := by
    rw [← drop_drop, hblock, hbs, append_assoc, drop_left]
  rw [rawString, hbyte, bind_eq_bind, bind_some, if_neg (not_not.mpr hhuff), hint, bind_eq_bind,
    bind_some]
  dsimp only
  rw [Nat.mod_eq_of_lt (by omega), hdrop, if_neg (by rw [length_append]; omega), take_left, hbs,
    length_append, Nat.add_assoc]
  rfl

end Strings

theorem lookup_of_pair {name value : Bytes} {idx : Nat} (h : staticIndexForPair name value = some idx) :
    idx < 99 ∧ staticLookup idx = some (name, value) := by
  obtain ⟨hlt, hpair, -⟩ := List.findIdx?_eq_some_iff_getElem.mp h
  obtain ⟨hname, hvalue⟩ := of_decide_eq_true hpair
  refine ⟨hlt, ?_⟩
  rw [staticLookup, List.getElem?_eq_getElem hlt, ← hname, ← hvalue]

theorem lookup_of_name {name : Bytes} {idx : Nat} (h : staticIndexForName name = some idx) :
    idx < 99 ∧ ∃ value, staticLookup idx = some (name, value) := by
  obtain ⟨hlt, hname, -⟩ := List.findIdx?_eq_some_iff_getElem.mp h
  refine ⟨hlt, staticTable[idx].2, ?_⟩
  rw [staticLookup, List.getElem?_eq_getElem hlt, ← of_decide_eq_true hname]

theorem indexed_bits : ∀ n < 2 ^ 6, ((0xC0 &&& ~~~maskLow 6) ||| UInt8.ofNat n) &&& 0x80 ≠ 0 ∧
    ((0xC0 &&& ~~~maskLow 6) ||| UInt8.ofNat n) &&& 0x40 ≠ 0 := by
  decide

theorem name_reference_bits : ∀ n < 2 ^ 4, ((0x50 &&& ~~~maskLow 4) ||| UInt8.ofNat n) &&& 0x80 = 0 ∧
    ((0x50 &&& ~~~maskLow 4) ||| UInt8.ofNat n) &&& 0x40 ≠ 0 ∧
    ((0x50 &&& ~~~maskLow 4) ||| UInt8.ofNat n) &&& 0x10 ≠ 0 := by
  decide

theorem literal_name_bits : ∀ n < 2 ^ 3, ((0x20 &&& ~~~maskLow 3) ||| UInt8.ofNat n) &&& 0x80 = 0 ∧
    ((0x20 &&& ~~~maskLow 3) ||| UInt8.ofNat n) &&& 0x40 = 0 ∧
    ((0x20 &&& ~~~maskLow 3) ||| UInt8.ofNat n) &&& 0x20 ≠ 0 ∧
    ((0x20 &&& ~~~maskLow 3) ||| UInt8.ofNat n) &&& 0x08 = 0 := by
  decide

theorem value_bits : ∀ n < 2 ^ 7, ((0x00 &&& ~~~maskLow 7) ||| UInt8.ofNat n) &&& 0x80 = 0 := by
  decide

theorem encodeLiteral_first {p : Nat} {flags : UInt8} {s : Bytes} (hw : encodeLiteral cap p flags s = some bs) :
    ∃ n < 2 ^ p, ∃ rest, bs = ((flags &&& ~~~maskLow p) ||| UInt8.ofNat n) :: rest := by
  obtain ⟨head, hhead, rfl⟩ := encodeLiteral_eq hw
  obtain ⟨n, hn, rest, rfl⟩ := encodeInt_first hhead
  exact ⟨n, hn, rest ++ s, rfl⟩

inductive Line (name value : Bytes) : Bytes → Prop
  | indexed {cap idx : Nat} {bs : Bytes} (h : staticIndexForPair name value = some idx)
    (hw : encodeInt cap idx 6 0xC0 = some bs) : Line name value bs
  | nameReference {cap cap' idx : Nat} {head string : Bytes} (h : staticIndexForName name = some idx)
    (hw : encodeInt cap idx 4 0x50 = some head) (hvalue : encodeLiteral cap' 7 0x00 value = some string) :
    Line name value (head ++ string)
  | literal {cap cap' : Nat} {head string : Bytes} (hw : encodeLiteral cap 3 0x20 name = some head)
    (hvalue : encodeLiteral cap' 7 0x00 value = some string) : Line name value (head ++ string)

theorem encodeField_line {name value : Bytes} (hw : encodeField cap name value = some bs) : Line name value bs := by
  unfold encodeField at hw
  split at hw
  next idx hpair => exact .indexed hpair hw
  next =>
    dsimp only at hw
    split at hw
    · cases hw
    next head hhead =>
      obtain ⟨string, hstring, rfl⟩ := map_eq_some_iff.mp hw
      split at hhead
      next idx hname => exact .nameReference hname hhead hstring
      next => exact .literal hhead hstring

section Readers

variable {w room : Nat} {name value block post : Bytes}

/-- What both readers find in a block that begins with a line, which ends at `stop`. -/
inductive Finds (w : Nat) (name value block : Bytes) (stop : Nat) (first : UInt8) : Prop
  | indexed {idx : Nat} (h80 : first &&& 0x80 ≠ 0) (h40 : first &&& 0x40 ≠ 0)
    (hint : decodeInt block 6 = some (idx, stop)) (hlt : idx < 2 ^ 32) (hlookup : staticLookup idx = some (name, value))
  | nameReference {idx n : Nat} {other : Bytes} {b : UInt8} (h80 : first &&& 0x80 = 0) (h40 : first &&& 0x40 ≠ 0)
    (h10 : first &&& 0x10 ≠ 0) (hint : decodeInt block 4 = some (idx, n)) (hlt : idx < 2 ^ 32)
    (hlookup : staticLookup idx = some (name, other)) (hbyte : block[n]? = some b) (hflag : b &&& 0x80 = 0)
    (hinto : rawInto w block n 7 = some (value, stop)) (hraw : rawString w block n 7 0x80 = some (value, stop))
  | literal {n : Nat} {b : UInt8} (h80 : first &&& 0x80 = 0) (h40 : first &&& 0x40 = 0) (h20 : first &&& 0x20 ≠ 0)
    (h08 : first &&& 0x08 = 0) (hnameInto : rawInto w block 0 3 = some (name, n))
    (hname : rawString w block 0 3 0x08 = some (name, n)) (hbyte : block[n]? = some b) (hflag : b &&& 0x80 = 0)
    (hinto : rawInto w block n 7 = some (value, stop)) (hraw : rawString w block n 7 0x80 = some (value, stop))

theorem value_written {cap n : Nat} {string : Bytes} (hvalue : encodeLiteral cap 7 0x00 value = some string)
    (hdrop : block.drop n = string ++ post) (hat : n ≤ block.length) (hlen : block.length < 2 ^ w) (hwidth : w ≤ 64) :
    ∃ b, block[n]? = some b ∧ b &&& 0x80 = 0 ∧ rawInto w block n 7 = some (value, n + string.length) ∧
      rawString w block n 7 0x80 = some (value, n + string.length) := by
  obtain ⟨m, hm, tail, hstring⟩ := encodeLiteral_first hvalue
  refine ⟨_, ?_, value_bits m hm, rawInto_written (by omega) hvalue hdrop hat hlen hwidth,
    rawString_written (by omega) hvalue hstring (value_bits m hm) hdrop hlen hwidth⟩
  rw [← List.head?_drop, hdrop, hstring]
  rfl

section

variable (h : Line name value bs) (hblock : block = bs ++ post) (hlen : block.length < 2 ^ w) (hwidth : w ≤ 64)

include h hblock hlen hwidth

theorem Line.finds : ∃ first, block.head? = some first ∧ Finds w name value block bs.length first := by
  cases h with
  | @indexed cap idx bs h hw =>
    obtain ⟨n, hn, rest, hbs⟩ := encodeInt_first hw
    obtain ⟨hlt, hlookup⟩ := lookup_of_pair h
    obtain ⟨h80, h40⟩ := indexed_bits n hn
    have hint := decodeInt_written post (by omega) hw (by omega)
    rw [← hblock] at hint
    refine ⟨_, ?_, .indexed h80 h40 hint (by omega) hlookup⟩
    rw [hblock, hbs]
    rfl
  | @nameReference cap cap' idx head string h hw hvalue =>
    obtain ⟨n, hn, rest, hbs⟩ := encodeInt_first hw
    obtain ⟨hlt, other, hlookup⟩ := lookup_of_name h
    obtain ⟨h80, h40, h10⟩ := name_reference_bits n hn
    rw [append_assoc] at hblock
    have hint := decodeInt_written (string ++ post) (by omega) hw (by omega)
    rw [← hblock] at hint
    obtain ⟨b, hbyte, hflag, hinto, hraw⟩ := value_written hvalue (by rw [hblock, drop_left])
      (by rw [hblock, length_append]; omega) hlen hwidth
    rw [length_append]
    refine ⟨_, ?_, .nameReference h80 h40 h10 hint (by omega) hlookup hbyte hflag hinto hraw⟩
    rw [hblock, hbs]
    rfl
  | @literal cap cap' head string hw hvalue =>
    obtain ⟨n, hn, rest, hbs⟩ := encodeLiteral_first hw
    obtain ⟨h80, h40, h20, h08⟩ := literal_name_bits n hn
    rw [append_assoc] at hblock
    have hnameInto : rawInto w block 0 3 = some (name, 0 + head.length) :=
      rawInto_written (by omega) hw hblock (Nat.zero_le _) hlen hwidth
    have hname : rawString w block 0 3 0x08 = some (name, 0 + head.length) :=
      rawString_written (by omega) hw hbs h08 hblock hlen hwidth
    rw [Nat.zero_add] at hnameInto hname
    obtain ⟨b, hbyte, hflag, hinto, hraw⟩ := value_written hvalue (by rw [hblock, drop_left])
      (by rw [hblock, length_append]; omega) hlen hwidth
    rw [length_append]
    refine ⟨_, ?_, .literal h80 h40 h20 h08 hnameInto hname hbyte hflag hinto hraw⟩
    rw [hblock, hbs]
    rfl

theorem decodeFieldInto_line (hroom : name.length + value.length ≤ room) :
    decodeFieldInto w room block = some (name, value, bs.length) := by
  have hstash : stash room 0 name false = some name := (if_neg false_ne_true).trans (if_pos (by omega))
  have hstash' : stash room name.length value false = some value := (if_neg false_ne_true).trans (if_pos hroom)
  have hplain : ∀ b mask : UInt8, b &&& mask = 0 → (b &&& mask != 0) = false := fun b mask h => by rw [h]; rfl
  obtain ⟨first, hhead, hfinds⟩ := h.finds hblock hlen hwidth
  cases hfinds with
  | indexed h80 h40 hint hlt hlookup =>
    simp only [decodeFieldInto, hhead, hint, checked_of_lt hlt, hlookup, hstash, hstash', bind_eq_bind,
      bind_some]
    rw [if_pos h80, if_neg h40]
    rfl
  | nameReference h80 h40 h10 hint hlt hlookup hbyte hflag hinto hraw =>
    simp only [decodeFieldInto, hhead, hint, checked_of_lt hlt, hlookup, hbyte, hinto, hplain _ _ hflag, hstash, hstash',
      bind_eq_bind, bind_some]
    rw [if_neg (not_not.mpr h80), if_pos h40, if_neg h10]
    rfl
  | literal h80 h40 h20 h08 hnameInto hname hbyte hflag hinto hraw =>
    simp only [decodeFieldInto, hhead, hnameInto, hbyte, hinto, hplain _ _ hflag, hplain _ _ h08, hstash, hstash',
      bind_eq_bind, bind_some]
    rw [if_neg (not_not.mpr h80), if_neg (not_not.mpr h40), if_pos h20]
    rfl

theorem decodeField_line : decodeField w block = some (name, value, bs.length) := by
  obtain ⟨first, hhead, hfinds⟩ := h.finds hblock hlen hwidth
  cases hfinds with
  | indexed h80 h40 hint hlt hlookup =>
    simp only [decodeField, hhead, hint, Nat.mod_eq_of_lt hlt, hlookup, bind_eq_bind, bind_some]
    rw [if_pos h80, if_neg h40]
    rfl
  | nameReference h80 h40 h10 hint hlt hlookup hbyte hflag hinto hraw =>
    simp only [decodeField, hhead, hint, Nat.mod_eq_of_lt hlt, hlookup, hraw, bind_eq_bind, bind_some]
    rw [if_neg (not_not.mpr h80), if_pos h40, if_neg h10]
    rfl
  | literal h80 h40 h20 h08 hnameInto hname hbyte hflag hinto hraw =>
    simp only [decodeField, hhead, hname, hraw, bind_eq_bind, bind_some]
    rw [if_neg (not_not.mpr h80), if_neg (not_not.mpr h40), if_pos h20]
    rfl

end

end Readers

/-- `piece` is what `qpack_encode_field` wrote for a pair into some buffer. -/
def Written (field : Bytes × Bytes) (piece : Bytes) : Prop := ∃ cap, encodeField cap field.1 field.2 = some piece

/-- Calls of a reader, each behind what the one before it consumed; what they return, and what is left. -/
def readFields (decode : Bytes → Option Field) : Nat → Bytes → Option (List Field × Bytes)
  | 0, block => some ([], block)
  | count + 1, block => do
    let field ← decode block
    let r ← readFields decode count (block.drop field.2.2)
    pure (field :: r.1, r.2)

def fieldsOf (fields : List (Bytes × Bytes)) (pieces : List Bytes) : List Field :=
  List.zipWith (fun field piece => (field.1, field.2, piece.length)) fields pieces

theorem readFields_written {decode : Bytes → Option Field} {fields : List (Bytes × Bytes)} {pieces : List Bytes}
    (h : List.Forall₂ Written fields pieces)
    (hdecode : ∀ field ∈ fields, ∀ piece post, Written field piece → (piece ++ post).length ≤ (pieces.flatten ++ bs).length →
      decode (piece ++ post) = some (field.1, field.2, piece.length)) :
    readFields decode fields.length (pieces.flatten ++ bs) = some (fieldsOf fields pieces, bs) := by
  induction h with
  | nil => rfl
  | @cons field piece fields pieces hw _ ih =>
    have hfirst := hdecode field mem_cons_self piece (pieces.flatten ++ bs) hw
      (by rw [flatten_cons, append_assoc])
    have hrest := ih fun field hfield piece' post hw' hle => hdecode field (mem_cons_of_mem _ hfield) piece' post hw'
      (hle.trans (by rw [flatten_cons, append_assoc]; exact (List.suffix_append piece _).length_le))
    rw [flatten_cons, append_assoc, length_cons, readFields, hfirst, bind_eq_bind, bind_some,
      drop_left, hrest]
    rfl

theorem block_prefix_written {pre : Bytes} (hpre : emitBlockPrefix cap = some pre) :
    decodeBlockPrefix (pre ++ bs) = some pre.length := by
  unfold emitBlockPrefix at hpre
  split at hpre
  · cases hpre
  · cases hpre
    rfl

/-- A block of written pairs is read back by both readers, each call consuming what was written for its pair. -/
theorem qpack_round_trip {w : Nat} (hwidth : w ≤ 64) {fields : List (Bytes × Bytes)} {pieces : List Bytes} {pre : Bytes}
    (hpre : emitBlockPrefix cap = some pre) (h : List.Forall₂ Written fields pieces) (rest : Bytes)
    (hlen : (pre ++ (pieces.flatten ++ rest)).length < 2 ^ w) :
    decodeBlockPrefix (pre ++ (pieces.flatten ++ rest)) = some pre.length ∧
      (∀ room, (∀ field ∈ fields, field.1.length + field.2.length ≤ room) →
        readFields (decodeFieldInto w room) fields.length ((pre ++ (pieces.flatten ++ rest)).drop pre.length) =
          some (fieldsOf fields pieces, rest)) ∧
      readFields (decodeField w) fields.length ((pre ++ (pieces.flatten ++ rest)).drop pre.length) =
        some (fieldsOf fields pieces, rest) := by
  rw [length_append] at hlen
  rw [drop_left]
  refine ⟨block_prefix_written hpre, fun room hroom => ?_, ?_⟩
  · refine readFields_written h fun field hfield piece post ⟨cap, hw⟩ hle => ?_
    exact decodeFieldInto_line (encodeField_line hw) rfl (by omega) hwidth (hroom field hfield)
  · refine readFields_written h fun field _ piece post ⟨cap, hw⟩ hle => ?_
    exact decodeField_line (encodeField_line hw) rfl (by omega) hwidth

/-- One field of the static table, one with a name of it, and one without. -/
theorem qpack_round_trip_three :
    decodeBlockPrefix ([0, 0] ++ ([0xD9, 0x5F, 0x1D, 1, 0x61, 0x21, 0x62, 1, 0x63] ++ [])) = some 2 ∧
      (∀ room, (∀ field ∈ [(ascii ":status", ascii "200"), (ascii "content-type", ascii "a"), ([0x62], [0x63])],
          (field : Bytes × Bytes).1.length + field.2.length ≤ room) →
        readFields (decodeFieldInto 64 room) 3 [0xD9, 0x5F, 0x1D, 1, 0x61, 0x21, 0x62, 1, 0x63] =
          some ([(ascii ":status", ascii "200", 1), (ascii "content-type", ascii "a", 4), ([0x62], [0x63], 4)], [])) ∧
      readFields (decodeField 64) 3 [0xD9, 0x5F, 0x1D, 1, 0x61, 0x21, 0x62, 1, 0x63] =
        some ([(ascii ":status", ascii "200", 1), (ascii "content-type", ascii "a", 4), ([0x62], [0x63], 4)], []) := by
  have hpre : emitBlockPrefix 2 = some [0, 0] := rfl
  have hwritten : List.Forall₂ Written
      [(ascii ":status", ascii "200"), (ascii "content-type", ascii "a"), ([0x62], [0x63])]
      [[0xD9], [0x5F, 0x1D, 1, 0x61], [0x21, 0x62, 1, 0x63]] :=
    .cons ⟨16, by decide +kernel⟩ (.cons ⟨16, by decide +kernel⟩ (.cons ⟨16, by decide +kernel⟩ .nil))
  exact qpack_round_trip (show 64 ≤ 64 from le_rfl) hpre hwritten [] (by decide)

end Wave.Http.Qpack
