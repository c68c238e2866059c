import Wave.Http.HpackReads

/-! # The strings of a header block

Where the strings of a block are, in plain numbers, and which blocks a 32-bit target reads out of bounds. -/

namespace Wave.Http.Hpack

open Lib Lib.Bytes

/-! ### The strings of a block

Where the strings of a block are, with lengths that are plain numbers. -/

section Strings

variable (block : Bytes)

def integerAt (pos prefixBits : Nat) : Option (Nat × Nat) :=
  (decodeInteger block pos (block.length - pos) prefixBits).result

def StringTo (pos stop : Nat) : Prop :=
  ∃ slen hdr, integerAt block pos 7 = some (slen, hdr) ∧ stop = pos + (hdr + slen) ∧ stop ≤ block.length

/-- The string at `pos` has a header and a length that reach 2³² together. -/
def LongString (pos : Nat) : Prop := ∃ slen hdr, integerAt block pos 7 = some (slen, hdr) ∧ 2 ^ 32 ≤ hdr + slen

def literalBits (b : UInt8) : Option Nat :=
  if b &&& 0x80 ≠ 0 then none
  else if b &&& 0xC0 = 0x40 then some 6
  else if b &&& 0xE0 = 0x20 then none
  else some 4

inductive NameTo (i prefixBits : Nat) : Nat → Prop
  | static {idx n : Nat} (h : integerAt block i prefixBits = some (idx, n)) (hidx : idx ≠ 0)
    (hentry : (staticLookup idx).isSome) : NameTo i prefixBits (i + n)
  | string {n pos : Nat} (h : integerAt block i prefixBits = some (0, n)) (hname : StringTo block (i + n) pos) :
    NameTo i prefixBits pos

inductive ItemTo (i : Nat) : Nat → Prop
  | indexed {idx n : Nat} (hb : block.at0 i &&& 0x80 ≠ 0) (h : integerAt block i 7 = some (idx, n))
    (hentry : (staticLookup idx).isSome) : ItemTo i (i + n)
  | update {v n : Nat} (hb : block.at0 i &&& 0x80 = 0) (hbits : literalBits (block.at0 i) = none)
    (h : integerAt block i 5 = some (v, n)) : ItemTo i (i + n)
  | literal {prefixBits pos stop : Nat} (hbits : literalBits (block.at0 i) = some prefixBits)
    (hname : NameTo block i prefixBits pos) (hvalue : StringTo block pos stop) : ItemTo i stop

inductive ItemAt : Nat → Prop
  | first : ItemAt 0
  | next {i stop : Nat} (hi : ItemAt i) (hitem : ItemTo block i stop) : ItemAt stop

inductive StringAt (i : Nat) : Nat → Prop
  | name {prefixBits n : Nat} (hbits : literalBits (block.at0 i) = some prefixBits)
    (h : integerAt block i prefixBits = some (0, n)) : StringAt i (i + n)
  | value {prefixBits pos : Nat} (hbits : literalBits (block.at0 i) = some prefixBits)
    (hname : NameTo block i prefixBits pos) : StringAt i pos

/-- A string of the block has a header and a length that reach 2³² together. -/
def HoldsLong : Prop := ∃ i pos, ItemAt block i ∧ StringAt block i pos ∧ LongString block pos

end Strings

section Unbounded

variable (block : Bytes)

theorem integerAt_inside {pos prefixBits v n : Nat} (hbits : prefixBits ≤ 8)
    (h : integerAt block pos prefixBits = some (v, n)) : 1 ≤ n ∧ pos + n ≤ block.length := by
  obtain ⟨-, hone, hn, -⟩ :=
    (decodeInteger_spec block pos _ (fun _ => True) (fun _ _ => trivial) hbits).2 (v, n) h
  dsimp only at hone hn
  omega

theorem literalBits_le {b : UInt8} {prefixBits : Nat} (h : literalBits b = some prefixBits) : prefixBits ≤ 8 := by
  unfold literalBits at h
  split at h
  · cases h
  split at h
  · cases h
    omega
  split at h
  · cases h
  · cases h
    omega

theorem decodeString_result (pos len : Nat) :
    (decodeString id block pos len).result = (decodeInteger block pos len 7).result.bind fun r =>
      if r.2 + r.1 > len then none else some (r.2, r.1, r.2 + r.1, block.at0 pos &&& 0x80 != 0) := by
  unfold decodeString
  split
  next h => simp [decodeInteger, h]
  · rw [Traced.result_bind, byteAt_result, bind_some, Traced.result_bind]
    congr 1
    funext r
    obtain ⟨slen, hdr⟩ := r
    dsimp only [id]
    split
    · rw [Traced.result_bind, Traced.result_emit, bind_some, Traced.result_err]
    · rw [Traced.result_bind, Traced.result_emit, bind_some, Traced.result_pure]

theorem decodeString_to {pos stop : Nat} :
    (∃ r, (decodeString id block pos (block.length - pos)).result = some r ∧ stop = pos + r.2.2.1) ↔
      StringTo block pos stop := by
  rw [decodeString_result]
  constructor
  · rintro ⟨r, hr, rfl⟩
    obtain ⟨⟨slen, hdr⟩, hinteger, hr⟩ := bind_eq_some_iff.mp hr
    have hinside := integerAt_inside block (by omega) hinteger
    split at hr
    · cases hr
    next hfit =>
      cases hr
      exact ⟨slen, hdr, hinteger, rfl, by dsimp only at hfit ⊢; omega⟩
  · rintro ⟨slen, hdr, hinteger, rfl, hfit⟩
    refine ⟨(hdr, slen, hdr + slen, block.at0 pos &&& 0x80 != 0), ?_, rfl⟩
    refine bind_eq_some_iff.mpr ⟨(slen, hdr), hinteger, if_neg ?_⟩
    dsimp only
    omega

theorem decodeString_shows {pos : Nat} (hlen : block.length < 2 ^ 32) :
    (decodeString id block pos (block.length - pos)).Shows Event.Wraps ↔ LongString block pos := by
  unfold decodeString
  split
  next h =>
    rw [Traced.shows_err, false_iff]
    rintro ⟨slen, hdr, hinteger, -⟩
    rw [integerAt, h] at hinteger
    cases hinteger
  · rw [Traced.shows_bind_of (byteAt_clean block pos).not_shows]
    simp only [byteAt_result, Option.some.injEq, exists_eq_left']
    rw [Traced.shows_bind_of (decodeInteger_clean block pos _ (by omega)).not_shows]
    constructor
    · rintro ⟨⟨slen, hdr⟩, hinteger, hshows⟩
      refine ⟨slen, hdr, hinteger, ?_⟩
      dsimp only [id] at hshows
      split at hshows
      · simpa [Event.Wraps] using hshows
      · simp [Event.Wraps] at hshows
    · rintro ⟨slen, hdr, hinteger, hwraps⟩
      refine ⟨(slen, hdr), hinteger, ?_⟩
      dsimp only [id]
      rw [if_pos (by omega)]
      simpa [Event.Wraps] using hwraps

section Literal

variable {i prefixBits : Nat}

theorem literalName_to {pos : Nat} :
    (∃ r, (literalName id block block.length i prefixBits).result = some r ∧ pos = i + r.2) ↔
      NameTo block i prefixBits pos := by
  unfold literalName
  rw [Traced.result_bind]
  constructor
  · rintro ⟨r, hr, rfl⟩
    obtain ⟨⟨nameIdx, n⟩, hinteger, hr⟩ := bind_eq_some_iff.mp hr
    dsimp only at hr
    split at hr
    next hzero =>
      rw [Traced.result_bind] at hr
      obtain ⟨⟨off, sl, total, h⟩, hstring, hr⟩ := bind_eq_some_iff.mp hr
      cases hr
      rw [Nat.sub_sub] at hstring
      subst hzero
      exact .string hinteger ((decodeString_to block).mp ⟨_, hstring, (Nat.add_assoc i n total).symm⟩)
    next hidx =>
      rw [Traced.result_bind] at hr
      obtain ⟨⟨nm, v⟩, hentry, hr⟩ := bind_eq_some_iff.mp hr
      cases hr
      exact .static hinteger hidx (Option.isSome_of_mem hentry)
  · intro h
    cases h with
    | static h hidx hentry =>
      obtain ⟨e, he⟩ := isSome_iff_exists.mp hentry
      refine ⟨(pure (some e.1), _), bind_eq_some_iff.mpr ⟨_, h, ?_⟩, rfl⟩
      dsimp only
      rw [if_neg hidx, Traced.result_bind]
      exact bind_eq_some_iff.mpr ⟨e, he, rfl⟩
    | @string n pos h hname =>
      obtain ⟨⟨off, sl, total, hf⟩, hstring, rfl⟩ := (decodeString_to block).mpr hname
      refine ⟨(decodedSlice block (i + n + off) sl hf HUFF_SCRATCH, n + total), ?_, Nat.add_assoc i n total⟩
      refine bind_eq_some_iff.mpr ⟨_, h, ?_⟩
      dsimp only
      rw [if_pos rfl, Traced.result_bind, Nat.sub_sub]
      exact bind_eq_some_iff.mpr ⟨_, hstring, rfl⟩

theorem literalName_shows (hlen : block.length < 2 ^ 32) (hbits : prefixBits ≤ 8) :
    (literalName id block block.length i prefixBits).Shows Event.Wraps ↔
      ∃ n, integerAt block i prefixBits = some (0, n) ∧ LongString block (i + n) := by
  unfold literalName
  rw [Traced.shows_bind_of (decodeInteger_clean block i _ hbits).not_shows]
  constructor
  · rintro ⟨⟨nameIdx, n⟩, hinteger, hshows⟩
    dsimp only at hshows
    split at hshows
    next hzero =>
      subst hzero
      rw [Traced.shows_bind, Nat.sub_sub, decodeString_shows block hlen] at hshows
      obtain hlong | ⟨_, _, hshows⟩ := hshows
      · exact ⟨n, hinteger, hlong⟩
      · exact (Traced.shows_pure.mp hshows).elim
    · simp at hshows
  · rintro ⟨n, hinteger, hlong⟩
    refine ⟨(0, n), hinteger, ?_⟩
    dsimp only
    rw [if_pos rfl, Traced.shows_bind, Nat.sub_sub, decodeString_shows block hlen]
    exact Or.inl hlong

theorem decodedSlice_result (off len : Nat) (huffman : Bool) (cap : Nat) :
    ∃ o, (decodedSlice block off len huffman cap).result = some o := by
  unfold decodedSlice
  rw [Traced.result_bind, Traced.result_emit, bind_some]
  dsimp only
  split
  · split <;> exact ⟨_, rfl⟩
  · exact ⟨_, rfl⟩

theorem literalName_result (wide : Width) {len : Nat} {r : Reading (Option Bytes) × Nat}
    (hr : (literalName wide block len i prefixBits).result = some r) : ∃ o, r.1.result = some o := by
  rw [literalName, Traced.result_bind] at hr
  obtain ⟨⟨nameIdx, n⟩, -, hr⟩ := bind_eq_some_iff.mp hr
  dsimp only at hr
  split at hr <;> (rw [Traced.result_bind] at hr; obtain ⟨_, -, hr⟩ := bind_eq_some_iff.mp hr; cases hr)
  · exact decodedSlice_result block _ _ _ _
  · exact ⟨_, rfl⟩

theorem literalSink_result {named : Reading (Option Bytes)} (hnamed : ∃ o, named.result = some o)
    (valOff valLen : Nat) (valHuffman : Bool) (consumed : Nat) :
    (literalSink block named valOff valLen valHuffman consumed).result = some consumed := by
  obtain ⟨o, ho⟩ := hnamed
  rw [literalSink, Traced.result_bind, ho, bind_some]
  cases o with
  | none => rfl
  | some name =>
    obtain ⟨value, hvalue⟩ := decodedSlice_result block valOff valLen valHuffman HUFF_VALUE_SCRATCH
    dsimp only
    rw [Traced.result_bind, hvalue, bind_some]
    cases value with
    | none => rfl
    | some value => rw [Traced.result_bind, Traced.result_emit, bind_some, Traced.result_pure]

theorem decodeLiteral_result (wide : Width) (len : Nat) :
    (decodeLiteral wide block len i prefixBits).result =
      (literalName wide block len i prefixBits).result.bind fun r =>
        (decodeString wide block (i + r.2) (len - i - r.2)).result.map fun v => r.2 + v.2.2.1 := by
  rw [decodeLiteral, Traced.result_bind]
  refine Option.bind_congr fun r hr => ?_
  rw [Traced.result_bind, Option.map_eq_bind]
  exact Option.bind_congr fun v _ => literalSink_result block (literalName_result block wide hr) _ _ _ _

theorem decodeLiteral_to {k : Nat} : (decodeLiteral id block block.length i prefixBits).result = some k ↔
    ∃ pos, NameTo block i prefixBits pos ∧ StringTo block pos (i + k) := by
  rw [decodeLiteral_result, bind_eq_some_iff]
  constructor
  · rintro ⟨r, hr, hk⟩
    obtain ⟨v, hv, rfl⟩ := map_eq_some_iff.mp hk
    rw [Nat.sub_sub] at hv
    refine ⟨i + r.2, (literalName_to block).mp ⟨r, hr, rfl⟩, (decodeString_to block).mp ⟨v, hv, ?_⟩⟩
    exact (Nat.add_assoc _ _ _).symm
  · rintro ⟨pos, hname, hvalue⟩
    obtain ⟨r, hr, rfl⟩ := (literalName_to block).mpr hname
    obtain ⟨v, hv, hk⟩ := (decodeString_to block).mpr hvalue
    refine ⟨r, hr, map_eq_some_iff.mpr ⟨v, ?_, by omega⟩⟩
    rw [Nat.sub_sub]
    exact hv

theorem decodeLiteral_shows (hlen : block.length < 2 ^ 32) (hbits : prefixBits ≤ 8) :
    (decodeLiteral id block block.length i prefixBits).Shows Event.Wraps ↔
      (∃ n, integerAt block i prefixBits = some (0, n) ∧ LongString block (i + n)) ∨
        ∃ pos, NameTo block i prefixBits pos ∧ LongString block pos := by
  rw [decodeLiteral, Traced.shows_bind, literalName_shows block hlen hbits]
  refine or_congr_right ?_
  constructor
  · rintro ⟨r, hr, hshows⟩
    refine ⟨i + r.2, (literalName_to block).mp ⟨r, hr, rfl⟩, ?_⟩
    obtain hlong | ⟨v, _, hrest⟩ := Traced.shows_bind.mp hshows
    · rwa [Nat.sub_sub, decodeString_shows block hlen] at hlong
    · exact ((literalSink_clean block (literalName_named block id hr) _ _ _ _).not_shows hrest).elim
  · rintro ⟨pos, hname, hlong⟩
    obtain ⟨r, hr, rfl⟩ := (literalName_to block).mpr hname
    refine ⟨r, hr, Traced.shows_bind.mpr (Or.inl ?_)⟩
    rwa [Nat.sub_sub, decodeString_shows block hlen]

end Literal

variable {i : Nat}

theorem representation_eq (wide : Width) (len : Nat) : representation wide block len i = (do
    let b ← byteAt block i
    if b &&& 0x80 ≠ 0 then do
      let (idx, n) ← decodeInteger block i (len - i) 7
      let (name, value) ← Traced.ofOption (staticLookup idx)
      Traced.emit (.sink name value)
      pure n
    else match literalBits b with
      | some prefixBits => decodeLiteral wide block len i prefixBits
      | none => do
        let (_, n) ← decodeInteger block i (len - i) 5
        pure n) := by
  rw [representation]
  congr 1
  funext b
  unfold literalBits
  split
  · rfl
  split
  · rfl
  split
  · rfl
  split <;> rfl

theorem literalBits_indexed {b : UInt8} (hb : b &&& 0x80 ≠ 0) : literalBits b = none := if_pos hb

theorem representation_to {k : Nat} :
    (representation id block block.length i).result = some k ↔ ItemTo block i (i + k) := by
  rw [representation_eq, Traced.result_bind, byteAt_result, bind_some]
  constructor
  · intro h
    split at h
    next hb =>
      rw [Traced.result_bind] at h
      obtain ⟨⟨idx, n⟩, hinteger, h⟩ := bind_eq_some_iff.mp h
      rw [Traced.result_bind] at h
      obtain ⟨⟨name, value⟩, hentry, h⟩ := bind_eq_some_iff.mp h
      cases h
      exact .indexed hb hinteger (Option.isSome_of_mem hentry)
    next hb =>
      split at h
      next prefixBits hbits =>
        obtain ⟨pos, hname, hvalue⟩ := (decodeLiteral_to block).mp h
        exact .literal hbits hname hvalue
      next hbits =>
        rw [Traced.result_bind] at h
        obtain ⟨⟨v, n⟩, hinteger, h⟩ := bind_eq_some_iff.mp h
        cases h
        exact .update (not_not.mp hb) hbits hinteger
  · intro h
    generalize hstop : i + k = stop at h
    cases h with
    | @indexed idx n hb h hentry =>
      obtain rfl : k = n := by omega
      obtain ⟨e, he⟩ := isSome_iff_exists.mp hentry
      rw [if_pos hb, Traced.result_bind]
      refine bind_eq_some_iff.mpr ⟨_, h, ?_⟩
      rw [Traced.result_bind]
      exact bind_eq_some_iff.mpr ⟨e, he, rfl⟩
    | @update v n hb hbits h =>
      obtain rfl : k = n := by omega
      rw [if_neg (not_not.mpr hb), hbits, Traced.result_bind]
      exact bind_eq_some_iff.mpr ⟨_, h, rfl⟩
    | @literal prefixBits pos stop hbits hname hvalue =>
      have hb : ¬ block.at0 i &&& 0x80 ≠ 0 := fun hb => by
        rw [literalBits_indexed hb] at hbits
        cases hbits
      rw [if_neg hb, hbits]
      exact (decodeLiteral_to block).mpr ⟨pos, hname, hstop ▸ hvalue⟩

theorem representation_shows (hlen : block.length < 2 ^ 32) :
    (representation id block block.length i).Shows Event.Wraps ↔
      ∃ pos, StringAt block i pos ∧ LongString block pos := by
  rw [representation_eq, Traced.shows_bind_of (byteAt_clean block i).not_shows]
  simp only [byteAt_result, Option.some.injEq, exists_eq_left']
  constructor
  · intro h
    split at h
    · exact ((indexed_clean block i _).not_shows h).elim
    split at h
    next prefixBits hbits =>
      obtain ⟨n, hinteger, hlong⟩ | ⟨pos, hname, hlong⟩ :=
        (decodeLiteral_shows block hlen (literalBits_le hbits)).mp h
      · exact ⟨_, .name hbits hinteger, hlong⟩
      · exact ⟨pos, .value hbits hname, hlong⟩
    next hbits =>
      exact ((update_clean block i _).not_shows h).elim
  · rintro ⟨pos, hstring, hlong⟩
    have hliteral {prefixBits : Nat} (hbits : literalBits (block.at0 i) = some prefixBits) :
        ¬ block.at0 i &&& 0x80 ≠ 0 := fun hb => by
      rw [literalBits_indexed hb] at hbits
      cases hbits
    cases hstring with
    | @name prefixBits n hbits h =>
      rw [if_neg (hliteral hbits), hbits]
      exact (decodeLiteral_shows block hlen (literalBits_le hbits)).mpr (Or.inl ⟨n, h, hlong⟩)
    | @value prefixBits pos hbits hname =>
      rw [if_neg (hliteral hbits), hbits]
      exact (decodeLiteral_shows block hlen (literalBits_le hbits)).mpr (Or.inr ⟨pos, hname, hlong⟩)

theorem StringTo.lt {pos stop : Nat} (h : StringTo block pos stop) : pos < stop ∧ stop ≤ block.length := by
  obtain ⟨slen, hdr, hinteger, rfl, hfit⟩ := h
  obtain ⟨hone, -⟩ := integerAt_inside block (by omega) hinteger
  omega

theorem NameTo.lt {prefixBits pos : Nat} (hbits : prefixBits ≤ 8) (h : NameTo block i prefixBits pos) :
    i < pos ∧ pos ≤ block.length := by
  cases h with
  | static h hidx hentry =>
    have hinside := integerAt_inside block hbits h
    omega
  | string h hname =>
    have hto := hname.lt
    omega

theorem ItemTo.lt {stop : Nat} (h : ItemTo block i stop) : i < stop ∧ stop ≤ block.length := by
  cases h with
  | indexed hb h hentry =>
    have hinside := integerAt_inside block (by omega) h
    omega
  | update hb hbits h =>
    have hinside := integerAt_inside block (by omega) h
    omega
  | literal hbits hname hvalue =>
    have hn := hname.lt block (literalBits_le hbits)
    have hv := hvalue.lt
    omega

theorem StringAt.lt {pos : Nat} (h : StringAt block i pos) : i < block.length := by
  cases h with
  | name hbits h =>
    have hinside := integerAt_inside block (literalBits_le hbits) h
    omega
  | value hbits hname =>
    have hn := hname.lt block (literalBits_le hbits)
    omega

theorem blockLoop_shows (hlen : block.length < 2 ^ 32) (turns : Nat) (hi : ItemAt block i)
    (h : (blockLoop id block block.length turns i).Shows Event.Wraps) : HoldsLong block := by
  induction turns generalizing i with
  | zero =>
    rw [blockLoop, Traced.shows_bind_of (emit_clean (.cursor i) not_false).not_shows] at h
    obtain ⟨_, _, h⟩ := h
    split at h
    · exact (Traced.shows_err.mp h).elim
    · exact (Traced.shows_pure.mp h).elim
  | succ turns ih =>
    rw [blockLoop, Traced.shows_bind_of (emit_clean (.cursor i) not_false).not_shows] at h
    obtain ⟨_, _, h⟩ := h
    split at h
    · obtain hhere | ⟨k, hk, hrest⟩ := Traced.shows_bind.mp h
      · obtain ⟨pos, hstring, hlong⟩ := (representation_shows block hlen).mp hhere
        exact ⟨i, pos, hi, hstring, hlong⟩
      · exact ih (hi.next ((representation_to block).mp hk)) hrest
    · exact (Traced.shows_pure.mp h).elim

theorem ItemAt.reached (hi : ItemAt block i) : ∃ turns, block.length ≤ turns + i ∧
    ((blockLoop id block block.length turns i).Shows Event.Wraps → (decodeBlock id block).Shows Event.Wraps) := by
  induction hi with
  | first => exact ⟨block.length, le_rfl, id⟩
  | @next i stop hi hitem ih =>
    obtain ⟨turns, hturns, hreached⟩ := ih
    obtain ⟨hlt, hstop⟩ := hitem.lt
    obtain ⟨k, rfl⟩ := Nat.exists_eq_add_of_lt hlt
    cases turns with
    | zero => omega
    | succ turns =>
      refine ⟨turns, by omega, fun h => hreached ?_⟩
      rw [blockLoop, Traced.shows_bind]
      refine Or.inr ⟨(), rfl, ?_⟩
      rw [if_pos (by omega), Traced.shows_bind]
      exact Or.inr ⟨k + 1, (representation_to block).mpr hitem, h⟩

theorem decodeBlock_shows (hlen : block.length < 2 ^ 32) :
    (decodeBlock id block).Shows Event.Wraps ↔ HoldsLong block := by
  refine ⟨blockLoop_shows block hlen _ .first, fun ⟨i, pos, hi, hstring, hlong⟩ => ?_⟩
  obtain ⟨turns, hturns, hreached⟩ := hi.reached
  have hi : i < block.length := hstring.lt
  refine hreached ?_
  cases turns with
  | zero => omega
  | succ turns =>
    rw [blockLoop, Traced.shows_bind]
    refine Or.inr ⟨(), rfl, ?_⟩
    rw [if_pos hi, Traced.shows_bind]
    exact Or.inl ((representation_shows block hlen).mpr ⟨pos, hstring, hlong⟩)

end Unbounded

/-- Every block is read inside its bounds on a 64-bit target; on a 32-bit one if and only if no header and length
reach 2³² together. -/
theorem reads_inside_iff (w : Nat) (hw : w = 32 ∨ w = 64) (block : Bytes) (hlen : block.length < 2 ^ w) :
    InBounds (usize w) block ↔ (w = 32 → ¬ HoldsLong block) := by
  obtain rfl | rfl := hw
  · simp only [forall_const]
    rw [← decodeBlock_shows block hlen]
    obtain ⟨heq, hclean⟩ | ⟨⟨e, he, hshort⟩, hwraps⟩ := decodeBlock_parts block hlen
    · refine iff_of_true ?_ fun ⟨e, he, hwraps⟩ => ?_
      · rw [InBounds, heq]
        exact decodeBlock_inside (fun _ _ _ _ => rfl) block
      · rw [← heq] at he
        exact hclean e he hwraps
    · refine iff_of_false (fun hin => ?_) (not_not.mpr hwraps)
      have hinside := hin e he
      cases e with
      | string start avail off len total => exact hshort hinside.1
      | read | overlong | cursor | sink => exact hshort.elim
  · exact iff_of_true (decodeBlock_inside noWrap_usize_64 block) fun h => by omega

/-- A literal with a name of one byte and a value of three. -/
theorem reads_inside_literal : InBounds (usize 32) [0x00, 0x01, 0x61, 0x03, 0x62, 0x63, 0x64] := by
  have hclean : ¬ (decodeBlock id [0x00, 0x01, 0x61, 0x03, 0x62, 0x63, 0x64]).Shows Event.Wraps := by decide
  refine (reads_inside_iff 32 (Or.inl rfl) [0x00, 0x01, 0x61, 0x03, 0x62, 0x63, 0x64] (by simp)).mpr fun _ hlong => ?_
  exact hclean ((decodeBlock_shows _ (by simp)).mpr hlong)

/-- A length of 2³² - 6 behind a header of six bytes: the string ends before it starts. -/
theorem wrapped_name_outside :
    ¬ ∀ w block, (w = 32 ∨ w = 64) → block.length < 2 ^ w → InBounds (usize w) block := by
  intro h
  have hstring : Event.string 1 6 6 4294967290 0 ∈
      (decodeBlock (usize 32) [0x00, 0x7f, 0xfb, 0xfe, 0xff, 0xff, 0x0f]).events := by decide
  have hinside := (h 32 [0x00, 0x7f, 0xfb, 0xfe, 0xff, 0xff, 0x0f] (Or.inl rfl) (by simp)) _ hstring
  exact absurd hinside.1 (by decide)

end Wave.Http.Hpack
