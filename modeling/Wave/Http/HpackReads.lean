import Wave.Http.Hpack

/-! # What the reader of a header block reads

Where no sum wraps the walk stays inside the block; else it parts from the unbounded one at a string. -/

namespace Wave.Http.Hpack

open Lib Lib.Bytes

variable {prefixBits : Nat}

/-- The event of a walk over a block of `n` bytes is as it should be. -/
def Event.Inside (n : Nat) : Event → Prop
  | .read off len => off + len ≤ n
  | .string start avail off len total => off + len = total ∧ total ≤ avail ∧ start + avail ≤ n
  | .cursor i => i ≤ n
  | .overlong .. | .sink .. => True

instance (n : Nat) (e : Event) : Decidable (e.Inside n) := by
  cases e <;> unfold Event.Inside <;> infer_instance

/-- Everything read is inside the block, and so is the cursor; a string ends where its header and length say. -/
def InBounds (wide : Width) (block : Bytes) : Prop :=
  ∀ e ∈ (decodeBlock wide block).events, e.Inside block.length

/-- A string with a header of `hdr` bytes and a length of `slen` that reach 2³² together. -/
def Event.Wraps : Event → Prop
  | .overlong _ _ hdr slen => 2 ^ 32 ≤ hdr + slen
  | _ => False

instance (e : Event) : Decidable e.Wraps := by
  cases e <;> unfold Event.Wraps <;> infer_instance

section Integers

variable (block : Bytes) (pos len : Nat)

@[simp] theorem byteAt_result (pos : Nat) : (byteAt block pos).result = some (block.at0 pos) := rfl

theorem byteAt_spec (P : Event → Prop) (h : P (.read pos 1)) : Traced.Spec P (fun _ => True) (byteAt block pos) :=
  (Traced.Spec.emit h).bind fun _ _ => Traced.Spec.pure trivial

theorem integerLoop_spec (P : Event → Prop) (hread : ∀ i < len, P (.read (pos + i) 1)) (turns i shift value : Nat)
    (hi : 1 ≤ i ∧ i ≤ 5) :
    Traced.Spec P (fun r => r.1 < 2 ^ 32 ∧ 1 ≤ r.2 ∧ r.2 ≤ len ∧ r.2 ≤ 6)
      (integerLoop block pos len turns i shift value) := by
  induction turns generalizing i shift value with
  | zero => exact Traced.Spec.err
  | succ turns ih =>
    unfold integerLoop
    split
    · exact Traced.Spec.err
    next hlen =>
      refine (byteAt_spec block (pos + i) P (hread i (by omega))).bind fun b _ => ?_
      split
      · exact Traced.Spec.err
      dsimp only
      split
      · exact Traced.Spec.err
      next hadd =>
        split
        · exact Traced.Spec.pure ⟨by omega, by omega, by omega, by omega⟩
        split
        · exact Traced.Spec.err
        · exact ih (i + 1) _ _ (by omega)

theorem decodeInteger_spec (P : Event → Prop) (hread : ∀ i < len, P (.read (pos + i) 1)) (hbits : prefixBits ≤ 8) :
    Traced.Spec P (fun r => r.1 < 2 ^ 32 ∧ 1 ≤ r.2 ∧ r.2 ≤ len ∧ r.2 ≤ 6)
      (decodeInteger block pos len prefixBits) := by
  unfold decodeInteger
  split
  · exact Traced.Spec.err
  next hlen =>
    refine (byteAt_spec block pos P (hread 0 (by omega))).bind fun b _ => ?_
    dsimp only
    split
    · refine Traced.Spec.pure ⟨?_, le_rfl, by omega, by omega⟩
      have hpow : 2 ^ prefixBits ≤ 2 ^ 8 := Nat.pow_le_pow_right (by omega) hbits
      have hmod := Nat.mod_lt b.toNat (Nat.two_pow_pos prefixBits)
      dsimp only
      omega
    · exact integerLoop_spec block pos len P hread 5 1 0 _ ⟨le_rfl, by omega⟩

end Integers

def NoWrap (wide : Width) : Prop := ∀ hdr slen, hdr ≤ 6 → slen < 2 ^ 32 → wide (hdr + slen) = hdr + slen

theorem noWrap_usize_64 : NoWrap (usize 64) := fun hdr slen hhdr hslen => Nat.mod_eq_of_lt (by omega)

section Inside

variable {wide : Width} (hwide : NoWrap wide) (block : Bytes)
include hwide

theorem decodeString_inside {pos len : Nat} (h : pos + len ≤ block.length) :
    Traced.Spec (·.Inside block.length) (fun r => r.1 + r.2.1 = r.2.2.1 ∧ r.2.2.1 ≤ len)
      (decodeString wide block pos len) := by
  unfold decodeString
  split
  · exact Traced.Spec.err
  have hread : ∀ i < len, (Event.read (pos + i) 1).Inside block.length := fun i hi => by
    change pos + i + 1 ≤ block.length
    omega
  refine (byteAt_spec block pos _ (hread 0 (by omega))).bind fun b _ => ?_
  refine (decodeInteger_spec block pos len _ hread (by omega)).bind fun r hr => ?_
  obtain ⟨slen, hdr⟩ := r
  obtain ⟨hslen, -, -, hhdr⟩ := hr
  dsimp only at hslen hhdr ⊢
  rw [hwide hdr slen hhdr hslen]
  split
  · exact (Traced.Spec.emit trivial).bind fun _ _ => Traced.Spec.err
  next htotal =>
    refine (Traced.Spec.emit ⟨rfl, by omega, h⟩).bind fun _ _ => ?_
    exact Traced.Spec.pure ⟨rfl, by dsimp only; omega⟩

omit hwide in
theorem decodedSlice_spec (P : Event → Prop) {off len : Nat} (h : P (.read off len)) (huffman : Bool) (cap : Nat) :
    Traced.Spec P (fun _ => True) (decodedSlice block off len huffman cap) := by
  refine (Traced.Spec.emit h).bind fun _ _ => ?_
  dsimp only
  split
  · split <;> exact Traced.Spec.pure trivial
  · exact Traced.Spec.pure trivial

omit hwide in
theorem literalSink_spec (P : Event → Prop) {named : Reading (Option Bytes)} {valOff valLen : Nat}
    (hnamed : Traced.Spec P (fun _ => True) named) (hread : P (.read valOff valLen))
    (hsink : ∀ name value, P (.sink name value)) (valHuffman : Bool) (consumed : Nat) :
    Traced.Spec P (· = consumed) (literalSink block named valOff valLen valHuffman consumed) := by
  refine hnamed.bind fun name _ => ?_
  split
  · exact Traced.Spec.pure rfl
  refine (decodedSlice_spec block P hread valHuffman HUFF_VALUE_SCRATCH).bind fun value _ => ?_
  split
  · exact Traced.Spec.pure rfl
  · exact (Traced.Spec.emit (hsink _ _)).bind fun _ _ => Traced.Spec.pure rfl

theorem literalName_inside {start prefixBits : Nat} (hstart : start ≤ block.length) (hbits : prefixBits ≤ 8) :
    Traced.Spec (·.Inside block.length)
      (fun r => Traced.Spec (·.Inside block.length) (fun _ => True) r.1 ∧ 1 ≤ r.2 ∧ start + r.2 ≤ block.length)
      (literalName wide block block.length start prefixBits) := by
  have hread : ∀ i < block.length - start, (Event.read (start + i) 1).Inside block.length := fun i hi => by
    change start + i + 1 ≤ block.length
    omega
  refine (decodeInteger_spec block start _ _ hread hbits).bind fun r hr => ?_
  obtain ⟨nameIdx, n⟩ := r
  obtain ⟨-, hone, hn, -⟩ := hr
  dsimp only at hone hn ⊢
  split
  · refine (decodeString_inside hwide block (by omega)).bind fun r hr => ?_
    obtain ⟨off, sl, total, h⟩ := r
    obtain ⟨hsum, htotal⟩ := hr
    dsimp only at hsum htotal ⊢
    refine Traced.Spec.pure ⟨decodedSlice_spec block _ ?_ h HUFF_SCRATCH, by dsimp only; omega, by dsimp only; omega⟩
    change start + n + off + sl ≤ block.length
    omega
  · refine (Traced.Spec.ofOption (Q := fun _ => True) fun _ _ => trivial).bind fun _ _ => ?_
    exact Traced.Spec.pure ⟨Traced.Spec.pure trivial, hone, by dsimp only; omega⟩

theorem decodeLiteral_inside {start prefixBits : Nat} (hstart : start ≤ block.length) (hbits : prefixBits ≤ 8) :
    Traced.Spec (·.Inside block.length) (fun n => 1 ≤ n ∧ start + n ≤ block.length)
      (decodeLiteral wide block block.length start prefixBits) := by
  refine (literalName_inside hwide block hstart hbits).bind fun r hr => ?_
  obtain ⟨named, consumed⟩ := r
  obtain ⟨hnamed, hone, hconsumed⟩ := hr
  dsimp only at hnamed hone hconsumed ⊢
  refine (decodeString_inside hwide block (by omega)).bind fun r hr => ?_
  obtain ⟨valOff, valLen, valTotal, valHuffman⟩ := r
  obtain ⟨hsum, htotal⟩ := hr
  dsimp only at hsum htotal ⊢
  have hread : (Event.read (start + consumed + valOff) valLen).Inside block.length := by
    change start + consumed + valOff + valLen ≤ block.length
    omega
  refine (literalSink_spec block _ hnamed hread (fun _ _ => trivial) valHuffman _).weaken fun k hk => ?_
  omega

theorem representation_inside {i : Nat} (hi : i < block.length) :
    Traced.Spec (·.Inside block.length) (fun n => 1 ≤ n ∧ i + n ≤ block.length)
      (representation wide block block.length i) := by
  have hread : ∀ k < block.length - i, (Event.read (i + k) 1).Inside block.length := fun k hk => by
    change i + k + 1 ≤ block.length
    omega
  have literal {prefixBits : Nat} (hbits : prefixBits ≤ 8) := decodeLiteral_inside hwide block (le_of_lt hi) hbits
  refine (byteAt_spec block i _ (hread 0 (by omega))).bind fun b _ => ?_
  split
  · refine (decodeInteger_spec block i _ _ hread (by omega)).bind fun r hr => ?_
    obtain ⟨idx, n⟩ := r
    obtain ⟨-, hone, hn, -⟩ := hr
    dsimp only at hone hn ⊢
    refine (Traced.Spec.ofOption (Q := fun _ => True) fun _ _ => trivial).bind fun _ _ => ?_
    exact (Traced.Spec.emit trivial).bind fun _ _ => Traced.Spec.pure ⟨hone, by omega⟩
  split
  · exact literal (by omega)
  split
  · refine (decodeInteger_spec block i _ _ hread (by omega)).bind fun r hr => ?_
    obtain ⟨-, hone, hn, -⟩ := hr
    exact Traced.Spec.pure ⟨hone, by omega⟩
  split
  · exact literal (by omega)
  · exact literal (by omega)

theorem blockLoop_inside (turns : Nat) {i : Nat} (hi : i ≤ block.length) :
    Traced.Spec (·.Inside block.length) (fun _ => True) (blockLoop wide block block.length turns i) := by
  induction turns generalizing i with
  | zero =>
    refine (Traced.Spec.emit (P := Event.Inside block.length) (e := .cursor i) hi).bind fun _ _ => ?_
    split
    · exact Traced.Spec.err
    · exact Traced.Spec.pure trivial
  | succ turns ih =>
    refine (Traced.Spec.emit (P := Event.Inside block.length) (e := .cursor i) hi).bind fun _ _ => ?_
    split
    next hlt => exact (representation_inside hwide block hlt).bind fun n hn => ih hn.2
    · exact Traced.Spec.pure trivial

theorem decodeBlock_inside : InBounds wide block :=
  (blockLoop_inside hwide block block.length (Nat.zero_le _)).1

end Inside

section Parting

def Event.Short : Event → Prop
  | .string _ _ off len total => off + len ≠ total
  | _ => False

/-- The two do the same and no sum wraps, or one wraps in the first and is too long for the second. -/
abbrev Parts {α : Type} (t u : Reading α) : Prop := Traced.Follows Event.Wraps Event.Short t u

abbrev Clean {α : Type} (t : Reading α) : Prop := Traced.Spec (fun e => ¬ e.Wraps) (fun _ => True) t

variable (block : Bytes)

theorem byteAt_clean (pos : Nat) : Clean (byteAt block pos) := byteAt_spec block pos _ not_false

theorem decodeInteger_clean (pos len : Nat) (hbits : prefixBits ≤ 8) :
    Clean (decodeInteger block pos len prefixBits) :=
  (decodeInteger_spec block pos len _ (fun _ _ => not_false) hbits).weaken fun _ _ => trivial

theorem emit_clean (e : Event) (h : ¬ e.Wraps) : Clean (Traced.emit e) := Traced.Spec.emit h

theorem pure_clean {α : Type} (a : α) : Clean (pure a : Reading α) := Traced.Spec.pure trivial

theorem err_clean {α : Type} : Clean (Traced.err : Reading α) := Traced.Spec.err

theorem decodedSlice_clean (off len : Nat) (huffman : Bool) (cap : Nat) :
    Clean (decodedSlice block off len huffman cap) := decodedSlice_spec block _ not_false huffman cap

theorem literalSink_clean {named : Reading (Option Bytes)} (hnamed : Clean named) (valOff valLen : Nat)
    (valHuffman : Bool) (consumed : Nat) : Clean (literalSink block named valOff valLen valHuffman consumed) :=
  (literalSink_spec block _ hnamed not_false (fun _ _ => not_false) valHuffman consumed).weaken fun _ _ => trivial

theorem staticLookup_clean (idx : Nat) : Clean (Traced.ofOption (staticLookup idx) : Reading (Bytes × Bytes)) :=
  Traced.Spec.ofOption fun _ _ => trivial

theorem indexed_clean (i len : Nat) : Clean (do
    let (idx, n) ← decodeInteger block i len 7
    let (name, value) ← Traced.ofOption (staticLookup idx)
    Traced.emit (.sink name value)
    pure n) := by
  refine (decodeInteger_clean block i len (by omega)).bind fun r _ => ?_
  refine (staticLookup_clean _).bind fun r _ => ?_
  exact (emit_clean (.sink _ _) not_false).bind fun _ _ => pure_clean _

theorem update_clean (i len : Nat) : Clean (do
    let (_, n) ← decodeInteger block i len 5
    pure n) :=
  (decodeInteger_clean block i len (by omega)).bind fun _ _ => pure_clean _

theorem decodeString_parts (pos : Nat) {len : Nat} (hlen : len < 2 ^ 32) :
    Parts (decodeString (usize 32) block pos len) (decodeString id block pos len) := by
  unfold decodeString
  split
  · exact Traced.Follows.refl err_clean
  refine (Traced.Follows.refl (byteAt_clean block pos)).bind fun b _ => ?_
  refine (Traced.Follows.refl (decodeInteger_clean block pos len (by omega))).bind fun r hr => ?_
  obtain ⟨slen, hdr⟩ := r
  obtain ⟨hslen, -, hfit, hhdr⟩ :=
    (decodeInteger_spec block pos len (fun _ => True) (fun _ _ => trivial) (by omega)).2 (slen, hdr) hr
  dsimp only [id] at hslen hfit hhdr ⊢
  by_cases hwrap : hdr + slen < 2 ^ 32
  · rw [show usize 32 (hdr + slen) = hdr + slen from Nat.mod_eq_of_lt hwrap]
    refine Traced.Follows.refl (Q := fun _ => True) ?_
    split
    · exact (emit_clean (.overlong pos len hdr slen) (Nat.not_le.mpr hwrap)).bind fun _ _ => err_clean
    · exact (emit_clean (.string pos len hdr slen _) not_false).bind fun _ _ => pure_clean _
  · have hsum : usize 32 (hdr + slen) = hdr + slen - 2 ^ 32 := by
      change (hdr + slen) % 2 ^ 32 = _
      omega
    rw [hsum, if_neg (by omega), if_pos (by omega)]
    refine Or.inr ⟨⟨_, Traced.mem_bind (mem_singleton_self _), ?_⟩, _,
      Traced.mem_bind (mem_singleton_self _), ?_⟩
    · change hdr + slen ≠ _
      omega
    · change 2 ^ 32 ≤ hdr + slen
      omega

theorem literalName_parts {len : Nat} (start : Nat) (hlen : len < 2 ^ 32) (hbits : prefixBits ≤ 8) :
    Parts (literalName (usize 32) block len start prefixBits) (literalName id block len start prefixBits) := by
  refine (Traced.Follows.refl (decodeInteger_clean block start _ hbits)).bind fun r _ => ?_
  obtain ⟨nameIdx, n⟩ := r
  dsimp only
  split
  · refine (decodeString_parts block (start + n) (by omega)).bind fun r _ => ?_
    exact Traced.Follows.refl (pure_clean _)
  · refine (Traced.Follows.refl (staticLookup_clean nameIdx)).bind fun r _ => ?_
    exact Traced.Follows.refl (pure_clean _)

theorem literalName_named (wide : Width) {len start prefixBits : Nat} {r : Reading (Option Bytes) × Nat}
    (hr : (literalName wide block len start prefixBits).result = some r) : Clean r.1 := by
  have hall : Traced.Spec (fun _ => True) (fun r => Clean r.1) (literalName wide block len start prefixBits) := by
    have hany {α : Type} (t : Reading α) : Traced.Spec (fun _ => True) (fun _ => True) t :=
      ⟨fun _ _ => trivial, fun _ _ => trivial⟩
    refine (hany _).bind fun r _ => ?_
    obtain ⟨nameIdx, n⟩ := r
    dsimp only
    split
    · exact (hany _).bind fun r _ => Traced.Spec.pure (decodedSlice_clean block _ _ _ _)
    · exact (hany _).bind fun r _ => Traced.Spec.pure (pure_clean _)
  exact hall.2 r hr

theorem decodeLiteral_parts {len : Nat} (start : Nat) (hlen : len < 2 ^ 32) (hbits : prefixBits ≤ 8) :
    Parts (decodeLiteral (usize 32) block len start prefixBits) (decodeLiteral id block len start prefixBits) := by
  refine (literalName_parts block start hlen hbits).bind fun r hr => ?_
  have hnamed := literalName_named block (usize 32) hr
  obtain ⟨named, consumed⟩ := r
  dsimp only at hnamed ⊢
  refine (decodeString_parts block (start + consumed) (by omega)).bind fun r _ => ?_
  exact Traced.Follows.refl (literalSink_clean block hnamed _ _ _ _)

theorem representation_parts {len : Nat} (i : Nat) (hlen : len < 2 ^ 32) :
    Parts (representation (usize 32) block len i) (representation id block len i) := by
  refine (Traced.Follows.refl (byteAt_clean block i)).bind fun b _ => ?_
  split
  · exact Traced.Follows.refl (indexed_clean block i _)
  split
  · exact decodeLiteral_parts block i hlen (by omega)
  split
  · exact Traced.Follows.refl (update_clean block i _)
  split
  · exact decodeLiteral_parts block i hlen (by omega)
  · exact decodeLiteral_parts block i hlen (by omega)

theorem blockLoop_parts {len : Nat} (hlen : len < 2 ^ 32) (turns i : Nat) :
    Parts (blockLoop (usize 32) block len turns i) (blockLoop id block len turns i) := by
  induction turns generalizing i with
  | zero =>
    refine Traced.Follows.refl (Q := fun _ => True) ((emit_clean (.cursor i) not_false).bind fun _ _ => ?_)
    split
    · exact err_clean
    · exact pure_clean _
  | succ turns ih =>
    refine (Traced.Follows.refl (emit_clean (.cursor i) not_false)).bind fun _ _ => ?_
    split
    · exact (representation_parts block i hlen).bind fun n _ => ih (i + n)
    · exact Traced.Follows.refl (pure_clean _)

theorem decodeBlock_parts (hlen : block.length < 2 ^ 32) :
    Parts (decodeBlock (usize 32) block) (decodeBlock id block) :=
  blockLoop_parts block hlen block.length 0

end Parting

end Wave.Http.Hpack
