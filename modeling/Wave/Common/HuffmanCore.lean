import Wave.Lib.Bits
import Wave.Lib.Bytes
import Wave.Lib.CodeTree
import Mathlib.Data.List.Perm.Subperm
import Mathlib.Data.List.Nodup

/-! # Huffman strings (`common/huffman_core.rs`)

The table of HPACK and QPACK is the leaves of a full tree (`huffTree_codes`), and the decoder walks down it (`scan_walk`). -/

namespace Wave.Common.HuffmanCore

open Lib Lib.Bits

variable {cap : Nat}

variable {sym : Nat}

/-- `(code, bit-length)` per symbol; 256 is EOS. -/
def HUFF : List (Nat × Nat) :=
  [(0x1ff8, 13), (0x7fffd8, 23), (0xfffffe2, 28), (0xfffffe3, 28), (0xfffffe4, 28), (0xfffffe5, 28),
  (0xfffffe6, 28), (0xfffffe7, 28), (0xfffffe8, 28), (0xffffea, 24), (0x3ffffffc, 30), (0xfffffe9, 28),
  (0xfffffea, 28), (0x3ffffffd, 30), (0xfffffeb, 28), (0xfffffec, 28), (0xfffffed, 28), (0xfffffee, 28),
  (0xfffffef, 28), (0xffffff0, 28), (0xffffff1, 28), (0xffffff2, 28), (0x3ffffffe, 30), (0xffffff3, 28),
  (0xffffff4, 28), (0xffffff5, 28), (0xffffff6, 28), (0xffffff7, 28), (0xffffff8, 28), (0xffffff9, 28),
  (0xffffffa, 28), (0xffffffb, 28), (0x14, 6), (0x3f8, 10), (0x3f9, 10), (0xffa, 12),
  (0x1ff9, 13), (0x15, 6), (0xf8, 8), (0x7fa, 11), (0x3fa, 10), (0x3fb, 10),
  (0xf9, 8), (0x7fb, 11), (0xfa, 8), (0x16, 6), (0x17, 6), (0x18, 6),
  (0x0, 5), (0x1, 5), (0x2, 5), (0x19, 6), (0x1a, 6), (0x1b, 6),
  (0x1c, 6), (0x1d, 6), (0x1e, 6), (0x1f, 6), (0x5c, 7), (0xfb, 8),
  (0x7ffc, 15), (0x20, 6), (0xffb, 12), (0x3fc, 10), (0x1ffa, 13), (0x21, 6),
  (0x5d, 7), (0x5e, 7), (0x5f, 7), (0x60, 7), (0x61, 7), (0x62, 7),
  (0x63, 7), (0x64, 7), (0x65, 7), (0x66, 7), (0x67, 7), (0x68, 7),
  (0x69, 7), (0x6a, 7), (0x6b, 7), (0x6c, 7), (0x6d, 7), (0x6e, 7),
  (0x6f, 7), (0x70, 7), (0x71, 7), (0x72, 7), (0xfc, 8), (0x73, 7),
  (0xfd, 8), (0x1ffb, 13), (0x7fff0, 19), (0x1ffc, 13), (0x3ffc, 14), (0x22, 6),
  (0x7ffd, 15), (0x3, 5), (0x23, 6), (0x4, 5), (0x24, 6), (0x5, 5),
  (0x25, 6), (0x26, 6), (0x27, 6), (0x6, 5), (0x74, 7), (0x75, 7),
  (0x28, 6), (0x29, 6), (0x2a, 6), (0x7, 5), (0x2b, 6), (0x76, 7),
  (0x2c, 6), (0x8, 5), (0x9, 5), (0x2d, 6), (0x77, 7), (0x78, 7),
  (0x79, 7), (0x7a, 7), (0x7b, 7), (0x7ffe, 15), (0x7fc, 11), (0x3ffd, 14),
  (0x1ffd, 13), (0xffffffc, 28), (0xfffe6, 20), (0x3fffd2, 22), (0xfffe7, 20), (0xfffe8, 20),
  (0x3fffd3, 22), (0x3fffd4, 22), (0x3fffd5, 22), (0x7fffd9, 23), (0x3fffd6, 22), (0x7fffda, 23),
  (0x7fffdb, 23), (0x7fffdc, 23), (0x7fffdd, 23), (0x7fffde, 23), (0xffffeb, 24), (0x7fffdf, 23),
  (0xffffec, 24), (0xffffed, 24), (0x3fffd7, 22), (0x7fffe0, 23), (0xffffee, 24), (0x7fffe1, 23),
  (0x7fffe2, 23), (0x7fffe3, 23), (0x7fffe4, 23), (0x1fffdc, 21), (0x3fffd8, 22), (0x7fffe5, 23),
  (0x3fffd9, 22), (0x7fffe6, 23), (0x7fffe7, 23), (0xffffef, 24), (0x3fffda, 22), (0x1fffdd, 21),
  (0xfffe9, 20), (0x3fffdb, 22), (0x3fffdc, 22), (0x7fffe8, 23), (0x7fffe9, 23), (0x1fffde, 21),
  (0x7fffea, 23), (0x3fffdd, 22), (0x3fffde, 22), (0xfffff0, 24), (0x1fffdf, 21), (0x3fffdf, 22),
  (0x7fffeb, 23), (0x7fffec, 23), (0x1fffe0, 21), (0x1fffe1, 21), (0x3fffe0, 22), (0x1fffe2, 21),
  (0x7fffed, 23), (0x3fffe1, 22), (0x7fffee, 23), (0x7fffef, 23), (0xfffea, 20), (0x3fffe2, 22),
  (0x3fffe3, 22), (0x3fffe4, 22), (0x7ffff0, 23), (0x3fffe5, 22), (0x3fffe6, 22), (0x7ffff1, 23),
  (0x3ffffe0, 26), (0x3ffffe1, 26), (0xfffeb, 20), (0x7fff1, 19), (0x3fffe7, 22), (0x7ffff2, 23),
  (0x3fffe8, 22), (0x1ffffec, 25), (0x3ffffe2, 26), (0x3ffffe3, 26), (0x3ffffe4, 26), (0x7ffffde, 27),
  (0x7ffffdf, 27), (0x3ffffe5, 26), (0xfffff1, 24), (0x1ffffed, 25), (0x7fff2, 19), (0x1fffe3, 21),
  (0x3ffffe6, 26), (0x7ffffe0, 27), (0x7ffffe1, 27), (0x3ffffe7, 26), (0x7ffffe2, 27), (0xfffff2, 24),
  (0x1fffe4, 21), (0x1fffe5, 21), (0x3ffffe8, 26), (0x3ffffe9, 26), (0xffffffd, 28), (0x7ffffe3, 27),
  (0x7ffffe4, 27), (0x7ffffe5, 27), (0xfffec, 20), (0xfffff3, 24), (0xfffed, 20), (0x1fffe6, 21),
  (0x3fffe9, 22), (0x1fffe7, 21), (0x1fffe8, 21), (0x7ffff3, 23), (0x3fffea, 22), (0x3fffeb, 22),
  (0x1ffffee, 25), (0x1ffffef, 25), (0xfffff4, 24), (0xfffff5, 24), (0x3ffffea, 26), (0x7ffff4, 23),
  (0x3ffffeb, 26), (0x7ffffe6, 27), (0x3ffffec, 26), (0x3ffffed, 26), (0x7ffffe7, 27), (0x7ffffe8, 27),
  (0x7ffffe9, 27), (0x7ffffea, 27), (0x7ffffeb, 27), (0xffffffe, 28), (0x7ffffec, 27), (0x7ffffed, 27),
  (0x7ffffee, 27), (0x7ffffef, 27), (0x7fffff0, 27), (0x3ffffee, 26), (0x3fffffff, 30)]

def EOS : Nat := 256

/-- Why a decode returned `None`. -/
inductive Stop where
  | overlong
  | eos
  /-- `out` is full. -/
  | full
  | padding
deriving DecidableEq

structure State where
  cur : Nat := 0
  nbits : Nat := 0
  out : Bytes := []

def scan (nbits cur : Nat) : Option Nat := HUFF.findIdx? fun e => e.2 = nbits ∧ e.1 = cur

/-- The body of the loop over the bits, with `cur` a `u32` and room for `cap` bytes in `out`. -/
def step (cap : Nat) (s : State) (bit : Nat) : Except Stop State :=
  let cur := (s.cur * 2 + bit) % 2 ^ 32
  let nbits := s.nbits + 1
  if nbits > 30 then .error .overlong
  else
    match scan nbits cur with
    | none => .ok { s with cur := cur, nbits := nbits }
    | some sym =>
      if sym = EOS then .error .eos
      else if s.out.length ≥ cap then .error .full
      else .ok { cur := 0, nbits := 0, out := s.out ++ [UInt8.ofNat sym] }

def byteLoop (cap : Nat) (byte : UInt8) : Nat → State → Except Stop State
  | 0, s => .ok s
  | b + 1, s =>
    match step cap s ((byte.toNat >>> b) &&& 1) with
    | .error e => .error e
    | .ok s => byteLoop cap byte b s

def srcLoop (cap : Nat) : Bytes → State → Except Stop State
  | [], s => .ok s
  | byte :: rest, s =>
    match byteLoop cap byte 8 s with
    | .error e => .error e
    | .ok s => srcLoop cap rest s

/-- `huffman_decode` into a buffer of `cap` bytes, with the reason for a `None`. -/
def huffmanDecode (src : Bytes) (cap : Nat) : Except Stop Bytes :=
  match srcLoop cap src {} with
  | .error e => .error e
  | .ok s =>
    if s.nbits ≥ 8 then .error .padding
    else if s.nbits > 0 ∧ s.cur ≠ 2 ^ s.nbits - 1 then .error .padding
    else .ok s.out

def symBits (sym : Nat) : List Bool := toBits (HUFF.getD sym (0, 0)).2 (HUFF.getD sym (0, 0)).1

def bitsOf (src : Bytes) : List Bool := src.flatMap fun b => toBits 8 b.toNat

def codeOf (s : Bytes) : List Bool := s.flatMap fun b => symBits b.toNat

/-- `src` is `s` in the code of the table, padded with fewer than eight ones. -/
def Encodes (src s : Bytes) : Prop := ∃ k < 8, bitsOf src = codeOf s ++ List.replicate k true

/-- The leaves of the code from left to right: the code is canonical, by length and then by symbol. -/
def leaves : List (Nat × Nat) :=
  (List.range 31).flatMap fun len => (HUFF.zipIdx.filter fun e => e.1.2 == len).map fun e => (e.2, len)

def huffTree : CodeTree Nat := (CodeTree.ofDepths 31 0 leaves).1

def endsAt (t : CodeTree Nat) (p : List Bool) (sym : Nat) : Bool :=
  match t.walk p with
  | some (.leaf a) => a == sym
  | _ => false

theorem huff_table : (huffTree.codes.length = 257 ∧
      (HUFF.zipIdx.all fun e => endsAt huffTree (toBits e.1.2 e.1.1) e.2) = true) ∧
    (∀ e ∈ HUFF, 5 ≤ e.2 ∧ e.2 ≤ 30 ∧ e.1 < 2 ^ e.2) ∧ HUFF.length = 257 := by
  decide +kernel

theorem huffTree_length : huffTree.codes.length = 257 := huff_table.1.1

theorem huffTree_ends : (HUFF.zipIdx.all fun e => endsAt huffTree (toBits e.1.2 e.1.1) e.2) = true := huff_table.1.2

theorem huff_lengths : ∀ e ∈ HUFF, 5 ≤ e.2 ∧ e.2 ≤ 30 ∧ e.1 < 2 ^ e.2 := huff_table.2.1

theorem huff_length : HUFF.length = 257 := huff_table.2.2

theorem lt_length (h : sym < 257) : sym < HUFF.length := by
  rw [huff_length]
  exact h

theorem symBits_walk (h : sym < 257) : huffTree.walk (symBits sym) = some (.leaf sym) := by
  have hlt := lt_length h
  have hends := all_eq_true.mp huffTree_ends (HUFF[sym], sym)
    (List.mk_mem_zipIdx_iff_getElem?.mpr (List.getElem?_eq_getElem hlt))
  have hbits : symBits sym = toBits HUFF[sym].2 HUFF[sym].1 := by
    rw [symBits, List.getD_eq_getElem _ _ hlt]
  unfold endsAt at hends
  rw [← hbits] at hends
  split at hends
  next a ha =>
    rw [ha, beq_iff_eq.mp hends]
  · cases hends

theorem walk_leaf_iff {p : List Bool} :
    huffTree.walk p = some (.leaf sym) ↔ sym < 257 ∧ p = symBits sym := by
  constructor
  · intro hwalk
    have hnodup : ((List.range 257).map fun sym => (sym, symBits sym)).Nodup :=
      List.Nodup.map (fun a b hab => congrArg Prod.fst hab) List.nodup_range
    have hsub : ((List.range 257).map fun sym => (sym, symBits sym)) ⊆ huffTree.codes := by
      intro c hc
      obtain ⟨a, ha, rfl⟩ := mem_map.mp hc
      exact CodeTree.mem_codes_iff.mpr (symBits_walk (mem_range.mp ha))
    have hperm := (hnodup.subperm hsub).perm_of_length_le (by rw [huffTree_length]; simp)
    obtain ⟨a, ha, heq⟩ := mem_map.mp (hperm.mem_iff.mpr (CodeTree.mem_codes_iff.mpr hwalk))
    cases heq
    exact ⟨mem_range.mp ha, rfl⟩
  · rintro ⟨h, rfl⟩
    exact symBits_walk h

theorem huff_entry (h : sym < 257) :
    5 ≤ (HUFF.getD sym (0, 0)).2 ∧ (HUFF.getD sym (0, 0)).2 ≤ 30 ∧
      (HUFF.getD sym (0, 0)).1 < 2 ^ (HUFF.getD sym (0, 0)).2 := by
  rw [List.getD_eq_getElem _ _ (lt_length h)]
  exact huff_lengths _ (getElem_mem _)

theorem length_symBits (h : sym < 257) : 5 ≤ (symBits sym).length ∧ (symBits sym).length ≤ 30 := by
  have hentry := huff_entry h
  rw [symBits, length_toBits]
  omega

theorem scan_iff {p : List Bool} :
    scan p.length (value p) = some sym ↔ huffTree.walk p = some (.leaf sym) := by
  have hfound : ∀ a, scan p.length (value p) = some a → huffTree.walk p = some (.leaf a) := by
    intro a ha
    obtain ⟨hlt, hentry, _⟩ := List.findIdx?_eq_some_iff_getElem.mp ha
    rw [decide_eq_true_eq] at hentry
    refine walk_leaf_iff.mpr ⟨huff_length ▸ hlt, ?_⟩
    rw [symBits, List.getD_eq_getElem _ _ hlt, hentry.1, hentry.2, toBits_value]
  refine ⟨hfound sym, fun hwalk => ?_⟩
  obtain ⟨hlt, hp⟩ := walk_leaf_iff.mp hwalk
  have hentry := huff_entry hlt
  have hbits : (HUFF.getD sym (0, 0)).2 = p.length ∧ (HUFF.getD sym (0, 0)).1 = value p := by
    rw [hp, symBits, length_toBits, value_toBits hentry.2.2]
    exact ⟨rfl, rfl⟩
  cases hscan : scan p.length (value p) with
  | none =>
    have hmem : HUFF.getD sym (0, 0) ∈ HUFF := by
      rw [List.getD_eq_getElem _ _ (lt_length hlt)]
      exact getElem_mem _
    have hno := List.findIdx?_eq_none_iff.mp hscan _ hmem
    rw [decide_eq_false_iff_not] at hno
    exact absurd hbits hno
  | some a =>
    have ha := hfound a hscan
    rw [hwalk] at ha
    cases ha
    rfl

/-- The decoder has put out `out` and stands at the end of `p`, inside the tree. -/
structure Stands (s : State) (out : Bytes) (p : List Bool) : Prop where
  cur : s.cur = value p
  nbits : s.nbits = p.length
  out : s.out = out
  inside : ∃ l r, huffTree.walk p = some (.node l r)

section Reading

variable {s s' : State} {out : Bytes} {p q : List Bool}

theorem inside_length (h : ∃ l r, huffTree.walk p = some (.node l r)) : p.length < 30 := by
  obtain ⟨l, r, hwalk⟩ := h
  obtain ⟨q, a, hq⟩ := l.exists_leaf
  have hleaf : huffTree.walk (p ++ false :: q) = some (.leaf a) := by
    rw [CodeTree.walk_append, hwalk]
    exact hq
  obtain ⟨hlt, hp⟩ := walk_leaf_iff.mp hleaf
  have hlen := congrArg List.length hp
  have hmax := length_symBits hlt
  rw [length_append, length_cons] at hlen
  omega

theorem stands_start (out : Bytes) : Stands { out := out } out [] := by
  have hroot : ∃ l r, huffTree.walk [] = some (.node l r) :=
    CodeTree.walk_front (q := symBits 0) (symBits_walk (by decide)) fun h => by
      have hlen : 5 ≤ (symBits 0).length ∧ _ := length_symBits (by decide)
      rw [h] at hlen
      simp at hlen
  exact ⟨rfl, rfl, rfl, hroot⟩

theorem Stands.step (h : Stands s out p) (cap : Nat) (b : Bool) :
    (∃ l r s', huffTree.walk (p ++ [b]) = some (.node l r) ∧ step cap s b.toNat = .ok s' ∧ Stands s' out (p ++ [b])) ∨
      ∃ sym < 257, p ++ [b] = symBits sym ∧
        step cap s b.toNat = if sym = EOS then .error .eos else if out.length ≥ cap then .error .full
          else .ok { out := out ++ [UInt8.ofNat sym] } := by
  have hlen := inside_length h.inside
  obtain ⟨l, r, hwalk⟩ := h.inside
  have hcur : (s.cur * 2 + b.toNat) % 2 ^ 32 = value (p ++ [b]) := by
    have hlt := value_lt (p ++ [b])
    have hpow : 2 ^ (p ++ [b]).length ≤ 2 ^ 32 := Nat.pow_le_pow_right (by decide) (by rw [length_append]; simp; omega)
    rw [h.cur, ← value_concat, Nat.mod_eq_of_lt (by omega)]
  have hn : s.nbits + 1 = (p ++ [b]).length := by rw [h.nbits, length_append, length_singleton]
  have hshort : ¬s.nbits + 1 > 30 := by rw [h.nbits]; omega
  have hchild := CodeTree.walk_concat hwalk b
  rw [CodeTree.child] at hchild
  have hstep : HuffmanCore.step cap s b.toNat =
      match scan (p ++ [b]).length (value (p ++ [b])) with
      | none => .ok { s with cur := value (p ++ [b]), nbits := (p ++ [b]).length }
      | some sym =>
        if sym = EOS then .error .eos
        else if s.out.length ≥ cap then .error .full
        else .ok { cur := 0, nbits := 0, out := s.out ++ [UInt8.ofNat sym] } := by
    unfold HuffmanCore.step
    dsimp only
    rw [if_neg hshort, hcur, hn]
  rw [hstep]
  cases ht : (if b then r else l) with
  | leaf sym =>
    rw [ht] at hchild
    obtain ⟨hlt, hp⟩ := walk_leaf_iff.mp hchild
    refine Or.inr ⟨sym, hlt, hp, ?_⟩
    rw [scan_iff.mpr hchild, h.out]
  | node l' r' =>
    rw [ht] at hchild
    refine Or.inl ⟨l', r', { s with cur := value (p ++ [b]), nbits := (p ++ [b]).length }, hchild, ?_,
      ⟨rfl, rfl, h.out, l', r', hchild⟩⟩
    cases hscan : scan (p ++ [b]).length (value (p ++ [b])) with
    | none => rfl
    | some sym =>
      rw [scan_iff.mp hscan] at hchild
      cases hchild

def feed (cap : Nat) : List Bool → State → Except Stop State
  | [], s => .ok s
  | b :: bs, s =>
    match step cap s b.toNat with
    | .error e => .error e
    | .ok s => feed cap bs s

theorem feed_append (cap : Nat) (bs bs' : List Bool) (s : State) :
    feed cap (bs ++ bs') s =
      match feed cap bs s with
      | .error e => .error e
      | .ok s => feed cap bs' s := by
  induction bs generalizing s with
  | nil => rfl
  | cons b bs ih =>
    rw [cons_append, feed, feed]
    cases step cap s b.toNat with
    | error e => rfl
    | ok s => exact ih s

theorem byteLoop_eq (cap : Nat) (byte : UInt8) (n : Nat) (s : State) : byteLoop cap byte n s = feed cap (toBits n byte.toNat) s := by
  induction n generalizing s with
  | zero => rfl
  | succ n ih =>
    have hbit : (byte.toNat >>> n) &&& 1 = (byte.toNat.testBit n).toNat := by
      rw [Nat.toNat_testBit, Nat.and_one_is_mod, Nat.shiftRight_eq_div_pow]
    rw [byteLoop, toBits, feed, hbit]
    cases HuffmanCore.step cap s (byte.toNat.testBit n).toNat with
    | error e => rfl
    | ok s => exact ih s

theorem srcLoop_eq (cap : Nat) (src : Bytes) (s : State) : srcLoop cap src s = feed cap (bitsOf src) s := by
  induction src generalizing s with
  | nil => rfl
  | cons byte src ih =>
    rw [srcLoop, bitsOf, flatMap_cons, feed_append, byteLoop_eq]
    cases feed cap (toBits 8 byte.toNat) s with
    | error e => rfl
    | ok s => exact ih s

theorem codeOf_append (s s' : Bytes) : codeOf (s ++ s') = codeOf s ++ codeOf s' := by
  simp [codeOf]

theorem ofNat_toNat (h : sym < 257) (hne : sym ≠ EOS) : (UInt8.ofNat sym).toNat = sym := by
  unfold EOS at hne
  rw [UInt8.toNat_ofNat']
  omega

/-- A run over bits has read symbols and stands at a path, within the longest code and the room for symbols. -/
theorem Stands.feed (h : Stands s out p) (cap : Nat) (bs : List Bool) :
    match feed cap bs s with
    | .error e => e = .eos ∨ (e = .full ∧ 5 * (cap + 1) ≤ 5 * out.length + p.length + bs.length)
    | .ok s' => ∃ more p', Stands s' (out ++ more) p' ∧ p ++ bs = codeOf more ++ p' := by
  induction bs generalizing s out p with
  | nil => exact ⟨[], p, by rw [append_nil]; exact h, by simp [codeOf]⟩
  | cons b bs ih =>
    rw [HuffmanCore.feed]
    obtain ⟨_, _, s₁, _, hstep, hs₁⟩ | ⟨sym, hsym, hcode, hstep⟩ := h.step cap b
    · rw [hstep]
      have hrest := ih hs₁
      rw [append_assoc, singleton_append, length_append, length_singleton] at hrest
      dsimp only
      cases hfeed : HuffmanCore.feed cap bs s₁ with
      | error e =>
        rw [hfeed] at hrest
        exact hrest.imp id fun hf => ⟨hf.1, by rw [length_cons]; omega⟩
      | ok s' =>
        rw [hfeed] at hrest
        exact hrest
    · have hlen := length_symBits hsym
      rw [← hcode, length_append, length_singleton] at hlen
      rw [hstep]
      by_cases heos : sym = EOS
      · rw [if_pos heos]
        exact Or.inl rfl
      · rw [if_neg heos]
        by_cases hfull : out.length ≥ cap
        · rw [if_pos hfull]
          exact Or.inr ⟨rfl, by rw [length_cons]; omega⟩
        · rw [if_neg hfull]
          have hrest := ih (stands_start (out ++ [UInt8.ofNat sym]))
          dsimp only
          cases hfeed : HuffmanCore.feed cap bs { out := out ++ [UInt8.ofNat sym] } with
          | error e =>
            rw [hfeed, length_append, length_singleton, length_nil] at hrest
            exact hrest.imp id fun hf => ⟨hf.1, by rw [length_cons]; omega⟩
          | ok s' =>
            rw [hfeed] at hrest
            obtain ⟨more, p', hs', hbits⟩ := hrest
            refine ⟨UInt8.ofNat sym :: more, p', by simpa using hs', ?_⟩
            have hone : codeOf [UInt8.ofNat sym] = p ++ [b] := by
              rw [hcode, codeOf, flatMap_cons, flatMap_nil, append_nil, ofNat_toNat hsym heos]
            rw [show UInt8.ofNat sym :: more = [UInt8.ofNat sym] ++ more from rfl, codeOf_append, hone, append_assoc, append_assoc, ← hbits]
            rfl

theorem Stands.feed_inside (h : Stands s out p) (cap : Nat) (hq : ∃ l r, huffTree.walk (p ++ q) = some (.node l r)) :
    ∃ s', HuffmanCore.feed cap q s = .ok s' ∧ Stands s' out (p ++ q) := by
  induction q generalizing s p with
  | nil => exact ⟨s, rfl, by rw [append_nil]; exact h⟩
  | cons b q ih =>
    rw [← singleton_append, ← append_assoc] at hq ⊢
    obtain ⟨l, r, hwalk⟩ := hq
    obtain ⟨l', r', hfront⟩ := CodeTree.walk_front_node hwalk
    obtain ⟨_, _, s₁, _, hstep, hs₁⟩ | ⟨sym, hsym, hcode, _⟩ := h.step cap b
    · obtain ⟨s', hs', hstands⟩ := ih hs₁ ⟨l, r, hwalk⟩
      refine ⟨s', ?_, hstands⟩
      rw [singleton_append, HuffmanCore.feed, hstep]
      exact hs'
    · rw [hcode, symBits_walk hsym] at hfront
      cases hfront

theorem feed_symBits (c : UInt8) (hroom : out.length < cap) (bs : List Bool) :
    HuffmanCore.feed cap (symBits c.toNat ++ bs) { out := out } =
      HuffmanCore.feed cap bs { out := out ++ [c] } := by
  have hc : c.toNat < 257 := Nat.lt_of_lt_of_le c.toNat_lt (by decide)
  have hne : symBits c.toNat ≠ [] := by
    intro h
    have := length_symBits hc
    rw [h] at this
    simp at this
  obtain ⟨front, b, hfront⟩ : ∃ front b, symBits c.toNat = front ++ [b] :=
    ⟨_, _, (List.dropLast_concat_getLast hne).symm⟩
  have hwalk := symBits_walk hc
  rw [hfront] at hwalk
  obtain ⟨s₁, hs₁, hstands⟩ := (stands_start out).feed_inside cap (q := front)
    (CodeTree.walk_front hwalk (cons_ne_nil b []))
  rw [hfront, append_assoc, feed_append, hs₁]
  dsimp only
  rw [singleton_append, HuffmanCore.feed]
  obtain ⟨l, r, _, hnode, _, _⟩ | ⟨sym, hsym, hcode, hstep⟩ := hstands.step cap b
  · rw [nil_append, hwalk] at hnode
    cases hnode
  · rw [nil_append, ← hfront] at hcode
    have heq : sym = c.toNat := by
      have h1 := symBits_walk hsym
      rw [← hcode, symBits_walk hc] at h1
      cases h1
      rfl
    subst heq
    rw [hstep, if_neg (by have := c.toNat_lt; unfold EOS; omega), if_neg (Nat.not_le.mpr hroom), UInt8.ofNat_toNat]

theorem feed_codeOf {out : Bytes} (s : Bytes) (hroom : out.length + s.length ≤ cap) (bs : List Bool) :
    HuffmanCore.feed cap (codeOf s ++ bs) { out := out } = HuffmanCore.feed cap bs { out := out ++ s } := by
  induction s generalizing out with
  | nil => simp [codeOf]
  | cons c s ih =>
    rw [length_cons] at hroom
    rw [codeOf, flatMap_cons, append_assoc, feed_symBits c (by omega)]
    rw [show (s.flatMap fun b => symBits b.toNat) = codeOf s from rfl, ih (by rw [length_append]; simp; omega)]
    simp

theorem ones_inside {k : Nat} (hk : k < 30) : ∃ l r, huffTree.walk (List.replicate k true) = some (.node l r) := by
  have heos : symBits EOS = List.replicate 30 true := by decide +kernel
  have hwalk : huffTree.walk (symBits EOS) = _ := symBits_walk (by decide)
  rw [heos, show List.replicate 30 true = List.replicate k true ++ List.replicate (30 - k) true by
    rw [List.replicate_append_replicate]; congr 1; omega] at hwalk
  refine CodeTree.walk_front hwalk ?_
  intro h
  have := congrArg List.length h
  rw [length_replicate, length_nil] at this
  omega

end Reading

theorem length_bitsOf (src : Bytes) : (bitsOf src).length = 8 * src.length := by
  induction src with
  | nil => rfl
  | cons b src ih =>
    rw [bitsOf, flatMap_cons, length_append, length_toBits, length_cons]
    rw [bitsOf] at ih
    omega

theorem bitsOf_inj {src src' : Bytes} (h : bitsOf src = bitsOf src') : src = src' := by
  have hlen := congrArg List.length h
  rw [length_bitsOf, length_bitsOf] at hlen
  induction src generalizing src' with
  | nil => exact (length_eq_zero_iff.mp (by simpa using hlen.symm)).symm
  | cons b src ih =>
    cases src' with
    | nil => simp at hlen
    | cons b' src' =>
      rw [bitsOf, bitsOf, flatMap_cons, flatMap_cons] at h
      obtain ⟨hbyte, hrest⟩ := append_inj h (by simp)
      have hvalue := congrArg value hbyte
      rw [value_toBits b.toNat_lt, value_toBits b'.toNat_lt] at hvalue
      rw [UInt8.toNat_inj.mp hvalue, ih hrest (by simpa using hlen)]

theorem length_codeOf (s : Bytes) : 5 * s.length ≤ (codeOf s).length := by
  induction s with
  | nil => simp
  | cons c s ih =>
    have hc : 5 ≤ (symBits c.toNat).length ∧ _ := length_symBits (Nat.lt_of_lt_of_le c.toNat_lt (by decide))
    rw [codeOf, flatMap_cons, length_append, length_cons]
    rw [codeOf] at ih
    omega

theorem encodes_of_decode {src s : Bytes} (h : huffmanDecode src cap = .ok s) : Encodes src s := by
  have hfeed := (stands_start []).feed cap (bitsOf src)
  unfold huffmanDecode at h
  rw [srcLoop_eq] at h
  cases hrun : feed cap (bitsOf src) {} with
  | error e =>
    rw [hrun] at h
    cases h
  | ok s' =>
    rw [hrun] at h hfeed
    obtain ⟨more, p, hstands, hbits⟩ := hfeed
    dsimp only at h
    rw [hstands.nbits, hstands.cur, hstands.out, nil_append] at h
    split at h
    · cases h
    next hshort =>
      split at h
      · cases h
      next hones =>
        cases h
        refine ⟨p.length, by omega, ?_⟩
        have hp : p = List.replicate p.length true := by
          apply value_inj (by simp)
          rw [value_ones]
          by_contra hne
          refine hones ⟨Nat.pos_of_ne_zero fun h0 => ?_, hne⟩
          rw [length_eq_zero_iff.mp h0] at hne
          exact hne rfl
        rw [← hp, ← hbits]
        rfl

theorem decode_of_encodes {src s : Bytes} (h : Encodes src s) (hroom : s.length ≤ cap) :
    huffmanDecode src cap = .ok s := by
  obtain ⟨k, hk, hbits⟩ := h
  obtain ⟨s', hs', hstands⟩ := (stands_start s).feed_inside cap (ones_inside (k := k) (by omega))
  have hrun : srcLoop cap src {} = .ok s' := by
    rw [srcLoop_eq, hbits]
    exact (feed_codeOf s (by simpa using hroom) _).trans hs'
  rw [nil_append] at hstands
  unfold huffmanDecode
  rw [hrun]
  dsimp only
  rw [hstands.nbits, hstands.cur, hstands.out, value_ones, length_replicate, if_neg (by omega),
    if_neg (fun hc => hc.2 rfl)]

theorem encodes_inj {src src' s : Bytes} (h : Encodes src s) (h' : Encodes src' s) : src = src' := by
  obtain ⟨k, hk, hbits⟩ := h
  obtain ⟨k', hk', hbits'⟩ := h'
  have hlen := congrArg List.length hbits
  have hlen' := congrArg List.length hbits'
  rw [length_bitsOf, length_append, length_replicate] at hlen hlen'
  have heq : k = k' := by omega
  subst heq
  exact bitsOf_inj (hbits.trans hbits'.symm)

/-- With room for every symbol: `s` exactly when `src` is the code of `s`, padded with fewer than eight ones;
otherwise there is EOS in it or the padding is wrong. -/
theorem huffman_decode_iff (src : Bytes) (cap : Nat) (hcap : 8 * src.length / 5 ≤ cap) :
    (∀ s, huffmanDecode src cap = .ok s ↔ Encodes src s) ∧
    (∀ e, huffmanDecode src cap = .error e → e = .eos ∨ e = .padding) ∧
    ∀ src' cap' s, huffmanDecode src cap = .ok s → huffmanDecode src' cap' = .ok s → src = src' := by
  refine ⟨fun s => ⟨encodes_of_decode, fun h => ?_⟩, ?_, fun src' cap' s h h' =>
    encodes_inj (encodes_of_decode h) (encodes_of_decode h')⟩
  · refine decode_of_encodes h ?_
    obtain ⟨k, _, hbits⟩ := h
    have hlen := congrArg List.length hbits
    have hcode := length_codeOf s
    rw [length_bitsOf, length_append, length_replicate] at hlen
    omega
  · intro e he
    have hfeed := (stands_start []).feed cap (bitsOf src)
    unfold huffmanDecode at he
    rw [srcLoop_eq] at he
    cases hrun : feed cap (bitsOf src) {} with
    | error e' =>
      rw [hrun] at he hfeed
      cases he
      obtain heos | ⟨_, hroom⟩ := hfeed
      · exact Or.inl heos
      · rw [length_bitsOf, length_nil, length_nil] at hroom
        omega
    | ok s' =>
      rw [hrun] at he
      dsimp only at he
      split at he
      · cases he
        exact Or.inr rfl
      · split at he
        · cases he
          exact Or.inr rfl
        · cases he

/-- `a` is 00011, with three ones behind it. -/
theorem huffman_decode_a : Encodes [0x1f] [0x61] :=
  ((huffman_decode_iff [0x1f] 1 (by decide)).1 [0x61]).mp (by decide +kernel)

end Wave.Common.HuffmanCore
