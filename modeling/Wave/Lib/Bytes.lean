import Mathlib.Data.List.Basic
import Mathlib.Tactic.Linarith

/-! # Byte strings

Buffers are lists of bytes, with the operations slices have in the source. -/

namespace Wave

export Bool (and_eq_true and_eq_true_iff eq_false_iff false_eq_true false_ne_true not_eq_true
  or_eq_false_iff or_eq_true)
export List (all_eq_true any_eq_false append_assoc append_cancel_left append_cons
  append_eq_append_iff append_eq_nil_iff append_inj append_ne_nil_of_left_ne_nil
  append_ne_nil_of_right_ne_nil append_nil concat_eq_append cons_append cons_ne_nil contains_iff_mem
  countP_append countP_cons count_append dropWhile_cons_of_neg drop_append drop_append_of_le_length
  drop_drop drop_eq_getElem_cons drop_eq_nil_iff drop_eq_nil_of_le drop_left drop_length
  drop_of_length_le drop_one drop_take drop_zero eq_nil_of_length_eq_zero eq_nil_or_concat
  eq_of_mem_replicate exists_cons_of_ne_nil filterMap_append flatMap_append flatMap_cons flatMap_nil
  flatMap_singleton flatten_append flatten_cons flatten_nil foldlM_cons foldl_append foldl_cons
  foldl_nil forall_mem_append forall_mem_cons forall_mem_nil forall_mem_singleton
  getElem_mem intercalate_singleton isEmpty_cons isEmpty_nil isPrefixOf_iff_prefix length_append
  length_cons length_drop length_eq_zero_iff length_map length_nil length_pos_iff
  length_pos_of_ne_nil length_replicate length_set length_singleton length_take length_take_le
  length_take_of_le map_append map_congr_left map_cons map_eq_nil_iff map_map map_nil map_singleton
  mem_append mem_append_left mem_append_right mem_cons mem_cons_of_mem mem_cons_self mem_filter
  mem_filterMap mem_iff_getElem mem_map mem_range mem_singleton mem_singleton_self
  ne_nil_of_length_pos nil_append nil_prefix not_mem_nil prefix_append prefix_rfl
  set_eq_of_length_le singleton_append suffix_cons sum_append tail_cons takeWhile_append_dropWhile
  takeWhile_append_of_pos takeWhile_cons_of_neg takeWhile_cons_of_pos takeWhile_prefix take_append
  take_append_drop take_append_of_le_length take_left take_length take_of_length_le take_prefix
  take_succ_cons take_take take_zero)
export Option (bind_eq_bind bind_eq_some_iff bind_some getD_some isNone_iff_eq_none
  isSome_iff_exists isSome_iff_ne_none map_eq_some_iff map_some some_ne_none)

end Wave

namespace Wave.Lib

abbrev Bytes := List UInt8

/-- `[u8; n]`. -/
abbrev FixedBytes (n : Nat) := {b : Bytes // b.length = n}

/-- A `[u8; n]` with the length in use. -/
abbrev BoundedBytes (n : Nat) := {b : Bytes // b.length ≤ n}

def FixedBytes.zero (n : Nat) : FixedBytes n := ⟨List.replicate n 0, length_replicate⟩

theorem of_every_byte {P : UInt8 → Prop} (h : ∀ n : Fin 256, P (UInt8.ofFin n)) (b : UInt8) : P b := h b.toFin

namespace Bytes

/-- `b[i]`, zero past the end. -/
def at0 (b : Bytes) (i : Nat) : UInt8 := b.getD i 0

def slice (b : Bytes) (i j : Nat) : Bytes := (b.drop i).take (j - i)

/-- `b[i..i + new.len()].copy_from_slice(new)`. -/
def splice (b : Bytes) (i : Nat) (new : Bytes) : Bytes :=
  b.take i ++ new ++ b.drop (i + new.length)

def xorWith (a b : Bytes) : Bytes := List.zipWith (· ^^^ ·) a b

def be16 (n : UInt16) : Bytes := [(n >>> 8).toUInt8, n.toUInt8]

def be32 (n : UInt32) : Bytes :=
  [(n >>> 24).toUInt8, (n >>> 16).toUInt8, (n >>> 8).toUInt8, n.toUInt8]

def be64 (n : UInt64) : Bytes := be32 (n >>> 32).toUInt32 ++ be32 n.toUInt32

def le16 (n : UInt16) : Bytes := [n.toUInt8, (n >>> 8).toUInt8]

def le32 (n : UInt32) : Bytes :=
  [n.toUInt8, (n >>> 8).toUInt8, (n >>> 16).toUInt8, (n >>> 24).toUInt8]

/-- `u16::from_be_bytes` of two bytes. -/
def u16be (a b : UInt8) : UInt16 := UInt16.ofNat (a.toNat * 256 + b.toNat)

def u16le (a b : UInt8) : UInt16 := u16be b a

/-- `u32::from_be_bytes` of four bytes. -/
def u32be (a b c d : UInt8) : UInt32 :=
  UInt32.ofNat (((a.toNat * 256 + b.toNat) * 256 + c.toNat) * 256 + d.toNat)

def u32le (a b c d : UInt8) : UInt32 := u32be d c b a

@[simp] theorem length_be16 (n : UInt16) : (be16 n).length = 2 := rfl
@[simp] theorem length_be32 (n : UInt32) : (be32 n).length = 4 := rfl
@[simp] theorem length_be64 (n : UInt64) : (be64 n).length = 8 := rfl
@[simp] theorem length_le16 (n : UInt16) : (le16 n).length = 2 := rfl
@[simp] theorem length_le32 (n : UInt32) : (le32 n).length = 4 := rfl

theorem at0_behind (a b : Bytes) (i : Nat) : at0 (a ++ b) (a.length + i) = at0 b i := by
  rw [at0, at0, List.getD_eq_getElem?_getD, List.getElem?_append_right (Nat.le_add_right _ _), Nat.add_sub_cancel_left,
    List.getD_eq_getElem?_getD]

theorem length_slice (b : Bytes) (i j : Nat) : (slice b i j).length = min (j - i) (b.length - i) := by
  simp [slice]

theorem length_slice_of_le {b : Bytes} {i j : Nat} (h : j ≤ b.length) :
    (slice b i j).length = j - i := by
  rw [length_slice]; omega

theorem length_splice {b new : Bytes} {i : Nat} (h : i + new.length ≤ b.length) :
    (splice b i new).length = b.length := by
  simp [splice]; omega

theorem slice_middle (a b c : Bytes) : slice (a ++ (b ++ c)) a.length (a.length + b.length) = b := by
  simp [slice]

theorem splice_middle {a b c new : Bytes} (h : new.length = b.length) :
    splice (a ++ (b ++ c)) a.length new = a ++ (new ++ c) := by
  simp [splice, h]

@[simp] theorem length_xorWith (a b : Bytes) : (xorWith a b).length = min a.length b.length := by
  simp [xorWith]

/-- Exclusive or with the same long enough string twice gives the bytes back. -/
theorem xorWith_xorWith_cancel (a k : Bytes) (h : a.length ≤ k.length) : xorWith (xorWith a k) k = a := by
  induction a generalizing k with
  | nil => simp [xorWith]
  | cons x a ih =>
    cases k with
    | nil => simp at h
    | cons y k =>
      have ha := ih k (by simpa using h)
      simp only [xorWith, List.zipWith_cons_cons, UInt8.xor_assoc, UInt8.xor_self, UInt8.xor_zero] at ha ⊢
      rw [ha]

/-- Exclusive or with a fixed string is injective on strings no longer than it. -/
theorem xorWith_cancel_left {k a b : Bytes} (ha : a.length ≤ k.length) (hb : b.length ≤ k.length)
    (h : xorWith k a = xorWith k b) : a = b := by
  have hcomm : ∀ c : Bytes, xorWith k c = xorWith c k := fun c =>
    List.zipWith_comm_of_comm (fun x y => UInt8.xor_comm x y)
  rw [← xorWith_xorWith_cancel a k ha, ← xorWith_xorWith_cancel b k hb, ← hcomm a, ← hcomm b, h]

theorem u16be_be16 (n : UInt16) : u16be (n >>> 8).toUInt8 n.toUInt8 = n := by
  apply UInt16.toNat.inj
  have hn := n.toNat_lt
  simp [u16be, Nat.shiftRight_eq_div_pow]
  omega

theorem u32be_be32 (n : UInt32) :
    u32be (n >>> 24).toUInt8 (n >>> 16).toUInt8 (n >>> 8).toUInt8 n.toUInt8 = n := by
  apply UInt32.toNat.inj
  have hn := n.toNat_lt
  simp [u32be, Nat.shiftRight_eq_div_pow]
  omega

theorem be32_u32be (a b c d : UInt8) : be32 (u32be a b c d) = [a, b, c, d] := by
  have ha := a.toNat_lt
  have hb := b.toNat_lt
  have hc := c.toNat_lt
  have hd := d.toNat_lt
  simp only [be32, List.cons.injEq, and_true]
  refine ⟨?_, ?_, ?_, ?_⟩ <;> apply UInt8.toNat.inj <;>
    simp [u32be, Nat.shiftRight_eq_div_pow] <;> omega

theorem be32_xor (v w : UInt32) : be32 (v ^^^ w) = xorWith (be32 v) (be32 w) := by
  simp [be32, xorWith, UInt32.shiftRight_xor]

theorem value_be64 (n : UInt64) : (be64 n).foldl (fun acc b => acc * 256 + b.toNat) 0 = n.toNat := by
  have hn := n.toNat_lt
  simp [be64, be32, Nat.shiftRight_eq_div_pow]
  omega

theorem foldl_or_eq_zero (l : Bytes) (acc : UInt8) : l.foldl (· ||| ·) acc = 0 ↔ acc = 0 ∧ ∀ b ∈ l, b = 0 := by
  induction l generalizing acc with
  | nil => simp
  | cons b l ih => rw [foldl_cons, ih, UInt8.or_eq_zero_iff, forall_mem_cons, and_assoc]

theorem xorWith_eq_zero {a b : Bytes} (h : a.length = b.length) : (∀ x ∈ xorWith a b, x = 0) ↔ a = b := by
  induction a generalizing b with
  | nil => rw [eq_nil_of_length_eq_zero h.symm]; simp [xorWith]
  | cons x a ih =>
    cases b with
    | nil => cases h
    | cons y b =>
      rw [xorWith, List.zipWith_cons_cons, forall_mem_cons, UInt8.xor_eq_zero_iff, List.cons.injEq,
        ← ih (Nat.succ.inj h)]
      rfl

theorem be16_injective {a b : UInt16} (h : be16 a = be16 b) : a = b := by
  simp only [be16, List.cons.injEq, and_true] at h
  rw [← u16be_be16 a, ← u16be_be16 b, h.1, h.2]

theorem be32_injective {a b : UInt32} (h : be32 a = be32 b) : a = b := by
  simp only [be32, List.cons.injEq, and_true] at h
  rw [← u32be_be32 a, ← u32be_be32 b, h.1, h.2.1, h.2.2.1, h.2.2.2]

end Bytes

def decimal (n : Nat) : Bytes := (Nat.toDigits 10 n).map fun c => UInt8.ofNat c.toNat

def dottedQuad (ip : UInt32) : Bytes :=
  [46].intercalate ((Bytes.be32 ip).map fun b => decimal b.toNat)

theorem mem_decimal {n : Nat} {b : UInt8} (h : b ∈ decimal n) : 48 ≤ b.toNat ∧ b.toNat ≤ 57 := by
  obtain ⟨c, hc, rfl⟩ := mem_map.mp h
  have hdigit := Nat.isDigit_of_mem_toDigits (by decide) (by decide) hc
  rw [Char.isDigit, and_eq_true, decide_eq_true_eq, decide_eq_true_eq] at hdigit
  have hlow : 48 ≤ c.toNat := hdigit.1
  have hhigh : c.toNat ≤ 57 := hdigit.2
  rw [UInt8.toNat_ofNat']
  omega

theorem mem_intercalate {α : Type*} {sep : α} {parts : List (List α)} {x : α} (h : x ∈ [sep].intercalate parts) :
    x = sep ∨ ∃ p ∈ parts, x ∈ p := by
  induction parts with
  | nil => cases h
  | cons p parts ih =>
    cases parts with
    | nil =>
      rw [intercalate_singleton] at h
      exact Or.inr ⟨p, mem_cons_self, h⟩
    | cons q parts =>
      rw [List.intercalate_cons_cons, mem_append, mem_append] at h
      rcases h with (h | h) | h
      · exact Or.inr ⟨p, mem_cons_self, h⟩
      · exact Or.inl (mem_singleton.mp h)
      · rcases ih h with h | ⟨q', hq, h⟩
        · exact Or.inl h
        · exact Or.inr ⟨q', mem_cons_of_mem _ hq, h⟩

theorem mem_dottedQuad {ip : UInt32} {b : UInt8} (h : b ∈ dottedQuad ip) :
    46 ≤ b.toNat ∧ b.toNat ≤ 57 := by
  rcases mem_intercalate h with rfl | ⟨part, hpart, hb⟩
  · decide
  · obtain ⟨o, -, rfl⟩ := mem_map.mp hpart
    have := mem_decimal hb
    omega

end Wave.Lib
