import Wave.Common.S3Names
import Wave.Lib.Utf8

/-! # Two validators of UTF-8 (`common/utf8_core.rs`, `common/s3_serve_core.rs`)

One bounds the second byte by the first, the other looks at the code point (`validUtf8_s3Utf8`). -/

namespace Wave.Common

open Lib Lib.Bytes Lib.Utf8

variable {a : UInt8} {bytes : Bytes}

/-- How many bytes a character takes that begins with `first`, and the range of its second one. -/
def utf8Range (first : UInt8) : Option (Nat × UInt8 × UInt8) :=
  if 0xc2 ≤ first ∧ first ≤ 0xdf then some (2, 0x80, 0xbf)
  else if first = 0xe0 then some (3, 0xa0, 0xbf)
  else if (0xe1 ≤ first ∧ first ≤ 0xec) ∨ (0xee ≤ first ∧ first ≤ 0xef) then some (3, 0x80, 0xbf)
  else if first = 0xed then some (3, 0x80, 0x9f)
  else if first = 0xf0 then some (4, 0x90, 0xbf)
  else if 0xf1 ≤ first ∧ first ≤ 0xf3 then some (4, 0x80, 0xbf)
  else if first = 0xf4 then some (4, 0x80, 0x8f)
  else none

def validUtf8 : Bytes → Bool
  | [] => true
  | first :: bytes =>
    if first ≤ 0x7f then validUtf8 bytes
    else
      match utf8Range first with
      | none => false
      | some (n, low, high) =>
        if bytes.length < n - 1 ∨ at0 bytes 0 < low ∨ at0 bytes 0 > high then false
        else if !(slice bytes 1 (n - 1)).all fun b => 0x80 ≤ b && b ≤ 0xbf then false
        else validUtf8 (bytes.drop (n - 1))
termination_by bytes => bytes.length
decreasing_by
  · exact Nat.lt_succ_self _
  · rw [length_drop]
    exact Nat.lt_succ_of_le (Nat.sub_le _ _)

theorem continues_iff (b : UInt8) : Continues b ↔ (0x80 ≤ b && b ≤ 0xbf) = true := by
  rw [and_eq_true, decide_eq_true_iff, decide_eq_true_iff, UInt8.le_iff_toNat_le, UInt8.le_iff_toNat_le]
  exact Iff.rfl

def Range3 (a low high : UInt8) : Prop :=
  (0xE0 ≤ a.toNat ∧ a.toNat ≤ 0xEF) ∧ ∀ b c, Continues c → ((low.toNat ≤ b.toNat ∧ b.toNat ≤ high.toNat) ↔
    Continues b ∧ 0x800 ≤ value3 a b c ∧ ¬ (0xD800 ≤ value3 a b c ∧ value3 a b c ≤ 0xDFFF))

def Range4 (a low high : UInt8) : Prop :=
  (0xF0 ≤ a.toNat ∧ a.toNat ≤ 0xF4) ∧ ∀ b c d, Continues c → Continues d → ((low.toNat ≤ b.toNat ∧ b.toNat ≤ high.toNat) ↔
    Continues b ∧ 0x10000 ≤ value4 a b c d ∧ value4 a b c d ≤ 0x10FFFF)

theorem range3 {a low high : UInt8}
    (h : a.toNat = 0xE0 ∧ low.toNat = 0xA0 ∧ high.toNat = 0xBF ∨
      (0xE1 ≤ a.toNat ∧ a.toNat ≤ 0xEC ∨ 0xEE ≤ a.toNat ∧ a.toNat ≤ 0xEF) ∧ low.toNat = 0x80 ∧ high.toNat = 0xBF ∨
      a.toNat = 0xED ∧ low.toNat = 0x80 ∧ high.toNat = 0x9F) : Range3 a low high := by
  refine ⟨by omega, fun b c hc => ?_⟩
  unfold Continues value3 at *
  omega

theorem range4 {a low high : UInt8}
    (h : a.toNat = 0xF0 ∧ low.toNat = 0x90 ∧ high.toNat = 0xBF ∨
      (0xF1 ≤ a.toNat ∧ a.toNat ≤ 0xF3) ∧ low.toNat = 0x80 ∧ high.toNat = 0xBF ∨
      a.toNat = 0xF4 ∧ low.toNat = 0x80 ∧ high.toNat = 0x8F) : Range4 a low high := by
  refine ⟨by omega, fun b c d hc hd => ?_⟩
  unfold Continues value4 at *
  omega

theorem utf8Range_some {a low high : UInt8} {n : Nat} (h : utf8Range a = some (n, low, high)) :
    (n = 2 ∧ (0xC2 ≤ a.toNat ∧ a.toNat ≤ 0xDF) ∧ low.toNat = 0x80 ∧ high.toNat = 0xBF) ∨
      (n = 3 ∧ Range3 a low high) ∨ n = 4 ∧ Range4 a low high := by
  unfold utf8Range at h
  simp only [UInt8.le_iff_toNat_le, ← UInt8.toNat_inj] at h
  split_ifs at h with h1 h2 h3 h4 h5 h6 h7
  · cases h
    exact .inl ⟨rfl, h1, rfl, rfl⟩
  · cases h
    exact .inr (.inl ⟨rfl, range3 (.inl ⟨h2, rfl, rfl⟩)⟩)
  · cases h
    exact .inr (.inl ⟨rfl, range3 (.inr (.inl ⟨h3, rfl, rfl⟩))⟩)
  · cases h
    exact .inr (.inl ⟨rfl, range3 (.inr (.inr ⟨h4, rfl, rfl⟩))⟩)
  · cases h
    exact .inr (.inr ⟨rfl, range4 (.inl ⟨h5, rfl, rfl⟩)⟩)
  · cases h
    exact .inr (.inr ⟨rfl, range4 (.inr (.inl ⟨h6, rfl, rfl⟩))⟩)
  · cases h
    exact .inr (.inr ⟨rfl, range4 (.inr (.inr ⟨h7, rfl, rfl⟩))⟩)

theorem utf8Range_isSome (h : 0xC2 ≤ a.toNat ∧ a.toNat ≤ 0xF4) : ∃ n low high, utf8Range a = some (n, low, high) := by
  cases hr : utf8Range a with
  | some r => exact ⟨r.1, r.2.1, r.2.2, rfl⟩
  | none =>
    unfold utf8Range at hr
    simp only [UInt8.le_iff_toNat_le, ← UInt8.toNat_inj] at hr
    have hlits : ∀ m : Nat, m < 256 → (UInt8.ofNat m).toNat = m := fun _ hm => UInt8.toNat_ofNat_of_lt' hm
    split_ifs at hr with h1 h2 h3 h4 h5 h6 h7
    have h1 : ¬ (0xC2 ≤ a.toNat ∧ a.toNat ≤ 0xDF) := h1
    have h2 : ¬ a.toNat = 0xE0 := h2
    have h3 : ¬ ((0xE1 ≤ a.toNat ∧ a.toNat ≤ 0xEC) ∨ (0xEE ≤ a.toNat ∧ a.toNat ≤ 0xEF)) := h3
    have h4 : ¬ a.toNat = 0xED := h4
    have h5 : ¬ a.toNat = 0xF0 := h5
    have h6 : ¬ (0xF1 ≤ a.toNat ∧ a.toNat ≤ 0xF3) := h6
    have h7 : ¬ a.toNat = 0xF4 := h7
    omega

theorem validUtf8_lead {a low high : UInt8} {n : Nat} (ha : 0x7F < a.toNat) (hr : utf8Range a = some (n, low, high)) :
    validUtf8 (a :: bytes) = true ↔
      n - 1 ≤ bytes.length ∧ (low.toNat ≤ (at0 bytes 0).toNat ∧ (at0 bytes 0).toNat ≤ high.toNat) ∧
        (∀ b ∈ slice bytes 1 (n - 1), Continues b) ∧ validUtf8 (bytes.drop (n - 1)) = true := by
  have hascii : ¬ a ≤ 0x7f := fun hle => absurd (UInt8.le_iff_toNat_le.mp hle) (Nat.not_le.mpr ha)
  rw [validUtf8, if_neg hascii, hr]
  dsimp only
  rw [← UInt8.le_iff_toNat_le, ← UInt8.le_iff_toNat_le]
  split
  next hout =>
    refine iff_of_false nofun fun h => ?_
    rcases hout with hlen | hlow | hhigh
    · exact absurd h.1 (Nat.not_le.mpr hlen)
    · exact absurd h.2.1.1 (UInt8.not_le.mpr hlow)
    · exact absurd h.2.1.2 (UInt8.not_le.mpr hhigh)
  next hin =>
    simp only [not_or, Nat.not_lt, UInt8.not_lt, gt_iff_lt] at hin
    obtain ⟨hlen, hlow, hhigh⟩ := hin
    have hall : (slice bytes 1 (n - 1)).all (fun b => 0x80 ≤ b && b ≤ 0xbf) = true ↔
        ∀ b ∈ slice bytes 1 (n - 1), Continues b := by
      rw [all_eq_true]
      exact forall₂_congr fun b _ => (continues_iff b).symm
    split
    next hnot =>
      rw [Bool.not_eq_true', ← not_eq_true, hall] at hnot
      exact iff_of_false nofun fun h => hnot h.2.2.1
    next hyes =>
      rw [Bool.not_eq_true', Bool.not_eq_false, hall] at hyes
      exact ⟨fun h => ⟨hlen, ⟨hlow, hhigh⟩, hyes, h⟩, fun h => h.2.2.2⟩

theorem validUtf8_ascii (ha : a.toNat ≤ 0x7F) (bytes : Bytes) : validUtf8 (a :: bytes) = validUtf8 bytes := by
  rw [validUtf8, if_pos (UInt8.le_iff_toNat_le.mpr ha)]

theorem validUtf8_encoded {l : Bytes} (h : Encoded l) (rest : Bytes) :
    validUtf8 (l ++ rest) = true ↔ validUtf8 rest = true := by
  cases h with
  | one a ha => exact Bool.eq_iff_iff.mp (validUtf8_ascii ha rest)
  | two a b ha hb =>
    obtain ⟨n, low, high, hr⟩ := utf8Range_isSome (a := a) (by omega)
    rcases utf8Range_some hr with ⟨rfl, -, hlow, hhigh⟩ | ⟨rfl, hthree⟩ | ⟨rfl, hfour⟩
    · rw [cons_append, validUtf8_lead (by omega) hr, hlow, hhigh]
      exact ⟨fun h => h.2.2.2, fun h => ⟨Nat.le_add_left 1 _, hb, nofun, h⟩⟩
    · exact absurd hthree.1 (by omega)
    · exact absurd hfour.1 (by omega)
  | three a b c ha hb hc hleast hscalar =>
    obtain ⟨n, low, high, hr⟩ := utf8Range_isSome (a := a) (by omega)
    rcases utf8Range_some hr with ⟨rfl, htwo, -⟩ | ⟨rfl, -, hthree⟩ | ⟨rfl, hfour⟩
    · omega
    · rw [cons_append, validUtf8_lead (by omega) hr]
      refine ⟨fun h => h.2.2.2, fun h => ⟨Nat.le_add_left 2 _, (hthree b c hc).mpr ⟨hb, hleast, hscalar⟩, ?_, h⟩⟩
      exact forall_mem_singleton.mpr hc
    · exact absurd hfour.1 (by omega)
  | four a b c d ha hb hc hd hleast hmost =>
    obtain ⟨n, low, high, hr⟩ := utf8Range_isSome (a := a) (by omega)
    rcases utf8Range_some hr with ⟨rfl, htwo, -⟩ | ⟨rfl, hthree⟩ | ⟨rfl, -, hfour⟩
    · omega
    · exact absurd hthree.1 (by omega)
    · rw [cons_append, validUtf8_lead (by omega) hr]
      refine ⟨fun h => h.2.2.2, fun h => ⟨Nat.le_add_left 3 _, (hfour b c d hc hd).mpr ⟨hb, hleast, hmost⟩, ?_, h⟩⟩
      exact forall_mem_cons.mpr ⟨hc, forall_mem_singleton.mpr hd⟩

theorem validUtf8_first (hne : bytes ≠ []) (h : validUtf8 bytes = true) :
    ∃ l rest, Encoded l ∧ bytes = l ++ rest := by
  obtain ⟨a, bytes, rfl⟩ := exists_cons_of_ne_nil hne
  by_cases ha : a.toNat ≤ 0x7F
  · exact ⟨[a], bytes, .one a ha, rfl⟩
  cases hr : utf8Range a with
  | none =>
    rw [validUtf8, if_neg (mt UInt8.le_iff_toNat_le.mp ha), hr] at h
    cases h
  | some r =>
    obtain ⟨n, low, high⟩ := r
    obtain ⟨hlen, hrange, hall, -⟩ := (validUtf8_lead (by omega) hr).mp h
    rcases utf8Range_some hr with ⟨rfl, htwo, hlow, hhigh⟩ | ⟨rfl, hlead, hthree⟩ | ⟨rfl, hlead, hfour⟩
    · obtain ⟨b, rest, rfl⟩ := List.exists_cons_of_length_pos hlen
      rw [hlow, hhigh] at hrange
      exact ⟨[a, b], rest, .two a b htwo hrange, rfl⟩
    · match bytes, hlen with
      | b :: c :: rest, _ =>
        have hc : Continues c := hall c mem_cons_self
        obtain ⟨hb, hleast, hscalar⟩ := (hthree b c hc).mp hrange
        exact ⟨[a, b, c], rest, .three a b c hlead hb hc hleast hscalar, rfl⟩
    · match bytes, hlen with
      | b :: c :: d :: rest, _ =>
        have hc : Continues c := hall c mem_cons_self
        have hd : Continues d := hall d (mem_cons_of_mem _ mem_cons_self)
        obtain ⟨hb, hleast, hmost⟩ := (hfour b c d hc hd).mp hrange
        exact ⟨[a, b, c, d], rest, .four a b c d hlead hb hc hd hleast hmost, rfl⟩

theorem byte_bits (b : UInt8) :
    (b &&& 0xc0 = 0x80 ↔ Continues b) ∧ (Continues b → (b &&& 0x3f).toNat = b.toNat - 0x80) := by
  rw [continues_iff]
  revert b
  exact of_every_byte (by decide +kernel)

theorem utf8Tail_cons (cp : Nat) (b : UInt8) (tail : Bytes) :
    (Continues b → utf8Tail cp (b :: tail) = utf8Tail (cp * 64 + (b.toNat - 0x80)) tail) ∧
      (¬ Continues b → utf8Tail cp (b :: tail) = none) := by
  obtain ⟨hbits, hvalue⟩ := byte_bits b
  unfold utf8Tail
  rw [foldlM_cons]
  constructor
  · intro hb
    have hlt : b.toNat - 0x80 < 2 ^ 6 := by
      have hle := hb.2
      omega
    rw [if_neg (not_not.mpr (hbits.mpr hb)), hvalue hb, Nat.shiftLeft_eq, Nat.mul_comm cp, ← Nat.two_pow_add_eq_or_of_lt hlt,
      Nat.mul_comm _ cp]
    rfl
  · intro hb
    rw [if_pos (mt hbits.mp hb)]
    rfl

theorem utf8Lead_some {len least : Nat} (h : utf8Lead a = some (len, least)) :
    (len = 2 ∧ least = 0x80 ∧ (0xC2 ≤ a.toNat ∧ a.toNat ≤ 0xDF) ∧ a.toNat &&& (0x7f >>> len) = a.toNat - 0xC0) ∨
      (len = 3 ∧ least = 0x800 ∧ (0xE0 ≤ a.toNat ∧ a.toNat ≤ 0xEF) ∧ a.toNat &&& (0x7f >>> len) = a.toNat - 0xE0) ∨
      len = 4 ∧ least = 0x10000 ∧ (0xF0 ≤ a.toNat ∧ a.toNat ≤ 0xF4) ∧ a.toNat &&& (0x7f >>> len) = a.toNat - 0xF0 := by
  unfold utf8Lead at h
  simp only [UInt8.le_iff_toNat_le] at h
  split_ifs at h with h1 h2 h3
  · cases h
    have hrange : 0xC2 ≤ a.toNat ∧ a.toNat ≤ 0xDF := h1
    have hmask : a.toNat &&& 2 ^ 5 - 1 = a.toNat % 2 ^ 5 := Nat.and_two_pow_sub_one_eq_mod _ 5
    exact .inl ⟨rfl, rfl, hrange, hmask.trans (by omega)⟩
  · cases h
    have hrange : 0xE0 ≤ a.toNat ∧ a.toNat ≤ 0xEF := h2
    have hmask : a.toNat &&& 2 ^ 4 - 1 = a.toNat % 2 ^ 4 := Nat.and_two_pow_sub_one_eq_mod _ 4
    exact .inr (.inl ⟨rfl, rfl, hrange, hmask.trans (by omega)⟩)
  · cases h
    have hrange : 0xF0 ≤ a.toNat ∧ a.toNat ≤ 0xF4 := h3
    have hmask : a.toNat &&& 2 ^ 3 - 1 = a.toNat % 2 ^ 3 := Nat.and_two_pow_sub_one_eq_mod _ 3
    exact .inr (.inr ⟨rfl, rfl, hrange, hmask.trans (by omega)⟩)

theorem utf8Lead_isSome (h : 0xC2 ≤ a.toNat ∧ a.toNat ≤ 0xF4) : ∃ len least, utf8Lead a = some (len, least) := by
  cases hr : utf8Lead a with
  | some r => exact ⟨r.1, r.2, rfl⟩
  | none =>
    unfold utf8Lead at hr
    simp only [UInt8.le_iff_toNat_le] at hr
    split_ifs at hr with h1 h2 h3
    have h1 : ¬ (0xC2 ≤ a.toNat ∧ a.toNat ≤ 0xDF) := h1
    have h2 : ¬ (0xE0 ≤ a.toNat ∧ a.toNat ≤ 0xEF) := h2
    have h3 : ¬ (0xF0 ≤ a.toNat ∧ a.toNat ≤ 0xF4) := h3
    omega

theorem s3Utf8_lead {len least : Nat} (ha : 0x7F < a.toNat) (hr : utf8Lead a = some (len, least)) :
    s3Utf8 (a :: bytes) = true ↔
      len - 1 ≤ bytes.length ∧ ∃ cp, utf8Tail (a.toNat &&& (0x7f >>> len)) (bytes.take (len - 1)) = some cp ∧
        (least ≤ cp ∧ cp ≤ 0x10ffff ∧ ¬ (0xd800 ≤ cp ∧ cp ≤ 0xdfff)) ∧ s3Utf8 (bytes.drop (len - 1)) = true := by
  have hascii : ¬ a ≤ 0x7f := fun hle => absurd (UInt8.le_iff_toNat_le.mp hle) (Nat.not_le.mpr ha)
  rw [s3Utf8, if_neg hascii, hr]
  dsimp only
  split
  next hshort => exact iff_of_false false_ne_true fun h => absurd h.1 (Nat.not_le.mpr hshort)
  next hlong =>
    rw [and_iff_right (Nat.not_lt.mp hlong)]
    cases utf8Tail (a.toNat &&& (0x7f >>> len)) (bytes.take (len - 1)) with
    | none =>
      refine iff_of_false false_ne_true ?_
      rintro ⟨cp, h, -⟩
      cases h
    | some cp =>
      simp only [Option.some.injEq, exists_eq_left']
      split
      next hout => exact iff_of_false false_ne_true fun h => by omega
      next hin => exact (and_iff_right (by omega)).symm

theorem s3Utf8_ascii (ha : a.toNat ≤ 0x7F) (bytes : Bytes) : s3Utf8 (a :: bytes) = s3Utf8 bytes := by
  rw [s3Utf8, if_pos (UInt8.le_iff_toNat_le.mpr ha)]

theorem s3Utf8_encoded {l : Bytes} (h : Encoded l) (rest : Bytes) : s3Utf8 (l ++ rest) = true ↔ s3Utf8 rest = true := by
  cases h with
  | one a ha => exact Bool.eq_iff_iff.mp (s3Utf8_ascii ha rest)
  | two a b ha hb =>
    obtain ⟨len, least, hr⟩ := utf8Lead_isSome (a := a) (by omega)
    rcases utf8Lead_some hr with ⟨rfl, rfl, -, hbits⟩ | ⟨rfl, rfl, hthree, -⟩ | ⟨rfl, rfl, hfour, -⟩
    · rw [cons_append, s3Utf8_lead (by omega) hr, hbits]
      have hcp : utf8Tail (a.toNat - 0xC0) [b] = some ((a.toNat - 0xC0) * 64 + (b.toNat - 0x80)) := (utf8Tail_cons _ b []).1 hb
      obtain ⟨hlow, hhigh⟩ := hb
      refine ⟨fun ⟨_, _, _, _, h⟩ => h, fun h => ⟨Nat.le_add_left 1 _, _, hcp, by omega, h⟩⟩
    · omega
    · omega
  | three a b c ha hb hc hleast hscalar =>
    obtain ⟨len, least, hr⟩ := utf8Lead_isSome (a := a) (by omega)
    rcases utf8Lead_some hr with ⟨rfl, rfl, htwo, -⟩ | ⟨rfl, rfl, -, hbits⟩ | ⟨rfl, rfl, hfour, -⟩
    · omega
    · rw [cons_append, s3Utf8_lead (by omega) hr, hbits]
      have hcp : utf8Tail (a.toNat - 0xE0) [b, c] = some (((a.toNat - 0xE0) * 64 + (b.toNat - 0x80)) * 64 + (c.toNat - 0x80)) :=
        ((utf8Tail_cons _ b [c]).1 hb).trans ((utf8Tail_cons _ c []).1 hc)
      unfold value3 at hleast hscalar
      have hbmost := hb.2
      obtain ⟨hlow, hhigh⟩ := hc
      refine ⟨fun ⟨_, _, _, _, h⟩ => h, fun h => ⟨Nat.le_add_left 2 _, _, hcp, by omega, h⟩⟩
    · omega
  | four a b c d ha hb hc hd hleast hmost =>
    obtain ⟨len, least, hr⟩ := utf8Lead_isSome (a := a) (by omega)
    rcases utf8Lead_some hr with ⟨rfl, rfl, htwo, -⟩ | ⟨rfl, rfl, hthree, -⟩ | ⟨rfl, rfl, -, hbits⟩
    · omega
    · omega
    · rw [cons_append, s3Utf8_lead (by omega) hr, hbits]
      have hcp : utf8Tail (a.toNat - 0xF0) [b, c, d] =
          some ((((a.toNat - 0xF0) * 64 + (b.toNat - 0x80)) * 64 + (c.toNat - 0x80)) * 64 + (d.toNat - 0x80)) :=
        ((utf8Tail_cons _ b [c, d]).1 hb).trans (((utf8Tail_cons _ c [d]).1 hc).trans ((utf8Tail_cons _ d []).1 hd))
      unfold value4 at hleast hmost
      obtain ⟨hlow, hhigh⟩ := hd
      refine ⟨fun ⟨_, _, _, _, h⟩ => h, fun h => ⟨Nat.le_add_left 3 _, _, hcp, by omega, h⟩⟩

theorem utf8Tail_some {cp cp' : Nat} {b : UInt8} (tail : Bytes) (h : utf8Tail cp (b :: tail) = some cp') :
    Continues b ∧ utf8Tail (cp * 64 + (b.toNat - 0x80)) tail = some cp' := by
  by_cases hb : Continues b
  · rw [(utf8Tail_cons cp b tail).1 hb] at h
    exact ⟨hb, h⟩
  · rw [(utf8Tail_cons cp b tail).2 hb] at h
    cases h

theorem s3Utf8_first (hne : bytes ≠ []) (h : s3Utf8 bytes = true) :
    ∃ l rest, Encoded l ∧ bytes = l ++ rest := by
  obtain ⟨a, bytes, rfl⟩ := exists_cons_of_ne_nil hne
  by_cases ha : a.toNat ≤ 0x7F
  · exact ⟨[a], bytes, .one a ha, rfl⟩
  cases hr : utf8Lead a with
  | none =>
    rw [s3Utf8, if_neg (mt UInt8.le_iff_toNat_le.mp ha), hr] at h
    cases h
  | some r =>
    obtain ⟨len, least⟩ := r
    obtain ⟨hlen, cp, htail, ⟨hleast, hmost, hscalar⟩, -⟩ := (s3Utf8_lead (by omega) hr).mp h
    rcases utf8Lead_some hr with ⟨rfl, rfl, htwo, hbits⟩ | ⟨rfl, rfl, hthree, hbits⟩ | ⟨rfl, rfl, hfour, hbits⟩
    · obtain _ | ⟨b, rest⟩ := bytes
      · exact absurd hlen (by simp)
      obtain ⟨hb, -⟩ := utf8Tail_some [] htail
      exact ⟨[a, b], rest, .two a b htwo hb, rfl⟩
    · obtain _ | ⟨b, _ | ⟨c, rest⟩⟩ := bytes
      · exact absurd hlen (by simp)
      · exact absurd hlen (by simp)
      rw [hbits] at htail
      obtain ⟨hb, htail⟩ := utf8Tail_some [c] htail
      obtain ⟨hc, hcp⟩ := utf8Tail_some [] htail
      have hvalue : value3 a b c = cp := by
        have hcp := Option.some.inj hcp
        unfold value3
        omega
      exact ⟨[a, b, c], rest, .three a b c hthree hb hc (by omega) (by omega), rfl⟩
    · obtain _ | ⟨b, _ | ⟨c, _ | ⟨d, rest⟩⟩⟩ := bytes
      · exact absurd hlen (by simp)
      · exact absurd hlen (by simp)
      · exact absurd hlen (by simp)
      rw [hbits] at htail
      obtain ⟨hb, htail⟩ := utf8Tail_some [c, d] htail
      obtain ⟨hc, htail⟩ := utf8Tail_some [d] htail
      obtain ⟨hd, hcp⟩ := utf8Tail_some [] htail
      have hvalue : value4 a b c d = cp := by
        have hcp := Option.some.inj hcp
        unfold value4
        omega
      exact ⟨[a, b, c, d], rest, .four a b c d hfour hb hc hd (by omega) (by omega), rfl⟩

/-- Both say the same, and yes to the encodings of texts alone. -/
theorem validUtf8_s3Utf8 (b : Bytes) :
    validUtf8 b = s3Utf8 b ∧ (validUtf8 b = true ↔ ∃ text : List Char, b = text.flatMap String.utf8EncodeChar) := by
  have hone := valid_iff (V := validUtf8) (by rw [validUtf8]) validUtf8_encoded validUtf8_first b
  have hother := valid_iff (V := s3Utf8) (by rw [s3Utf8]) s3Utf8_encoded s3Utf8_first b
  exact ⟨Bool.eq_iff_iff.mpr (hone.trans hother.symm), hone⟩

end Wave.Common
