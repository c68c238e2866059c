import Wave.Lib.Bytes

/-! # UTF-8

The byte sequences of the standard are the encodings of scalar values (`encoded_iff`, `valid_iff`). -/

namespace Wave.Lib.Utf8

def Continues (b : UInt8) : Prop := 0x80 ≤ b.toNat ∧ b.toNat ≤ 0xBF

def value3 (a b c : UInt8) : Nat := (a.toNat - 0xE0) * 4096 + (b.toNat - 0x80) * 64 + (c.toNat - 0x80)

def value4 (a b c d : UInt8) : Nat :=
  (a.toNat - 0xF0) * 262144 + (b.toNat - 0x80) * 4096 + (c.toNat - 0x80) * 64 + (d.toNat - 0x80)

/-- The bytes of one character: nothing longer than it has to be, no surrogate, nothing past the last plane. -/
inductive Encoded : Bytes → Prop where
  | one (a : UInt8) (ha : a.toNat ≤ 0x7F) : Encoded [a]
  | two (a b : UInt8) (ha : 0xC2 ≤ a.toNat ∧ a.toNat ≤ 0xDF) (hb : Continues b) : Encoded [a, b]
  | three (a b c : UInt8) (ha : 0xE0 ≤ a.toNat ∧ a.toNat ≤ 0xEF) (hb : Continues b) (hc : Continues c)
      (hleast : 0x800 ≤ value3 a b c) (hscalar : ¬ (0xD800 ≤ value3 a b c ∧ value3 a b c ≤ 0xDFFF)) : Encoded [a, b, c]
  | four (a b c d : UInt8) (ha : 0xF0 ≤ a.toNat ∧ a.toNat ≤ 0xF4) (hb : Continues b) (hc : Continues c) (hd : Continues d)
      (hleast : 0x10000 ≤ value4 a b c d) (hmost : value4 a b c d ≤ 0x10FFFF) : Encoded [a, b, c, d]

theorem exists_char {n : Nat} (h : n < 0xD800 ∨ 0xDFFF < n ∧ n < 0x110000) : ∃ ch : Char, ch.val.toNat = n :=
  ⟨Char.ofNatAux n h, rfl⟩

theorem encoded_utf8EncodeChar (ch : Char) : Encoded (String.utf8EncodeChar ch) := by
  have hvalid : ch.val.toNat < 0xD800 ∨ 0xDFFF < ch.val.toNat ∧ ch.val.toNat < 0x110000 := ch.valid
  have hbyte : ∀ {m : Nat}, m < 256 → (UInt8.ofNat m).toNat = m := fun h => UInt8.toNat_ofNat_of_lt' h
  unfold String.utf8EncodeChar
  generalize ch.val.toNat = n at hvalid
  dsimp only
  split_ifs with h1 h2 h3
  · exact .one _ (by rw [hbyte (by omega)]; exact h1)
  · have ha := hbyte (show n / 64 % 0x20 + 0xC0 < 256 by omega)
    have hb := hbyte (show n % 0x40 + 0x80 < 256 by omega)
    refine .two _ _ ?_ ?_
    · rw [ha]
      omega
    · unfold Continues
      rw [hb]
      omega
  · have ha := hbyte (show n / 4096 % 0x10 + 0xE0 < 256 by omega)
    have hb := hbyte (show n / 64 % 0x40 + 0x80 < 256 by omega)
    have hc := hbyte (show n % 0x40 + 0x80 < 256 by omega)
    have hvalue : value3 (UInt8.ofNat (n / 4096 % 0x10 + 0xE0)) (UInt8.ofNat (n / 64 % 0x40 + 0x80))
        (UInt8.ofNat (n % 0x40 + 0x80)) = n := by
      unfold value3
      omega
    refine .three _ _ _ ?_ ?_ ?_ ?_ ?_
    · rw [ha]
      omega
    · unfold Continues
      rw [hb]
      omega
    · unfold Continues
      rw [hc]
      omega
    · rw [hvalue]
      omega
    · rw [hvalue]
      omega
  · have ha := hbyte (show n / 262144 % 0x08 + 0xF0 < 256 by omega)
    have hb := hbyte (show n / 4096 % 0x40 + 0x80 < 256 by omega)
    have hc := hbyte (show n / 64 % 0x40 + 0x80 < 256 by omega)
    have hd := hbyte (show n % 0x40 + 0x80 < 256 by omega)
    have hvalue : value4 (UInt8.ofNat (n / 262144 % 0x08 + 0xF0)) (UInt8.ofNat (n / 4096 % 0x40 + 0x80))
        (UInt8.ofNat (n / 64 % 0x40 + 0x80)) (UInt8.ofNat (n % 0x40 + 0x80)) = n := by
      unfold value4
      omega
    refine .four _ _ _ _ ?_ ?_ ?_ ?_ ?_ ?_
    · rw [ha]
      omega
    · unfold Continues
      rw [hb]
      omega
    · unfold Continues
      rw [hc]
      omega
    · unfold Continues
      rw [hd]
      omega
    · rw [hvalue]
      omega
    · rw [hvalue]
      omega

theorem exists_of_encoded {l : Bytes} (h : Encoded l) : ∃ ch : Char, String.utf8EncodeChar ch = l := by
  have hbyte : ∀ {n : Nat} {b : UInt8}, n = b.toNat → UInt8.ofNat n = b := by
    rintro n b rfl
    exact UInt8.ofNat_toNat
  unfold String.utf8EncodeChar
  cases h with
  | one a ha =>
    obtain ⟨ch, hch⟩ := exists_char (n := a.toNat) (by omega)
    refine ⟨ch, ?_⟩
    dsimp only
    rw [hch, if_pos ha, hbyte rfl]
  | two a b ha hb =>
    unfold Continues at hb
    obtain ⟨ch, hch⟩ := exists_char (n := (a.toNat - 0xC0) * 64 + (b.toNat - 0x80)) (by omega)
    refine ⟨ch, ?_⟩
    dsimp only
    rw [hch, if_neg (by omega), if_pos (by omega), hbyte (b := a) (by omega), hbyte (b := b) (by omega)]
  | three a b c ha hb hc hleast hscalar =>
    unfold Continues at hb hc
    obtain ⟨ch, hch⟩ := exists_char (n := value3 a b c) (by unfold value3 at hscalar ⊢; omega)
    refine ⟨ch, ?_⟩
    dsimp only
    unfold value3 at hch hleast
    rw [hch, if_neg (by omega), if_neg (by omega), if_pos (by omega), hbyte (b := a) (by omega), hbyte (b := b) (by omega),
      hbyte (b := c) (by omega)]
  | four a b c d ha hb hc hd hleast hmost =>
    unfold Continues at hb hc hd
    obtain ⟨ch, hch⟩ := exists_char (n := value4 a b c d) (by omega)
    refine ⟨ch, ?_⟩
    dsimp only
    unfold value4 at hch hleast
    rw [hch, if_neg (by omega), if_neg (by omega), if_neg (by omega), hbyte (b := a) (by omega), hbyte (b := b) (by omega),
      hbyte (b := c) (by omega), hbyte (b := d) (by omega)]

theorem encoded_iff {l : Bytes} : Encoded l ↔ ∃ ch : Char, String.utf8EncodeChar ch = l := by
  constructor
  · exact exists_of_encoded
  · rintro ⟨ch, rfl⟩
    exact encoded_utf8EncodeChar ch

theorem length_pos_of_encoded {l : Bytes} (h : Encoded l) : 0 < l.length := by
  cases h <;> exact Nat.succ_pos _

theorem valid_iff {V : Bytes → Bool} (hnil : V [] = true) (hchar : ∀ {l}, Encoded l → ∀ rest, V (l ++ rest) = true ↔ V rest = true)
    (hfirst : ∀ {b}, b ≠ [] → V b = true → ∃ l rest, Encoded l ∧ b = l ++ rest) (b : Bytes) :
    V b = true ↔ ∃ text : List Char, b = text.flatMap String.utf8EncodeChar := by
  constructor
  · induction hn : b.length using Nat.strong_induction_on generalizing b with
    | h n ih =>
      intro hv
      by_cases hb : b = []
      · exact ⟨[], hb⟩
      obtain ⟨l, rest, hl, rfl⟩ := hfirst hb hv
      have hpos := length_pos_of_encoded hl
      rw [hchar hl] at hv
      rw [length_append] at hn
      obtain ⟨text, rfl⟩ := ih rest.length (by omega) rest rfl hv
      obtain ⟨ch, rfl⟩ := encoded_iff.mp hl
      exact ⟨ch :: text, flatMap_cons.symm⟩
  · rintro ⟨text, rfl⟩
    induction text with
    | nil => exact hnil
    | cons ch text ih =>
      rw [flatMap_cons, hchar (encoded_utf8EncodeChar ch)]
      exact ih

end Wave.Lib.Utf8
