import Wave.Http.QpackRoundTrip

/-! # The two readers of a QPACK field line

One reader reduces integers to a `u32` and a `usize`, the other refuses those that do not fit. -/

namespace Wave.Http.Qpack

open Lib Lib.Bytes Lib.Paths

theorem decodeIntLoop_le {buf : Bytes} {shift value cursor v n : Nat}
    (h : decodeIntLoop buf shift value cursor = some (v, n)) : n ≤ cursor + buf.length := by
  induction buf generalizing shift value cursor with
  | nil => cases h
  | cons b rest ih =>
    rw [length_cons]
    unfold decodeIntLoop at h
    split at h
    · cases h
    dsimp only at h
    split at h
    · cases h
    split at h
    · cases h
    split at h
    · cases h
      omega
    · have hle := ih h
      omega

theorem decodeInt_le {buf : Bytes} {p v n : Nat} (h : decodeInt buf p = some (v, n)) : n ≤ buf.length := by
  cases buf with
  | nil => cases h
  | cons b rest =>
    rw [length_cons]
    unfold decodeInt at h
    dsimp only at h
    split at h
    · cases h
      omega
    · have hle := decodeIntLoop_le h
      omega

section Strings

variable {w start p : Nat} {block : Bytes}

/-- A raw string at `start`, as long as `low` of the integer in front of it. -/
def stringAt (low : Nat → Nat) (block : Bytes) (start p : Nat) : Option (Bytes × Nat) :=
  (decodeInt (block.drop start) p).bind fun r =>
    if start + r.2 + low r.1 ≤ block.length then
      some ((block.drop (start + r.2)).take (low r.1), start + r.2 + low r.1)
    else none

theorem stringAt_some {low : Nat → Nat} {s : Bytes} {stop : Nat} (h : stringAt low block start p = some (s, stop)) :
    ∃ len n, decodeInt (block.drop start) p = some (len, n) ∧ start + n + low len ≤ block.length ∧
      s = (block.drop (start + n)).take (low len) ∧ stop = start + n + low len := by
  obtain ⟨⟨len, n⟩, hint, h⟩ := bind_eq_some_iff.mp h
  split at h
  next hfits =>
    cases h
    exact ⟨len, n, hint, hfits, rfl, rfl⟩
  · cases h

theorem stringAt_of_int {low : Nat → Nat} {len n : Nat} (hint : decodeInt (block.drop start) p = some (len, n))
    (hfits : start + n + low len ≤ block.length) :
    stringAt low block start p = some ((block.drop (start + n)).take (low len), start + n + low len) := by
  rw [stringAt, hint, bind_some, if_pos hfits]

theorem rawInto_eq (hlen : block.length < 2 ^ w) : rawInto w block start p = stringAt id block start p := by
  rw [rawInto, stringAt]
  cases hint : decodeInt (block.drop start) p with
  | none => rfl
  | some r =>
    obtain ⟨len, n⟩ := r
    rw [bind_eq_bind, bind_some, bind_some]
    dsimp only [id]
    by_cases hfits : start + n + len ≤ block.length
    · rw [checked_of_lt (by omega), bind_eq_bind, bind_some, checked_of_lt (by omega), bind_eq_bind,
        bind_some, get, if_pos ⟨Nat.le_add_right _ _, hfits⟩, if_pos hfits, slice, Nat.add_sub_cancel_left]
      rfl
    · rw [if_neg hfits]
      unfold checked
      split
      · rw [bind_eq_bind, bind_some]
        split
        · rw [bind_eq_bind, bind_some, get, if_neg (fun h => hfits h.2)]
          rfl
        · rfl
      · rfl

theorem rawString_eq {h huff : UInt8} (hbyte : block[start]? = some h) (hflag : h &&& huff = 0) :
    rawString w block start p huff = stringAt (· % 2 ^ w) block start p := by
  have hin : start < block.length := (List.getElem?_eq_some_iff.mp hbyte).1
  rw [rawString, stringAt, hbyte, bind_eq_bind, bind_some, if_neg (not_not.mpr hflag)]
  cases hint : decodeInt (block.drop start) p with
  | none => rfl
  | some r =>
    obtain ⟨len, n⟩ := r
    have hle := decodeInt_le hint
    rw [length_drop] at hle
    rw [bind_eq_bind, bind_some, bind_some]
    dsimp only
    rw [length_drop]
    by_cases hfits : start + n + len % 2 ^ w ≤ block.length
    · rw [if_neg (by omega), if_pos hfits]
      rfl
    · rw [if_pos (by omega), if_neg hfits]

theorem rawString_some {huff : UInt8} {r : Bytes × Nat} (h : rawString w block start p huff = some r) :
    ∃ b, block[start]? = some b ∧ b &&& huff = 0 ∧ stringAt (· % 2 ^ w) block start p = some r := by
  have hcopy := h
  rw [rawString, bind_eq_bind] at h
  obtain ⟨b, hbyte, h⟩ := bind_eq_some_iff.mp h
  split at h
  · cases h
  next hflag => exact ⟨b, hbyte, not_not.mp hflag, by rw [← rawString_eq hbyte (not_not.mp hflag), hcopy]⟩

end Strings

section Lines

variable {w room : Nat} {block : Bytes} {field : Field}

/-- A Huffman flag of the first line: of its literal name, or of the literal value behind a name. -/
inductive HuffmanFlag (block : Bytes) : Prop
  | referenced {first h : UInt8} {idx n : Nat} (hfirst : block.head? = some first) (h80 : first &&& 0x80 = 0)
    (h40 : first &&& 0x40 ≠ 0) (hint : decodeInt block 4 = some (idx, n)) (hbyte : block[n]? = some h)
    (hflag : h &&& 0x80 ≠ 0)
  | name {first : UInt8} (hfirst : block.head? = some first) (h80 : first &&& 0x80 = 0) (h40 : first &&& 0x40 = 0)
    (h20 : first &&& 0x20 ≠ 0) (hflag : first &&& 0x08 ≠ 0)
  | value {first h : UInt8} {len n : Nat} (hfirst : block.head? = some first) (h80 : first &&& 0x80 = 0)
    (h40 : first &&& 0x40 = 0) (h20 : first &&& 0x20 ≠ 0) (hint : decodeInt block 3 = some (len, n))
    (hbyte : block[n + len]? = some h) (hflag : h &&& 0x80 ≠ 0)

/-- A line without Huffman codes, its index reduced by `index` and its lengths by `low`. -/
inductive LineAt (index low : Nat → Nat) (block : Bytes) : Field → Prop
  | indexed {first : UInt8} {idx n : Nat} {name value : Bytes} (hfirst : block.head? = some first)
    (h80 : first &&& 0x80 ≠ 0) (h40 : first &&& 0x40 ≠ 0) (hint : decodeInt block 6 = some (idx, n))
    (hlookup : staticLookup (index idx) = some (name, value)) : LineAt index low block (name, value, n)
  | nameReference {first h : UInt8} {idx n stop : Nat} {name other value : Bytes} (hfirst : block.head? = some first)
    (h80 : first &&& 0x80 = 0) (h40 : first &&& 0x40 ≠ 0) (h10 : first &&& 0x10 ≠ 0)
    (hint : decodeInt block 4 = some (idx, n)) (hlookup : staticLookup (index idx) = some (name, other))
    (hbyte : block[n]? = some h) (hflag : h &&& 0x80 = 0) (hvalue : stringAt low block n 7 = some (value, stop)) :
    LineAt index low block (name, value, stop)
  | literal {first h : UInt8} {n stop : Nat} {name value : Bytes} (hfirst : block.head? = some first)
    (h80 : first &&& 0x80 = 0) (h40 : first &&& 0x40 = 0) (h20 : first &&& 0x20 ≠ 0) (h08 : first &&& 0x08 = 0)
    (hname : stringAt low block 0 3 = some (name, n)) (hbyte : block[n]? = some h) (hflag : h &&& 0x80 = 0)
    (hvalue : stringAt low block n 7 = some (value, stop)) : LineAt index low block (name, value, stop)

theorem decodeField_iff : decodeField w block = some field ↔ LineAt (· % 2 ^ 32) (· % 2 ^ w) block field := by
  constructor
  · intro h
    rw [decodeField, bind_eq_bind] at h
    obtain ⟨first, hfirst, h⟩ := bind_eq_some_iff.mp h
    split at h
    next h80 =>
      split at h
      · cases h
      next h40 =>
        obtain ⟨⟨idx, n⟩, hint, h⟩ := bind_eq_some_iff.mp h
        obtain ⟨⟨name, value⟩, hlookup, h⟩ := bind_eq_some_iff.mp h
        cases h
        exact .indexed hfirst h80 h40 hint hlookup
    next h80 =>
      split at h
      next h40 =>
        split at h
        · cases h
        next h10 =>
          obtain ⟨⟨idx, n⟩, hint, h⟩ := bind_eq_some_iff.mp h
          obtain ⟨⟨name, other⟩, hlookup, h⟩ := bind_eq_some_iff.mp h
          obtain ⟨⟨value, stop⟩, hvalue, h⟩ := bind_eq_some_iff.mp h
          cases h
          obtain ⟨b, hbyte, hflag, hvalue⟩ := rawString_some hvalue
          exact .nameReference hfirst (not_not.mp h80) h40 h10 hint hlookup hbyte hflag hvalue
      next h40 =>
        split at h
        next h20 =>
          obtain ⟨⟨name, n⟩, hname, h⟩ := bind_eq_some_iff.mp h
          obtain ⟨⟨value, stop⟩, hvalue, h⟩ := bind_eq_some_iff.mp h
          cases h
          obtain ⟨b, hbyte, h08, hname⟩ := rawString_some hname
          obtain ⟨b', hbyte', hflag, hvalue⟩ := rawString_some hvalue
          have hsame : b = first := by
            rw [← List.head?_eq_getElem?, hfirst] at hbyte
            exact (Option.some.inj hbyte).symm
          subst hsame
          exact .literal hfirst (not_not.mp h80) (not_not.mp h40) h20 h08 hname hbyte' hflag hvalue
        · cases h
  · intro h
    rw [decodeField]
    cases h with
    | indexed hfirst h80 h40 hint hlookup =>
      simp only [hfirst, hint, hlookup, bind_eq_bind, bind_some]
      rw [if_pos h80, if_neg h40]
      rfl
    | nameReference hfirst h80 h40 h10 hint hlookup hbyte hflag hvalue =>
      rw [← rawString_eq hbyte hflag] at hvalue
      simp only [hfirst, hint, hlookup, hvalue, bind_eq_bind, bind_some]
      rw [if_neg (not_not.mpr h80), if_pos h40, if_neg h10]
      rfl
    | literal hfirst h80 h40 h20 h08 hname hbyte hflag hvalue =>
      rw [← rawString_eq (by rw [← List.head?_eq_getElem?]; exact hfirst) h08] at hname
      rw [← rawString_eq hbyte hflag] at hvalue
      simp only [hfirst, hname, hvalue, bind_eq_bind, bind_some]
      rw [if_neg (not_not.mpr h80), if_neg (not_not.mpr h40), if_pos h20]
      rfl

theorem stash_raw {used : Nat} {s : Bytes} (h : used + s.length ≤ room) : stash room used s false = some s :=
  (if_neg false_ne_true).trans (if_pos h)

theorem stash_some {used : Nat} {s t : Bytes} (h : stash room used s false = some t) : t = s := by
  rw [stash, if_neg false_ne_true] at h
  split at h
  · exact (Option.some.inj h).symm
  · cases h

theorem stringAt_length {low : Nat → Nat} {start p stop : Nat} {s : Bytes}
    (h : stringAt low block start p = some (s, stop)) : start + s.length ≤ stop ∧ stop ≤ block.length := by
  obtain ⟨len, n, -, hfits, rfl, rfl⟩ := stringAt_some h
  rw [length_take, length_drop]
  omega

theorem static_entry : ∀ e ∈ staticTable, e.1.length + e.2.length ≤ 76 := by decide +kernel

theorem staticLookup_length {idx : Nat} {name value : Bytes} (h : staticLookup idx = some (name, value)) :
    name.length + value.length ≤ 76 :=
  static_entry _ (List.mem_of_getElem? h)

theorem staticLookup_lt {idx : Nat} {e : Bytes × Bytes} (h : staticLookup idx = some e) : idx < 99 :=
  (List.getElem?_eq_some_iff.mp h).1

theorem checked_some {n m : Nat} (h : checked w n = some m) : m = n ∧ n < 2 ^ w := by
  unfold checked at h
  split at h
  next hlt => exact ⟨(Option.some.inj h).symm, hlt⟩
  · cases h

theorem decodeFieldInto_iff (hlen : block.length < 2 ^ w) (hflags : ¬ HuffmanFlag block) (hroom : 76 + block.length ≤ room) :
    decodeFieldInto w room block = some field ↔ LineAt id id block field := by
  constructor
  · intro h
    rw [decodeFieldInto, bind_eq_bind] at h
    obtain ⟨first, hfirst, h⟩ := bind_eq_some_iff.mp h
    split at h
    next h80 =>
      split at h
      · cases h
      next h40 =>
        obtain ⟨⟨idx, n⟩, hint, h⟩ := bind_eq_some_iff.mp h
        obtain ⟨small, hsmall, h⟩ := bind_eq_some_iff.mp h
        obtain ⟨⟨name, value⟩, hlookup, h⟩ := bind_eq_some_iff.mp h
        obtain ⟨name', hname, h⟩ := bind_eq_some_iff.mp h
        obtain ⟨value', hvalue, h⟩ := bind_eq_some_iff.mp h
        cases h
        cases stash_some hname
        cases stash_some hvalue
        cases (checked_some hsmall).1
        exact .indexed hfirst h80 h40 hint hlookup
    next h80 =>
      split at h
      next h40 =>
        split at h
        · cases h
        next h10 =>
          obtain ⟨⟨idx, n⟩, hint, h⟩ := bind_eq_some_iff.mp h
          obtain ⟨small, hsmall, h⟩ := bind_eq_some_iff.mp h
          obtain ⟨⟨name, other⟩, hlookup, h⟩ := bind_eq_some_iff.mp h
          obtain ⟨b, hbyte, h⟩ := bind_eq_some_iff.mp h
          obtain ⟨⟨raw, stop⟩, hraw, h⟩ := bind_eq_some_iff.mp h
          obtain ⟨name', hname, h⟩ := bind_eq_some_iff.mp h
          obtain ⟨value, hvalue, h⟩ := bind_eq_some_iff.mp h
          cases h
          have hflag : b &&& 0x80 = 0 := by
            by_contra hset
            exact hflags (.referenced hfirst (not_not.mp h80) h40 hint hbyte hset)
          rw [hflag] at hvalue
          cases stash_some hname
          cases stash_some hvalue
          cases (checked_some hsmall).1
          rw [rawInto_eq hlen] at hraw
          exact .nameReference hfirst (not_not.mp h80) h40 h10 hint hlookup hbyte hflag hraw
      next h40 =>
        split at h
        next h20 =>
          obtain ⟨⟨rawName, n⟩, hrawName, h⟩ := bind_eq_some_iff.mp h
          obtain ⟨b, hbyte, h⟩ := bind_eq_some_iff.mp h
          obtain ⟨⟨rawValue, stop⟩, hrawValue, h⟩ := bind_eq_some_iff.mp h
          obtain ⟨name, hname, h⟩ := bind_eq_some_iff.mp h
          obtain ⟨value, hvalue, h⟩ := bind_eq_some_iff.mp h
          cases h
          rw [rawInto_eq hlen] at hrawName hrawValue
          have h08 : first &&& 0x08 = 0 := by
            by_contra hset
            exact hflags (.name hfirst (not_not.mp h80) (not_not.mp h40) h20 hset)
          have hflag : b &&& 0x80 = 0 := by
            obtain ⟨len, m, hint, -, -, rfl⟩ := stringAt_some hrawName
            rw [drop_zero] at hint
            rw [Nat.zero_add] at hbyte
            by_contra hset
            exact hflags (.value hfirst (not_not.mp h80) (not_not.mp h40) h20 hint hbyte hset)
          rw [h08] at hname
          rw [hflag] at hvalue
          cases stash_some hname
          cases stash_some hvalue
          exact .literal hfirst (not_not.mp h80) (not_not.mp h40) h20 h08 hrawName hbyte hflag hrawValue
        · cases h
  · intro h
    rw [decodeFieldInto]
    cases h with
    | @indexed first idx n name value hfirst h80 h40 hint hlookup =>
      have hidx := staticLookup_lt hlookup
      have hsize := staticLookup_length hlookup
      rw [id] at hidx hlookup
      have hname : stash room 0 name false = some name := stash_raw (by omega)
      have hvalue : stash room name.length value false = some value := stash_raw (by omega)
      simp only [hfirst, hint, checked_of_lt (show idx < 2 ^ 32 by omega), hlookup, hname, hvalue, bind_eq_bind,
        bind_some]
      rw [if_pos h80, if_neg h40]
      rfl
    | @nameReference first b idx n stop name other value hfirst h80 h40 h10 hint hlookup hbyte hflag hstring =>
      have hidx := staticLookup_lt hlookup
      have hsize := staticLookup_length hlookup
      have hend := stringAt_length hstring
      rw [id] at hidx hlookup
      rw [← rawInto_eq hlen] at hstring
      have hname : stash room 0 name false = some name := stash_raw (by omega)
      have hvalue : stash room name.length value false = some value := stash_raw (by omega)
      simp only [hfirst, hint, checked_of_lt (show idx < 2 ^ 32 by omega), hlookup, hbyte, hstring, hflag,
        bne_self_eq_false, hname, hvalue, bind_eq_bind, bind_some]
      rw [if_neg (not_not.mpr h80), if_pos h40, if_neg h10]
      rfl
    | @literal first b n stop name value hfirst h80 h40 h20 h08 hfront hbyte hflag hstring =>
      have hstart := stringAt_length hfront
      have hend := stringAt_length hstring
      rw [← rawInto_eq hlen] at hfront hstring
      have hname : stash room 0 name false = some name := stash_raw (by omega)
      have hvalue : stash room name.length value false = some value := stash_raw (by omega)
      simp only [hfirst, hfront, hbyte, hstring, h08, hflag, bne_self_eq_false, hname, hvalue, bind_eq_bind,
        bind_some]
      rw [if_neg (not_not.mpr h80), if_neg (not_not.mpr h40), if_pos h20]
      rfl

/-- An index beyond a `u32` or a length beyond a `usize`, of which what is left names an entry or fits the block. -/
inductive Misread (w : Nat) (block : Bytes) : Prop
  | index {first : UInt8} {idx n : Nat} (hfirst : block.head? = some first) (h80 : first &&& 0x80 ≠ 0)
    (h40 : first &&& 0x40 ≠ 0) (hint : decodeInt block 6 = some (idx, n)) (hentry : idx % 2 ^ 32 < 99)
    (hlong : 2 ^ 32 ≤ idx) : Misread w block
  | reference {first : UInt8} {idx n len m : Nat} (hfirst : block.head? = some first) (h80 : first &&& 0x80 = 0)
    (h40 : first &&& 0x40 ≠ 0) (h10 : first &&& 0x10 ≠ 0) (hint : decodeInt block 4 = some (idx, n))
    (hentry : idx % 2 ^ 32 < 99) (hlen : decodeInt (block.drop n) 7 = some (len, m))
    (hfits : n + m + len % 2 ^ w ≤ block.length) (hlong : 2 ^ 32 ≤ idx ∨ 2 ^ w ≤ len) : Misread w block
  | literal {first h : UInt8} {len n len' m : Nat} (hfirst : block.head? = some first) (h80 : first &&& 0x80 = 0)
    (h40 : first &&& 0x40 = 0) (h20 : first &&& 0x20 ≠ 0) (h08 : first &&& 0x08 = 0)
    (hint : decodeInt block 3 = some (len, n)) (hbyte : block[n + len % 2 ^ w]? = some h) (hflag : h &&& 0x80 = 0)
    (hlen : decodeInt (block.drop (n + len % 2 ^ w)) 7 = some (len', m))
    (hfits : n + len % 2 ^ w + m + len' % 2 ^ w ≤ block.length) (hlong : 2 ^ w ≤ len ∨ 2 ^ w ≤ len') : Misread w block

theorem staticLookup_of_lt {idx : Nat} (h : idx < 99) : ∃ name value, staticLookup idx = some (name, value) :=
  ⟨_, _, List.getElem?_eq_getElem (l := staticTable) h⟩

theorem stringAt_mod {start p len n : Nat} (hint : decodeInt (block.drop start) p = some (len, n)) (hlen : len < 2 ^ w) :
    stringAt (· % 2 ^ w) block start p = stringAt id block start p := by
  rw [stringAt, stringAt, hint, bind_some, bind_some]
  dsimp only [id]
  rw [Nat.mod_eq_of_lt hlen]

theorem misread_line (hflags : ¬ HuffmanFlag block) (h : Misread w block) :
    ∃ field, LineAt (· % 2 ^ 32) (· % 2 ^ w) block field := by
  cases h with
  | index hfirst h80 h40 hint hentry hlong =>
    obtain ⟨name, value, hlookup⟩ := staticLookup_of_lt hentry
    exact ⟨_, .indexed hfirst h80 h40 hint hlookup⟩
  | @reference first idx n len m hfirst h80 h40 h10 hint hentry hlen hfits hlong =>
    obtain ⟨name, other, hlookup⟩ := staticLookup_of_lt hentry
    have hin : n < block.length := by
      by_contra hend
      rw [drop_eq_nil_of_le (by omega)] at hlen
      cases hlen
    have hbyte := List.getElem?_eq_getElem hin
    have hflag : block[n] &&& 0x80 = 0 := by
      by_contra hset
      exact hflags (.referenced hfirst h80 h40 hint hbyte hset)
    exact ⟨_, .nameReference hfirst h80 h40 h10 hint hlookup hbyte hflag (stringAt_of_int hlen hfits)⟩
  | @literal first b len n len' m hfirst h80 h40 h20 h08 hint hbyte hflag hlen hfits hlong =>
    have hname : stringAt (· % 2 ^ w) block 0 3 = _ := stringAt_of_int hint (by rw [Nat.zero_add]; omega)
    rw [Nat.zero_add] at hname
    exact ⟨_, .literal hfirst h80 h40 h20 h08 hname hbyte hflag (stringAt_of_int hlen hfits)⟩

theorem LineAt.reduced (hlen : block.length < 2 ^ w) (h : LineAt id id block field) :
    LineAt (· % 2 ^ 32) (· % 2 ^ w) block field ∧ ¬ Misread w block := by
  cases h with
  | @indexed first idx n name value hfirst h80 h40 hint hlookup =>
    have hidx : idx < 99 := staticLookup_lt hlookup
    have hsame : idx % 2 ^ 32 = idx := Nat.mod_eq_of_lt (by omega)
    refine ⟨.indexed hfirst h80 h40 hint (by rw [hsame]; exact hlookup), fun hmis => ?_⟩
    cases hmis with
    | index _ _ _ hint' _ hlong =>
      cases hint.symm.trans hint'
      omega
    | reference hfirst' h80' => exact h80 (by cases hfirst.symm.trans hfirst'; exact h80')
    | literal hfirst' h80' => exact h80 (by cases hfirst.symm.trans hfirst'; exact h80')
  | @nameReference first b idx n stop name other value hfirst h80 h40 h10 hint hlookup hbyte hflag hvalue =>
    have hidx : idx < 99 := staticLookup_lt hlookup
    have hsame : idx % 2 ^ 32 = idx := Nat.mod_eq_of_lt (by omega)
    obtain ⟨len, m, hstring, hfits, -, -⟩ := stringAt_some hvalue
    rw [id] at hfits
    refine ⟨.nameReference hfirst h80 h40 h10 hint (by rw [hsame]; exact hlookup) hbyte hflag
      ((stringAt_mod hstring (by omega)).trans hvalue), fun hmis => ?_⟩
    cases hmis with
    | index hfirst' h80' => exact h80' (by cases hfirst.symm.trans hfirst'; exact h80)
    | reference _ _ _ _ hint' _ hstring' _ hlong =>
      cases hint.symm.trans hint'
      cases hstring.symm.trans hstring'
      omega
    | literal hfirst' _ h40' => exact h40 (by cases hfirst.symm.trans hfirst'; exact h40')
  | @literal first b n stop name value hfirst h80 h40 h20 h08 hname hbyte hflag hvalue =>
    obtain ⟨len, m, hfront, hroom, -, rfl⟩ := stringAt_some hname
    obtain ⟨len', m', hstring, hfits, -, -⟩ := stringAt_some hvalue
    dsimp only [id] at hroom hfits hstring hbyte hvalue
    have hlt : len < 2 ^ w := by omega
    have hsame : len % 2 ^ w = len := Nat.mod_eq_of_lt hlt
    refine ⟨.literal hfirst h80 h40 h20 h08 ((stringAt_mod hfront hlt).trans hname) hbyte hflag
      ((stringAt_mod hstring (by omega)).trans hvalue), fun hmis => ?_⟩
    cases hmis with
    | index hfirst' h80' => exact h80' (by cases hfirst.symm.trans hfirst'; exact h80)
    | reference hfirst' _ h40' => exact h40' (by cases hfirst.symm.trans hfirst'; exact h40)
    | literal _ _ _ _ _ hint' _ _ hstring' _ hlong =>
      cases hfront.symm.trans hint'
      rw [hsame] at hstring'
      rw [Nat.zero_add] at hstring
      cases hstring.symm.trans hstring'
      omega

theorem LineAt.full (hnot : ¬ Misread w block) (h : LineAt (· % 2 ^ 32) (· % 2 ^ w) block field) :
    LineAt id id block field := by
  cases h with
  | @indexed first idx n name value hfirst h80 h40 hint hlookup =>
    have hidx : idx % 2 ^ 32 = idx := by
      refine Nat.mod_eq_of_lt ?_
      by_contra hlong
      exact hnot (.index hfirst h80 h40 hint (staticLookup_lt hlookup) (by omega))
    exact .indexed hfirst h80 h40 hint (by rw [id, ← hidx]; exact hlookup)
  | @nameReference first b idx n stop name other value hfirst h80 h40 h10 hint hlookup hbyte hflag hvalue =>
    obtain ⟨len, m, hstring, hfits, -, -⟩ := stringAt_some hvalue
    have hshort : ¬ (2 ^ 32 ≤ idx ∨ 2 ^ w ≤ len) := fun hlong =>
      hnot (.reference hfirst h80 h40 h10 hint (staticLookup_lt hlookup) hstring hfits hlong)
    have hidx : idx % 2 ^ 32 = idx := Nat.mod_eq_of_lt (by omega)
    exact .nameReference hfirst h80 h40 h10 hint (by rw [id, ← hidx]; exact hlookup) hbyte hflag
      ((stringAt_mod hstring (by omega)).symm.trans hvalue)
  | @literal first b n stop name value hfirst h80 h40 h20 h08 hname hbyte hflag hvalue =>
    obtain ⟨len, m, hfront, hroom, -, rfl⟩ := stringAt_some hname
    obtain ⟨len', m', hstring, hfits, -, -⟩ := stringAt_some hvalue
    have hshort : ¬ (2 ^ w ≤ len ∨ 2 ^ w ≤ len') := fun hlong => by
      rw [Nat.zero_add] at hbyte hstring hfits
      exact hnot (.literal hfirst h80 h40 h20 h08 hfront hbyte hflag hstring hfits hlong)
    exact .literal hfirst h80 h40 h20 h08 ((stringAt_mod hfront (by omega)).symm.trans hname) hbyte
      hflag ((stringAt_mod hstring (by omega)).symm.trans hvalue)

/-- Without Huffman codes and with scratch for everything, the two readers agree exactly on the blocks that are not
misread. -/
theorem decodeField_agree_iff (hlen : block.length < 2 ^ w) (hflags : ¬ HuffmanFlag block)
    (hroom : 76 + block.length ≤ room) :
    decodeFieldInto w room block = decodeField w block ↔ ¬ Misread w block := by
  constructor
  · intro hagree hmis
    obtain ⟨field, hline⟩ := misread_line hflags hmis
    rw [decodeField_iff.mpr hline, decodeFieldInto_iff hlen hflags hroom] at hagree
    exact (hagree.reduced hlen).2 hmis
  · intro hnot
    ext field
    rw [decodeFieldInto_iff hlen hflags hroom, decodeField_iff]
    exact ⟨fun h => (h.reduced hlen).1, LineAt.full hnot⟩

/-- A literal name and a literal value. -/
theorem decodeField_agree_literal : decodeFieldInto 64 80 [0x21, 0x62, 1, 0x63] = decodeField 64 [0x21, 0x62, 1, 0x63] := by
  refine (decodeField_agree_iff (by decide) ?_ (by decide)).mpr ?_
  · intro h
    cases h with
    | referenced hfirst _ h40 => cases hfirst; revert h40; decide
    | name hfirst _ _ _ hflag => cases hfirst; revert hflag; decide
    | value _ _ _ _ hint hbyte hflag => cases hint; cases hbyte; revert hflag; decide
  · intro h
    cases h with
    | index hfirst h80 => cases hfirst; revert h80; decide
    | reference hfirst _ h40 => cases hfirst; revert h40; decide
    | literal _ _ _ _ _ hint _ _ hlen _ hlong => cases hint; cases hlen; revert hlong; decide

/-- The index 2^32 is refused by the one and read as the first entry by the other. -/
theorem long_index_read : ¬ HuffmanFlag [0xFF, 0xC1, 0xFF, 0xFF, 0xFF, 0x0F] ∧
    decodeFieldInto 64 100 [0xFF, 0xC1, 0xFF, 0xFF, 0xFF, 0x0F] = none ∧
    decodeField 64 [0xFF, 0xC1, 0xFF, 0xFF, 0xFF, 0x0F] = some (ascii ":authority", [], 6) := by
  refine ⟨fun h => ?_, by decide +kernel, by decide +kernel⟩
  cases h with
  | referenced hfirst h80 => cases hfirst; revert h80; decide
  | name hfirst h80 => cases hfirst; revert h80; decide
  | value hfirst h80 => cases hfirst; revert h80; decide

end Lines

end Wave.Http.Qpack
