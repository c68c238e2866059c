import Wave.Common.RouteHost
import Mathlib.Data.List.TakeWhile

/-! # IPv6 literals (`common/http_route_key.rs`)

The scan accepts the texts of addresses and no others (`ipv6Ok_iff`), as a list and over an index (`ipv6OkAt_eq`). -/

namespace Wave.Common

open Lib

variable {n : Nat}

variable {text : Bytes}

/-! ## The loop over an index

An access outside the text is `none` here, and so is a loop that does not come to its end. -/

/-- `&s[i..j]`. -/
def sliceAt (s : Bytes) (i j : Nat) : Option Bytes := if i ≤ j ∧ j ≤ s.length then some (s.slice i j) else none

/-- The inner loop of `ipv4_ok`: where a part ends, and its value; or no part. -/
def ipv4PartAt (s : Bytes) (start : Nat) : (fuel : Nat) → (i v : Nat) → Option (Option (Nat × Nat))
  | 0, _, _ => none
  | fuel + 1, i, v =>
    if i < s.length then do
      let b ← s[i]?
      if b = 0x2E then some (some (i, v))
      else if !isDigitByte b || i - start ≥ 3 then some none
      else ipv4PartAt s start fuel (i + 1) (v * 10 + (b.toNat - 0x30))
    else some (some (i, v))

def ipv4PartsAt (s : Bytes) : (fuel : Nat) → (i parts : Nat) → Option Bool
  | 0, _, _ => none
  | fuel + 1, i, parts =>
    if i ≤ s.length then do
      match ← ipv4PartAt s i (s.length + 1) i 0 with
      | none => some false
      | some (j, v) => if j = i ∨ v > 255 then some false else ipv4PartsAt s fuel (j + 1) (parts + 1)
    else some (decide (parts = 4))

/-- `ipv4_ok`. -/
def ipv4OkAt (s : Bytes) : Option Bool := ipv4PartsAt s (s.length + 2) 0 0

def colonFrom (s : Bytes) : (fuel : Nat) → (i : Nat) → Option Nat
  | 0, _ => none
  | fuel + 1, i =>
    if i < s.length then do
      let b ← s[i]?
      if b = 0x3A then some i else colonFrom s fuel (i + 1)
    else some i

def ipv6Finish (compressed : Bool) (groups : Nat) : Bool := if compressed then decide (groups < 8) else decide (groups = 8)

def ipv6RestAt (s : Bytes) (next : Bool → Nat → Option Bool) (compressed : Bool) (groups i : Nat) : Option Bool :=
  if groups > 8 then some false
  else if i = s.length then some (ipv6Finish compressed groups)
  else if i + 1 = s.length then some false
  else do
    let b ← s[i + 1]?
    if b = 0x3A then
      if compressed then some false
      else if i + 2 = s.length then some (ipv6Finish true groups)
      else next true (i + 2)
    else next compressed (i + 1)

def ipv6GroupsAt (s : Bytes) : (fuel : Nat) → (groups : Nat) → (compressed : Bool) → (start : Nat) → Option Bool
  | 0, _, _, _ => none
  | fuel + 1, groups, compressed, start => do
    let i ← colonFrom s (s.length + 1) start
    let g ← sliceAt s start i
    if g = [] then some false
    else if g.contains 0x2E then do
      let ok ← ipv4OkAt g
      if !ok || i ≠ s.length then some false
      else ipv6RestAt s (ipv6GroupsAt s fuel (groups + 2)) compressed (groups + 2) i
    else if g.length > 4 then some false
    else if !g.all isHexByte then some false
    else ipv6RestAt s (ipv6GroupsAt s fuel (groups + 1)) compressed (groups + 1) i

/-- `ipv6_ok`. -/
def ipv6OkAt (s : Bytes) : Option Bool :=
  if s.length < 2 ∨ s.length > 45 then some false
  else do
    let b ← s[0]?
    if b = 0x3A then do
      let b ← s[1]?
      if b ≠ 0x3A then some false
      else if 2 = s.length then some true
      else ipv6GroupsAt s s.length 0 true 2
    else ipv6GroupsAt s s.length 0 false 0

structure HexGroup (g : Bytes) : Prop where
  some : g ≠ []
  short : g.length ≤ 4
  hex : ∀ b ∈ g, isHexByte b = true

structure QuadPart (p : Bytes) : Prop where
  some : p ≠ []
  short : p.length ≤ 3
  digits : ∀ b ∈ p, isDigitByte b = true
  octet : digitsValue p ≤ 255

def Quad (g : Bytes) : Prop :=
  ∃ a b c d, (QuadPart a ∧ QuadPart b ∧ QuadPart c ∧ QuadPart d) ∧ g = a ++ 0x2E :: (b ++ 0x2E :: (c ++ 0x2E :: d))

/-- Groups with single colons between them, and how many they count. A dotted quad counts two, and is the last. -/
inductive Groups : Bytes → Nat → Prop where
  | hex {g : Bytes} (hg : HexGroup g) : Groups g 1
  | quad {g : Bytes} (hg : Quad g) : Groups g 2
  | cons {g text : Bytes} {n : Nat} (hg : HexGroup g) (hrest : Groups text n) : Groups (g ++ 0x3A :: text) (n + 1)

inductive HexGroups : Bytes → Nat → Prop where
  | one {g : Bytes} (hg : HexGroup g) : HexGroups g 1
  | cons {g text : Bytes} {n : Nat} (hg : HexGroup g) (hrest : HexGroups text n) : HexGroups (g ++ 0x3A :: text) (n + 1)

def Before (text : Bytes) (n : Nat) : Prop := text = [] ∧ n = 0 ∨ HexGroups text n

def After (text : Bytes) (n : Nat) : Prop := text = [] ∧ n = 0 ∨ Groups text n

def Compressed (s : Bytes) (left : Bytes → Nat → Prop) (groups : Nat) : Prop :=
  ∃ before k after m, left before k ∧ After after m ∧ groups + k + m ≤ 7 ∧ s = before ++ 0x3A :: 0x3A :: after

def Ipv6Text (s : Bytes) : Prop := Groups s 8 ∨ Compressed s Before 0

theorem hexByte_plain {b : UInt8} (h : isHexByte b = true) : b ≠ 0x3A ∧ b ≠ 0x2E := by
  have hall : ∀ b : UInt8, isHexByte b = true → b ≠ 0x3A ∧ b ≠ 0x2E := of_every_byte (by decide +kernel)
  exact hall b h

theorem digitByte_plain {b : UInt8} (h : isDigitByte b = true) : b ≠ 0x3A ∧ b ≠ 0x2E :=
  hexByte_plain (by rw [isHexByte, h]; rfl)

theorem HexGroup.no_colon {g : Bytes} (h : HexGroup g) : 0x3A ∉ g := fun hin => (hexByte_plain (h.hex _ hin)).1 rfl

theorem HexGroup.no_dot {g : Bytes} (h : HexGroup g) : 0x2E ∉ g := fun hin => (hexByte_plain (h.hex _ hin)).2 rfl

theorem Quad.dot {g : Bytes} (h : Quad g) : 0x2E ∈ g := by
  obtain ⟨a, b, c, d, -, rfl⟩ := h
  exact mem_append_right _ mem_cons_self

theorem Quad.no_colon {g : Bytes} (h : Quad g) : 0x3A ∉ g := by
  obtain ⟨a, b, c, d, ⟨ha, hb, hc, hd⟩, rfl⟩ := h
  have hpart : ∀ {p : Bytes}, QuadPart p → 0x3A ∉ p := fun hp hin => (digitByte_plain (hp.digits _ hin)).1 rfl
  simp [hpart ha, hpart hb, hpart hc, hpart hd]

theorem Quad.length_le {g : Bytes} (h : Quad g) : 2 ≤ g.length ∧ g.length ≤ 15 := by
  obtain ⟨a, b, c, d, ⟨ha, hb, hc, hd⟩, rfl⟩ := h
  have hshort := And.intro (And.intro ha.short hb.short) (And.intro hc.short hd.short)
  simp only [length_append, length_cons]
  omega

theorem ipv4Ok_iff (g : Bytes) : ipv4Ok g = true ↔ Quad g := by
  have hpart : ∀ p : Bytes, (decide (p ≠ []) && decide (p.length ≤ 3) && p.all isDigitByte && decide (digitsValue p ≤ 255)) = true ↔
      QuadPart p := by
    intro p
    simp only [and_eq_true, decide_eq_true_eq, all_eq_true]
    exact ⟨fun ⟨⟨⟨h1, h2⟩, h3⟩, h4⟩ => ⟨h1, h2, h3, h4⟩, fun h => ⟨⟨⟨h.some, h.short⟩, h.digits⟩, h.octet⟩⟩
  unfold ipv4Ok
  simp only [and_eq_true, decide_eq_true_eq, all_eq_true]
  constructor
  · rintro ⟨hfour, hall⟩
    have hjoin : [(0x2E : UInt8)].intercalate (g.splitOn 0x2E) = g := List.intercalate_splitOn _
    match hparts : g.splitOn 0x2E, hfour with
    | [a, b, c, d], _ =>
      rw [hparts] at hall hjoin
      simp only [forall_mem_cons] at hall
      obtain ⟨ha, hb, hc, hd, -⟩ := hall
      refine ⟨a, b, c, d, ⟨(hpart a).mp (by simpa using ha), (hpart b).mp (by simpa using hb), (hpart c).mp (by simpa using hc),
        (hpart d).mp (by simpa using hd)⟩, ?_⟩
      rw [← hjoin]
      simp [List.intercalate]
  · rintro ⟨a, b, c, d, ⟨ha, hb, hc, hd⟩, rfl⟩
    have hdot : ∀ {p : Bytes}, QuadPart p → 0x2E ∉ p := fun hp hin => (digitByte_plain (hp.digits _ hin)).2 rfl
    rw [List.splitOn_append_cons_self_of_not_mem (hdot ha), List.splitOn_append_cons_self_of_not_mem (hdot hb),
      List.splitOn_append_cons_self_of_not_mem (hdot hc), List.splitOn_eq_singleton (hdot hd)]
    refine ⟨rfl, ?_⟩
    simp only [forall_mem_cons]
    exact ⟨by simpa using (hpart a).mpr ha, by simpa using (hpart b).mpr hb, by simpa using (hpart c).mpr hc,
      by simpa using (hpart d).mpr hd, nofun⟩

/-! ## The scan accepts them -/

def Finished (compressed : Bool) (groups : Nat) : Prop := if compressed then groups ≤ 7 else groups = 8

section Scan

variable {g tail s : Bytes} {fuel groups : Nat} {compressed : Bool}

theorem finished_iff : (if compressed then decide (groups < 8) else decide (groups = 8)) = true ↔ Finished compressed groups := by
  unfold Finished
  cases compressed
  · exact decide_eq_true_iff
  · exact decide_eq_true_iff.trans Nat.lt_succ_iff

theorem ipv6Groups_turn (hg : 0x3A ∉ g) (htail : ∀ c ∈ tail.head?, c = 0x3A) :
    ipv6Groups (fuel + 1) groups compressed (g ++ tail) = true ↔
      (HexGroup g ∧ groups + 1 ≤ 8 ∧ ipv6Rest (ipv6Groups fuel (groups + 1)) (groups + 1) compressed tail = true) ∨
        (Quad g ∧ tail = [] ∧ groups + 2 ≤ 8 ∧ Finished compressed (groups + 2)) := by
  have htake : (g ++ tail).takeWhile (· ≠ 0x3A) = g := by
    have hall : ∀ b ∈ g, decide (b ≠ 0x3A) = true := fun b hb => decide_eq_true fun heq => hg (heq ▸ hb)
    cases tail with
    | nil =>
      rw [takeWhile_append_of_pos hall]
      exact append_nil g
    | cons c tail => exact takeWhile_stop hall (by simpa using htail c rfl)
  rw [ipv6Groups_succ, htake]
  dsimp only
  rw [drop_left]
  by_cases hempty : g = []
  · rw [if_pos hempty]
    refine iff_of_false nofun ?_
    rintro (⟨hhex, -⟩ | ⟨hquad, -⟩)
    · exact hhex.some hempty
    · rw [hempty] at hquad
      exact absurd hquad.length_le.1 (by decide)
  rw [if_neg hempty]
  by_cases hdot : 0x2E ∈ g
  · have hnot : ¬ HexGroup g := fun h => h.no_dot hdot
    rw [contains_iff_mem.mpr hdot]
    simp only [hnot, false_and, false_or, Bool.true_and, Bool.not_true, Bool.false_and, false_eq_true, if_false, if_true]
    rw [← ipv4Ok_iff]
    by_cases hok : ipv4Ok g = true
    · by_cases hend : tail = []
      · subst hend
        rw [hok, ipv6Rest]
        by_cases hmany : groups + 2 ≤ 8
        · simp [hmany, Nat.not_lt.mpr hmany, ← finished_iff]
        · simp [hmany, Nat.lt_of_not_le hmany]
      · simp [hok, hend]
    · simp [hok]
  · have hnot : ¬ Quad g := fun h => hdot h.dot
    have hplain : g.contains 0x2E = false := by
      rw [eq_false_iff, ne_eq, contains_iff_mem]
      exact hdot
    rw [hplain]
    simp only [hnot, false_and, or_false, Bool.false_and, Bool.not_false, Bool.true_and, false_eq_true, if_false]
    have hhex : HexGroup g ↔ g.length ≤ 4 ∧ g.all isHexByte = true := by
      rw [all_eq_true]
      exact ⟨fun h => ⟨h.short, h.hex⟩, fun h => ⟨hempty, h.1, h.2⟩⟩
    rw [hhex]
    by_cases hok : g.length ≤ 4 ∧ g.all isHexByte = true
    · by_cases hmany : groups + 1 ≤ 8
      · simp [hok.1, hok.2, hmany, Nat.not_lt.mpr hmany]
      · simp [hok.1, hok.2, hmany, Nat.lt_of_not_le hmany]
    · have hbad : (decide (4 < g.length) || !g.all isHexByte) = true := by
        rw [or_eq_true, decide_eq_true_iff, Bool.not_eq_true']
        by_contra hnone
        rw [not_or, Nat.not_lt, Bool.not_eq_false] at hnone
        exact hok hnone
      rw [if_pos hbad]
      exact iff_of_false nofun fun h => hok h.1

theorem ipv6Rest_iff {next : Bool → Bytes → Bool} (htail : ∀ c ∈ tail.head?, c = 0x3A) :
    ipv6Rest next groups compressed tail = true ↔
      (tail = [] ∧ Finished compressed groups) ∨
        (∃ d rest, tail = 0x3A :: d :: rest ∧ d ≠ 0x3A ∧ next compressed (d :: rest) = true) ∨
        (∃ rest, tail = 0x3A :: 0x3A :: rest ∧ compressed = false ∧
          (rest = [] ∧ groups ≤ 7 ∨ rest ≠ [] ∧ next true rest = true)) := by
  match tail with
  | [] =>
    rw [ipv6Rest, finished_iff]
    simp
  | [c] => simp [ipv6Rest]
  | c :: d :: rest =>
    obtain rfl : c = 0x3A := htail c rfl
    rw [ipv6Rest]
    by_cases hd : d = 0x3A
    · subst hd
      rw [if_pos rfl]
      cases compressed with
      | true => simp
      | false =>
        by_cases hrest : rest = []
        · simp [hrest, Nat.lt_succ_iff]
        · simp [hrest]
    · rw [if_neg hd]
      simp [hd]

theorem group_head {g : Bytes} (hne : g ≠ []) (hg : 0x3A ∉ g) (tail : Bytes) :
    ∃ d rest, g ++ tail = d :: rest ∧ d ≠ 0x3A := by
  obtain ⟨d, g, rfl⟩ := exists_cons_of_ne_nil hne
  exact ⟨d, g ++ tail, rfl, fun heq => hg (heq ▸ mem_cons_self)⟩

theorem Quad.ne_nil {g : Bytes} (h : Quad g) : g ≠ [] := by
  rintro rfl
  exact absurd h.length_le.1 (by decide)

theorem Groups.head (h : Groups text n) (tail : Bytes) :
    ∃ d rest, text ++ tail = d :: rest ∧ d ≠ 0x3A := by
  cases h with
  | hex hg => exact group_head hg.some hg.no_colon tail
  | quad hg => exact group_head hg.ne_nil hg.no_colon tail
  | cons hg hrest =>
    rw [append_assoc]
    exact group_head hg.some hg.no_colon _

theorem HexGroups.head (h : HexGroups text n) (tail : Bytes) :
    ∃ d rest, text ++ tail = d :: rest ∧ d ≠ 0x3A := by
  cases h with
  | one hg => exact group_head hg.some hg.no_colon tail
  | cons hg hrest =>
    rw [append_assoc]
    exact group_head hg.some hg.no_colon _

theorem ipv6Groups_sound (h : ipv6Groups fuel groups compressed s = true) :
    (∃ m, Groups s m ∧ Finished compressed (groups + m)) ∨ (compressed = false ∧ Compressed s HexGroups groups) := by
  induction fuel generalizing groups compressed s with
  | zero => cases h
  | succ fuel ih =>
    have hsplit : s = s.takeWhile (· ≠ 0x3A) ++ s.dropWhile (· ≠ 0x3A) := takeWhile_append_dropWhile.symm
    have hg : 0x3A ∉ s.takeWhile (· ≠ 0x3A) := fun hin => by simpa using List.mem_takeWhile_imp hin
    have htail : ∀ c ∈ (s.dropWhile (· ≠ 0x3A)).head?, c = 0x3A := by
      intro c hc
      have hstop := List.head?_dropWhile_not (· ≠ 0x3A) s
      rw [Option.mem_def.mp hc] at hstop
      simpa using hstop
    generalize s.takeWhile (· ≠ 0x3A) = g at hsplit hg
    generalize s.dropWhile (· ≠ 0x3A) = tail at hsplit htail
    subst hsplit
    rcases (ipv6Groups_turn hg htail).mp h with ⟨hhex, hmany, hrest⟩ | ⟨hquad, rfl, hmany, hfinished⟩
    · rcases (ipv6Rest_iff htail).mp hrest with ⟨rfl, hfinished⟩ | ⟨d, rest, rfl, hd, hnext⟩ | ⟨rest, rfl, rfl, hend⟩
      · rw [append_nil]
        exact .inl ⟨1, .hex hhex, hfinished⟩
      · rcases ih hnext with ⟨m, hgroups, hfinished⟩ | ⟨rfl, before, k, after, m, hbefore, hafter, hle, hcut⟩
        · exact .inl ⟨m + 1, .cons hhex hgroups, by rw [← Nat.add_assoc, Nat.add_right_comm]; exact hfinished⟩
        · refine .inr ⟨rfl, g ++ 0x3A :: before, k + 1, after, m, .cons hhex hbefore, hafter, by omega, ?_⟩
          rw [hcut, append_assoc, cons_append]
      · refine .inr ⟨rfl, ?_⟩
        rcases hend with ⟨rfl, hle⟩ | ⟨-, hnext⟩
        · exact ⟨g, 1, [], 0, .one hhex, .inl ⟨rfl, rfl⟩, by omega, rfl⟩
        · rcases ih hnext with ⟨m, hgroups, hfinished⟩ | ⟨hcompressed, -⟩
          · exact ⟨g, 1, rest, m, .one hhex, .inr hgroups, hfinished, rfl⟩
          · cases hcompressed
    · rw [append_nil]
      exact .inl ⟨2, .quad hquad, hfinished⟩

theorem Finished.le_eight (h : Finished compressed groups) : groups ≤ 8 := by
  unfold Finished at h
  split at h <;> omega

theorem ipv6Groups_groups {m : Nat} (h : Groups s m) (hfuel : s.length ≤ fuel) (hfinished : Finished compressed (groups + m)) :
    ipv6Groups fuel groups compressed s = true := by
  have hmost := hfinished.le_eight
  have hnone : ∀ c ∈ ([] : Bytes).head?, c = 0x3A := nofun
  induction h generalizing fuel groups with
  | @hex g hg =>
    have hpos := length_pos_of_ne_nil hg.some
    obtain ⟨fuel, rfl⟩ := Nat.exists_eq_succ_of_ne_zero (show fuel ≠ 0 by omega)
    rw [← append_nil g]
    exact (ipv6Groups_turn hg.no_colon hnone).mpr (.inl ⟨hg, hmost, (ipv6Rest_iff hnone).mpr (.inl ⟨rfl, hfinished⟩)⟩)
  | @quad g hg =>
    have hpos := length_pos_of_ne_nil hg.ne_nil
    obtain ⟨fuel, rfl⟩ := Nat.exists_eq_succ_of_ne_zero (show fuel ≠ 0 by omega)
    rw [← append_nil g]
    exact (ipv6Groups_turn hg.no_colon hnone).mpr (.inr ⟨hg, rfl, hmost, hfinished⟩)
  | @cons g text n hg hrest ih =>
    have hcolon : ∀ c ∈ ((0x3A : UInt8) :: text).head?, c = 0x3A := fun c hc => (Option.some.inj hc).symm
    rw [length_append, length_cons] at hfuel
    obtain ⟨fuel, rfl⟩ := Nat.exists_eq_succ_of_ne_zero (show fuel ≠ 0 by omega)
    obtain ⟨d, rest, htext, hd⟩ := hrest.head []
    rw [append_nil] at htext
    have hnext : ipv6Groups fuel (groups + 1) compressed text = true :=
      ih (by omega) (by rw [Nat.add_right_comm]; exact hfinished) (by omega)
    refine (ipv6Groups_turn hg.no_colon hcolon).mpr (.inl ⟨hg, by omega, (ipv6Rest_iff hcolon).mpr (.inr (.inl ?_))⟩)
    exact ⟨d, rest, by rw [htext], hd, by rw [← htext]; exact hnext⟩

theorem ipv6Groups_compressed {before after : Bytes} {k m : Nat} (h : HexGroups before k) (hafter : After after m)
    (hle : groups + k + m ≤ 7) (hfuel : (before ++ 0x3A :: 0x3A :: after).length ≤ fuel) :
    ipv6Groups fuel groups false (before ++ 0x3A :: 0x3A :: after) = true := by
  induction h generalizing fuel groups with
  | one hg =>
    have hcolon : ∀ c ∈ ((0x3A : UInt8) :: 0x3A :: after).head?, c = 0x3A := fun c hc => (Option.some.inj hc).symm
    rw [length_append, length_cons, length_cons] at hfuel
    obtain ⟨fuel, rfl⟩ := Nat.exists_eq_succ_of_ne_zero (show fuel ≠ 0 by omega)
    refine (ipv6Groups_turn hg.no_colon hcolon).mpr (.inl ⟨hg, by omega, (ipv6Rest_iff hcolon).mpr (.inr (.inr ?_))⟩)
    refine ⟨after, rfl, rfl, ?_⟩
    rcases hafter with ⟨rfl, rfl⟩ | hgroups
    · exact .inl ⟨rfl, by omega⟩
    · obtain ⟨d, rest, htext, -⟩ := hgroups.head []
      refine .inr ⟨?_, ipv6Groups_groups hgroups (by omega) hle⟩
      rintro rfl
      cases htext
  | @cons g text n hg hrest ih =>
    have hcolon : ∀ c ∈ ((0x3A : UInt8) :: (text ++ 0x3A :: 0x3A :: after)).head?, c = 0x3A := fun c hc => (Option.some.inj hc).symm
    rw [append_assoc, cons_append] at hfuel ⊢
    rw [length_append, length_cons] at hfuel
    obtain ⟨fuel, rfl⟩ := Nat.exists_eq_succ_of_ne_zero (show fuel ≠ 0 by omega)
    obtain ⟨d, rest, htext, hd⟩ := hrest.head (0x3A :: 0x3A :: after)
    have hnext : ipv6Groups fuel (groups + 1) false (text ++ 0x3A :: 0x3A :: after) = true := ih (by omega) (by omega)
    refine (ipv6Groups_turn hg.no_colon hcolon).mpr (.inl ⟨hg, by omega, (ipv6Rest_iff hcolon).mpr (.inr (.inl ?_))⟩)
    exact ⟨d, rest, by rw [htext], hd, by rw [← htext]; exact hnext⟩

end Scan

theorem Groups.length_le (h : Groups text n) : n ≤ text.length ∧ text.length ≤ 5 * n + 5 := by
  induction h with
  | hex hg =>
    have hpos := length_pos_of_ne_nil hg.some
    have hshort := hg.short
    omega
  | quad hg =>
    have hle := hg.length_le
    omega
  | cons hg hrest ih =>
    have hpos := length_pos_of_ne_nil hg.some
    have hshort := hg.short
    rw [length_append, length_cons]
    omega

theorem HexGroups.length_le (h : HexGroups text n) : n ≤ text.length ∧ text.length + 1 ≤ 5 * n := by
  induction h with
  | one hg =>
    have hpos := length_pos_of_ne_nil hg.some
    have hshort := hg.short
    omega
  | cons hg hrest ih =>
    have hpos := length_pos_of_ne_nil hg.some
    have hshort := hg.short
    rw [length_append, length_cons]
    omega

theorem Ipv6Text.length_le {s : Bytes} (h : Ipv6Text s) : 2 ≤ s.length ∧ s.length ≤ 45 := by
  rcases h with hgroups | ⟨before, k, after, m, hbefore, hafter, hle, rfl⟩
  · have hlen := hgroups.length_le
    omega
  · have hfirst : before.length ≤ 5 * k := by
      rcases hbefore with ⟨rfl, rfl⟩ | hhex
      · exact Nat.le_refl _
      · have hlen := hhex.length_le
        omega
    have hsecond : after.length ≤ 5 * m + 5 := by
      rcases hafter with ⟨rfl, rfl⟩ | hgroups
      · exact Nat.zero_le _
      · exact hgroups.length_le.2
    rw [length_append, length_cons, length_cons]
    omega

theorem ipv6Ok_iff (s : Bytes) : ipv6Ok s = true ↔ Ipv6Text s := by
  constructor
  · intro h
    match s with
    | [] => cases h
    | [c] => simp [ipv6Ok] at h
    | c :: d :: rest =>
      rw [ipv6Ok_cons] at h
      split_ifs at h with hlong hc hd
      · subst hc hd
        refine .inr ⟨[], 0, rest, ?_⟩
        rcases Bool.or_eq_true_iff.mp h with hrest | hscan
        · exact ⟨0, .inl ⟨rfl, rfl⟩, .inl ⟨of_decide_eq_true hrest, rfl⟩, by decide, rfl⟩
        · rcases ipv6Groups_sound hscan with ⟨m, hgroups, hfinished⟩ | ⟨hcompressed, -⟩
          · exact ⟨m, .inl ⟨rfl, rfl⟩, .inr hgroups, hfinished, rfl⟩
          · cases hcompressed
      · rcases ipv6Groups_sound h with ⟨m, hgroups, hfinished⟩ | ⟨-, before, k, after, m, hbefore, hafter, hle, hcut⟩
        · have hm : m = 8 := by
            have hfinished : 0 + m = 8 := hfinished
            omega
          exact .inl (hm ▸ hgroups)
        · exact .inr ⟨before, k, after, m, .inr hbefore, hafter, hle, hcut⟩
  · intro h
    obtain ⟨htwo, hshort⟩ := h.length_le
    match s, htwo with
    | c :: d :: rest, _ =>
      have hlen : (c :: d :: rest).length = rest.length + 2 := rfl
      rw [ipv6Ok_cons, if_neg (by omega)]
      rcases h with hgroups | ⟨before, k, after, m, hbefore, hafter, hle, hcut⟩
      · obtain ⟨d', rest', htext, hd'⟩ := hgroups.head []
        rw [append_nil] at htext
        obtain rfl := (List.cons.inj htext).1
        rw [if_neg hd']
        exact ipv6Groups_groups hgroups (by omega) (show 0 + 8 = 8 from rfl)
      · rcases hbefore with ⟨rfl, rfl⟩ | hhex
        · obtain ⟨rfl, hrest⟩ := List.cons.inj hcut
          obtain ⟨rfl, rfl⟩ := List.cons.inj hrest
          rw [if_pos rfl, if_pos rfl, or_eq_true]
          rcases hafter with ⟨rfl, -⟩ | hgroups
          · exact .inl (decide_eq_true rfl)
          · exact .inr (ipv6Groups_groups hgroups (by omega) (show 0 + m ≤ 7 by omega))
        · obtain ⟨d', rest', htext, hd'⟩ := hhex.head (0x3A :: 0x3A :: after)
          rw [hcut] at hlen
          rw [htext] at hcut
          obtain rfl := (List.cons.inj hcut).1
          rw [if_neg hd', hcut, ← htext]
          exact ipv6Groups_compressed hhex hafter hle (by omega)

/-! ## The loop comes to the same -/

section Loop

variable {pre l : Bytes}

theorem getElem?_behind (pre l : Bytes) (i : Nat) : (pre ++ l)[pre.length + i]? = l[i]? := by
  rw [List.getElem?_append_right (Nat.le_add_right _ _), Nat.add_sub_cancel_left]

theorem colonFrom_eq {fuel : Nat} (hfuel : l.length < fuel) :
    colonFrom (pre ++ l) fuel pre.length = some (pre.length + (l.takeWhile (· ≠ 0x3A)).length) := by
  induction l generalizing pre fuel with
  | nil =>
    obtain ⟨fuel, rfl⟩ := Nat.exists_eq_succ_of_ne_zero (Nat.ne_zero_of_lt hfuel)
    rw [colonFrom, if_neg (by simp)]
    rfl
  | cons b l ih =>
    obtain ⟨fuel, rfl⟩ := Nat.exists_eq_succ_of_ne_zero (Nat.ne_zero_of_lt hfuel)
    rw [length_cons] at hfuel
    have hread : (pre ++ b :: l)[pre.length]? = some b := getElem?_behind pre (b :: l) 0
    rw [colonFrom, if_pos (by simp), hread]
    dsimp only [bind_eq_bind, bind_some]
    by_cases hb : b = 0x3A
    · rw [if_pos hb, takeWhile_cons_of_neg (by simp [hb])]
      rfl
    · have hnext : colonFrom ((pre ++ [b]) ++ l) fuel (pre ++ [b]).length =
          some ((pre ++ [b]).length + (l.takeWhile (· ≠ 0x3A)).length) := ih (by omega)
      rw [append_assoc, length_append, length_singleton] at hnext
      rw [if_neg hb, takeWhile_cons_of_pos (by simpa using hb), length_cons]
      have hend : pre.length + ((l.takeWhile (· ≠ 0x3A)).length + 1) = pre.length + 1 + (l.takeWhile (· ≠ 0x3A)).length := by
        omega
      rw [hend]
      exact hnext

theorem ipv4PartAt_eq {start fuel v k : Nat} (hfuel : l.length < fuel) (hk : pre.length - start = k) (hthree : k ≤ 3)
    (hstart : start ≤ pre.length) :
    ipv4PartAt (pre ++ l) start fuel pre.length v =
      some (if (l.takeWhile (· ≠ 0x2E)).all isDigitByte && k + (l.takeWhile (· ≠ 0x2E)).length ≤ 3 then
        some (pre.length + (l.takeWhile (· ≠ 0x2E)).length,
          (l.takeWhile (· ≠ 0x2E)).foldl (fun n d => n * 10 + (d.toNat - 0x30)) v)
        else none) := by
  induction l generalizing pre fuel v k with
  | nil =>
    obtain ⟨fuel, rfl⟩ := Nat.exists_eq_succ_of_ne_zero (Nat.ne_zero_of_lt hfuel)
    rw [ipv4PartAt, if_neg (by simp), List.takeWhile_nil, if_pos (by simpa using hthree)]
    rfl
  | cons b l ih =>
    obtain ⟨fuel, rfl⟩ := Nat.exists_eq_succ_of_ne_zero (Nat.ne_zero_of_lt hfuel)
    rw [length_cons] at hfuel
    have hread : (pre ++ b :: l)[pre.length]? = some b := getElem?_behind pre (b :: l) 0
    rw [ipv4PartAt, if_pos (by simp), hread]
    dsimp only [bind_eq_bind, bind_some]
    by_cases hb : b = 0x2E
    · rw [if_pos hb, takeWhile_cons_of_neg (by simp [hb]), if_pos (by simpa using hthree)]
      rfl
    · rw [if_neg hb, takeWhile_cons_of_pos (by simpa using hb), hk]
      by_cases hdigit : isDigitByte b = true
      · by_cases hmany : k ≥ 3
        · rw [if_pos (by simp [hmany]), if_neg (by simp; omega)]
        · have hnext : ipv4PartAt ((pre ++ [b]) ++ l) start fuel (pre ++ [b]).length (v * 10 + (b.toNat - 0x30)) = _ :=
            ih (k := k + 1) (by omega) (by rw [length_append, length_singleton]; omega) (by omega)
              (by rw [length_append]; omega)
          rw [append_assoc, length_append, length_singleton, singleton_append] at hnext
          rw [if_neg (by simp [hdigit, hmany]), hnext, List.all_cons, hdigit, Bool.true_and, length_cons, foldl_cons,
            Nat.add_assoc k, Nat.add_comm 1, Nat.add_assoc pre.length, Nat.add_comm 1]
      · rw [if_pos (by simp [hdigit]), if_neg (by simp [hdigit])]

def quadPartOk (part : Bytes) : Bool :=
  part ≠ [] && part.length ≤ 3 && part.all isDigitByte && digitsValue part ≤ 255

theorem quadPart_turn (p : Bytes) (n : Nat) (next : Nat → Option Bool) :
    (match if p.all isDigitByte && 0 + p.length ≤ 3 then some (n + p.length, digitsValue p) else none with
      | none => some false
      | some (j, v) => if j = n ∨ v > 255 then some false else next (j + 1)) =
      if quadPartOk p then next (n + p.length + 1) else some false := by
  unfold quadPartOk
  by_cases hshape : (p.all isDigitByte && decide (0 + p.length ≤ 3)) = true
  · rw [if_pos hshape]
    dsimp only
    rw [and_eq_true, decide_eq_true_iff, Nat.zero_add] at hshape
    by_cases hbad : n + p.length = n ∨ digitsValue p > 255
    · rw [if_pos hbad, if_neg]
      rcases hbad with hempty | hlarge
      · have hnil : p = [] := length_eq_zero_iff.mp (by omega)
        simp [hnil]
      · simp [Nat.not_le.mpr hlarge]
    · rw [if_neg hbad, if_pos]
      rw [not_or, gt_iff_lt, Nat.not_lt] at hbad
      have hne : p ≠ [] := by
        rintro rfl
        exact hbad.1 rfl
      simp only [hshape.1, hshape.2, hbad.2, decide_true, Bool.and_true, decide_eq_true_eq]
      exact hne
  · rw [if_neg hshape, if_neg]
    rw [Nat.zero_add] at hshape
    intro hok
    simp only [and_eq_true] at hok hshape
    exact hshape ⟨hok.1.2, hok.1.1.2⟩

theorem ipv4PartsAt_eq {fuel parts : Nat} (hfuel : l.length + 2 ≤ fuel) :
    ipv4PartsAt (pre ++ l) fuel pre.length parts =
      some (decide (parts + (l.splitOn 0x2E).length = 4) && (l.splitOn 0x2E).all quadPartOk) := by
  induction fuel generalizing pre l parts with
  | zero => omega
  | succ fuel ih =>
    have hsplit : l = l.takeWhile (· ≠ 0x2E) ++ l.dropWhile (· ≠ 0x2E) := takeWhile_append_dropWhile.symm
    have hpart : ipv4PartAt (pre ++ l) pre.length ((pre ++ l).length + 1) pre.length 0 = _ :=
      ipv4PartAt_eq (by rw [length_append]; omega) (Nat.sub_self _) (Nat.zero_le 3) (Nat.le_refl _)
    have hdot : 0x2E ∉ l.takeWhile (· ≠ 0x2E) := fun hin => by simpa using List.mem_takeWhile_imp hin
    rw [ipv4PartsAt, if_pos (by rw [length_append]; omega), hpart]
    dsimp only [bind_eq_bind, bind_some]
    have htail : ∀ c ∈ (l.dropWhile (· ≠ 0x2E)).head?, c = 0x2E := by
      intro c hc
      have hstop := List.head?_dropWhile_not (· ≠ 0x2E) l
      rw [Option.mem_def.mp hc] at hstop
      simpa using hstop
    generalize l.takeWhile (· ≠ 0x2E) = p at hsplit hdot
    generalize l.dropWhile (· ≠ 0x2E) = tail at hsplit htail
    subst hsplit
    refine (quadPart_turn p pre.length fun j => ipv4PartsAt (pre ++ (p ++ tail)) fuel j (parts + 1)).trans ?_
    rw [length_append] at hfuel
    cases tail with
    | nil =>
      obtain ⟨fuel, rfl⟩ := Nat.exists_eq_succ_of_ne_zero (show fuel ≠ 0 by omega)
      have hend : ¬ pre.length + p.length + 1 ≤ (pre ++ (p ++ [])).length := by
        rw [append_nil, length_append]
        omega
      rw [ipv4PartsAt, if_neg hend, append_nil, List.splitOn_eq_singleton hdot]
      cases hok : quadPartOk p <;> simp [hok]
    | cons c tail =>
      obtain rfl : c = 0x2E := htail c rfl
      rw [length_cons] at hfuel
      have hnext : ipv4PartsAt ((pre ++ (p ++ [0x2E])) ++ tail) fuel (pre ++ (p ++ [0x2E])).length (parts + 1) = _ :=
        ih (by omega)
      have hlength : (pre ++ (p ++ [(0x2E : UInt8)])).length = pre.length + p.length + 1 := by
        rw [length_append, length_append, length_singleton, Nat.add_assoc]
      rw [hlength, append_assoc, append_assoc, singleton_append] at hnext
      rw [hnext, List.splitOn_append_cons_self_of_not_mem hdot, length_cons, List.all_cons, Nat.add_assoc, Nat.add_comm 1]
      cases quadPartOk p <;> simp

theorem ipv4OkAt_eq (s : Bytes) : ipv4OkAt s = some (ipv4Ok s) := by
  have hparts : ipv4PartsAt ([] ++ s) (s.length + 2) 0 0 = _ := ipv4PartsAt_eq (Nat.le_refl (s.length + 2))
  rw [Nat.zero_add] at hparts
  exact hparts

theorem sliceAt_behind (pre g tail : Bytes) :
    sliceAt (pre ++ (g ++ tail)) pre.length (pre.length + g.length) = some g := by
  rw [sliceAt, if_pos ⟨by omega, by rw [length_append, length_append]; omega⟩, Bytes.slice_middle]

theorem ipv6RestAt_eq {front tail : Bytes} {next : Bool → Nat → Option Bool} {next' : Bool → Bytes → Bool} {groups : Nat}
    {compressed : Bool} (hnext : ∀ again mid rest, tail = mid ++ rest → mid ≠ [] → rest ≠ [] →
      next again (front.length + mid.length) = some (next' again rest)) :
    ipv6RestAt (front ++ tail) next compressed groups front.length =
      some (if 8 < groups then false else ipv6Rest next' groups compressed tail) := by
  have hlength : (front ++ tail).length = front.length + tail.length := length_append
  unfold ipv6RestAt
  by_cases hmany : groups > 8
  · rw [if_pos hmany, if_pos hmany]
  rw [if_neg hmany, if_neg hmany, hlength]
  match tail with
  | [] =>
    rw [if_pos (by rw [length_nil, Nat.add_zero])]
    rfl
  | [c] =>
    rw [if_neg (by rw [length_singleton]; omega), if_pos (by rw [length_singleton])]
    rfl
  | c :: d :: rest =>
    have hread : (front ++ c :: d :: rest)[front.length + 1]? = some d := getElem?_behind front (c :: d :: rest) 1
    have hlen : (c :: d :: rest).length = rest.length + 2 := rfl
    rw [if_neg (by omega), if_neg (by omega), hread, ipv6Rest]
    dsimp only [bind_eq_bind, bind_some]
    by_cases hd : d = 0x3A
    · rw [if_pos hd, if_pos hd]
      cases compressed with
      | true => rfl
      | false =>
        rw [if_neg false_ne_true, if_neg false_ne_true]
        by_cases hend : rest = []
        · rw [if_pos hend, if_pos (by rw [hlen, hend]; rfl)]
          rfl
        · have hpos := length_pos_of_ne_nil hend
          rw [if_neg hend, if_neg (by omega)]
          exact hnext true [c, d] rest rfl (cons_ne_nil _ _) hend
    · rw [if_neg hd, if_neg hd]
      exact hnext compressed [c] (d :: rest) rfl (cons_ne_nil _ _) (cons_ne_nil _ _)

theorem ipv6GroupsAt_eq {fuel groups : Nat} {compressed : Bool} (hne : l ≠ []) (hfuel : l.length ≤ fuel) :
    ipv6GroupsAt (pre ++ l) fuel groups compressed pre.length = some (ipv6Groups fuel groups compressed l) := by
  induction fuel generalizing pre l groups compressed with
  | zero => exact absurd (length_eq_zero_iff.mp (Nat.le_zero.mp hfuel)) hne
  | succ fuel ih =>
    have hsplit : l = l.takeWhile (· ≠ 0x3A) ++ l.dropWhile (· ≠ 0x3A) := takeWhile_append_dropWhile.symm
    have hcolon : colonFrom (pre ++ l) ((pre ++ l).length + 1) pre.length = _ :=
      colonFrom_eq (by rw [length_append]; omega)
    rw [ipv6GroupsAt, hcolon, ipv6Groups_succ]
    dsimp only [bind_eq_bind, bind_some]
    generalize l.takeWhile (· ≠ 0x3A) = g at hsplit
    generalize l.dropWhile (· ≠ 0x3A) = tail at hsplit
    subst hsplit
    rw [sliceAt_behind, drop_left]
    dsimp only [bind_some]
    by_cases hempty : g = []
    · rw [if_pos hempty, if_pos hempty]
    rw [if_neg hempty, if_neg hempty]
    have hgroup := length_pos_of_ne_nil hempty
    rw [length_append] at hfuel
    -- the group's end is where the rest begins
    have hrest : ∀ n, ipv6RestAt (pre ++ (g ++ tail)) (ipv6GroupsAt (pre ++ (g ++ tail)) fuel n) compressed n
        (pre.length + g.length) = some (if 8 < n then false else ipv6Rest (ipv6Groups fuel n) n compressed tail) := by
      intro n
      rw [← append_assoc, ← length_append]
      refine ipv6RestAt_eq fun again mid rest hcut hmid hleft => ?_
      subst hcut
      rw [length_append] at hfuel
      have hpos := length_pos_of_ne_nil hmid
      rw [← append_assoc, ← length_append]
      exact ih hleft (by omega)
    have hlength : (pre ++ (g ++ tail)).length = pre.length + g.length + tail.length := by
      rw [length_append, length_append, Nat.add_assoc]
    cases hdot : g.contains 0x2E with
    | true =>
      rw [if_pos rfl, ipv4OkAt_eq]
      dsimp only [bind_some]
      have hend : decide (pre.length + g.length ≠ (pre ++ (g ++ tail)).length) = decide (tail ≠ []) := by
        rw [decide_eq_decide, hlength, ne_eq, ne_eq, ← length_eq_zero_iff]
        omega
      rw [hend, Bool.true_and]
      by_cases hbad : (!ipv4Ok g || decide (tail ≠ [])) = true
      · rw [if_pos hbad, if_pos hbad]
      · rw [if_neg hbad, if_neg hbad]
        exact hrest (groups + 2)
    | false =>
      rw [if_neg false_ne_true, Bool.false_and, if_neg false_ne_true, Bool.not_false, Bool.true_and]
      by_cases hlong : 4 < g.length
      · rw [if_pos hlong, decide_eq_true hlong, Bool.true_or, if_pos rfl]
      · rw [if_neg hlong, decide_eq_false hlong, Bool.false_or]
        cases g.all isHexByte with
        | true => exact hrest (groups + 1)
        | false => rfl

end Loop

/-- The scan of a text comes to its end with every index inside the text, and says whether the text is an address. -/
theorem ipv6OkAt_iff (s : Bytes) : ∃ answer, ipv6OkAt s = some answer ∧ (answer = true ↔ Ipv6Text s) := by
  refine ⟨ipv6Ok s, ?_, ipv6Ok_iff s⟩
  unfold ipv6OkAt
  match s with
  | [] => rfl
  | [c] => rfl
  | c :: d :: rest =>
    have hlen : (c :: d :: rest).length = rest.length + 2 := rfl
    rw [ipv6Ok_cons, hlen]
    by_cases hlong : 45 < rest.length + 2
    · rw [if_pos (.inr hlong), if_pos hlong]
    rw [if_neg (by omega), if_neg hlong]
    dsimp only [bind_eq_bind, bind_some, List.getElem?_cons_zero, List.getElem?_cons_succ]
    by_cases hc : c = 0x3A
    · rw [if_pos hc, if_pos hc]
      by_cases hd : d = 0x3A
      · rw [if_neg (not_not.mpr hd), if_pos hd]
        by_cases hrest : rest = []
        · rw [if_pos (by rw [hrest]; rfl), hrest]
          rfl
        · have hpos := length_pos_of_ne_nil hrest
          rw [if_neg (by omega), decide_eq_false hrest, Bool.false_or]
          have hscan : ipv6GroupsAt ([c, d] ++ rest) (rest.length + 2) 0 true 2 = _ := ipv6GroupsAt_eq hrest (by omega)
          exact hscan
      · rw [if_pos hd, if_neg hd]
    · rw [if_neg hc, if_neg hc]
      have hscan : ipv6GroupsAt ([] ++ c :: d :: rest) (rest.length + 2) 0 false 0 = _ :=
        ipv6GroupsAt_eq (cons_ne_nil _ _) (by rw [hlen])
      exact hscan

end Wave.Common
