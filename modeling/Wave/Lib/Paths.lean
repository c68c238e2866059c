import Wave.Lib.Bytes

/-! # Percent escapes and path segments

What a percent-escaped string stands for; `mem_splitOn` gives a segment its place in the string. -/

namespace Wave.Lib

/-- The bytes of an ASCII text. -/
def ascii (s : String) : Bytes := s.toList.map fun c => UInt8.ofNat c.toNat

namespace Paths

/-- One hex digit, in either case. -/
def hexVal (c : UInt8) : Option UInt8 :=
  if 0x30 ≤ c ∧ c ≤ 0x39 then some (c - 0x30)
  else if 0x61 ≤ c ∧ c ≤ 0x66 then some (c - 0x61 + 10)
  else if 0x41 ≤ c ∧ c ≤ 0x46 then some (c - 0x41 + 10)
  else none

def unescape (h l : UInt8) : Option UInt8 :=
  match hexVal h, hexVal l with
  | some x, some y => some ((x <<< 4) ||| y)
  | _, _ => none

/-- Every `%XX` of two hex digits replaced by the byte it names, the rest as it is. -/
def percentDecode : Bytes → Bytes
  | b :: h :: l :: rest =>
    if b = 0x25 then
      match unescape h l with
      | some v => v :: percentDecode rest
      | none => b :: percentDecode (h :: l :: rest)
    else b :: percentDecode (h :: l :: rest)
  | b :: rest => b :: percentDecode rest
  | [] => []

theorem percentDecode_cons {b : UInt8} {rest : Bytes}
    (h : b ≠ 0x25 ∨ ∀ x y t, rest = x :: y :: t → unescape x y = none) :
    percentDecode (b :: rest) = b :: percentDecode rest := by
  match rest with
  | [] => rfl
  | [_] => rfl
  | x :: y :: t =>
    rw [percentDecode]
    rcases h with h | h
    · rw [if_neg h]
    · rw [h x y t rfl]; simp

theorem unescape_left {x : UInt8} (h : hexVal x = none) (y : UInt8) : unescape x y = none := by
  simp [unescape, h]

theorem unescape_right {y : UInt8} (h : hexVal y = none) (x : UInt8) : unescape x y = none := by
  unfold unescape
  cases hexVal x <;> simp [h]

theorem percentDecode_append_stop {q : UInt8} (hq : hexVal q = none) (hp : q ≠ 0x25) (a c : Bytes) :
    percentDecode (a ++ q :: c) = percentDecode a ++ q :: percentDecode c := by
  induction a using percentDecode.induct with
  | case1 h l rest v hv ih =>
    simp only [cons_append, percentDecode, hv, if_true, ih]
  | case2 h l rest hnone ih =>
    have hfirst : percentDecode (0x25 :: h :: l :: rest) = 0x25 :: percentDecode (h :: l :: rest) := by
      rw [percentDecode, hnone]; rfl
    rw [hfirst, cons_append, percentDecode_cons, ih, cons_append]
    right
    intro x y t heq
    simp only [cons_append, List.cons.injEq] at heq
    rw [← heq.1, ← heq.2.1, hnone]
  | case3 b h l rest hb ih =>
    rw [cons_append, percentDecode_cons (.inl hb), percentDecode_cons (.inl hb), ih,
      cons_append]
  | case4 b rest hshort ih =>
    have hrest : percentDecode (b :: rest) = b :: percentDecode rest :=
      percentDecode_cons (.inr fun x y t h => absurd h (by
        intro heq; exact hshort x y t heq))
    rw [hrest, cons_append, percentDecode_cons, ih, cons_append]
    right
    intro x y t heq
    match rest with
    | [] =>
      simp only [nil_append, List.cons.injEq] at heq
      rw [← heq.1]
      exact unescape_left hq y
    | [z] =>
      simp only [cons_append, nil_append, List.cons.injEq] at heq
      rw [← heq.2.1]
      exact unescape_right hq x
    | z :: w :: u => exact absurd rfl (hshort z w u)
  | case5 => rw [nil_append, percentDecode_cons (.inl hp)]; rfl

/-- Where a segment ends: at the end of the string or before a separator. -/
def Boundary (sep : UInt8) (b : Bytes) : Prop := b = [] ∨ ∃ c, b = sep :: c

/-- The first segment is a prefix of the string, every later one follows a separator. -/
theorem splitOn_places {sep : UInt8} {d head : Bytes} {tail : List Bytes}
    (h : d.splitOn sep = head :: tail) :
    (∃ b, d = head ++ b ∧ Boundary sep b) ∧
      ∀ s ∈ tail, ∃ a b, d = a ++ sep :: (s ++ b) ∧ Boundary sep b := by
  induction d generalizing head tail with
  | nil =>
    obtain ⟨rfl, rfl⟩ : [] = head ∧ [] = tail := by simpa [List.splitOn] using h
    exact ⟨⟨[], rfl, .inl rfl⟩, by simp⟩
  | cons x xs ih =>
    cases hxs : xs.splitOn sep with
    | nil => exact absurd hxs (by simp [List.splitOn])
    | cons head' tail' =>
      obtain ⟨⟨b, hb, hbdry⟩, htail⟩ := ih hxs
      rw [List.splitOn, List.splitOnP_cons_eq_if_modifyHead] at h
      rw [List.splitOn] at hxs
      rw [hxs] at h
      by_cases hx : x = sep
      · subst hx
        simp only [beq_self_eq_true, if_true, List.cons.injEq] at h
        obtain ⟨rfl, rfl⟩ := h
        refine ⟨⟨x :: xs, rfl, .inr ⟨xs, rfl⟩⟩, ?_⟩
        intro s hs
        rcases mem_cons.mp hs with rfl | hs
        · exact ⟨[], b, by rw [hb]; rfl, hbdry⟩
        · obtain ⟨a, c, hac, hc⟩ := htail s hs
          exact ⟨x :: a, c, by rw [hac]; rfl, hc⟩
      · simp only [beq_iff_eq, hx, if_false, List.modifyHead_cons, List.cons.injEq] at h
        obtain ⟨rfl, rfl⟩ := h
        refine ⟨⟨b, by rw [hb]; rfl, hbdry⟩, ?_⟩
        intro s hs
        obtain ⟨a, c, hac, hc⟩ := htail s hs
        exact ⟨x :: a, c, by rw [hac]; rfl, hc⟩

theorem splitOn_sep_cons (sep : UInt8) (d : Bytes) :
    (sep :: d).splitOn sep = [] :: d.splitOn sep := by
  rw [List.splitOn, List.splitOnP_cons_eq_if_modifyHead, beq_self_eq_true, if_pos rfl]
  rfl

/-- A segment stands at the start of the string or after a separator, and at the
end or before one. -/
theorem mem_splitOn {sep : UInt8} {d s : Bytes} (h : s ∈ d.splitOn sep) :
    ∃ a b, d = a ++ (s ++ b) ∧ (a = [] ∨ ∃ c, a = c ++ [sep]) ∧ Boundary sep b := by
  cases hd : d.splitOn sep with
  | nil => exact absurd hd (by simp [List.splitOn])
  | cons head tail =>
    obtain ⟨⟨b, hb, hbdry⟩, htail⟩ := splitOn_places hd
    rw [hd] at h
    rcases mem_cons.mp h with rfl | h
    · exact ⟨[], b, hb, .inl rfl, hbdry⟩
    · obtain ⟨a, c, hac, hc⟩ := htail s h
      exact ⟨a ++ [sep], c, by rw [hac]; simp, .inr ⟨a, rfl⟩, hc⟩

end Paths

end Wave.Lib
