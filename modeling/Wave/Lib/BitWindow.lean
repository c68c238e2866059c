import Mathlib.Data.List.Basic

/-! # Sliding bitmaps

`Tracks`: bit `back` of a window stands for the number `back` below its highest. -/

namespace Wave.Lib.BitWindow

/-- The bits of the window under `highest` are the numbers in `seen`. -/
def Tracks (width highest : Nat) (bits : Nat → Bool) (seen : List Nat) : Prop :=
  ∀ back < width, bits back = true ↔ back ≤ highest ∧ highest - back ∈ seen

variable {width highest i : Nat} {bits bits' : Nat → Bool} {seen : List Nat}

theorem Tracks.bit (h : Tracks width highest bits seen) (hle : i ≤ highest) (hin : highest - i < width) :
    bits (highest - i) = true ↔ i ∈ seen := by
  have hb := h (highest - i) hin
  rw [show highest - (highest - i) = i by omega] at hb
  exact hb.trans ⟨fun hs => hs.2, fun hs => ⟨Nat.sub_le _ _, hs⟩⟩

theorem Tracks.first (i : Nat) (hbits : ∀ k < width, bits k = true ↔ k = 0) : Tracks width i bits [i] := by
  intro back hback
  rw [hbits back hback, List.mem_singleton]
  omega

theorem Tracks.advance (h : Tracks width highest bits seen) (hmax : ∀ j ∈ seen, j ≤ highest) (hi : highest < i)
    (hbits : ∀ k < width, bits' k = true ↔ k = 0 ∨ (i - highest ≤ k ∧ bits (k - (i - highest)) = true)) :
    Tracks width i bits' (seen ++ [i]) := by
  intro back hback
  rw [hbits back hback, List.mem_append, List.mem_singleton]
  constructor
  · rintro (rfl | ⟨hle, hb⟩)
    · exact ⟨Nat.zero_le _, Or.inr rfl⟩
    · obtain ⟨hle', hs⟩ := (h _ (by omega)).mp hb
      rw [show highest - (back - (i - highest)) = i - back by omega] at hs
      exact ⟨by omega, Or.inl hs⟩
  · rintro ⟨hle, hs | hs⟩
    · have hold := hmax _ hs
      refine Or.inr ⟨by omega, (h _ (by omega)).mpr ⟨by omega, ?_⟩⟩
      rw [show highest - (back - (i - highest)) = i - back by omega]
      exact hs
    · exact Or.inl (by omega)

theorem Tracks.mark (h : Tracks width highest bits seen) (hi : i ≤ highest)
    (hbits : ∀ k < width, bits' k = true ↔ bits k = true ∨ k = highest - i) :
    Tracks width highest bits' (seen ++ [i]) := by
  intro back hback
  rw [hbits back hback, List.mem_append, List.mem_singleton, h back hback]
  constructor
  · rintro (⟨hle, hs⟩ | hb)
    · exact ⟨hle, Or.inl hs⟩
    · exact ⟨by omega, Or.inr (by omega)⟩
  · rintro ⟨hle, hs | hs⟩
    · exact Or.inl ⟨hle, hs⟩
    · exact Or.inr (by omega)

end Wave.Lib.BitWindow
