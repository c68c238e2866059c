import Wave.Common.SrtpCore
import Wave.Lib.BitWindow
import Wave.Lib.Machine
import Mathlib.Data.Nat.Bitwise
import Mathlib.Data.List.Nodup

/-! # Replay windows (`common/srtp_core.rs` and `common/sframe_core.rs`)

A number is accepted once: above all accepted ones, or at most 63 below the highest (`windows_accept`). -/

namespace Wave.Common.ReplayWindow

open Lib Common.SrtpCore

variable {accepted : List UInt64}

structure SframeReplayWindow where
  highest : UInt64 := 0
  seen : UInt64 := 0
  initialized : Bool := false

/-- `accept`: the window afterwards and the verdict. -/
def SframeReplayWindow.accept (w : SframeReplayWindow) (counter : UInt64) : SframeReplayWindow × Bool :=
  if !w.initialized then ({ highest := counter, seen := 1, initialized := true }, true)
  else if counter > w.highest then
    let shift := counter - w.highest
    ({ w with
        seen := if shift ≥ 64 then 1 else (w.seen <<< shift) ||| 1
        highest := counter }, true)
  else
    let distance := w.highest - counter
    if distance ≥ 64 then (w, false)
    else
      let bit := (1 : UInt64) <<< distance
      if w.seen &&& bit != 0 then (w, false) else ({ w with seen := w.seen ||| bit }, true)

def srtp : Machine SrtpReplay UInt64 UInt64 where
  step w i := ((w.accept i).1, if (w.accept i).2 then [i] else [])

def sframe : Machine SframeReplayWindow UInt64 UInt64 where
  step w i := ((w.accept i).1, if (w.accept i).2 then [i] else [])

def Admits (accepted : List UInt64) (i : UInt64) : Prop :=
  accepted = [] ∨ ∃ h ∈ accepted, (∀ j ∈ accepted, j ≤ h) ∧ (h < i ∨ (i ≤ h ∧ h.toNat - i.toNat < 64 ∧ i ∉ accepted))

section Bits

variable {b s : UInt64} {k : Nat}

theorem testBit_one_word : (1 : UInt64).toNat.testBit k = true ↔ k = 0 := by
  rw [UInt64.toNat_one, Nat.testBit_one_eq_true_iff_self_eq_zero]

theorem testBit_shift (hs : s.toNat < 64) (hk : k < 64) :
    ((b <<< s) ||| 1).toNat.testBit k = true ↔ k = 0 ∨ (s.toNat ≤ k ∧ b.toNat.testBit (k - s.toNat) = true) := by
  have hsh : (b <<< s).toNat.testBit k = (decide (s.toNat ≤ k) && b.toNat.testBit (k - s.toNat)) := by
    rw [UInt64.toNat_shiftLeft, Nat.mod_eq_of_lt hs, Nat.testBit_mod_two_pow, Nat.testBit_shiftLeft, decide_eq_true hk,
      Bool.true_and]
  rw [UInt64.toNat_or, Nat.testBit_or, hsh, or_eq_true, testBit_one_word, and_eq_true, decide_eq_true_iff]
  exact or_comm

theorem toNat_bit (hs : s.toNat < 64) : ((1 : UInt64) <<< s).toNat = 2 ^ s.toNat := by
  rw [UInt64.toNat_shiftLeft, Nat.mod_eq_of_lt hs, UInt64.toNat_one, Nat.shiftLeft_eq, Nat.one_mul]
  exact Nat.mod_eq_of_lt (Nat.pow_lt_pow_right (by decide) hs)

theorem testBit_mark (hs : s.toNat < 64) :
    (b ||| ((1 : UInt64) <<< s)).toNat.testBit k = true ↔ b.toNat.testBit k = true ∨ k = s.toNat := by
  rw [UInt64.toNat_or, toNat_bit hs, Nat.testBit_or, Nat.testBit_two_pow, or_eq_true, decide_eq_true_iff]
  exact or_congr_right eq_comm

theorem and_bit (hs : s.toNat < 64) : ((b &&& ((1 : UInt64) <<< s)) != 0) = b.toNat.testBit s.toNat := by
  have hand : (b &&& ((1 : UInt64) <<< s)).toNat = (b.toNat.testBit s.toNat).toNat * 2 ^ s.toNat := by
    rw [UInt64.toNat_and, toNat_bit hs, Nat.and_two_pow]
  have hpos : 0 < 2 ^ s.toNat := Nat.two_pow_pos _
  cases hbit : b.toNat.testBit s.toNat with
  | false =>
    rw [hbit, Bool.toNat_false, Nat.zero_mul] at hand
    have hz : (b &&& ((1 : UInt64) <<< s)) = 0 := UInt64.toNat_inj.mp hand
    rw [hz]
    rfl
  | true =>
    rw [hbit, Bool.toNat_true, Nat.one_mul] at hand
    rw [bne_iff_ne]
    intro hz
    rw [hz, UInt64.toNat_zero] at hand
    omega

end Bits

/-- The window stands under the highest index accepted, and its bits are the indices accepted. -/
def Holds (w : SrtpReplay) (accepted : List UInt64) : Prop :=
  if w.initialized then
    w.highest ∈ accepted ∧ (∀ j ∈ accepted, j ≤ w.highest) ∧
      BitWindow.Tracks 64 w.highest.toNat w.bitmap.toNat.testBit (accepted.map UInt64.toNat)
  else accepted = []

theorem mem_map_toNat {l : List UInt64} {i : UInt64} : i.toNat ∈ l.map UInt64.toNat ↔ i ∈ l := by
  rw [mem_map]
  exact ⟨fun ⟨j, hj, he⟩ => UInt64.toNat_inj.mp he ▸ hj, fun h => ⟨i, h, rfl⟩⟩

theorem admits_iff {h i : UInt64} (hmem : h ∈ accepted) (hmax : ∀ j ∈ accepted, j ≤ h) :
    Admits accepted i ↔ h < i ∨ (i ≤ h ∧ h.toNat - i.toNat < 64 ∧ i ∉ accepted) := by
  constructor
  · rintro (hnil | ⟨h', hmem', hmax', hi⟩)
    · rw [hnil] at hmem
      cases hmem
    · have heq : h' = h := UInt64.le_antisymm (hmax h' hmem') (hmax' h hmem)
      rw [heq] at hi
      exact hi
  · exact fun hi => Or.inr ⟨h, hmem, hmax, hi⟩

theorem Holds.accept {w : SrtpReplay} (h : Holds w accepted) (i : UInt64) :
    ((w.accept i).2 = true ↔ Admits accepted i) ∧
      Holds (w.accept i).1 (accepted ++ if (w.accept i).2 then [i] else []) := by
  unfold Holds at h
  cases hinit : w.initialized with
  | false =>
    rw [hinit, if_neg (by decide)] at h
    subst h
    have hacc : w.accept i = ({ highest := i, bitmap := 1, initialized := true }, true) := by
      rw [SrtpReplay.accept, hinit]
      rfl
    rw [hacc]
    refine ⟨iff_of_true rfl (Or.inl rfl), ?_⟩
    refine ⟨by simp, by simp, ?_⟩
    exact BitWindow.Tracks.first _ fun k _ => testBit_one_word
  | true =>
    rw [hinit, if_pos rfl] at h
    obtain ⟨hmem, hmax, htrack⟩ := h
    have hmaxn : ∀ j ∈ accepted.map UInt64.toNat, j ≤ w.highest.toNat := by
      intro j hj
      obtain ⟨x, hx, rfl⟩ := mem_map.mp hj
      exact UInt64.le_iff_toNat_le.mp (hmax x hx)
    rw [admits_iff hmem hmax]
    by_cases hi : i > w.highest
    · have hlt : w.highest.toNat < i.toNat := UInt64.lt_iff_toNat_lt.mp hi
      have hshift : (i - w.highest).toNat = i.toNat - w.highest.toNat :=
        UInt64.toNat_sub_of_le _ _ (UInt64.le_of_lt hi)
      have hacc : w.accept i = ({ w with
          highest := i
          bitmap := if i - w.highest ≥ 64 then 1 else (w.bitmap <<< (i - w.highest)) ||| 1 }, true) := by
        rw [SrtpReplay.accept, hinit, if_neg (by decide), if_pos hi]
      rw [hacc]
      refine ⟨iff_of_true rfl (Or.inl hi), ?_⟩
      unfold Holds
      dsimp only
      rw [hinit, if_pos rfl, if_pos rfl, map_append]
      refine ⟨by simp, ?_, htrack.advance hmaxn hlt fun k hk => ?_⟩
      · intro j hj
        obtain hj | hj := mem_append.mp hj
        · exact UInt64.le_trans (hmax j hj) (UInt64.le_of_lt hi)
        · rw [mem_singleton.mp hj]
          exact UInt64.le_refl i
      · by_cases hfar : i - w.highest ≥ 64
        · have hn : 64 ≤ (i - w.highest).toNat := UInt64.le_iff_toNat_le.mp hfar
          rw [if_pos hfar, testBit_one_word]
          omega
        · have hn : (i - w.highest).toNat < 64 := UInt64.lt_iff_toNat_lt.mp (UInt64.not_le.mp hfar)
          rw [if_neg hfar, testBit_shift hn hk, hshift]
    · have hle : i ≤ w.highest := UInt64.not_lt.mp hi
      have hback : (w.highest - i).toNat = w.highest.toNat - i.toNat := UInt64.toNat_sub_of_le _ _ hle
      have hlen : i.toNat ≤ w.highest.toNat := UInt64.le_iff_toNat_le.mp hle
      by_cases hfar : w.highest - i ≥ 64
      · -- too far behind
        have hn : 64 ≤ (w.highest - i).toNat := UInt64.le_iff_toNat_le.mp hfar
        have hacc : w.accept i = (w, false) := by
          rw [SrtpReplay.accept, hinit, if_neg (by decide), if_neg hi]
          dsimp only
          rw [if_pos (by simp [hfar])]
        rw [hacc]
        refine ⟨iff_of_false false_ne_true ?_, ?_⟩
        · rintro (hlt | ⟨_, hnear, _⟩)
          · exact hi hlt
          · omega
        · rw [if_neg false_ne_true, append_nil]
          unfold Holds
          rw [hinit, if_pos rfl]
          exact ⟨hmem, hmax, htrack⟩
      · have hn : (w.highest - i).toNat < 64 := UInt64.lt_iff_toNat_lt.mp (UInt64.not_le.mp hfar)
        have hbit := htrack.bit hlen (by omega)
        rw [mem_map_toNat, ← hback] at hbit
        have hacc : w.accept i = if w.bitmap.toNat.testBit (w.highest - i).toNat then (w, false)
            else ({ w with bitmap := w.bitmap ||| ((1 : UInt64) <<< (w.highest - i)) }, true) := by
          rw [SrtpReplay.accept, hinit, if_neg (by decide), if_neg hi]
          dsimp only
          rw [decide_eq_false hfar, Bool.false_or, and_bit hn]
        rw [hacc]
        by_cases hseen : i ∈ accepted
        · -- a duplicate
          rw [if_pos (hbit.mpr hseen)]
          refine ⟨iff_of_false false_ne_true ?_, ?_⟩
          · rintro (hlt | ⟨_, _, hnew⟩)
            · exact hi hlt
            · exact hnew hseen
          · rw [if_neg false_ne_true, append_nil]
            unfold Holds
            rw [hinit, if_pos rfl]
            exact ⟨hmem, hmax, htrack⟩
        · -- a gap filled
          rw [if_neg (fun hb => hseen (hbit.mp hb))]
          refine ⟨iff_of_true rfl (Or.inr ⟨hle, by omega, hseen⟩), ?_⟩
          unfold Holds
          dsimp only
          rw [hinit, if_pos rfl, if_pos rfl, map_append]
          refine ⟨by simp [hmem], ?_, htrack.mark hlen fun k _ => ?_⟩
          · intro j hj
            obtain hj | hj := mem_append.mp hj
            · exact hmax j hj
            · rw [mem_singleton.mp hj]
              exact hle
          · rw [testBit_mark hn, hback]

theorem Admits.fresh {i : UInt64} (h : Admits accepted i) : i ∉ accepted := by
  obtain rfl | ⟨h, _, hmax, hlt | ⟨_, _, hnew⟩⟩ := h
  · simp
  · exact fun hi => UInt64.not_le.mpr hlt (hmax i hi)
  · exact hnew

theorem srtp_holds (is : List UInt64) :
    Holds (srtp.run {} is).1 (srtp.run {} is).2 ∧ (srtp.run {} is).2.Nodup := by
  refine srtp.run_log_invariant (P := fun _ _ => True) (I := fun w l => Holds w l ∧ l.Nodup) (l := []) ?_
    (s := {}) ⟨rfl, List.nodup_nil⟩ (srtp.along_of_forall (fun _ _ => trivial) _ _)
  rintro w l i ⟨h, hnodup⟩ _
  obtain ⟨hverdict, hnext⟩ := h.accept i
  refine ⟨hnext, ?_⟩
  change (l ++ if (w.accept i).2 then [i] else []).Nodup
  by_cases hv : (w.accept i).2 = true
  · have hnew : i ∉ l := (hverdict.mp hv).fresh
    rw [if_pos hv, ← concat_eq_append]
    exact hnodup.concat hnew
  · rw [if_neg hv, append_nil]
    exact hnodup

def SframeReplayWindow.toSrtp (w : SframeReplayWindow) : SrtpReplay :=
  { highest := w.highest, bitmap := w.seen, initialized := w.initialized }

theorem SframeReplayWindow.accept_toSrtp (w : SframeReplayWindow) (i : UInt64) :
    w.toSrtp.accept i = ((w.accept i).1.toSrtp, (w.accept i).2) := by
  obtain ⟨highest, seen, initialized⟩ := w
  cases initialized with
  | false => rfl
  | true =>
    change SrtpReplay.accept ⟨highest, seen, true⟩ i = _
    simp only [SframeReplayWindow.accept, SrtpReplay.accept, Bool.not_true, false_eq_true, if_false]
    by_cases hi : i > highest
    · rw [if_pos hi, if_pos hi]
      rfl
    · rw [if_neg hi, if_neg hi]
      by_cases hfar : highest - i ≥ 64
      · rw [if_pos hfar, if_pos (by simp [hfar])]
        rfl
      · rw [if_neg hfar, decide_eq_false hfar, Bool.false_or]
        split <;> rfl

theorem sframe_run (is : List UInt64) (w : SframeReplayWindow) :
    srtp.run w.toSrtp is = ((sframe.run w is).1.toSrtp, (sframe.run w is).2) := by
  induction is generalizing w with
  | nil => rfl
  | cons i is ih =>
    have hacc := w.accept_toSrtp i
    simp only [Machine.run_cons, srtp, sframe, hacc] at ih ⊢
    rw [ih]

/-- After any indices: one is accepted exactly when it is above the highest, or less than 64 behind and not yet
accepted; none is accepted twice; a refused one changes nothing. -/
theorem windows_accept (is : List UInt64) (i : UInt64) :
    (((srtp.run {} is).1.accept i).2 = true ↔ Admits (srtp.run {} is).2 i) ∧
    (srtp.run {} is).2.Nodup ∧
    (((srtp.run {} is).1.accept i).2 = false → ((srtp.run {} is).1.accept i).1 = (srtp.run {} is).1) ∧
    (((sframe.run {} is).1.accept i).2 = true ↔ Admits (sframe.run {} is).2 i) ∧
    (sframe.run {} is).2.Nodup ∧
    (((sframe.run {} is).1.accept i).2 = false → ((sframe.run {} is).1.accept i).1 = (sframe.run {} is).1) := by
  have hrefused : ∀ w : SrtpReplay, (w.accept i).2 = false → (w.accept i).1 = w := by
    intro w hw
    have hv : w.accept i = ((w.accept i).1, false) := Prod.ext rfl hw
    exact SrtpReplay.accept_refused hv
  obtain ⟨hholds, hnodup⟩ := srtp_holds is
  have hrun : srtp.run {} is = ((sframe.run {} is).1.toSrtp, (sframe.run {} is).2) := sframe_run is {}
  have hacc := (sframe.run {} is).1.accept_toSrtp i
  refine ⟨(hholds.accept i).1, hnodup, hrefused _, ?_, ?_, ?_⟩
  · rw [hrun] at hholds
    have hv := (hholds.accept i).1
    rw [hacc] at hv
    exact hv
  · rw [hrun] at hnodup
    exact hnodup
  · intro hv
    have hsame := hrefused (sframe.run {} is).1.toSrtp (by rw [hacc]; exact hv)
    rw [hacc] at hsame
    have h : ∀ a b : SframeReplayWindow, a.toSrtp = b.toSrtp → a = b := by
      rintro ⟨_, _, _⟩ ⟨_, _, _⟩ hab
      simp only [SframeReplayWindow.toSrtp, SrtpReplay.mk.injEq] at hab
      simp [hab]
    exact h _ _ hsame

end Wave.Common.ReplayWindow
