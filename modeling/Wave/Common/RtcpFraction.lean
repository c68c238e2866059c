import Wave.Common.RtcpCore
import Wave.Common.RtcpInterval
import Wave.Lib.Machine
import Mathlib.Algebra.Ring.Int.Defs

/-! # What a receiver reports (`common/rtcp_core.rs`)

The numbers of a report are worked out in 32 bits that wrap, and are compared here with numbers that do not. -/

namespace Wave.Common.RtcpCore

open Lib

def Packet.transit (p : Packet) : Int32 := (p.arrival - p.timestamp).toInt32

/-- `|D|` of one packet and the next. -/
def transitStep (p q : Packet) : UInt32 := RtcpReceiverStats.unsignedAbs (q.transit - p.transit)

/-- The filter in numbers that do not wrap: the accumulator after `p` and then `ps`. -/
def filterFrom (j : Nat) (p : Packet) : List Packet → Nat
  | [] => j
  | q :: ps => filterFrom (j + (transitStep p q).toNat - j / 16) q ps

section Jitter

variable {M : Nat} {s : RtcpReceiverStats} {p q : Packet}

theorem onPacket_started (h : s.started = true) (htransit : s.lastTransit = p.transit) :
    let t := s.onPacket (UInt16.ofNat q.e) q.timestamp q.arrival
    t.started = true ∧ t.lastTransit = q.transit ∧ t.received = s.received + 1 ∧
      t.jitterX16 = s.jitterX16 + (transitStep p q - (s.jitterX16 >>> 4)) := by
  unfold RtcpReceiverStats.onPacket transitStep
  rw [h, if_neg (by decide), ← htransit]
  exact ⟨rfl, rfl, rfl, rfl⟩

theorem filter_step {j d : Nat} (hj : j ≤ 16 * M) (hd : d ≤ M) : j + d - j / 16 ≤ 16 * M := by
  omega

theorem jitterX16_toNat (hM : M < 2 ^ 28) {j d : UInt32} (hj : j.toNat ≤ 16 * M) (hd : d.toNat ≤ M) :
    (j + (d - (j >>> 4))).toNat = j.toNat + d.toNat - j.toNat / 16 := by
  have hshift : (j >>> 4).toNat = j.toNat / 16 := by
    rw [UInt32.toNat_shiftRight, Nat.shiftRight_eq_div_pow]
    rfl
  rw [UInt32.toNat_add, UInt32.toNat_sub, hshift]
  omega

theorem jitterX16_feed (hM : M < 2 ^ 28) (hstarted : s.started = true) (htransit : s.lastTransit = p.transit)
    (hj : s.jitterX16.toNat ≤ 16 * M) {ps : List Packet} (h : (p :: ps).IsChain fun p q => (transitStep p q).toNat ≤ M) :
    (feed s ps).jitterX16.toNat = filterFrom s.jitterX16.toNat p ps ∧ (feed s ps).jitterX16.toNat ≤ 16 * M := by
  induction ps generalizing s p with
  | nil => exact ⟨rfl, hj⟩
  | cons q ps ih =>
    obtain ⟨hd, hrest⟩ := List.isChain_cons_cons.mp h
    obtain ⟨hstarted', htransit', -, hjitter⟩ := onPacket_started (q := q) hstarted htransit
    have hvalue := jitterX16_toNat hM hj hd
    rw [← hjitter] at hvalue
    have hj' := filter_step hj hd
    rw [← hvalue] at hj'
    have hall := ih hstarted' htransit' hj' hrest
    rw [hvalue] at hall
    exact hall

def filterOf : List Packet → Nat
  | [] => 0
  | p :: ps => filterFrom 0 p ps

/-- No more than the largest difference of neighbouring transits, and worked out without wrapping. -/
theorem jitter_bound (hM : M < 2 ^ 28) (ssrc : UInt32) {ps : List Packet}
    (h : ps.IsChain fun p q => (transitStep p q).toNat ≤ M) :
    (feed { ssrc := ssrc } ps).jitter.toNat ≤ M ∧ (feed { ssrc := ssrc } ps).jitterX16.toNat = filterOf ps := by
  cases ps with
  | nil =>
    have hzero : (feed { ssrc := ssrc } []).jitter = 0 := by
      change (0 : UInt32) >>> 4 = 0
      decide
    rw [hzero]
    exact ⟨Nat.zero_le M, rfl⟩
  | cons p ps =>
    obtain ⟨hvalue, hle⟩ := jitterX16_feed (s := feed { ssrc := ssrc } [p]) hM rfl rfl (Nat.zero_le _) h
    refine ⟨?_, hvalue⟩
    change ((feed (feed { ssrc := ssrc } [p]) ps).jitterX16 >>> 4).toNat ≤ M
    rw [UInt32.toNat_shiftRight, Nat.shiftRight_eq_div_pow]
    change (feed (feed { ssrc := ssrc } [p]) ps).jitterX16.toNat / 16 ≤ M
    omega

end Jitter

structure RtcpReports where
  stats : RtcpReceiverStats
  expectedPrior : UInt32 := 0
  receivedPrior : UInt32 := 0

def RtcpReports.takeFractionLost (s : RtcpReports) : UInt8 × RtcpReports :=
  let expected := s.stats.expected
  let expectedInterval := expected - s.expectedPrior
  let receivedInterval := s.stats.received - s.receivedPrior
  let s := { s with expectedPrior := expected, receivedPrior := s.stats.received }
  let lostInterval := expectedInterval.toInt32 - receivedInterval.toInt32
  if expectedInterval = 0 ∨ lostInterval ≤ 0 then (0, s)
  else
    let lost := lostInterval.toUInt32
    let (lost, expectedInterval) :=
      if lost ≥ (1 : UInt32) <<< 23 then (lost >>> 8, expectedInterval >>> 8) else (lost, expectedInterval)
    ((min ((lost <<< 8) / max expectedInterval 1) 255).toUInt8, s)

/-- The exact counts: first and highest number, packets, and the two of them at the last report. -/
structure Counts where
  first : Nat
  highest : Nat
  received : Nat
  expectedPrior : Nat := 0
  receivedPrior : Nat := 0

inductive StatsEvent where
  | packet (p : Packet)
  | report

structure Fraction where
  value : UInt8
  lost : Int
  expected : Int
deriving DecidableEq

def Counts.expected (c : Counts) : Nat := c.highest - c.first + 1

def receiver : Machine (RtcpReports × Counts) StatsEvent Fraction where
  step := fun (s, c) i =>
    match i with
    | .packet p =>
      (({ s with stats := s.stats.onPacket (UInt16.ofNat p.e) p.timestamp p.arrival },
        { c with highest := max c.highest p.e, received := c.received + 1 }), [])
    | .report =>
      let (value, t) := s.takeFractionLost
      let fraction : Fraction :=
        { value
          lost := (c.expected - c.expectedPrior : Int) - (c.received - c.receivedPrior : Nat)
          expected := c.expected - c.expectedPrior }
      ((t, { c with expectedPrior := c.expected, receivedPrior := c.received }), [fraction])

def firstPacket (ssrc : UInt32) (p : Packet) : RtcpReports × Counts :=
  ({ stats := feed { ssrc := ssrc } [p] }, { first := p.e, highest := p.e, received := 1 })

def EventTracked (t : RtcpReports × Counts) : StatsEvent → Prop
  | .packet p => Tracked t.2.highest p.e
  | .report => True

instance (t : RtcpReports × Counts) : ∀ i, Decidable (EventTracked t i)
  | .packet p => inferInstanceAs (Decidable (Tracked t.2.highest p.e))
  | .report => isTrue trivial

structure Holds (s : RtcpReports) (c : Counts) : Prop where
  agrees : Agrees c.first c.highest s.stats
  first : c.first < 2 ^ 16
  highest : c.first ≤ c.highest
  received : s.stats.received.toNat = c.received % 2 ^ 32
  expectedPrior : s.expectedPrior.toNat = c.expectedPrior % 2 ^ 32
  receivedPrior : s.receivedPrior.toNat = c.receivedPrior % 2 ^ 32
  le : c.receivedPrior ≤ c.received

/-- What `take_fraction_lost` is to return. -/
def Fraction.Right (f : Fraction) : Prop :=
  f.expected < 2 ^ 31 → -2 ^ 31 ≤ f.lost → 
    (0 < f.lost → f.lost < 2 ^ 23 → (f.value.toNat : Int) = min 255 (256 * f.lost / f.expected)) ∧ (f.lost ≤ 0 → f.value = 0)

section Fraction

variable {s : RtcpReports} {c : Counts}

theorem Holds.expected (h : Holds s c) : s.stats.expected.toNat = c.expected % 2 ^ 32 :=
  h.agrees.expected h.highest h.first

theorem toInt32_eq {x : UInt32} {lost : Int} (h : (x.toNat : Int) = lost % 2 ^ 32) (hlow : -2 ^ 31 ≤ lost) (hhigh : lost < 2 ^ 31) :
    x.toInt32.toInt = lost := by
  have hint : x.toInt32.toInt = (x.toNat : Int).bmod (2 ^ 32) := BitVec.toInt_eq_toNat_bmod _
  rw [hint, h, Int.bmod_def]
  omega

theorem takeFractionLost_right {expected received : Int} (s : RtcpReports)
    (hexpected : ((s.stats.expected - s.expectedPrior).toNat : Int) = expected % 2 ^ 32)
    (hreceived : ((s.stats.received - s.receivedPrior).toNat : Int) = received % 2 ^ 32) (hpos : 0 ≤ received) :
    Fraction.Right ⟨s.takeFractionLost.1, expected - received, expected⟩ := by
  intro hhigh hlow
  dsimp only at hhigh hlow ⊢
  unfold RtcpReports.takeFractionLost
  dsimp only
  generalize s.stats.expected - s.expectedPrior = E at hexpected ⊢
  generalize s.stats.received - s.receivedPrior = R at hreceived ⊢
  have hlost : ((E - R).toNat : Int) = (expected - received) % 2 ^ 32 := by
    have hE := E.toNat_lt
    have hR := R.toNat_lt
    rw [UInt32.toNat_sub]
    omega
  have hsigned : (E.toInt32 - R.toInt32).toInt = expected - received := toInt32_eq hlost hlow (by omega)
  have hle : E.toInt32 - R.toInt32 ≤ 0 ↔ expected - received ≤ 0 := by
    rw [Int32.le_iff_toInt_le, hsigned]
    rfl
  constructor
  · intro hsome hsmall
    have hE : (E.toNat : Int) = expected := by omega
    have hne : ¬(E = 0 ∨ E.toInt32 - R.toInt32 ≤ 0) := by
      rintro (rfl | hnone)
      · change (0 : Int) = expected at hE
        omega
      · have := hle.mp hnone
        omega
    have hcount : ((E - R).toNat : Int) = expected - received := by omega
    rw [if_neg hne, show (E.toInt32 - R.toInt32).toUInt32 = E - R from rfl]
    have hbelow : ¬(E - R ≥ (1 : UInt32) <<< 23) := by
      rw [ge_iff_le, UInt32.le_iff_toNat_le, show ((1 : UInt32) <<< 23).toNat = 2 ^ 23 from rfl]
      omega
    rw [if_neg hbelow]
    dsimp only
    have hscaled : ((E - R) <<< 8).toNat = 256 * (E - R).toNat := by
      rw [UInt32.toNat_shiftLeft, Nat.shiftLeft_eq]
      change (E - R).toNat * 2 ^ 8 % 2 ^ 32 = _
      omega
    have hdivisor : (max E 1).toNat = E.toNat := by
      rw [toNat_max]
      change max E.toNat 1 = _
      omega
    rw [UInt32.toNat_toUInt8, toNat_min, UInt32.toNat_div, hscaled, hdivisor, show (255 : UInt32).toNat = 255 from rfl,
      ← hcount, ← hE]
    have hquotient : ((256 * (E - R).toNat / E.toNat : Nat) : Int) = 256 * ((E - R).toNat : Int) / (E.toNat : Int) := by
      rw [Int.natCast_ediv, Int.natCast_mul]
      rfl
    rw [← hquotient]
    generalize 256 * (E - R).toNat / E.toNat = quotient
    omega
  · intro hnone
    rw [if_pos (Or.inr (hle.mpr hnone))]

theorem Holds.packet (h : Holds s c) {p : Packet} (htracked : Tracked c.highest p.e) :
    Holds (receiver.step (s, c) (.packet p)).1.1 (receiver.step (s, c) (.packet p)).1.2 := by
  have hreceived := h.received
  refine ⟨h.agrees.tracked p.timestamp p.arrival htracked, h.first, h.highest.trans (Nat.le_max_left _ _), ?_,
    h.expectedPrior, h.receivedPrior, Nat.le_succ_of_le h.le⟩
  dsimp only [receiver]
  unfold RtcpReceiverStats.onPacket
  rw [h.agrees.started, if_neg (by decide)]
  dsimp only
  rw [UInt32.toNat_add, hreceived, show (1 : UInt32).toNat = 1 from rfl]
  omega

theorem Holds.report (h : Holds s c) :
    Holds (receiver.step (s, c) .report).1.1 (receiver.step (s, c) .report).1.2 ∧
      ∀ f ∈ (receiver.step (s, c) .report).2, f.Right := by
  have hexpected := h.expected
  have hsame : s.takeFractionLost.2 = { s with expectedPrior := s.stats.expected, receivedPrior := s.stats.received } := by
    unfold RtcpReports.takeFractionLost
    dsimp only
    split
    · rfl
    · rfl
  dsimp only [receiver]
  rw [hsame]
  constructor
  · exact ⟨h.agrees, h.first, h.highest, h.received, hexpected, h.received, le_rfl⟩
  · intro f hf
    rw [List.mem_singleton.mp hf]
    have hprior := h.expectedPrior
    have hreceived := h.received
    have hreceivedPrior := h.receivedPrior
    have hle := h.le
    refine takeFractionLost_right s ?_ ?_ (Int.natCast_nonneg _)
    · rw [UInt32.toNat_sub]
      have hlt := s.expectedPrior.toNat_lt
      omega
    · rw [UInt32.toNat_sub]
      have hlt := s.receivedPrior.toNat_lt
      omega

theorem receiver_right (ssrc : UInt32) {p : Packet} (hp : p.e < 2 ^ 16) {is : List StatsEvent}
    (htracked : receiver.Along EventTracked (firstPacket ssrc p) is) :
    ∀ f ∈ (receiver.run (firstPacket ssrc p) is).2, f.Right := by
  have hfirst : Holds (firstPacket ssrc p).1 (firstPacket ssrc p).2 :=
    ⟨agrees_first ssrc p hp, hp, le_rfl, rfl, rfl, rfl, Nat.zero_le _⟩
  have hall := receiver.run_log_invariant (I := fun t (l : List Fraction) => Holds t.1 t.2 ∧ ∀ f ∈ l, f.Right) ?_ (l := [])
    ⟨hfirst, (by rintro _ ⟨⟩)⟩ htracked
  · exact hall.2
  · rintro ⟨s, c⟩ l i ⟨hholds, hl⟩ hi
    cases i with
    | packet q => exact ⟨hholds.packet hi, by simpa [receiver] using hl⟩
    | report =>
      obtain ⟨hnext, hright⟩ := hholds.report
      refine ⟨hnext, fun f hf => ?_⟩
      rcases List.mem_append.mp hf with hf | hf
      · exact hl f hf
      · exact hright f hf

end Fraction

/-- The jitter stays within the transit differences. Where no packet is late from before a wrap, the loss fraction is
that of the packets sent since the last report. -/
theorem rtcpReceiver_numbers (ssrc : UInt32) :
    (∀ (M : Nat) (ps : List Packet), M < 2 ^ 28 → (ps.IsChain fun p q => (transitStep p q).toNat ≤ M) →
      (feed { ssrc := ssrc } ps).jitter.toNat ≤ M ∧ (feed { ssrc := ssrc } ps).jitterX16.toNat = filterOf ps) ∧
      ∀ (p : Packet) (is : List StatsEvent), p.e < 2 ^ 16 → receiver.Along EventTracked (firstPacket ssrc p) is →
        ∀ f ∈ (receiver.run (firstPacket ssrc p) is).2, f.expected < 2 ^ 31 → -2 ^ 31 ≤ f.lost →
          (0 < f.lost → f.lost < 2 ^ 23 → (f.value.toNat : Int) = min 255 (256 * f.lost / f.expected)) ∧
            (f.lost ≤ 0 → f.value = 0) :=
  ⟨fun _ _ hM hchain => jitter_bound hM ssrc hchain, fun _ _ hp htracked f hf => receiver_right ssrc hp htracked f hf⟩

/-- Packets 65534, 65535 and then 65538, late by 160. -/
theorem rtcpReceiver_numbers_late :
    (feed {} [⟨65534, 0, 0⟩, ⟨65535, 160, 160⟩, ⟨65538, 640, 800⟩]).jitter.toNat ≤ 160 ∧
      (⟨102, 2, 5⟩ : Fraction) ∈
        (receiver.run (firstPacket 0 ⟨65534, 0, 0⟩) [.packet ⟨65535, 160, 160⟩, .packet ⟨65538, 640, 800⟩, .report]).2 ∧
      (102 : Int) = min 255 (256 * 2 / 5) := by
  obtain ⟨hjitter, hfraction⟩ := rtcpReceiver_numbers 0
  have hreport : (⟨102, 2, 5⟩ : Fraction) ∈
      (receiver.run (firstPacket 0 ⟨65534, 0, 0⟩) [.packet ⟨65535, 160, 160⟩, .packet ⟨65538, 640, 800⟩, .report]).2 := by
    decide
  refine ⟨(hjitter 160 _ (by decide) (by decide)).1, hreport, ?_⟩
  exact (hfraction _ _ (by decide) (by decide) _ hreport (by decide) (by decide)).1 (by decide) (by decide)

/-- Sequence number 65535 comes after 65536, and nothing is lost; the fraction reported is 255 of 256. -/
theorem fraction_of_straggler :
    (receiver.run (firstPacket 0 ⟨65534, 0, 0⟩) [.packet ⟨65536, 0, 0⟩, .packet ⟨65535, 0, 0⟩, .report]).2 =
      [⟨255, 0, 3⟩] ∧ ¬Fraction.Right ⟨255, 0, 3⟩ :=
  ⟨by decide, fun hright => absurd ((hright (by decide) (by decide)).2 (by decide)) (by decide)⟩

end Wave.Common.RtcpCore
