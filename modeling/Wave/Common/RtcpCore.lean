import Mathlib.Data.List.Induction
import Mathlib.Algebra.Ring.Nat

/-! # RTCP receiver statistics (`common/rtcp_core.rs`)

`extended_max_iff` feeds a receiver the low halves of true sequence numbers, reordered and repeated. -/

namespace Wave.Common.RtcpCore

structure RtcpReceiverStats where
  ssrc : UInt32 := 0
  cycles : UInt32 := 0
  baseSeq : UInt32 := 0
  maxSeq : UInt16 := 0
  received : UInt32 := 0
  jitterX16 : UInt32 := 0
  lastTransit : Int32 := 0
  started : Bool := false

namespace RtcpReceiverStats

def extendedMax (s : RtcpReceiverStats) : UInt32 := s.cycles ||| s.maxSeq.toUInt32

def expected (s : RtcpReceiverStats) : UInt32 := s.extendedMax - s.baseSeq + 1

def cumulativeLost (s : RtcpReceiverStats) : Int32 := s.expected.toInt32 - s.received.toInt32

def jitter (s : RtcpReceiverStats) : UInt32 := s.jitterX16 >>> 4

/-- `i32::unsigned_abs`. -/
def unsignedAbs (x : Int32) : UInt32 := UInt32.ofNat x.toInt.natAbs

def onPacket (s : RtcpReceiverStats) (seq : UInt16) (rtpTimestamp arrival : UInt32) : RtcpReceiverStats :=
  if !s.started then
    { s with
      started := true
      baseSeq := seq.toUInt32
      maxSeq := seq
      received := 1
      lastTransit := (arrival - rtpTimestamp).toInt32 }
  else
    let transit := (arrival - rtpTimestamp).toInt32
    let d := unsignedAbs (transit - s.lastTransit)
    { s with
      received := s.received + 1
      cycles := if seq < s.maxSeq ∧ s.maxSeq - seq > 0x8000 then s.cycles + 0x10000 else s.cycles
      maxSeq := if seq > s.maxSeq ∨ seq - s.maxSeq < 0x8000 then seq else s.maxSeq
      lastTransit := transit
      jitterX16 := s.jitterX16 + (d - (s.jitterX16 >>> 4)) }

end RtcpReceiverStats

structure Packet where
  e : Nat
  timestamp : UInt32
  arrival : UInt32

def feed (s : RtcpReceiverStats) (ps : List Packet) : RtcpReceiverStats :=
  ps.foldl (fun s p => s.onPacket (UInt16.ofNat p.e) p.timestamp p.arrival) s

def highest (m : Nat) (ps : List Packet) : Nat := ps.foldl (fun m p => max m p.e) m

def Each (P : Nat → Nat → Prop) : Nat → List Packet → Prop
  | _, [] => True
  | m, p :: ps => P m p.e ∧ Each P (max m p.e) ps

instance decidableEach (P : Nat → Nat → Prop) [∀ m e, Decidable (P m e)] : ∀ m ps, Decidable (Each P m ps)
  | _, [] => isTrue trivial
  | m, p :: ps => @instDecidableAnd (P m p.e) _ _ (decidableEach P (max m p.e) ps)

def Near (m e : Nat) : Prop := e < m + 2 ^ 15 ∧ m < e + 2 ^ 15

instance (m e : Nat) : Decidable (Near m e) := inferInstanceAs (Decidable (_ ∧ _))

def Straggler (m e : Nat) : Prop := e < m ∧ m % 2 ^ 16 < e % 2 ^ 16

instance (m e : Nat) : Decidable (Straggler m e) := inferInstanceAs (Decidable (_ ∧ _))

/-- Behind the highest number `m`, the 16 bits of `e` say where it is. -/
def Tracked (m e : Nat) : Prop :=
  if e < m then e % 2 ^ 16 ≤ m % 2 ^ 16 ∧ m % 2 ^ 16 ≤ e % 2 ^ 16 + 2 ^ 15
  else e / 2 ^ 16 = m / 2 ^ 16 ∨ e / 2 ^ 16 = m / 2 ^ 16 + 1 ∧ e % 2 ^ 16 + 2 ^ 15 < m % 2 ^ 16

instance (m e : Nat) : Decidable (Tracked m e) := inferInstanceAs (Decidable (ite _ _ _))

/-- The state stands for the true maximum `m`, of packets from `base` on. -/
structure Agrees (base m : Nat) (s : RtcpReceiverStats) : Prop where
  started : s.started = true
  baseSeq : s.baseSeq.toNat = base
  cycles : s.cycles.toNat = m / 2 ^ 16 * 2 ^ 16 % 2 ^ 32
  maxSeq : s.maxSeq.toNat = m % 2 ^ 16

section Step

variable {base m e : Nat} {s : RtcpReceiverStats}

theorem extendedMax_toNat {k : Nat} (h : s.cycles.toNat = 2 ^ 16 * k) :
    s.extendedMax.toNat = s.cycles.toNat + s.maxSeq.toNat := by
  unfold RtcpReceiverStats.extendedMax
  rw [UInt32.toNat_or, UInt16.toNat_toUInt32, h]
  exact (Nat.two_pow_add_eq_or_of_lt s.maxSeq.toNat_lt k).symm

theorem Agrees.extendedMax (h : Agrees base m s) : s.extendedMax.toNat = m % 2 ^ 32 := by
  have hc := h.cycles
  rw [extendedMax_toNat (k := m / 2 ^ 16 % 2 ^ 16) (by omega), hc, h.maxSeq]
  omega

theorem Agrees.expected (h : Agrees base m s) (hle : base ≤ m) (hbase : base < 2 ^ 16) :
    s.expected.toNat = (m - base + 1) % 2 ^ 32 := by
  unfold RtcpReceiverStats.expected
  rw [UInt32.toNat_add, UInt32.toNat_sub, h.extendedMax, h.baseSeq, show (1 : UInt32).toNat = 1 from rfl]
  omega

theorem ofNat_toNat (e : Nat) : (UInt16.ofNat e).toNat = e % 2 ^ 16 := UInt16.toNat_ofNat'

theorem newCycle_iff (hmax : s.maxSeq.toNat = m % 2 ^ 16) (hahead : e < m + 2 ^ 15) (hbehind : m < e + 2 ^ 15) :
    UInt16.ofNat e < s.maxSeq ∧ s.maxSeq - UInt16.ofNat e > 0x8000 ↔ m / 2 ^ 16 < e / 2 ^ 16 := by
  rw [gt_iff_lt, UInt16.lt_iff_toNat_lt, UInt16.lt_iff_toNat_lt, UInt16.toNat_sub, ofNat_toNat, hmax,
    show (0x8000 : UInt16).toNat = 2 ^ 15 from rfl]
  omega

theorem newMax_iff (hmax : s.maxSeq.toNat = m % 2 ^ 16) (hahead : e < m + 2 ^ 15) (hbehind : m < e + 2 ^ 15) :
    UInt16.ofNat e > s.maxSeq ∨ UInt16.ofNat e - s.maxSeq < 0x8000 ↔ m ≤ e ∨ Straggler m e := by
  unfold Straggler
  rw [gt_iff_lt, UInt16.lt_iff_toNat_lt, UInt16.lt_iff_toNat_lt, UInt16.toNat_sub, ofNat_toNat, hmax,
    show (0x8000 : UInt16).toNat = 2 ^ 15 from rfl]
  omega

theorem Agrees.onPacket_halves (h : Agrees base m s) (ts arrival : UInt32) (hahead : e < m + 2 ^ 15)
    (hbehind : m < e + 2 ^ 15) :
    (s.onPacket (UInt16.ofNat e) ts arrival).started = true ∧
    (s.onPacket (UInt16.ofNat e) ts arrival).baseSeq = s.baseSeq ∧
    (s.onPacket (UInt16.ofNat e) ts arrival).cycles.toNat = max m e / 2 ^ 16 * 2 ^ 16 % 2 ^ 32 ∧
    (s.onPacket (UInt16.ofNat e) ts arrival).maxSeq.toNat =
      if Straggler m e then e % 2 ^ 16 else max m e % 2 ^ 16 := by
  unfold RtcpReceiverStats.onPacket
  rw [h.started, if_neg (by decide)]
  refine ⟨rfl, rfl, ?_, ?_⟩
  · dsimp only
    rw [ite_congr (propext (newCycle_iff h.maxSeq hahead hbehind)) (fun _ => rfl) (fun _ => rfl)]
    split
    · rw [UInt32.toNat_add, h.cycles, show (0x10000 : UInt32).toNat = 2 ^ 16 from rfl]
      omega
    · rw [h.cycles]
      omega
  · dsimp only
    rw [ite_congr (propext (newMax_iff h.maxSeq hahead hbehind)) (fun _ => rfl) (fun _ => rfl)]
    by_cases hlate : Straggler m e
    · rw [if_pos hlate, if_pos (Or.inr hlate), ofNat_toNat]
    · rw [if_neg hlate]
      by_cases hle : m ≤ e
      · rw [if_pos (Or.inl hle), ofNat_toNat, Nat.max_eq_right hle]
      · rw [if_neg (not_or.mpr ⟨hle, hlate⟩), h.maxSeq, Nat.max_eq_left (by omega)]

theorem tracked_of_near (hnear : Near m e) (hlate : ¬Straggler m e) : Tracked m e := by
  obtain ⟨hahead, hbehind⟩ := hnear
  unfold Straggler at hlate
  unfold Tracked
  split <;> omega

theorem Agrees.tracked (h : Agrees base m s) (ts arrival : UInt32)
    (htracked : Tracked m e) : Agrees base (max m e) (s.onPacket (UInt16.ofNat e) ts arrival) := by
  have hcycle : UInt16.ofNat e < s.maxSeq ∧ s.maxSeq - UInt16.ofNat e > 0x8000 ↔ e % 2 ^ 16 + 2 ^ 15 < m % 2 ^ 16 := by
    rw [gt_iff_lt, UInt16.lt_iff_toNat_lt, UInt16.lt_iff_toNat_lt, UInt16.toNat_sub, ofNat_toNat, h.maxSeq,
      show (0x8000 : UInt16).toNat = 2 ^ 15 from rfl]
    omega
  have hmax : UInt16.ofNat e > s.maxSeq ∨ UInt16.ofNat e - s.maxSeq < 0x8000 ↔
      m % 2 ^ 16 ≤ e % 2 ^ 16 ∨ e % 2 ^ 16 + 2 ^ 15 < m % 2 ^ 16 := by
    rw [gt_iff_lt, UInt16.lt_iff_toNat_lt, UInt16.lt_iff_toNat_lt, UInt16.toNat_sub, ofNat_toNat, h.maxSeq,
      show (0x8000 : UInt16).toNat = 2 ^ 15 from rfl]
    omega
  have hcycles := h.cycles
  have hseq := h.maxSeq
  unfold Tracked at htracked
  unfold RtcpReceiverStats.onPacket
  rw [h.started, if_neg (by decide)]
  refine ⟨rfl, h.baseSeq, ?_, ?_⟩
  · dsimp only
    rw [ite_congr (propext hcycle) (fun _ => rfl) (fun _ => rfl)]
    split
    · rw [UInt32.toNat_add, hcycles, show (0x10000 : UInt32).toNat = 2 ^ 16 from rfl]
      split at htracked <;> omega
    · rw [hcycles]
      split at htracked <;> omega
  · dsimp only
    rw [ite_congr (propext hmax) (fun _ => rfl) (fun _ => rfl)]
    split
    · rw [ofNat_toNat]
      split at htracked <;> omega
    · rw [hseq]
      split at htracked <;> omega

theorem Agrees.onPacket (h : Agrees base m s) (ts arrival : UInt32) (hahead : e < m + 2 ^ 15) (hbehind : m < e + 2 ^ 15)
    (hlate : ¬Straggler m e) : Agrees base (max m e) (s.onPacket (UInt16.ofNat e) ts arrival) :=
  h.tracked ts arrival (tracked_of_near ⟨hahead, hbehind⟩ hlate)

theorem Agrees.straggler (h : Agrees base m s) (ts arrival : UInt32) (hahead : e < m + 2 ^ 15) (hbehind : m < e + 2 ^ 15)
    (hlate : Straggler m e) :
    (s.onPacket (UInt16.ofNat e) ts arrival).extendedMax.toNat ≠ max m e % 2 ^ 32 := by
  obtain ⟨_, _, hcycles, hmax⟩ := h.onPacket_halves ts arrival hahead hbehind
  rw [if_pos hlate] at hmax
  rw [extendedMax_toNat (k := max m e / 2 ^ 16 % 2 ^ 16) (by omega), hcycles, hmax]
  unfold Straggler at hlate
  omega

end Step

theorem feed_concat (s : RtcpReceiverStats) (ps : List Packet) (p : Packet) :
    feed s (ps ++ [p]) = (feed s ps).onPacket (UInt16.ofNat p.e) p.timestamp p.arrival := by
  simp [feed]

theorem highest_concat (m : Nat) (ps : List Packet) (p : Packet) : highest m (ps ++ [p]) = max (highest m ps) p.e := by
  simp [highest]

theorem le_highest (m : Nat) (ps : List Packet) : m ≤ highest m ps := by
  induction ps using List.reverseRecOn with
  | nil => exact Nat.le_refl m
  | append_singleton ps p ih =>
    rw [highest_concat]
    omega

/-- The extended maximum and the packets expected, after packets whose first is `p₀`. -/
def Exact (s : RtcpReceiverStats) (p₀ : Packet) (ps : List Packet) : Prop :=
  s.extendedMax.toNat = highest p₀.e ps % 2 ^ 32 ∧ s.expected.toNat = (highest p₀.e ps - p₀.e + 1) % 2 ^ 32

theorem agrees_first (ssrc : UInt32) (p₀ : Packet) (h₀ : p₀.e < 2 ^ 16) :
    Agrees p₀.e p₀.e (feed { ssrc := ssrc } [p₀]) := by
  have hseq : (UInt16.ofNat p₀.e).toNat = p₀.e := by
    rw [ofNat_toNat]
    omega
  refine ⟨rfl, ?_, ?_, ?_⟩
  · exact hseq
  · change 0 = _
    omega
  · change (UInt16.ofNat p₀.e).toNat = _
    omega

theorem each_append {P : Nat → Nat → Prop} {m : Nat} {ps qs : List Packet} :
    Each P m (ps ++ qs) ↔ Each P m ps ∧ Each P (highest m ps) qs := by
  induction ps generalizing m with
  | nil => simp [Each, highest]
  | cons p ps ih =>
    rw [List.cons_append, Each, Each, ih, and_assoc]
    rfl

theorem each_front {P : Nat → Nat → Prop} {m : Nat} {pre ps : List Packet} (hp : pre <+: ps) (h : Each P m ps) :
    Each P m pre := by
  obtain ⟨rest, rfl⟩ := hp
  exact (each_append.mp h).1

theorem agrees_feed (ssrc : UInt32) (p₀ : Packet) (h₀ : p₀.e < 2 ^ 16) {ps : List Packet} (hnear : Each Near p₀.e ps)
    (hlate : Each (fun m e => ¬Straggler m e) p₀.e ps) :
    Agrees p₀.e (highest p₀.e ps) (feed { ssrc := ssrc } (p₀ :: ps)) := by
  induction ps using List.reverseRecOn with
  | nil => exact agrees_first ssrc p₀ h₀
  | append_singleton ps p ih =>
    obtain ⟨hnear, ⟨hahead, hbehind⟩, _⟩ := each_append.mp hnear
    obtain ⟨hlate, hp, _⟩ := each_append.mp hlate
    rw [← List.cons_append, feed_concat, highest_concat]
    exact (ih hnear hlate).onPacket p.timestamp p.arrival hahead hbehind hp

/-- For true sequence numbers near their maximum: the extended maximum is exact after each packet if and only if none
comes after a wrap it was sent before. -/
theorem extended_max_iff (ssrc : UInt32) (p₀ : Packet) (ps : List Packet) (h₀ : p₀.e < 2 ^ 16)
    (hnear : Each Near p₀.e ps) :
    (∀ pre, pre <+: ps → Exact (feed { ssrc := ssrc } (p₀ :: pre)) p₀ pre) ↔
      Each (fun m e => ¬Straggler m e) p₀.e ps := by
  constructor
  · intro hexact
    induction ps using List.reverseRecOn with
    | nil => trivial
    | append_singleton ps p ih =>
      obtain ⟨hnear, ⟨hahead, hbehind⟩, _⟩ := each_append.mp hnear
      have hnone := ih hnear fun pre hp => hexact pre (hp.trans (List.prefix_append _ _))
      refine each_append.mpr ⟨hnone, fun hlate => ?_, trivial⟩
      have hmax := (hexact (ps ++ [p]) (List.prefix_refl _)).1
      rw [← List.cons_append, feed_concat, highest_concat] at hmax
      exact (agrees_feed ssrc p₀ h₀ hnear hnone).straggler p.timestamp p.arrival hahead hbehind hlate hmax
  · intro hlate pre hp
    have hagrees := agrees_feed ssrc p₀ h₀ (each_front hp hnear) (each_front hp hlate)
    exact ⟨hagrees.extendedMax, hagrees.expected (le_highest _ _) h₀⟩

def Packet.numbered (e : Nat) : Packet := { e := e, timestamp := 0, arrival := 0 }

/-- Reordered and repeated within a cycle and across a wrap, with no packet late from before it. -/
theorem extended_max_wrap :
    Exact (feed {} ([65534, 65533, 65534, 65537, 65536, 65540].map Packet.numbered)) (Packet.numbered 65534)
      ([65533, 65534, 65537, 65536, 65540].map Packet.numbered) :=
  (extended_max_iff 0 (Packet.numbered 65534) ([65533, 65534, 65537, 65536, 65540].map Packet.numbered) (by decide)
    (by decide)).mpr (by decide) _ (List.prefix_refl _)

/-- 65535 comes after 65536: the receiver reports 131071 as the highest, a cycle that was never sent. -/
theorem extended_max_straggler :
    Each Near 65534 ([65536, 65535].map Packet.numbered) ∧ highest 65534 ([65536, 65535].map Packet.numbered) = 65536 ∧
      (feed {} ([65534, 65536, 65535].map Packet.numbered)).extendedMax = 131071 ∧
      (feed {} ([65534, 65536, 65535].map Packet.numbered)).expected = 65538 := by
  decide

end Wave.Common.RtcpCore
