import Mathlib.Order.MinMax
import Mathlib.Algebra.Ring.Nat

/-! # When the next report is due (`common/rtcp_core.rs`)

The interval grows with the session, in 32 bits: `rtcpIntervalMs_share_iff` says for which sessions that is enough. -/

namespace Wave.Common.RtcpCore

/-- `u32::saturating_mul`. -/
def saturatingMul (a b : UInt32) : UInt32 := if a.toNat * b.toNat < 2 ^ 32 then a * b else 0xFFFFFFFF

/-- `u64::saturating_mul`. -/
def saturatingMul64 (a b : UInt64) : UInt64 := if a.toNat * b.toNat < 2 ^ 64 then a * b else 0xFFFFFFFFFFFFFFFF

def RTCP_MIN_INTERVAL_MS : UInt32 := 5000

def AVG_PACKET_BITS : UInt32 := (28 + 72) * 8

/-- The pool the participant is in and its share: 25% for the senders and 75% for the others, unless the senders are
more than a quarter. -/
def rtcpPool (members senders : UInt32) (weSent : Bool) (bandwidthBps : UInt32) : UInt32 × UInt32 :=
  let members := max members 1
  let senders := min senders members
  let rtcpBw := bandwidthBps / 20
  if senders > 0 ∧ saturatingMul senders 4 ≤ members then
    if weSent then (senders, rtcpBw / 4) else (members - senders, rtcpBw - rtcpBw / 4)
  else (members, rtcpBw)

def rtcpIntervalMs (members senders : UInt32) (weSent : Bool) (bandwidthBps : UInt32) : UInt32 :=
  let (n, bw) := rtcpPool members senders weSent bandwidthBps
  if bw = 0 then RTCP_MIN_INTERVAL_MS
  else
    let numerator := saturatingMul (saturatingMul AVG_PACKET_BITS n) 1000
    max (numerator / max bw 1) RTCP_MIN_INTERVAL_MS

def RECIP_E_MINUS_1_5_Q16 : UInt64 := 53794

def rtcpRandomiseInterval (intervalMs r : UInt32) : UInt32 :=
  let factor := (32768 : UInt64) + (r >>> 16).toUInt64
  let scaled := saturatingMul64 intervalMs.toUInt64 factor >>> 16
  let corrected := saturatingMul64 scaled RECIP_E_MINUS_1_5_Q16 >>> 16
  max (min corrected 0xFFFFFFFF).toUInt32 1

section Interval

variable (members senders bandwidthBps : UInt32) (weSent : Bool)

theorem saturatingMul_toNat (a b : UInt32) : (saturatingMul a b).toNat = min (a.toNat * b.toNat) (2 ^ 32 - 1) := by
  unfold saturatingMul
  split
  next h =>
    rw [UInt32.toNat_mul, Nat.mod_eq_of_lt h]
    omega
  next h =>
    rw [show (0xFFFFFFFF : UInt32).toNat = 2 ^ 32 - 1 from rfl]
    omega

theorem toNat_max (a b : UInt32) : (max a b).toNat = max a.toNat b.toNat := by
  rw [show max a b = if a ≤ b then b else a from rfl, Nat.max_def]
  split
  next h => rw [if_pos (UInt32.le_iff_toNat_le.mp h)]
  next h => rw [if_neg (mt UInt32.le_iff_toNat_le.mpr h)]

theorem toNat_min (a b : UInt32) : (min a b).toNat = min a.toNat b.toNat := by
  rw [show min a b = if a ≤ b then a else b from rfl, Nat.min_def]
  split
  next h => rw [if_pos (UInt32.le_iff_toNat_le.mp h)]
  next h => rw [if_neg (mt UInt32.le_iff_toNat_le.mpr h)]

theorem numerator_toNat (n : UInt32) :
    (saturatingMul (saturatingMul AVG_PACKET_BITS n) 1000).toNat = min (800000 * n.toNat) (2 ^ 32 - 1) := by
  rw [saturatingMul_toNat, saturatingMul_toNat, show AVG_PACKET_BITS.toNat = 800 from rfl,
    show (1000 : UInt32).toNat = 1000 from rfl]
  omega

theorem rtcpIntervalMs_toNat (h : 0 < (rtcpPool members senders weSent bandwidthBps).2) :
    (rtcpIntervalMs members senders weSent bandwidthBps).toNat =
      max (min (800000 * (rtcpPool members senders weSent bandwidthBps).1.toNat) (2 ^ 32 - 1) /
        (rtcpPool members senders weSent bandwidthBps).2.toNat) 5000 := by
  unfold rtcpIntervalMs
  generalize rtcpPool members senders weSent bandwidthBps = pool at h ⊢
  obtain ⟨n, bw⟩ := pool
  dsimp only at h ⊢
  have hpos : 0 < bw.toNat := UInt32.lt_iff_toNat_lt.mp h
  have hne : bw ≠ 0 := by
    rintro rfl
    cases hpos
  rw [if_neg hne, toNat_max, UInt32.toNat_div, toNat_max, numerator_toNat, show (1 : UInt32).toNat = 1 from rfl,
    Nat.max_eq_left hpos]
  rfl

theorem rtcpIntervalMs_min : RTCP_MIN_INTERVAL_MS ≤ rtcpIntervalMs members senders weSent bandwidthBps := by
  unfold rtcpIntervalMs
  dsimp only
  split
  · exact UInt32.le_refl _
  · rw [UInt32.le_iff_toNat_le, toNat_max]
    exact Nat.le_max_right _ _

/-- No bits are cut off, or the share is enough for the shortest interval, or rounding makes up for what is cut off.
-/
def KeepsShare (n bw : Nat) : Prop :=
  n ≤ 5368 ∨ 800000 * n ≤ 5001 * bw ∨ 800000 * n ≤ 2 ^ 32 - 1 - (2 ^ 32 - 1) % bw + bw

theorem share_iff {n bw : Nat} (hbw : 0 < bw) :
    1000 * 800 * n ≤ (max (min (800000 * n) (2 ^ 32 - 1) / bw) 5000 + 1) * bw ↔ KeepsShare n bw := by
  have hsplit : (max (min (800000 * n) (2 ^ 32 - 1) / bw) 5000 + 1) * bw =
      max ((min (800000 * n) (2 ^ 32 - 1) / bw + 1) * bw) (5001 * bw) := by
    rw [← Nat.add_max_add_right, ← Nat.mul_max_mul_right]
  have hround : ∀ a : Nat, (a / bw + 1) * bw = a - a % bw + bw := by
    intro a
    have hdiv := Nat.div_add_mod a bw
    rw [Nat.add_mul, Nat.one_mul, Nat.mul_comm]
    omega
  rw [hsplit, hround, le_max_iff]
  unfold KeepsShare
  by_cases hsmall : n ≤ 5368
  · have hall : min (800000 * n) (2 ^ 32 - 1) = 800000 * n := by omega
    have hmod : 800000 * n % bw < bw := Nat.mod_lt _ hbw
    rw [hall]
    exact iff_of_true (Or.inl (by omega)) (Or.inl hsmall)
  · have hall : min (800000 * n) (2 ^ 32 - 1) = 2 ^ 32 - 1 := by omega
    rw [hall]
    omega

end Interval

theorem saturatingMul64_toNat {a b : UInt64} (h : a.toNat * b.toNat < 2 ^ 64) : (saturatingMul64 a b).toNat = a.toNat * b.toNat := by
  rw [saturatingMul64, if_pos h, UInt64.toNat_mul, Nat.mod_eq_of_lt h]

theorem toNat_min64 (a b : UInt64) : (min a b).toNat = min a.toNat b.toNat := by
  rw [show min a b = if a ≤ b then a else b from rfl, Nat.min_def]
  split
  next h => rw [if_pos (UInt64.le_iff_toNat_le.mp h)]
  next h => rw [if_neg (mt UInt64.le_iff_toNat_le.mpr h)]

theorem rtcpRandomiseInterval_toNat (intervalMs r : UInt32) :
    (rtcpRandomiseInterval intervalMs r).toNat =
      max (min (intervalMs.toNat * (32768 + r.toNat / 65536) / 65536 * 53794 / 65536) (2 ^ 32 - 1)) 1 := by
  have hinterval := intervalMs.toNat_lt
  have hr := r.toNat_lt
  have hfactor : ((32768 : UInt64) + (r >>> 16).toUInt64).toNat = 32768 + r.toNat / 65536 := by
    rw [UInt64.toNat_add, UInt32.toNat_toUInt64, UInt32.toNat_shiftRight, Nat.shiftRight_eq_div_pow]
    change (32768 + r.toNat / 65536) % 2 ^ 64 = _
    omega
  have hproduct : intervalMs.toNat * (32768 + r.toNat / 65536) ≤ (2 ^ 32 - 1) * 98303 :=
    Nat.mul_le_mul (by omega) (by omega)
  have hshift : ∀ x : UInt64, (x >>> 16).toNat = x.toNat / 65536 := by
    intro x
    rw [UInt64.toNat_shiftRight, Nat.shiftRight_eq_div_pow]
    rfl
  have hscaled : (saturatingMul64 intervalMs.toUInt64 ((32768 : UInt64) + (r >>> 16).toUInt64) >>> 16).toNat =
      intervalMs.toNat * (32768 + r.toNat / 65536) / 65536 := by
    rw [hshift, saturatingMul64_toNat, hfactor, UInt32.toNat_toUInt64]
    rw [hfactor, UInt32.toNat_toUInt64]
    omega
  unfold rtcpRandomiseInterval
  dsimp only
  generalize saturatingMul64 intervalMs.toUInt64 ((32768 : UInt64) + (r >>> 16).toUInt64) >>> 16 = scaled at hscaled ⊢
  rw [toNat_max, UInt64.toNat_toUInt32, toNat_min64, hshift, saturatingMul64_toNat, hscaled]
  · rw [show RECIP_E_MINUS_1_5_Q16.toNat = 53794 from rfl, show (0xFFFFFFFF : UInt64).toNat = 2 ^ 32 - 1 from rfl,
      show (1 : UInt32).toNat = 1 from rfl, Nat.mod_eq_of_lt (by omega)]
  · rw [hscaled, show RECIP_E_MINUS_1_5_Q16.toNat = 53794 from rfl]
    omega

theorem rtcpRandomiseInterval_bound (intervalMs r : UInt32) :
    rtcpRandomiseInterval intervalMs r ≠ 0 ∧
      41 * min intervalMs.toNat (2 ^ 32 - 1) ≤ 100 * ((rtcpRandomiseInterval intervalMs r).toNat + 2) := by
  have hvalue := rtcpRandomiseInterval_toNat intervalMs r
  have hinterval := intervalMs.toNat_lt
  -- half of the interval at least, then 53794/65536 of that
  have hhalf : intervalMs.toNat * 32768 ≤ intervalMs.toNat * (32768 + r.toNat / 65536) :=
    Nat.mul_le_mul_left _ (Nat.le_add_right _ _)
  constructor
  · rintro hzero
    rw [hzero] at hvalue
    change 0 = _ at hvalue
    omega
  · rw [hvalue]
    omega

/-- The reports keep to their share, and the interval to its least length and to its draw, just in the sessions that
`KeepsShare`. -/
theorem rtcpIntervalMs_share_iff (members senders bandwidthBps : UInt32) (weSent : Bool) :
    ((0 < (rtcpPool members senders weSent bandwidthBps).2 →
        1000 * 800 * (rtcpPool members senders weSent bandwidthBps).1.toNat ≤
          ((rtcpIntervalMs members senders weSent bandwidthBps).toNat + 1) *
            (rtcpPool members senders weSent bandwidthBps).2.toNat) ∧
      RTCP_MIN_INTERVAL_MS ≤ rtcpIntervalMs members senders weSent bandwidthBps ∧
      ∀ r, rtcpRandomiseInterval (rtcpIntervalMs members senders weSent bandwidthBps) r ≠ 0 ∧
        41 * min (rtcpIntervalMs members senders weSent bandwidthBps).toNat (2 ^ 32 - 1) ≤
          100 * ((rtcpRandomiseInterval (rtcpIntervalMs members senders weSent bandwidthBps) r).toNat + 2)) ↔
      (0 < (rtcpPool members senders weSent bandwidthBps).2 →
        KeepsShare (rtcpPool members senders weSent bandwidthBps).1.toNat
          (rtcpPool members senders weSent bandwidthBps).2.toNat) := by
  generalize hpool : rtcpPool members senders weSent bandwidthBps = pool
  generalize hT : rtcpIntervalMs members senders weSent bandwidthBps = T
  have hshare : 0 < pool.2 →
      (1000 * 800 * pool.1.toNat ≤ (T.toNat + 1) * pool.2.toNat ↔ KeepsShare pool.1.toNat pool.2.toNat) := by
    intro hbw
    subst hpool hT
    rw [rtcpIntervalMs_toNat members senders bandwidthBps weSent hbw]
    exact share_iff (UInt32.lt_iff_toNat_lt.mp hbw)
  constructor
  · rintro ⟨hbound, -, -⟩ hbw
    exact (hshare hbw).mp (hbound hbw)
  · intro hkeeps
    have hmin : RTCP_MIN_INTERVAL_MS ≤ T := hT ▸ rtcpIntervalMs_min _ _ _ _
    exact ⟨fun hbw => (hshare hbw).mpr (hkeeps hbw), hmin, fun r => rtcpRandomiseInterval_bound T r⟩

/-- A million receivers on two megabits send more than a hundred times their share. -/
theorem rtcpIntervalMs_storm :
    ¬∀ (members senders bandwidthBps : UInt32) (weSent : Bool),
      0 < (rtcpPool members senders weSent bandwidthBps).2 →
        1000 * 800 * (rtcpPool members senders weSent bandwidthBps).1.toNat ≤
          ((rtcpIntervalMs members senders weSent bandwidthBps).toNat + 1) *
            (rtcpPool members senders weSent bandwidthBps).2.toNat := by
  intro h
  exact absurd (h 1000000 0 2000000 false (by decide)) (by decide)

end Wave.Common.RtcpCore
