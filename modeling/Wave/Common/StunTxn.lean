import Wave.Common.StunCore

/-! # The client's transaction (`common/stun_txn.rs`)

Times are milliseconds of a 64-bit clock. -/

namespace Wave.Common.Stun

open Lib Lib.Bytes Common.Turn

def STUN_RTO_MS : Nat := 500
def STUN_RC : Nat := 7
def STUN_RM : Nat := 16
def U64_MAX : Nat := 18446744073709551615

inductive StunTxnAction where
  | send (attempt : Nat)
  | wait
  | timedOut
deriving DecidableEq

structure StunTxn where
  id : FixedBytes 12
  sent : Nat
  dueMs : Nat
  done : Bool

namespace StunTxn

def start (id : FixedBytes 12) (nowMs : Nat) : StunTxn :=
  { id := id, sent := 0, dueMs := nowMs, done := false }

/-- Doubling, except behind the last transmission. -/
def intervalMs (sent : Nat) : Nat :=
  if sent ≥ STUN_RC then STUN_RM * STUN_RTO_MS
  else min (STUN_RTO_MS * 2 ^ min (sent - 1) 16) U64_MAX

def poll (t : StunTxn) (nowMs : Nat) : StunTxnAction :=
  if t.done then .wait
  else if nowMs < t.dueMs then .wait
  else if t.sent ≥ STUN_RC then .timedOut
  else .send (t.sent + 1)

def sentAt (t : StunTxn) (nowMs : Nat) : StunTxn :=
  if t.done ∨ t.sent ≥ STUN_RC then t
  else { t with sent := t.sent + 1, dueMs := min (nowMs + intervalMs (t.sent + 1)) U64_MAX }

/-- In full and without an early return. -/
def matches_ (t : StunTxn) (id : Bytes) : Bool :=
  if id.length ≠ t.id.1.length then false
  else (xorWith t.id.1 id).foldl (· ||| ·) 0 = 0

/-- The response ends the transaction, unless it had ended. -/
def accept (t : StunTxn) : Option StunTxn :=
  if t.done then none else some { t with done := true }

theorem matches_iff {t : StunTxn} {id : Bytes} : t.matches_ id = true ↔ id = t.id.1 := by
  unfold matches_
  split_ifs with hlen
  · exact ⟨False.elim, fun h => absurd (congrArg List.length h) hlen⟩
  · rw [decide_eq_true_eq, foldl_or_eq_zero, xorWith_eq_zero (not_not.mp hlen).symm]
    exact ⟨fun h => h.2.symm, fun h => ⟨rfl, h.symm⟩⟩

end StunTxn

/-- The odd multiplier keeps counters apart. -/
def stunTxnId (counter seed : UInt64) : FixedBytes 12 :=
  ⟨be64 (counter * 0x9E3779B97F4A7C15 + seed) ++ be32 counter.toUInt32, rfl⟩

def STUN_RES_OK : UInt8 := 0
def STUN_RES_TIMEOUT : UInt8 := 1
def STUN_RES_ERROR : UInt8 := 2
def STUN_RES_NO_ADDRESS : UInt8 := 3
def STUN_RESULT_LEN : Nat := 9

structure StunResult where
  status : UInt8
  ip : UInt32
  port : UInt16
  code : UInt16

/-- The address big-endian, the two integers little-endian. -/
def writeStunResult (r : StunResult) (room : Nat) : Option Bytes :=
  if room < STUN_RESULT_LEN then none else some ([r.status] ++ be32 r.ip ++ le16 r.port ++ le16 r.code)

def parseStunResult (buf : Bytes) : Option StunResult :=
  if buf.length ≠ STUN_RESULT_LEN then none
  else some
    { status := at0 buf 0, ip := u32be (at0 buf 1) (at0 buf 2) (at0 buf 3) (at0 buf 4)
      port := u16le (at0 buf 5) (at0 buf 6), code := u16le (at0 buf 7) (at0 buf 8) }

theorem parse_writeStunResult {r : StunResult} {room : Nat} {bytes : Bytes} (h : writeStunResult r room = some bytes) :
    parseStunResult bytes = some r := by
  unfold writeStunResult at h
  split_ifs at h
  cases h
  have hip : u32be (r.ip >>> 24).toUInt8 (r.ip >>> 16).toUInt8 (r.ip >>> 8).toUInt8 r.ip.toUInt8 = r.ip := u32be_be32 _
  have hport : u16le r.port.toUInt8 (r.port >>> 8).toUInt8 = r.port := u16be_be16 _
  have hcode : u16le r.code.toUInt8 (r.code >>> 8).toUInt8 = r.code := u16be_be16 _
  exact congrArg some (by rw [StunResult.mk.injEq]; exact ⟨rfl, hip, hport, hcode⟩)

end Wave.Common.Stun
