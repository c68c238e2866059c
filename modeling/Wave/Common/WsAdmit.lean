import Wave.Lib.Bytes

/-! # Admission decisions on the wire (`common/ws_admit.rs`) -/

namespace Wave.Common

open Lib

def WS_OP_ADMIT_DECISION : UInt8 := 0x81
def WS_ADMIT_ACCEPT : UInt8 := 0
def WS_ADMIT_DEC_HDR : Nat := 12

structure AdmitDecision where
  conn : UInt32
  decision : UInt8
  status : UInt16 := 0
  protocol : Bytes := []
  reason : Bytes := []
deriving DecidableEq

def AdmitDecision.accepted (d : AdmitDecision) : Bool := d.decision = WS_ADMIT_ACCEPT

def admitHeader (d : AdmitDecision) : Bytes :=
  WS_OP_ADMIT_DECISION :: Bytes.le32 d.conn ++ d.decision :: Bytes.le16 d.status ++
    Bytes.le16 (UInt16.ofNat d.protocol.length) ++ Bytes.le16 (UInt16.ofNat d.reason.length)

/-- `write_ws_admit_decision`, into a buffer that has room. -/
def writeWsAdmitDecision (d : AdmitDecision) : Option Bytes :=
  if d.protocol.length > 65535 || d.reason.length > 65535 then none
  else some (admitHeader d ++ d.protocol ++ d.reason)

def parseWsAdmitDecision : Bytes → Option AdmitDecision
  | op :: c0 :: c1 :: c2 :: c3 :: decision :: s0 :: s1 :: p0 :: p1 :: r0 :: r1 :: rest =>
    let protocolLen := (Bytes.u16le p0 p1).toNat
    let reasonLen := (Bytes.u16le r0 r1).toNat
    if op ≠ WS_OP_ADMIT_DECISION || rest.length < protocolLen + reasonLen then none
    else some
      { conn := Bytes.u32le c0 c1 c2 c3
        decision := decision
        status := Bytes.u16le s0 s1
        protocol := rest.take protocolLen
        reason := (rest.drop protocolLen).take reasonLen }
  | _ => none

theorem u16le_le16 (n : UInt16) : Bytes.u16le n.toUInt8 (n >>> 8).toUInt8 = n := Bytes.u16be_be16 n

theorem u32le_le32 (n : UInt32) :
    Bytes.u32le n.toUInt8 (n >>> 8).toUInt8 (n >>> 16).toUInt8 (n >>> 24).toUInt8 = n :=
  Bytes.u32be_be32 n

theorem parse_write {d : AdmitDecision} {bytes : Bytes} (h : writeWsAdmitDecision d = some bytes) :
    parseWsAdmitDecision bytes = some d := by
  unfold writeWsAdmitDecision at h
  split_ifs at h with hlong
  obtain ⟨hprotocol, hreason⟩ : d.protocol.length ≤ 65535 ∧ d.reason.length ≤ 65535 := by
    simpa using hlong
  cases h
  have hp : d.protocol.length % 65536 = d.protocol.length := Nat.mod_eq_of_lt (by omega)
  have hr : d.reason.length % 65536 = d.reason.length := Nat.mod_eq_of_lt (by omega)
  simp only [admitHeader, Bytes.le32, Bytes.le16, cons_append, nil_append, parseWsAdmitDecision,
    u16le_le16, u32le_le32]
  simp [hp, hr]

theorem length_write {d : AdmitDecision} {bytes : Bytes} (h : writeWsAdmitDecision d = some bytes) :
    bytes.length = WS_ADMIT_DEC_HDR + d.protocol.length + d.reason.length := by
  unfold writeWsAdmitDecision at h
  split_ifs at h
  cases h
  simp only [length_append, admitHeader, Bytes.le32, Bytes.le16, length_cons, length_nil]
  rfl

end Wave.Common
