import Wave.Common.SrtpCore
import Wave.Common.RtpCore
import Wave.Common.Turn

/-! # The state of the `rtp` module (`foundation/rtp/mod.rs`)

`RtpConfig` is what `module_new` leaves and no step writes again; `RtpState` adds what the steps change. -/

namespace Wave.Rtp

open Lib Lib.Bytes Common.SrtpCore Common.RtpCore

def NET_FRAME_HDR : Nat := 3
def DG_V4_PREFIX : Nat := 8
def DG_AF_INET : UInt8 := 4
def NET_BUF_SIZE : Nat := 2048
def TX_MTU : Nat := 1200
def PKT_BUF_SIZE : Nat := RTP_HEADER_SIZE + TX_MTU + SRTP_AUTH_TAG_LEN
def MAX_RX_SSRC : Nat := 4
def RX_MAX_PAYLOAD : Nat := 1472 - RTP_HEADER_SIZE
def RX_BUF_SIZE : Nat := NET_FRAME_HDR + DG_V4_PREFIX + RTP_HEADER_SIZE + RX_MAX_PAYLOAD
def RX_DRAIN_BUDGET : Nat := 4
def EP_NONE : UInt8 := 0xFF

structure SrtpKeys where
  srtpKey : FixedBytes 16 := .zero 16
  srtpSalt : FixedBytes 12 := .zero 12
  srtpKeySet : Bool := false
  srtpSaltSet : Bool := false
  srtpAuthKey : FixedBytes 20 := .zero 20
  srtpCmSalt : FixedBytes 14 := .zero 14
  srtpAuthSet : Bool := false
  srtpCmSaltSet : Bool := false
  srtpProfile : UInt8 := 0
  dtlsSrtpExport : FixedBytes 56 := .zero 56
  dtlsSrtpExportSet : Bool := false
  dtlsSrtpCmExport : FixedBytes 60 := .zero 60
  dtlsSrtpCmExportSet : Bool := false
  dtlsSrtpRole : UInt8 := 0

namespace SrtpKeys

def cmReady (k : SrtpKeys) : Bool :=
  k.srtpProfile = 1 && k.srtpKeySet && k.srtpAuthSet && k.srtpCmSaltSet

def gcmReady (k : SrtpKeys) : Bool :=
  k.srtpProfile = 0 && k.srtpKeySet && k.srtpSaltSet

/-- Packets are protected at all: one of the two profiles is complete. -/
def complete (k : SrtpKeys) : Bool := k.cmReady || k.gcmReady

theorem cmReady_gcmReady (k : SrtpKeys) (h : k.cmReady = true) : k.gcmReady = false := by
  simp only [cmReady, and_eq_true, decide_eq_true_eq] at h
  simp [gcmReady, h.1.1.1]

variable (sdk : SdkCrypto)

def installDtlsSrtpExport (k : SrtpKeys) : SrtpKeys :=
  if !k.dtlsSrtpExportSet then k
  else
    let (keyOff, saltOff) := if k.dtlsSrtpRole = 0 then (0, 32) else (16, 44)
    let masterKey := slice k.dtlsSrtpExport.1 keyOff (keyOff + 16)
    let masterSalt := slice k.dtlsSrtpExport.1 saltOff (saltOff + 12)
    { k with
      srtpKey := ⟨(deriveAeadKeySalt sdk masterKey masterSalt 0 2).1, length_derive ..⟩
      srtpSalt := ⟨(deriveAeadKeySalt sdk masterKey masterSalt 0 2).2, length_derive ..⟩
      srtpKeySet := true
      srtpSaltSet := true
      srtpProfile := 0 }

def installDtlsSrtpCmExport (k : SrtpKeys) : SrtpKeys :=
  if !k.dtlsSrtpCmExportSet then k
  else
    let (keyOff, saltOff) := if k.dtlsSrtpRole = 0 then (0, 32) else (16, 46)
    let masterKey := slice k.dtlsSrtpCmExport.1 keyOff (keyOff + 16)
    let masterSalt := slice k.dtlsSrtpCmExport.1 saltOff (saltOff + 14)
    { k with
      srtpKey := ⟨(deriveAesCmSessionKeys sdk masterKey masterSalt).encKey, length_derive ..⟩
      srtpAuthKey := ⟨(deriveAesCmSessionKeys sdk masterKey masterSalt).authKey, length_derive ..⟩
      srtpCmSalt := ⟨(deriveAesCmSessionKeys sdk masterKey masterSalt).sessionSalt, length_derive ..⟩
      srtpKeySet := true
      srtpAuthSet := true
      srtpCmSaltSet := true
      srtpProfile := 1 }

/-- What `send_rtp_packet` protects and the length it sends: `none` where `unwrap_or(0)` gives zero. -/
def protectPacket (k : SrtpKeys) (ssrc : UInt32) (index : UInt64) (buf : Bytes) (plainLen : Nat) :
    Option Nat × Bytes :=
  if k.cmReady then
    protectAesCmSha180 sdk k.srtpKey.1 k.srtpAuthKey.1 k.srtpCmSalt.1 ssrc index buf
      RTP_HEADER_SIZE plainLen
  else if k.gcmReady then
    protectAes128Gcm sdk k.srtpKey.1 k.srtpSalt.1 ssrc index buf RTP_HEADER_SIZE plainLen
  else (some plainLen, buf)

/-- The check `step_rx_one` makes of a packet under a complete profile. -/
def unprotectPacket (k : SrtpKeys) (ssrc : UInt32) (index : UInt64) (pkt : Bytes) :
    Option Nat × Bytes :=
  if k.cmReady then
    unprotectAesCmSha180 sdk k.srtpKey.1 k.srtpAuthKey.1 k.srtpCmSalt.1 ssrc index pkt
      RTP_HEADER_SIZE
  else unprotectAes128Gcm sdk k.srtpKey.1 k.srtpSalt.1 ssrc index pkt RTP_HEADER_SIZE

end SrtpKeys

structure RtpConfig where
  ctrlMode : Bool := false
  netInWired : Bool := true
  netOutWired : Bool := true
  outWired : Bool := true
  statsWired : Bool := false
  codec : UInt8 := 0
  payloadType : UInt8 := 0
  localPort : UInt16 := 5004
  ssrc : UInt32 := 0x46585254
  /-- Zero admits any inbound SSRC. -/
  rxSsrc : UInt32 := 0
  turnRelayIp : UInt32 := 0
  turnRelayPort : UInt16 := 3478
  turnPeerIp : UInt32 := 0
  turnPeerPort : UInt16 := 5004
  turnChannel : UInt16 := 0
  routeTable : List RtpRoute := []
  keys : SrtpKeys := {}

inductive RtpPhase where
  | init
  | bindWait
  | running
  | error
  | idle
deriving DecidableEq

structure RxSsrcState where
  ssrc : UInt32 := 0
  lastSeq : UInt16 := 0
  valid : Bool := false
  replay : SrtpReplay := {}
deriving DecidableEq

/-- A receive record a full channel refused, parked for the next step. -/
structure PendingOut where
  recordType : RecordType
  bytes : Bytes

/-- What `DgAuthority` still says of the configured peer: its name, if it is one, and its port. -/
structure PeerName where
  name : Option Bytes := none
  port : UInt16 := 0

structure RtpState where
  config : RtpConfig
  phase : RtpPhase := .init
  epId : UInt8 := EP_NONE
  peerIp : UInt32 := 0
  peerPort : UInt16 := 5004
  peer : PeerName := {}
  seqNum : UInt16 := 0
  timestamp : UInt32 := 0
  txMarker : Bool := false
  rxSources : List RxSsrcState := List.replicate MAX_RX_SSRC {}
  packetsReceived : UInt32 := 0
  packetsLost : UInt32 := 0
  rxTruncated : UInt32 := 0
  rxUnrouted : UInt32 := 0
  statsDropped : UInt32 := 0
  packetsSent : UInt32 := 0
  octetsSent : UInt32 := 0
  pendingOut : Option PendingOut := none

/-- One call of a protection: the material and the packet identity the caller hands over. -/
structure ProtectCall where
  keys : SrtpKeys
  ssrc : UInt32
  index : UInt64

/-- What a step does to the world. `protect` is no message: it records that a
packet was handed to the SRTP core. -/
inductive RtpEvent where
  | protect (call : ProtectCall)
  | bind (port : UInt16)
  | closeEndpoint (ep : UInt8)
  | sendTo (ep : UInt8) (ip : UInt32) (port : UInt16) (packet : Bytes)
  | sendToName (ep : UInt8) (name : Bytes) (port : UInt16) (packet : Bytes)
  | stat (record : Bytes)
  | record (recordType : RecordType) (bytes : Bytes)

/-- `emit_stat`: best effort, counted when the channel refuses. -/
def emitStat (s : RtpState) (record : Bytes) (accepted : Bool) : RtpState × List RtpEvent :=
  if !s.config.statsWired then (s, [])
  else if accepted then (s, [.stat record])
  else ({ s with statsDropped := s.statsDropped + 1 }, [])

/-- The state `module_new` leaves: any configuration, any configured peer. -/
def moduleNew (config : RtpConfig) (peerIp : UInt32) (peerPort : UInt16) (peer : PeerName) :
    RtpState :=
  { config, peerIp, peerPort, peer, phase := if config.ctrlMode then .idle else .init }

end Wave.Rtp
