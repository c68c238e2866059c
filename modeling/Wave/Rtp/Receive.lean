import Wave.Rtp.State

/-! # Receiving one datagram (`step_rx_one`)

`RxVerdict` names the check at which a frame left. `rx_source` takes a slot before the authentication. -/

namespace Wave.Rtp

open Lib Lib.Bytes Common.SrtpCore Common.RtpCore Common.Turn

/-- The message types the module tells apart; `bound` carries what
`dg_bound_parts` reads from the payload. -/
inductive NetMsg where
  | bound (ep : UInt8) (port : UInt16)
  | error
  | rxFrom
  | other
deriving DecidableEq

structure NetFrame where
  msg : NetMsg
  payload : Bytes

/-- A frame waiting on `net_in`, and whether the stats and the record channel take
what it leads to. -/
structure RxInput where
  frame : NetFrame
  statAccepted : Bool := true
  recordAccepted : Bool := true

inductive RxVerdict where
  | truncated
  | skipped
  | unrouted
  | malformed
  | filtered
  | noSource
  | unauthentic
  | replayed
  | unparsed
  | noRoute
  | noRecord
  | delivered
  | parked
deriving DecidableEq

/-- The media inside a datagram: unwrapped when it comes from the configured relay. -/
def unwrapRelay (c : RtpConfig) (sourceIp : UInt32) (sourcePort : UInt16) (pkt : Bytes) :
    Option Bytes :=
  if c.turnRelayIp ≠ 0 ∧ sourceIp = c.turnRelayIp ∧ sourcePort = c.turnRelayPort then
    match parse pkt with
    | .channel _ payload => some payload
    | .indication payload => some payload
    | .invalid => none
  else some pkt

def frameMedia (s : RtpState) (f : NetFrame) : Except RxVerdict Bytes :=
  if f.payload.length > RX_BUF_SIZE - NET_FRAME_HDR then .error .truncated
  else if f.msg ≠ .rxFrom ∨ f.payload.length < DG_V4_PREFIX + RTP_HEADER_SIZE then .error .skipped
  else if s.epId ≠ EP_NONE ∧ at0 f.payload 0 ≠ s.epId then .error .skipped
  else if at0 f.payload 1 ≠ DG_AF_INET then .error .skipped
  else if !s.config.outWired then .error .unrouted
  else
    let sourceIp := u32be (at0 f.payload 2) (at0 f.payload 3) (at0 f.payload 4) (at0 f.payload 5)
    let sourcePort := u16le (at0 f.payload 6) (at0 f.payload 7)
    match unwrapRelay s.config sourceIp sourcePort (f.payload.drop DG_V4_PREFIX) with
    | some media => .ok media
    | none => .error .malformed

def admitHeader (c : RtpConfig) (pkt : Bytes) : Except RxVerdict RtpHeader :=
  match rtpParse pkt with
  | none => .error .malformed
  | some h =>
    if h.payloadType ≠ c.payloadType ∨ (c.rxSsrc ≠ 0 ∧ h.ssrc ≠ c.rxSsrc) then .error .filtered
    else .ok h

def RxSsrcState.holds (r : RxSsrcState) (ssrc : UInt32) : Bool := r.valid && r.ssrc == ssrc

/-- `rx_source`: the table and the slot, taken from the free ones when no slot holds the SSRC. -/
def rxSource (sources : List RxSsrcState) (ssrc : UInt32) : Option (List RxSsrcState × Nat) :=
  match sources.findIdx? (·.holds ssrc) with
  | some i => some (sources, i)
  | none =>
    match sources.findIdx? (!·.valid) with
    | some i => some (sources.set i { ssrc := ssrc, valid := true }, i)
    | none => none

/-- The index the receiver gives a packet: the rollover estimated from its slot. -/
def rxIndex (source : RxSsrcState) (seq : UInt16) : UInt64 :=
  packetIndex (estimateRoc (source.replay.highest?.getD seq.toUInt64) seq).toUInt32 seq

variable (sdk : SdkCrypto)

/-- The SRTP part of the path: the table afterwards, and the packet in clear with
its header as it parses then. -/
def authenticate (k : SrtpKeys) (sources : List RxSsrcState) (i : Nat) (h : RtpHeader)
    (pkt : Bytes) : List RxSsrcState × Except RxVerdict (Bytes × RtpHeader) :=
  if !k.complete then (sources, .ok (pkt, h))
  else
    let source := sources.getD i {}
    let index := rxIndex source h.seq
    match k.unprotectPacket sdk h.ssrc index pkt with
    | (none, _) => (sources, .error .unauthentic)
    | (some plainLen, plain) =>
      let window := source.replay.accept index
      let sources := sources.set i { source with replay := window.1 }
      if !window.2 then (sources, .error .replayed)
      else
        match rtpParse (plain.take plainLen) with
        | none => (sources, .error .unparsed)
        | some h => (sources, .ok (plain.take plainLen, h))

/-- The gap a sequence number leaves behind the last one, when it counts as loss. -/
def lossOf (source : RxSsrcState) (seq : UInt16) : UInt32 :=
  if source.valid then
    if seq ≠ source.lastSeq + 1 then
      let gap := seq - source.lastSeq - 1
      if gap > 0 ∧ gap < 1000 then gap.toUInt32 else 0
    else 0
  else 0

/-- Accounting, the stats record and the receive record of an admitted packet. -/
def deliver (s : RtpState) (i : Nat) (pkt : Bytes) (h : RtpHeader) (inp : RxInput) :
    RtpState × List RtpEvent × RxVerdict :=
  let source := s.rxSources.getD i {}
  let s := { s with
    packetsLost := s.packetsLost + lossOf source h.seq
    rxSources := s.rxSources.set i { source with lastSeq := h.seq }
    packetsReceived := s.packetsReceived + 1 }
  let stat := emitStat s (putRtcpStatRxMeta h.seq h.timestamp h.ssrc) inp.statAccepted
  let s := stat.1
  let mid := rtpMid pkt h
  if s.config.routeTable ≠ [] ∧ (resolve s.config.routeTable mid h.payloadType h.ssrc).isNone then
    (s, stat.2, .noRoute)
  else
    let info : RtpReceiveMeta :=
      { seq := h.seq, timestamp := h.timestamp, ssrc := h.ssrc, payloadType := h.payloadType
        marker := h.marker, codec := s.config.codec }
    let (recordType, head) :=
      if mid = [] then (RecordType.rtpRxMeta, some (putRtpRxMeta info))
      else (RecordType.rtpRxMetaMid, putRtpRxMetaMid info mid)
    match head with
    | none => (s, stat.2, .noRecord)
    | some head =>
      let copyLen := min (h.payloadEnd - h.payloadStart) RX_MAX_PAYLOAD
      let bytes := head ++ slice pkt h.payloadStart (h.payloadStart + copyLen)
      if inp.recordAccepted then (s, stat.2 ++ [RtpEvent.record recordType bytes], .delivered)
      else ({ s with pendingOut := some { recordType, bytes } }, stat.2, .parked)

def stepRxOne (s : RtpState) (inp : RxInput) : RtpState × List RtpEvent × RxVerdict :=
  match frameMedia s inp.frame with
  | .error .truncated => ({ s with rxTruncated := s.rxTruncated + 1 }, [], .truncated)
  | .error .unrouted => ({ s with rxUnrouted := s.rxUnrouted + 1 }, [], .unrouted)
  | .error v => (s, [], v)
  | .ok pkt =>
    match admitHeader s.config pkt with
    | .error v => (s, [], v)
    | .ok h =>
      match rxSource s.rxSources h.ssrc with
      | none => (s, [], .noSource)
      | some (sources, i) =>
        match authenticate sdk s.config.keys sources i h pkt with
        | (sources, .error v) => ({ s with rxSources := sources }, [], v)
        | (sources, .ok (plain, h)) => deliver { s with rxSources := sources } i plain h inp

/-- The drain loop of `step_rx`: a parked record stops it. -/
def drainRx : (budget : Nat) → RtpState → List RxInput → RtpState × List RtpEvent
  | 0, s, _ => (s, [])
  | _, s, [] => (s, [])
  | budget + 1, s, inp :: rest =>
    let r := stepRxOne sdk s inp
    if r.2.2 = .parked then (r.1, r.2.1)
    else
      let after := drainRx budget r.1 rest
      (after.1, r.2.1 ++ after.2)

/-- `step_rx`: a parked record is offered again before anything else is read. -/
def stepRx (s : RtpState) (retryAccepted : Bool) (netIn : List RxInput) :
    RtpState × List RtpEvent :=
  match s.config.outWired, s.pendingOut with
  | true, some p =>
    if !retryAccepted then (s, [])
    else
      let r := drain { s with pendingOut := none } netIn
      (r.1, .record p.recordType p.bytes :: r.2)
  | _, _ => drain s netIn
where
  drain (s : RtpState) (netIn : List RxInput) : RtpState × List RtpEvent :=
    if !s.config.netInWired then (s, []) else drainRx sdk RX_DRAIN_BUDGET s netIn

end Wave.Rtp
