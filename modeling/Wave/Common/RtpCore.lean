import Wave.Lib.Bytes

/-! # The RTP header, the route table and the receive record

`common/rtp_core.rs`, `common/rtp_route.rs` and `common/rtp_wire.rs`. -/

namespace Wave.Common.RtpCore

open Lib Lib.Bytes

def RTP_VERSION : UInt8 := 2
def RTP_HEADER_SIZE : Nat := 12

structure RtpHeader where
  payloadType : UInt8
  marker : Bool
  seq : UInt16
  timestamp : UInt32
  ssrc : UInt32
  payloadStart : Nat
  payloadEnd : Nat

/-- The end of the header extension that starts at `start`, if the X bit asks for one. -/
def skipExtension (pkt : Bytes) (b0 : UInt8) (start : Nat) : Option Nat :=
  if b0 &&& 0x10 = 0 then some start
  else if pkt.length < start + 4 then none
  else
    let words := (at0 pkt (start + 2)).toNat * 256 + (at0 pkt (start + 3)).toNat
    let total := 4 + words * 4
    if pkt.length ≤ start + total then none else some (start + total)

/-- The end of the payload once the padding the P bit announces is taken off. -/
def stripPadding (pkt : Bytes) (b0 : UInt8) (start : Nat) : Option Nat :=
  if b0 &&& 0x20 = 0 then some pkt.length
  else
    let pad := (at0 pkt (pkt.length - 1)).toNat
    if pad = 0 ∨ pad > pkt.length - start then none else some (pkt.length - pad)

/-- Where the payload lies: after the CSRC list and the extension, before the padding. -/
def payloadRange (pkt : Bytes) : Option (Nat × Nat) := do
  let b0 := at0 pkt 0
  let start ← skipExtension pkt b0 (RTP_HEADER_SIZE + (b0 &&& 0x0F).toNat * 4)
  let stop ← stripPadding pkt b0 start
  if stop = start then none else some (start, stop)

def rtpParse (pkt : Bytes) : Option RtpHeader :=
  let b0 := at0 pkt 0
  if pkt.length < RTP_HEADER_SIZE then none
  else if (b0 >>> 6) &&& 0x03 ≠ RTP_VERSION then none
  else if pkt.length ≤ RTP_HEADER_SIZE + (b0 &&& 0x0F).toNat * 4 then none
  else (payloadRange pkt).map fun (start, stop) =>
    { payloadType := at0 pkt 1 &&& 0x7F
      marker := at0 pkt 1 &&& 0x80 ≠ 0
      seq := u16be (at0 pkt 2) (at0 pkt 3)
      timestamp := u32be (at0 pkt 4) (at0 pkt 5) (at0 pkt 6) (at0 pkt 7)
      ssrc := u32be (at0 pkt 8) (at0 pkt 9) (at0 pkt 10) (at0 pkt 11)
      payloadStart := start
      payloadEnd := stop }

/-- The element walk of `rtp_mid`: `fuel` bounds the `while at < end` loop. -/
def midWalk (pkt : Bytes) (stop : Nat) : (fuel : Nat) → (at_ : Nat) → Bytes
  | 0, _ => []
  | fuel + 1, at_ =>
    if at_ ≥ stop then []
    else
      let descriptor := at0 pkt at_
      if descriptor = 0 then midWalk pkt stop fuel (at_ + 1)
      else
        let id := descriptor >>> 4
        if id = 15 then []
        else
          let len := (descriptor &&& 0x0F).toNat + 1
          if at_ + 1 + len > stop then []
          else if id = 10 then slice pkt (at_ + 1) (at_ + 1 + len)
          else midWalk pkt stop fuel (at_ + 1 + len)

def rtpMid (pkt : Bytes) (header : RtpHeader) : Bytes :=
  if pkt.length < RTP_HEADER_SIZE ∨ header.payloadStart > pkt.length then []
  else
    let ext := RTP_HEADER_SIZE + (at0 pkt 0 &&& 0x0F).toNat * 4
    if at0 pkt 0 &&& 0x10 = 0 ∨ ext + 4 > header.payloadStart then []
    else
      let profile := u16be (at0 pkt ext) (at0 pkt (ext + 1))
      let bytes := (u16be (at0 pkt (ext + 2)) (at0 pkt (ext + 3))).toNat * 4
      let start := ext + 4
      if profile ≠ 0xBEDE ∨ start + bytes > pkt.length then []
      else midWalk pkt (start + bytes) (bytes + 1) start

structure RtpRoute where
  mid : Bytes
  payloadType : UInt8
  ssrc : UInt32

/-- Whether a route admits the packet: zero SSRC and empty MID are wildcards. -/
def RtpRoute.admits (r : RtpRoute) (mid : Bytes) (payloadType : UInt8) (ssrc : UInt32) : Bool :=
  r.payloadType = payloadType && (r.ssrc = 0 || r.ssrc = ssrc) && (r.mid = [] || r.mid = mid)

def RtpRoute.specificity (r : RtpRoute) : Nat :=
  (if r.ssrc ≠ 0 then 1 else 0) + (if r.mid ≠ [] then 1 else 0)

def resolve (routes : List RtpRoute) (mid : Bytes) (payloadType : UInt8) (ssrc : UInt32) :
    Option RtpRoute :=
  (routes.foldl (fun (best : Option RtpRoute × Nat) r =>
    if r.admits mid payloadType ssrc && r.specificity ≥ best.2 then (some r, r.specificity)
    else best) (none, 0)).1

def RTP_MID_MAX : Nat := 32

inductive RecordType where
  | rtpRxMeta
  | rtpRxMetaMid
deriving DecidableEq

structure RtpReceiveMeta where
  seq : UInt16
  timestamp : UInt32
  ssrc : UInt32
  payloadType : UInt8
  marker : Bool
  codec : UInt8

/-- `put_rtp_rx_meta`, into a buffer that has room for it. -/
def putRtpRxMeta (m : RtpReceiveMeta) : Bytes :=
  le16 m.seq ++ le32 m.timestamp ++ le32 m.ssrc ++
    [m.payloadType, if m.marker then 1 else 0, m.codec]

def putRtpRxMetaMid (m : RtpReceiveMeta) (mid : Bytes) : Option Bytes :=
  if mid = [] ∨ mid.length > RTP_MID_MAX then none
  else some (putRtpRxMeta m ++ [UInt8.ofNat mid.length] ++ mid ++
    List.replicate (RTP_MID_MAX - mid.length) 0)

def putRtcpStatRxMeta (seq : UInt16) (rtpTs ssrc : UInt32) : Bytes :=
  [3] ++ le16 seq ++ le32 rtpTs ++ le32 ssrc

def putRtcpStatTx (packets octets rtpTs : UInt32) : Bytes :=
  [2] ++ le32 packets ++ le32 octets ++ le32 rtpTs

end Wave.Common.RtpCore
