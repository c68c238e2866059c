import Wave.Rtp.State

/-! # Sending one RTP packet (`send_rtp_packet`, `advance_after_send`)

The packet index a send hands over is the 16-bit sequence number and nothing else (`sendRtpPacket_cases`). -/

namespace Wave.Rtp

open Lib Lib.Bytes Common.SrtpCore Common.RtpCore Common.Turn

variable (sdk : SdkCrypto)

/-- Bytes 0 to 11: V=2, marker and payload type, sequence, timestamp, SSRC. -/
def rtpHeader (s : RtpState) : Bytes :=
  [0x80, (s.config.payloadType &&& 0x7F) ||| (if s.txMarker then 0x80 else 0)] ++
    be16 s.seqNum ++ be32 s.timestamp ++ be32 s.config.ssrc

@[simp] theorem length_rtpHeader (s : RtpState) : (rtpHeader s).length = RTP_HEADER_SIZE := rfl

/-- `pkt_buf` with the packet in it; what lies behind the packet is never read. -/
def packetBuffer (s : RtpState) (payload : Bytes) : Bytes :=
  rtpHeader s ++ (payload ++ List.replicate (PKT_BUF_SIZE - (RTP_HEADER_SIZE + payload.length)) 0)

def turnTxn (s : RtpState) : Bytes :=
  be16 s.seqNum ++ be32 s.config.ssrc ++ be32 s.timestamp ++ [s.config.payloadType, 0]

structure Envelope where
  wire : Bytes
  destIp : UInt32
  destPort : UInt16

/-- The packet as it goes on the wire; `none` when the wrapped packet does not fit `pkt_buf`. -/
def envelope (s : RtpState) (buf : Bytes) (total : Nat) : Option Envelope :=
  let c := s.config
  if c.turnRelayIp ≠ 0 ∧ c.turnPeerIp ≠ 0 then
    let media := buf.take total
    let written :=
      if c.turnChannel ≠ 0 then writeChannelData c.turnChannel media buf
      else writeSendIndication (turnTxn s) c.turnPeerIp c.turnPeerPort media buf
    written.map fun w =>
      { wire := w.out.take w.pos, destIp := c.turnRelayIp, destPort := c.turnRelayPort }
  else some { wire := buf.take total, destIp := s.peerIp, destPort := s.peerPort }

/-- The datagram offered to the network module, by name while only a name is known. -/
def offerDatagram (s : RtpState) (e : Envelope) : List RtpEvent :=
  match s.peer.name with
  | some name =>
    if e.destIp = 0 ∧ s.epId ≠ EP_NONE then [.sendToName s.epId name s.peer.port e.wire]
    else offerTo s e
  | none => offerTo s e
where
  offerTo (s : RtpState) (e : Envelope) : List RtpEvent :=
    if s.epId ≠ EP_NONE ∧ DG_V4_PREFIX + e.wire.length + NET_FRAME_HDR ≤ NET_BUF_SIZE then
      [.sendTo s.epId e.destIp e.destPort e.wire]
    else []

def advanceAfterSend (s : RtpState) (payloadLen : Nat) (statAccepted : Bool) :
    RtpState × List RtpEvent :=
  let s := { s with
    seqNum := s.seqNum + 1
    packetsSent := s.packetsSent + 1
    octetsSent := s.octetsSent + UInt32.ofNat payloadLen }
  emitStat s (putRtcpStatTx s.packetsSent s.octetsSent s.timestamp) statAccepted

def protectCalls (s : RtpState) : List RtpEvent :=
  if s.config.keys.complete then
    [.protect { keys := s.config.keys, ssrc := s.config.ssrc, index := s.seqNum.toUInt64 }]
  else []

def sendRtpPacket (s : RtpState) (payload : Bytes) (statAccepted : Bool) :
    RtpState × List RtpEvent :=
  if payload.length = 0 ∨ payload.length > TX_MTU then (s, [])
  else
    let plainLen := RTP_HEADER_SIZE + payload.length
    let sealed := s.config.keys.protectPacket sdk s.config.ssrc s.seqNum.toUInt64
      (packetBuffer s payload) plainLen
    let total := sealed.1.getD 0
    if total = 0 then (s, protectCalls s)
    else
      match envelope s sealed.2 total with
      | none => (s, protectCalls s)
      | some e =>
        let advanced := advanceAfterSend s payload.length statAccepted
        (advanced.1, protectCalls s ++ offerDatagram s e ++ advanced.2)

/-- A packet cut from the media stream, with its timestamp, and whether the stats channel has room after it. -/
structure TxPacket where
  timestamp : UInt32
  marker : Bool
  payload : Bytes
  statAccepted : Bool := true

def sendTx (s : RtpState) (p : TxPacket) : RtpState × List RtpEvent :=
  sendRtpPacket sdk { s with timestamp := p.timestamp, txMarker := p.marker } p.payload
    p.statAccepted

/-- `step_tx` over the packets its records yield. -/
def stepTx (s : RtpState) : List TxPacket → RtpState × List RtpEvent
  | [] => ({ s with txMarker := false }, [])
  | p :: ps =>
    let r := sendTx sdk s p
    let rest := stepTx r.1 ps
    (rest.1, r.2 ++ rest.2)

def SrtpKeys.tagLen (k : SrtpKeys) : Nat :=
  if k.cmReady then SRTP_AES_CM_TAG_LEN else if k.gcmReady then SRTP_AUTH_TAG_LEN else 0

theorem SrtpKeys.tagLen_le (k : SrtpKeys) : k.tagLen ≤ SRTP_AUTH_TAG_LEN := by
  unfold SrtpKeys.tagLen SRTP_AES_CM_TAG_LEN SRTP_AUTH_TAG_LEN
  split_ifs <;> omega

/-- A sendable packet wrapped for the configured relay fits `pkt_buf`; without a relay every packet does. -/
def EnvelopeFits (c : RtpConfig) (payloadLen : Nat) : Prop :=
  let total := RTP_HEADER_SIZE + payloadLen + c.keys.tagLen
  c.turnRelayIp ≠ 0 → c.turnPeerIp ≠ 0 →
    if c.turnChannel ≠ 0 then
      channelNumberIsValid c.turnChannel ∧ CHANNEL_DATA_HEADER_LEN + total ≤ PKT_BUF_SIZE
    else sendIndicationLen total ≤ PKT_BUF_SIZE

instance (c : RtpConfig) (n : Nat) : Decidable (EnvelopeFits c n) := by
  unfold EnvelopeFits; infer_instance

/-- `send_rtp_packet` takes payloads of 1 to `TX_MTU` bytes and ignores others. -/
def Sendable (payload : Bytes) : Prop := 0 < payload.length ∧ payload.length ≤ TX_MTU

instance (payload : Bytes) : Decidable (Sendable payload) := by
  unfold Sendable; infer_instance

private theorem replicate_room {n m : Nat} (h : n ≤ m) :
    List.replicate m (0 : UInt8) = List.replicate n 0 ++ List.replicate (m - n) 0 := by
  rw [List.replicate_append_replicate]; congr 1; omega

section Protect

variable {k : SrtpKeys} {ssrc : UInt32} {index : UInt64} {header payload : Bytes} {m : Nat}

theorem protectPacket_cm (hk : k.cmReady = true) (hh : header.length = RTP_HEADER_SIZE)
    (hp : payload.length ≤ TX_MTU) (hm : SRTP_AES_CM_TAG_LEN ≤ m) :
    let cipher := aesCmXor sdk k.srtpKey.1 k.srtpCmSalt.1 ssrc index payload
    k.protectPacket sdk ssrc index (header ++ (payload ++ List.replicate m 0))
        (RTP_HEADER_SIZE + payload.length) =
      (some (RTP_HEADER_SIZE + payload.length + SRTP_AES_CM_TAG_LEN),
        header ++ cipher ++ (cmTag sdk k.srtpAuthKey.1 index (header ++ cipher) ++
          List.replicate (m - SRTP_AES_CM_TAG_LEN) 0)) := by
  intro cipher
  rw [SrtpKeys.protectPacket, if_pos hk, replicate_room hm, ← hh]
  apply protectAesCmSha180_eq _ _ _ _ _ _ _ _ _ _ length_replicate
  rw [hh]
  simp only [RTP_HEADER_SIZE, AUTH_INPUT_MAX, TX_MTU] at hp ⊢
  omega

theorem protectPacket_gcm (hk : k.gcmReady = true) (hh : header.length = RTP_HEADER_SIZE)
    (hm : SRTP_AUTH_TAG_LEN ≤ m) :
    let box := sdk.gcmEncrypt k.srtpKey.1 (gcmNonce k.srtpSalt.1 ssrc index) header payload
    k.protectPacket sdk ssrc index (header ++ (payload ++ List.replicate m 0))
        (RTP_HEADER_SIZE + payload.length) =
      (some (RTP_HEADER_SIZE + payload.length + SRTP_AUTH_TAG_LEN),
        header ++ box.1 ++ (box.2 ++ List.replicate (m - SRTP_AUTH_TAG_LEN) 0)) := by
  intro box
  have hcm : ¬ k.cmReady = true := fun h => by
    rw [SrtpKeys.cmReady_gcmReady k h] at hk; cases hk
  rw [SrtpKeys.protectPacket, if_neg hcm, if_pos hk, replicate_room hm, ← hh]
  apply protectAes128Gcm_eq _ _ _ _ _ _ _ _ _ length_replicate
  rw [hh]
  decide

end Protect

theorem protectPacket_packetBuffer (s : RtpState) {payload : Bytes} (h : Sendable payload) :
    ∃ buf, s.config.keys.protectPacket sdk s.config.ssrc s.seqNum.toUInt64
        (packetBuffer s payload) (RTP_HEADER_SIZE + payload.length) =
      (some (RTP_HEADER_SIZE + payload.length + s.config.keys.tagLen), buf) ∧
      buf.length = PKT_BUF_SIZE := by
  have hsize : PKT_BUF_SIZE = RTP_HEADER_SIZE + TX_MTU + SRTP_AUTH_TAG_LEN := rfl
  have htags : SRTP_AES_CM_TAG_LEN ≤ SRTP_AUTH_TAG_LEN := by decide
  have hle := h.2
  unfold SrtpKeys.tagLen packetBuffer
  by_cases hcm : s.config.keys.cmReady = true
  · rw [protectPacket_cm sdk hcm (length_rtpHeader s) h.2 (by omega), if_pos hcm]
    refine ⟨_, rfl, ?_⟩
    simp only [length_append, length_rtpHeader, length_aesCmXor, length_cmTag,
      length_replicate]
    omega
  · by_cases hgcm : s.config.keys.gcmReady = true
    · rw [protectPacket_gcm sdk hgcm (length_rtpHeader s) (by omega), if_neg hcm, if_pos hgcm]
      refine ⟨_, rfl, ?_⟩
      simp only [length_append, length_rtpHeader, sdk.length_gcmEncrypt, sdk.length_gcmTag,
        length_replicate, SRTP_AUTH_TAG_LEN] at hsize ⊢
      omega
    · rw [SrtpKeys.protectPacket, if_neg hcm, if_neg hgcm, if_neg hcm, if_neg hgcm]
      refine ⟨_, rfl, ?_⟩
      simp only [length_append, length_rtpHeader, length_replicate]
      omega

theorem envelope_isSome_iff (s : RtpState) {payload buf : Bytes} (h : Sendable payload)
    (hbuf : buf.length = PKT_BUF_SIZE) :
    (envelope s buf (RTP_HEADER_SIZE + payload.length + s.config.keys.tagLen)).isSome ↔
      EnvelopeFits s.config payload.length := by
  have htag := s.config.keys.tagLen_le
  have hmax : buf.length ≤ U16_MAX := by rw [hbuf]; decide
  have hsize : PKT_BUF_SIZE = RTP_HEADER_SIZE + TX_MTU + SRTP_AUTH_TAG_LEN := rfl
  have htake : (buf.take (RTP_HEADER_SIZE + payload.length + s.config.keys.tagLen)).length =
      RTP_HEADER_SIZE + payload.length + s.config.keys.tagLen := by
    have hle := h.2
    rw [length_take]; omega
  simp only [envelope, EnvelopeFits]
  by_cases hrelay : s.config.turnRelayIp ≠ 0 ∧ s.config.turnPeerIp ≠ 0
  · rw [if_pos hrelay, Option.isSome_map]
    simp only [ne_eq, hrelay.1, hrelay.2, not_false_eq_true, true_imp_iff]
    split_ifs
    · rw [writeSendIndication_isSome _ _ _ rfl hmax, htake, hbuf]
    · rw [writeChannelData_isSome hmax, htake, hbuf]
  · rw [if_neg hrelay]
    simp only [Option.isSome_some, true_iff]
    intro h1 h2
    exact absurd ⟨h1, h2⟩ hrelay

def RtpEvent.call? : RtpEvent → Option ProtectCall
  | .protect call => some call
  | _ => none

def calls (events : List RtpEvent) : List ProtectCall := events.filterMap RtpEvent.call?

@[simp] theorem calls_nil : calls [] = [] := rfl

@[simp] theorem calls_append (a b : List RtpEvent) : calls (a ++ b) = calls a ++ calls b :=
  filterMap_append

@[simp] theorem calls_emitStat (s : RtpState) (record : Bytes) (accepted : Bool) :
    calls (emitStat s record accepted).2 = [] := by
  unfold emitStat
  split_ifs <;> rfl

@[simp] theorem calls_offerDatagram (s : RtpState) (e : Envelope) :
    calls (offerDatagram s e) = [] := by
  unfold offerDatagram offerDatagram.offerTo
  cases s.peer.name <;> dsimp only <;> split_ifs <;> rfl

def callOf (s : RtpState) : ProtectCall :=
  { keys := s.config.keys, ssrc := s.config.ssrc, index := s.seqNum.toUInt64 }

theorem calls_protectCalls (s : RtpState) :
    calls (protectCalls s) = if s.config.keys.complete then [callOf s] else [] := by
  unfold protectCalls
  split_ifs <;> rfl

/-- The sequence advances exactly when the packet fits its envelope, and the
packet is handed over either way. -/
theorem sendRtpPacket_cases (s : RtpState) (payload : Bytes) (accepted : Bool) :
    (¬ Sendable payload ∧ sendRtpPacket sdk s payload accepted = (s, [])) ∨
    (Sendable payload ∧ ¬ EnvelopeFits s.config payload.length ∧
      sendRtpPacket sdk s payload accepted = (s, protectCalls s)) ∨
    (Sendable payload ∧ EnvelopeFits s.config payload.length ∧
      ∃ e, sendRtpPacket sdk s payload accepted =
        ((advanceAfterSend s payload.length accepted).1, protectCalls s ++ offerDatagram s e ++
          (advanceAfterSend s payload.length accepted).2)) := by
  by_cases hs : Sendable payload
  · obtain ⟨buf, hbuf, hlen⟩ := protectPacket_packetBuffer sdk s hs
    have hsend : sendRtpPacket sdk s payload accepted =
        match envelope s buf (RTP_HEADER_SIZE + payload.length + s.config.keys.tagLen) with
        | none => (s, protectCalls s)
        | some e => ((advanceAfterSend s payload.length accepted).1, protectCalls s ++
            offerDatagram s e ++ (advanceAfterSend s payload.length accepted).2) := by
      have hrange : ¬ (payload.length = 0 ∨ payload.length > TX_MTU) := by
        obtain ⟨h1, h2⟩ := hs; omega
      have hpos : RTP_HEADER_SIZE + payload.length + s.config.keys.tagLen ≠ 0 := by
        have : RTP_HEADER_SIZE = 12 := rfl
        omega
      rw [sendRtpPacket, if_neg hrange]
      simp only [hbuf, getD_some, if_neg hpos]
    have hfit := envelope_isSome_iff s hs hlen
    cases he : envelope s buf (RTP_HEADER_SIZE + payload.length + s.config.keys.tagLen) with
    | none =>
      rw [he] at hsend hfit
      exact .inr (.inl ⟨hs, by simpa using hfit, hsend⟩)
    | some e =>
      rw [he] at hsend hfit
      exact .inr (.inr ⟨hs, by simpa using hfit, e, hsend⟩)
  · refine .inl ⟨hs, ?_⟩
    rw [sendRtpPacket, if_pos]
    unfold Sendable at hs
    omega

end Wave.Rtp
