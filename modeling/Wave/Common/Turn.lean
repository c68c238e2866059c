import Wave.Lib.Bytes

/-! # STUN and TURN framing of relayed media

The Send indication, the ChannelData frame and the reader of what a relay sends back. Writers return the
length they reached. -/

namespace Wave.Common.Turn

open Lib Lib.Bytes

def STUN_HEADER_LEN : Nat := 20
def STUN_MAGIC : UInt32 := 0x2112A442
def STUN_CLASS_INDICATION : UInt8 := 1
def TURN_METHOD_SEND : UInt16 := 0x006
def TURN_METHOD_DATA : UInt16 := 0x007
def ATTR_XOR_PEER_ADDRESS : UInt16 := 0x0012
def ATTR_DATA : UInt16 := 0x0013
def ATTR_FINGERPRINT : UInt16 := 0x8028
def STUN_FAMILY_IPV4 : UInt8 := 1
def CHANNEL_DATA_HEADER_LEN : Nat := 4
def CHANNEL_NUMBER_MIN : UInt16 := 0x4000
def CHANNEL_NUMBER_MAX : UInt16 := 0x7FFF
def U16_MAX : Nat := 65535

/-- `(len + 3) & !3`. -/
def pad4 (n : Nat) : Nat := (n + 3) / 4 * 4

def stunMessageType (cls : UInt8) (method : UInt16) : UInt16 :=
  let c := cls.toUInt16
  (method &&& (0x000F : UInt16)) ||| ((method &&& (0x0070 : UInt16)) <<< 1) |||
    ((method &&& (0x0F80 : UInt16)) <<< 2) ||| ((c &&& (0x01 : UInt16)) <<< 4) |||
    ((c &&& (0x02 : UInt16)) <<< 7)

/-- A writer's buffer and the offset it has reached. -/
structure Written where
  out : Bytes
  pos : Nat

def writeStunHeader (cls : UInt8) (method : UInt16) (txn out : Bytes) : Option Written :=
  if out.length < STUN_HEADER_LEN then none
  else some
    { out := splice out 0 (be16 (stunMessageType cls method) ++ be16 0 ++ be32 STUN_MAGIC ++ txn)
      pos := STUN_HEADER_LEN }

def stunSetLength (w : Written) (total : Nat) : Option Written :=
  if total < STUN_HEADER_LEN then none
  else if total - STUN_HEADER_LEN > U16_MAX ∨ w.out.length < STUN_HEADER_LEN then none
  else some { w with out := splice w.out 2 (be16 (UInt16.ofNat (total - STUN_HEADER_LEN))) }

def appendAttribute (typ : UInt16) (value : Bytes) (w : Written) : Option Written :=
  let padded := pad4 value.length
  if w.pos + 4 + padded > w.out.length ∨ value.length > U16_MAX then none
  else some
    { out := splice w.out w.pos (be16 typ ++ be16 (UInt16.ofNat value.length) ++ value ++
        List.replicate (padded - value.length) 0)
      pos := w.pos + 4 + padded }

def appendXorPeerAddressV4 (addr : UInt32) (port : UInt16) (w : Written) : Option Written :=
  appendAttribute ATTR_XOR_PEER_ADDRESS
    ([0, STUN_FAMILY_IPV4] ++ be16 (port ^^^ (STUN_MAGIC >>> 16).toUInt16) ++
      be32 (addr ^^^ STUN_MAGIC)) w

/-- The eight rounds of `crc32` on one byte. -/
def crc32Rounds : Nat → UInt32 → UInt32
  | 0, crc => crc
  | n + 1, crc => crc32Rounds n ((crc >>> 1) ^^^ (0xEDB88320 &&& (0 - (crc &&& 1))))

def crc32 (data : Bytes) : UInt32 :=
  ~~~ data.foldl (fun crc b => crc32Rounds 8 (crc ^^^ b.toUInt32)) 0xFFFFFFFF

def appendFingerprint (w : Written) : Option Written :=
  if w.pos + 4 + 4 > w.out.length then none
  else do
    let w ← stunSetLength w (w.pos + 4 + 4)
    appendAttribute ATTR_FINGERPRINT (be32 (crc32 (w.out.take w.pos) ^^^ 0x5354554E)) w

def writeSendIndication (txn : Bytes) (peerAddr : UInt32) (peerPort : UInt16)
    (payload out : Bytes) : Option Written := do
  let w ← writeStunHeader STUN_CLASS_INDICATION TURN_METHOD_SEND txn out
  let w ← appendXorPeerAddressV4 peerAddr peerPort w
  let w ← appendAttribute ATTR_DATA payload w
  let w ← appendFingerprint w
  stunSetLength w w.pos

def channelNumberIsValid (channel : UInt16) : Bool :=
  CHANNEL_NUMBER_MIN ≤ channel && channel ≤ CHANNEL_NUMBER_MAX

def writeChannelData (channel : UInt16) (payload out : Bytes) : Option Written :=
  if !channelNumberIsValid channel then none
  else if payload.length > U16_MAX then none
  else
    let total := CHANNEL_DATA_HEADER_LEN + payload.length
    if out.length < total then none
    else some
      { out := splice out 0 (be16 channel ++ be16 (UInt16.ofNat payload.length) ++ payload)
        pos := total }

structure StunHeader where
  cls : UInt8
  method : UInt16
  length : Nat
  txn : Bytes

def stunIsPlausible (buf : Bytes) : Bool :=
  STUN_HEADER_LEN ≤ buf.length && at0 buf 0 &&& 0xC0 = 0 &&
    u32be (at0 buf 4) (at0 buf 5) (at0 buf 6) (at0 buf 7) = STUN_MAGIC

def parseStunHeader (buf : Bytes) : Option StunHeader :=
  if !stunIsPlausible buf then none
  else
    let typ := u16be (at0 buf 0) (at0 buf 1)
    let length := (u16be (at0 buf 2) (at0 buf 3)).toNat
    if length % 4 ≠ 0 ∨ STUN_HEADER_LEN + length > buf.length then none
    else some
      { cls := (((typ >>> 7) &&& (0x02 : UInt16)) ||| ((typ >>> 4) &&& (0x01 : UInt16))).toUInt8
        method := (typ &&& (0x000F : UInt16)) ||| ((typ >>> 1) &&& (0x0070 : UInt16)) |||
          ((typ >>> 2) &&& (0x0F80 : UInt16))
        length := length
        txn := slice buf 8 20 }

inductive AttrScan where
  | attr (typ : UInt16) (at_ len next : Nat)
  | stop
  | malformed

def nextAttribute (buf : Bytes) (at_ total : Nat) : AttrScan :=
  if at_ ≥ total then .stop
  else if at_ + 4 > total then .malformed
  else
    let typ := u16be (at0 buf at_) (at0 buf (at_ + 1))
    let len := (u16be (at0 buf (at_ + 2)) (at0 buf (at_ + 3))).toNat
    let valueAt := at_ + 4
    if valueAt + len > total then .malformed
    else if valueAt + pad4 len > total then
      -- an unpadded attribute is let through at the very end of the message only
      if valueAt + len = total then .attr typ valueAt len total else .malformed
    else .attr typ valueAt len (valueAt + pad4 len)

def findAttributeFrom (buf : Bytes) (total : Nat) (typ : UInt16) :
    (fuel : Nat) → (at_ : Nat) → Option (Nat × Nat)
  | 0, _ => none
  | fuel + 1, at_ =>
    match nextAttribute buf at_ total with
    | .attr found valueAt len next =>
      if found = typ then some (valueAt, len) else findAttributeFrom buf total typ fuel next
    | .stop => none
    | .malformed => none

/-- Each attribute takes at least four bytes, so the message length bounds the walk. -/
def findAttribute (buf : Bytes) (header : StunHeader) (typ : UInt16) : Option (Nat × Nat) :=
  let total := STUN_HEADER_LEN + header.length
  findAttributeFrom buf total typ (total + 1) STUN_HEADER_LEN

inductive RelayedDatagram where
  | stun
  | channel (channel : UInt16) (offset len : Nat)
  | unrecognised

def classifyRelayed (buf : Bytes) : RelayedDatagram :=
  if buf.length < CHANNEL_DATA_HEADER_LEN then .unrecognised
  else
    let leading := at0 buf 0 >>> 6
    if leading = 0 then .stun
    else if leading ≠ 1 then .unrecognised
    else
      let channel := u16be (at0 buf 0) (at0 buf 1)
      let len := (u16be (at0 buf 2) (at0 buf 3)).toNat
      if !channelNumberIsValid channel then .unrecognised
      else if CHANNEL_DATA_HEADER_LEN + len > buf.length then .unrecognised
      else .channel channel CHANNEL_DATA_HEADER_LEN len

inductive TurnMedia where
  | channel (channel : UInt16) (payload : Bytes)
  | indication (payload : Bytes)
  | invalid

/-- `turn_media::parse`. -/
def parse (packet : Bytes) : TurnMedia :=
  match classifyRelayed packet with
  | .channel channel offset len => .channel channel (slice packet offset (offset + len))
  | .stun =>
    match parseStunHeader packet with
    | none => .invalid
    | some header =>
      if header.cls ≠ STUN_CLASS_INDICATION ∨
          (header.method ≠ TURN_METHOD_DATA ∧ header.method ≠ TURN_METHOD_SEND) then .invalid
      else
        match findAttribute packet header ATTR_DATA with
        | none => .invalid
        | some (at_, len) => .indication (slice packet at_ (at_ + len))
  | .unrecognised => .invalid

theorem le_pad4 (n : Nat) : n ≤ pad4 n := by
  unfold pad4; omega

theorem appendAttribute_isSome_iff (typ : UInt16) (value : Bytes) (w : Written) :
    (appendAttribute typ value w).isSome ↔
      w.pos + 4 + pad4 value.length ≤ w.out.length ∧ value.length ≤ U16_MAX := by
  simp only [appendAttribute]
  split_ifs <;> simp <;> omega

theorem appendAttribute_some {typ : UInt16} {value : Bytes} {w w' : Written}
    (h : appendAttribute typ value w = some w') :
    w'.pos = w.pos + 4 + pad4 value.length ∧ w'.out.length = w.out.length := by
  simp only [appendAttribute] at h
  split_ifs at h with hfit
  obtain rfl := Option.some.inj h
  refine ⟨rfl, length_splice ?_⟩
  have := le_pad4 value.length
  simp only [length_append, length_be16, length_replicate]
  omega

theorem stunSetLength_isSome_iff (w : Written) (total : Nat) :
    (stunSetLength w total).isSome ↔ STUN_HEADER_LEN ≤ total ∧
      total - STUN_HEADER_LEN ≤ U16_MAX ∧ STUN_HEADER_LEN ≤ w.out.length := by
  unfold stunSetLength
  split_ifs <;> simp <;> omega

theorem stunSetLength_some {w w' : Written} {total : Nat} (h : stunSetLength w total = some w') :
    w'.pos = w.pos ∧ w'.out.length = w.out.length := by
  unfold stunSetLength at h
  split_ifs at h with h1 h2
  obtain rfl := Option.some.inj h
  refine ⟨rfl, length_splice ?_⟩
  simp only [length_be16]
  have : STUN_HEADER_LEN = 20 := rfl
  omega

theorem writeStunHeader_some {cls : UInt8} {method : UInt16} {txn out : Bytes} {w : Written}
    (htxn : txn.length = 12) (h : writeStunHeader cls method txn out = some w) :
    w.pos = STUN_HEADER_LEN ∧ w.out.length = out.length := by
  unfold writeStunHeader at h
  split_ifs at h with hlen
  obtain rfl := Option.some.inj h
  refine ⟨rfl, length_splice ?_⟩
  simp only [length_append, length_be16, length_be32, htxn]
  have : STUN_HEADER_LEN = 20 := rfl
  omega

theorem appendFingerprint_isSome_iff (w : Written) (hpos : STUN_HEADER_LEN ≤ w.pos)
    (hmax : w.out.length ≤ U16_MAX) :
    (appendFingerprint w).isSome ↔ w.pos + 8 ≤ w.out.length := by
  have hfp : pad4 (be32 0).length = 4 := rfl
  unfold appendFingerprint
  split_ifs with hfit
  · simp; omega
  · have hset : (stunSetLength w (w.pos + 4 + 4)).isSome := by
      rw [stunSetLength_isSome_iff]; omega
    obtain ⟨w', hw'⟩ := isSome_iff_exists.mp hset
    obtain ⟨hp, hl⟩ := stunSetLength_some hw'
    simp only [hw', bind_eq_bind, bind_some, appendAttribute_isSome_iff, hp, hl]
    simp only [length_be32, U16_MAX]
    have : pad4 4 = 4 := rfl
    omega

theorem appendFingerprint_some {w w' : Written} (h : appendFingerprint w = some w') :
    w'.pos = w.pos + 8 ∧ w'.out.length = w.out.length := by
  unfold appendFingerprint at h
  split_ifs at h with hfit
  cases hs : stunSetLength w (w.pos + 4 + 4) with
  | none => rw [hs] at h; simp at h
  | some v =>
    rw [hs, bind_eq_bind, bind_some] at h
    obtain ⟨hp, hl⟩ := stunSetLength_some hs
    obtain ⟨hp', hl'⟩ := appendAttribute_some h
    exact ⟨by rw [hp', hp, length_be32]; rfl, hl'.trans hl⟩

/-- The bytes of a Send indication around a payload of `n`. -/
def sendIndicationLen (n : Nat) : Nat := STUN_HEADER_LEN + 12 + (4 + pad4 n) + 8

theorem writeSendIndication_isSome {txn : Bytes} (peerAddr : UInt32) (peerPort : UInt16)
    (payload : Bytes) {out : Bytes} (htxn : txn.length = 12) (hmax : out.length ≤ U16_MAX) :
    (writeSendIndication txn peerAddr peerPort payload out).isSome ↔
      sendIndicationLen payload.length ≤ out.length := by
  have hle := le_pad4 payload.length
  have h20 : STUN_HEADER_LEN = 20 := rfl
  have h8 : pad4 8 = 8 := rfl
  unfold writeSendIndication sendIndicationLen
  cases h1 : writeStunHeader STUN_CLASS_INDICATION TURN_METHOD_SEND txn out with
  | none =>
    have : out.length < STUN_HEADER_LEN := by
      unfold writeStunHeader at h1; split_ifs at h1; assumption
    simp; omega
  | some w1 =>
    obtain ⟨hp1, hl1⟩ := writeStunHeader_some htxn h1
    simp only [bind_eq_bind, bind_some]
    have hval : ([0, STUN_FAMILY_IPV4] ++ be16 (peerPort ^^^ (STUN_MAGIC >>> 16).toUInt16) ++
      be32 (peerAddr ^^^ STUN_MAGIC)).length = 8 := rfl
    have hs2 := appendAttribute_isSome_iff ATTR_XOR_PEER_ADDRESS
      ([0, STUN_FAMILY_IPV4] ++ be16 (peerPort ^^^ (STUN_MAGIC >>> 16).toUInt16) ++
        be32 (peerAddr ^^^ STUN_MAGIC)) w1
    rw [hval] at hs2
    cases h2 : appendXorPeerAddressV4 peerAddr peerPort w1 with
    | none =>
      rw [appendXorPeerAddressV4] at h2
      rw [h2] at hs2
      simp only [Option.isSome_none, false_eq_true, false_iff, U16_MAX] at hs2
      simp; omega
    | some w2 =>
      obtain ⟨hp2, hl2⟩ := appendAttribute_some h2
      rw [hval] at hp2
      simp only [bind_some]
      have hs3 := appendAttribute_isSome_iff ATTR_DATA payload w2
      cases h3 : appendAttribute ATTR_DATA payload w2 with
      | none =>
        rw [h3] at hs3
        simp only [Option.isSome_none, false_eq_true, false_iff] at hs3
        simp; omega
      | some w3 =>
        obtain ⟨hp3, hl3⟩ := appendAttribute_some h3
        simp only [bind_some]
        have hs4 := appendFingerprint_isSome_iff w3 (by omega) (by omega)
        cases h4 : appendFingerprint w3 with
        | none =>
          rw [h4] at hs4
          simp only [Option.isSome_none, false_eq_true, false_iff] at hs4
          simp; omega
        | some w4 =>
          obtain ⟨hp4, hl4⟩ := appendFingerprint_some h4
          rw [h4] at hs4
          simp only [Option.isSome_some, true_iff] at hs4
          simp only [bind_some, stunSetLength_isSome_iff]
          omega

theorem writeChannelData_isSome {channel : UInt16} {payload out : Bytes}
    (hmax : out.length ≤ U16_MAX) :
    (writeChannelData channel payload out).isSome ↔
      channelNumberIsValid channel ∧ CHANNEL_DATA_HEADER_LEN + payload.length ≤ out.length := by
  unfold writeChannelData
  have : CHANNEL_DATA_HEADER_LEN = 4 := rfl
  cases hv : channelNumberIsValid channel
  · simp
  · simp only [Bool.not_true, false_eq_true, if_false, true_and]
    split_ifs <;> simp <;> omega

end Wave.Common.Turn
