import Wave.Lib.Bytes
import Wave.Lib.Machine

/-! # RTP payload formats: packets in, records out (`common/rtp_payload.rs`)

Another crate writes the records: one is modelled by what it says, its header by a length (`Layout`). -/

namespace Wave.Common.RtpPayload

open Lib Lib.Bytes

/-- The codec byte of a stream; `other` is one without a payload format. -/
inductive Codec where
  | pcmu | pcma | opus | h264 | vp8
  | other (b : UInt8)
deriving DecidableEq

inductive Packing where
  | raw | annexb | lengthPrefixed
  | other (b : UInt8)
deriving DecidableEq

structure Flags where
  key : Bool := false
  continues : Bool := false
  discontinuity : Bool := false
  truncated : Bool := false
deriving DecidableEq

def receivedStream : Codec → Option (Packing × UInt8 × UInt32)
  | .pcmu | .pcma => some (.raw, 1, 8000)
  | .opus => some (.raw, 2, 48000)
  | .h264 => some (.annexb, 0, 90000)
  | .vp8 => some (.raw, 0, 90000)
  | .other _ => none

def MAX_PAYLOAD : Nat := 1460
def CONFIG_MAX : Nat := 256
def FU_A : UInt8 := 28
def STAP_A : UInt8 := 24
def H264_FU_HEADER : Nat := 2
def VP8_DESCRIPTOR : Nat := 1
def VP8_S : UInt8 := 0x10

inductive Record where
  | stream (codec : Codec) (packing : Packing) (channels : UInt8) (clock : UInt32)
  | unit (flags : Flags) (pts : Int64) (body : Bytes)
  | «end»
deriving DecidableEq

structure Layout where
  streamHeader : Nat
  unitHeader : Nat
  endLen : Nat
  endLen_le : endLen ≤ 4

namespace Layout

variable (e : Layout)

def size : Record → Nat
  | .stream .. => e.streamHeader
  | .unit _ _ body => e.unitHeader + body.length
  | .end => e.endLen

def depacketizedMax (payload : Nat) : Nat :=
  e.streamHeader + 2 * e.unitHeader + 4 + payload * 5 / 3 + 4

end Layout

/-- What a call leaves: a record, or what a reader of the records is not told. -/
inductive Item where
  | record (r : Record)
  | lost
  | damaged
deriving DecidableEq

/-- The buffer `out` of a call, filled up to `at`. -/
structure Out where
  room : Nat
  filled : Nat := 0
  log : List Item := []
  refused : Bool := false
  outside : Bool := false

namespace Out

variable (e : Layout)

/-- One of the writers of `enc` at `&mut out[at..]`: a record that fits is written. -/
def put (out : Out) (r : Record) : Out :=
  if out.filled > out.room then { out with outside := true }
  else if out.filled + e.size r ≤ out.room then
    { out with filled := out.filled + e.size r, log := out.log ++ [Item.record r] }
  else { out with refused := true }

def mark (out : Out) (i : Item) : Out := { out with log := out.log ++ [i] }

end Out

inductive Unread where
  | malformed
  /-- It does not fit the buffer; the source does not tell the two apart. -/
  | noRoom
deriving DecidableEq

def START_CODE : Bytes := [0, 0, 0, 1]

/-- Whether a NAL header announces an IDR slice or a sequence parameter set. -/
def isKey (header : UInt8) : Bool := header &&& 0x1F == 5 || header &&& 0x1F == 7

def putNal (room : Nat) (out nal : Bytes) (key : Bool) : Except Unread (Bytes × Bool) :=
  if nal = [] then .error .malformed
  else if out.length + START_CODE.length + nal.length > room then .error .noRoom
  else .ok (out ++ START_CODE ++ nal, key || isKey (nal.at0 0))

/-- The loop of the `STAP_A` case; a turn takes two bytes at least. -/
def stapA (room : Nat) : (turns : Nat) → (p out : Bytes) → Bool → Except Unread (Bytes × Bool)
  | 0, _, out, key => .ok (out, key)
  | turns + 1, p, out, key =>
    if p = [] then .ok (out, key)
    else if p.length < 2 then .error .malformed
    else
      let n := (u16be (p.at0 0) (p.at0 1)).toNat
      if 2 + n > p.length then .error .malformed
      else
        match putNal room out (p.slice 2 (2 + n)) key with
        | .error u => .error u
        | .ok (out, key) => stapA room turns (p.drop (2 + n)) out key

/-- `h264_to_annexb`: the bytes, and whether they carry an IDR slice or a sequence parameter set. -/
def h264ToAnnexb (payload : Bytes) (starting : Bool) (room : Nat) : Except Unread (Bytes × Bool) :=
  match payload with
  | [] => .error .malformed
  | indicator :: rest =>
    let type := indicator &&& 0x1F
    if 1 ≤ type ∧ type ≤ 23 then putNal room [] payload false
    else if type = STAP_A then stapA room rest.length rest [] false
    else if type = FU_A then
      match rest with
      | [] => .error .malformed
      | fu :: data =>
        if fu &&& 0x80 ≠ 0 then
          let header := (indicator &&& 0xE0) ||| (fu &&& 0x1F)
          if room < 5 + data.length then .error .noRoom
          else .ok (START_CODE ++ header :: data, isKey header)
        else if starting then .error .malformed
        else if data.length > room then .error .noRoom
        else .ok (data, false)
    else .error .malformed

/-- The length of the descriptor; `none` where it is cut short. -/
def vp8Descriptor (payload : Bytes) : Option Nat :=
  if payload.at0 0 &&& 0x80 = 0 then some 1
  else if payload.length < 2 then none
  else
    let x := payload.at0 1
    let pictureId :=
      if x &&& 0x80 = 0 then some 0
      else if payload.length < 3 then none
      else if payload.at0 2 &&& 0x80 ≠ 0 then some 2 else some 1
    pictureId.map fun n => 2 + n + (if x &&& 0x40 ≠ 0 then 1 else 0) + (if x &&& 0x30 ≠ 0 then 1 else 0)

/-- `vp8_frame_data`: the frame's bytes, and whether they start a key frame. -/
def vp8FrameData (payload : Bytes) (starting : Bool) (room : Nat) : Except Unread (Bytes × Bool) :=
  if payload = [] then .error .malformed
  else
    match vp8Descriptor payload with
    | none => .error .malformed
    | some at' =>
      if at' > payload.length then .error .malformed
      else
        let data : Bytes := payload.drop at'
        let frameStart := payload.at0 0 &&& VP8_S ≠ 0 ∧ payload.at0 0 &&& 0x07 = 0
        if starting ≠ decide frameStart ∨ data = [] then .error .malformed
        else if data.length > room then .error .noRoom
        else .ok (data, decide frameStart && data.at0 0 &&& 0x01 == 0)

structure Received where
  codec : Codec
  timestamp : UInt32
  marker : Bool
  lostBefore : Bool
  payload : Bytes

structure Depacketizer where
  codec : Option Codec := none
  inUnit : Bool := false
  unitTs : UInt32 := 0
  skipTs : Option UInt32 := none
  discontinuity : Bool := false
  lastTs : UInt32 := 0
  pts : Int64 := 0
  started : Bool := false

/-- The `TRUNCATED` end of a unit. -/
def truncation (pts : Int64) : Record := .unit { truncated := true } pts []

namespace Depacketizer

variable (e : Layout)

def finish (d : Depacketizer) (out : Out) : Depacketizer × Out :=
  if d.codec = none then (d, out)
  else
    let out := if d.inUnit then out.put e (truncation d.pts) else out
    ({}, out.put e .end)

/-- The first part of `packet`: another codec closes the stream and opens one of its own. -/
def openStream (d : Depacketizer) (codec : Codec) (info : Packing × UInt8 × UInt32) (out : Out) : Depacketizer × Out :=
  if d.codec = some codec then (d, out)
  else
    let (d, out) := d.finish e out
    ({ d with codec := some codec }, out.put e (.stream codec info.1 info.2.1 info.2.2))

def clock (d : Depacketizer) (pkt : Received) : Depacketizer :=
  { d with
    pts := if d.started then d.pts + (pkt.timestamp - d.lastTs).toInt32.toInt64 else d.pts
    started := true
    lastTs := pkt.timestamp
    discontinuity := d.discontinuity || pkt.lostBefore }

def audio (d : Depacketizer) (pkt : Received) (out : Out) : Depacketizer × Out :=
  ({ d with discontinuity := false },
    out.put e (.unit { key := true, discontinuity := d.discontinuity } d.pts pkt.payload))

/-- A timestamp change without a marker, or a loss inside, ends the open unit. -/
def cut (d : Depacketizer) (pkt : Received) (out : Out) : Depacketizer × Out :=
  if d.inUnit && (pkt.timestamp != d.unitTs || pkt.lostBefore) then
    ({ d with
        inUnit := false
        discontinuity := true
        skipTs := if pkt.timestamp = d.unitTs then some pkt.timestamp else d.skipTs },
      out.put e (truncation d.pts))
  else (d, out)

def unpack (pkt : Received) (starting : Bool) (room : Nat) : Except Unread (Bytes × Bool) :=
  match pkt.codec with
  | .h264 => h264ToAnnexb pkt.payload starting room
  | _ => vp8FrameData pkt.payload starting room

section

variable (d : Depacketizer) (pkt : Received) (out : Out)

/-- The rest of `packet` for a video packet that is not skipped. -/
def fragment : Depacketizer × Out :=
  let starting := !d.inUnit
  let bodyAt := out.filled + e.unitHeader
  if bodyAt > out.room then (d, { out with outside := true })
  else
    match unpack pkt starting (out.room - bodyAt) with
    | .error u =>
      ({ d with discontinuity := true, skipTs := if pkt.marker then d.skipTs else some pkt.timestamp },
        { out.mark .damaged with refused := out.refused || u == .noRoom })
    | .ok (body, key) =>
      let flags : Flags :=
        { key := starting && key, continues := !pkt.marker, discontinuity := starting && d.discontinuity }
      -- the header fits: `bodyAt` is inside the buffer
      ({ d with
          discontinuity := !starting && d.discontinuity
          inUnit := !pkt.marker
          unitTs := pkt.timestamp },
        out.put e (.unit flags d.pts body))

def video : Depacketizer × Out :=
  let (d, out) := d.cut e pkt out
  if d.skipTs = some pkt.timestamp then
    ({ d with skipTs := if pkt.marker then none else d.skipTs }, out.mark .damaged)
  else fragment e { d with skipTs := none } pkt out

def packet : Depacketizer × Out :=
  match receivedStream pkt.codec with
  | none => (d, out)
  | some info =>
    let (d, out) := d.openStream e pkt.codec info out
    let d := d.clock pkt
    let out := if pkt.lostBefore then out.mark .lost else out
    match pkt.codec with
    | .pcmu | .pcma | .opus => d.audio e pkt out
    | _ => d.video e pkt out

end

end Depacketizer

def depacketizer (e : Layout) : Machine Depacketizer Received Out where
  step d pkt :=
    let r := d.packet e pkt { room := e.depacketizedMax pkt.payload.length }
    (r.1, [r.2])

end Wave.Common.RtpPayload
