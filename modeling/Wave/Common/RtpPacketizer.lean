import Wave.Common.RtpPayload

/-! # RTP payload formats: access units in, packets out (`common/rtp_payload.rs`) -/

namespace Wave.Common.RtpPayload

open Lib Lib.Bytes

def canPacketize : Codec → Packing → Bool
  | .pcmu, .raw | .pcma, .raw | .opus, .raw | .h264, .annexb | .h264, .lengthPrefixed | .vp8, .raw => true
  | _, _ => false

/-- One packet: the bytes written to `out`, and its marker. -/
structure Packet where
  payload : Bytes
  marker : Bool
deriving DecidableEq

inductive Nal where
  /-- Before the unit's first start code. -/
  | seeking
  /-- Reading a length prefix, `read` bytes of it so far. -/
  | length (read : Nat)
  | header
  | body
deriving DecidableEq

structure Packetizer where
  codec : Codec := .other 0
  packing : Packing := .other 0
  mtu : Nat := MAX_PAYLOAD
  lenSize : Nat := 0
  /-- `config[..config_len]`. -/
  config : Bytes := []
  psAt : Nat := 0
  psLeft : Nat := 0
  psPpsPending : Bool := false
  firstOfStream : Bool := true
  unitMarker : Bool := false
  unitDone : Bool := true
  oversize : Bool := false
  nal : Nal := .seeking
  nalHeader : UInt8 := 0
  fragmented : Bool := false
  held : Bool := false
  zeros : Nat := 0
  /-- A `u32`. -/
  nalLen : Nat := 0
  frameFirst : Bool := true
  /-- `pending[..pending_len]`. -/
  pending : Bytes := []
deriving DecidableEq

namespace Packetizer

/-- `stream`: `none` for `false`. -/
def stream (p : Packetizer) (codec : Codec) (packing : Packing) (config : Bytes) (mtu : Nat) : Option Packetizer :=
  if !canPacketize codec packing || !decide (16 ≤ mtu ∧ mtu ≤ MAX_PAYLOAD) then none
  else
    let p := { p with codec := codec, packing := packing, mtu := mtu, firstOfStream := true, unitDone := true }
    if packing = .lengthPrefixed then
      let lenSize := (config.at0 4 &&& 0x03).toNat + 1
      if config.length < 7 ∨ config.length > CONFIG_MAX then none
      else if lenSize = 3 then none
      else some { p with lenSize := lenSize, config := config }
    else some { p with lenSize := 0, config := [] }

def beginUnit (p : Packetizer) (flags : Flags) : Packetizer :=
  let sets := decide (p.config.length ≥ 7) && flags.key
  { p with
    unitDone := false
    oversize := false
    pending := []
    fragmented := false
    held := false
    zeros := 0
    frameFirst := true
    nal := match p.packing with
      | .annexb => .seeking
      | .lengthPrefixed => .length 0
      | _ => .body
    unitMarker := p.firstOfStream || flags.discontinuity
    firstOfStream := false
    psAt := if sets then 6 else p.psAt
    psLeft := if sets then (p.config.at0 5 &&& 0x1F).toNat else 0
    psPpsPending := sets }

/-- What a call leaves: the packet, the packetizer and what of the fragment is not used yet. -/
abbrev Called := Option Packet × Packetizer × Bytes

def nextAudio (p : Packetizer) (rest : Bytes) (last : Bool) : Called :=
  let p :=
    if p.pending.length + rest.length > p.mtu then { p with oversize := true }
    else { p with pending := p.pending ++ rest }
  if !last then (none, p, [])
  else
    let p := { p with unitDone := true }
    if p.oversize || decide (p.pending = []) then (none, p, [])
    else (some { payload := p.pending, marker := p.unitMarker }, p, [])

def vp8Packet (p : Packetizer) (marker : Bool) : Packet × Packetizer :=
  ({ payload := (if p.frameFirst then VP8_S else 0) :: p.pending, marker := marker },
    { p with frameFirst := false, pending := [] })

/-- The loop of `next_vp8`; a turn that does not end it takes a byte at least. -/
def vp8Loop (cap : Nat) : (turns : Nat) → Packetizer → Bytes → Called
  | 0, p, rest => (none, p, rest)
  | turns + 1, p, rest =>
    if rest = [] then (none, p, [])
    else if p.pending.length = cap then
      let (k, p) := p.vp8Packet false
      (some k, p, rest)
    else
      let take := min (cap - p.pending.length) rest.length
      vp8Loop cap turns { p with pending := p.pending ++ rest.take take } (rest.drop take)

def nextVp8 (p : Packetizer) (rest : Bytes) (last : Bool) : Called :=
  match vp8Loop (p.mtu - VP8_DESCRIPTOR) rest.length p rest with
  | (some k, p, rest) => (some k, p, rest)
  | (none, p, rest) =>
    if !last then (none, p, rest)
    else
      let p := { p with unitDone := true }
      if p.pending = [] then (none, p, rest)
      else
        let (k, p) := p.vp8Packet true
        (some k, p, rest)

/-- The loop of `next_parameter_set`; a turn takes one of the sets left, or begins their second list. -/
def parameterSetLoop : (turns : Nat) → Packetizer → Option Packet × Packetizer
  | 0, p => (none, p)
  | turns + 1, p =>
    if p.psLeft = 0 then
      if !p.psPpsPending then (none, p)
      else
        let p := { p with psPpsPending := false }
        if p.psAt ≥ p.config.length then (none, p)
        else parameterSetLoop turns { p with psLeft := (p.config.at0 p.psAt).toNat, psAt := p.psAt + 1 }
    else
      let p := { p with psLeft := p.psLeft - 1 }
      if p.psAt + 2 > p.config.length then (none, { p with psLeft := 0, psPpsPending := false })
      else
        let len := (u16be (p.config.at0 p.psAt) (p.config.at0 (p.psAt + 1))).toNat
        let start := p.psAt + 2
        let p := { p with psAt := start + len }
        if len = 0 ∨ start + len > p.config.length ∨ len > p.mtu then parameterSetLoop turns p
        else (some { payload := p.config.slice start (start + len), marker := false }, p)

/-- `next_parameter_set`; there are no more sets than a byte can count, in each of two lists. -/
def nextParameterSet (p : Packetizer) : Option Packet × Packetizer := parameterSetLoop 512 p

def fuA (p : Packetizer) («end» : Bool) : Packet × Packetizer :=
  let indicator := (p.nalHeader &&& 0xE0) ||| FU_A
  let fu := (if p.fragmented then 0 else 0x80) ||| (if «end» then 0x40 else 0) ||| (p.nalHeader &&& 0x1F)
  ({ payload := indicator :: fu :: p.pending, marker := false }, { p with fragmented := true, pending := [] })

def closeNal (p : Packetizer) (marker : Bool) : Packet × Packetizer :=
  if p.fragmented then
    let (k, p) := p.fuA true
    ({ k with marker := marker }, p)
  else ({ payload := p.nalHeader :: p.pending, marker := marker }, { p with pending := [] })

/-- The loop of `next_h264`; a turn that does not end it takes a byte at least. -/
def h264Loop (cap : Nat) : (turns : Nat) → Packetizer → Bytes → Called
  | 0, p, rest => (none, p, rest)
  | _ + 1, p, [] => (none, p, [])
  | turns + 1, p, b :: rest =>
    if p.held then
      let (k, p) := { p with held := false }.closeNal false
      (some k, p, b :: rest)
    else
      match p.nal with
      | .seeking =>
        if b = 0 then h264Loop cap turns { p with zeros := min (p.zeros + 1) 3 } rest
        else
          let nal : Nal := if b = 1 ∧ p.zeros ≥ 2 then .header else p.nal
          h264Loop cap turns { p with nal := nal, zeros := 0 } rest
      | .length read =>
        let nalLen := (if read = 0 then 0 else (p.nalLen <<< 8) % 2 ^ 32) ||| b.toNat
        let nal : Nal :=
          if read + 1 = p.lenSize then (if nalLen = 0 then .length 0 else .header) else .length (read + 1)
        h264Loop cap turns { p with nalLen := nalLen, nal := nal } rest
      | .header =>
        let p : Packetizer := { p with nalHeader := b, fragmented := false, pending := [], zeros := 0 }
        if p.packing = .lengthPrefixed then
          let p : Packetizer := { p with nalLen := p.nalLen - 1 }
          if p.nalLen = 0 then h264Loop cap turns { p with nal := .length 0, held := true } rest
          else h264Loop cap turns { p with nal := .body } rest
        else h264Loop cap turns { p with nal := .body } rest
      | .body =>
        if p.packing = .annexb then
          if b = 0 then h264Loop cap turns { p with zeros := min (p.zeros + 1) 3 } rest
          else if b = 1 ∧ p.zeros ≥ 2 then
            h264Loop cap turns { p with zeros := 0, nal := .header, held := true } rest
          else if p.pending.length + (p.zeros + 1) > cap then
            let (k, p) := p.fuA false
            (some k, p, b :: rest)
          else
            h264Loop cap turns { p with pending := p.pending ++ List.replicate p.zeros 0 ++ [b], zeros := 0 } rest
        else if p.pending.length = cap then
          let (k, p) := p.fuA false
          (some k, p, b :: rest)
        else
          let take := min (min (cap - p.pending.length) (rest.length + 1)) p.nalLen
          let p : Packetizer := { p with
            pending := p.pending ++ (b :: rest).take take
            nalLen := p.nalLen - take }
          let p := if p.nalLen = 0 then { p with nal := .length 0, held := true } else p
          h264Loop cap turns p ((b :: rest).drop take)

/-- The end of `next_h264`, behind its loop: the last NAL has the marker. -/
def endH264 (p : Packetizer) (rest : Bytes) (last : Bool) : Called :=
  if !last then (none, p, rest)
  else
    let «open» := p.held || p.nal == .body
    let p := { p with unitDone := true, held := false }
    if !«open» then (none, p, rest)
    else
      let (k, p) := p.closeNal true
      (some k, p, rest)

def nextH264 (p : Packetizer) (rest : Bytes) (last : Bool) : Called :=
  match p.nextParameterSet with
  | (some k, p) => (some k, p, rest)
  | (none, p) =>
    match h264Loop (p.mtu - H264_FU_HEADER) rest.length p rest with
    | (some k, p, rest) => (some k, p, rest)
    | (none, p, rest) => p.endH264 rest last

def next (room : Nat) (last : Bool) (p : Packetizer) (rest : Bytes) : Called :=
  if p.unitDone || decide (room < p.mtu) then (none, p, rest)
  else
    match p.codec with
    | .h264 => p.nextH264 rest last
    | .vp8 => p.nextVp8 rest last
    | _ => p.nextAudio rest last

end Packetizer

theorem stream_fields {p₀ p : Packetizer} {codec : Codec} {packing : Packing} {config : Bytes} {mtu : Nat}
    (h : p₀.stream codec packing config mtu = some p) :
    p.codec = codec ∧ p.packing = packing ∧ p.mtu = mtu ∧ 16 ≤ mtu ∧ mtu ≤ MAX_PAYLOAD := by
  unfold Packetizer.stream at h
  split at h
  · cases h
  next hok =>
    obtain ⟨-, hmtu⟩ : canPacketize codec packing = true ∧ 16 ≤ mtu ∧ mtu ≤ MAX_PAYLOAD := by simpa using hok
    dsimp only at h
    split at h
    next hpacking =>
      split at h
      · cases h
      split at h
      · cases h
      cases h
      exact ⟨rfl, rfl, rfl, hmtu⟩
    next hpacking =>
      cases h
      exact ⟨rfl, rfl, rfl, hmtu⟩

def lengthSize (config : Bytes) : Nat := (config.at0 4 &&& 0x03).toNat + 1

theorem stream_config {p₀ p : Packetizer} {codec : Codec} {packing : Packing} {config : Bytes} {mtu : Nat}
    (h : p₀.stream codec packing config mtu = some p) :
    packing = .lengthPrefixed ∧ p.config = config ∧ 7 ≤ config.length ∧ p.lenSize = lengthSize config ∨
      packing ≠ .lengthPrefixed ∧ p.config = [] := by
  unfold Packetizer.stream at h
  split at h
  · cases h
  dsimp only at h
  split at h
  next hpacking =>
    split at h
    · cases h
    next hlength =>
      split at h
      · cases h
      cases h
      exact Or.inl ⟨hpacking, rfl, Nat.not_lt.mp fun hshort => hlength (Or.inl hshort), rfl⟩
  next hpacking =>
    cases h
    exact Or.inr ⟨hpacking, rfl⟩

theorem lengthSize_le (config : Bytes) : lengthSize config ≤ 4 := by
  have hle : (config.at0 4 &&& 0x03).toNat ≤ 3 := by
    rw [UInt8.toNat_and]
    exact Nat.and_le_right
  exact Nat.succ_le_succ hle

end Wave.Common.RtpPayload
