import Wave.Lib.Bytes
import Mathlib.Data.Nat.Bitwise

/-! # RTCP on the wire (`common/rtcp_core.rs`)

A compound is packets one behind the other; what the writers put there is located and read again. -/

namespace Wave.Common.RtcpWire

open Lib Lib.Bytes

variable {out : Bytes}

variable {ssrc : UInt32} {blocks : List RtcpReportBlock}

def RTCP_VERSION : UInt8 := 2
def RTCP_HEADER_SIZE : Nat := 4
def RTCP_SENDER_INFO_SIZE : Nat := 20
def RTCP_REPORT_BLOCK_SIZE : Nat := 24
def RTCP_PT_SR : UInt8 := 200
def RTCP_PT_RR : UInt8 := 201
def RTCP_PT_SDES : UInt8 := 202
def RTCP_PT_BYE : UInt8 := 203
def RTCP_SDES_CNAME : UInt8 := 1
def RTCP_MAX_REPORT_BLOCKS : Nat := 31

/-- `at_` is the source's `at`. -/
structure RtcpPacket where
  payloadType : UInt8
  count : UInt8
  at_ : Nat
  len : Nat
deriving DecidableEq

inductive RtcpReject where
  | truncated
  | version
  | overrun
  | notReportFirst
  | paddingNotLast
  | tooMany
deriving DecidableEq

def versionAt (buf : Bytes) (at_ : Nat) : UInt8 := at0 buf at_ >>> 6

def paddingAt (buf : Bytes) (at_ : Nat) : Bool := (at0 buf at_ >>> 5) &&& 0x01 = 1

def lenAt (buf : Bytes) (at_ : Nat) : Nat := ((u16be (at0 buf (at_ + 2)) (at0 buf (at_ + 3))).toNat + 1) * 4

def packetAt (buf : Bytes) (at_ : Nat) : RtcpPacket where
  payloadType := at0 buf (at_ + 1)
  count := at0 buf at_ &&& 0x1F
  at_ := at_
  len := lenAt buf at_

/-- The loop of `rtcp_parse_compound`, with what is in `out`. A packet takes four bytes at least. -/
def compoundLoop (buf : Bytes) (room : Nat) : (fuel : Nat) → (at_ : Nat) → List RtcpPacket →
    Except RtcpReject (List RtcpPacket)
  | 0, _, _ => .error .truncated
  | fuel + 1, at_, out =>
    if at_ + RTCP_HEADER_SIZE ≤ buf.length then
      if versionAt buf at_ ≠ RTCP_VERSION then .error .version
      else if at_ + lenAt buf at_ > buf.length then .error .overrun
      else if out = [] ∧ ¬ (at0 buf (at_ + 1) = RTCP_PT_SR ∨ at0 buf (at_ + 1) = RTCP_PT_RR) then .error .notReportFirst
      else if paddingAt buf at_ ∧ at_ + lenAt buf at_ ≠ buf.length then .error .paddingNotLast
      else if out.length = room then .error .tooMany
      else compoundLoop buf room fuel (at_ + lenAt buf at_) (out ++ [packetAt buf at_])
    else if at_ ≠ buf.length then .error .truncated
    else .ok out

/-- `rtcp_parse_compound`, into an array of `room` packets. -/
def rtcpParseCompound (buf : Bytes) (room : Nat) : Except RtcpReject (List RtcpPacket) :=
  if buf.length < RTCP_HEADER_SIZE ∨ buf.length % 4 ≠ 0 then .error .truncated
  else compoundLoop buf room (buf.length + 1) 0 []

/-! ## Report blocks -/

structure RtcpReportBlock where
  ssrc : UInt32
  fractionLost : UInt8
  cumulativeLost : Int32
  extendedHighestSeq : UInt32
  jitter : UInt32
  lastSr : UInt32
  delaySinceLastSr : UInt32

/-- `clamp(-0x0080_0000, 0x007F_FFFF)`. -/
def clampLost (lost : Int32) : Int32 :=
  if lost < -0x00800000 then -0x00800000 else if 0x007FFFFF < lost then 0x007FFFFF else lost

def lostBytes (lost : Int32) : Bytes :=
  let c := (clampLost lost).toUInt32 &&& 0x00FFFFFF
  [(c >>> 16).toUInt8, (c >>> 8).toUInt8, c.toUInt8]

def readLost (a b c : UInt8) : Int32 :=
  let raw := u32be 0 a b c
  if raw &&& 0x00800000 ≠ 0 then (raw ||| 0xFF000000).toInt32 else raw.toInt32

def reportBlockBytes (b : RtcpReportBlock) : Bytes :=
  be32 b.ssrc ++ b.fractionLost :: lostBytes b.cumulativeLost ++ be32 b.extendedHighestSeq ++ be32 b.jitter ++ be32 b.lastSr ++
    be32 b.delaySinceLastSr

def rtcpParseReportBlock (buf : Bytes) (at_ : Nat) : Option RtcpReportBlock :=
  if at_ + RTCP_REPORT_BLOCK_SIZE > buf.length then none
  else
    let b := fun i => at0 buf (at_ + i)
    some
      { ssrc := u32be (b 0) (b 1) (b 2) (b 3)
        fractionLost := b 4
        cumulativeLost := readLost (b 5) (b 6) (b 7)
        extendedHighestSeq := u32be (b 8) (b 9) (b 10) (b 11)
        jitter := u32be (b 12) (b 13) (b 14) (b 15)
        lastSr := u32be (b 16) (b 17) (b 18) (b 19)
        delaySinceLastSr := u32be (b 20) (b 21) (b 22) (b 23) }

/-! ## The writers

A writer gets a buffer and returns it with the length written, or `none`. -/

structure RtcpSenderInfo where
  ntp : UInt64
  rtpTimestamp : UInt32
  packetCount : UInt32
  octetCount : UInt32

/-- `bytes` at the front of `out`, where there is room for `need` bytes. -/
def put (bytes : Bytes) (need : Nat) (out : Bytes) : Option (Bytes × Nat) :=
  if out.length < need then none else some (splice out 0 bytes, bytes.length)

/-- A writer on what is behind the first `w.2` bytes. -/
def writeAt (w : Bytes × Nat) (write : Bytes → Option (Bytes × Nat)) : Option (Bytes × Nat) :=
  if w.1.length < w.2 then none
  else (write (w.1.drop w.2)).map fun r => (w.1.take w.2 ++ r.1, w.2 + r.2)

def rtcpWriteReportBlock (b : RtcpReportBlock) (out : Bytes) : Option (Bytes × Nat) :=
  put (reportBlockBytes b) RTCP_REPORT_BLOCK_SIZE out

def headerBytes (count pt : UInt8) (total : Nat) : Bytes :=
  [(RTCP_VERSION <<< 6) ||| count, pt] ++ be16 (UInt16.ofNat (total / 4 - 1))

def writeHead (pt : UInt8) (count : Nat) (ssrc : UInt32) (bodyLen : Nat) (out : Bytes) : Option (Bytes × Nat) :=
  let total := RTCP_HEADER_SIZE + 4 + bodyLen
  if count > RTCP_MAX_REPORT_BLOCKS then none
  else put (headerBytes (UInt8.ofNat count &&& 0x1F) pt total ++ be32 ssrc) total out

def writeBlocks (blocks : List RtcpReportBlock) (w : Bytes × Nat) : Option (Bytes × Nat) :=
  blocks.foldlM (fun w b => writeAt w (rtcpWriteReportBlock b)) w

def rtcpWriteRr (ssrc : UInt32) (blocks : List RtcpReportBlock) (out : Bytes) : Option (Bytes × Nat) :=
  (writeHead RTCP_PT_RR blocks.length ssrc (blocks.length * RTCP_REPORT_BLOCK_SIZE) out).bind (writeBlocks blocks)

def senderInfoBytes (info : RtcpSenderInfo) : Bytes :=
  be64 info.ntp ++ be32 info.rtpTimestamp ++ be32 info.packetCount ++ be32 info.octetCount

def rtcpWriteSr (ssrc : UInt32) (info : RtcpSenderInfo) (blocks : List RtcpReportBlock) (out : Bytes) :
    Option (Bytes × Nat) :=
  (writeHead RTCP_PT_SR blocks.length ssrc (RTCP_SENDER_INFO_SIZE + blocks.length * RTCP_REPORT_BLOCK_SIZE) out).bind fun w =>
    (writeAt w (put (senderInfoBytes info) RTCP_SENDER_INFO_SIZE)).bind (writeBlocks blocks)

def rtcpParseSenderInfo (buf : Bytes) (at_ : Nat) : Option RtcpSenderInfo :=
  if at_ + RTCP_HEADER_SIZE + 4 + RTCP_SENDER_INFO_SIZE > buf.length then none
  else
    let b := fun i => at0 buf (at_ + RTCP_HEADER_SIZE + 4 + i)
    some
      { ntp := UInt64.ofNat (((List.range 8).map b).foldl (fun acc b => acc * 256 + b.toNat) 0)
        rtpTimestamp := u32be (b 8) (b 9) (b 10) (b 11)
        packetCount := u32be (b 12) (b 13) (b 14) (b 15)
        octetCount := u32be (b 16) (b 17) (b 18) (b 19) }

def rtcpPacketSsrc (buf : Bytes) (at_ : Nat) : Option UInt32 :=
  if at_ + RTCP_HEADER_SIZE + 4 > buf.length then none
  else
    let b := fun i => at0 buf (at_ + RTCP_HEADER_SIZE + i)
    some (u32be (b 0) (b 1) (b 2) (b 3))

def rtcpFirstBlockAt (payloadType : UInt8) (at_ : Nat) : Nat :=
  at_ + RTCP_HEADER_SIZE + 4 + if payloadType = RTCP_PT_SR then RTCP_SENDER_INFO_SIZE else 0

def rtcpWriteBye (ssrc : UInt32) (out : Bytes) : Option (Bytes × Nat) :=
  put (headerBytes 1 RTCP_PT_BYE 8 ++ be32 ssrc) 8 out

/-- The chunk of one CNAME item: a terminating zero, and zeros up to a word. -/
def sdesTotal (cname : Bytes) : Nat := RTCP_HEADER_SIZE + (4 + 2 + cname.length + 1 + 3) / 4 * 4

def rtcpWriteSdesCname (ssrc : UInt32) (cname out : Bytes) : Option (Bytes × Nat) :=
  if cname = [] ∨ cname.length > 255 then none
  else
    let total := sdesTotal cname
    let item := headerBytes 1 RTCP_PT_SDES total ++ be32 ssrc ++ RTCP_SDES_CNAME :: UInt8.ofNat cname.length :: cname
    put (item ++ List.replicate (total - item.length) 0) total out

/-- A Sender Report where there is a sender's information, a Receiver Report otherwise. -/
def writeReport (info : Option RtcpSenderInfo) (ssrc : UInt32) (blocks : List RtcpReportBlock) (out : Bytes) :
    Option (Bytes × Nat) :=
  match info with
  | some info => rtcpWriteSr ssrc info blocks out
  | none => rtcpWriteRr ssrc blocks out

def writeCompound (info : Option RtcpSenderInfo) (ssrc : UInt32) (blocks : List RtcpReportBlock) (named : UInt32) (cname : Bytes)
    (leaving : UInt32) (out : Bytes) : Option (Bytes × Nat) :=
  (writeReport info ssrc blocks out).bind fun w =>
    (writeAt w (rtcpWriteSdesCname named cname)).bind fun w => writeAt w (rtcpWriteBye leaving)

/-- From `at_` on the packets lie one behind the other up to the end, and only the last is padded. -/
def TilesFrom (buf : Bytes) : Nat → List RtcpPacket → Prop
  | at_, [] => at_ = buf.length
  | at_, p :: ps =>
    p = packetAt buf at_ ∧ 0 < p.len ∧ p.len % 4 = 0 ∧ (ps ≠ [] → paddingAt buf at_ = false) ∧ TilesFrom buf (at_ + p.len) ps

def IsReport (p : RtcpPacket) : Prop := p.payloadType = RTCP_PT_SR ∨ p.payloadType = RTCP_PT_RR

theorem compoundLoop_tiles {buf : Bytes} {room fuel at_ : Nat} {out ps : List RtcpPacket}
    (h : compoundLoop buf room fuel at_ out = .ok ps) :
    ∃ qs, ps = out ++ qs ∧ TilesFrom buf at_ qs ∧ (out = [] → ∀ p ∈ qs.head?, IsReport p) ∧
      (out.length ≤ room → ps.length ≤ room) := by
  induction fuel generalizing at_ out with
  | zero => cases h
  | succ fuel ih =>
    rw [compoundLoop] at h
    split_ifs at h with hmore hversion hover hreport hpadding hroom hend
    · obtain ⟨qs, rfl, htiles, -, hle⟩ := ih h
      rw [append_assoc] at hle ⊢
      refine ⟨packetAt buf at_ :: qs, rfl, ⟨rfl, ?_, ?_, fun hlast => ?_, htiles⟩, fun hnil p hp => ?_, fun hout => hle ?_⟩
      · exact Nat.mul_pos (Nat.succ_pos _) (by decide)
      · exact Nat.mul_mod_left _ 4
      · by_contra hpad
        rw [Bool.not_eq_false] at hpad
        have hat : at_ + lenAt buf at_ = buf.length := by
          by_contra hne
          exact hpadding ⟨hpad, hne⟩
        obtain ⟨q, qs, rfl⟩ := exists_cons_of_ne_nil hlast
        obtain ⟨rfl, -, -, -⟩ := htiles
        rw [hat] at h
        cases fuel with
        | zero => cases h
        | succ fuel =>
          rw [compoundLoop, if_neg (by unfold RTCP_HEADER_SIZE; omega), if_neg (not_not.mpr rfl)] at h
          have hlen := congrArg List.length (Except.ok.inj h)
          simp at hlen
      · cases hp
        by_contra hnot
        exact hreport ⟨hnil, hnot⟩
      · rw [length_append, length_singleton]
        omega
    · cases h
      rw [not_not] at hend
      exact ⟨[], (append_nil _).symm, hend, fun _ => nofun, id⟩

theorem parse_tiles {buf : Bytes} {room : Nat} {ps : List RtcpPacket} (h : rtcpParseCompound buf room = .ok ps) :
    ps.length ≤ room ∧ TilesFrom buf 0 ps ∧ ∃ p ∈ ps.head?, IsReport p := by
  unfold rtcpParseCompound at h
  split_ifs at h with hshort
  obtain ⟨qs, hqs, htiles, hreport, hle⟩ := compoundLoop_tiles h
  rw [nil_append] at hqs
  subst hqs
  refine ⟨hle (Nat.zero_le _), htiles, ?_⟩
  cases ps with
  | nil =>
    have hempty : 0 = buf.length := htiles
    rw [← hempty] at hshort
    exact absurd (.inl (by decide)) hshort
  | cons p ps => exact ⟨p, rfl, hreport rfl p rfl⟩

/-! ## What is written is read -/

def RtcpReportBlock.clamped (b : RtcpReportBlock) : RtcpReportBlock :=
  { b with cumulativeLost := clampLost b.cumulativeLost }

theorem clampLost_toInt (lost : Int32) :
    (clampLost lost).toInt = max (-0x00800000) (min lost.toInt 0x007FFFFF) := by
  have hlow : (-0x00800000 : Int32).toInt = -0x00800000 := by decide
  have hhigh : (0x007FFFFF : Int32).toInt = 0x007FFFFF := by decide
  unfold clampLost
  split
  next h =>
    rw [Int32.lt_iff_toInt_lt, hlow] at h
    rw [hlow]
    omega
  next h =>
    rw [Int32.lt_iff_toInt_lt, hlow] at h
    split
    next h' =>
      rw [Int32.lt_iff_toInt_lt, hhigh] at h'
      rw [hhigh]
      omega
    next h' =>
      rw [Int32.lt_iff_toInt_lt, hhigh] at h'
      omega

theorem signed24 {u : UInt32} (h : u.toNat < 2 ^ 23 ∨ 2 ^ 32 - 2 ^ 23 ≤ u.toNat) :
    (if u &&& 0x00FFFFFF &&& 0x00800000 ≠ 0 then u &&& 0x00FFFFFF ||| 0xFF000000 else u &&& 0x00FFFFFF) = u := by
  have hu := u.toNat_lt
  have hlow : (u &&& 0x00FFFFFF).toNat = u.toNat % 2 ^ 24 := by
    rw [UInt32.toNat_and]
    exact Nat.and_two_pow_sub_one_eq_mod _ 24
  have hsign : (u &&& 0x00FFFFFF &&& 0x00800000 ≠ 0) ↔ u.toNat % 2 ^ 24 / 2 ^ 23 = 1 := by
    rw [ne_eq, ← UInt32.toNat_inj, UInt32.toNat_and, hlow]
    have htop : u.toNat % 2 ^ 24 &&& 2 ^ 23 = (u.toNat % 2 ^ 24 / 2 ^ 23 % 2) * 2 ^ 23 := by
      rw [Nat.and_two_pow, Nat.toNat_testBit]
    have htop : u.toNat % 2 ^ 24 &&& (0x00800000 : UInt32).toNat = (u.toNat % 2 ^ 24 / 2 ^ 23 % 2) * 2 ^ 23 := htop
    rw [htop]
    have hzero : (0 : UInt32).toNat = 0 := rfl
    rw [hzero]
    omega
  split
  next hset =>
    rw [hsign] at hset
    apply UInt32.toNat.inj
    have hor : 2 ^ 24 * 255 + u.toNat % 2 ^ 24 = 2 ^ 24 * 255 ||| u.toNat % 2 ^ 24 :=
      Nat.two_pow_add_eq_or_of_lt (Nat.mod_lt _ (by decide)) 255
    have hbits : (u &&& 0x00FFFFFF ||| 0xFF000000).toNat = u.toNat % 2 ^ 24 ||| 2 ^ 24 * 255 := by
      rw [UInt32.toNat_or, hlow]
      rfl
    rw [hbits, Nat.or_comm, ← hor]
    omega
  next hclear =>
    rw [hsign] at hclear
    apply UInt32.toNat.inj
    rw [hlow]
    omega

theorem readLost_lostBytes (lost : Int32) :
    readLost (at0 (lostBytes lost) 0) (at0 (lostBytes lost) 1) (at0 (lostBytes lost) 2) = clampLost lost := by
  set u := (clampLost lost).toUInt32 with hdef
  have hrange := clampLost_toInt lost
  have hback : u.toInt32 = clampLost lost := Int32.toInt32_toUInt32 _
  have hint : u.toInt32.toInt = (u.toNat : Int).bmod (2 ^ 32) := BitVec.toInt_eq_toNat_bmod _
  have hlt := u.toNat_lt
  have hu : u.toNat < 2 ^ 23 ∨ 2 ^ 32 - 2 ^ 23 ≤ u.toNat := by
    rw [hback, hrange, Int.bmod_def] at hint
    split at hint <;> omega
  have hraw : u32be 0 (at0 (lostBytes lost) 0) (at0 (lostBytes lost) 1) (at0 (lostBytes lost) 2) = u &&& 0x00FFFFFF := by
    have hword := u32be_be32 (u &&& 0x00FFFFFF)
    have htop : ((u &&& 0x00FFFFFF) >>> 24).toUInt8 = 0 := by
      apply UInt8.toNat.inj
      rw [UInt32.toNat_toUInt8, UInt32.toNat_shiftRight, UInt32.toNat_and]
      have hlow : u.toNat &&& (0x00FFFFFF : UInt32).toNat = u.toNat % 2 ^ 24 := Nat.and_two_pow_sub_one_eq_mod _ 24
      rw [hlow, Nat.shiftRight_eq_div_pow]
      have hshift : 2 ^ ((24 : UInt32).toNat % 32) = 2 ^ 24 := rfl
      rw [hshift]
      have hzero : (0 : UInt8).toNat = 0 := rfl
      omega
    rwa [htop] at hword
  unfold readLost
  dsimp only
  rw [hraw, ← apply_ite UInt32.toInt32, signed24 hu, hback]

@[simp] theorem length_reportBlockBytes (b : RtcpReportBlock) : (reportBlockBytes b).length = RTCP_REPORT_BLOCK_SIZE := rfl

theorem parse_reportBlock (pre post : Bytes) (b : RtcpReportBlock) :
    rtcpParseReportBlock (pre ++ (reportBlockBytes b ++ post)) pre.length = some b.clamped := by
  have hfits : ¬ pre.length + RTCP_REPORT_BLOCK_SIZE > (pre ++ (reportBlockBytes b ++ post)).length := by
    rw [length_append, length_append, length_reportBlockBytes]
    omega
  unfold rtcpParseReportBlock
  rw [if_neg hfits]
  simp only [at0_behind, Option.some.injEq]
  unfold RtcpReportBlock.clamped
  congr 1
  · exact u32be_be32 b.ssrc
  · exact readLost_lostBytes b.cumulativeLost
  · exact u32be_be32 b.extendedHighestSeq
  · exact u32be_be32 b.jitter
  · exact u32be_be32 b.lastSr
  · exact u32be_be32 b.delaySinceLastSr

/-- `bytes` at the front of `out`, the rest as it was. -/
def Wrote (out bytes : Bytes) (w : Bytes × Nat) : Prop :=
  bytes.length ≤ out.length ∧ w = (bytes ++ out.drop bytes.length, bytes.length)

theorem put_wrote {bytes out : Bytes} {need : Nat} {w : Bytes × Nat} (hneed : bytes.length ≤ need)
    (h : put bytes need out = some w) : Wrote out bytes w := by
  unfold put at h
  split_ifs at h with hshort
  obtain rfl := Option.some.inj h
  refine ⟨by omega, ?_⟩
  rw [splice, take_zero, nil_append, Nat.zero_add]

theorem Wrote.behind {out a b : Bytes} {w w' : Bytes × Nat} {write : Bytes → Option (Bytes × Nat)} (hw : Wrote out a w)
    (h : writeAt w write = some w') (hwrite : ∀ rest r, write rest = some r → Wrote rest b r) : Wrote out (a ++ b) w' := by
  obtain ⟨hle, rfl⟩ := hw
  unfold writeAt at h
  split_ifs at h
  obtain ⟨r, hr, rfl⟩ := map_eq_some_iff.mp h
  rw [drop_left] at hr
  obtain ⟨hroom, rfl⟩ := hwrite _ r hr
  rw [length_drop] at hroom
  refine ⟨by rw [length_append]; omega, ?_⟩
  rw [take_left, drop_drop, length_append, append_assoc]

theorem put_isSome {bytes out : Bytes} {need : Nat} (h : need ≤ out.length) : (put bytes need out).isSome := by
  unfold put
  rw [if_neg (Nat.not_lt.mpr h)]
  rfl

theorem Wrote.goes {out a : Bytes} {w : Bytes × Nat} (hw : Wrote out a w) (write : Bytes → Option (Bytes × Nat))
    (hwrite : ∀ rest : Bytes, a.length + rest.length = out.length → (write rest).isSome) : (writeAt w write).isSome := by
  obtain ⟨hle, rfl⟩ := hw
  unfold writeAt
  rw [if_neg (by rw [length_append]; omega), drop_left, Option.isSome_map]
  exact hwrite _ (by rw [length_drop]; omega)

theorem writeBlocks_wrote {out head : Bytes} {w w' : Bytes × Nat} (hw : Wrote out head w)
    (h : writeBlocks blocks w = some w') : Wrote out (head ++ blocks.flatMap reportBlockBytes) w' := by
  induction blocks generalizing w head with
  | nil =>
    obtain rfl := Option.some.inj h
    rwa [flatMap_nil, append_nil]
  | cons b blocks ih =>
    obtain ⟨w₁, hfirst, hrest⟩ := bind_eq_some_iff.mp h
    have hblock := hw.behind hfirst fun rest r hr => put_wrote (length_reportBlockBytes b).le hr
    rw [flatMap_cons, ← append_assoc]
    exact ih hblock hrest

theorem writeBlocks_isSome (blocks : List RtcpReportBlock) {out head : Bytes} {w : Bytes × Nat} (hw : Wrote out head w)
    (hroom : head.length + blocks.length * RTCP_REPORT_BLOCK_SIZE ≤ out.length) : (writeBlocks blocks w).isSome := by
  induction blocks generalizing w head with
  | nil => rfl
  | cons b blocks ih =>
    rw [length_cons, Nat.succ_mul] at hroom
    obtain ⟨w₁, hfirst⟩ := isSome_iff_exists.mp
      (hw.goes (rtcpWriteReportBlock b) fun rest hrest => put_isSome (by omega))
    have hblock := hw.behind hfirst fun rest r hr => put_wrote (length_reportBlockBytes b).le hr
    have hcons : writeBlocks (b :: blocks) w = (writeAt w (rtcpWriteReportBlock b)).bind (writeBlocks blocks) := rfl
    rw [hcons, hfirst]
    exact ih hblock (by rw [length_append, length_reportBlockBytes]; omega)

structure Written where
  count : UInt8
  payloadType : UInt8
  body : Bytes

namespace Written

def len (p : Written) : Nat := RTCP_HEADER_SIZE + p.body.length

def bytes (p : Written) : Bytes := headerBytes p.count p.payloadType p.len ++ p.body

structure Fits (p : Written) : Prop where
  count : p.count < 32
  words : p.body.length % 4 = 0
  length : p.body.length < 2 ^ 18

@[simp] theorem length_bytes (p : Written) : p.bytes.length = p.len := length_append

end Written

theorem header_bits {count : UInt8} (h : count < 32) :
    ((RTCP_VERSION <<< 6) ||| count) >>> 6 = RTCP_VERSION ∧
      (((RTCP_VERSION <<< 6) ||| count) >>> 5) &&& 0x01 = 0 ∧ ((RTCP_VERSION <<< 6) ||| count) &&& 0x1F = count := by
  have hevery : ∀ c : UInt8, c < 32 → ((RTCP_VERSION <<< 6) ||| c) >>> 6 = RTCP_VERSION ∧
      (((RTCP_VERSION <<< 6) ||| c) >>> 5) &&& 0x01 = 0 ∧ ((RTCP_VERSION <<< 6) ||| c) &&& 0x1F = c :=
    of_every_byte (by decide +kernel)
  exact hevery count h

theorem packetAt_written (pre post : Bytes) {p : Written} (hp : p.Fits) :
    versionAt (pre ++ (p.bytes ++ post)) pre.length = RTCP_VERSION ∧
      paddingAt (pre ++ (p.bytes ++ post)) pre.length = false ∧
      packetAt (pre ++ (p.bytes ++ post)) pre.length = ⟨p.payloadType, p.count, pre.length, p.len⟩ := by
  obtain ⟨hversion, hpadding, hcount⟩ := header_bits hp.count
  have hfirst : at0 (pre ++ (p.bytes ++ post)) pre.length = (RTCP_VERSION <<< 6) ||| p.count := at0_behind pre _ 0
  have htype : at0 (pre ++ (p.bytes ++ post)) (pre.length + 1) = p.payloadType := at0_behind pre _ 1
  have hlen : lenAt (pre ++ (p.bytes ++ post)) pre.length = p.len := by
    have hfield : u16be (at0 (p.bytes ++ post) 2) (at0 (p.bytes ++ post) 3) = UInt16.ofNat (p.len / 4 - 1) := u16be_be16 _
    have hwords := hp.words
    have hlength := hp.length
    have hfour : p.len = 4 + p.body.length := rfl
    unfold lenAt
    rw [at0_behind, at0_behind, hfield, UInt16.toNat_ofNat', Nat.mod_eq_of_lt (by omega)]
    omega
  unfold versionAt paddingAt packetAt
  rw [hfirst, htype, hlen, hversion, hpadding, hcount]
  exact ⟨rfl, rfl, rfl⟩

def located : (at_ : Nat) → List Written → List RtcpPacket
  | _, [] => []
  | at_, p :: ps => ⟨p.payloadType, p.count, at_, p.len⟩ :: located (at_ + p.len) ps

theorem compoundLoop_written {ps : List Written} (hfits : ∀ p ∈ ps, p.Fits) {pre : Bytes} {room fuel : Nat}
    {out : List RtcpPacket} (hreport : out ≠ [] ∨ ∀ p ∈ ps.head?, p.payloadType = RTCP_PT_SR ∨ p.payloadType = RTCP_PT_RR)
    (hroom : out.length + ps.length ≤ room) (hfuel : ps.length < fuel) :
    compoundLoop (pre ++ ps.flatMap Written.bytes) room fuel pre.length out = .ok (out ++ located pre.length ps) := by
  induction ps generalizing pre fuel out with
  | nil =>
    obtain ⟨fuel, rfl⟩ := Nat.exists_eq_succ_of_ne_zero (Nat.ne_of_gt hfuel)
    rw [flatMap_nil, append_nil, compoundLoop, if_neg (by unfold RTCP_HEADER_SIZE; omega),
      if_neg (not_not.mpr rfl), located, append_nil]
  | cons p ps ih =>
    obtain ⟨fuel, rfl⟩ := Nat.exists_eq_succ_of_ne_zero (Nat.ne_of_gt (Nat.zero_lt_of_lt hfuel))
    have hp := hfits p mem_cons_self
    obtain ⟨hversion, hpadding, hpacket⟩ := packetAt_written pre (ps.flatMap Written.bytes) hp
    have htype := congrArg RtcpPacket.payloadType hpacket
    have hlen := congrArg RtcpPacket.len hpacket
    dsimp only [packetAt] at htype hlen
    have hlength : (pre ++ (p.bytes ++ ps.flatMap Written.bytes)).length = pre.length + (p.len + (ps.flatMap Written.bytes).length) := by
      rw [length_append, length_append, Written.length_bytes]
    have hfour : p.len = RTCP_HEADER_SIZE + p.body.length := rfl
    have hfirst : ¬ (out = [] ∧ ¬ (p.payloadType = RTCP_PT_SR ∨ p.payloadType = RTCP_PT_RR)) := by
      rintro ⟨hempty, hnot⟩
      exact hreport.elim (fun hne => hne hempty) fun h => hnot (h p rfl)
    rw [length_cons] at hroom hfuel
    set located₁ := out ++ [packetAt (pre ++ (p.bytes ++ ps.flatMap Written.bytes)) pre.length] with hlocated
    have hone : located₁.length = out.length + 1 := length_append
    have hnext : compoundLoop ((pre ++ p.bytes) ++ ps.flatMap Written.bytes) room fuel (pre ++ p.bytes).length located₁ =
        .ok (located₁ ++ located (pre ++ p.bytes).length ps) :=
      ih (fun q hq => hfits q (mem_cons_of_mem _ hq)) (.inl (ne_nil_of_length_pos (by omega))) (by omega) (by omega)
    rw [append_assoc, length_append, Written.length_bytes] at hnext
    rw [flatMap_cons, compoundLoop, if_pos (by omega), if_neg (not_not.mpr hversion), hlen, if_neg (by omega), htype,
      if_neg hfirst, hpadding, if_neg (by simp), if_neg (by omega), hnext, hlocated, hpacket, append_assoc]
    rfl

theorem parse_written {ps : List Written} (hfits : ∀ p ∈ ps, p.Fits) {room : Nat} (hroom : ps.length ≤ room)
    (hreport : ∃ p ∈ ps.head?, p.payloadType = RTCP_PT_SR ∨ p.payloadType = RTCP_PT_RR) :
    rtcpParseCompound (ps.flatMap Written.bytes) room = .ok (located 0 ps) := by
  have hlength : ∀ {ps : List Written}, (∀ p ∈ ps, p.Fits) →
      (ps.flatMap Written.bytes).length % 4 = 0 ∧ 4 * ps.length ≤ (ps.flatMap Written.bytes).length := by
    intro ps hfits
    induction ps with
    | nil => exact ⟨rfl, Nat.le_refl _⟩
    | cons p ps ih =>
      obtain ⟨hmod, hle⟩ := ih fun q hq => hfits q (mem_cons_of_mem _ hq)
      have hwords := (hfits p mem_cons_self).words
      have hfour : p.len = 4 + p.body.length := rfl
      rw [flatMap_cons, length_append, Written.length_bytes, length_cons]
      omega
  obtain ⟨hmod, hle⟩ := hlength hfits
  obtain ⟨p, hhead, htype⟩ := hreport
  have hsome : 0 < ps.length := List.length_pos_of_mem (List.mem_of_mem_head? hhead)
  have hfirst : ∀ q ∈ ps.head?, q.payloadType = RTCP_PT_SR ∨ q.payloadType = RTCP_PT_RR := by
    intro q hq
    obtain rfl := Option.some.inj ((Option.mem_def.mp hhead).symm.trans hq)
    exact htype
  unfold rtcpParseCompound
  rw [if_neg (by unfold RTCP_HEADER_SIZE; omega)]
  have hread : compoundLoop ([] ++ ps.flatMap Written.bytes) room ((ps.flatMap Written.bytes).length + 1) 0 [] =
      .ok ([] ++ located 0 ps) :=
    compoundLoop_written hfits (.inr hfirst) (by rw [length_nil, Nat.zero_add]; exact hroom) (by omega)
  rwa [nil_append, nil_append] at hread

/-! ### The packets written -/

theorem writeHead_wrote {pt : UInt8} {count : Nat} {bodyLen : Nat} {w : Bytes × Nat}
    (h : writeHead pt count ssrc bodyLen out = some w) :
    count ≤ RTCP_MAX_REPORT_BLOCKS ∧
      Wrote out (headerBytes (UInt8.ofNat count &&& 0x1F) pt (RTCP_HEADER_SIZE + 4 + bodyLen) ++ be32 ssrc) w := by
  unfold writeHead at h
  dsimp only at h
  split_ifs at h with hmany
  exact ⟨by omega, put_wrote (Nat.le_add_right 8 bodyLen) h⟩

theorem length_blocks (blocks : List RtcpReportBlock) :
    (blocks.flatMap reportBlockBytes).length = blocks.length * RTCP_REPORT_BLOCK_SIZE := by
  induction blocks with
  | nil => rfl
  | cons b blocks ih => rw [flatMap_cons, length_append, ih, length_reportBlockBytes, length_cons, Nat.succ_mul,
      Nat.add_comm]

def report (info : Option RtcpSenderInfo) (ssrc : UInt32) (blocks : List RtcpReportBlock) : Written where
  count := UInt8.ofNat blocks.length
  payloadType := if info.isSome then RTCP_PT_SR else RTCP_PT_RR
  body := be32 ssrc ++ ((info.map senderInfoBytes).getD [] ++ blocks.flatMap reportBlockBytes)

/-- The item behind the SSRC of an SDES: the name, and zeros, one at the least, up to a word. -/
def cnameItem (cname : Bytes) : Bytes :=
  RTCP_SDES_CNAME :: UInt8.ofNat cname.length :: cname ++ List.replicate (sdesTotal cname - (10 + cname.length)) 0

def sdes (ssrc : UInt32) (cname : Bytes) : Written where
  count := 1
  payloadType := RTCP_PT_SDES
  body := be32 ssrc ++ cnameItem cname

def bye (ssrc : UInt32) : Written where
  count := 1
  payloadType := RTCP_PT_BYE
  body := be32 ssrc

theorem count_masked {n : Nat} (h : n ≤ RTCP_MAX_REPORT_BLOCKS) :
    UInt8.ofNat n &&& 0x1F = UInt8.ofNat n ∧ UInt8.ofNat n < 32 := by
  have hn : n < 32 := Nat.lt_succ_of_le h
  have hevery : ∀ n : Fin 32, UInt8.ofNat n &&& 0x1F = UInt8.ofNat n ∧ UInt8.ofNat n < 32 := by decide
  exact hevery ⟨n, hn⟩

theorem writeReport_wrote {info : Option RtcpSenderInfo}
    {w : Bytes × Nat} (h : writeReport info ssrc blocks out = some w) :
    blocks.length ≤ RTCP_MAX_REPORT_BLOCKS ∧ Wrote out (report info ssrc blocks).bytes w := by
  cases info with
  | none =>
    obtain ⟨w₁, hhead, hblocks⟩ := bind_eq_some_iff.mp h
    obtain ⟨hcount, hwrote⟩ := writeHead_wrote hhead
    refine ⟨hcount, ?_⟩
    have hall := writeBlocks_wrote hwrote hblocks
    rw [(count_masked hcount).1, ← length_blocks, Nat.add_assoc, append_assoc] at hall
    have hlen : (be32 ssrc ++ blocks.flatMap reportBlockBytes).length = 4 + (blocks.flatMap reportBlockBytes).length :=
      length_append
    rw [← hlen] at hall
    exact hall
  | some info =>
    obtain ⟨w₁, hhead, hrest⟩ := bind_eq_some_iff.mp h
    obtain ⟨w₂, hinfo, hblocks⟩ := bind_eq_some_iff.mp hrest
    obtain ⟨hcount, hwrote⟩ := writeHead_wrote hhead
    refine ⟨hcount, ?_⟩
    have hsender := hwrote.behind hinfo fun rest r hr => put_wrote (Nat.le_refl RTCP_SENDER_INFO_SIZE) hr
    have hall := writeBlocks_wrote hsender hblocks
    rw [(count_masked hcount).1, ← length_blocks, Nat.add_assoc, append_assoc, append_assoc] at hall
    have hlen : (be32 ssrc ++ (senderInfoBytes info ++ blocks.flatMap reportBlockBytes)).length =
        4 + (RTCP_SENDER_INFO_SIZE + (blocks.flatMap reportBlockBytes).length) := by
      rw [length_append, length_append]
      rfl
    rw [← hlen] at hall
    exact hall

theorem writeSdes_wrote {cname out : Bytes} {w : Bytes × Nat} (h : rtcpWriteSdesCname ssrc cname out = some w) :
    cname.length ≤ 255 ∧ (sdes ssrc cname).len = sdesTotal cname ∧ Wrote out (sdes ssrc cname).bytes w := by
  unfold rtcpWriteSdesCname at h
  split_ifs at h with hname
  have hcname : cname.length ≤ 255 := by
    by_contra hlong
    exact hname (.inr (by omega))
  have hitem : (headerBytes 1 RTCP_PT_SDES (sdesTotal cname) ++ be32 ssrc ++
      RTCP_SDES_CNAME :: UInt8.ofNat cname.length :: cname).length = 10 + cname.length := by
    simp [headerBytes, be16]
    omega
  have hroom : 10 + cname.length ≤ sdesTotal cname := by
    unfold sdesTotal RTCP_HEADER_SIZE
    omega
  have hlen : (sdes ssrc cname).len = sdesTotal cname := by
    have hbody : (sdes ssrc cname).body.length = 6 + cname.length + (sdesTotal cname - (10 + cname.length)) := by
      simp [sdes, cnameItem]
      omega
    have hfour : (sdes ssrc cname).len = 4 + (sdes ssrc cname).body.length := rfl
    omega
  dsimp only at h
  rw [hitem] at h
  have hwrote := put_wrote (by rw [length_append, hitem, length_replicate]; omega) h
  refine ⟨hcname, hlen, ?_⟩
  unfold Written.bytes
  rw [hlen]
  simpa [sdes, cnameItem] using hwrote

theorem writeBye_wrote {w : Bytes × Nat} (h : rtcpWriteBye ssrc out = some w) :
    Wrote out (bye ssrc).bytes w :=
  put_wrote (Nat.le_refl 8) h

theorem report_fits {info : Option RtcpSenderInfo} (h : blocks.length ≤ RTCP_MAX_REPORT_BLOCKS) : (report info ssrc blocks).Fits := by
  have hlen : (report info ssrc blocks).body.length =
      4 + (((info.map senderInfoBytes).getD []).length + blocks.length * RTCP_REPORT_BLOCK_SIZE) := by
    rw [report, length_append, length_append, length_blocks]
    rfl
  have hinfo : ((info.map senderInfoBytes).getD []).length = 0 ∨ ((info.map senderInfoBytes).getD []).length = 20 := by
    cases info with
    | none => exact .inl rfl
    | some info => exact .inr rfl
  unfold RTCP_MAX_REPORT_BLOCKS at h
  unfold RTCP_REPORT_BLOCK_SIZE at hlen
  exact ⟨(count_masked h).2, by omega, by omega⟩

theorem sdes_fits {cname : Bytes} (h : cname.length ≤ 255) (hlen : (sdes ssrc cname).len = sdesTotal cname) :
    (sdes ssrc cname).Fits := by
  have hfour : (sdes ssrc cname).len = 4 + (sdes ssrc cname).body.length := rfl
  unfold sdesTotal RTCP_HEADER_SIZE at hlen
  exact ⟨show (1 : UInt8) < 32 by decide, by omega, by omega⟩

theorem bye_fits (ssrc : UInt32) : (bye ssrc).Fits :=
  ⟨show (1 : UInt8) < 32 by decide, show 4 % 4 = 0 from rfl, show 4 < 2 ^ 18 by decide⟩

theorem report_block (info : Option RtcpSenderInfo) (ssrc : UInt32) (blocks : List RtcpReportBlock) {i : Nat}
    (hi : i < blocks.length) : ∃ pre post, (report info ssrc blocks).bytes = pre ++ (reportBlockBytes blocks[i] ++ post) ∧
      pre.length = rtcpFirstBlockAt (report info ssrc blocks).payloadType 0 + i * RTCP_REPORT_BLOCK_SIZE := by
  have hsplit : blocks.flatMap reportBlockBytes = (blocks.take i).flatMap reportBlockBytes ++
      (reportBlockBytes blocks[i] ++ (blocks.drop (i + 1)).flatMap reportBlockBytes) := by
    rw [← flatMap_cons, ← drop_eq_getElem_cons hi, ← flatMap_append, take_append_drop]
  set head := headerBytes (UInt8.ofNat blocks.length) (report info ssrc blocks).payloadType (report info ssrc blocks).len ++
    (be32 ssrc ++ (info.map senderInfoBytes).getD [])
  refine ⟨head ++ (blocks.take i).flatMap reportBlockBytes, (blocks.drop (i + 1)).flatMap reportBlockBytes, ?_, ?_⟩
  · have hbytes : (report info ssrc blocks).bytes = head ++ blocks.flatMap reportBlockBytes := by
      simp only [head, Written.bytes, report, append_assoc]
    rw [hbytes, hsplit, append_assoc head]
  · have hhead : head.length = rtcpFirstBlockAt (report info ssrc blocks).payloadType 0 := by
      cases info with
      | none => rfl
      | some info => rfl
    rw [length_append, hhead, length_blocks, length_take, Nat.min_eq_left hi.le]

theorem writeReport_isSome (info : Option RtcpSenderInfo) (ssrc : UInt32) (out : Bytes) (hcount : blocks.length ≤ RTCP_MAX_REPORT_BLOCKS)
    (hroom : (report info ssrc blocks).len ≤ out.length) : (writeReport info ssrc blocks out).isSome := by
  have hlen : (report info ssrc blocks).len = 8 + (((info.map senderInfoBytes).getD []).length +
      blocks.length * RTCP_REPORT_BLOCK_SIZE) := by
    rw [Written.len, report, length_append, length_append, length_blocks]
    exact (Nat.add_assoc 4 4 _).symm
  have hhead : ∀ pt bodyLen, 8 + bodyLen ≤ out.length → ∃ w, writeHead pt blocks.length ssrc bodyLen out = some w := by
    intro pt bodyLen hfits
    unfold writeHead
    rw [if_neg (Nat.not_lt.mpr hcount)]
    exact isSome_iff_exists.mp (put_isSome hfits)
  cases info with
  | none =>
    obtain ⟨w, hw⟩ := hhead RTCP_PT_RR (blocks.length * RTCP_REPORT_BLOCK_SIZE) (by simp at hlen; omega)
    have hblocks := writeBlocks_isSome blocks (writeHead_wrote hw).2 (by simp [headerBytes] at hlen ⊢; omega)
    unfold writeReport rtcpWriteRr
    rw [hw]
    exact hblocks
  | some info =>
    have hinfo : (senderInfoBytes info).length = RTCP_SENDER_INFO_SIZE := rfl
    rw [map_some, getD_some, hinfo] at hlen
    obtain ⟨w, hw⟩ := hhead RTCP_PT_SR (RTCP_SENDER_INFO_SIZE + blocks.length * RTCP_REPORT_BLOCK_SIZE) (by omega)
    have hwrote := (writeHead_wrote hw).2
    obtain ⟨w₁, hsender⟩ := isSome_iff_exists.mp
      (hwrote.goes (put (senderInfoBytes info) RTCP_SENDER_INFO_SIZE) fun rest hrest =>
        put_isSome (by simp [headerBytes] at hrest; omega))
    have hblocks := writeBlocks_isSome blocks
      (hwrote.behind hsender fun rest r hr => put_wrote hinfo.le hr)
      (by rw [length_append, hinfo]; simp [headerBytes]; omega)
    unfold writeReport rtcpWriteSr
    rw [hw]
    change ((writeAt w _).bind (writeBlocks blocks)).isSome
    rw [hsender]
    exact hblocks

theorem writeCompound_isSome (info : Option RtcpSenderInfo) (ssrc : UInt32) (blocks : List RtcpReportBlock) (named : UInt32)
    (cname : Bytes) (leaving : UInt32) (out : Bytes) (hcount : blocks.length ≤ RTCP_MAX_REPORT_BLOCKS) (hne : cname ≠ [])
    (hcname : cname.length ≤ 255) (hroom : (report info ssrc blocks).len + sdesTotal cname + 8 ≤ out.length) :
    (writeCompound info ssrc blocks named cname leaving out).isSome := by
  obtain ⟨w₁, h₁⟩ := isSome_iff_exists.mp (writeReport_isSome info ssrc out hcount (by omega))
  have hwrote₁ := (writeReport_wrote h₁).2
  have hsdes : ∀ rest : Bytes, sdesTotal cname ≤ rest.length → (rtcpWriteSdesCname named cname rest).isSome := by
    intro rest hrest
    unfold rtcpWriteSdesCname
    rw [if_neg (not_or.mpr ⟨hne, Nat.not_lt.mpr hcname⟩)]
    exact put_isSome hrest
  obtain ⟨w₂, h₂⟩ := isSome_iff_exists.mp
    (hwrote₁.goes (rtcpWriteSdesCname named cname) fun rest hrest => hsdes rest (by rw [Written.length_bytes] at hrest; omega))
  have hwrote₂ := hwrote₁.behind h₂ fun rest r hr => (writeSdes_wrote hr).2.2
  obtain ⟨r, hr⟩ := isSome_iff_exists.mp (hsdes (List.replicate (sdesTotal cname) 0) List.length_replicate.ge)
  have hlen := (writeSdes_wrote hr).2.1
  have hbye := hwrote₂.goes (rtcpWriteBye leaving) fun rest hrest => put_isSome (by
    rw [length_append, Written.length_bytes, Written.length_bytes, hlen] at hrest
    omega)
  unfold writeCompound
  rw [h₁]
  change ((writeAt w₁ _).bind _).isSome
  rw [h₂]
  exact hbye

theorem packetSsrc_written (pre post : Bytes) {p : Written} {s : UInt32} {rest : Bytes} (hbody : p.body = be32 s ++ rest) :
    rtcpPacketSsrc (pre ++ (p.bytes ++ post)) pre.length = some s := by
  obtain ⟨count, pt, body⟩ := p
  subst hbody
  unfold rtcpPacketSsrc
  rw [if_neg (by simp [Written.len, RTCP_HEADER_SIZE]; omega)]
  simp only [Nat.add_assoc, at0_behind]
  exact congrArg some (u32be_be32 s)

theorem senderInfo_written (ssrc : UInt32) (info : RtcpSenderInfo) (blocks : List RtcpReportBlock) (post : Bytes) :
    rtcpParseSenderInfo ((report (some info) ssrc blocks).bytes ++ post) 0 = some info := by
  unfold rtcpParseSenderInfo
  rw [if_neg]
  · refine congrArg some ?_
    obtain ⟨ntp, rtpTimestamp, packetCount, octetCount⟩ := info
    rw [RtcpSenderInfo.mk.injEq]
    exact ⟨(congrArg UInt64.ofNat (value_be64 ntp)).trans UInt64.ofNat_toNat, u32be_be32 rtpTimestamp, u32be_be32 packetCount,
      u32be_be32 octetCount⟩
  · have hlen : (report (some info) ssrc blocks).len = 28 + (blocks.flatMap reportBlockBytes).length := by
      rw [Written.len, report]
      simp [senderInfoBytes, RTCP_HEADER_SIZE]
      omega
    rw [length_append, Written.length_bytes, hlen]
    unfold RTCP_HEADER_SIZE RTCP_SENDER_INFO_SIZE
    omega

theorem cname_written (pre post : Bytes) (named : UInt32) {cname : Bytes} (hlen : (sdes named cname).len = sdesTotal cname) :
    slice (pre ++ ((sdes named cname).bytes ++ post)) (pre.length + 8) (pre.length + sdesTotal cname) = cnameItem cname := by
  have hitem : (sdes named cname).bytes = headerBytes 1 RTCP_PT_SDES (sdes named cname).len ++ (be32 named ++ cnameItem cname) := rfl
  have hend : sdesTotal cname = 8 + (cnameItem cname).length := by
    rw [← hlen, ← Written.length_bytes, hitem]
    simp [headerBytes]
    omega
  have hfront : (pre ++ (headerBytes 1 RTCP_PT_SDES (sdes named cname).len ++ be32 named)).length = pre.length + 8 := by
    simp [headerBytes]
  have hmiddle := slice_middle (pre ++ (headerBytes 1 RTCP_PT_SDES (sdes named cname).len ++ be32 named)) (cnameItem cname) post
  rw [hfront, Nat.add_assoc, ← hend] at hmiddle
  rw [hitem]
  simpa only [append_assoc] using hmiddle

/-- A compound is located, and read back, where there is room: its packets, their sources, the sender's information,
the blocks and the name. -/
theorem compound_tiles_and_reads :
    (∀ buf room ps, rtcpParseCompound buf room = .ok ps →
      ps.length ≤ room ∧ TilesFrom buf 0 ps ∧ ∃ p ∈ ps.head?, IsReport p) ∧
    (∀ info ssrc blocks named cname leaving (out : Bytes), blocks.length ≤ RTCP_MAX_REPORT_BLOCKS → cname ≠ [] →
      cname.length ≤ 255 → (report info ssrc blocks).len + sdesTotal cname + 8 ≤ out.length →
      (writeCompound info ssrc blocks named cname leaving out).isSome) ∧
    (∀ info ssrc blocks named cname leaving out w room, writeCompound info ssrc blocks named cname leaving out = some w →
      3 ≤ room →
      let first := report info ssrc blocks
      rtcpParseCompound (w.1.take w.2) room =
        .ok [⟨first.payloadType, UInt8.ofNat blocks.length, 0, first.len⟩,
          ⟨RTCP_PT_SDES, 1, first.len, sdesTotal cname⟩, ⟨RTCP_PT_BYE, 1, first.len + sdesTotal cname, 8⟩] ∧
      (∀ (i : Nat) (hi : i < blocks.length),
        rtcpParseReportBlock (w.1.take w.2) (rtcpFirstBlockAt first.payloadType 0 + i * RTCP_REPORT_BLOCK_SIZE) =
          some blocks[i].clamped) ∧
      (∀ sender ∈ info, rtcpParseSenderInfo (w.1.take w.2) 0 = some sender) ∧
      rtcpPacketSsrc (w.1.take w.2) 0 = some ssrc ∧ rtcpPacketSsrc (w.1.take w.2) first.len = some named ∧
      rtcpPacketSsrc (w.1.take w.2) (first.len + sdesTotal cname) = some leaving ∧
      slice (w.1.take w.2) (first.len + 8) (first.len + sdesTotal cname) = cnameItem cname) ∧
    ∀ lost, (clampLost lost).toInt = max (-0x00800000) (min lost.toInt 0x007FFFFF) := by
  refine ⟨fun buf room ps h => parse_tiles h, writeCompound_isSome, ?_, clampLost_toInt⟩
  intro info ssrc blocks named cname leaving out w room h hroom first
  obtain ⟨w₁, hreport, hrest⟩ := bind_eq_some_iff.mp h
  obtain ⟨w₂, hsdes, hbye⟩ := bind_eq_some_iff.mp hrest
  obtain ⟨hcount, hwrote₁⟩ := writeReport_wrote hreport
  have hname : cname.length ≤ 255 ∧ (sdes named cname).len = sdesTotal cname := by
    unfold writeAt at hsdes
    split_ifs at hsdes
    obtain ⟨r, hr, -⟩ := map_eq_some_iff.mp hsdes
    exact ⟨(writeSdes_wrote hr).1, (writeSdes_wrote hr).2.1⟩
  have hwrote₂ := hwrote₁.behind hsdes fun rest r hr => (writeSdes_wrote hr).2.2
  obtain ⟨-, rfl⟩ := hwrote₂.behind hbye fun rest r hr => writeBye_wrote hr
  have hbytes : first.bytes ++ (sdes named cname).bytes ++ (bye leaving).bytes =
      [first, sdes named cname, bye leaving].flatMap Written.bytes := by
    simp
  rw [take_left]
  refine ⟨?_, ?_, ?_, ?_, ?_, ?_, ?_⟩
  · rw [hbytes, parse_written ?fits hroom ⟨first, rfl, ?_⟩]
    · simp only [located, Nat.zero_add, hname.2]
      rfl
    · simp only [mem_cons, not_mem_nil, or_false, forall_eq_or_imp, forall_eq]
      exact ⟨report_fits hcount, sdes_fits hname.1 hname.2, bye_fits leaving⟩
    · cases info with
      | none => exact .inr rfl
      | some info => exact .inl rfl
  · intro i hi
    obtain ⟨pre, post, hsplit, hat⟩ := report_block info ssrc blocks hi
    rw [← hat]
    show rtcpParseReportBlock ((report info ssrc blocks).bytes ++ _ ++ _) _ = _
    rw [hsplit, append_assoc, append_assoc, append_assoc]
    exact parse_reportBlock pre _ _
  · rintro sender rfl
    show rtcpParseSenderInfo ((report (some sender) ssrc blocks).bytes ++ _ ++ _) 0 = _
    rw [append_assoc]
    exact senderInfo_written ssrc sender blocks _
  · rw [append_assoc]
    exact packetSsrc_written [] _ (p := first) rfl
  · rw [append_assoc, ← Written.length_bytes first]
    exact packetSsrc_written _ _ (p := sdes named cname) rfl
  · have hat : first.len + sdesTotal cname = (first.bytes ++ (sdes named cname).bytes).length := by
      rw [length_append, Written.length_bytes, Written.length_bytes, hname.2]
    rw [hat, ← append_nil (bye leaving).bytes]
    exact packetSsrc_written _ [] (p := bye leaving) (append_nil _).symm
  · rw [append_assoc, ← Written.length_bytes first]
    exact cname_written _ _ named hname.2

/-- A block that lost more than 24 bits can count, behind a Sender Report's information. -/
def lostBlock : RtcpReportBlock := ⟨7, 3, 0x01000000, 9, 1, 5, 6⟩

theorem compound_tiles_and_reads_one :
    (rtcpParseCompound [0x80, 201, 0, 1, 0, 0, 0, 7] 1 = .ok [⟨201, 0, 0, 8⟩] ∧
      TilesFrom [0x80, 201, 0, 1, 0, 0, 0, 7] 0 [⟨201, 0, 0, 8⟩]) ∧
    (∃ w, writeCompound (some ⟨1, 2, 3, 4⟩) 7 [lostBlock] 7 [99] 7 (List.replicate 80 0) = some w ∧
      rtcpParseReportBlock (w.1.take w.2) 28 = some { lostBlock with cumulativeLost := 0x007FFFFF } ∧
      rtcpParseSenderInfo (w.1.take w.2) 0 = some ⟨1, 2, 3, 4⟩) ∧
    ∃ w, writeCompound none 7 [lostBlock] 8 [99] 9 (List.replicate 80 0) = some w ∧
      rtcpParseReportBlock (w.1.take w.2) 8 = some { lostBlock with cumulativeLost := 0x007FFFFF } ∧
      rtcpPacketSsrc (w.1.take w.2) 44 = some 9 := by
  obtain ⟨htiles, hwrites, hreads, -⟩ := compound_tiles_and_reads
  have hparse : rtcpParseCompound [0x80, 201, 0, 1, 0, 0, 0, 7] 1 = .ok [⟨201, 0, 0, 8⟩] := by decide +kernel
  refine ⟨⟨hparse, (htiles _ _ _ hparse).2.1⟩, ?_, ?_⟩
  · obtain ⟨w, hw⟩ := isSome_iff_exists.mp
      (hwrites (some ⟨1, 2, 3, 4⟩) 7 [lostBlock] 7 [99] 7 (List.replicate 80 0) (by decide) (by decide) (by decide) (by decide))
    obtain ⟨-, hblock, hsender, -⟩ := hreads _ _ _ _ _ _ _ w 3 hw (by decide)
    exact ⟨w, hw, hblock 0 (by decide), hsender _ rfl⟩
  · obtain ⟨w, hw⟩ := isSome_iff_exists.mp
      (hwrites none 7 [lostBlock] 8 [99] 9 (List.replicate 80 0) (by decide) (by decide) (by decide) (by decide))
    obtain ⟨-, hblock, -, -, -, hbye, -⟩ := hreads _ _ _ _ _ _ _ w 3 hw (by decide)
    exact ⟨w, hw, hblock 0 (by decide), hbye⟩

def checkedSub (a b : UInt32) : Option UInt32 := if b ≤ a then some (a - b) else none

def rtcpRoundTrip (nowMiddle32 : UInt32) (block : RtcpReportBlock) : Option UInt32 :=
  if block.lastSr = 0 then none
  else (checkedSub nowMiddle32 block.delaySinceLastSr).bind fun held => checkedSub held block.lastSr

def answerTo (b : RtcpReportBlock) (t d : Nat) : RtcpReportBlock :=
  { b with lastSr := UInt32.ofNat t, delaySinceLastSr := UInt32.ofNat d }

/-- The round trip comes out exactly when the clock does not pass zero on the way. -/
theorem rtcpRoundTrip_some_iff (b : RtcpReportBlock) {t d r : Nat} (ht : t % 2 ^ 32 ≠ 0) (hd : d < 2 ^ 31) (hr : r < 2 ^ 31) :
    rtcpRoundTrip (UInt32.ofNat (t + d + r)) (answerTo b t d) = some (UInt32.ofNat r) ↔ t % 2 ^ 32 + d + r < 2 ^ 32 := by
  have hsent : (UInt32.ofNat t).toNat = t % 2 ^ 32 := UInt32.toNat_ofNat'
  have hheld : (UInt32.ofNat d).toNat = d := UInt32.toNat_ofNat_of_lt' (by unfold UInt32.size; omega)
  have htook : (UInt32.ofNat r).toNat = r := UInt32.toNat_ofNat_of_lt' (by unfold UInt32.size; omega)
  have hnow : (UInt32.ofNat (t + d + r)).toNat = (t % 2 ^ 32 + d + r) % 2 ^ 32 := by
    rw [UInt32.toNat_ofNat', Nat.add_assoc, Nat.add_assoc, Nat.mod_add_mod]
  have hnamed : UInt32.ofNat t ≠ 0 := by
    intro h
    rw [h] at hsent
    exact ht hsent.symm
  show (if UInt32.ofNat t = 0 then none
    else (checkedSub _ (UInt32.ofNat d)).bind fun held => checkedSub held (UInt32.ofNat t)) = _ ↔ _
  rw [if_neg hnamed]
  have hlt := Nat.mod_lt t (show 0 < 2 ^ 32 by decide)
  unfold checkedSub
  by_cases hback : UInt32.ofNat d ≤ UInt32.ofNat (t + d + r)
  · rw [if_pos hback, bind_some]
    have hsub := UInt32.toNat_sub_of_le _ _ hback
    rw [UInt32.le_iff_toNat_le, hheld, hnow] at hback
    rw [hheld, hnow] at hsub
    by_cases hwrap : UInt32.ofNat t ≤ UInt32.ofNat (t + d + r) - UInt32.ofNat d
    · rw [if_pos hwrap, Option.some.injEq, ← UInt32.toNat_inj, UInt32.toNat_sub_of_le _ _ hwrap, hsub, hsent, htook]
      rw [UInt32.le_iff_toNat_le, hsub, hsent] at hwrap
      omega
    · rw [if_neg hwrap]
      rw [UInt32.le_iff_toNat_le, hsub, hsent] at hwrap
      refine iff_of_false nofun ?_
      omega
  · rw [if_neg hback, Option.bind_none]
    rw [UInt32.le_iff_toNat_le, hheld, hnow] at hback
    refine iff_of_false nofun ?_
    omega

theorem rtcpRoundTrip_some_plain :
    rtcpRoundTrip 305 (answerTo lostBlock 300 3) = some 2 :=
  (rtcpRoundTrip_some_iff lostBlock (t := 300) (d := 3) (r := 2) (by decide) (by decide) (by decide)).mpr (by decide)

/-- A report sent in the clock's last unit and answered at once: two units later there is no round trip. -/
theorem rtcpRoundTrip_over_zero :
    rtcpRoundTrip (UInt32.ofNat (4294967295 + 0 + 2)) (answerTo lostBlock 4294967295 0) ≠ some (UInt32.ofNat 2) := by
  decide

end Wave.Common.RtcpWire
