import Wave.Common.StunRoundTrip

/-! # The attributes of a Binding exchange (`common/stun_core.rs`) -/

namespace Wave.Common.Stun

open Lib Lib.Bytes Common.Turn

def STUN_CLASS_REQUEST : UInt8 := 0
def STUN_CLASS_SUCCESS : UInt8 := 2
def STUN_CLASS_ERROR : UInt8 := 3
def STUN_METHOD_BINDING : UInt16 := 0x001
def ATTR_MAPPED_ADDRESS : UInt16 := 0x0001
def ATTR_USERNAME : UInt16 := 0x0006
def ATTR_ERROR_CODE : UInt16 := 0x0009
def ATTR_XOR_MAPPED_ADDRESS : UInt16 := 0x0020
def ATTR_PRIORITY : UInt16 := 0x0024
def STUN_FAMILY_IPV6 : UInt8 := 2

def attrIsComprehensionRequired (typ : UInt16) : Bool := typ < 0x8000

def firstUnknownRequiredFrom (buf : Bytes) (total : Nat) (known : List UInt16) :
    (fuel : Nat) → (at_ : Nat) → Option UInt16
  | 0, _ => none
  | fuel + 1, at_ =>
    match nextAttribute buf at_ total with
    | .attr typ _ _ next =>
      if attrIsComprehensionRequired typ && !known.contains typ then some typ
      else firstUnknownRequiredFrom buf total known fuel next
    | .stop => none
    | .malformed => none

def firstUnknownRequired (buf : Bytes) (header : StunHeader) (known : List UInt16) : Option UInt16 :=
  let total := STUN_HEADER_LEN + header.length
  firstUnknownRequiredFrom buf total known (total + 1) STUN_HEADER_LEN

structure StunAddress where
  family : UInt8
  addr : Bytes
  port : UInt16

def parseXorMappedAddress (buf : Bytes) (at_ len : Nat) (txn : Bytes) : Option StunAddress :=
  if len < 4 then none
  else
    let family := at0 buf (at_ + 1)
    let port := u16be (at0 buf (at_ + 2)) (at0 buf (at_ + 3)) ^^^ (STUN_MAGIC >>> 16).toUInt16
    if family = STUN_FAMILY_IPV4 then
      if len < 8 then none
      else some ⟨family, xorWith (slice buf (at_ + 4) (at_ + 8)) (be32 STUN_MAGIC) ++ List.replicate 12 0, port⟩
    else if family = STUN_FAMILY_IPV6 then
      if len < 20 then none
      else some ⟨family, xorWith (slice buf (at_ + 4) (at_ + 20)) (be32 STUN_MAGIC ++ txn), port⟩
    else none

def parseMappedAddress (buf : Bytes) (at_ len : Nat) : Option StunAddress :=
  if len < 8 then none
  else
    let family := at0 buf (at_ + 1)
    let take := if family = STUN_FAMILY_IPV6 then 16 else 4
    if len < 4 + take then none
    else some ⟨family, slice buf (at_ + 4) (at_ + 4 + take) ++ List.replicate (16 - take) 0,
      u16be (at0 buf (at_ + 2)) (at0 buf (at_ + 3))⟩

/-- The value both XOR-addresses of an IPv4 peer have. -/
def xorAddressV4 (addr : UInt32) (port : UInt16) : Bytes :=
  [0, STUN_FAMILY_IPV4] ++ be16 (port ^^^ (STUN_MAGIC >>> 16).toUInt16) ++ be32 (addr ^^^ STUN_MAGIC)

def appendXorMappedAddressV4 (addr : UInt32) (port : UInt16) (w : Written) : Option Written :=
  appendAttribute ATTR_XOR_MAPPED_ADDRESS (xorAddressV4 addr port) w

def appendErrorCode (code : UInt16) (reason : Bytes) (w : Written) : Option Written :=
  if ¬ (300 ≤ code ∧ code < 700) then none
  else appendAttribute ATTR_ERROR_CODE ([0, 0, (code / 100).toUInt8, (code % 100).toUInt8] ++ reason.take 64) w

def parseErrorCode (buf : Bytes) (at_ len : Nat) : Option UInt16 :=
  if len < 4 then none
  else
    let cls := (at0 buf (at_ + 2) &&& 0x07).toUInt16
    let number := (at0 buf (at_ + 3)).toUInt16
    if ¬ (3 ≤ cls ∧ cls < 7) ∨ number > 99 then none else some (cls * 100 + number)

section Closed

variable {cls : UInt8} {method : UInt16} {txn : Bytes} {attrs : List (UInt16 × Bytes)}

/-- A message that a FINGERPRINT alone closes. -/
def closed (cls : UInt8) (method : UInt16) (txn : Bytes) (attrs : List (UInt16 × Bytes)) : Bytes :=
  headerBytes cls method ((listed attrs).length + 8) txn ++ listed (attrs ++ [fingerprintOver cls method txn attrs])

theorem length_closed_attrs (cls : UInt8) (method : UInt16) (txn : Bytes) (attrs : List (UInt16 × Bytes)) :
    (listed (attrs ++ [fingerprintOver cls method txn attrs])).length = (listed attrs).length + 8 := by
  rw [listed_concat, length_append, length_fingerprintOver]

theorem length_closed (htxn : txn.length = 12) :
    (closed cls method txn attrs).length = STUN_HEADER_LEN + ((listed attrs).length + 8) := by
  rw [closed, length_append, length_headerBytes _ _ _ htxn, length_closed_attrs]

theorem closed_written {w : Written} {length : Nat} (hw : Holds w cls method length txn (listed attrs))
    (htxn : txn.length = 12) (hroom : w.pos + 8 ≤ w.out.length) (hmax : (listed attrs).length + 8 ≤ U16_MAX) :
    ∃ w', appendFingerprint w = some w' ∧ Holds w' cls method ((listed attrs).length + 8) txn
      (listed (attrs ++ [fingerprintOver cls method txn attrs])) := by
  have h20 : STUN_HEADER_LEN = 20 := rfl
  have hpos := hw.pos
  obtain ⟨w₁, hset, hw₁, hpos₁, hout₁⟩ := holds_length hw htxn (w.pos + 4 + 4) (by omega) (by omega)
  have htotal : w.pos + 4 + 4 - STUN_HEADER_LEN = (listed attrs).length + 8 := by omega
  rw [htotal] at hw₁
  obtain ⟨w₂, hadd, hw₂, hout₂⟩ := holds_attribute hw₁ (fingerprintOver cls method txn attrs)
    (by rw [length_fingerprintOver]; omega) (by rw [fingerprintOver_length]; decide)
  rw [← listed_concat] at hw₂
  refine ⟨w₂, ?_, hw₂⟩
  rw [appendFingerprint, if_neg (by omega), hset, bind_eq_bind, bind_some, hw₁.bytes]
  exact hadd

theorem closed_built (cls : UInt8) (method : UInt16) (htxn : txn.length = 12) (attrs : List (UInt16 × Bytes)) (out : Bytes)
    (hroom : STUN_HEADER_LEN + ((listed attrs).length + 8) ≤ out.length) (hmax : (listed attrs).length + 8 ≤ U16_MAX) :
    ∃ w₀ w₁ w₂, writeStunHeader cls method txn out = some w₀ ∧ appendAttributes attrs w₀ = some w₁ ∧
      appendFingerprint w₁ = some w₂ ∧ Holds w₂ cls method ((listed attrs).length + 8) txn
        (listed (attrs ++ [fingerprintOver cls method txn attrs])) := by
  obtain ⟨w₀, hhead, hw₀, hout₀⟩ := holds_header cls method htxn out (by omega)
  have hpos₀ := hw₀.pos
  rw [length_nil, Nat.add_zero] at hpos₀
  obtain ⟨w₁, hadd, hw₁, hout₁⟩ := holds_attributes hw₀ attrs (by rw [← listed]; omega) (by rw [← listed]; omega)
  rw [nil_append, ← listed] at hw₁
  have hpos₁ := hw₁.pos
  obtain ⟨w₂, hclose, hw₂⟩ := closed_written hw₁ htxn (by omega) hmax
  exact ⟨w₀, w₁, w₂, hhead, hadd, hclose, hw₂⟩

section Reading

variable (hc : cls < 4) (hm : method < 4096) (htxn : txn.length = 12) (hmax : (listed attrs).length + 8 ≤ U16_MAX)
  (hfp : ∀ a ∈ attrs, a.1 ≠ ATTR_FINGERPRINT)

include hc hm htxn hmax hfp

theorem closed_read :
    let header : StunHeader := ⟨cls, method, (listed attrs).length + 8, txn⟩
    parseStunHeader (closed cls method txn attrs) = some header ∧
      walk (closed cls method txn attrs) (STUN_HEADER_LEN + header.length) STUN_HEADER_LEN =
        (spans STUN_HEADER_LEN (attrs ++ [fingerprintOver cls method txn attrs]), .stop) ∧
      verifyFingerprint (closed cls method txn attrs) header = true := by
  have hlen := length_closed_attrs cls method txn attrs
  have hhead := length_headerBytes cls method ((listed attrs).length + 8) htxn
  refine ⟨?_, ?_, fingerprint_verified cls method htxn hfp hmax⟩
  · have hparse := parse_headerBytes hc hm htxn (by rw [hlen]; exact hmax)
      (listed_words (attrs ++ [fingerprintOver cls method txn attrs]))
    rw [hlen] at hparse
    exact hparse
  · have hwalk := walk_bytes (listed_values (by rw [hlen]; exact hmax))
      (headerBytes cls method ((listed attrs).length + 8) txn)
    rw [← listed, length_append, hhead, hlen] at hwalk
    exact hwalk

theorem closed_find (before : List (UInt16 × Bytes)) {rest : List (UInt16 × Bytes)} {a : UInt16 × Bytes}
    (hattrs : attrs = before ++ a :: rest) (h : ∀ b ∈ before, b.1 ≠ a.1) :
    ∃ pre post, closed cls method txn attrs = pre ++ (a.2 ++ post) ∧
      findAttribute (closed cls method txn attrs) ⟨cls, method, (listed attrs).length + 8, txn⟩ a.1 =
        some (pre.length, a.2.length) := by
  obtain ⟨-, hwalk, -⟩ := closed_read hc hm htxn hmax hfp
  have hall : attrs ++ [fingerprintOver cls method txn attrs] =
      before ++ a :: (rest ++ [fingerprintOver cls method txn attrs]) := by
    rw [hattrs, append_assoc, cons_append]
  refine ⟨headerBytes cls method ((listed attrs).length + 8) txn ++ (listed before ++ (be16 a.1 ++
    be16 (UInt16.ofNat a.2.length))), List.replicate (pad4 a.2.length - a.2.length) 0 ++
      listed (rest ++ [fingerprintOver cls method txn attrs]), ?_, ?_⟩
  · rw [closed, hall]
    simp [listed, flatMap_append, attributeBytes]
  · rw [findAttribute_walk, hwalk, hall, find_behind h rfl]
    simp only [map_some, length_append, length_headerBytes _ _ _ htxn, length_be16, Nat.add_assoc]

end Reading

end Closed

theorem length_xorAddressV4 (addr : UInt32) (port : UInt16) : (xorAddressV4 addr port).length = 8 := rfl

theorem parse_xorAddressV4 (addr : UInt32) (port : UInt16) (txn pre post : Bytes) :
    parseXorMappedAddress (pre ++ (xorAddressV4 addr port ++ post)) pre.length (xorAddressV4 addr port).length txn =
      some ⟨STUN_FAMILY_IPV4, be32 addr ++ List.replicate 12 0, port⟩ := by
  have hfamily : at0 (pre ++ (xorAddressV4 addr port ++ post)) (pre.length + 1) = STUN_FAMILY_IPV4 := by
    rw [at0_behind]
    rfl
  have hport : u16be (at0 (pre ++ (xorAddressV4 addr port ++ post)) (pre.length + 2))
      (at0 (pre ++ (xorAddressV4 addr port ++ post)) (pre.length + 3)) = port ^^^ (STUN_MAGIC >>> 16).toUInt16 := by
    rw [at0_behind, at0_behind]
    exact u16be_be16 _
  have haddr : slice (pre ++ (xorAddressV4 addr port ++ post)) (pre.length + 4) (pre.length + 8) =
      be32 (addr ^^^ STUN_MAGIC) := by
    have hmiddle := slice_middle (pre ++ ([0, STUN_FAMILY_IPV4] ++ be16 (port ^^^ (STUN_MAGIC >>> 16).toUInt16)))
      (be32 (addr ^^^ STUN_MAGIC)) post
    simp only [length_append, length_be16, length_be32, append_assoc] at hmiddle
    simp only [xorAddressV4, append_assoc]
    exact hmiddle
  unfold parseXorMappedAddress
  dsimp only
  rw [hfamily, hport, haddr, be32_xor, xorWith_xorWith_cancel (be32 addr) (be32 STUN_MAGIC) le_rfl, UInt16.xor_assoc, UInt16.xor_self,
    UInt16.xor_zero]
  rfl

section Relayed

variable {txn payload packet out rest : Bytes} {peerAddr : UInt32} {peerPort channel : UInt16} {w : Written}

theorem appendFingerprint_max (h : (appendFingerprint w).isSome) : w.pos + 8 - STUN_HEADER_LEN ≤ U16_MAX := by
  unfold appendFingerprint at h
  split_ifs at h
  · cases h
  · cases hset : stunSetLength w (w.pos + 4 + 4) with
    | none => rw [hset] at h; cases h
    | some w' => exact ((stunSetLength_isSome_iff w _).mp (by rw [hset]; rfl)).2.1

theorem sendIndication_bytes (htxn : txn.length = 12)
    (h : writeSendIndication txn peerAddr peerPort payload out = some w) :
    (listed [(ATTR_XOR_PEER_ADDRESS, xorAddressV4 peerAddr peerPort), (ATTR_DATA, payload)]).length + 8 ≤ U16_MAX ∧
      w.out.take w.pos = closed STUN_CLASS_INDICATION TURN_METHOD_SEND txn
        [(ATTR_XOR_PEER_ADDRESS, xorAddressV4 peerAddr peerPort), (ATTR_DATA, payload)] := by
  have h20 : STUN_HEADER_LEN = 20 := rfl
  have hpeer8 : pad4 (xorAddressV4 peerAddr peerPort).length = 8 := by
    rw [length_xorAddressV4]
    rfl
  have hlisted : (listed [(ATTR_XOR_PEER_ADDRESS, xorAddressV4 peerAddr peerPort), (ATTR_DATA, payload)]).length =
      12 + (4 + pad4 payload.length) := by
    rw [listed, flatMap_cons, flatMap_singleton, length_append, length_attributeBytes,
      length_attributeBytes, hpeer8]
  unfold writeSendIndication at h
  simp only [bind_eq_bind, bind_eq_some_iff] at h
  obtain ⟨w₀, hhead, w₁, hpeer, w₂, hdata, w₃, hclose, hset⟩ := h
  obtain ⟨hpos₀, hout₀⟩ := writeStunHeader_some htxn hhead
  obtain ⟨hpos₁, hout₁⟩ := appendAttribute_some hpeer
  obtain ⟨hpos₂, hout₂⟩ := appendAttribute_some hdata
  obtain ⟨hpos₃, hout₃⟩ := appendFingerprint_some hclose
  have hmax := appendFingerprint_max (w := w₂) (by rw [hclose]; rfl)
  have hroom : w₃.pos ≤ w₃.out.length := by
    have hfits : ¬ w₂.pos + 4 + 4 > w₂.out.length := by
      unfold appendFingerprint at hclose
      split_ifs at hclose with hfit
      exact hfit
    omega
  change w₁.pos = w₀.pos + 4 + pad4 (xorAddressV4 peerAddr peerPort).length at hpos₁
  obtain ⟨v₀, v₁, v₂, hhead', hadd, hclose', hw⟩ := closed_built STUN_CLASS_INDICATION TURN_METHOD_SEND htxn
    [(ATTR_XOR_PEER_ADDRESS, xorAddressV4 peerAddr peerPort), (ATTR_DATA, payload)] out (by omega) (by omega)
  cases hhead.symm.trans hhead'
  have hboth : appendAttributes [(ATTR_XOR_PEER_ADDRESS, xorAddressV4 peerAddr peerPort), (ATTR_DATA, payload)] w₀ =
      some w₂ := by
    rw [appendAttributes, foldlM_cons]
    change (appendXorPeerAddressV4 peerAddr peerPort w₀ >>= _) = _
    rw [hpeer]
    exact (bind_pure _).trans hdata
  cases hboth.symm.trans hadd
  cases hclose.symm.trans hclose'
  -- the length that is set last is the length that was set
  obtain ⟨v, hset', hv, hpos, -⟩ := holds_length hw htxn w₃.pos (by omega) (by omega)
  cases hset.symm.trans hset'
  have htotal : w₃.pos - STUN_HEADER_LEN =
      (listed [(ATTR_XOR_PEER_ADDRESS, xorAddressV4 peerAddr peerPort), (ATTR_DATA, payload)]).length + 8 := by omega
  rw [htotal] at hv
  exact ⟨by omega, hv.bytes⟩

theorem parse_indication {header : StunHeader} (h : parseStunHeader packet = some header)
    (hcls : header.cls = STUN_CLASS_INDICATION) (hmethod : header.method = TURN_METHOD_SEND) :
    parse packet = (findAttribute packet header ATTR_DATA).elim .invalid fun a =>
      .indication (slice packet a.1 (a.1 + a.2)) := by
  have hplausible : stunIsPlausible packet = true := by
    unfold parseStunHeader at h
    split_ifs at h with hstun
    simpa using hstun
  simp only [stunIsPlausible, and_eq_true, decide_eq_true_eq] at hplausible
  have hshift : at0 packet 0 >>> 6 = 0 := by
    have hall : ∀ b : UInt8, b &&& 0xC0 = 0 → b >>> 6 = 0 := of_every_byte (by decide +kernel)
    exact hall _ hplausible.1.2
  have hclass : classifyRelayed packet = .stun := by
    have h20 : STUN_HEADER_LEN = 20 := rfl
    have h4 : CHANNEL_DATA_HEADER_LEN = 4 := rfl
    unfold classifyRelayed
    rw [if_neg (by omega)]
    exact if_pos hshift
  unfold parse
  rw [hclass]
  dsimp only
  rw [h]
  dsimp only
  rw [if_neg (by rw [hcls, hmethod]; decide)]
  cases findAttribute packet header ATTR_DATA <;> rfl

theorem parse_channelData (hvalid : channelNumberIsValid channel = true) (hlen : payload.length ≤ U16_MAX) :
    parse (be16 channel ++ be16 (UInt16.ofNat payload.length) ++ payload ++ rest) = .channel channel payload := by
  set buf := be16 channel ++ be16 (UInt16.ofNat payload.length) ++ payload ++ rest with hbuf
  have hchannel : u16be (at0 buf 0) (at0 buf 1) = channel := u16be_be16 _
  have hlength : (u16be (at0 buf 2) (at0 buf 3)).toNat = payload.length :=
    (congrArg UInt16.toNat (u16be_be16 _)).trans (u16be_ofNat hlen)
  have hleading : at0 buf 0 >>> 6 = 1 := by
    change (channel >>> 8).toUInt8 >>> 6 = 1
    have hrange := hvalid
    simp only [channelNumberIsValid, and_eq_true, decide_eq_true_eq, UInt16.le_iff_toNat_le] at hrange
    apply UInt8.toNat_inj.mp
    have hmin : CHANNEL_NUMBER_MIN.toNat = 0x4000 := rfl
    have hmax : CHANNEL_NUMBER_MAX.toNat = 0x7FFF := rfl
    have h1 : (8 : UInt16).toNat = 8 := rfl
    have h2 : (6 : UInt8).toNat = 6 := rfl
    have h3 : (1 : UInt8).toNat = 1 := rfl
    simp only [UInt8.toNat_shiftRight, UInt16.toNat_toUInt8, UInt16.toNat_shiftRight, Nat.shiftRight_eq_div_pow, h1, h2,
      h3, Nat.reduceMod, Nat.reducePow]
    omega
  have hclass : classifyRelayed buf = .channel channel CHANNEL_DATA_HEADER_LEN payload.length := by
    have h4 : CHANNEL_DATA_HEADER_LEN = 4 := rfl
    have hbuflen : buf.length = 4 + payload.length + rest.length := by
      rw [hbuf]
      simp only [length_append, length_be16]
    unfold classifyRelayed
    dsimp only
    rw [if_neg (by omega), hleading, if_neg (by decide), if_neg (by decide), hchannel, hvalid, if_neg (by decide), hlength,
      if_neg (by omega)]
  have hvalue := slice_middle (be16 channel ++ be16 (UInt16.ofNat payload.length)) payload rest
  unfold parse
  rw [hclass]
  dsimp only
  rw [← append_assoc, length_append, length_be16, length_be16, ← hbuf] at hvalue
  exact congrArg (TurnMedia.channel channel) hvalue

/-- What a relay's client writes, where there is room, is told apart and read back. -/
theorem relayed_read :
    (∀ (txn : FixedBytes 12) (peerAddr : UInt32) (peerPort : UInt16) (payload out : Bytes), out.length ≤ U16_MAX →
      ((writeSendIndication txn.1 peerAddr peerPort payload out).isSome ↔
        sendIndicationLen payload.length ≤ out.length)) ∧
    (∀ (txn : FixedBytes 12) (peerAddr : UInt32) (peerPort : UInt16) (payload out : Bytes) (w : Written),
      writeSendIndication txn.1 peerAddr peerPort payload out = some w →
        ∃ header, parseStunHeader (w.out.take w.pos) = some header ∧
          (header.cls = STUN_CLASS_INDICATION ∧ header.method = TURN_METHOD_SEND ∧ header.txn = txn.1) ∧
          verifyFingerprint (w.out.take w.pos) header = true ∧
          ((findAttribute (w.out.take w.pos) header ATTR_XOR_PEER_ADDRESS).bind fun a =>
            parseXorMappedAddress (w.out.take w.pos) a.1 a.2 header.txn) =
              some ⟨STUN_FAMILY_IPV4, be32 peerAddr ++ List.replicate 12 0, peerPort⟩ ∧
          parse (w.out.take w.pos) = .indication payload) ∧
    (∀ (channel : UInt16) (payload out : Bytes), out.length ≤ U16_MAX → ((writeChannelData channel payload out).isSome ↔
      channelNumberIsValid channel ∧ CHANNEL_DATA_HEADER_LEN + payload.length ≤ out.length)) ∧
      ∀ (channel : UInt16) (payload out rest : Bytes) (w : Written), writeChannelData channel payload out = some w →
        parse (w.out.take w.pos ++ rest) = .channel channel payload := by
  refine ⟨fun txn peerAddr peerPort payload out hlen => writeSendIndication_isSome peerAddr peerPort payload txn.2 hlen,
    fun txn peerAddr peerPort payload out w h => ?_, fun channel payload out hlen => writeChannelData_isSome hlen,
    fun channel payload out rest w h => ?_⟩
  · obtain ⟨hmax, hbytes⟩ := sendIndication_bytes txn.2 h
    have hfp : ∀ a ∈ [(ATTR_XOR_PEER_ADDRESS, xorAddressV4 peerAddr peerPort), (ATTR_DATA, payload)],
        a.1 ≠ ATTR_FINGERPRINT := by simp; decide
    obtain ⟨hparse, -, hverify⟩ := closed_read (show STUN_CLASS_INDICATION < 4 by decide)
      (show TURN_METHOD_SEND < 4096 by decide) txn.2 hmax hfp
    obtain ⟨pre, post, hpeer, hfind⟩ := closed_find (show STUN_CLASS_INDICATION < 4 by decide)
      (show TURN_METHOD_SEND < 4096 by decide) txn.2 hmax hfp [] rfl (forall_mem_nil _)
    obtain ⟨pre', post', hdata, hfind'⟩ := closed_find (show STUN_CLASS_INDICATION < 4 by decide)
      (show TURN_METHOD_SEND < 4096 by decide) txn.2 hmax hfp
      [(ATTR_XOR_PEER_ADDRESS, xorAddressV4 peerAddr peerPort)] rfl (by simp; decide)
    rw [hbytes]
    refine ⟨_, hparse, ⟨rfl, rfl, rfl⟩, hverify, ?_, ?_⟩
    · rw [hfind, bind_some, hpeer]
      exact parse_xorAddressV4 peerAddr peerPort txn.1 pre post
    · rw [parse_indication hparse rfl rfl, hfind', Option.elim_some, hdata, slice_middle]
  · unfold writeChannelData at h
    dsimp only at h
    split_ifs at h with hvalid hlen
    cases h
    have htake := take_splice (be16 channel ++ be16 (UInt16.ofNat payload.length) ++ payload) (Nat.zero_le out.length)
    rw [Nat.zero_add, take_zero, nil_append, length_append, length_append, length_be16,
      length_be16] at htake
    change parse ((splice out 0 (be16 channel ++ be16 (UInt16.ofNat payload.length) ++ payload)).take
      (2 + 2 + payload.length) ++ rest) = _
    rw [htake]
    exact parse_channelData (by simpa using hvalid) (by omega)

/-- A payload through a buffer of 64 bytes, in both framings. -/
theorem relayed_read_sample :
    (∃ w, writeSendIndication (List.replicate 12 7) 0x0A000001 3478 [1, 2, 3] (List.replicate 64 0) = some w ∧
      parse (w.out.take w.pos) = .indication [1, 2, 3]) ∧
    ∃ w, writeChannelData 0x4000 [1, 2, 3] (List.replicate 64 0) = some w ∧
      parse (w.out.take w.pos ++ [0]) = .channel 0x4000 [1, 2, 3] := by
  obtain ⟨hsend, hreadSend, hchannel, hreadChannel⟩ := relayed_read
  have hmax : (List.replicate 64 (0 : UInt8)).length ≤ U16_MAX := by decide
  obtain ⟨w, hw⟩ := isSome_iff_exists.mp
    ((hsend ⟨List.replicate 12 7, rfl⟩ 0x0A000001 3478 [1, 2, 3] _ hmax).mpr (by decide))
  obtain ⟨v, hv⟩ := isSome_iff_exists.mp ((hchannel 0x4000 [1, 2, 3] _ hmax).mpr (by decide))
  obtain ⟨-, -, -, -, -, hpayload⟩ := hreadSend ⟨List.replicate 12 7, rfl⟩ 0x0A000001 3478 [1, 2, 3] _ w hw
  exact ⟨⟨w, hw, hpayload⟩, v, hv, hreadChannel 0x4000 [1, 2, 3] _ [0] v hv⟩

end Relayed

end Wave.Common.Stun
