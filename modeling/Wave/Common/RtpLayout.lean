import Wave.Common.RtpCore

/-! # The parts of an RTP packet (`common/rtp_core.rs`)

`RtpPacket` is a packet by its parts, each as long as the part before it says. -/

namespace Wave.Common.RtpCore

open Lib Lib.Bytes

variable {b0 : UInt8}

structure RtpExtension where
  profile : UInt16
  count : UInt16
  words : Bytes
  length_words : words.length = 4 * count.toNat

def RtpExtension.bytes (e : RtpExtension) : Bytes := be16 e.profile ++ (be16 e.count ++ e.words)

def extensionBytes (e : Option RtpExtension) : Bytes := (e.map RtpExtension.bytes).getD []

def Padded (b0 : UInt8) (padding : Bytes) : Prop :=
  if b0 &&& 0x20 = 0 then padding = []
  else padding ≠ [] ∧ (at0 padding (padding.length - 1)).toNat = padding.length

structure RtpPacket where
  fixed : FixedBytes RTP_HEADER_SIZE
  csrcs : Bytes
  extension : Option RtpExtension
  payload : Bytes
  padding : Bytes
  version : (at0 fixed.val 0 >>> 6) &&& 0x03 = RTP_VERSION
  length_csrcs : csrcs.length = (at0 fixed.val 0 &&& 0x0F).toNat * 4
  extends_iff : extension.isSome ↔ at0 fixed.val 0 &&& 0x10 ≠ 0
  payload_ne : payload ≠ []
  padded : Padded (at0 fixed.val 0) padding

namespace RtpPacket

def front (p : RtpPacket) : Bytes := p.fixed.val ++ p.csrcs ++ extensionBytes p.extension

def bytes (p : RtpPacket) : Bytes := p.front ++ p.payload ++ p.padding

def header (p : RtpPacket) : RtpHeader where
  payloadType := at0 p.fixed.val 1 &&& 0x7F
  marker := at0 p.fixed.val 1 &&& 0x80 ≠ 0
  seq := u16be (at0 p.fixed.val 2) (at0 p.fixed.val 3)
  timestamp := u32be (at0 p.fixed.val 4) (at0 p.fixed.val 5) (at0 p.fixed.val 6) (at0 p.fixed.val 7)
  ssrc := u32be (at0 p.fixed.val 8) (at0 p.fixed.val 9) (at0 p.fixed.val 10) (at0 p.fixed.val 11)
  payloadStart := p.front.length
  payloadEnd := p.front.length + p.payload.length

end RtpPacket

theorem at0_ahead {a : Bytes} (b : Bytes) {i : Nat} (h : i < a.length) : at0 (a ++ b) i = at0 a i := by
  rw [at0, at0, List.getD_eq_getElem?_getD, List.getElem?_append_left h, ← List.getD_eq_getElem?_getD]

theorem be16_u16be (a b : UInt8) : be16 (u16be a b) = [a, b] := by
  have ha := a.toNat_lt
  have hb := b.toNat_lt
  simp only [be16, List.cons.injEq, and_true]
  constructor
  · apply UInt8.toNat.inj
    simp [u16be, Nat.shiftRight_eq_div_pow]
    omega
  · apply UInt8.toNat.inj
    simp [u16be]

theorem toNat_u16be (a b : UInt8) : (u16be a b).toNat = a.toNat * 256 + b.toNat := by
  have ha := a.toNat_lt
  have hb := b.toNat_lt
  simp only [u16be, UInt16.toNat_ofNat']
  omega

theorem count_be16 (n : UInt16) : (n >>> 8).toUInt8.toNat * 256 + n.toUInt8.toNat = n.toNat := by
  rw [← toNat_u16be, u16be_be16]

theorem RtpExtension.length_bytes (e : RtpExtension) : e.bytes.length = 4 + e.count.toNat * 4 := by
  rw [bytes, length_append, length_append, length_be16, length_be16, e.length_words]
  omega

theorem skipExtension_some {front rest : Bytes} (e : Option RtpExtension)
    (hext : e.isSome ↔ b0 &&& 0x10 ≠ 0) (hrest : rest ≠ []) :
    skipExtension (front ++ (extensionBytes e ++ rest)) b0 front.length =
      some (front.length + (extensionBytes e).length) := by
  have hpos : 0 < rest.length := length_pos_of_ne_nil hrest
  cases e with
  | none =>
    have hx : b0 &&& 0x10 = 0 := by simpa using hext
    rw [skipExtension, if_pos hx]
    rfl
  | some e =>
    have hx : ¬b0 &&& 0x10 = 0 := by simpa using hext
    have hlen := e.length_bytes
    have hcount : (at0 (front ++ (e.bytes ++ rest)) (front.length + 2)).toNat * 256 +
        (at0 (front ++ (e.bytes ++ rest)) (front.length + 3)).toNat = e.count.toNat := by
      rw [at0_behind, at0_behind]
      exact count_be16 e.count
    have hlong : ¬(front ++ (e.bytes ++ rest)).length < front.length + 4 := by
      rw [length_append, length_append]
      omega
    have hfits : ¬(front ++ (e.bytes ++ rest)).length ≤ front.length + (4 + e.count.toNat * 4) := by
      rw [length_append, length_append]
      omega
    show skipExtension (front ++ (e.bytes ++ rest)) b0 front.length = some (front.length + e.bytes.length)
    dsimp only [skipExtension]
    rw [if_neg hx, if_neg hlong, hcount, if_neg hfits, hlen]

theorem exists_extension {front rest : Bytes} {stop : Nat}
    (h : skipExtension (front ++ rest) b0 front.length = some stop) :
    ∃ e after, (Option.isSome e ↔ b0 &&& 0x10 ≠ 0) ∧ rest = extensionBytes e ++ after ∧
      stop = front.length + (extensionBytes e).length := by
  dsimp only [skipExtension] at h
  by_cases hx : b0 &&& 0x10 = 0
  · rw [if_pos hx, Option.some.injEq] at h
    exact ⟨none, rest, by simpa using hx, rfl, h.symm⟩
  rw [if_neg hx] at h
  by_cases hlong : (front ++ rest).length < front.length + 4
  · rw [if_pos hlong] at h
    cases h
  rw [if_neg hlong, length_append] at h
  rw [length_append] at hlong
  obtain ⟨c0, c1, c2, c3, words, rfl⟩ : ∃ c0 c1 c2 c3 words, rest = c0 :: c1 :: c2 :: c3 :: words := by
    match rest, hlong with
    | c0 :: c1 :: c2 :: c3 :: words, _ => exact ⟨c0, c1, c2, c3, words, rfl⟩
    | [], hlong | [_], hlong | [_, _], hlong | [_, _, _], hlong => exact absurd (by simp) hlong
  rw [at0_behind, at0_behind] at h
  change (if _ ≤ front.length + (4 + (c2.toNat * 256 + c3.toNat) * 4) then none else
    some (front.length + (4 + (c2.toNat * 256 + c3.toNat) * 4))) = some stop at h
  rw [← toNat_u16be] at h
  split_ifs at h with hfits
  have hwords : (words.take (4 * (u16be c2 c3).toNat)).length = 4 * (u16be c2 c3).toNat := by
    simp only [length_cons] at hfits
    rw [length_take]
    omega
  refine ⟨some ⟨u16be c0 c1, u16be c2 c3, words.take (4 * (u16be c2 c3).toNat), hwords⟩,
    words.drop (4 * (u16be c2 c3).toNat), by simpa using hx, ?_, ?_⟩
  · simp only [extensionBytes, map_some, getD_some, RtpExtension.bytes, be16_u16be,
      cons_append, nil_append, take_append_drop]
  · rw [Option.some.injEq] at h
    rw [← h]
    exact congrArg _ (RtpExtension.length_bytes ⟨u16be c0 c1, u16be c2 c3, _, hwords⟩).symm

theorem stripPadding_some {front payload padding : Bytes} (h : Padded b0 padding) :
    stripPadding (front ++ (payload ++ padding)) b0 front.length = some (front.length + payload.length) := by
  dsimp only [stripPadding]
  rw [Padded] at h
  by_cases hp : b0 &&& 0x20 = 0
  · rw [if_pos hp] at h
    rw [if_pos hp, h, append_nil, length_append]
  · rw [if_neg hp] at h
    obtain ⟨hne, hlast⟩ := h
    have hpos : 0 < padding.length := length_pos_of_ne_nil hne
    have hlen : (front ++ (payload ++ padding)).length = front.length + payload.length + padding.length := by
      rw [length_append, length_append, Nat.add_assoc]
    have hpad : (at0 (front ++ (payload ++ padding)) ((front ++ (payload ++ padding)).length - 1)).toNat =
        padding.length := by
      rw [hlen, ← append_assoc,
        show front.length + payload.length + padding.length - 1 =
          (front ++ payload).length + (padding.length - 1) from by rw [length_append]; omega, at0_behind]
      exact hlast
    rw [if_neg hp, hpad, if_neg (by omega), hlen]
    exact congrArg some (by omega)

theorem exists_padding {front rest : Bytes} {stop : Nat} (h : stripPadding (front ++ rest) b0 front.length = some stop) :
    ∃ payload padding, Padded b0 padding ∧ rest = payload ++ padding ∧
      stop = front.length + payload.length := by
  dsimp only [stripPadding] at h
  by_cases hp : b0 &&& 0x20 = 0
  · rw [if_pos hp, Option.some.injEq, length_append] at h
    exact ⟨rest, [], by rw [Padded, if_pos hp], (append_nil _).symm, h.symm⟩
  rw [if_neg hp] at h
  split_ifs at h with hpad
  rw [Option.some.injEq] at h
  generalize hn : (at0 (front ++ rest) ((front ++ rest).length - 1)).toNat = n at h hpad
  rw [length_append] at h hpad
  have hcut : (rest.drop (rest.length - n)).length = n := by
    rw [length_drop]
    omega
  refine ⟨rest.take (rest.length - n), rest.drop (rest.length - n), ?_, (take_append_drop _ _).symm, ?_⟩
  · have hback : at0 (front ++ rest) ((front ++ rest).length - 1) =
        at0 (rest.drop (rest.length - n)) (n - 1) := by
      have hsplit : front ++ rest = front ++ rest.take (rest.length - n) ++ rest.drop (rest.length - n) := by
        rw [append_assoc, take_append_drop]
      have hlast : (front ++ rest).length - 1 = (front ++ rest.take (rest.length - n)).length + (n - 1) := by
        rw [length_append, length_append, length_take]
        omega
      rw [hlast, hsplit, at0_behind]
    rw [Padded, if_neg hp]
    refine ⟨fun hnil => hpad (.inl ?_), ?_⟩
    · rw [← hcut, hnil, length_nil]
    · rw [hcut, ← hback]
      exact hn
  · rw [length_take]
    omega

namespace RtpPacket

theorem length_front (p : RtpPacket) :
    p.front.length = RTP_HEADER_SIZE + (at0 p.fixed.val 0 &&& 0x0F).toNat * 4 + (extensionBytes p.extension).length := by
  rw [front, length_append, length_append, p.fixed.property, p.length_csrcs]

theorem bytes_eq (p : RtpPacket) :
    p.bytes = p.fixed.val ++ p.csrcs ++ (extensionBytes p.extension ++ (p.payload ++ p.padding)) := by
  simp only [bytes, front, append_assoc]

theorem at0_bytes (p : RtpPacket) {i : Nat} (h : i < RTP_HEADER_SIZE) : at0 p.bytes i = at0 p.fixed.val i := by
  rw [bytes_eq, append_assoc, at0_ahead _ (by rw [p.fixed.property]; exact h)]

theorem length_head (p : RtpPacket) :
    (p.fixed.val ++ p.csrcs).length = RTP_HEADER_SIZE + (at0 p.fixed.val 0 &&& 0x0F).toNat * 4 := by
  rw [length_append, p.fixed.property, p.length_csrcs]

theorem payloadRange_bytes (p : RtpPacket) :
    payloadRange p.bytes = some (p.front.length, p.front.length + p.payload.length) := by
  have hpos : 0 < p.payload.length := length_pos_of_ne_nil p.payload_ne
  have hskip : skipExtension p.bytes (at0 p.fixed.val 0)
      (RTP_HEADER_SIZE + (at0 p.fixed.val 0 &&& 0x0F).toNat * 4) = some p.front.length := by
    rw [bytes_eq, ← length_head, skipExtension_some _ p.extends_iff (by simp [p.payload_ne])]
    rw [length_front, length_head]
  have hstrip : stripPadding p.bytes (at0 p.fixed.val 0) p.front.length =
      some (p.front.length + p.payload.length) := by
    rw [bytes, append_assoc]
    exact stripPadding_some p.padded
  simp only [payloadRange, p.at0_bytes (by decide : 0 < RTP_HEADER_SIZE), hskip, hstrip, bind_eq_bind,
    bind_some]
  rw [if_neg (by omega)]

theorem rtpParse_bytes (p : RtpPacket) : rtpParse p.bytes = some p.header := by
  have hpos : 0 < p.payload.length := length_pos_of_ne_nil p.payload_ne
  have hlen : p.bytes.length = p.front.length + p.payload.length + p.padding.length := by
    rw [bytes, length_append, length_append]
  have hfront := p.length_front
  have hat : ∀ i, i < RTP_HEADER_SIZE → at0 p.bytes i = at0 p.fixed.val i := fun i => p.at0_bytes
  dsimp only [rtpParse]
  rw [if_neg (by omega), hat 0 (by decide), if_neg (not_not_intro p.version), if_neg (by omega),
    payloadRange_bytes, map_some, hat 1 (by decide), hat 2 (by decide), hat 3 (by decide), hat 4 (by decide),
    hat 5 (by decide), hat 6 (by decide), hat 7 (by decide), hat 8 (by decide), hat 9 (by decide),
    hat 10 (by decide), hat 11 (by decide)]
  rfl

theorem exists_of_rtpParse {pkt : Bytes} {h : RtpHeader} (hparse : rtpParse pkt = some h) :
    ∃ p : RtpPacket, p.bytes = pkt := by
  dsimp only [rtpParse] at hparse
  split_ifs at hparse with hshort hversion hlist
  obtain ⟨⟨start, stop⟩, hrange, -⟩ := map_eq_some_iff.mp hparse
  generalize hb0 : at0 pkt 0 = b0 at hversion hlist
  simp only [payloadRange, hb0, bind_eq_bind, bind_eq_some_iff] at hrange
  obtain ⟨mid, hskip, stop', hstrip, hne⟩ := hrange
  split_ifs at hne with hempty
  -- The fixed header and the list, by their lengths.
  have hfixed : (pkt.take RTP_HEADER_SIZE).length = RTP_HEADER_SIZE := by
    rw [length_take]
    omega
  have hcsrcs : ((pkt.drop RTP_HEADER_SIZE).take ((b0 &&& 0x0F).toNat * 4)).length = (b0 &&& 0x0F).toNat * 4 := by
    rw [length_take, length_drop]
    omega
  have hsplit : pkt = pkt.take RTP_HEADER_SIZE ++ (pkt.drop RTP_HEADER_SIZE).take ((b0 &&& 0x0F).toNat * 4) ++
      (pkt.drop RTP_HEADER_SIZE).drop ((b0 &&& 0x0F).toNat * 4) := by
    rw [append_assoc, take_append_drop, take_append_drop]
  generalize pkt.take RTP_HEADER_SIZE = fixed at hfixed hsplit
  generalize (pkt.drop RTP_HEADER_SIZE).take ((b0 &&& 0x0F).toNat * 4) = csrcs at hcsrcs hsplit
  generalize (pkt.drop RTP_HEADER_SIZE).drop ((b0 &&& 0x0F).toNat * 4) = rest at hsplit
  have hhead : RTP_HEADER_SIZE + (b0 &&& 0x0F).toNat * 4 = (fixed ++ csrcs).length := by
    rw [length_append, hfixed, hcsrcs]
  have hbyte : at0 fixed 0 = b0 := by
    rw [← hb0, hsplit, append_assoc, at0_ahead _ (by rw [hfixed]; decide)]
  -- The extension and the padding, by what the walk over them found.
  rw [hhead, hsplit] at hskip
  obtain ⟨e, after, hext, rfl, rfl⟩ := exists_extension hskip
  rw [hsplit, ← append_assoc, ← length_append] at hstrip
  obtain ⟨payload, padding, hpadded, rfl, rfl⟩ := exists_padding hstrip
  refine ⟨⟨⟨fixed, hfixed⟩, csrcs, e, payload, padding, ?_, ?_, ?_, ?_, ?_⟩, ?_⟩
  · rw [hbyte]
    exact not_not.mp hversion
  · rw [hbyte]
    exact hcsrcs
  · rw [hbyte]
    exact hext
  · rintro rfl
    rw [length_nil, Nat.add_zero, length_append] at hempty
    exact hempty rfl
  · rw [hbyte]
    exact hpadded
  · exact Eq.trans (by simp only [bytes, front, append_assoc]) hsplit.symm

end RtpPacket

/-- An element of the one-byte profile: a descriptor, and one byte more than its low half says. -/
structure ExtElement where
  descriptor : UInt8
  data : Bytes
  descriptor_ne : descriptor ≠ 0
  length_data : data.length = (descriptor &&& 0x0F).toNat + 1

def ExtElement.id (e : ExtElement) : UInt8 := e.descriptor >>> 4

inductive ExtItem where
  | padding
  | element (e : ExtElement)

def ExtItem.bytes : ExtItem → Bytes
  | .padding => [0]
  | .element e => e.descriptor :: e.data

/-- `data` is in the first element with id 10, and no element with id 15 is before it. -/
def FirstMid (words data : Bytes) : Prop :=
  ∃ (skipped : List ExtItem) (mid : ExtElement) (rest : Bytes),
    (∀ e, ExtItem.element e ∈ skipped → e.id ≠ 10 ∧ e.id ≠ 15) ∧ mid.id = 10 ∧ mid.data = data ∧
      words = skipped.flatMap ExtItem.bytes ++ (mid.descriptor :: (mid.data ++ rest))

theorem not_firstMid_nil (data : Bytes) : ¬FirstMid [] data := by
  rintro ⟨skipped, mid, rest, -, -, -, hwords⟩
  exact absurd hwords.symm (by simp)

theorem firstMid_padding {words data : Bytes} : FirstMid (0 :: words) data ↔ FirstMid words data := by
  constructor
  · rintro ⟨skipped, mid, rest, hskipped, hid, hdata, hwords⟩
    match skipped, hskipped, hwords with
    | [], _, hwords => exact absurd (List.cons.inj hwords).1.symm mid.descriptor_ne
    | .padding :: skipped, hskipped, hwords =>
      exact ⟨skipped, mid, rest, fun e he => hskipped e (mem_cons_of_mem _ he), hid, hdata,
        (List.cons.inj hwords).2⟩
    | .element e :: skipped, _, hwords => exact absurd (List.cons.inj hwords).1.symm e.descriptor_ne
  · rintro ⟨skipped, mid, rest, hskipped, hid, hdata, rfl⟩
    exact ⟨.padding :: skipped, mid, rest, fun e he => hskipped e (by simpa using he), hid, hdata, rfl⟩

theorem firstMid_element {c : UInt8} {words data : Bytes} (hc : c ≠ 0) :
    FirstMid (c :: words) data ↔ ∃ (e : ExtElement) (rest : Bytes), e.descriptor = c ∧ words = e.data ++ rest ∧
      (e.id = 10 ∧ e.data = data ∨ e.id ≠ 10 ∧ e.id ≠ 15 ∧ FirstMid rest data) := by
  constructor
  · rintro ⟨skipped, mid, rest, hskipped, hid, hdata, hwords⟩
    match skipped, hskipped, hwords with
    | [], _, hwords =>
      obtain ⟨hd, hw⟩ := List.cons.inj hwords
      exact ⟨mid, rest, hd.symm, hw, .inl ⟨hid, hdata⟩⟩
    | .padding :: skipped, _, hwords => exact absurd (List.cons.inj hwords).1 hc
    | .element e :: skipped, hskipped, hwords =>
      obtain ⟨hd, hw⟩ := List.cons.inj hwords
      obtain ⟨hmid, hlast⟩ := hskipped e mem_cons_self
      exact ⟨e, _, hd.symm, hw.trans (append_assoc _ _ _), .inr ⟨hmid, hlast, skipped, mid, rest,
        fun e he => hskipped e (mem_cons_of_mem _ he), hid, hdata, rfl⟩⟩
  · rintro ⟨e, rest, rfl, rfl, ⟨hid, hdata⟩ | ⟨hmid, hlast, skipped, mid, rest', hskipped, hid, hdata, rfl⟩⟩
    · exact ⟨[], e, rest, by simp, hid, hdata, rfl⟩
    · refine ⟨.element e :: skipped, mid, rest', fun e' he' => ?_, hid, hdata, ?_⟩
      · rcases mem_cons.mp he' with he' | he'
        · rw [ExtItem.element.inj he']
          exact ⟨hmid, hlast⟩
        · exact hskipped e' he'
      · exact congrArg _ (append_assoc _ _ _).symm

theorem slice_cons {b : Bytes} {i j : Nat} (hij : i < j) (hj : j ≤ b.length) :
    slice b i j = at0 b i :: slice b (i + 1) j := by
  have hi : i < b.length := by omega
  have hbyte : at0 b i = b[i] := by
    rw [at0, List.getD_eq_getElem?_getD, List.getElem?_eq_getElem hi, getD_some]
  rw [slice, slice, hbyte, drop_eq_getElem_cons hi, show j - i = (j - (i + 1)) + 1 from by omega,
    take_succ_cons]

theorem midWalk_iff {pkt : Bytes} {stop : Nat} (hstop : stop ≤ pkt.length) (data : Bytes) (fuel at_ : Nat)
    (hfuel : stop - at_ < fuel) :
    (midWalk pkt stop fuel at_ = data ∧ data ≠ []) ↔ FirstMid (slice pkt at_ stop) data := by
  induction fuel generalizing at_ with
  | zero => cases hfuel
  | succ fuel ih =>
    dsimp only [midWalk]
    by_cases hend : at_ ≥ stop
    · rw [if_pos hend, show slice pkt at_ stop = [] from by rw [slice, Nat.sub_eq_zero_of_le hend, take_zero]]
      exact ⟨fun h => absurd h.1.symm h.2, fun h => absurd h (not_firstMid_nil data)⟩
    rw [if_neg hend, slice_cons (by omega) hstop]
    generalize at0 pkt at_ = c
    by_cases hzero : c = 0
    · rw [if_pos hzero, hzero, firstMid_padding]
      exact ih (at_ + 1) (by omega)
    rw [if_neg hzero, firstMid_element hzero]
    by_cases hlast : c >>> 4 = 15
    · rw [if_pos hlast]
      refine ⟨fun h => absurd h.1.symm h.2, ?_⟩
      rintro ⟨e, _, rfl, _, ⟨hid, _⟩ | ⟨_, hid, _⟩⟩
      · exact absurd (hid.symm.trans hlast) (by decide)
      · exact absurd hlast hid
    rw [if_neg hlast]
    by_cases hlong : at_ + 1 + ((c &&& 0x0F).toNat + 1) > stop
    · rw [if_pos hlong]
      refine ⟨fun h => absurd h.1.symm h.2, ?_⟩
      rintro ⟨e, rest, rfl, hwords, _⟩
      have hlen := congrArg List.length hwords
      rw [length_slice_of_le hstop, length_append, e.length_data] at hlen
      omega
    rw [if_neg hlong]
    -- The element's bytes are all there.
    have hcut : slice pkt (at_ + 1) stop = slice pkt (at_ + 1) (at_ + 1 + ((c &&& 0x0F).toNat + 1)) ++
        slice pkt (at_ + 1 + ((c &&& 0x0F).toNat + 1)) stop := by
      have hn : stop - (at_ + 1) =
          ((c &&& 0x0F).toNat + 1) + (stop - (at_ + 1 + ((c &&& 0x0F).toNat + 1))) := by omega
      rw [slice, slice, slice, hn, List.take_add, drop_drop, Nat.add_sub_cancel_left]
    have hlen : (slice pkt (at_ + 1) (at_ + 1 + ((c &&& 0x0F).toNat + 1))).length = (c &&& 0x0F).toNat + 1 := by
      rw [length_slice_of_le (by omega)]
      omega
    generalize hdata : slice pkt (at_ + 1) (at_ + 1 + ((c &&& 0x0F).toNat + 1)) = found at hcut hlen
    have hne : found ≠ [] := by
      intro hnil
      rw [hnil] at hlen
      cases hlen
    -- Every element with these bytes is this one.
    have hthe : ∀ (e : ExtElement) (rest : Bytes), e.descriptor = c → slice pkt (at_ + 1) stop = e.data ++ rest →
        e.data = found ∧ rest = slice pkt (at_ + 1 + ((c &&& 0x0F).toNat + 1)) stop := by
      rintro e rest rfl hrest
      exact append_inj (hrest.symm.trans hcut) (e.length_data.trans hlen.symm)
    by_cases hmid : c >>> 4 = 10
    · rw [if_pos hmid]
      constructor
      · rintro ⟨rfl, -⟩
        exact ⟨⟨c, found, hzero, hlen⟩, _, rfl, hcut, .inl ⟨hmid, rfl⟩⟩
      · rintro ⟨e, rest, hd, hrest, ⟨_, rfl⟩ | ⟨hid, _, _⟩⟩
        · exact ⟨(hthe e rest hd hrest).1.symm, (hthe e rest hd hrest).1 ▸ hne⟩
        · exact absurd (by rw [ExtElement.id, hd]; exact hmid) hid
    · rw [if_neg hmid, ih _ (by omega)]
      constructor
      · intro h
        exact ⟨⟨c, found, hzero, hlen⟩, _, rfl, hcut, .inr ⟨hmid, hlast, h⟩⟩
      · rintro ⟨e, rest, hd, hrest, ⟨hid, _⟩ | ⟨_, _, h⟩⟩
        · rw [ExtElement.id, hd] at hid
          exact absurd hid hmid
        · exact (hthe e rest hd hrest).2 ▸ h

theorem RtpPacket.rtpMid_iff (p : RtpPacket) (data : Bytes) :
    (rtpMid p.bytes p.header = data ∧ data ≠ []) ↔
      ∃ e, p.extension = some e ∧ e.profile = 0xBEDE ∧ FirstMid e.words data := by
  have hfront := p.length_front
  have hlen : p.bytes.length = p.front.length + p.payload.length + p.padding.length := by
    rw [bytes, length_append, length_append]
  have hin : ¬(p.bytes.length < RTP_HEADER_SIZE ∨ p.header.payloadStart > p.bytes.length) := by
    show ¬(p.bytes.length < RTP_HEADER_SIZE ∨ p.front.length > p.bytes.length)
    omega
  dsimp only [rtpMid]
  rw [if_neg hin, p.at0_bytes (by decide)]
  have hnone : ∀ q : Prop, ¬q → (([] : Bytes) = data ∧ data ≠ [] ↔ q) :=
    fun q hq => ⟨fun h => absurd h.1.symm h.2, fun h => absurd h hq⟩
  cases he : p.extension with
  | none =>
    have hx : at0 p.fixed.val 0 &&& 0x10 = 0 := by
      have hiff := p.extends_iff
      rw [he] at hiff
      simpa using hiff
    rw [if_pos (.inl hx)]
    exact hnone _ (by simp)
  | some e =>
    have hx : at0 p.fixed.val 0 &&& 0x10 ≠ 0 := p.extends_iff.mp (by rw [he]; rfl)
    have hext : (extensionBytes p.extension).length = 4 + e.count.toNat * 4 := by
      rw [he]
      exact e.length_bytes
    rw [if_neg (by show ¬(_ ∨ _ + 4 > p.front.length); rintro (h | h); exacts [hx h, by omega])]
    have hbytes : p.bytes = (p.fixed.val ++ p.csrcs) ++ (e.bytes ++ (p.payload ++ p.padding)) := by
      rw [bytes_eq, he]
      rfl
    have hbehind : ∀ i, at0 p.bytes ((p.fixed.val ++ p.csrcs).length + i) = at0 (e.bytes ++ (p.payload ++ p.padding)) i := by
      intro i
      rw [hbytes, at0_behind]
    have hprofile : u16be (at0 p.bytes (p.fixed.val ++ p.csrcs).length)
        (at0 p.bytes ((p.fixed.val ++ p.csrcs).length + 1)) = e.profile := by
      rw [show at0 p.bytes (p.fixed.val ++ p.csrcs).length = _ from hbehind 0, hbehind]
      exact u16be_be16 e.profile
    have hcount : u16be (at0 p.bytes ((p.fixed.val ++ p.csrcs).length + 2))
        (at0 p.bytes ((p.fixed.val ++ p.csrcs).length + 3)) = e.count := by
      rw [hbehind, hbehind]
      exact u16be_be16 e.count
    rw [← p.length_head, hprofile, hcount]
    by_cases hprofile : e.profile = 0xBEDE
    · rw [if_neg (by rintro (h | h); exacts [h hprofile, by rw [← p.length_head] at hfront; omega]),
        midWalk_iff (by rw [← p.length_head] at hfront; omega) data _ _ (by omega)]
      have hwords : slice p.bytes ((p.fixed.val ++ p.csrcs).length + 4)
          ((p.fixed.val ++ p.csrcs).length + 4 + e.count.toNat * 4) = e.words := by
        have hsplit : p.bytes = p.fixed.val ++ p.csrcs ++ be16 e.profile ++ be16 e.count ++
            (e.words ++ (p.payload ++ p.padding)) := by
          rw [hbytes, RtpExtension.bytes]
          simp only [append_assoc]
        have hlen : (p.fixed.val ++ p.csrcs ++ be16 e.profile ++ be16 e.count).length =
            (p.fixed.val ++ p.csrcs).length + 4 := by
          rw [length_append, length_append]
          rfl
        rw [hsplit, ← hlen, Nat.mul_comm, ← e.length_words]
        exact slice_middle _ _ _
      rw [hwords]
      constructor
      · exact fun h => ⟨e, rfl, hprofile, h⟩
      · rintro ⟨e', he', _, h⟩
        rw [Option.some.inj he']
        exact h
    · rw [if_pos (.inl hprofile)]
      exact hnone _ (by rintro ⟨e', he', h, _⟩; exact hprofile ((Option.some.inj he') ▸ h))

/-- The decoder takes just what has the parts of a packet, finds the payload, and the first element with id 10 is its
MID. -/
theorem rtpParse_packet (pkt : Bytes) :
    (∀ h, rtpParse pkt = some h ↔ ∃ p : RtpPacket, p.bytes = pkt ∧ p.header = h) ∧
      ∀ p : RtpPacket, p.bytes = pkt →
        slice pkt p.header.payloadStart p.header.payloadEnd = p.payload ∧
          ∀ data, (rtpMid pkt p.header = data ∧ data ≠ []) ↔
            ∃ e, p.extension = some e ∧ e.profile = 0xBEDE ∧ FirstMid e.words data := by
  refine ⟨fun h => ⟨fun hparse => ?_, ?_⟩, ?_⟩
  · obtain ⟨p, rfl⟩ := RtpPacket.exists_of_rtpParse hparse
    exact ⟨p, rfl, Option.some.inj (p.rtpParse_bytes.symm.trans hparse)⟩
  · rintro ⟨p, rfl, rfl⟩
    exact p.rtpParse_bytes
  · rintro p rfl
    refine ⟨?_, p.rtpMid_iff⟩
    rw [RtpPacket.bytes, append_assoc]
    exact slice_middle _ _ _

end Wave.Common.RtpCore
