import Wave.Common.RtpDelivery
import Wave.Lib.Pump

/-! # H.264 access units, packetized and depacketized

What the packets read as and what is `owed` are the NALs taken so far, each behind its start code. -/

namespace Wave.Common.RtpPayload

open Lib Lib.Bytes Lib.Pump

/-- Without a start code, or anything that reads as its beginning, inside or at the end. -/
structure Tidy (bytes : Bytes) : Prop where
  last : bytes.getLast? ≠ some 0
  zeros : ¬ [0, 0, 0] <:+: bytes
  code : ¬ [0, 0, 1] <:+: bytes

theorem Tidy.of_append {front bytes : Bytes} (h : Tidy (front ++ bytes)) : Tidy bytes where
  last hlast := h.last (by rw [List.getLast?_append, hlast, Option.some_or])
  zeros hzeros := h.zeros (hzeros.trans (List.suffix_append front bytes).isInfix)
  code hcode := h.code (hcode.trans (List.suffix_append front bytes).isInfix)

/-- The header of a NAL of a type of its own; the rest are aggregations and fragments. -/
def NalType (header : UInt8) : Prop := 1 ≤ header &&& 0x1F ∧ header &&& 0x1F ≤ 23

instance (header : UInt8) : Decidable (NalType header) := inferInstanceAs (Decidable (_ ∧ _))

structure IsNal (nal : Bytes) : Prop where
  ne : nal ≠ []
  type : NalType (nal.at0 0)
  tidy : Tidy nal

def annexb (nals : List Bytes) : Bytes := nals.flatMap fun nal => START_CODE ++ nal

theorem annexb_append (nals nals' : List Bytes) : annexb (nals ++ nals') = annexb nals ++ annexb nals' :=
  flatMap_append

theorem nal_unpacks (starting : Bool) {header : UInt8} (htype : NalType header) (data : Bytes) :
    Unpacks .h264 starting (header :: data) (START_CODE ++ header :: data) := by
  intro pkt room hcodec hpayload hroom
  rw [length_cons] at hroom
  rw [Depacketizer.unpack, hcodec, hpayload]
  dsimp only
  rw [h264ToAnnexb.eq_def]
  dsimp only
  rw [if_pos (show 1 ≤ header &&& 31 ∧ header &&& 31 ≤ 23 from htype), putNal, if_neg (cons_ne_nil _ _), if_neg]
  · exact ⟨_, rfl⟩
  · rw [length_nil, length_cons, START_CODE]
    simp only [length_cons, length_nil]
    omega

theorem fragment_header (header flag : UInt8) (hflag : flag = 0 ∨ flag = 0x40) :
    ((header &&& 0xE0) ||| FU_A) &&& 0x1F = FU_A ∧
      (0x80 ||| flag ||| (header &&& 0x1F)) &&& 0x80 ≠ 0 ∧ (0 ||| flag ||| (header &&& 0x1F)) &&& 0x80 = 0 ∧
      (((header &&& 0xE0) ||| FU_A) &&& 0xE0) ||| ((0x80 ||| flag ||| (header &&& 0x1F)) &&& 0x1F) = header := by
  obtain rfl | rfl := hflag <;> revert header <;> exact of_every_byte (by decide +kernel)

namespace Packetizer

/-- What the next packet of the NAL reads as: its start code and header unless a fragment carried them, and what is
pending. -/
def carried (p : Packetizer) : Bytes := (if p.fragmented then [] else START_CODE ++ [p.nalHeader]) ++ p.pending

theorem fuA_unpacks {p : Packetizer} {starting : Bool} (hstart : p.fragmented = true → starting = false)
    («end» : Bool) : Unpacks .h264 starting (p.fuA «end»).1.payload p.carried := by
  intro pkt room hcodec hpayload hroom
  obtain ⟨htype, hset, hclear, hheader⟩ := fragment_header p.nalHeader (if «end» then 0x40 else 0)
    (by cases «end» <;> decide)
  change List.length (_ :: _ :: p.pending) * 5 / 3 + 4 ≤ room at hroom
  rw [length_cons, length_cons] at hroom
  rw [Depacketizer.unpack, hcodec, hpayload]
  change ∃ key, h264ToAnnexb (_ :: _ :: p.pending) starting room = _
  rw [h264ToAnnexb]
  dsimp only
  rw [htype, if_neg (by decide), if_neg (by decide), if_pos rfl, carried]
  by_cases hfragmented : p.fragmented = true
  · rw [hfragmented, if_pos rfl, if_pos rfl, if_neg (not_not.mpr hclear), hstart hfragmented,
      if_neg false_ne_true, if_neg (by omega)]
    exact ⟨_, rfl⟩
  · rw [if_neg hfragmented, if_neg hfragmented, if_pos hset, if_neg (by omega), hheader, append_assoc]
    exact ⟨_, rfl⟩

theorem closeNal_unpacks {p : Packetizer} {starting : Bool} (hstart : p.fragmented = true → starting = false)
    (htype : NalType p.nalHeader) (marker : Bool) : Unpacks .h264 starting (p.closeNal marker).1.payload p.carried := by
  rw [closeNal]
  by_cases hfragmented : p.fragmented = true
  · rw [if_pos hfragmented]
    exact fuA_unpacks hstart true
  · rw [if_neg hfragmented, carried, if_neg hfragmented, append_assoc]
    exact nal_unpacks starting htype p.pending

theorem fuA_length (p : Packetizer) («end» : Bool) : (p.fuA «end»).1.payload.length = p.pending.length + 2 := rfl

theorem closeNal_length (p : Packetizer) (marker : Bool) :
    (p.closeNal marker).1.payload.length ≤ p.pending.length + 2 := by
  rw [closeNal]
  split
  · exact le_rfl
  · exact Nat.le_succ _

theorem closeNal_marker (p : Packetizer) (marker : Bool) : (p.closeNal marker).1.marker = marker := by
  rw [closeNal]
  split <;> rfl

theorem closeNal_state (p : Packetizer) (marker : Bool) : (p.closeNal marker).2 = { p with pending := [] } := by
  rw [closeNal]
  split
  next hfragmented =>
    change { p with fragmented := true, pending := [] } = _
    rw [← hfragmented]
  · rfl

structure InH264 (room : Nat) (p : Packetizer) : Prop where
  codec : p.codec = .h264
  unitDone : p.unitDone = false
  room : p.mtu ≤ room
  mtu : 16 ≤ p.mtu
  psLeft : p.psLeft = 0
  psPpsPending : p.psPpsPending = false
  pending : p.pending.length ≤ p.mtu - 2

section Byte

variable {room : Nat} {p q m : Packetizer} {b : UInt8} {k : Packet}

theorem InH264.next_eq (h : InH264 room p) (last : Bool) (rest : Bytes) :
    next room last p rest =
      match h264Loop (p.mtu - 2) rest.length p rest with
      | (some k, p, rest) => (some k, p, rest)
      | (none, p, rest) => p.endH264 rest last := by
  have hroom := h.room
  have hsets : p.nextParameterSet = (none, p) := by
    rw [nextParameterSet, parameterSetLoop, if_pos h.psLeft, h.psPpsPending]
    rfl
  rw [next, h.unitDone, h.codec, if_neg (by simp; omega), nextH264, hsets]
  rfl

theorem InH264.wait (h : InH264 room p) : next room false p [] = (none, p, []) := by
  rw [h.next_eq]
  rfl

theorem takes_quiet (h : InH264 room p) (hq : InH264 room q) (hmtu : q.mtu = p.mtu)
    (hloop : ∀ rest, h264Loop (p.mtu - 2) (rest.length + 1) p (b :: rest) = h264Loop (p.mtu - 2) rest.length q rest) :
    Takes (next room) p b [] q :=
  .quiet fun last rest => by rw [h.next_eq, hq.next_eq, hmtu, length_cons, hloop]

theorem takes_gives {ks : List Packet} (h : InH264 room p)
    (hloop : ∀ rest, h264Loop (p.mtu - 2) (rest.length + 1) p (b :: rest) = (some k, m, b :: rest))
    (hrest : Takes (next room) m b ks q) : Takes (next room) p b (k :: ks) q :=
  .gives (fun last rest => by rw [h.next_eq, length_cons, hloop]) hrest

theorem takes_held {ks : List Packet} (h : InH264 room p) (hheld : p.held = true)
    (hrest : Takes (next room) ({ p with held := false }.closeNal false).2 b ks q) :
    Takes (next room) p b (({ p with held := false }.closeNal false).1 :: ks) q :=
  takes_gives h (fun rest => by rw [h264Loop, if_pos hheld]) hrest

def owed (p : Packetizer) : Bytes := if p.held = true ∨ p.nal = .body then p.carried else []

/-- Between two bytes of a unit, `starting` while it has given no packet. -/
structure Ready (room : Nat) (starting : Bool) (p : Packetizer) : Prop where
  unit : InH264 room p
  start : p.fragmented = true → starting = false
  type : p.held = true ∨ p.nal = .body → NalType p.nalHeader

/-- From `p` to `q` over `bytes`: the packets given, and then what `q` owes, read as what `p` owes and then `added`. -/
structure Moves (room : Nat) (starting : Bool) (p : Packetizer) (bytes added : Bytes) (ks : List Packet)
    (q : Packetizer) : Prop where
  takes : TakesAll (next room) (InH264 room) p bytes ks q
  ready : Ready room (starting && ks.isEmpty) q
  mtu : q.mtu = p.mtu
  packing : q.packing = p.packing
  lenSize : q.lenSize = p.lenSize
  small : ∀ k ∈ ks, k.payload.length ≤ p.mtu ∧ k.marker = false
  reads : ∃ sent, Reads .h264 starting ks sent ∧ sent ++ q.owed = p.owed ++ added

section Moves

variable {starting : Bool} {r : Packetizer} {bytes bytes' added added' sent : Bytes} {ks ks' : List Packet}

theorem Moves.refl (h : Ready room starting p) : Moves room starting p [] [] [] p where
  takes := .nil h.unit
  ready := by rwa [isEmpty_nil, Bool.and_true]
  mtu := rfl
  packing := rfl
  lenSize := rfl
  small := nofun
  reads := ⟨[], .nil starting, by rw [nil_append, append_nil]⟩

theorem Moves.trans (h : Moves room starting p bytes added ks q)
    (h' : Moves room (starting && ks.isEmpty) q bytes' added' ks' r) :
    Moves room starting p (bytes ++ bytes') (added ++ added') (ks ++ ks') r where
  takes := h.takes.append h'.takes
  ready := by
    have hready := h'.ready
    cases ks with
    | nil =>
      rw [isEmpty_nil, Bool.and_true] at hready
      exact hready
    | cons =>
      rw [isEmpty_cons, Bool.and_false, Bool.false_and] at hready
      rwa [cons_append, isEmpty_cons, Bool.and_false]
  mtu := h'.mtu.trans h.mtu
  packing := h'.packing.trans h.packing
  lenSize := h'.lenSize.trans h.lenSize
  small k hk := by
    obtain hk | hk := mem_append.mp hk
    · exact h.small k hk
    · rw [← h.mtu]
      exact h'.small k hk
  reads := by
    obtain ⟨sent, hreads, heq⟩ := h.reads
    obtain ⟨sent', hreads', heq'⟩ := h'.reads
    refine ⟨sent ++ sent', hreads.append hreads', ?_⟩
    rw [append_assoc, heq', ← append_assoc, heq, append_assoc]

theorem moves_quiet (added : Bytes) (h : Ready room starting p) (htakes : Takes (next room) p b [] q) (hq : Ready room starting q)
    (hmtu : q.mtu = p.mtu) (hpacking : q.packing = p.packing) (hlen : q.lenSize = p.lenSize)
    (howed : q.owed = p.owed ++ added) : Moves room starting p [b] added [] q where
  takes := .one h.unit htakes hq.unit
  ready := by rwa [isEmpty_nil, Bool.and_true]
  mtu := hmtu
  packing := hpacking
  lenSize := hlen
  small := nofun
  reads := ⟨[], .nil starting, howed⟩

theorem moves_gives (h : Ready room starting p) (htakes : Takes (next room) p b [k] q) (hq : Ready room false q)
    (hmtu : q.mtu = p.mtu) (hpacking : q.packing = p.packing) (hlen : q.lenSize = p.lenSize)
    (hk : k.payload.length ≤ p.pending.length + 2) (hmarker : k.marker = false)
    (hunpacks : Unpacks .h264 starting k.payload sent) (howed : sent ++ q.owed = p.owed ++ added) :
    Moves room starting p [b] added [k] q where
  takes := .one h.unit htakes hq.unit
  ready := by rwa [isEmpty_cons, Bool.and_false]
  mtu := hmtu
  packing := hpacking
  lenSize := hlen
  small k' hk' := by
    have hpending := h.unit.pending
    have hlow := h.unit.mtu
    rw [mem_singleton.mp hk']
    exact ⟨by omega, hmarker⟩
  reads := by
    obtain ⟨payload, marker⟩ := k
    refine ⟨sent ++ [], .cons hunpacks (.nil false), ?_⟩
    rw [append_nil, howed]

theorem moves_held (h : Ready room starting p) (hheld : p.held = true)
    (htakes : Takes (next room) { p with held := false, pending := [] } b [] q) (hq : Ready room false q)
    (hmtu : q.mtu = p.mtu) (hpacking : q.packing = p.packing) (hlen : q.lenSize = p.lenSize)
    (howed : q.owed = added) : Moves room starting p [b] added [({ p with held := false }.closeNal false).1] q := by
  have hclosed : ({ p with held := false }.closeNal false).2 = { p with held := false, pending := [] } :=
    closeNal_state _ _
  have hunpacks : Unpacks .h264 starting ({ p with held := false }.closeNal false).1.payload p.carried :=
    closeNal_unpacks (p := { p with held := false }) h.start (h.type (Or.inl hheld)) false
  refine moves_gives h (takes_held h.unit hheld (by rwa [hclosed])) hq hmtu hpacking hlen
    (closeNal_length { p with held := false } false) (closeNal_marker _ _) hunpacks ?_
  rw [howed, owed, if_pos (Or.inl hheld)]

end Moves

section Annexb

section

variable (h : InH264 room p) (hpacking : p.packing = .annexb) (hheld : p.held = false)

include h hpacking hheld

theorem takes_header (hnal : p.nal = .header) (b : UInt8) :
    Takes (next room) p b []
      { p with nalHeader := b, fragmented := false, pending := [], zeros := 0, nal := .body } := by
  refine takes_quiet h ⟨h.codec, h.unitDone, h.room, h.mtu, h.psLeft, h.psPpsPending, Nat.zero_le _⟩ rfl fun rest => ?_
  rw [h264Loop, if_neg (by rw [hheld]; exact false_ne_true), hnal]
  dsimp only
  rw [if_neg (by rw [hpacking]; exact nofun)]

theorem takes_zero (hnal : p.nal = .seeking ∨ p.nal = .body) :
    Takes (next room) p 0 [] { p with zeros := min (p.zeros + 1) 3 } := by
  refine takes_quiet h ⟨h.codec, h.unitDone, h.room, h.mtu, h.psLeft, h.psPpsPending, h.pending⟩ rfl fun rest => ?_
  rw [h264Loop, if_neg (by rw [hheld]; exact false_ne_true)]
  obtain hnal | hnal := hnal
  · rw [hnal]
    dsimp only
    rw [if_pos rfl]
  · rw [hnal]
    dsimp only
    rw [if_pos hpacking, if_pos rfl]

theorem takes_one (hnal : p.nal = .seeking ∨ p.nal = .body) (hzeros : 2 ≤ p.zeros) :
    Takes (next room) p 1 [] { p with zeros := 0, nal := .header, held := decide (p.nal = .body) } := by
  refine takes_quiet h ⟨h.codec, h.unitDone, h.room, h.mtu, h.psLeft, h.psPpsPending, h.pending⟩ rfl fun rest => ?_
  rw [h264Loop, if_neg (by rw [hheld]; exact false_ne_true)]
  obtain hnal | hnal := hnal
  · rw [hnal]
    dsimp only
    rw [if_neg (by decide), if_pos ⟨rfl, hzeros⟩, hheld]
    rfl
  · rw [hnal]
    dsimp only
    rw [if_pos hpacking, if_neg (by decide), if_pos ⟨rfl, hzeros⟩]
    rfl

theorem takes_data (hnal : p.nal = .body)
    (hb : b ≠ 0) (hone : b = 1 → p.zeros < 2) (hfit : p.pending.length + (p.zeros + 1) ≤ p.mtu - 2) :
    Takes (next room) p b [] { p with pending := p.pending ++ List.replicate p.zeros 0 ++ [b], zeros := 0 } := by
  refine takes_quiet h ⟨h.codec, h.unitDone, h.room, h.mtu, h.psLeft, h.psPpsPending, ?_⟩ rfl fun rest => ?_
  · rw [length_append, length_append, length_replicate, length_singleton]
    dsimp only
    omega
  · rw [h264Loop, if_neg (by rw [hheld]; exact false_ne_true), hnal]
    dsimp only
    rw [if_pos hpacking, if_neg hb, if_neg (fun hc => by have hz := hone hc.1; omega), if_neg (by omega)]

theorem takes_fragment (hnal : p.nal = .body) (hb : b ≠ 0) (hone : b = 1 → p.zeros < 2) (hzeros : p.zeros ≤ 3)
    (hfull : p.mtu - 2 < p.pending.length + (p.zeros + 1)) :
    Takes (next room) p b [(p.fuA false).1]
      { p with fragmented := true, pending := List.replicate p.zeros 0 ++ [b], zeros := 0 } := by
  have hmtu := h.mtu
  have hm : InH264 room { p with fragmented := true, pending := [] } :=
    ⟨h.codec, h.unitDone, h.room, h.mtu, h.psLeft, h.psPpsPending, Nat.zero_le _⟩
  refine takes_gives h (m := { p with fragmented := true, pending := [] }) (fun rest => ?_) ?_
  · change _ = (some (p.fuA false).1, (p.fuA false).2, b :: rest)
    rw [h264Loop, if_neg (by rw [hheld]; exact false_ne_true), hnal]
    dsimp only
    rw [if_pos hpacking, if_neg hb, if_neg (fun hc => by have hz := hone hc.1; omega), if_pos (by omega)]
  · exact takes_data hm hpacking hheld hnal hb hone (by change 0 + (p.zeros + 1) ≤ p.mtu - 2; omega)

end

/-! A NAL and its start code. -/

section Moves

variable {starting : Bool}

theorem moves_zero (h : Ready room starting p) (hpacking : p.packing = .annexb) (hheld : p.held = false)
    (hnal : p.nal = .seeking ∨ p.nal = .body) :
    Moves room starting p [0] [] [] { p with zeros := min (p.zeros + 1) 3 } :=
  moves_quiet _ h (takes_zero h.unit hpacking hheld hnal)
    ⟨⟨h.unit.codec, h.unit.unitDone, h.unit.room, h.unit.mtu, h.unit.psLeft, h.unit.psPpsPending, h.unit.pending⟩, h.start,
      h.type⟩ rfl rfl rfl (append_nil _).symm

theorem moves_one (h : Ready room starting p) (hpacking : p.packing = .annexb) (hheld : p.held = false)
    (hnal : p.nal = .seeking ∨ p.nal = .body) (hzeros : 2 ≤ p.zeros) :
    Moves room starting p [1] [] [] { p with zeros := 0, nal := .header, held := decide (p.nal = .body) } := by
  refine moves_quiet _ h (takes_one h.unit hpacking hheld hnal hzeros)
    ⟨⟨h.unit.codec, h.unit.unitDone, h.unit.room, h.unit.mtu, h.unit.psLeft, h.unit.psPpsPending, h.unit.pending⟩, h.start,
      fun hopen => h.type (Or.inr ?_)⟩ rfl rfl rfl ?_
  · obtain hopen | hopen := hopen
    · exact of_decide_eq_true hopen
    · cases hopen
  · rw [append_nil, owed, owed, hheld]
    by_cases hbody : p.nal = .body
    · rw [if_pos (Or.inl (decide_eq_true hbody)), if_pos (Or.inr hbody)]
      rfl
    · rw [if_neg, if_neg]
      · rintro (hopen | hopen)
        · cases hopen
        · exact hbody hopen
      · rintro (hopen | hopen)
        · exact hbody (of_decide_eq_true hopen)
        · cases hopen

structure BetweenCodes (p : Packetizer) : Prop where
  packing : p.packing = .annexb
  held : p.held = false
  nal : p.nal = .seeking ∨ p.nal = .body

theorem moves_start_code (h : Ready room starting p) (hp : BetweenCodes p) (hzeros : p.zeros = 0) (long : Bool) :
    Moves room starting p ((if long then [0] else []) ++ [0, 0, 1]) [] []
      { p with zeros := 0, nal := .header, held := decide (p.nal = .body) } := by
  have first := moves_zero h hp.packing hp.held hp.nal
  have second := first.trans (moves_zero first.ready hp.packing hp.held hp.nal)
  cases long with
  | false =>
    refine second.trans (moves_one second.ready hp.packing hp.held hp.nal ?_)
    change 2 ≤ min (min (p.zeros + 1) 3 + 1) 3
    omega
  | true =>
    have third := second.trans (moves_zero second.ready hp.packing hp.held hp.nal)
    refine third.trans (moves_one third.ready hp.packing hp.held hp.nal ?_)
    change 2 ≤ min (min (min (p.zeros + 1) 3 + 1) 3 + 1) 3
    omega

theorem moves_header (h : Ready room starting p) (hpacking : p.packing = .annexb) (hnal : p.nal = .header)
    (htype : NalType b) :
    ∃ ks, Moves room starting p [b] (START_CODE ++ [b]) ks
      { p with nalHeader := b, fragmented := false, pending := [], zeros := 0, nal := .body, held := false } := by
  have hunit : InH264 room
      { p with nalHeader := b, fragmented := false, pending := [], zeros := 0, nal := .body, held := false } :=
    ⟨h.unit.codec, h.unit.unitDone, h.unit.room, h.unit.mtu, h.unit.psLeft, h.unit.psPpsPending, Nat.zero_le _⟩
  have howed : owed { p with nalHeader := b, fragmented := false, pending := [], zeros := 0, nal := .body, held := false } =
      START_CODE ++ [b] := by
    rw [owed, if_pos (Or.inr rfl), carried, if_neg false_ne_true, append_nil]
  by_cases hheld : p.held = true
  · have hclosed : InH264 room { p with held := false, pending := [] } :=
      ⟨h.unit.codec, h.unit.unitDone, h.unit.room, h.unit.mtu, h.unit.psLeft, h.unit.psPpsPending, Nat.zero_le _⟩
    exact ⟨_, moves_held h hheld (takes_header hclosed hpacking rfl hnal b) ⟨hunit, nofun, fun _ => htype⟩ rfl rfl rfl howed⟩
  · have hidle := eq_false_iff.mpr hheld
    refine ⟨[], moves_quiet _ h ?_ ⟨hunit, nofun, fun _ => htype⟩ rfl rfl rfl ?_⟩
    · have htakes := takes_header h.unit hpacking hidle hnal b
      rwa [hidle] at htakes
    · rw [howed, owed, if_neg]
      · rfl
      · rw [hnal, hidle]
        rintro (hopen | hopen) <;> cases hopen

structure InBody (p : Packetizer) : Prop where
  packing : p.packing = .annexb
  held : p.held = false
  nal : p.nal = .body

theorem moves_data (h : Ready room starting p) (hp : InBody p) (hb : b ≠ 0) (hone : b = 1 → p.zeros < 2)
    (hzeros : p.zeros ≤ 3) :
    ∃ ks q, Moves room starting p [b] (List.replicate p.zeros 0 ++ [b]) ks q ∧ InBody q ∧ q.zeros = 0 := by
  have hlow := h.unit.mtu
  have howed : p.owed = p.carried := if_pos (Or.inr hp.nal)
  have hlength : (List.replicate p.zeros (0 : UInt8) ++ [b]).length = p.zeros + 1 := by
    rw [length_append, length_replicate, length_singleton]
  by_cases hfit : p.pending.length + (p.zeros + 1) ≤ p.mtu - 2
  · refine ⟨_, _, moves_quiet _ h (takes_data h.unit hp.packing hp.held hp.nal hb hone hfit) ⟨?_, h.start, h.type⟩ rfl rfl
      rfl ?_, ⟨hp.packing, hp.held, hp.nal⟩, rfl⟩
    · refine ⟨h.unit.codec, h.unit.unitDone, h.unit.room, h.unit.mtu, h.unit.psLeft, h.unit.psPpsPending, ?_⟩
      rw [append_assoc, length_append, hlength]
      exact hfit
    · rw [howed, owed, if_pos (Or.inr hp.nal), carried, carried, append_assoc, append_assoc]
  · refine ⟨_, _, moves_gives h (takes_fragment h.unit hp.packing hp.held hp.nal hb hone hzeros (Nat.not_le.mp hfit))
      ⟨?_, fun _ => rfl, h.type⟩ rfl rfl rfl (fuA_length p false).le rfl (fuA_unpacks h.start false) ?_,
      ⟨hp.packing, hp.held, hp.nal⟩, rfl⟩
    · refine ⟨h.unit.codec, h.unit.unitDone, h.unit.room, h.unit.mtu, h.unit.psLeft, h.unit.psPpsPending, ?_⟩
      rw [hlength]
      dsimp only
      omega
    · rw [howed, owed, if_pos (Or.inr hp.nal)]
      rfl

theorem moves_body (h : Ready room starting p) (hp : InBody p) {bs : Bytes} (hzeros : p.zeros ≤ 2)
    (htidy : Tidy (List.replicate p.zeros 0 ++ bs)) :
    ∃ ks q, Moves room starting p bs (List.replicate p.zeros 0 ++ bs) ks q ∧ InBody q ∧ q.zeros = 0 := by
  induction bs generalizing p starting with
  | nil =>
    have hnone : p.zeros = 0 := by
      by_contra hsome
      apply htidy.last
      obtain ⟨n, hn⟩ := Nat.exists_eq_succ_of_ne_zero hsome
      rw [append_nil, hn, List.replicate_succ', List.getLast?_concat]
    rw [hnone]
    exact ⟨[], p, .refl h, hp, hnone⟩
  | cons b bs ih =>
    by_cases hb : b = 0
    · subst hb
      have hsplit : List.replicate p.zeros (0 : UInt8) ++ 0 :: bs = List.replicate (p.zeros + 1) 0 ++ bs := by
        rw [List.replicate_succ', append_assoc, singleton_append]
      have hone : p.zeros ≤ 1 := by
        by_contra htwo
        obtain htwo : p.zeros = 2 := by omega
        apply htidy.zeros
        rw [htwo]
        exact (prefix_append [0, 0, 0] bs).isInfix
      have hmin : min (p.zeros + 1) 3 = p.zeros + 1 := Nat.min_eq_left (by omega)
      have hzero := moves_zero h hp.packing hp.held (Or.inr hp.nal)
      rw [hmin] at hzero
      rw [hsplit] at htidy ⊢
      obtain ⟨ks, q, hmoves, hq⟩ := ih hzero.ready ⟨hp.packing, hp.held, hp.nal⟩ (Nat.succ_le_succ hone) htidy
      exact ⟨_, q, hzero.trans hmoves, hq⟩
    · have hone : b = 1 → p.zeros < 2 := by
        rintro rfl
        by_contra htwo
        obtain htwo : p.zeros = 2 := by omega
        apply htidy.code
        rw [htwo]
        exact (prefix_append [0, 0, 1] bs).isInfix
      obtain ⟨ks, m, hdata, hm, hnone⟩ := moves_data h hp hb hone (by omega)
      rw [append_cons] at htidy ⊢
      obtain ⟨ks', q, hmoves, hq⟩ := ih hdata.ready hm (by omega) (by rw [hnone]; exact htidy.of_append)
      rw [hnone] at hmoves
      exact ⟨_, q, hdata.trans hmoves, hq⟩

theorem moves_nal (h : Ready room starting p) (hp : BetweenCodes p) (hzeros : p.zeros = 0) {nal : Bytes}
    (hnal : IsNal nal) (long : Bool) :
    ∃ ks q, Moves room starting p ((if long then [0] else []) ++ [0, 0, 1] ++ nal) (START_CODE ++ nal) ks q ∧ InBody q ∧
      q.zeros = 0 := by
  cases nal with
  | nil => exact absurd rfl hnal.ne
  | cons header data =>
    have hcode := moves_start_code h hp hzeros long
    obtain ⟨ks, hheader⟩ := moves_header (b := header) hcode.ready hp.packing rfl hnal.type
    have hstart := hcode.trans hheader
    have htidy : Tidy ([header] ++ data) := hnal.tidy
    obtain ⟨ks', q, hmoves, hq⟩ := moves_body hstart.ready ⟨hp.packing, rfl, rfl⟩ (Nat.zero_le 2) htidy.of_append
    refine ⟨[] ++ ks ++ ks', q, ?_, hq⟩
    rw [append_cons (_ ++ [0, 0, 1]), append_cons START_CODE]
    exact hstart.trans hmoves

end Moves

end Annexb

end Byte

end Packetizer

end Wave.Common.RtpPayload
