import Wave.Common.RtpDelivery
import Wave.Lib.Pump

/-! # VP8 and audio units, packetized and depacketized

What the packets carry and what is pending are what was taken (`vp8_takes`). -/

namespace Wave.Common.RtpPayload

open Lib Lib.Bytes Lib.Pump

theorem vp8_unpacks {first : Bool} {data : Bytes} (hne : data ≠ []) :
    Unpacks .vp8 first ((if first then VP8_S else 0) :: data) data := by
  intro pkt room hcodec hpayload hroom
  rw [length_cons] at hroom
  rw [Depacketizer.unpack, hcodec, hpayload]
  generalize hd : (if first then VP8_S else 0) = d
  have hshort : d &&& 0x80 = 0 := by
    rw [← hd]
    cases first <;> decide
  have hstart : decide (d &&& VP8_S ≠ 0 ∧ d &&& 0x07 = 0) = first := by
    rw [← hd]
    cases first <;> decide
  have hdescriptor : vp8Descriptor (d :: data) = some 1 := if_pos hshort
  dsimp only
  rw [vp8FrameData, if_neg (by simp), hdescriptor]
  dsimp only
  rw [if_neg (by simp), show at0 (d :: data) 0 = d from rfl, hstart, drop_one, tail_cons, if_neg (by simp [hne]),
    if_neg (by omega)]
  exact ⟨_, rfl⟩

namespace Packetizer

theorem vp8Loop_eq {cap turns : Nat} {p : Packetizer} {rest : Bytes} (hp : p.pending.length ≤ cap)
    (hturns : rest.length ≤ turns) :
    vp8Loop cap turns p rest =
      if p.pending.length + rest.length ≤ cap then (none, { p with pending := p.pending ++ rest }, [])
      else
        let r := { p with pending := p.pending ++ rest.take (cap - p.pending.length) }.vp8Packet false
        (some r.1, r.2, rest.drop (cap - p.pending.length)) := by
  cases turns with
  | zero =>
    obtain rfl := eq_nil_of_length_eq_zero (Nat.le_zero.mp hturns)
    rw [if_pos (by rw [length_nil]; omega), append_nil]
    rfl
  | succ turns =>
    rw [vp8Loop]
    by_cases hnil : rest = []
    · subst hnil
      rw [if_pos rfl, if_pos (by rw [length_nil]; omega), append_nil]
    have hpos := length_pos_of_ne_nil hnil
    rw [if_neg hnil]
    by_cases hfull : p.pending.length = cap
    · rw [if_pos hfull, if_neg (by omega), hfull, Nat.sub_self, take_zero, append_nil, drop_zero]
    rw [if_neg hfull]
    dsimp only
    by_cases hfit : p.pending.length + rest.length ≤ cap
    · rw [if_pos hfit, Nat.min_eq_right (by omega), take_length, drop_length]
      cases turns <;> rfl
    · rw [if_neg hfit, Nat.min_eq_left (by omega)]
      have hlength : (p.pending ++ rest.take (cap - p.pending.length)).length = cap := by
        rw [length_append, length_take]
        omega
      have hmore : rest.drop (cap - p.pending.length) ≠ [] := fun h => by
        have hzero := congrArg List.length h
        rw [length_drop, length_nil] at hzero
        omega
      cases turns with
      | zero => omega
      | succ turns => rw [vp8Loop, if_neg hmore, if_pos hlength]

theorem vp8Loop_byte {cap : Nat} {p : Packetizer} {b : UInt8} {rest : Bytes} (hfit : p.pending.length < cap) :
    vp8Loop cap (b :: rest).length p (b :: rest) = vp8Loop cap rest.length { p with pending := p.pending ++ [b] } rest := by
  have hlength : (p.pending ++ [b]).length = p.pending.length + 1 := by rw [length_append, length_singleton]
  rw [vp8Loop_eq (by omega) le_rfl, vp8Loop_eq (by dsimp only; omega) le_rfl]
  dsimp only
  rw [hlength, length_cons, append_assoc, singleton_append]
  by_cases hall : p.pending.length + (rest.length + 1) ≤ cap
  · rw [if_pos hall, if_pos (by omega)]
  · obtain ⟨n, hn⟩ := Nat.exists_eq_add_of_lt hfit
    rw [if_neg hall, if_neg (by omega), show cap - p.pending.length = n + 1 by omega,
      show cap - (p.pending.length + 1) = n by omega, take_succ_cons, List.drop_succ_cons, append_assoc,
      singleton_append]

structure InVp8 (room : Nat) (p : Packetizer) : Prop where
  codec : p.codec = .vp8
  unitDone : p.unitDone = false
  room : p.mtu ≤ room
  mtu : 16 ≤ p.mtu
  pending : p.pending.length ≤ p.mtu - 1

theorem InVp8.next_eq {room : Nat} {p : Packetizer} (h : InVp8 room p) (last : Bool) (rest : Bytes) :
    next room last p rest = p.nextVp8 rest last := by
  have hroom := h.room
  rw [next, h.unitDone, h.codec, if_neg (by simp; omega)]

theorem InVp8.wait {room : Nat} {p : Packetizer} (h : InVp8 room p) : next room false p [] = (none, p, []) := by
  rw [h.next_eq]
  rfl

def flushed (p : Packetizer) : Packet := (p.vp8Packet false).1

section Byte

variable {room : Nat} {p : Packetizer} (h : InVp8 room p) (b : UInt8)
include h

theorem vp8_takes_quiet (hfit : p.pending.length < p.mtu - 1) :
    Takes (next room) p b [] { p with pending := p.pending ++ [b] } := by
  refine .quiet fun last rest => ?_
  have h' : InVp8 room { p with pending := p.pending ++ [b] } :=
    ⟨h.codec, h.unitDone, h.room, h.mtu, by rw [length_append, length_singleton]; dsimp only; omega⟩
  rw [h.next_eq, h'.next_eq, nextVp8, nextVp8, vp8Loop_byte (show p.pending.length < p.mtu - VP8_DESCRIPTOR from hfit)]

theorem vp8_takes_packet (hfull : p.pending.length = p.mtu - 1) :
    Takes (next room) p b [p.flushed] { p with frameFirst := false, pending := [b] } := by
  have hmtu := h.mtu
  have h' : InVp8 room { p with frameFirst := false, pending := [] } :=
    ⟨h.codec, h.unitDone, h.room, h.mtu, Nat.zero_le _⟩
  refine .gives (m := { p with frameFirst := false, pending := [] }) (fun last rest => ?_) ?_
  · rw [h.next_eq, nextVp8, length_cons, vp8Loop, if_neg (by simp),
      if_pos (show p.pending.length = p.mtu - VP8_DESCRIPTOR from hfull)]
    rfl
  · exact vp8_takes_quiet h' b (by change 0 < p.mtu - 1; omega)

end Byte

theorem vp8_takes {room : Nat} {p : Packetizer} (h : InVp8 room p) (frame : Bytes) (hne : p.pending ++ frame ≠ []) :
    ∃ ks p', TakesAll (next room) (InVp8 room) p frame ks p' ∧ InVp8 room p' ∧ p'.mtu = p.mtu ∧ p'.pending ≠ [] ∧
      (∀ k ∈ ks, k.payload.length ≤ p.mtu ∧ k.marker = false) ∧
      Reads .vp8 p.frameFirst (ks ++ [(p'.vp8Packet true).1]) (p.pending ++ frame) := by
  induction frame generalizing p with
  | nil =>
    refine ⟨[], p, .nil h, h, rfl, by rwa [append_nil] at hne, nofun, ?_⟩
    exact .cons (vp8_unpacks (by rwa [append_nil] at hne)) (.nil false)
  | cons b frame ih =>
    by_cases hfull : p.pending.length = p.mtu - 1
    · have hmtu := h.mtu
      have hnext : InVp8 room { p with frameFirst := false, pending := [b] } :=
        ⟨h.codec, h.unitDone, h.room, h.mtu, by change 1 ≤ p.mtu - 1; omega⟩
      obtain ⟨ks, p', htakes, h', hmtu', hpending, hall, hpackets⟩ := ih hnext (by simp)
      refine ⟨[p.flushed] ++ ks, p', .cons h (vp8_takes_packet h b hfull) htakes, h', hmtu', hpending, fun k hk => ?_, ?_⟩
      · obtain hk | hk := mem_append.mp hk
        · rw [mem_singleton.mp hk]
          refine ⟨?_, rfl⟩
          change p.pending.length + 1 ≤ p.mtu
          omega
        · exact hall k hk
      · have hdata : p.pending ≠ [] := fun h => by
          rw [h, length_nil] at hfull
          omega
        exact .cons (vp8_unpacks hdata) hpackets
    · have hle := h.pending
      have hnext : InVp8 room { p with pending := p.pending ++ [b] } :=
        ⟨h.codec, h.unitDone, h.room, h.mtu, by rw [length_append, length_singleton]; dsimp only; omega⟩
      obtain ⟨ks, p', htakes, h', hmtu', hpending, hall, hpackets⟩ := ih hnext (by simp)
      refine ⟨[] ++ ks, p', .cons h (vp8_takes_quiet h b (by omega)) htakes, h', hmtu', hpending, hall, ?_⟩
      rw [append_cons p.pending]
      exact hpackets

theorem vp8_closes {room : Nat} {p : Packetizer} (h : InVp8 room p) (hpending : p.pending ≠ []) :
    Drained (next room) true p [] [(p.vp8Packet true).1] { p with unitDone := true, frameFirst := false, pending := [] } := by
  have hlast : next room true p [] =
      (some (p.vp8Packet true).1, { p with unitDone := true, frameFirst := false, pending := [] }, []) := by
    rw [h.next_eq, nextVp8]
    change (if p.pending = [] then _ else _) = _
    rw [if_neg hpending]
    rfl
  exact .given hlast (.spent rfl)

end Packetizer

def Codec.IsAudio (c : Codec) : Prop := c = .pcmu ∨ c = .pcma ∨ c = .opus

namespace Packetizer

/-- Inside an audio unit of which `done` was taken: it is pending, or it is too long already. -/
structure InAudio (room : Nat) (done : Bytes) (p : Packetizer) : Prop where
  codec : p.codec.IsAudio
  unitDone : p.unitDone = false
  room : p.mtu ≤ room
  took : p.oversize = false ∧ p.pending = done ∧ done.length ≤ p.mtu ∨ p.oversize = true ∧ p.mtu < done.length

def takeAudio (p : Packetizer) (piece : Bytes) : Packetizer :=
  if p.pending.length + piece.length > p.mtu then { p with oversize := true }
  else { p with pending := p.pending ++ piece }

section Audio

variable {room : Nat} {done : Bytes} {p : Packetizer}

theorem InAudio.next_eq (h : InAudio room done p) (last : Bool) (rest : Bytes) :
    next room last p rest = p.nextAudio rest last := by
  have hroom := h.room
  rw [next, h.unitDone, if_neg (by simp; omega)]
  obtain hc | hc | hc := h.codec <;> rw [hc]

theorem InAudio.take (h : InAudio room done p) (piece : Bytes) : InAudio room (done ++ piece) (p.takeAudio piece) := by
  unfold takeAudio
  split
  next hlong =>
    refine ⟨h.codec, h.unitDone, h.room, Or.inr ⟨rfl, ?_⟩⟩
    rw [length_append]
    obtain ⟨-, hpending, -⟩ | ⟨-, hlen⟩ := h.took
    · rwa [hpending] at hlong
    · dsimp only
      omega
  next hfit =>
    refine ⟨h.codec, h.unitDone, h.room, ?_⟩
    rw [length_append]
    obtain ⟨hover, hpending, -⟩ | ⟨hover, hlen⟩ := h.took
    · refine Or.inl ⟨hover, by rw [hpending], ?_⟩
      rw [hpending] at hfit
      exact Nat.not_lt.mp hfit
    · exact Or.inr ⟨hover, by dsimp only; omega⟩

structure AudioSent (mtu : Nat) (marker : Bool) (unit : Bytes) (packets : List Packet) (p : Packetizer) : Prop where
  whole : unit ≠ [] → unit.length ≤ mtu → packets = [{ payload := unit, marker := marker }] ∧ p.oversize = false
  dropped : mtu < unit.length → packets = [] ∧ p.oversize = true
  empty : unit = [] → packets = [] ∧ p.oversize = false

theorem takeAudio_mtu (p : Packetizer) (piece : Bytes) :
    (p.takeAudio piece).mtu = p.mtu ∧ (p.takeAudio piece).unitMarker = p.unitMarker := by
  unfold takeAudio
  split <;> exact ⟨rfl, rfl⟩

theorem InAudio.closes (h : InAudio room done p) (piece : Bytes) :
    ∃ ks, Drained (next room) true p piece ks { p.takeAudio piece with unitDone := true } ∧
      AudioSent p.mtu p.unitMarker (done ++ piece) ks { p.takeAudio piece with unitDone := true } := by
  have htaken := h.take piece
  obtain ⟨hmtu, hmarker⟩ := takeAudio_mtu p piece
  have hnext : next room true p piece =
      if (p.takeAudio piece).oversize || decide ((p.takeAudio piece).pending = []) then
        (none, { p.takeAudio piece with unitDone := true }, [])
      else
        (some { payload := (p.takeAudio piece).pending, marker := (p.takeAudio piece).unitMarker },
          { p.takeAudio piece with unitDone := true }, []) := h.next_eq true piece
  rw [← hmtu, ← hmarker]
  have hdone : next room true { p.takeAudio piece with unitDone := true } [] =
      (none, { p.takeAudio piece with unitDone := true }, []) := rfl
  obtain ⟨hover, hpending, hlen⟩ | ⟨hover, hlen⟩ := htaken.took
  · by_cases hnil : done ++ piece = []
    · refine ⟨[], .spent (hnext.trans (if_pos ?_)), ?_⟩
      · rw [hpending, hnil]
        simp
      · exact ⟨fun hne => absurd hnil hne, fun hlong => by omega, fun _ => ⟨rfl, hover⟩⟩
    · refine ⟨_, .given (hnext.trans (if_neg ?_)) (.spent hdone), ?_⟩
      · rw [hover, hpending]
        simp [hnil]
      · refine ⟨fun _ _ => ⟨by rw [hpending], hover⟩, fun hlong => by omega, fun h => absurd h hnil⟩
  · refine ⟨[], .spent (hnext.trans (if_pos (by rw [hover]; rfl))), ?_⟩
    refine ⟨fun _ hfit => by omega, fun _ => ⟨rfl, hover⟩, fun hnil => ?_⟩
    rw [hnil] at hlen
    exact absurd hlen (Nat.not_lt_zero _)

theorem audio_sends (h : InAudio room done p) {pieces : List Bytes} (hne : pieces ≠ []) :
    ∃ ks t, Sends (next room) p pieces ks t ∧ AudioSent p.mtu p.unitMarker (done ++ pieces.flatten) ks t := by
  induction pieces generalizing done p with
  | nil => exact absurd rfl hne
  | cons piece pieces ih =>
    cases pieces with
    | nil =>
      obtain ⟨ks, hdrained, hsent⟩ := h.closes piece
      refine ⟨ks, _, .final hdrained, ?_⟩
      rw [flatten_cons, flatten_nil, append_nil]
      exact hsent
    | cons piece' pieces =>
      obtain ⟨ks, t, hsends, hsent⟩ := ih (h.take piece) (by simp)
      obtain ⟨hmtu, hmarker⟩ := takeAudio_mtu p piece
      have hpiece : Drained (next room) false p piece [] (p.takeAudio piece) := .spent (h.next_eq false piece)
      refine ⟨[] ++ ks, t, .more hpiece hsends, ?_⟩
      rw [hmtu, hmarker, append_assoc] at hsent
      exact hsent

end Audio

end Packetizer

theorem deliver_audio (e : Layout) {d : Depacketizer} {codec : Codec} (haudio : codec.IsAudio) (hin : d.inUnit = false)
    (ts : UInt32) (unit : Bytes) (marker : Bool) :
    ∃ pts, OneUnit pts
      (fragments ((depacketizer e).run d (received codec ts [{ payload := unit, marker := marker }])).2) unit := by
  have hend := e.endLen_le
  have hinfo : ∃ info, receivedStream codec = some info := by
    obtain rfl | rfl | rfl := haudio <;> exact ⟨_, rfl⟩
  obtain ⟨info, hinfo⟩ := hinfo
  generalize hk : receivedPacket codec ts { payload := unit, marker := marker } = k
  have hcodec : k.codec = codec := by rw [← hk]; rfl
  have hlost : k.lostBefore = false := by rw [← hk]; rfl
  have hpayload : k.payload = unit := by rw [← hk]; rfl
  obtain ⟨items, hwrote, htotal, hitems, -⟩ := openStream_idle e { room := e.depacketizedMax k.payload.length } hin codec
    info (by unfold Layout.depacketizedMax; dsimp only; omega)
  have hpacket : d.packet e k { room := e.depacketizedMax k.payload.length } =
      ((d.openStream e codec info { room := e.depacketizedMax k.payload.length }).1.clock k).audio e k
        (d.openStream e codec info { room := e.depacketizedMax k.payload.length }).2 := by
    rw [Depacketizer.packet, hcodec, hinfo]
    dsimp only
    rw [hlost]
    obtain rfl | rfl | rfl := haudio <;> rfl
  generalize d.openStream e codec info _ = res at hwrote hpacket
  obtain ⟨d₁, out₁⟩ := res
  dsimp only at hwrote hpacket
  have hfilled := hwrote.filled
  have hroom := hwrote.room
  unfold Layout.depacketizedMax at hroom
  dsimp only at hfilled hroom
  have hput : Wrote e out₁ ((d₁.clock k).audio e k out₁).2
      [.record (.unit { key := true, discontinuity := (d₁.clock k).discontinuity } (d₁.clock k).pts k.payload)] :=
    Wrote.put (by change _ + (e.unitHeader + k.payload.length) ≤ _; omega)
  refine ⟨(d₁.clock k).pts, ?_⟩
  have hlog : (d.packet e k { room := e.depacketizedMax k.payload.length }).2.log.filterMap fragmentOf =
      [⟨{ key := true, discontinuity := (d₁.clock k).discontinuity }, (d₁.clock k).pts, k.payload⟩] := by
    rw [hpacket, (hwrote.trans hput).fragments, filterMap_append, hitems]
    rfl
  rw [received_cons, hk, run_fragments _ _ hlog, hpayload]
  exact .last rfl rfl

open Packetizer

/-- A VP8 frame, however it is cut, arrives as one unit. A non-empty audio unit is sent whole or reported; an empty
one neither. -/
theorem vp8_and_audio_units (e : Layout) {p₀ p : Packetizer} {codec : Codec} {packing : Packing} {config : Bytes}
    {mtu : Nat} (hstream : p₀.stream codec packing config mtu = some p) {room : Nat} (hroom : mtu ≤ room)
    (flags : Flags) {pieces : List Bytes} (hne : pieces ≠ []) :
    (codec = .vp8 → pieces.flatten ≠ [] →
      ∃ packets t, Sends (next room) (p.beginUnit flags) pieces packets t ∧ (∀ k ∈ packets, k.payload.length ≤ mtu) ∧
        LastMarked packets ∧ Arrives e codec packets pieces.flatten) ∧
    (codec.IsAudio →
      ∃ packets t, Sends (next room) (p.beginUnit flags) pieces packets t ∧
        AudioSent mtu (p.beginUnit flags).unitMarker pieces.flatten packets t ∧
        (packets ≠ [] → Arrives e codec packets pieces.flatten)) := by
  obtain ⟨hcodec, -, rfl, hlow, -⟩ := stream_fields hstream
  constructor
  · rintro rfl hframe
    have hunit : InVp8 room (p.beginUnit flags) := ⟨hcodec, rfl, hroom, hlow, Nat.zero_le _⟩
    obtain ⟨ks, t, htakes, ht, hmtu, hpending, hall, hpackets⟩ := vp8_takes hunit pieces.flatten hframe
    have hinit : ∀ k ∈ ks, k.marker = false := fun k hk => (hall k hk).2
    refine ⟨_, _, htakes.sends (fun _ h => h.wait) hne (vp8_closes ht hpending), fun k hk => ?_, ⟨ks, _, rfl, hinit, rfl⟩,
      fun d ts hin hskip => deliver (Or.inr rfl) (hpackets.delivers ⟨ks, _, rfl, hinit, rfl⟩) hin hskip⟩
    obtain hk | hk := mem_append.mp hk
    · exact (hall k hk).1
    · rw [mem_singleton.mp hk]
      have hlen := ht.pending
      rw [hmtu] at hlen
      change t.pending.length + 1 ≤ p.mtu
      change t.pending.length ≤ p.mtu - 1 at hlen
      omega
  · intro haudio
    have hunit : InAudio room [] (p.beginUnit flags) :=
      ⟨by rw [← hcodec] at haudio; exact haudio, rfl, hroom, Or.inl ⟨rfl, rfl, Nat.zero_le _⟩⟩
    obtain ⟨packets, t, hsends, hsent⟩ := audio_sends hunit hne
    refine ⟨packets, t, hsends, hsent, fun hsome d ts hin _ => ?_⟩
    have hwhole : packets = [{ payload := pieces.flatten, marker := (p.beginUnit flags).unitMarker }] := by
      by_cases hnil : pieces.flatten = []
      · exact absurd (hsent.empty hnil).1 hsome
      by_cases hlen : pieces.flatten.length ≤ (p.beginUnit flags).mtu
      · exact (hsent.whole hnil hlen).1
      · exact absurd (hsent.dropped (Nat.not_le.mp hlen)).1 hsome
    rw [hwhole]
    exact deliver_audio e haudio hin ts pieces.flatten _

/-- A frame of two bytes, with an empty final fragment. -/
theorem vp8_frame_arrives :
    ∃ packets t, Sends (next 1460) (({ codec := .vp8, packing := .raw, mtu := 1200 } : Packetizer).beginUnit {})
        [[0x10, 0x02], []] packets t ∧
      (∀ k ∈ packets, k.payload.length ≤ 1200) ∧ LastMarked packets ∧
      Arrives ⟨24, 20, 4, le_rfl⟩ .vp8 packets [0x10, 0x02] := by
  have hstream : ({} : Packetizer).stream .vp8 .raw [] 1200 = some { codec := .vp8, packing := .raw, mtu := 1200 } := rfl
  exact (vp8_and_audio_units ⟨24, 20, 4, le_rfl⟩ hstream (show 1200 ≤ 1460 by omega) {}
    (show [[0x10, 0x02], []] ≠ [] from nofun)).1 rfl nofun

/-- An empty audio unit is not sent, and not reported. -/
theorem empty_audio_unit :
    ¬ ∀ (p₀ p : Packetizer) (codec : Codec) (packing : Packing) (config : Bytes) (mtu room : Nat) (flags : Flags)
      (pieces : List Bytes) (packets : List Packet) (t : Packetizer),
      p₀.stream codec packing config mtu = some p → codec.IsAudio → mtu ≤ room → pieces ≠ [] →
      Sends (next room) (p.beginUnit flags) pieces packets t →
      (∃ marker, packets = [{ payload := pieces.flatten, marker := marker }]) ∨ t.oversize = true := by
  intro h
  have hempty : Sends (next 1460) (({ codec := .pcmu, packing := .raw } : Packetizer).beginUnit {}) [[]] []
      { ({ codec := .pcmu, packing := .raw } : Packetizer).beginUnit {} with unitDone := true } := .final (.spent rfl)
  obtain ⟨marker, hpackets⟩ | hover := h {} _ .pcmu .raw [] 1460 1460 {} [[]] [] _ rfl (Or.inl rfl) le_rfl nofun hempty
  · cases hpackets
  · cases hover

end Wave.Common.RtpPayload
