import Wave.Common.RtpPacketizer
import Wave.Common.RtpRecords

/-! # One unit through the depacketizer -/

namespace Wave.Common.RtpPayload

open Lib Lib.Bytes

variable {body : Bytes}

structure Fragment where
  flags : Flags
  pts : Int64
  body : Bytes

def fragmentOf : Item → Option Fragment
  | .record (.unit flags pts body) => some { flags := flags, pts := pts, body := body }
  | _ => none

def fragments (outs : List Out) : List Fragment := (outs.flatMap Out.log).filterMap fragmentOf

theorem fragments_append (outs outs' : List Out) : fragments (outs ++ outs') = fragments outs ++ fragments outs' := by
  rw [fragments, flatMap_append, filterMap_append]
  rfl

/-- The fragments are one unit, and its bytes are `bytes`. -/
inductive OneUnit (pts : Int64) : List Fragment → Bytes → Prop
  | last {flags : Flags} {body : Bytes} (h : flags.continues = false) (ht : flags.truncated = false) :
    OneUnit pts [{ flags := flags, pts := pts, body := body }] body
  | more {flags : Flags} {body bytes : Bytes} {fs : List Fragment} (h : flags.continues = true)
    (ht : flags.truncated = false) (hrest : OneUnit pts fs bytes) :
    OneUnit pts ({ flags := flags, pts := pts, body := body } :: fs) (body ++ bytes)

def receivedPacket (codec : Codec) (ts : UInt32) (k : Packet) : Received :=
  { codec := codec, timestamp := ts, marker := k.marker, lostBefore := false, payload := k.payload }

def received (codec : Codec) (ts : UInt32) (packets : List Packet) : List Received :=
  packets.map (receivedPacket codec ts)

/-- The payload is read as `body`, in any buffer with the room that it is due. -/
def Unpacks (codec : Codec) (starting : Bool) (payload body : Bytes) : Prop :=
  ∀ (pkt : Received) (room : Nat), pkt.codec = codec → pkt.payload = payload → payload.length * 5 / 3 + 4 ≤ room →
    ∃ key, Depacketizer.unpack pkt starting room = .ok (body, key)

/-- The packets of one unit, from its start or from a later one on; only the last has the marker. -/
inductive Delivers (codec : Codec) : Bool → List Packet → Bytes → Prop
  | last {starting : Bool} {payload body : Bytes} (h : Unpacks codec starting payload body) :
    Delivers codec starting [{ payload := payload, marker := true }] body
  | more {starting : Bool} {payload body bytes : Bytes} {ks : List Packet} (h : Unpacks codec starting payload body)
    (hrest : Delivers codec false ks bytes) :
    Delivers codec starting ({ payload := payload, marker := false } :: ks) (body ++ bytes)

/-- The payloads are read one after another, the first as a unit's start or not. -/
inductive Reads (codec : Codec) : Bool → List Packet → Bytes → Prop
  | nil (starting : Bool) : Reads codec starting [] []
  | cons {starting marker : Bool} {payload body bytes : Bytes} {ks : List Packet}
    (h : Unpacks codec starting payload body) (hrest : Reads codec false ks bytes) :
    Reads codec starting ({ payload := payload, marker := marker } :: ks) (body ++ bytes)

theorem Reads.append {codec : Codec} {starting : Bool} {ks ks' : List Packet} {bytes bytes' : Bytes}
    (h : Reads codec starting ks bytes) (h' : Reads codec (starting && ks.isEmpty) ks' bytes') :
    Reads codec starting (ks ++ ks') (bytes ++ bytes') := by
  induction h with
  | nil starting =>
    rw [isEmpty_nil, Bool.and_true] at h'
    exact h'
  | cons hbody _ ih =>
    rw [isEmpty_cons, Bool.and_false] at h'
    rw [append_assoc]
    exact .cons hbody (ih (by rwa [Bool.false_and]))

def LastMarked (packets : List Packet) : Prop :=
  ∃ init last, packets = init ++ [last] ∧ (∀ k ∈ init, k.marker = false) ∧ last.marker = true

theorem Reads.delivers {codec : Codec} {starting : Bool} {ks : List Packet} {bytes : Bytes}
    (h : Reads codec starting ks bytes) (hmarked : LastMarked ks) : Delivers codec starting ks bytes := by
  obtain ⟨init, last, rfl, hinit, hlast⟩ := hmarked
  induction init generalizing starting bytes with
  | nil =>
    cases h with
    | @cons _ marker payload body bytes _ hbody hrest =>
      cases hrest
      obtain rfl : marker = true := hlast
      rw [append_nil]
      exact .last hbody
  | cons k init ih =>
    cases h with
    | @cons _ marker payload body bytes _ hbody hrest =>
      obtain rfl : marker = false := hinit _ mem_cons_self
      exact .more hbody (ih hrest fun k hk => hinit k (mem_cons_of_mem _ hk))

section Delivery

variable {e : Layout} {d : Depacketizer} {out : Out} {pkt : Received}

structure Inside (codec : Codec) (ts : UInt32) (d : Depacketizer) : Prop where
  codec : d.codec = some codec
  inUnit : d.inUnit = true
  unitTs : d.unitTs = ts
  lastTs : d.lastTs = ts
  skipTs : d.skipTs = none
  started : d.started = true

theorem openStream_idle (e : Layout) (out : Out) (hin : d.inUnit = false) (codec : Codec) (info : Packing × UInt8 × UInt32)
    (hroom : out.filled + e.streamHeader + e.endLen ≤ out.room) :
    ∃ items, Wrote e out (d.openStream e codec info out).2 items ∧ e.total items ≤ e.streamHeader + e.endLen ∧
      items.filterMap fragmentOf = [] ∧ (d.openStream e codec info out).1.codec = some codec ∧
      (d.openStream e codec info out).1.inUnit = false ∧
      ((d.openStream e codec info out).1.skipTs = d.skipTs ∨ (d.openStream e codec info out).1.skipTs = none) := by
  unfold Depacketizer.openStream
  by_cases hcodec : d.codec = some codec
  · rw [if_pos hcodec]
    exact ⟨[], Wrote.refl, Nat.zero_le _, rfl, hcodec, hin, Or.inl rfl⟩
  rw [if_neg hcodec]
  by_cases hnone : d.codec = none
  · rw [Depacketizer.finish, if_pos hnone]
    refine ⟨[.record (.stream codec info.1 info.2.1 info.2.2)], Wrote.put ?_, ?_, rfl, rfl, hin, Or.inl rfl⟩
    · change _ + e.streamHeader ≤ _
      omega
    · change e.streamHeader + 0 ≤ _
      omega
  · have hfinish : d.finish e out = ({}, out.put e .end) := by
      rw [Depacketizer.finish, if_neg hnone, hin]
      rfl
    rw [hfinish]
    have hend : Wrote e out (out.put e .end) [.record .end] := Wrote.put (by rw [size_end]; omega)
    have hfilled := hend.filled
    rw [total_record, total_nil, size_end] at hfilled
    refine ⟨[Item.record .end] ++ [Item.record (.stream codec info.1 info.2.1 info.2.2)], hend.trans (Wrote.put ?_), ?_, rfl, rfl,
      rfl, Or.inr rfl⟩
    · rw [hend.room]
      change _ + e.streamHeader ≤ _
      omega
    · change e.endLen + (e.streamHeader + 0) ≤ _
      omega

theorem video_written (e : Layout) (d : Depacketizer) (out : Out) (pkt : Received)
    (hlost : pkt.lostBefore = false) (hsame : d.inUnit = true → d.unitTs = pkt.timestamp)
    (hskip : d.skipTs ≠ some pkt.timestamp) (hbody : Unpacks pkt.codec (!d.inUnit) pkt.payload body)
    (hroom : out.filled + e.unitHeader + (pkt.payload.length * 5 / 3 + 4) ≤ out.room) :
    ∃ flags : Flags, flags.continues = !pkt.marker ∧ flags.truncated = false ∧
      Wrote e out (d.video e pkt out).2 [.record (.unit flags d.pts body)] ∧
      (d.video e pkt out).1 = { d with
        skipTs := none
        discontinuity := d.inUnit && d.discontinuity
        inUnit := !pkt.marker
        unitTs := pkt.timestamp } := by
  have hcut : d.cut e pkt out = (d, out) := by
    rw [Depacketizer.cut, if_neg]
    intro hcut
    obtain ⟨hin, hcause⟩ := and_eq_true_iff.mp hcut
    rw [hsame hin, hlost, bne_self_eq_false] at hcause
    exact false_ne_true hcause
  obtain ⟨key, hunpack⟩ := hbody pkt (out.room - (out.filled + e.unitHeader)) rfl rfl (by omega)
  have hlen := (unpack_within pkt (show _ ≤ out.room - (out.filled + e.unitHeader) by omega) le_rfl _).2 body key hunpack
  unfold Depacketizer.video
  rw [hcut]
  dsimp only
  rw [if_neg hskip]
  unfold Depacketizer.fragment
  dsimp only
  rw [if_neg (by omega), hunpack]
  refine ⟨_, rfl, rfl, Wrote.put ?_, ?_⟩
  · change _ + (e.unitHeader + body.length) ≤ _
    omega
  · rw [Bool.not_not]

theorem Wrote.fragments {out' : Out} {items : List Item} (h : Wrote e out out' items) :
    out'.log.filterMap fragmentOf = out.log.filterMap fragmentOf ++ items.filterMap fragmentOf := by
  rw [h.log, filterMap_append]

structure Became (codec : Codec) (pkt : Received) (body : Bytes) (res : Depacketizer × Out) (frag : Fragment) : Prop where
  body : frag.body = body
  continues : frag.flags.continues = !pkt.marker
  truncated : frag.flags.truncated = false
  log : res.2.log.filterMap fragmentOf = [frag]
  pts : res.1.pts = frag.pts
  inside : pkt.marker = false → Inside codec pkt.timestamp res.1

theorem packet_video (e : Layout) (d : Depacketizer) (out : Out) (hvideo : pkt.codec.IsVideo) (hlost : pkt.lostBefore = false) :
    ∃ info, receivedStream pkt.codec = some info ∧ d.packet e pkt out =
      ((d.openStream e pkt.codec info out).1.clock pkt).video e pkt (d.openStream e pkt.codec info out).2 := by
  obtain hc | hc := hvideo
  · refine ⟨(.annexb, 0, 90000), by rw [hc]; rfl, ?_⟩
    simp only [Depacketizer.packet, hc, receivedStream, hlost]
    rfl
  · refine ⟨(.raw, 0, 90000), by rw [hc]; rfl, ?_⟩
    simp only [Depacketizer.packet, hc, receivedStream, hlost]
    rfl

theorem packet_first (pkt : Received) (hvideo : pkt.codec.IsVideo) (hlost : pkt.lostBefore = false)
    (hin : d.inUnit = false) (hskip : d.skipTs ≠ some pkt.timestamp) (hbody : Unpacks pkt.codec true pkt.payload body) :
    ∃ frag, Became pkt.codec pkt body (d.packet e pkt { room := e.depacketizedMax pkt.payload.length }) frag := by
  have hend := e.endLen_le
  obtain ⟨info, -, hpacket⟩ := packet_video e d { room := e.depacketizedMax pkt.payload.length } hvideo hlost
  obtain ⟨items, hwrote, htotal, hitems, hcodec, hidle, hskip'⟩ := openStream_idle e
    { room := e.depacketizedMax pkt.payload.length } hin pkt.codec info
    (by unfold Layout.depacketizedMax; dsimp only; omega)
  rw [hpacket]
  generalize d.openStream e pkt.codec info _ = res at hwrote hcodec hidle hskip' ⊢
  obtain ⟨d₁, out₁⟩ := res
  dsimp only at hwrote hcodec hidle hskip' ⊢
  have hfilled := hwrote.filled
  have hroom := hwrote.room
  unfold Layout.depacketizedMax at hroom
  dsimp only at hfilled hroom
  have hidle' : (d₁.clock pkt).inUnit = false := hidle
  have hunskipped : (d₁.clock pkt).skipTs ≠ some pkt.timestamp := by
    change d₁.skipTs ≠ _
    obtain h | h := hskip' <;> rw [h]
    · exact hskip
    · exact nofun
  obtain ⟨flags, hcontinues, htruncated, hput, hstate⟩ := video_written e (d₁.clock pkt) out₁ pkt hlost
    (by rw [hidle']; exact nofun) hunskipped (by rw [hidle']; exact hbody) (by omega)
  refine ⟨⟨flags, (d₁.clock pkt).pts, body⟩, rfl, hcontinues, htruncated, ?_, by rw [hstate], fun hm => ?_⟩
  · rw [(hwrote.trans hput).fragments, filterMap_append, hitems]
    rfl
  · rw [hstate, hm]
    exact ⟨hcodec, rfl, rfl, rfl, rfl, rfl⟩

theorem packet_next (pkt : Received) (hvideo : pkt.codec.IsVideo) (hlost : pkt.lostBefore = false)
    (hinside : Inside pkt.codec pkt.timestamp d)
    (hbody : Unpacks pkt.codec false pkt.payload body) :
    ∃ frag, Became pkt.codec pkt body (d.packet e pkt { room := e.depacketizedMax pkt.payload.length }) frag ∧
      frag.pts = d.pts := by
  obtain ⟨info, -, hpacket⟩ := packet_video e d { room := e.depacketizedMax pkt.payload.length } hvideo hlost
  rw [hpacket, Depacketizer.openStream, if_pos hinside.codec]
  dsimp only
  have hin : (d.clock pkt).inUnit = true := hinside.inUnit
  have hpts : (d.clock pkt).pts = d.pts := by
    change (if d.started then d.pts + (pkt.timestamp - d.lastTs).toInt32.toInt64 else d.pts) = _
    rw [if_pos hinside.started, hinside.lastTs, UInt32.sub_self]
    exact Int64.add_zero d.pts
  have hunskipped : (d.clock pkt).skipTs ≠ some pkt.timestamp := by
    change d.skipTs ≠ _
    rw [hinside.skipTs]
    exact nofun
  obtain ⟨flags, hcontinues, htruncated, hput, hstate⟩ := video_written e (d.clock pkt)
    { room := e.depacketizedMax pkt.payload.length } pkt hlost (fun _ => hinside.unitTs) hunskipped
    (by rw [hin]; exact hbody) (by unfold Layout.depacketizedMax; dsimp only; omega)
  refine ⟨⟨flags, (d.clock pkt).pts, body⟩, ⟨rfl, hcontinues, htruncated, ?_, by rw [hstate], fun hm => ?_⟩, hpts⟩
  · rw [hput.fragments]
    rfl
  · rw [hstate, hm]
    exact ⟨hinside.codec, rfl, rfl, rfl, rfl, rfl⟩

theorem received_cons (codec : Codec) (ts : UInt32) (k : Packet) (ks : List Packet) :
    received codec ts (k :: ks) = receivedPacket codec ts k :: received codec ts ks := rfl

theorem run_fragments (k : Received) (ks : List Received) {frag : Fragment}
    (h : (d.packet e k { room := e.depacketizedMax k.payload.length }).2.log.filterMap fragmentOf = [frag]) :
    fragments ((depacketizer e).run d (k :: ks)).2 =
      frag :: fragments ((depacketizer e).run (d.packet e k { room := e.depacketizedMax k.payload.length }).1 ks).2 := by
  rw [Machine.run_cons, fragments_append]
  have hone : fragments [(d.packet e k { room := e.depacketizedMax k.payload.length }).2] = [frag] := by
    rw [fragments, flatMap_singleton, h]
  change fragments [_] ++ _ = _
  rw [hone]
  rfl

section Unit

variable {codec : Codec} {ts : UInt32} {ks : List Packet} {bytes : Bytes}

theorem deliver_rest (hvideo : codec.IsVideo) (h : Delivers codec false ks bytes) (hinside : Inside codec ts d) :
    OneUnit d.pts (fragments ((depacketizer e).run d (received codec ts ks)).2) bytes := by
  generalize hs : false = starting at h
  induction h generalizing d with
  | @last starting payload body hbody =>
    subst hs
    obtain ⟨⟨flags, pts, _⟩, ⟨rfl, hcontinues, htruncated, hlog, -, -⟩, rfl⟩ := packet_next (e := e)
      (receivedPacket codec ts ⟨payload, true⟩) hvideo rfl hinside hbody
    rw [received_cons, run_fragments _ _ hlog]
    exact .last hcontinues htruncated
  | @more starting payload body bytes ks hbody hrest ih =>
    subst hs
    obtain ⟨⟨flags, pts, _⟩, ⟨rfl, hcontinues, htruncated, hlog, hpts, hnext⟩, rfl⟩ := packet_next (e := e)
      (receivedPacket codec ts ⟨payload, false⟩) hvideo rfl hinside hbody
    rw [received_cons, run_fragments _ _ hlog]
    have hunit := ih (hnext rfl) rfl
    rw [hpts] at hunit
    exact .more hcontinues htruncated hunit

theorem deliver (hvideo : codec.IsVideo) (h : Delivers codec true ks bytes) (hin : d.inUnit = false)
    (hskip : d.skipTs ≠ some ts) :
    ∃ pts, OneUnit pts (fragments ((depacketizer e).run d (received codec ts ks)).2) bytes := by
  cases h with
  | @last _ payload body hbody =>
    obtain ⟨⟨flags, pts, _⟩, rfl, hcontinues, htruncated, hlog, -, -⟩ := packet_first (e := e)
      (receivedPacket codec ts ⟨payload, true⟩) hvideo rfl hin hskip hbody
    rw [received_cons, run_fragments _ _ hlog]
    exact ⟨pts, .last hcontinues htruncated⟩
  | @more _ payload body bytes ks hbody hrest =>
    obtain ⟨⟨flags, pts, _⟩, rfl, hcontinues, htruncated, hlog, hpts, hnext⟩ := packet_first (e := e)
      (receivedPacket codec ts ⟨payload, false⟩) hvideo rfl hin hskip hbody
    rw [received_cons, run_fragments _ _ hlog]
    have hunit := deliver_rest (e := e) hvideo hrest (hnext rfl)
    rw [hpts] at hunit
    exact ⟨pts, .more hcontinues htruncated hunit⟩

end Unit

end Delivery

/-- The packets of one unit through the depacketizer, from any state without an open unit: one unit of the bytes. -/
def Arrives (e : Layout) (codec : Codec) (packets : List Packet) (bytes : Bytes) : Prop :=
  ∀ (d : Depacketizer) (ts : UInt32), d.inUnit = false → d.skipTs ≠ some ts →
    ∃ pts, OneUnit pts (fragments ((depacketizer e).run d (received codec ts packets)).2) bytes

end Wave.Common.RtpPayload
