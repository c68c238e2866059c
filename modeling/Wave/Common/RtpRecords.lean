import Wave.Common.RtpPayload

/-! # The records of the depacketizer

`depacketized_max` bytes hold what one packet can produce; `Reader` reads a run's records to their end. -/

namespace Wave.Common.RtpPayload

open Lib Lib.Bytes

variable {n : Nat} {c : Codec}

/-! ### Reading the records -/

structure Reader where
  stream : Bool := false
  /-- The `pts` of the unit that is open. -/
  unit : Option Int64 := none
  owed : Bool := false

namespace Reader

/-- `none` for an item that is out of place; `keep` asks a stream's first unit for the losses before the stream. -/
def read (keep : Bool) (r : Reader) : Item → Option Reader
  | .lost | .damaged => some { r with owed := true }
  | .record (.stream ..) => if r.stream then none else some { stream := true, owed := keep && r.owed }
  | .record .end => if r.stream && r.unit.isNone then some { r with stream := false } else none
  | .record (.unit flags pts body) =>
    if !r.stream then none
    else
      match r.unit with
      | none =>
        if flags.truncated || (r.owed && !flags.discontinuity) then none
        else some { r with unit := if flags.continues then some pts else none, owed := false }
      | some p =>
        if flags.truncated then
          if body = [] ∧ flags.continues = false then some { r with unit := none } else none
        else if pts = p then some { r with unit := if flags.continues then some pts else none }
        else none

def readAll (keep : Bool) : Reader → List Item → Option Reader
  | r, [] => some r
  | r, i :: is => (r.read keep i).bind fun r => readAll keep r is

variable {keep : Bool}

theorem readAll_append (r : Reader) (is js : List Item) :
    r.readAll keep (is ++ js) = (r.readAll keep is).bind fun r => r.readAll keep js := by
  induction is generalizing r with
  | nil => rfl
  | cons i is ih =>
    rw [cons_append, readAll, readAll, Option.bind_assoc]
    congr 1
    funext r
    exact ih r

end Reader

/-- All records of a unit carry the `pts` of its first, with `unit` that of the unit that is open in front. -/
def onePts : (unit : Option Int64) → List Item → Bool
  | _, [] => true
  | unit, .record (.unit flags pts _) :: is =>
    unit.all (· == pts) && onePts (if flags.continues then some (unit.getD pts) else none) is
  | _, .record _ :: is => onePts none is
  | unit, .lost :: is | unit, .damaged :: is => onePts unit is

theorem onePts_read {keep : Bool} {r r' : Reader} {i : Item} (h : r.read keep i = some r') (is : List Item) :
    onePts r.unit (i :: is) = (onePts r.unit [i] && onePts r'.unit is) := by
  cases i with
  | lost => cases h; rfl
  | damaged => cases h; rfl
  | record rec =>
    cases rec with
    | stream codec packing channels clock =>
      rw [Reader.read] at h
      split at h
      · cases h
      · cases h
        rfl
    | «end» =>
      rw [Reader.read] at h
      split at h
      next hclosed =>
        cases h
        have hnone := isNone_iff_eq_none.mp (and_eq_true_iff.mp hclosed).2
        simp only [onePts, hnone, Bool.true_and]
      · cases h
    | unit flags pts body =>
      rw [Reader.read] at h
      split at h
      · cases h
      cases hunit : r.unit with
      | none =>
        simp only [hunit] at h
        split at h
        · cases h
        · cases h
          simp only [onePts, Option.all_none, Option.getD_none, Bool.true_and]
      | some p =>
        simp only [hunit] at h
        split at h
        · split at h
          next hbare =>
            cases h
            simp only [onePts, hbare.2, false_eq_true, if_false, Bool.and_true]
          · cases h
        · split at h
          next hsame =>
            cases h
            simp only [onePts, hsame, getD_some, Bool.and_true]
          · cases h

theorem onePts_append {keep : Bool} {r r' : Reader} {is : List Item} (h : r.readAll keep is = some r') (js : List Item) :
    onePts r.unit (is ++ js) = (onePts r.unit is && onePts r'.unit js) := by
  induction is generalizing r with
  | nil =>
    cases h
    rfl
  | cons i is ih =>
    rw [Reader.readAll] at h
    obtain ⟨r₁, hone, hrest⟩ := bind_eq_some_iff.mp h
    rw [cons_append, onePts_read hone, onePts_read hone is, ih hrest, Bool.and_assoc]

/-! ### Room -/

section Room

variable {room : Nat}

/-- The outcome of a payload reader that needs `n` bytes at most. -/
def Within (n : Nat) (res : Except Unread (Bytes × Bool)) : Prop :=
  res ≠ .error .noRoom ∧ ∀ body key, res = .ok (body, key) → body.length ≤ n

theorem within_malformed (n : Nat) : Within n (.error .malformed) := ⟨nofun, nofun⟩

theorem within_ok {body : Bytes} (h : body.length ≤ n) (key : Bool) : Within n (.ok (body, key)) :=
  ⟨nofun, fun _ _ hok => by cases hok; exact h⟩

theorem putNal_within (hn : n ≤ room) {out nal : Bytes} (h : out.length + 4 + nal.length ≤ n) (key : Bool) :
    Within n (putNal room out nal key) := by
  unfold putNal
  split
  · exact within_malformed n
  · rw [if_neg (by change ¬ out.length + 4 + nal.length > room; omega)]
    exact within_ok (by rw [length_append, length_append]; change out.length + 4 + nal.length ≤ n; omega) _

theorem stapA_within (hn : n ≤ room) (turns : Nat) (p out : Bytes) (key : Bool)
    (h : 3 * out.length + 5 * p.length ≤ 3 * n) : Within n (stapA room turns p out key) := by
  induction turns generalizing p out key with
  | zero => exact within_ok (by omega) key
  | succ turns ih =>
    unfold stapA
    split
    · exact within_ok (by omega) key
    split
    · exact within_malformed n
    dsimp only
    split
    · exact within_malformed n
    next hlen hfit =>
      generalize hm : (u16be (at0 p 0) (at0 p 1)).toNat = m at hfit ⊢
      have hslice : (Bytes.slice p 2 (2 + m)).length = m := by
        rw [length_slice_of_le (by omega)]
        omega
      split
      next u hput =>
        by_cases hempty : Bytes.slice p 2 (2 + m) = []
        · rw [putNal, if_pos hempty] at hput
          cases hput
          exact within_malformed n
        · rw [← hput]
          have hpos := length_pos_of_ne_nil hempty
          exact putNal_within hn (by omega) key
      next out' key' hput =>
        rw [putNal] at hput
        split at hput
        · cases hput
        next hempty =>
          split at hput
          · cases hput
          cases hput
          have hpos := length_pos_of_ne_nil hempty
          refine ih _ _ _ ?_
          rw [length_append, length_append, length_drop]
          change 3 * (out.length + 4 + _) + _ ≤ _
          omega

theorem h264ToAnnexb_within {payload : Bytes} (hn : n ≤ room) (h : payload.length * 5 / 3 + 4 ≤ n) (starting : Bool) : Within n (h264ToAnnexb payload starting room) := by
  unfold h264ToAnnexb
  split
  · exact within_malformed n
  next indicator rest =>
    rw [length_cons] at h
    dsimp only
    split
    · exact putNal_within hn (by rw [length_nil, length_cons]; omega) false
    split
    · exact stapA_within hn _ _ _ _ (by rw [length_nil]; omega)
    split
    · split
      · exact within_malformed n
      next fu data =>
        rw [length_cons] at h
        split
        · rw [if_neg (by omega)]
          exact within_ok (by rw [length_append, length_cons]; change 4 + _ ≤ n; omega) _
        split
        · exact within_malformed n
        · rw [if_neg (by omega)]
          exact within_ok (by omega) _
    · exact within_malformed n

theorem vp8FrameData_within {payload : Bytes} (hn : n ≤ room) (h : payload.length ≤ n) (starting : Bool) :
    Within n (vp8FrameData payload starting room) := by
  unfold vp8FrameData
  split
  · exact within_malformed n
  split
  · exact within_malformed n
  split
  · exact within_malformed n
  dsimp only
  split
  · exact within_malformed n
  · rw [if_neg (by rw [length_drop]; omega)]
    exact within_ok (by rw [length_drop]; omega) _

end Room

section Writing

variable (e : Layout)

def Layout.total : List Item → Nat
  | [] => 0
  | .record r :: is => e.size r + total is
  | _ :: is => total is

@[simp] theorem total_nil : e.total [] = 0 := rfl
@[simp] theorem total_record (r : Record) (is : List Item) : e.total (.record r :: is) = e.size r + e.total is := rfl
@[simp] theorem total_lost (is : List Item) : e.total (.lost :: is) = e.total is := rfl
@[simp] theorem total_damaged (is : List Item) : e.total (.damaged :: is) = e.total is := rfl

theorem total_append (is js : List Item) : e.total (is ++ js) = e.total is + e.total js := by
  induction is with
  | nil => simp
  | cons i is ih => cases i <;> simp [ih, Nat.add_assoc]

@[simp] theorem size_truncation (pts : Int64) : e.size (truncation pts) = e.unitHeader := rfl
@[simp] theorem size_end : e.size .end = e.endLen := rfl

structure Wrote (out out' : Out) (items : List Item) : Prop where
  log : out'.log = out.log ++ items
  filled : out'.filled = out.filled + e.total items
  room : out'.room = out.room
  refused : out'.refused = out.refused
  outside : out'.outside = out.outside
  inside : out.filled ≤ out.room → out'.filled ≤ out'.room

variable {e} {out out₁ out₂ : Out} {is js : List Item}

theorem Wrote.refl : Wrote e out out [] := ⟨by simp, by simp, rfl, rfl, rfl, id⟩

theorem Wrote.trans (h : Wrote e out out₁ is) (h' : Wrote e out₁ out₂ js) : Wrote e out out₂ (is ++ js) where
  log := by rw [h'.log, h.log, append_assoc]
  filled := by rw [h'.filled, h.filled, total_append, Nat.add_assoc]
  room := h'.room.trans h.room
  refused := h'.refused.trans h.refused
  outside := h'.outside.trans h.outside
  inside hin := h'.inside (h.inside hin)

theorem Wrote.put {r : Record} (h : out.filled + e.size r ≤ out.room) : Wrote e out (out.put e r) [.record r] := by
  rw [Out.put, if_neg (by omega), if_pos h]
  exact ⟨rfl, rfl, rfl, rfl, rfl, fun _ => h⟩

theorem Wrote.lost : Wrote e out (out.mark .lost) [.lost] := ⟨rfl, rfl, rfl, rfl, rfl, id⟩

theorem Wrote.damaged : Wrote e out (out.mark .damaged) [.damaged] := ⟨rfl, rfl, rfl, rfl, rfl, id⟩

structure Out.Fits (out : Out) : Prop where
  refused : out.refused = false
  outside : out.outside = false
  filled : out.filled ≤ out.room

theorem Wrote.fits {room : Nat} (h : Wrote e { room := room } out is) : out.Fits ∧ out.log = is :=
  ⟨⟨h.refused, h.outside, h.inside (Nat.zero_le _)⟩, h.log⟩

end Writing

/-! ### The depacketizer and a reader -/

def Codec.IsVideo (c : Codec) : Prop := c = .h264 ∨ c = .vp8

structure Sim (d : Depacketizer) (r : Reader) : Prop where
  stream : r.stream = d.codec.isSome
  unit : r.unit.isSome = d.inUnit
  pts : d.inUnit → d.lastTs = d.unitTs → r.unit = some d.pts
  owed : r.owed → d.discontinuity
  skip : d.skipTs.isSome → d.discontinuity
  video : d.inUnit ∨ d.skipTs.isSome → ∃ c, d.codec = some c ∧ c.IsVideo

def Settled (d : Depacketizer) : Prop := d.inUnit → d.started ∧ d.lastTs = d.unitTs

theorem sim_start : Sim {} {} := ⟨rfl, rfl, nofun, nofun, nofun, by simp⟩

theorem settled_start : Settled {} := nofun

/-- A call that adds `items` to `out`, and leaves a reader that reads them in a state where `I` holds. -/
def Leads (e : Layout) (I : Depacketizer → Reader → Prop) (out : Out) (r : Reader) (res : Depacketizer × Out)
    (items : List Item) : Prop :=
  Wrote e out res.2 items ∧ ∃ r', r.readAll false items = some r' ∧ I res.1 r'

section Steps

variable {e : Layout} {d : Depacketizer} {r : Reader} {out : Out} {pkt : Received}

theorem Sim.unit_none (h : Sim d r) (hin : d.inUnit = false) : r.unit = none := by
  have hunit := h.unit
  rw [hin] at hunit
  exact Option.not_isSome_iff_eq_none.mp (by rw [hunit]; simp)

theorem Sim.unit_some (h : Sim d r) (hin : d.inUnit = true) : ∃ p, r.unit = some p :=
  isSome_iff_exists.mp (h.unit.trans hin)

theorem Sim.codec_some (h : Sim d r) (hin : d.inUnit = true) : d.codec.isSome = true := by
  obtain ⟨c, hc, -⟩ := h.video (Or.inl hin)
  rw [hc]
  rfl

theorem read_truncation (h : Sim d r) (hin : d.inUnit = true) :
    r.read false (.record (truncation d.pts)) = some { r with unit := none } := by
  obtain ⟨p, hp⟩ := h.unit_some hin
  have hstream := h.stream.trans (h.codec_some hin)
  simp [Reader.read, truncation, hstream, hp]

theorem finish_leads (e : Layout) (out : Out) (h : Sim d r) (hs : Settled d)
    (hroom : out.filled + e.unitHeader + e.endLen ≤ out.room) :
    ∃ items, e.total items ≤ e.unitHeader + e.endLen ∧ onePts r.unit items ∧
      Leads e (fun d' r' => d'.codec = none ∧ d'.inUnit = false ∧ d'.skipTs = none ∧ r'.stream = false ∧ r'.unit = none)
        out r
        (d.finish e out) items := by
  unfold Depacketizer.finish
  split
  next hnone =>
    have hvideo : ¬ (d.inUnit = true ∨ d.skipTs.isSome = true) := fun hv => by
      obtain ⟨c, hc, -⟩ := h.video hv
      rw [hnone] at hc
      cases hc
    obtain ⟨hin, hskip⟩ := not_or.mp hvideo
    refine ⟨[], by simp, rfl, Wrote.refl, r, rfl, hnone, eq_false_iff.mpr hin, Option.not_isSome_iff_eq_none.mp hskip, ?_,
      h.unit_none (eq_false_iff.mpr hin)⟩
    rw [h.stream, hnone]
    rfl
  next hsome =>
    have hstream : r.stream = true := h.stream.trans (isSome_iff_ne_none.mpr hsome)
    split
    next hin =>
      have htrunc : Wrote e out (out.put e (truncation d.pts)) [.record (truncation d.pts)] :=
        Wrote.put (by rw [size_truncation]; omega)
      have hfilled := htrunc.filled
      have hroom' := htrunc.room
      rw [total_record, total_nil, size_truncation] at hfilled
      refine ⟨[.record (truncation d.pts), .record .end], by simp, ?_,
        htrunc.trans (Wrote.put (by rw [hroom', size_end]; omega)),
        { r with stream := false, unit := none }, ?_, rfl, rfl, rfl, rfl, rfl⟩
      · rw [h.pts hin (hs hin).2]
        simp [onePts, truncation]
      · rw [Reader.readAll, read_truncation h hin, bind_some, Reader.readAll]
        simp [Reader.read, Reader.readAll, hstream]
    next hin =>
      have hunit := h.unit_none (eq_false_iff.mpr hin)
      refine ⟨[.record .end], by simp, rfl, Wrote.put (by rw [size_end]; omega),
        { r with stream := false, unit := none }, ?_, rfl, rfl, rfl, rfl, rfl⟩
      simp [Reader.read, Reader.readAll, hstream, hunit]

theorem openStream_leads (e : Layout) (out : Out) (h : Sim d r) (hs : Settled d) (codec : Codec) (info : Packing × UInt8 × UInt32)
    (hroom : out.filled + e.streamHeader + e.unitHeader + e.endLen ≤ out.room) :
    ∃ items, e.total items ≤ e.streamHeader + e.unitHeader + e.endLen ∧ onePts r.unit items ∧
      Leads e (fun d' r' => Sim d' r' ∧ Settled d' ∧ d'.codec = some codec ∧ (d'.inUnit = true → items = [])) out r
        (d.openStream e codec info out) items := by
  unfold Depacketizer.openStream
  split
  next hcodec => exact ⟨[], by simp, rfl, Wrote.refl, r, rfl, h, hs, hcodec, fun _ => rfl⟩
  next hcodec =>
    obtain ⟨items, htotal, hone, hwrote, r', hread, -, hin, hskip, hstream, -⟩ :=
      finish_leads e out h hs (by omega)
    have hput : Wrote e (d.finish e out).2 ((d.finish e out).2.put e (.stream codec info.1 info.2.1 info.2.2))
        [.record (.stream codec info.1 info.2.1 info.2.2)] :=
      Wrote.put (by rw [hwrote.room, hwrote.filled]; change _ + e.streamHeader ≤ _; omega)
    refine ⟨items ++ [Item.record (.stream codec info.1 info.2.1 info.2.2)], ?_, ?_, hwrote.trans hput, { stream := true },
      ?_, ?_, ?_, rfl, ?_⟩
    · rw [total_append]
      change _ + (e.streamHeader + 0) ≤ _
      omega
    · rw [onePts_append hread, hone]
      rfl
    · rw [Reader.readAll_append, hread, bind_some, Reader.readAll, Reader.read, hstream]
      rfl
    · dsimp only
      exact ⟨rfl, hin.symm, by rw [hin]; nofun, nofun, by rw [hskip]; nofun, by simp [hin, hskip]⟩
    · intro hin'
      exact absurd (hin.symm.trans hin') false_ne_true
    · intro hin'
      exact absurd (hin.symm.trans hin') false_ne_true

theorem clock_sim (pkt : Received) (h : Sim d r) (hs : Settled d) : Sim (d.clock pkt) { r with owed := r.owed || pkt.lostBefore } where
  stream := h.stream
  unit := h.unit
  pts := by
    intro hin hts
    obtain ⟨hstarted, hlast⟩ := hs hin
    have hsame : pkt.timestamp = d.lastTs := (show pkt.timestamp = d.unitTs from hts).trans hlast.symm
    change r.unit = some (if d.started then d.pts + (pkt.timestamp - d.lastTs).toInt32.toInt64 else d.pts)
    rw [if_pos hstarted, hsame, UInt32.sub_self, h.pts hin hlast]
    congr 1
    exact (Int64.add_zero d.pts).symm
  owed := by
    intro howed
    change (d.discontinuity || pkt.lostBefore) = true
    rw [or_eq_true] at howed ⊢
    exact howed.imp_left h.owed
  skip := by
    intro hskip
    change (d.discontinuity || pkt.lostBefore) = true
    rw [h.skip hskip, Bool.true_or]
  video := h.video

theorem lost_leads (e : Layout) (out : Out) (h : Sim d { r with owed := r.owed || pkt.lostBefore }) :
    ∃ items, e.total items = 0 ∧ onePts r.unit items ∧
      Leads e (fun d' r' => d' = d ∧ r'.unit = r.unit ∧ Sim d r') out r (d, if pkt.lostBefore then out.mark .lost else out) items := by
  cases hl : pkt.lostBefore with
  | false =>
    rw [hl, Bool.or_false] at h
    exact ⟨[], rfl, rfl, Wrote.refl, r, rfl, rfl, rfl, h⟩
  | true =>
    rw [hl, Bool.or_true] at h
    exact ⟨[.lost], rfl, rfl, Wrote.lost, { r with owed := true }, rfl, rfl, rfl, h⟩

theorem audio_leads (h : Sim d r) (hcodec : d.codec = some c) (haudio : ¬ c.IsVideo)
    (hroom : out.filled + e.unitHeader + pkt.payload.length ≤ out.room) :
    ∃ items, onePts r.unit items ∧ Leads e (fun d' r' => Sim d' r' ∧ Settled d') out r (d.audio e pkt out) items := by
  have hidle : ¬ (d.inUnit = true ∨ d.skipTs.isSome = true) := fun hv => by
    obtain ⟨c', hc', hvideo⟩ := h.video hv
    rw [hcodec] at hc'
    cases hc'
    exact haudio hvideo
  obtain ⟨hin, hskip⟩ := not_or.mp hidle
  have hunit := h.unit_none (eq_false_iff.mpr hin)
  have hstream : r.stream = true := by rw [h.stream, hcodec]; rfl
  refine ⟨_, by rw [hunit]; rfl, Wrote.put (by change _ + (e.unitHeader + _) ≤ _; omega), { r with owed := false }, ?_,
    ?_, ?_⟩
  · have howed : (r.owed && !d.discontinuity) = false := by
      cases ho : r.owed with
      | false => rfl
      | true => rw [h.owed ho]; rfl
    simp [Reader.readAll, Reader.read, hstream, hunit, howed]
  · exact ⟨h.stream, h.unit, h.pts, nofun, fun hs => absurd hs hskip, h.video⟩
  · exact fun hs => absurd hs hin

def Cuts (d : Depacketizer) (pkt : Received) : Prop :=
  (d.inUnit && (pkt.timestamp != d.unitTs || pkt.lostBefore)) = true

theorem cut_leads (e : Layout) (out : Out) (pkt : Received) (h : Sim d r) (hroom : d.inUnit = true → out.filled + e.unitHeader ≤ out.room) :
    ∃ items, e.total items ≤ (if d.inUnit then e.unitHeader else 0) ∧
      (onePts r.unit items ↔ (Cuts d pkt → r.unit = some d.pts)) ∧
      Leads e (fun d' r' => Sim d' r' ∧ d'.codec = d.codec ∧ d'.lastTs = d.lastTs ∧ d'.started = d.started ∧
        (d'.inUnit = true → d'.unitTs = pkt.timestamp)) out r (d.cut e pkt out) items := by
  unfold Depacketizer.cut
  by_cases hcut : (d.inUnit && (pkt.timestamp != d.unitTs || pkt.lostBefore)) = true
  · rw [if_pos hcut]
    obtain ⟨hin, -⟩ := and_eq_true_iff.mp hcut
    refine ⟨[.record (truncation d.pts)], by simp [hin], ?_, Wrote.put (by rw [size_truncation]; exact hroom hin),
      { r with unit := none }, ?_, ?_, rfl, rfl, rfl, nofun⟩
    · obtain ⟨p, hp⟩ := h.unit_some hin
      rw [forall_prop_of_true (show Cuts d pkt from hcut), hp, Option.some.injEq]
      simp [onePts, truncation]
    · rw [Reader.readAll, read_truncation h hin]
      rfl
    · refine ⟨h.stream, rfl, nofun, fun _ => rfl, fun _ => rfl, fun _ => h.video (Or.inl hin)⟩
  · rw [if_neg hcut]
    refine ⟨[], Nat.zero_le _, iff_of_true rfl (absurd · hcut), Wrote.refl, r, rfl, h, rfl, rfl, rfl, fun hin => ?_⟩
    dsimp only at hin ⊢
    by_contra hts
    exact hcut (by simp [hin, Ne.symm hts])

theorem unpack_within (pkt : Received) {room n : Nat} (hn : n ≤ room) (h : pkt.payload.length * 5 / 3 + 4 ≤ n) (starting : Bool) :
    Within n (Depacketizer.unpack pkt starting room) := by
  unfold Depacketizer.unpack
  split
  · exact h264ToAnnexb_within hn h starting
  · exact vp8FrameData_within hn (by omega) starting

section

variable (h : Sim d r) (hcodec : d.codec = some c) (hvideo : c.IsVideo) (hlast : d.lastTs = pkt.timestamp)

include h hcodec hvideo hlast

theorem fragment_leads (hstarted : d.started = true) (hskip : d.skipTs = none)
    (hts : d.inUnit = true → d.unitTs = pkt.timestamp)
    (hroom : out.filled + e.unitHeader + (pkt.payload.length * 5 / 3 + 4) ≤ out.room) :
    ∃ items, onePts r.unit items ∧ Leads e (fun d' r' => Sim d' r' ∧ Settled d') out r (d.fragment e pkt out) items := by
  have hstream : r.stream = true := by rw [h.stream, hcodec]; rfl
  unfold Depacketizer.fragment
  dsimp only
  rw [if_neg (by omega)]
  obtain ⟨hfits, hlen⟩ := unpack_within pkt (show _ ≤ out.room - (out.filled + e.unitHeader) by omega) le_rfl
    (!d.inUnit)
  split
  next u hunpack =>
    have hu : (u == .noRoom) = false := by
      cases u with
      | malformed => rfl
      | noRoom => exact absurd hunpack hfits
    refine ⟨[.damaged], rfl, ?_, { r with owed := true }, rfl, ?_, fun hin => ⟨hstarted, hlast.trans (hts hin).symm⟩⟩
    · rw [hu, Bool.or_false]
      exact Wrote.damaged
    · exact ⟨h.stream, h.unit, h.pts, fun _ => rfl, fun _ => rfl, fun _ => ⟨c, hcodec, hvideo⟩⟩
  next body key hunpack =>
    have hbody := hlen body key hunpack
    refine ⟨_, ?_, Wrote.put (by change _ + (e.unitHeader + body.length) ≤ _; omega),
      { r with unit := if pkt.marker then none else some d.pts, owed := d.inUnit && r.owed }, ?_, ?_,
      fun _ => ⟨hstarted, hlast⟩⟩
    · cases hin : d.inUnit with
      | true =>
        rw [h.pts hin (hlast.trans (hts hin).symm)]
        simp [onePts]
      | false =>
        rw [h.unit_none hin]
        rfl
    · cases hin : d.inUnit with
      | true =>
        have hunit := h.pts hin (hlast.trans (hts hin).symm)
        cases hm : pkt.marker <;> simp [Reader.readAll, Reader.read, hstream, hunit]
      | false =>
        have hunit := h.unit_none hin
        have howed : (r.owed && !d.discontinuity) = false := by
          cases ho : r.owed with
          | false => rfl
          | true => rw [h.owed ho]; rfl
        cases hm : pkt.marker <;> simp [Reader.readAll, Reader.read, hstream, hunit, howed]
    · refine ⟨h.stream, ?_, ?_, ?_, ?_, fun _ => ⟨c, hcodec, hvideo⟩⟩
      · dsimp only
        cases pkt.marker <;> rfl
      · dsimp only
        intro hin _
        cases hm : pkt.marker with
        | true => simp [hm] at hin
        | false => rfl
      · dsimp only
        intro howed
        obtain ⟨hin, ho⟩ := and_eq_true_iff.mp howed
        rw [hin, h.owed ho]
        rfl
      · intro hs
        dsimp only at hs
        rw [hskip] at hs
        cases hs

theorem skipped_leads (hstarted : d.started = true) (hts : d.inUnit = true → d.unitTs = pkt.timestamp)
    (hskip : d.skipTs = some pkt.timestamp) :
    ∃ items, onePts r.unit items ∧ Leads e (fun d' r' => Sim d' r' ∧ Settled d') out r
      ({ d with skipTs := if pkt.marker then none else d.skipTs }, out.mark .damaged) items := by
  refine ⟨[.damaged], rfl, Wrote.damaged, { r with owed := true }, rfl, ?_, fun hin => ⟨hstarted, hlast.trans (hts hin).symm⟩⟩
  have howed : d.discontinuity = true := h.skip (by rw [hskip]; rfl)
  exact ⟨h.stream, h.unit, h.pts, fun _ => howed, fun _ => howed, fun _ => ⟨c, hcodec, hvideo⟩⟩

theorem video_leads (hstarted : d.started = true)
    (hroom : out.filled + (if d.inUnit then e.unitHeader else 0) + e.unitHeader + (pkt.payload.length * 5 / 3 + 4) ≤
      out.room) :
    ∃ items, (onePts r.unit items ↔ (Cuts d pkt → r.unit = some d.pts)) ∧
      Leads e (fun d' r' => Sim d' r' ∧ Settled d') out r (d.video e pkt out) items := by
  obtain ⟨is, htotal, hone, hwrote, r', hread, hsim, hcodec', hlast', hstarted', hts⟩ :=
    cut_leads e out pkt h fun hin => by
      rw [if_pos hin] at hroom
      omega
  unfold Depacketizer.video
  generalize d.cut e pkt out = res at hwrote hsim hcodec' hlast' hstarted' hts ⊢
  obtain ⟨d', out'⟩ := res
  dsimp only at hwrote hsim hcodec' hlast' hstarted' hts ⊢
  have hrest : ∃ js, onePts r'.unit js ∧ Leads e (fun d' r' => Sim d' r' ∧ Settled d') out' r'
      (if d'.skipTs = some pkt.timestamp then
        ({ d' with skipTs := if pkt.marker then none else d'.skipTs }, out'.mark .damaged)
      else Depacketizer.fragment e { d' with skipTs := none } pkt out') js := by
    split
    next hskip =>
      exact skipped_leads hsim (hcodec'.trans hcodec) hvideo (hlast'.trans hlast) (hstarted'.trans hstarted) hts hskip
    next hskip =>
      have hunskipped : Sim { d' with skipTs := none } r' :=
        ⟨hsim.stream, hsim.unit, hsim.pts, hsim.owed, nofun, fun _ => ⟨c, hcodec'.trans hcodec, hvideo⟩⟩
      refine fragment_leads hunskipped (hcodec'.trans hcodec) hvideo (hlast'.trans hlast) (hstarted'.trans hstarted) rfl
        hts ?_
      rw [hwrote.filled, hwrote.room]
      omega
  obtain ⟨js, hone', hwrote', r'', hread', hend⟩ := hrest
  refine ⟨is ++ js, ?_, hwrote.trans hwrote', r'', ?_, hend⟩
  · rw [onePts_append hread, hone', Bool.and_true]
    exact hone
  · rw [Reader.readAll_append, hread]
    exact hread'

end

def Overtaken (d : Depacketizer) (pkt : Received) : Prop :=
  d.codec = some pkt.codec ∧ d.inUnit = true ∧ pkt.timestamp ≠ d.unitTs

instance (d : Depacketizer) (pkt : Received) : Decidable (Overtaken d pkt) := inferInstanceAs (Decidable (_ ∧ _ ∧ _))

theorem advance_eq_self (p : Int64) (t : UInt32) : p + t.toInt32.toInt64 = p ↔ t = 0 := by
  rw [Int64.add_eq_left]
  constructor
  · intro h
    have hint : t.toInt32.toInt = 0 := by rw [← Int32.toInt_toInt64, h]; rfl
    exact congrArg Int32.toUInt32 (Int32.toInt_inj.mp (hint : _ = (0 : Int32).toInt))
  · rintro rfl
    rfl

theorem openStream_overtaken (e : Layout) (out : Out) (h : Sim d r) (pkt : Received) (info : Packing × UInt8 × UInt32) :
    Overtaken (d.openStream e pkt.codec info out).1 pkt ↔ Overtaken d pkt := by
  unfold Depacketizer.openStream
  split
  · exact Iff.rfl
  next hother =>
    refine iff_of_false ?_ fun hover => hother hover.1
    rintro ⟨-, hin, -⟩
    change (d.finish e out).1.inUnit = true at hin
    by_cases hnone : d.codec = none
    · rw [Depacketizer.finish, if_pos hnone] at hin
      have hsome := h.codec_some hin
      rw [hnone] at hsome
      cases hsome
    · rw [Depacketizer.finish, if_neg hnone] at hin
      cases hin

theorem cuts_clock_iff (h : Sim d r) (hs : Settled d) (hcodec : d.codec = some pkt.codec) :
    (Cuts (d.clock pkt) pkt → r.unit = some (d.clock pkt).pts) ↔ ¬ Overtaken d pkt := by
  by_cases hin : d.inUnit = true
  swap
  · exact iff_of_true (fun hcuts => absurd (and_eq_true_iff.mp hcuts).1 hin) fun hover => hin hover.2.1
  obtain ⟨hstarted, hlast⟩ := hs hin
  have hpts : (d.clock pkt).pts = d.pts + (pkt.timestamp - d.lastTs).toInt32.toInt64 := if_pos hstarted
  rw [h.pts hin hlast, Option.some.injEq, hpts, eq_comm (a := d.pts), advance_eq_self, UInt32.sub_eq_iff_eq_add, UInt32.zero_add, hlast]
  constructor
  · rintro hcut ⟨-, -, hts⟩
    exact hts (hcut (and_eq_true_iff.mpr ⟨hin, by simp [Depacketizer.clock, hts]⟩))
  · intro hnot _
    by_contra hts
    exact hnot ⟨hcodec, hin, hts⟩

theorem packet_leads (e : Layout) (out : Out) (pkt : Received) (h : Sim d r) (hs : Settled d) (hempty : out.filled = 0)
    (hroom : e.depacketizedMax pkt.payload.length ≤ out.room) :
    ∃ items, (onePts r.unit items ↔ ¬ Overtaken d pkt) ∧
      Leads e (fun d' r' => Sim d' r' ∧ Settled d') out r (d.packet e pkt out) items := by
  unfold Layout.depacketizedMax at hroom
  have hend := e.endLen_le
  unfold Depacketizer.packet
  split
  next hinfo =>
    refine ⟨[], iff_of_true rfl ?_, Wrote.refl, r, rfl, h, hs⟩
    rintro ⟨hcodec, hin, -⟩
    obtain ⟨c, hc, hvideo⟩ := h.video (Or.inl hin)
    cases hcodec.symm.trans hc
    rcases hvideo with hv | hv <;> rw [hv] at hinfo <;> cases hinfo
  next info hinfo =>
    have hkept := openStream_overtaken e out h pkt info
    obtain ⟨is, htotal, hone, hwrote, r₁, hread, hsim, hsettled, hcodec, hsame⟩ :=
      openStream_leads e out h hs pkt.codec info (by omega)
    generalize d.openStream e pkt.codec info out = res at hwrote hsim hsettled hcodec hsame hkept ⊢
    obtain ⟨d₁, out₁⟩ := res
    dsimp only at hwrote hsim hsettled hcodec hsame hkept ⊢
    have hclock := clock_sim pkt hsim hsettled
    obtain ⟨js, hzero, hone₂, hwrote₂, r₂, hread₂, -, hunit, hsim₂⟩ := lost_leads e out₁ hclock
    generalize (if pkt.lostBefore then out₁.mark .lost else out₁) = out₂ at hwrote₂ ⊢
    have hfilled := hwrote.filled
    have hfilled₂ := hwrote₂.filled
    have hroom₂ := hwrote₂.room.trans hwrote.room
    dsimp only at hwrote₂ hfilled₂ hroom₂
    have hread₁₂ : r.readAll false (is ++ js) = some r₂ := by
      rw [Reader.readAll_append, hread]
      exact hread₂
    have hjoin {res} (hrest : ∃ ks, (onePts r₂.unit ks ↔ ¬ Overtaken d pkt) ∧
        Leads e (fun d' r' => Sim d' r' ∧ Settled d') out₂ r₂ res ks) : ∃ items, (onePts r.unit items ↔ ¬ Overtaken d pkt) ∧
          Leads e (fun d' r' => Sim d' r' ∧ Settled d') out r res items := by
      obtain ⟨ks, hone₃, hwrote₃, r₃, hread₃, hfinal⟩ := hrest
      refine ⟨(is ++ js) ++ ks, ?_, (hwrote.trans hwrote₂).trans hwrote₃, r₃, ?_, hfinal⟩
      · rw [onePts_append hread₁₂, onePts_append hread, hone, hone₂]
        exact hone₃
      · rw [Reader.readAll_append, hread₁₂]
        exact hread₃
    have haudio (hno : ¬ pkt.codec.IsVideo) : ∃ ks, (onePts r₂.unit ks ↔ ¬ Overtaken d pkt) ∧
        Leads e (fun d' r' => Sim d' r' ∧ Settled d') out₂ r₂ ((d₁.clock pkt).audio e pkt out₂) ks := by
      have hwritten : ∃ ks, onePts r₂.unit ks ∧
          Leads e (fun d' r' => Sim d' r' ∧ Settled d') out₂ r₂ ((d₁.clock pkt).audio e pkt out₂) ks :=
        audio_leads hsim₂ hcodec hno (by omega)
      obtain ⟨ks, hone₃, hks⟩ := hwritten
      refine ⟨ks, iff_of_true hone₃ fun hover => ?_, hks⟩
      obtain ⟨c, hc, hvideo⟩ := h.video (Or.inl hover.2.1)
      cases hover.1.symm.trans hc
      exact hno hvideo
    have hvideo (hyes : pkt.codec.IsVideo) : ∃ ks, (onePts r₂.unit ks ↔ ¬ Overtaken d pkt) ∧
        Leads e (fun d' r' => Sim d' r' ∧ Settled d') out₂ r₂ ((d₁.clock pkt).video e pkt out₂) ks := by
      rw [← hkept, ← cuts_clock_iff hsim hsettled hcodec, ← hunit]
      refine video_leads hsim₂ hcodec hyes rfl rfl ?_
      rw [show (d₁.clock pkt).inUnit = d₁.inUnit from rfl]
      by_cases hin : d₁.inUnit = true
      · rw [hsame hin, total_nil] at hfilled
        rw [if_pos hin]
        omega
      · rw [if_neg hin]
        omega
    split
    next hc => exact hjoin (haudio (by rw [hc]; rintro (h | h) <;> cases h))
    next hc => exact hjoin (haudio (by rw [hc]; rintro (h | h) <;> cases h))
    next hc => exact hjoin (haudio (by rw [hc]; rintro (h | h) <;> cases h))
    next hpcmu hpcma hopus =>
      refine hjoin (hvideo ?_)
      cases hc : pkt.codec with
      | h264 => exact Or.inl rfl
      | vp8 => exact Or.inr rfl
      | pcmu => exact absurd hc hpcmu
      | pcma => exact absurd hc hpcma
      | opus => exact absurd hc hopus
      | other b =>
        rw [hc] at hinfo
        cases hinfo

end Steps

/-- The outputs of a sequence of packets and of `finish` behind them, with a buffer of `depacketized_max(n)`. -/
def outputs (e : Layout) (pkts : List Received) (n : Nat) : List Out :=
  let r := (depacketizer e).run {} pkts
  r.2 ++ [(r.1.finish e { room := e.depacketizedMax n }).2]

def trace (e : Layout) (pkts : List Received) (n : Nat) : List Item := (outputs e pkts n).flatMap Out.log

theorem run_leads (e : Layout) {d : Depacketizer} {r : Reader} (h : Sim d r) (hs : Settled d) (pkts : List Received) :
    (∀ out ∈ ((depacketizer e).run d pkts).2, out.Fits) ∧
      (onePts r.unit (((depacketizer e).run d pkts).2.flatMap Out.log) ↔
        (depacketizer e).Along (fun d pkt => ¬ Overtaken d pkt) d pkts) ∧
      ∃ r', r.readAll false (((depacketizer e).run d pkts).2.flatMap Out.log) = some r' ∧
        Sim ((depacketizer e).run d pkts).1 r' ∧ Settled ((depacketizer e).run d pkts).1 := by
  induction pkts generalizing d r with
  | nil => exact ⟨nofun, iff_of_true rfl trivial, r, rfl, h, hs⟩
  | cons pkt pkts ih =>
    obtain ⟨items, hone, hwrote, r₁, hread, hsim, hsettled⟩ :=
      packet_leads e { room := e.depacketizedMax pkt.payload.length } pkt h hs rfl le_rfl
    obtain ⟨hfits, hlog⟩ := hwrote.fits
    obtain ⟨hall, hone', r', hread', hend⟩ := ih hsim hsettled
    rw [Machine.run_cons]
    refine ⟨fun out hout => ?_, ?_, r', ?_, hend⟩
    · obtain hout | hout := mem_append.mp hout
      · rw [mem_singleton.mp hout]
        exact hfits
      · exact hall out hout
    · rw [flatMap_append, depacketizer, flatMap_singleton, hlog, onePts_append hread, and_eq_true, hone]
      exact and_congr_right' hone'
    · rw [flatMap_append, Reader.readAll_append, depacketizer, flatMap_singleton, hlog, hread]
      exact hread'

/-- Nothing is left out or put past the end, the records are bracketed with nothing open at the end, and the first
unit of a stream after a loss has the discontinuity flag. -/
theorem records_bracketed (e : Layout) (pkts : List Received) (n : Nat) :
    (∀ out ∈ outputs e pkts n, out.Fits) ∧
      ∃ r, Reader.readAll false {} (trace e pkts n) = some r ∧ r.stream = false ∧ r.unit = none := by
  obtain ⟨hall, -, r, hread, hsim, hsettled⟩ := run_leads e sim_start settled_start pkts
  have hend := e.endLen_le
  obtain ⟨items, -, -, hwrote, r', hread', -, -, -, hclosed⟩ := finish_leads e { room := e.depacketizedMax n } hsim hsettled
    (by unfold Layout.depacketizedMax; dsimp only; omega)
  obtain ⟨hfits, hlog⟩ := hwrote.fits
  refine ⟨fun out hout => ?_, r', ?_, hclosed⟩
  · obtain hout | hout := mem_append.mp hout
    · exact hall out hout
    · rw [mem_singleton.mp hout]
      exact hfits
  · unfold trace outputs
    rw [flatMap_append, Reader.readAll_append, hread, bind_some, flatMap_singleton, hlog]
    exact hread'

/-- A packet without a payload, and a PCMU packet behind it: the stream of the second begins without the flag. -/
theorem discontinuity_forgotten :
    ¬ ∀ (e : Layout) (pkts : List Received) (n : Nat), (Reader.readAll true {} (trace e pkts n)).isSome := by
  intro h
  have hread := h ⟨24, 20, 4, le_rfl⟩
    [{ codec := .h264, timestamp := 0, marker := true, lostBefore := false, payload := [] },
      { codec := .pcmu, timestamp := 0, marker := true, lostBefore := false, payload := [0xff] }] 0
  exact absurd hread (by decide)

/-- All records of each unit carry the `pts` of its first exactly in the runs where no unit is overtaken. -/
theorem units_timed_iff (e : Layout) (pkts : List Received) (n : Nat) :
    onePts none (trace e pkts n) ↔ (depacketizer e).Along (fun d pkt => ¬ Overtaken d pkt) {} pkts := by
  obtain ⟨-, hone, r, hread, hsim, hsettled⟩ := run_leads e sim_start settled_start pkts
  have hend := e.endLen_le
  obtain ⟨items, -, hone', hwrote, -⟩ := finish_leads e { room := e.depacketizedMax n } hsim hsettled
    (by unfold Layout.depacketizedMax; dsimp only; omega)
  rw [← hone, trace, outputs, flatMap_append, flatMap_singleton, hwrote.fits.2]
  change onePts ({} : Reader).unit _ ↔ _
  rw [onePts_append hread, hone', Bool.and_true]

/-- A frame without its last packet, and a packet 3000 ticks behind: the end of the frame is 3000 ticks late. -/
theorem truncation_late :
    trace ⟨24, 20, 4, le_rfl⟩
      [{ codec := .vp8, timestamp := 0, marker := false, lostBefore := false, payload := [0x10, 0, 1] },
        { codec := .vp8, timestamp := 3000, marker := true, lostBefore := false, payload := [0x10, 0, 2] }] 0 =
      [.record (.stream .vp8 .raw 0 90000), .record (.unit { key := true, continues := true } 0 [0, 1]),
        .record (.unit { truncated := true } 3000 []),
        .record (.unit { key := true, discontinuity := true } 3000 [0, 2]), .record .end] ∧
    ¬ ∀ (e : Layout) (pkts : List Received) (n : Nat), onePts none (trace e pkts n) := by
  refine ⟨by decide, fun h => ?_⟩
  have hone := h ⟨24, 20, 4, le_rfl⟩
    [{ codec := .vp8, timestamp := 0, marker := false, lostBefore := false, payload := [0x10, 0, 1] },
      { codec := .vp8, timestamp := 3000, marker := true, lostBefore := false, payload := [0x10, 0, 2] }] 0
  exact absurd hone (by decide)

end Wave.Common.RtpPayload
