import Wave.Common.RtpH264Lengths

/-! # H.264 access units, from the parameter sets to the marker -/

namespace Wave.Common.RtpPayload

open Lib Lib.Bytes Lib.Pump

/-- At most `count` sets at the front of `bytes`, and what is behind them. One cut short ends both. -/
def setList : Nat → Bytes → List Bytes × Bytes
  | 0, bytes => ([], bytes)
  | count + 1, hi :: lo :: bytes =>
    if (u16be hi lo).toNat > bytes.length then ([], [])
    else
      let r := setList count (bytes.drop (u16be hi lo).toNat)
      (bytes.take (u16be hi lo).toNat :: r.1, r.2)
  | _ + 1, _ => ([], [])

/-- The sets of a list of `count`, and with `more` those of a second list that begins with its own count. -/
def setLists (count : Nat) (more : Bool) (bytes : Bytes) : List Bytes :=
  let r := setList count bytes
  r.1 ++ if more then (match r.2 with | [] => [] | count :: bytes => (setList count.toNat bytes).1) else []

/-- The parameter sets of an avcC record that are sent: those that are not empty and fit a packet. -/
def parameterSets (config : Bytes) (mtu : Nat) : List Bytes :=
  (setLists (config.at0 5 &&& 0x1F).toNat true (config.drop 6)).filter fun set => set ≠ [] && decide (set.length ≤ mtu)

theorem drop_eq_at0 {bytes : Bytes} {i : Nat} (h : i < bytes.length) :
    bytes.drop i = bytes.at0 i :: bytes.drop (i + 1) := by
  rw [drop_eq_getElem_cons h, at0, List.getD_eq_getElem?_getD, List.getElem?_eq_getElem h, getD_some]

theorem setLists_nil (count : Nat) (more : Bool) : setLists count more [] = [] := by
  cases count <;> cases more <;> rfl

theorem setLists_short (count : Nat) (more : Bool) {bytes : Bytes} (h : bytes.length < 2) :
    setLists (count + 1) more bytes = [] := by
  match bytes, h with
  | [], _ => exact setLists_nil _ _
  | [_], _ => cases more <;> rfl

theorem setLists_cut (count : Nat) (more : Bool) {hi lo : UInt8} {bytes : Bytes}
    (h : (u16be hi lo).toNat > bytes.length) : setLists (count + 1) more (hi :: lo :: bytes) = [] := by
  rw [setLists, setList, if_pos h]
  cases more <;> rfl

theorem setLists_cons (count : Nat) (more : Bool) {hi lo : UInt8} {bytes : Bytes}
    (h : (u16be hi lo).toNat ≤ bytes.length) :
    setLists (count + 1) more (hi :: lo :: bytes) =
      bytes.take (u16be hi lo).toNat :: setLists count more (bytes.drop (u16be hi lo).toNat) := by
  rw [setLists, setList, if_neg (Nat.not_lt.mpr h)]
  rfl

theorem setLists_second (count : UInt8) (bytes : Bytes) :
    setLists 0 true (count :: bytes) = setLists count.toNat false bytes := by
  rw [setLists, setLists, if_neg false_ne_true, append_nil]
  rfl

namespace Packetizer

def setsLeft (p : Packetizer) : List Bytes :=
  (setLists p.psLeft p.psPpsPending (p.config.drop p.psAt)).filter fun set => set ≠ [] && decide (set.length ≤ p.mtu)

/-- A bound on the turns of the loop: a second list has no more sets than a byte counts. -/
def turnsLeft (p : Packetizer) : Nat := p.psLeft + if p.psPpsPending then 256 else 0

/-- What the loop gives: the first set that is left, or that there is none. -/
structure GivesSet (p : Packetizer) (res : Option Packet × Packetizer) : Prop where
  none : p.setsLeft = [] → ∃ a, res = (none, { p with psAt := a, psLeft := 0, psPpsPending := false })
  some : ∀ set sets, p.setsLeft = set :: sets → ∃ a left more,
    res = (some { payload := set, marker := false }, { p with psAt := a, psLeft := left, psPpsPending := more }) ∧
      setsLeft { p with psAt := a, psLeft := left, psPpsPending := more } = sets ∧
      turnsLeft { p with psAt := a, psLeft := left, psPpsPending := more } ≤ p.turnsLeft

theorem parameterSetLoop_gives {turns : Nat} {p : Packetizer} (hturns : p.turnsLeft < turns) :
    GivesSet p (parameterSetLoop turns p) := by
  induction turns generalizing p with
  | zero => exact absurd hturns (Nat.not_lt_zero _)
  | succ turns ih =>
    -- a turn without a set leaves the same sets, and fewer turns
    have skip : ∀ a left more, setsLeft { p with psAt := a, psLeft := left, psPpsPending := more } = p.setsLeft →
        turnsLeft { p with psAt := a, psLeft := left, psPpsPending := more } < p.turnsLeft →
        GivesSet p (parameterSetLoop turns { p with psAt := a, psLeft := left, psPpsPending := more }) := by
      intro a left more hsame hless
      obtain ⟨hnone, hsome⟩ := ih (p := { p with psAt := a, psLeft := left, psPpsPending := more }) (by omega)
      rw [hsame] at hnone hsome
      refine ⟨hnone, fun set sets hsets => ?_⟩
      obtain ⟨a', left', more', hres, hsets', hle⟩ := hsome set sets hsets
      exact ⟨a', left', more', hres, hsets', hle.trans hless.le⟩
    rw [parameterSetLoop]
    by_cases hleft : p.psLeft = 0
    · rw [if_pos hleft]
      cases hmore : p.psPpsPending with
      | false =>
        have hnone : p.setsLeft = [] := by
          rw [setsLeft, hleft, hmore]
          rfl
        refine ⟨fun _ => ⟨p.psAt, ?_⟩, fun set sets hsets => absurd (hnone.symm.trans hsets) (by rintro ⟨⟩)⟩
        rw [if_pos (show (!false) = true from rfl), ← hleft, ← hmore]
      | true =>
        rw [if_neg (by decide)]
        dsimp only
        by_cases hend : p.psAt ≥ p.config.length
        · have hnone : p.setsLeft = [] := by
            rw [setsLeft, drop_eq_nil_of_le hend, setLists_nil]
            rfl
          refine ⟨fun _ => ⟨p.psAt, ?_⟩, fun set sets hsets => absurd (hnone.symm.trans hsets) (by rintro ⟨⟩)⟩
          rw [if_pos hend, ← hleft]
        · rw [if_neg hend]
          have hdrop : p.config.drop p.psAt = p.config.at0 p.psAt :: p.config.drop (p.psAt + 1) := drop_eq_at0 (by omega)
          refine skip _ _ _ ?_ ?_
          · rw [setsLeft, setsLeft, hleft, hmore, hdrop, setLists_second]
          · have hcount := (p.config.at0 p.psAt).toNat_lt
            rw [turnsLeft, turnsLeft, hmore, if_neg false_ne_true, if_pos rfl]
            dsimp only
            omega
    · obtain ⟨n, hn⟩ := Nat.exists_eq_succ_of_ne_zero hleft
      rw [if_neg hleft]
      dsimp only
      rw [hn, Nat.succ_sub_one]
      by_cases hend : p.psAt + 2 > p.config.length
      · have hnone : p.setsLeft = [] := by
          rw [setsLeft, hn, setLists_short n _ (by rw [length_drop]; omega)]
          rfl
        rw [if_pos hend]
        exact ⟨fun _ => ⟨p.psAt, rfl⟩, fun set sets hsets => absurd (hnone.symm.trans hsets) (by rintro ⟨⟩)⟩
      rw [if_neg hend]
      have hdrop : p.config.drop p.psAt =
          p.config.at0 p.psAt :: p.config.at0 (p.psAt + 1) :: p.config.drop (p.psAt + 2) := by
        rw [drop_eq_at0 (by omega), drop_eq_at0 (i := p.psAt + 1) (by omega)]
      generalize hlen : (u16be (p.config.at0 p.psAt) (p.config.at0 (p.psAt + 1))).toNat = len
      have hrest : (p.config.drop (p.psAt + 2)).length = p.config.length - (p.psAt + 2) := length_drop
      have hturn : n + (if p.psPpsPending then 256 else 0) < p.turnsLeft := by
        rw [turnsLeft, hn]
        omega
      by_cases hcut : len > (p.config.drop (p.psAt + 2)).length
      · have hnone : p.setsLeft = [] := by
          rw [setsLeft, hn, hdrop, setLists_cut n _ (by rwa [hlen])]
          rfl
        rw [if_pos (Or.inr (Or.inl (by omega)))]
        refine skip _ _ _ ?_ hturn
        rw [hnone, setsLeft, drop_eq_nil_of_le (by dsimp only; omega), setLists_nil]
        rfl
      have hsets : p.setsLeft = ((p.config.drop (p.psAt + 2)).take len ::
          setLists n p.psPpsPending (p.config.drop (p.psAt + 2 + len))).filter
            fun set => set ≠ [] && decide (set.length ≤ p.mtu) := by
        rw [setsLeft, hn, hdrop, setLists_cons n _ (by rw [hlen]; omega), hlen, drop_drop]
      have hset : ((p.config.drop (p.psAt + 2)).take len).length = len := by
        rw [length_take]
        omega
      by_cases hfits : len = 0 ∨ len > p.mtu
      · rw [if_pos (by omega)]
        refine skip _ _ _ ?_ hturn
        rw [hsets, List.filter_cons_of_neg]
        · rfl
        · intro hkept
          obtain ⟨hne, hle⟩ := and_eq_true_iff.mp hkept
          have hpos := length_pos_of_ne_nil (of_decide_eq_true hne)
          have hle := of_decide_eq_true hle
          omega
      · rw [if_neg (by omega)]
        rw [List.filter_cons_of_pos] at hsets
        · refine ⟨fun hnone => absurd (hsets.symm.trans hnone) (by rintro ⟨⟩), fun set sets hcons => ?_⟩
          obtain ⟨rfl, rfl⟩ := List.cons.inj (hsets.symm.trans hcons)
          refine ⟨_, _, _, ?_, rfl, hturn.le⟩
          rw [slice, Nat.add_sub_cancel_left]
        · refine and_eq_true_iff.mpr ⟨decide_eq_true fun hnil => ?_, decide_eq_true (by omega)⟩
          rw [hnil, length_nil] at hset
          omega

section Unit

variable {room : Nat} {p : Packetizer} {starting : Bool}

theorem next_h264 (hcodec : p.codec = .h264) (hdone : p.unitDone = false) (hroom : p.mtu ≤ room) (last : Bool)
    (rest : Bytes) : next room last p rest = p.nextH264 rest last := by
  rw [next, hdone, hcodec, if_neg (by simp; omega)]

def setPacket (set : Bytes) : Packet := { payload := set, marker := false }

theorem opens_sets (hcodec : p.codec = .h264) (hdone : p.unitDone = false) (hroom : p.mtu ≤ room)
    (hturns : p.turnsLeft < 512) :
    ∃ a, Opens (next room) p (p.setsLeft.map setPacket) { p with psAt := a, psLeft := 0, psPpsPending := false } := by
  generalize hsets : p.setsLeft = sets
  induction sets generalizing p with
  | nil =>
    obtain ⟨a, hnone⟩ := (parameterSetLoop_gives hturns).none hsets
    refine ⟨a, .ready fun last rest => ?_⟩
    rw [next_h264 hcodec hdone hroom, nextH264, nextParameterSet, hnone,
      next_h264 (p := { p with psAt := a, psLeft := 0, psPpsPending := false }) hcodec hdone hroom]
    rfl
  | cons set sets ih =>
    obtain ⟨a, left, more, hsome, hrest, hle⟩ := (parameterSetLoop_gives hturns).some set sets hsets
    obtain ⟨a', hopens⟩ := ih (p := { p with psAt := a, psLeft := left, psPpsPending := more }) hcodec hdone hroom
      (hle.trans_lt hturns) hrest
    refine ⟨a', .gives (fun last rest => ?_) hopens⟩
    rw [next_h264 hcodec hdone hroom, nextH264, nextParameterSet, hsome]
    rfl

theorem reads_sets {sets : List Bytes} (hsets : ∀ set ∈ sets, set ≠ [] ∧ NalType (set.at0 0)) (starting : Bool) :
    Reads .h264 starting (sets.map setPacket) (annexb sets) := by
  induction sets generalizing starting with
  | nil => exact .nil starting
  | cons set sets ih =>
    obtain ⟨hne, htype⟩ := hsets set mem_cons_self
    obtain ⟨header, data, rfl⟩ := exists_cons_of_ne_nil hne
    exact .cons (nal_unpacks starting htype data) (ih (fun s hs => hsets s (mem_cons_of_mem _ hs)) false)

theorem h264_closes (h : Ready room starting p) (hopen : p.held = true ∨ p.nal = .body) :
    ∃ k t, Drained (next room) true p [] [k] t ∧ k.payload.length ≤ p.mtu ∧ k.marker = true ∧
      Unpacks .h264 starting k.payload p.owed := by
  have hmtu := h.unit.mtu
  have hpending := h.unit.pending
  have hlast : next room true p [] =
      (some ({ p with unitDone := true, held := false }.closeNal true).1,
        { p with unitDone := true, held := false, pending := [] }, []) := by
    have hstate : ({ p with unitDone := true, held := false }.closeNal true).2 =
        { p with unitDone := true, held := false, pending := [] } := closeNal_state _ _
    rw [← hstate, h.unit.next_eq]
    change endH264 p [] true = _
    rw [endH264, if_neg (by decide)]
    dsimp only
    rw [if_neg]
    obtain hopen | hopen := hopen <;> rw [hopen] <;> simp
  refine ⟨_, _, .given hlast (.spent rfl), ?_, closeNal_marker _ _, ?_⟩
  · have hlen := closeNal_length { p with unitDone := true, held := false } true
    dsimp only at hlen
    omega
  · rw [owed, if_pos hopen]
    exact closeNal_unpacks (p := { p with unitDone := true, held := false }) h.start (h.type hopen) true

end Unit

end Packetizer

/-- The Annex B form of NALs: each behind a start code of three bytes or four. -/
inductive AnnexB : List Bytes → Bytes → Prop
  | nil : AnnexB [] []
  | cons {nals : List Bytes} {bytes : Bytes} (long : Bool) (nal : Bytes) (h : AnnexB nals bytes) :
    AnnexB (nal :: nals) ((if long then [0] else []) ++ [0, 0, 1] ++ nal ++ bytes)

/-- The NALs as one access unit, in the packing of the stream; each fits its length field. -/
def AccessUnit (packing : Packing) (config : Bytes) (nals : List Bytes) (bytes : Bytes) : Prop :=
  packing = .annexb ∧ AnnexB nals bytes ∨
    packing = .lengthPrefixed ∧ (∀ nal ∈ nals, nal.length < 256 ^ lengthSize config) ∧
      bytes = lengthPrefixed (lengthSize config) nals

def sentSets (packing : Packing) (config : Bytes) (mtu : Nat) (flags : Flags) : List Bytes :=
  if packing = .lengthPrefixed ∧ flags.key = true then parameterSets config mtu else []

namespace Packetizer

section Unit

variable {room : Nat} {p : Packetizer} {starting : Bool} {nals : List Bytes} {bytes : Bytes}

theorem moves_annexb (h : Ready room starting p) (hp : BetweenCodes p) (hzeros : p.zeros = 0)
    (hnals : ∀ nal ∈ nals, IsNal nal) (hbytes : AnnexB nals bytes) :
    ∃ ks q, Moves room starting p bytes (annexb nals) ks q ∧ (nals ≠ [] → q.held = true ∨ q.nal = .body) := by
  induction hbytes generalizing p starting with
  | nil => exact ⟨[], p, .refl h, fun hne => absurd rfl hne⟩
  | @cons nals bytes long nal hbytes ih =>
    obtain ⟨ks, m, hmoves, hbody, hnone⟩ := moves_nal h hp hzeros (hnals nal mem_cons_self) long
    obtain ⟨ks', q, hrest, hopen⟩ := ih hmoves.ready ⟨hbody.packing, hbody.held, Or.inr hbody.nal⟩ hnone
      fun n hn => hnals n (mem_cons_of_mem _ hn)
    refine ⟨_, q, hmoves.trans hrest, fun _ => ?_⟩
    cases hbytes with
    | nil =>
      cases hrest.takes
      exact Or.inr hbody.nal
    | cons => exact hopen nofun

theorem moves_lengths (h : Ready room starting p) (hpacking : p.packing = .lengthPrefixed) (hnal : p.nal = .length 0)
    (hsize : 0 < p.lenSize ∧ p.lenSize ≤ 4) (hnals : ∀ nal ∈ nals, nal ≠ [] ∧ NalType (nal.at0 0))
    (hfits : ∀ nal ∈ nals, nal.length < 256 ^ p.lenSize) :
    ∃ ks q, Moves room starting p (lengthPrefixed p.lenSize nals) (annexb nals) ks q ∧
      (nals ≠ [] → q.held = true ∨ q.nal = .body) := by
  induction nals generalizing p starting with
  | nil => exact ⟨[], p, .refl h, fun hne => absurd rfl hne⟩
  | cons nal nals ih =>
    obtain ⟨hne, htype⟩ := hnals nal mem_cons_self
    obtain ⟨ks, m, hmoves, hheld, hlength⟩ := moves_prefixed_nal h hpacking hnal hsize hne htype
      (hfits nal mem_cons_self)
    obtain ⟨ks', q, hrest, hopen⟩ := ih hmoves.ready (hmoves.packing.trans hpacking) hlength
      (by rwa [hmoves.lenSize]) (fun n hn => hnals n (mem_cons_of_mem _ hn))
      (fun n hn => by rw [hmoves.lenSize]; exact hfits n (mem_cons_of_mem _ hn))
    rw [hmoves.lenSize] at hrest
    refine ⟨_, q, hmoves.trans hrest, fun _ => ?_⟩
    cases nals with
    | nil =>
      cases hrest.takes
      exact Or.inl hheld
    | cons => exact hopen nofun

theorem moves_unit (h : Ready room starting p) {packing : Packing} {config : Bytes} (hpacking : p.packing = packing)
    (hlen : packing = .lengthPrefixed → p.lenSize = lengthSize config) (hheld : p.held = false) (hzeros : p.zeros = 0)
    (hseeking : packing = .annexb → p.nal = .seeking) (hlength : packing = .lengthPrefixed → p.nal = .length 0)
    (hnals : ∀ nal ∈ nals, IsNal nal) (hunit : AccessUnit packing config nals bytes) :
    ∃ ks q, Moves room starting p bytes (annexb nals) ks q ∧ (nals ≠ [] → q.held = true ∨ q.nal = .body) := by
  obtain ⟨rfl, hbytes⟩ | ⟨rfl, hfits, rfl⟩ := hunit
  · exact moves_annexb h ⟨hpacking, hheld, Or.inl (hseeking rfl)⟩ hzeros hnals hbytes
  · rw [← hlen rfl] at hfits ⊢
    refine moves_lengths h hpacking (hlength rfl) ?_ (fun nal hn => ⟨(hnals nal hn).ne, (hnals nal hn).type⟩) hfits
    have hle := lengthSize_le config
    rw [hlen rfl]
    exact ⟨Nat.succ_pos _, hle⟩

end Unit

theorem beginUnit_sets {p₀ p : Packetizer} {codec : Codec} {packing : Packing} {config : Bytes} {mtu : Nat}
    (h : p₀.stream codec packing config mtu = some p) (flags : Flags) :
    (p.beginUnit flags).setsLeft = sentSets packing config mtu flags := by
  obtain ⟨-, -, rfl, -⟩ := stream_fields h
  obtain ⟨hpacking, hconfig, hlength, -⟩ | ⟨hpacking, hconfig⟩ := stream_config h
  · rw [sentSets, setsLeft, beginUnit, hconfig]
    dsimp only
    rw [decide_eq_true hlength, Bool.true_and]
    cases flags.key with
    | true => rw [if_pos rfl, if_pos rfl, if_pos ⟨hpacking, rfl⟩, parameterSets]
    | false =>
      rw [if_neg false_ne_true, if_neg (c := packing = _ ∧ _) (fun hsent => false_ne_true hsent.2)]
      rfl
  · rw [sentSets, if_neg (fun hsent => hpacking hsent.1), setsLeft, beginUnit, hconfig]
    rfl

theorem beginUnit_turns (p : Packetizer) (flags : Flags) : (p.beginUnit flags).turnsLeft < 512 := by
  have hcount := (p.config.at0 5 &&& 0x1F).toNat_lt
  rw [turnsLeft, beginUnit]
  dsimp only
  cases (decide (p.config.length ≥ 7) && flags.key) with
  | true =>
    rw [if_pos rfl, if_pos rfl]
    omega
  | false =>
    rw [if_neg false_ne_true, if_neg false_ne_true]
    omega

end Packetizer

open Packetizer

/-- An access unit, however it is cut, is sent in packets of the MTU, the last with the marker, and arrives as one
unit: the parameter sets that are sent, and the NALs, each behind a start code. -/
theorem h264_units (e : Layout) {p₀ p : Packetizer} {packing : Packing} {config : Bytes} {mtu : Nat}
    (hstream : p₀.stream .h264 packing config mtu = some p) {room : Nat} (hroom : mtu ≤ room) (flags : Flags)
    {nals : List Bytes} (hne : nals ≠ []) (hnals : ∀ nal ∈ nals, IsNal nal) {pieces : List Bytes}
    (hunit : AccessUnit packing config nals pieces.flatten) :
    ∃ packets t, Sends (next room) (p.beginUnit flags) pieces packets t ∧ (∀ k ∈ packets, k.payload.length ≤ mtu) ∧
      LastMarked packets ∧
      ((∀ set ∈ sentSets packing config mtu flags, NalType (set.at0 0)) →
        Arrives e .h264 packets (annexb (sentSets packing config mtu flags ++ nals))) := by
  have hsets := beginUnit_sets hstream flags
  obtain ⟨hcodec, hpacking, rfl, hlow, -⟩ := stream_fields hstream
  have hlen : packing = .lengthPrefixed → p.lenSize = lengthSize config := fun hlp => by
    obtain ⟨-, -, -, hlen⟩ | ⟨hother, -⟩ := stream_config hstream
    · exact hlen
    · exact absurd hlp hother
  obtain ⟨a, hopens⟩ := opens_sets (p := p.beginUnit flags) hcodec rfl hroom (beginUnit_turns p flags)
  rw [hsets] at hopens
  generalize hfront : (sentSets packing config p.mtu flags).map setPacket = front at hopens
  have hidle : ¬ ((p.beginUnit flags).held = true ∨ (p.beginUnit flags).nal = .body) := by
    rw [beginUnit, hpacking]
    obtain ⟨rfl, -⟩ | ⟨rfl, -⟩ := hunit <;> rintro (hopen | hopen) <;> cases hopen
  have hready : Packetizer.Ready room (true && front.isEmpty)
      { p.beginUnit flags with psAt := a, psLeft := 0, psPpsPending := false } :=
    ⟨⟨hcodec, rfl, hroom, hlow, rfl, rfl, Nat.zero_le _⟩, nofun, fun hopen => absurd hopen hidle⟩
  obtain ⟨ks, q, hmoves, hopen⟩ := moves_unit hready hpacking hlen rfl rfl (fun h => by rw [beginUnit, hpacking, h])
    (fun h => by rw [beginUnit, hpacking, h]) hnals hunit
  obtain ⟨k, t, hclose, hsmall, hmarker, hunpacks⟩ := h264_closes hmoves.ready (hopen hne)
  have hpieces : pieces ≠ [] := by
    rintro rfl
    cases hmoves.takes
    exact hidle (hopen hne)
  have hfrontSmall : ∀ k ∈ front, k.payload.length ≤ p.mtu ∧ k.marker = false := by
    intro k hk
    rw [← hfront] at hk
    obtain ⟨set, hset, rfl⟩ := mem_map.mp hk
    refine ⟨?_, rfl⟩
    rw [← hsets] at hset
    exact of_decide_eq_true (and_eq_true_iff.mp (mem_filter.mp hset).2).2
  have hinit : ∀ k ∈ front ++ ks, k.payload.length ≤ p.mtu ∧ k.marker = false := by
    intro k hk
    obtain hk | hk := mem_append.mp hk
    · exact hfrontSmall k hk
    · exact hmoves.small k hk
  have hmarked : LastMarked (front ++ ks ++ [k]) := ⟨front ++ ks, k, rfl, fun k hk => (hinit k hk).2, hmarker⟩
  refine ⟨front ++ ks ++ [k], t, ?_, fun k' hk => ?_, hmarked, fun htypes d ts hin hskip => ?_⟩
  · rw [append_assoc]
    exact hopens.sends (hmoves.takes.sends (fun _ h => h.wait) hpieces hclose)
  · obtain hk | hk := mem_append.mp hk
    · exact (hinit k' hk).1
    · rw [mem_singleton.mp hk, ← show q.mtu = p.mtu from hmoves.mtu]
      exact hsmall
  · refine deliver (Or.inl rfl) (Reads.delivers ?_ hmarked) hin hskip
    have hfrontReads : Reads .h264 true front (annexb (sentSets packing config p.mtu flags)) := by
      rw [← hfront]
      refine reads_sets (fun set hset => ⟨?_, htypes set hset⟩) true
      rw [← hsets] at hset
      exact of_decide_eq_true (and_eq_true_iff.mp (mem_filter.mp hset).2).1
    obtain ⟨sent, hreads, howed⟩ := hmoves.reads
    have hnone : owed { p.beginUnit flags with psAt := a, psLeft := 0, psPpsPending := false } = [] := if_neg hidle
    rw [hnone, nil_append] at howed
    obtain ⟨payload, marker⟩ := k
    have hlast : Reads .h264 (true && front.isEmpty && ks.isEmpty) [⟨payload, marker⟩] (q.owed ++ []) :=
      .cons hunpacks (.nil false)
    rw [annexb_append, ← howed, append_assoc front]
    rw [append_nil] at hlast
    exact hfrontReads.append (hreads.append hlast)

/-- A key frame of one NAL behind its length in four bytes, cut inside the length; two parameter sets are sent first. -/
theorem h264_key_frame_arrives :
    ∃ packets t, Sends (next 1460)
        (beginUnit
          { codec := .h264, packing := .lengthPrefixed, mtu := 1200, lenSize := 4,
            config := [1, 0x42, 0xE0, 0x1F, 0xFF, 0xE1, 0, 2, 0x67, 0x42, 1, 0, 2, 0x68, 0xCE] } { key := true })
        [[0, 0, 0], [3, 0x65, 0x88, 0x84]] packets t ∧
      (∀ k ∈ packets, k.payload.length ≤ 1200) ∧ LastMarked packets ∧
      Arrives ⟨24, 20, 4, le_rfl⟩ .h264 packets
        [0, 0, 0, 1, 0x67, 0x42, 0, 0, 0, 1, 0x68, 0xCE, 0, 0, 0, 1, 0x65, 0x88, 0x84] := by
  have hstream : ({} : Packetizer).stream .h264 .lengthPrefixed
      [1, 0x42, 0xE0, 0x1F, 0xFF, 0xE1, 0, 2, 0x67, 0x42, 1, 0, 2, 0x68, 0xCE] 1200 = some _ := rfl
  have hnal : IsNal [0x65, 0x88, 0x84] := ⟨nofun, by decide, by decide, by decide, by decide⟩
  obtain ⟨packets, t, hsends, hsmall, hmarked, harrives⟩ := h264_units ⟨24, 20, 4, le_rfl⟩ hstream
    (show 1200 ≤ 1460 by omega) { key := true } (show [[0x65, 0x88, 0x84]] ≠ [] from nofun)
    (fun nal hn => by rw [mem_singleton.mp hn]; exact hnal)
    (show AccessUnit _ _ _ (List.flatten [[0, 0, 0], [3, 0x65, 0x88, 0x84]]) from Or.inr ⟨rfl, by decide, rfl⟩)
  exact ⟨packets, t, hsends, hsmall, hmarked, harrives (by decide)⟩

/-- A parameter set of type 0 is sent and cannot be read, and nothing of its key frame arrives behind it. -/
theorem unreadable_set_hides_key_frame :
    ¬ ∀ (e : Layout) (p₀ p : Packetizer) (packing : Packing) (config : Bytes) (mtu room : Nat) (flags : Flags)
      (nals pieces : List Bytes) (packets : List Packet) (t : Packetizer),
      p₀.stream .h264 packing config mtu = some p → mtu ≤ room → nals ≠ [] → (∀ nal ∈ nals, IsNal nal) →
      AccessUnit packing config nals pieces.flatten → Sends (next room) (p.beginUnit flags) pieces packets t →
      Arrives e .h264 packets (annexb (sentSets packing config mtu flags ++ nals)) := by
  intro h
  have hstream : ({} : Packetizer).stream .h264 .lengthPrefixed
      [1, 0x42, 0xE0, 0x1F, 0xFF, 0xE1, 0, 2, 0x60, 0x42, 0] 1200 = some _ := rfl
  have hnal : IsNal [0x65, 0x88, 0x84] := ⟨cons_ne_nil _ _, by decide, by decide, by decide, by decide⟩
  obtain ⟨t, hsends⟩ : ∃ t, Sends (next 1460)
      (beginUnit
        { codec := .h264, packing := .lengthPrefixed, mtu := 1200, lenSize := 4,
          config := [1, 0x42, 0xE0, 0x1F, 0xFF, 0xE1, 0, 2, 0x60, 0x42, 0] } { key := true })
      [[0, 0, 0, 3, 0x65, 0x88, 0x84]] [⟨[0x60, 0x42], false⟩, ⟨[0x65, 0x88, 0x84], true⟩] t := by
    apply Exists.intro
    apply Sends.final
    apply Drained.given
    · rfl
    apply Drained.given
    · rfl
    apply Drained.spent
    rfl
  obtain ⟨pts, hone⟩ := h ⟨24, 20, 4, le_rfl⟩ {} _ _ _ 1200 1460 { key := true } [[0x65, 0x88, 0x84]] _ _ _ hstream
    (by omega) (cons_ne_nil _ _) (fun nal hn => by rw [mem_singleton.mp hn]; exact hnal)
    (Or.inr ⟨rfl, by decide, rfl⟩) hsends {} 0 rfl (by decide)
  have hnone : fragments ((depacketizer ⟨24, 20, 4, le_rfl⟩).run {}
      (received .h264 0 [⟨[0x60, 0x42], false⟩, ⟨[0x65, 0x88, 0x84], true⟩])).2 = [] := rfl
  rw [hnone] at hone
  cases hone

end Wave.Common.RtpPayload
