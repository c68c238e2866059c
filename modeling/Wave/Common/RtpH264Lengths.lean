import Wave.Common.RtpH264

/-! # H.264 access units in length-prefixed form, packetized

The length of a NAL and the NAL are read byte by byte (`counted`). -/

namespace Wave.Common.RtpPayload

open Lib Lib.Bytes Lib.Pump

variable {cap : Nat}

def lengthField : Nat → Nat → Bytes
  | 0, _ => []
  | n + 1, len => UInt8.ofNat (len / 256 ^ n) :: lengthField n len

def lengthPrefixed (size : Nat) (nals : List Bytes) : Bytes := nals.flatMap fun nal => lengthField size nal.length ++ nal

theorem length_byte {len n read v : Nat} (hlen : len < 2 ^ 32)
    (hv : read = 0 ∧ len / 256 ^ (n + 1) = 0 ∨ read ≠ 0 ∧ v = len / 256 ^ (n + 1)) :
    (if read = 0 then 0 else (v <<< 8) % 2 ^ 32) ||| (UInt8.ofNat (len / 256 ^ n)).toNat = len / 256 ^ n := by
  have hdiv : len / 256 ^ (n + 1) = len / 256 ^ n / 256 := by rw [pow_succ, Nat.div_div_eq_div_mul]
  have hle : len / 256 ^ n ≤ len := Nat.div_le_self _ _
  have hhigh : (if read = 0 then 0 else (v <<< 8) % 2 ^ 32) = (len / 256 ^ n / 256) <<< 8 := by
    obtain ⟨hread, hzero⟩ | ⟨hread, rfl⟩ := hv
    · rw [if_pos hread, ← hdiv, hzero]
      rfl
    · rw [if_neg hread, hdiv, Nat.shiftLeft_eq]
      exact Nat.mod_eq_of_lt (by omega)
  have hbyte : (UInt8.ofNat (len / 256 ^ n)).toNat = len / 256 ^ n % 256 := UInt8.toNat_ofNat'
  rw [hhigh, hbyte, ← Nat.shiftLeft_add_eq_or_of_lt (Nat.mod_lt _ (by omega)), Nat.shiftLeft_eq]
  omega

namespace Packetizer

section Byte

variable {room : Nat} {p q : Packetizer} {b : UInt8}

def counted (p : Packetizer) (len n : Nat) : Packetizer :=
  { p with nalLen := len / 256 ^ n, nal := if n = 0 then .header else .length (p.lenSize - n) }

theorem takes_length (h : InH264 room p) (hheld : p.held = false) {len n read : Nat} (hnal : p.nal = .length read)
    (hread : read + (n + 1) = p.lenSize) (hlen : len < 2 ^ 32) (hpos : 0 < len)
    (hv : read = 0 ∧ len / 256 ^ (n + 1) = 0 ∨ read ≠ 0 ∧ p.nalLen = len / 256 ^ (n + 1)) :
    Takes (next room) p (UInt8.ofNat (len / 256 ^ n)) [] (p.counted len n) := by
  refine takes_quiet h ⟨h.codec, h.unitDone, h.room, h.mtu, h.psLeft, h.psPpsPending, h.pending⟩ rfl fun rest => ?_
  rw [h264Loop, if_neg (by rw [hheld]; exact false_ne_true), hnal]
  dsimp only
  rw [length_byte hlen hv]
  by_cases hn : n = 0
  · subst hn
    rw [if_pos hread, pow_zero, Nat.div_one, if_neg hpos.ne', counted, pow_zero, Nat.div_one, if_pos rfl]
  · rw [if_neg (by omega), counted, if_neg hn, show p.lenSize - n = read + 1 by omega]

def settle (p : Packetizer) : Packetizer :=
  if p.nalLen = 0 then { p with nal := .length 0, held := true } else { p with nal := .body }

theorem takes_prefixed_header (h : InH264 room p) (hpacking : p.packing = .lengthPrefixed) (hheld : p.held = false)
    (hnal : p.nal = .header) (b : UInt8) :
    Takes (next room) p b []
      (settle { p with nalHeader := b, fragmented := false, pending := [], zeros := 0, nalLen := p.nalLen - 1 }) := by
  refine takes_quiet h ?_ ?_ fun rest => ?_
  · unfold settle
    split <;> exact ⟨h.codec, h.unitDone, h.room, h.mtu, h.psLeft, h.psPpsPending, Nat.zero_le _⟩
  · unfold settle
    split <;> rfl
  rw [h264Loop, if_neg (by rw [hheld]; exact false_ne_true), hnal]
  dsimp only
  rw [if_pos hpacking, settle]
  dsimp only
  split <;> rfl

def took (p : Packetizer) (chunk : Bytes) : Packetizer :=
  settle { p with pending := p.pending ++ chunk, nalLen := p.nalLen - chunk.length }

structure InPrefixed (p : Packetizer) : Prop where
  packing : p.packing = .lengthPrefixed
  held : p.held = false
  nal : p.nal = .body

theorem InPrefixed.loop_full (h : InPrefixed p) (hfull : p.pending.length = cap) (turns : Nat) (rest : Bytes) :
    h264Loop cap (turns + 1) p (b :: rest) = (some (p.fuA false).1, (p.fuA false).2, b :: rest) := by
  rw [h264Loop, if_neg (by rw [h.held]; exact false_ne_true)]
  simp only [h.nal]
  rw [if_neg (by rw [h.packing]; rintro ⟨⟩), if_pos hfull]

theorem InPrefixed.loop_chunk (h : InPrefixed p) (hroom : p.pending.length ≠ cap) (turns : Nat)
    (rest : Bytes) {n : Nat} (hn : n = min (min (cap - p.pending.length) (rest.length + 1)) p.nalLen) :
    h264Loop cap (turns + 1) p (b :: rest) = h264Loop cap turns (p.took ((b :: rest).take n)) ((b :: rest).drop n) := by
  have hlength : ((b :: rest).take n).length = n := by
    rw [length_take, length_cons]
    omega
  rw [h264Loop, if_neg (by rw [h.held]; exact false_ne_true), took, hlength, settle]
  simp only [h.nal]
  rw [if_neg (by rw [h.packing]; rintro ⟨⟩), if_neg hroom, ← hn]

theorem h264Loop_stop {cap turns turns' : Nat} {rest : Bytes} (hturns : rest.length ≤ turns)
    (hturns' : rest.length ≤ turns') (h : rest = [] ∨ p.held = true ∨ InPrefixed p ∧ p.pending.length = cap) :
    h264Loop cap turns p rest = h264Loop cap turns' p rest := by
  cases rest with
  | nil => cases turns <;> cases turns' <;> rfl
  | cons b rest =>
    obtain ⟨turns, rfl⟩ := Nat.exists_eq_add_of_le' hturns
    obtain ⟨turns', rfl⟩ := Nat.exists_eq_add_of_le' hturns'
    rw [length_cons, ← Nat.add_assoc, ← Nat.add_assoc]
    obtain hnil | hheld | ⟨hbody, hfull⟩ := h
    · cases hnil
    · rw [h264Loop, h264Loop, if_pos hheld, if_pos hheld]
    · rw [hbody.loop_full hfull, hbody.loop_full hfull]

theorem InPrefixed.took_open (h : InPrefixed p) (chunk : Bytes) (hleft : p.nalLen - chunk.length ≠ 0) :
    InPrefixed (p.took chunk) ∧ (p.took chunk).pending = p.pending ++ chunk ∧
      (p.took chunk).nalLen = p.nalLen - chunk.length := by
  rw [took, settle, if_neg hleft]
  exact ⟨⟨h.packing, h.held, rfl⟩, rfl, rfl⟩

theorem took_took {chunk chunk' : Bytes} (hleft : p.nalLen - chunk.length ≠ 0) :
    (p.took chunk).took chunk' = p.took (chunk ++ chunk') := by
  rw [took, took, settle.eq_def { p with pending := p.pending ++ chunk, nalLen := p.nalLen - chunk.length }, if_neg hleft,
    took, settle, settle, length_append, ← Nat.sub_sub, ← append_assoc]

theorem InPrefixed.took_stop (h : InPrefixed p) (hroom : p.pending.length ≤ cap) (bytes : Bytes) {n : Nat}
    (hn : n = min (min (cap - p.pending.length) bytes.length) p.nalLen) :
    bytes.drop n = [] ∨ (p.took (bytes.take n)).held = true ∨
      InPrefixed (p.took (bytes.take n)) ∧ (p.took (bytes.take n)).pending.length = cap := by
  have hlength : (bytes.take n).length = n := by
    rw [length_take]
    omega
  by_cases hall : bytes.length ≤ n
  · exact Or.inl (drop_eq_nil_of_le hall)
  by_cases hdone : p.nalLen - (bytes.take n).length = 0
  · refine Or.inr (Or.inl ?_)
    rw [took, settle, if_pos hdone]
  · obtain ⟨hopen, hpending, -⟩ := h.took_open _ hdone
    refine Or.inr (Or.inr ⟨hopen, ?_⟩)
    rw [hpending, length_append, hlength]
    omega

theorem InPrefixed.loop_byte (h : InPrefixed p) (hroom : p.pending.length < cap) (hleft : 0 < p.nalLen) (rest : Bytes) :
    h264Loop cap (rest.length + 1) p (b :: rest) = h264Loop cap rest.length (p.took [b]) rest := by
  rw [h.loop_chunk hroom.ne rest.length rest rfl]
  generalize hn : min (min (cap - p.pending.length) (rest.length + 1)) p.nalLen = n
  by_cases hone : n = 1
  · rw [hone]
    rfl
  obtain ⟨m, rfl⟩ : ∃ m, n = m + 2 := ⟨n - 2, by omega⟩
  cases rest with
  | nil =>
    rw [length_nil] at hn
    omega
  | cons c rest =>
    rw [length_cons] at hn
    obtain ⟨hopen, hpending, hnalLen⟩ := h.took_open [b] (by rw [length_singleton]; omega)
    have hlength : (p.took [b]).pending.length = p.pending.length + 1 := by
      rw [hpending, length_append, length_singleton]
    rw [length_singleton] at hnalLen
    rw [length_cons, hopen.loop_chunk (by omega) rest.length rest (n := m + 1) (by rw [hlength, hnalLen]; omega),
      took_took (by rw [length_singleton]; omega)]
    refine h264Loop_stop ?_ ?_ (h.took_stop hroom.le (b :: c :: rest) (n := m + 2) ?_)
    · rw [length_drop, length_cons, length_cons]
      omega
    · rw [length_drop, length_cons, length_cons]
      omega
    · rw [length_cons, length_cons]
      omega

theorem takes_prefixed (h : InH264 room p) (hp : InPrefixed p) (hroom : p.pending.length < p.mtu - 2)
    (hleft : 0 < p.nalLen) : Takes (next room) p b [] (p.took [b]) := by
  have hlength : (p.pending ++ [b]).length ≤ p.mtu - 2 := by
    rw [length_append, length_singleton]
    exact hroom
  refine takes_quiet h ?_ ?_ fun rest => hp.loop_byte hroom hleft rest
  · unfold took settle
    split <;> exact ⟨h.codec, h.unitDone, h.room, h.mtu, h.psLeft, h.psPpsPending, hlength⟩
  · unfold took settle
    split <;> rfl

theorem takes_prefixed_fragment (h : InH264 room p) (hp : InPrefixed p) (hfull : p.pending.length = p.mtu - 2)
    (hleft : 0 < p.nalLen) :
    Takes (next room) p b [(p.fuA false).1] ({ p with fragmented := true, pending := [] }.took [b]) := by
  have hmtu := h.mtu
  have hm : InH264 room { p with fragmented := true, pending := [] } :=
    ⟨h.codec, h.unitDone, h.room, h.mtu, h.psLeft, h.psPpsPending, Nat.zero_le _⟩
  refine takes_gives h (m := { p with fragmented := true, pending := [] })
    (fun rest => hp.loop_full hfull rest.length rest) (takes_prefixed hm ⟨hp.packing, hp.held, hp.nal⟩ ?_ hleft)
  change 0 < p.mtu - 2
  omega

section Moves

variable {starting : Bool}

theorem owed_settle (p : Packetizer) : p.settle.owed = p.carried := by
  unfold settle
  split
  · rw [owed, if_pos (Or.inl rfl)]
    rfl
  · rw [owed, if_pos (Or.inr rfl)]
    rfl

theorem carried_append (p : Packetizer) (chunk : Bytes) (n : Nat) :
    carried { p with pending := p.pending ++ chunk, nalLen := n } = p.carried ++ chunk := by
  rw [carried, carried, append_assoc]

theorem settle_stream (p : Packetizer) :
    p.settle.mtu = p.mtu ∧ p.settle.packing = p.packing ∧ p.settle.lenSize = p.lenSize := by
  unfold settle
  split <;> exact ⟨rfl, rfl, rfl⟩

theorem settle_ready (hunit : InH264 room p) (hstart : p.fragmented = true → starting = false)
    (htype : NalType p.nalHeader) : Ready room starting p.settle := by
  unfold settle
  split <;> exact ⟨⟨hunit.codec, hunit.unitDone, hunit.room, hunit.mtu, hunit.psLeft, hunit.psPpsPending, hunit.pending⟩,
    hstart, fun _ => htype⟩

theorem moves_prefixed (h : Ready room starting p) (hp : InPrefixed p) (hleft : 0 < p.nalLen) :
    ∃ ks, ∃ m : Packetizer, Moves room starting p [b] [b] ks m.settle ∧ m.packing = .lengthPrefixed ∧ m.held = false ∧
      m.nalLen = p.nalLen - 1 := by
  have hmtu := h.unit.mtu
  have hpending := h.unit.pending
  have howed : p.owed = p.carried := if_pos (Or.inr hp.nal)
  have htype := h.type (Or.inr hp.nal)
  by_cases hfull : p.pending.length = p.mtu - 2
  · have hunit : InH264 room { p with fragmented := true, pending := [] ++ [b], nalLen := p.nalLen - 1 } :=
      ⟨h.unit.codec, h.unit.unitDone, h.unit.room, h.unit.mtu, h.unit.psLeft, h.unit.psPpsPending,
        by change 1 ≤ p.mtu - 2; omega⟩
    obtain ⟨hsame, hpacking, hlen⟩ := settle_stream { p with fragmented := true, pending := [] ++ [b], nalLen := p.nalLen - 1 }
    refine ⟨_, { p with fragmented := true, pending := [] ++ [b], nalLen := p.nalLen - 1 },
      moves_gives h (takes_prefixed_fragment h.unit hp hfull hleft) (settle_ready hunit (fun _ => rfl) htype) hsame hpacking
        hlen (fuA_length p false).le rfl (fuA_unpacks h.start false) ?_, hp.packing, hp.held, rfl⟩
    rw [howed, owed_settle]
    rfl
  · have hunit : InH264 room { p with pending := p.pending ++ [b], nalLen := p.nalLen - 1 } :=
      ⟨h.unit.codec, h.unit.unitDone, h.unit.room, h.unit.mtu, h.unit.psLeft, h.unit.psPpsPending,
        by rw [length_append, length_singleton]; dsimp only; omega⟩
    obtain ⟨hsame, hpacking, hlen⟩ := settle_stream { p with pending := p.pending ++ [b], nalLen := p.nalLen - 1 }
    refine ⟨_, { p with pending := p.pending ++ [b], nalLen := p.nalLen - 1 },
      moves_quiet _ h (takes_prefixed h.unit hp (by omega) hleft) (settle_ready hunit h.start htype) hsame hpacking hlen ?_,
      hp.packing, hp.held, rfl⟩
    rw [howed, owed_settle, carried_append]

theorem moves_prefixed_body (bs : Bytes) (h : Ready room starting p.settle) (hpacking : p.packing = .lengthPrefixed)
    (hheld : p.held = false) (hleft : p.nalLen = bs.length) :
    ∃ ks q, Moves room starting p.settle bs bs ks q ∧ q.held = true ∧ q.nal = .length 0 := by
  induction bs generalizing p starting with
  | nil =>
    refine ⟨[], p.settle, .refl h, ?_⟩
    rw [length_nil] at hleft
    rw [settle, if_pos hleft]
    exact ⟨rfl, rfl⟩
  | cons b bs ih =>
    rw [length_cons] at hleft
    have hopen : p.settle = { p with nal := .body } := if_neg (by omega)
    have hlen : p.settle.nalLen = p.nalLen := by rw [hopen]
    have hbody : InPrefixed p.settle := by
      rw [hopen]
      exact ⟨hpacking, hheld, rfl⟩
    obtain ⟨ks, m, hmoves, hm⟩ := moves_prefixed (b := b) h hbody (by omega)
    obtain ⟨ks', q, hrest, hq⟩ := ih hmoves.ready hm.1 hm.2.1 (by omega)
    exact ⟨_, q, hmoves.trans hrest, hq⟩

theorem counted_owed (hheld : p.held = false) (len n : Nat) : (p.counted len n).owed = [] := by
  rw [owed, if_neg]
  rw [counted]
  dsimp only
  rw [hheld]
  split <;> rintro (hopen | hopen) <;> cases hopen

theorem counted_ready (hunit : InH264 room p) (hstart : p.fragmented = true → starting = false) (hheld : p.held = false)
    (len n : Nat) : Ready room starting (p.counted len n) := by
  refine ⟨⟨hunit.codec, hunit.unitDone, hunit.room, hunit.mtu, hunit.psLeft, hunit.psPpsPending, hunit.pending⟩, hstart, ?_⟩
  rw [counted]
  dsimp only
  rw [hheld]
  split <;> rintro (hopen | hopen) <;> cases hopen

theorem moves_counted {len n : Nat} (hunit : InH264 room p) (hstart : p.fragmented = true → starting = false)
    (hheld : p.held = false) (hn : n < p.lenSize) (hlen : len < 2 ^ 32) (hpos : 0 < len) :
    Moves room starting (p.counted len n) (lengthField n len) [] [] (p.counted len 0) := by
  induction n with
  | zero => exact .refl (counted_ready hunit hstart hheld len 0)
  | succ n ih =>
    have hready := counted_ready hunit hstart hheld len
    have htakes : Takes (next room) (p.counted len (n + 1)) (UInt8.ofNat (len / 256 ^ n)) [] (p.counted len n) :=
      takes_length (p := p.counted len (n + 1)) (hready (n + 1)).unit hheld
        (show (if n + 1 = 0 then Nal.header else .length (p.lenSize - (n + 1))) = _ from if_neg (Nat.succ_ne_zero n)) (Nat.sub_add_cancel hn.le) hlen hpos (Or.inr ⟨by omega, rfl⟩)
    have hbyte := moves_quiet [] (hready (n + 1)) htakes (hready n) rfl rfl rfl
      (by rw [counted_owed hheld, counted_owed hheld]; rfl)
    refine hbyte.trans ?_
    rw [isEmpty_nil, Bool.and_true]
    exact ih (by omega)

theorem moves_length (h : Ready room starting p) (hnal : p.nal = .length 0) (hsize : 0 < p.lenSize) {len : Nat}
    (hfits : len < 256 ^ p.lenSize) (hlen : len < 2 ^ 32) (hpos : 0 < len) :
    ∃ ks, ∃ c : Packetizer, Moves room starting p (lengthField p.lenSize len) [] ks c ∧ c.held = false ∧ c.nal = .header ∧
      c.nalLen = len := by
  obtain ⟨n, hn⟩ : ∃ n, p.lenSize = n + 1 := Nat.exists_eq_succ_of_ne_zero hsize.ne'
  have hcounted : len / 256 ^ 0 = len := by rw [pow_zero, Nat.div_one]
  have hzero : len / 256 ^ (n + 1) = 0 := Nat.div_eq_of_lt (by rwa [← hn])
  have hfield : lengthField p.lenSize len = [UInt8.ofNat (len / 256 ^ n)] ++ lengthField n len := by
    rw [hn]
    rfl
  have hread : 0 + (n + 1) = p.lenSize := by omega
  rw [hfield]
  by_cases hheld : p.held = true
  · have hunit : InH264 room { p with held := false, pending := [] } :=
      ⟨h.unit.codec, h.unit.unitDone, h.unit.room, h.unit.mtu, h.unit.psLeft, h.unit.psPpsPending, Nat.zero_le _⟩
    have hfirst := moves_held h hheld (takes_length hunit rfl hnal hread hlen hpos (Or.inl ⟨rfl, hzero⟩))
      (counted_ready hunit (fun _ => rfl) rfl len n) rfl rfl rfl (counted_owed rfl len n)
    refine ⟨_, _, hfirst.trans (moves_counted hunit ?_ rfl ?_ hlen hpos), rfl, rfl, hcounted⟩
    · intro _
      rw [isEmpty_cons, Bool.and_false]
    · change n < p.lenSize
      omega
  · have hidle := eq_false_iff.mpr hheld
    have hnone : p.owed = [] := by
      rw [owed, if_neg]
      rw [hnal]
      rintro (hopen | hopen)
      · exact hheld hopen
      · cases hopen
    have hfirst := moves_quiet [] h
      (takes_length h.unit hidle hnal hread hlen hpos (Or.inl ⟨rfl, hzero⟩)) (counted_ready h.unit h.start hidle len n) rfl rfl
      rfl (by rw [counted_owed hidle, hnone]; rfl)
    refine ⟨_, _, hfirst.trans (moves_counted h.unit ?_ hidle (by omega) hlen hpos), hidle, rfl, hcounted⟩
    rw [isEmpty_nil, Bool.and_true]
    exact h.start

theorem moves_prefixed_nal (h : Ready room starting p) (hpacking : p.packing = .lengthPrefixed) (hnal : p.nal = .length 0)
    (hsize : 0 < p.lenSize ∧ p.lenSize ≤ 4) {nal : Bytes} (hne : nal ≠ []) (htype : NalType (nal.at0 0))
    (hfits : nal.length < 256 ^ p.lenSize) :
    ∃ ks q, Moves room starting p (lengthField p.lenSize nal.length ++ nal) (START_CODE ++ nal) ks q ∧ q.held = true ∧
      q.nal = .length 0 := by
  have hlen : nal.length < 2 ^ 32 :=
    lt_of_lt_of_le hfits ((Nat.pow_le_pow_right (by omega) hsize.2).trans_eq (by norm_num))
  obtain ⟨ks, c, hlength, hheld, hheader, hcount⟩ := moves_length h hnal hsize.1 hfits hlen (length_pos_of_ne_nil hne)
  have hunit := hlength.ready.unit
  have hlp := hlength.packing.trans hpacking
  have hnone : c.owed = [] := by
    rw [owed, if_neg]
    rw [hheld, hheader]
    rintro (hopen | hopen) <;> cases hopen
  cases nal with
  | nil => exact absurd rfl hne
  | cons header data =>
    have hstart : InH264 room
        { c with nalHeader := header, fragmented := false, pending := [], zeros := 0, nalLen := c.nalLen - 1 } :=
      ⟨hunit.codec, hunit.unitDone, hunit.room, hunit.mtu, hunit.psLeft, hunit.psPpsPending, Nat.zero_le _⟩
    have hfirst := moves_quiet (START_CODE ++ [header]) hlength.ready
      (takes_prefixed_header hunit hlp hheld hheader header) (settle_ready hstart (by rintro ⟨⟩) htype)
      (settle_stream _).1 (settle_stream _).2.1 (settle_stream _).2.2 (by
        rw [owed_settle, hnone, carried, if_neg false_ne_true, append_nil]
        rfl)
    obtain ⟨ks', q, hbody, hq⟩ := moves_prefixed_body data hfirst.ready hlp hheld
      (by rw [hcount]; rfl)
    refine ⟨ks ++ ([] ++ ks'), q, ?_, hq⟩
    rw [append_cons START_CODE]
    exact hlength.trans (hfirst.trans hbody)

end Moves

end Byte

end Packetizer

end Wave.Common.RtpPayload
