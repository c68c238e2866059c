import Wave.Common.JitterCore

/-! # The jitter buffer behind an outage

A stream that comes back is taken up where one of its packets lies in the drained buffer's window (`resumes_iff`). -/

namespace Wave.Common.JitterCore

open Lib

namespace JitterBuffer

/-- The loop of `step_release` where every hole was waited for, with the turns it has left. -/
def drainLoop : Nat → JitterBuffer → JitterBuffer
  | 0, b => b
  | turns + 1, b =>
    if b.nextReady then drainLoop turns b.release
    else if b.waitingOnHole then drainLoop turns b.skipHole.1
    else b

def drain (b : JitterBuffer) : JitterBuffer := drainLoop (2 * b.fillCount) b

/-- Packets with consecutive sequence numbers from `seq` on, the buffer drained behind each; whether each was stored. -/
def feed : JitterBuffer → UInt16 → List (Bytes × JitterPacketMeta) → List Bool
  | _, _, [] => []
  | b, seq, p :: ps =>
    let r := b.insert seq p.1 p.2
    r.2 :: feed r.1.drain (seq + 1) ps

def reach (b : JitterBuffer) : Nat :=
  (b.slots.filter Slot.full).foldr (fun t n => max ((t.seq - b.nextSeq).toNat + 1) n) 0

end JitterBuffer

section Drain

variable {b : JitterBuffer} {n i : Nat} {seq : UInt16}

theorem mem_full_iff {t : Slot} : t ∈ b.slots.filter Slot.full ↔ ∃ i, (b.slot i).full = true ∧ b.slot i = t := by
  rw [mem_filter, mem_iff_getElem]
  constructor
  · rintro ⟨⟨i, hi, rfl⟩, hfull⟩
    rw [← slot_eq_getElem hi] at hfull ⊢
    exact ⟨i, hfull, rfl⟩
  · rintro ⟨i, hfull, rfl⟩
    exact ⟨⟨i, lt_of_full hfull, (slot_eq_getElem _).symm⟩, hfull⟩

theorem reach_le (hle : ∀ i, (b.slot i).full = true → ((b.slot i).seq - b.nextSeq).toNat + 1 ≤ n) : b.reach ≤ n := by
  have hall : ∀ l : List Slot, (∀ t ∈ l, (t.seq - b.nextSeq).toNat + 1 ≤ n) →
      l.foldr (fun t m => max ((t.seq - b.nextSeq).toNat + 1) m) 0 ≤ n := by
    intro l hl
    induction l with
    | nil => exact Nat.zero_le n
    | cons t l ih => exact max_le (hl t mem_cons_self) (ih fun t ht => hl t (mem_cons_of_mem _ ht))
  refine hall _ fun t ht => ?_
  obtain ⟨i, hfull, rfl⟩ := mem_full_iff.mp ht
  exact hle i hfull

theorem lt_reach (hi : (b.slot i).full = true) : ((b.slot i).seq - b.nextSeq).toNat + 1 ≤ b.reach := by
  have hall : ∀ l : List Slot, ∀ t ∈ l,
      (t.seq - b.nextSeq).toNat + 1 ≤ l.foldr (fun t m => max ((t.seq - b.nextSeq).toNat + 1) m) 0 := by
    intro l t ht
    induction l with
    | nil => cases ht
    | cons u l ih =>
      rcases mem_cons.mp ht with rfl | ht
      · exact le_max_left _ _
      · exact (ih ht).trans (le_max_right _ _)
  exact hall _ _ (mem_full_iff.mpr ⟨i, hi, rfl⟩)

theorem reach_eq (hle : ∀ i, (b.slot i).full = true → ((b.slot i).seq - b.nextSeq).toNat + 1 ≤ n)
    (hat : n = 0 ∨ ∃ i, (b.slot i).full = true ∧ ((b.slot i).seq - b.nextSeq).toNat + 1 = n) : b.reach = n := by
  refine Nat.le_antisymm (reach_le hle) ?_
  rcases hat with rfl | ⟨i, hi, rfl⟩
  · exact Nat.zero_le _
  · exact lt_reach hi

theorem reach_attained (hpos : 0 < b.reach) :
    ∃ i, (b.slot i).full = true ∧ ((b.slot i).seq - b.nextSeq).toNat + 1 = b.reach := by
  by_contra hno
  have hless : b.reach ≤ b.reach - 1 := by
    refine reach_le fun i hi => ?_
    have hlt := lt_reach hi
    have hne : ((b.slot i).seq - b.nextSeq).toNat + 1 ≠ b.reach := fun heq => hno ⟨i, hi, heq⟩
    omega
  omega

theorem RingInv.reach_le_slots (h : RingInv b) : b.reach ≤ JITTER_MAX_SLOTS := reach_le fun i hi => h.ahead i hi

theorem RingInv.reach_empty (h : RingInv b) (hempty : b.fillCount = 0) : b.reach = 0 := by
  refine reach_eq (fun i hi => ?_) (.inl rfl)
  rw [h.fill, List.countP_eq_zero] at hempty
  exact absurd hi (by rw [slot_eq_getElem (lt_of_full hi)]; exact hempty _ (getElem_mem _))

theorem RingInv.release_reach (h : RingInv b) (hready : b.nextReady = true) :
    b.release.fillCount + 1 = b.fillCount ∧ b.release.based = b.based ∧ b.release.nextSeq = b.nextSeq + 1 ∧
      b.reach = b.release.reach + 1 := by
  have hrelease : b.release = { b with
      slots := b.slots.set (JitterBuffer.index b.nextSeq) { b.slot (JitterBuffer.index b.nextSeq) with full := false }
      nextSeq := b.nextSeq + 1, fillCount := b.fillCount - 1, skipped := false } := by
    rw [JitterBuffer.release, hready]
    rfl
  obtain ⟨first, hfirst, hseq⟩ := h.nextReady_iff.mp hready
  have hindex : JitterBuffer.index b.nextSeq = first := by rw [← hseq]; exact h.home first hfirst
  have hlt := lt_of_full hfirst
  have hpos : 0 < b.fillCount := by
    rw [h.fill]
    exact List.countP_pos_iff.mpr ⟨_, getElem_mem hlt, by rw [← slot_eq_getElem hlt]; exact hfirst⟩
  have hslot : ∀ i, i ≠ first → b.release.slot i = b.slot i := by
    intro i hi
    rw [hrelease]
    exact Table.getD_set_ne (by rw [hindex]; exact hi)
  have hgone : (b.release.slot first).full = false := by
    rw [hrelease]
    change ((b.slots.set _ _).getD first {}).full = false
    rw [hindex, Table.getD_set_self hlt]
  have hnext : b.release.nextSeq = b.nextSeq + 1 := by rw [hrelease]
  have hstep : ∀ i, (b.release.slot i).full = true → (b.slot i).full = true ∧
      ((b.release.slot i).seq - b.release.nextSeq).toNat + 1 = ((b.slot i).seq - b.nextSeq).toNat := by
    intro i hi
    have hne : i ≠ first := by
      rintro rfl
      rw [hgone] at hi
      cases hi
    rw [hslot i hne] at hi ⊢
    rw [hnext]
    refine ⟨hi, ahead_step fun heq => hne ?_⟩
    rw [← hindex, ← heq]
    exact (h.home i hi).symm
  refine ⟨by rw [hrelease]; dsimp only; omega, by rw [hrelease], hnext, reach_eq (fun i hi => ?_) (.inr ?_)⟩
  · by_cases hne : i = first
    · rw [hne, hseq, UInt16.sub_self]
      exact Nat.succ_le_succ (Nat.zero_le _)
    · have hkept : (b.release.slot i).full = true := by rw [hslot i hne]; exact hi
      have hle := lt_reach hkept
      have hone := (hstep i hkept).2
      omega
  · rcases Nat.eq_zero_or_pos b.release.reach with hzero | hmore
    · exact ⟨first, hfirst, by rw [hseq, UInt16.sub_self, hzero]; rfl⟩
    · obtain ⟨i, hi, hat⟩ := reach_attained hmore
      obtain ⟨hfull, hone⟩ := hstep i hi
      exact ⟨i, hfull, by omega⟩

theorem RingInv.skipHole_reach (h : RingInv b) (hwait : b.waitingOnHole = true) :
    ∃ n, b.skipHole.1.fillCount = b.fillCount ∧ b.skipHole.1.based = b.based ∧
      b.skipHole.1.nextSeq = b.nextSeq + UInt16.ofNat n ∧ b.reach = b.skipHole.1.reach + n := by
  obtain ⟨n, -, hn, hskip, hinv, hready⟩ := h.skipHole_eq hwait
  have hfill : b.skipHole.1.fillCount = b.fillCount := by rw [hskip]
  have hbased : b.skipHole.1.based = b.based := by rw [hskip]
  have hnext : b.skipHole.1.nextSeq = b.nextSeq + UInt16.ofNat n := by rw [hskip]
  have hslot : ∀ i, b.skipHole.1.slot i = b.slot i := fun i => by rw [hskip]; rfl
  refine ⟨n, hfill, hbased, hnext, ?_⟩
  generalize b.skipHole.1 = c at hinv hready hnext hslot
  have hstep : ∀ i, (b.slot i).full = true → ((c.slot i).seq - c.nextSeq).toNat + n = ((b.slot i).seq - b.nextSeq).toNat := by
    intro i hi
    have hahead := hinv.ahead i (by rw [hslot]; exact hi)
    unfold JITTER_MAX_SLOTS at hahead hn
    have hlt := (b.slot i).seq.toNat_lt
    have hltn := b.nextSeq.toNat_lt
    rw [hslot, hnext, UInt16.toNat_sub, UInt16.toNat_add, UInt16.toNat_ofNat'] at hahead ⊢
    rw [UInt16.toNat_sub]
    omega
  obtain ⟨first, hfirst, -⟩ := hinv.nextReady_iff.mp hready
  obtain ⟨last, hlast, hat⟩ := reach_attained (Nat.lt_of_lt_of_le (Nat.succ_pos _) (lt_reach hfirst))
  have hlast' : (b.slot last).full = true := by rw [← hslot]; exact hlast
  refine reach_eq (fun i hi => ?_) (.inr ⟨last, hlast', ?_⟩)
  · have hle := lt_reach (show (c.slot i).full = true by rw [hslot]; exact hi)
    have hone := hstep i hi
    omega
  · have hone := hstep last hlast'
    omega

def standing (b : JitterBuffer) : Option UInt16 := if b.based then some (b.nextSeq + UInt16.ofNat b.reach) else none

theorem RingInv.standing_release (h : RingInv b) (hready : b.nextReady = true) : standing b.release = standing b := by
  obtain ⟨-, hbased, hnext, hreach⟩ := h.release_reach hready
  rw [standing, standing, hbased, hnext, hreach, UInt16.add_assoc, UInt16.ofNat_add, UInt16.add_comm 1]
  rfl

theorem RingInv.standing_skipHole (h : RingInv b) (hwait : b.waitingOnHole = true) :
    standing b.skipHole.1 = standing b := by
  obtain ⟨n, -, hbased, hnext, hreach⟩ := h.skipHole_reach hwait
  rw [standing, standing, hbased, hnext, hreach, UInt16.add_assoc, UInt16.ofNat_add, UInt16.add_comm (UInt16.ofNat n)]

theorem RingInv.drainLoop (h : RingInv b) {turns : Nat} (hturns : 2 * b.fillCount ≤ turns + if b.nextReady then 1 else 0) :
    RingInv (JitterBuffer.drainLoop turns b) ∧ (JitterBuffer.drainLoop turns b).fillCount = 0 ∧
      standing (JitterBuffer.drainLoop turns b) = standing b := by
  induction turns generalizing b with
  | zero =>
    refine ⟨h, ?_, rfl⟩
    change b.fillCount = 0
    split at hturns <;> omega
  | succ turns ih =>
    unfold JitterBuffer.drainLoop
    by_cases hready : b.nextReady = true
    · obtain ⟨hfill, -⟩ := h.release_reach hready
      rw [if_pos hready] at hturns ⊢
      obtain ⟨hinv, hempty, hstand⟩ := ih h.release (by omega)
      exact ⟨hinv, hempty, hstand.trans (h.standing_release hready)⟩
    · rw [if_neg hready] at hturns ⊢
      by_cases hwait : b.waitingOnHole = true
      · obtain ⟨n, -, -, hskip, hinv, hnext⟩ := h.skipHole_eq hwait
        rw [if_pos hwait]
        have hfill : b.skipHole.1.fillCount = b.fillCount := by rw [hskip]
        obtain ⟨hinv', hempty, hstand⟩ := ih hinv (by rw [hfill, hnext, if_pos rfl]; omega)
        exact ⟨hinv', hempty, hstand.trans (h.standing_skipHole hwait)⟩
      · rw [if_neg hwait]
        refine ⟨h, ?_, rfl⟩
        rw [JitterBuffer.waitingOnHole, not_eq_true _ |>.mp hready, Bool.not_false, Bool.and_true,
          decide_eq_true_iff] at hwait
        omega

theorem RingInv.drain (h : RingInv b) : RingInv b.drain ∧ b.drain.fillCount = 0 ∧ standing b.drain = standing b :=
  h.drainLoop (Nat.le_add_right _ _)

end Drain

section Feed

variable {b : JitterBuffer} {seq : UInt16} {payload : Bytes} {info : JitterPacketMeta}

theorem RingInv.insert_stored_iff (h : RingInv b) :
    (b.insert seq payload info).2 = true ↔ payload.length ≤ JITTER_SLOT_SIZE ∧
      (b.based = true → (seq - b.nextSeq).toNat < JITTER_MAX_SLOTS ∧ ∀ i, (b.slot i).full = true → (b.slot i).seq ≠ seq) := by
  by_cases hlen : payload.length > JITTER_SLOT_SIZE
  · rw [insert_oversize hlen]
    exact iff_of_false false_ne_true fun hfits => absurd hlen (Nat.not_lt.mpr hfits.1)
  rw [insert_opened hlen, (opened_spec b seq).2.2.2.2]
  cases hbased : b.based with
  | false =>
    have hfree : (b.slot (JitterBuffer.index seq)).full = false := by
      by_contra hfull
      rw [h.based _ (Bool.not_eq_false _ |>.mp hfull)] at hbased
      cases hbased
    rw [if_neg false_ne_true, UInt16.sub_self, if_neg (by decide), hfree]
    exact iff_of_true rfl ⟨Nat.not_lt.mp hlen, nofun⟩
  | true =>
    rw [if_pos rfl]
    by_cases hfar : (seq - b.nextSeq).toNat ≥ JITTER_MAX_SLOTS
    · rw [if_pos hfar]
      exact iff_of_false false_ne_true fun hnear => absurd hfar (Nat.not_le.mpr (hnear.2 rfl).1)
    rw [if_neg hfar]
    cases hfull : (b.slot (JitterBuffer.index seq)).full with
    | true =>
      refine iff_of_false false_ne_true fun hnew => (hnew.2 rfl).2 _ hfull ?_
      exact seq_of_index (h.ahead _ hfull) (Nat.lt_of_not_le hfar) (h.home _ hfull)
    | false =>
      refine iff_of_true rfl ⟨Nat.not_lt.mp hlen, fun _ => ⟨Nat.lt_of_not_le hfar, ?_⟩⟩
      rintro i hi rfl
      rw [h.home i hi, hi] at hfull
      cases hfull

theorem RingInv.insert_refused (h : RingInv b) (hrefused : (b.insert seq payload info).2 = false) :
    (b.insert seq payload info).1 = { b with packetsReceived := b.packetsReceived + 1 } := by
  by_cases hlen : payload.length > JITTER_SLOT_SIZE
  · rw [insert_oversize hlen]
  have hbased : b.based = true := by
    by_contra hnot
    rw [h.insert_stored_iff.mpr ⟨Nat.not_lt.mp hlen, fun hb => absurd hb hnot⟩] at hrefused
    cases hrefused
  have hsame : opened b seq = { b with packetsReceived := b.packetsReceived + 1 } := if_pos hbased
  rw [insert_opened hlen] at hrefused ⊢
  rw [hsame] at hrefused ⊢
  split
  · rfl
  next hnear =>
    rw [if_neg hnear] at hrefused
    split
    · rfl
    next hfree =>
      rw [if_neg hfree] at hrefused
      cases hrefused

theorem RingInv.refused_drain (h : RingInv b) (hrefused : (b.insert seq payload info).2 = false) :
    RingInv (b.insert seq payload info).1.drain ∧ (b.insert seq payload info).1.drain.fillCount = 0 ∧
      standing (b.insert seq payload info).1.drain = standing b := by
  rw [h.insert_refused hrefused]
  have hcounted : RingInv { b with packetsReceived := b.packetsReceived + 1 } :=
    ⟨h.length, h.fill, h.based, h.home, h.ahead⟩
  exact hcounted.drain

theorem RingInv.insert_empty_iff (h : RingInv b) (hempty : b.fillCount = 0) :
    (b.insert seq payload info).2 = true ↔
      payload.length ≤ JITTER_SLOT_SIZE ∧ ∀ n ∈ standing b, (seq - n).toNat < JITTER_MAX_SLOTS := by
  have hfree : ∀ i, (b.slot i).full ≠ true := by
    intro i hi
    have hlt := lt_reach hi
    rw [h.reach_empty hempty] at hlt
    cases hlt
  rw [h.insert_stored_iff, standing, h.reach_empty hempty]
  refine and_congr_right fun _ => ?_
  cases b.based with
  | false => exact iff_of_true nofun nofun
  | true =>
    rw [if_pos rfl, forall_prop_of_true rfl, and_iff_left fun i hi => absurd hi (hfree i)]
    simp

theorem seq_zero (seq : UInt16) : seq + UInt16.ofNat 0 = seq := UInt16.add_zero seq

theorem seq_succ (seq : UInt16) (i : Nat) : seq + UInt16.ofNat (i + 1) = seq + 1 + UInt16.ofNat i := by
  rw [UInt16.ofNat_add, UInt16.add_comm (UInt16.ofNat i), UInt16.add_assoc]
  rfl

theorem feed_empty_iff (h : RingInv b) (hempty : b.fillCount = 0) (ps : List (Bytes × JitterPacketMeta)) :
    true ∈ b.feed seq ps ↔ ∃ i p, ps[i]? = some p ∧ p.1.length ≤ JITTER_SLOT_SIZE ∧
      ∀ n ∈ standing b, (seq + UInt16.ofNat i - n).toNat < JITTER_MAX_SLOTS := by
  induction ps generalizing b seq with
  | nil => exact iff_of_false not_mem_nil fun ⟨i, p, hp, _⟩ => by cases hp
  | cons p ps ih =>
    unfold JitterBuffer.feed
    rw [mem_cons]
    cases hstored : (b.insert seq p.1 p.2).2 with
    | true =>
      obtain ⟨hlen, hnear⟩ := (h.insert_empty_iff hempty).mp hstored
      refine iff_of_true (.inl rfl) ⟨0, p, rfl, hlen, ?_⟩
      rw [seq_zero]
      exact hnear
    | false =>
      obtain ⟨hinv, hempty', hstand⟩ := h.refused_drain hstored
      rw [ih hinv hempty', hstand, or_iff_right Bool.true_eq_false.mp]
      constructor
      · rintro ⟨i, q, hq, hlen, hnear⟩
        rw [← seq_succ] at hnear
        exact ⟨i + 1, q, hq, hlen, hnear⟩
      · rintro ⟨i, q, hq, hlen, hnear⟩
        cases i with
        | zero =>
          cases hq
          rw [seq_zero] at hnear
          rw [(h.insert_empty_iff hempty).mpr ⟨hlen, hnear⟩] at hstored
          cases hstored
        | succ i =>
          rw [seq_succ] at hnear
          exact ⟨i, q, hq, hlen, hnear⟩

theorem feed_take (ps : List (Bytes × JitterPacketMeta)) (k : Nat) : (b.feed seq ps).take k = b.feed seq (ps.take k) := by
  induction ps generalizing b seq k with
  | nil => rw [JitterBuffer.feed, List.take_nil, List.take_nil, JitterBuffer.feed]
  | cons p ps ih =>
    cases k with
    | zero => rfl
    | succ k =>
      rw [JitterBuffer.feed, take_succ_cons, take_succ_cons, JitterBuffer.feed, ih]

/-- One of the first packets of a stream comes into the window, once what was held is released. -/
def Resumes (b : JitterBuffer) (seq : UInt16) (ps : List (Bytes × JitterPacketMeta)) : Prop :=
  (∃ p, ps[0]? = some p ∧ p.1.length ≤ JITTER_SLOT_SIZE ∧ (b.based = true →
      (seq - b.nextSeq).toNat < JITTER_MAX_SLOTS ∧ ∀ i, (b.slot i).full = true → (b.slot i).seq ≠ seq)) ∨
  ∃ i p, 1 ≤ i ∧ i < JITTER_MAX_SLOTS ∧ ps[i]? = some p ∧ p.1.length ≤ JITTER_SLOT_SIZE ∧ (b.based = true →
    b.reach ≤ (seq - b.nextSeq).toNat + i ∧ (seq - b.nextSeq).toNat + i < b.reach + JITTER_MAX_SLOTS)

theorem near_standing_iff (h : RingInv b) {i : Nat} (hi : i < JITTER_MAX_SLOTS)
    (hahead : b.based = true → (seq - b.nextSeq).toNat < 2 ^ 15) :
    (∀ n ∈ standing b, (seq + UInt16.ofNat i - n).toNat < JITTER_MAX_SLOTS) ↔ (b.based = true →
      b.reach ≤ (seq - b.nextSeq).toNat + i ∧ (seq - b.nextSeq).toNat + i < b.reach + JITTER_MAX_SLOTS) := by
  rw [standing]
  cases hbased : b.based with
  | false => exact iff_of_true nofun nofun
  | true =>
    have hfar := hahead hbased
    have hreach := h.reach_le_slots
    have hlt := seq.toNat_lt
    have hltn := b.nextSeq.toNat_lt
    rw [if_pos rfl, forall_prop_of_true rfl]
    simp only [Option.mem_some_iff, forall_eq']
    unfold JITTER_MAX_SLOTS at hi hreach ⊢
    rw [UInt16.toNat_sub] at hfar ⊢
    rw [UInt16.toNat_sub, UInt16.toNat_add, UInt16.toNat_add, UInt16.toNat_ofNat', UInt16.toNat_ofNat']
    omega

theorem resumes_of_inv (h : RingInv b) (hahead : b.based = true → (seq - b.nextSeq).toNat < 2 ^ 15)
    (ps : List (Bytes × JitterPacketMeta)) : true ∈ (b.feed seq ps).take JITTER_MAX_SLOTS ↔ Resumes b seq ps := by
  rw [feed_take]
  cases ps with
  | nil =>
    refine iff_of_false not_mem_nil ?_
    rintro (⟨p, hp, -⟩ | ⟨i, p, -, -, hp, -⟩) <;> cases hp
  | cons p ps =>
    rw [show JITTER_MAX_SLOTS = 15 + 1 from rfl, take_succ_cons, JitterBuffer.feed, mem_cons]
    cases hstored : (b.insert seq p.1 p.2).2 with
    | true => exact iff_of_true (.inl rfl) (.inl ⟨p, rfl, h.insert_stored_iff.mp hstored⟩)
    | false =>
      obtain ⟨hinv, hempty, hstand⟩ := h.refused_drain hstored
      rw [feed_empty_iff hinv hempty, hstand, or_iff_right Bool.true_eq_false.mp, Resumes, or_iff_right]
      · constructor
        · rintro ⟨i, q, hq, hlen, hnear⟩
          rw [List.getElem?_take] at hq
          split at hq
          next hi =>
            have hi' : i + 1 < JITTER_MAX_SLOTS := Nat.succ_lt_succ hi
            rw [← seq_succ] at hnear
            exact ⟨i + 1, q, Nat.succ_pos i, hi', hq, hlen, (near_standing_iff h hi' hahead).mp hnear⟩
          · cases hq
        · rintro ⟨i, q, hpos, hi, hq, hlen, hnear⟩
          obtain ⟨j, rfl⟩ := Nat.exists_eq_succ_of_ne_zero (Nat.one_le_iff_ne_zero.mp hpos)
          refine ⟨j, q, ?_, hlen, ?_⟩
          · rw [List.getElem?_take, if_pos (Nat.lt_of_succ_lt_succ hi)]
            exact hq
          · rw [← seq_succ]
            exact (near_standing_iff h hi hahead).mpr hnear
      · rintro ⟨q, hq, hfits⟩
        cases hq
        rw [h.insert_stored_iff.mpr hfits] at hstored
        cases hstored

/-- Of a stream ahead of the next number, with the buffer drained behind each packet, one of the first is stored
exactly when one comes into the window. -/
theorem resumes_iff (ops : List Op) (seq : UInt16) (ps : List (Bytes × JitterPacketMeta))
    (hahead : let b := (machine.run {} ops).1; b.based = true → (seq - b.nextSeq).toNat < 2 ^ 15) :
    let b := (machine.run {} ops).1
    true ∈ (b.feed seq ps).take JITTER_MAX_SLOTS ↔ Resumes b seq ps :=
  resumes_of_inv (bufferInv_run ops).ring hahead ps

/-- Three packets behind a packet and a loss of one. -/
theorem resumes_after_loss :
    let b := (machine.run {} [.insert 7 [1] {}, .release]).1
    true ∈ (b.feed 9 [([1], {}), ([2], {}), ([3], {})]).take JITTER_MAX_SLOTS :=
  (resumes_iff [.insert 7 [1] {}, .release] 9 _ (fun _ => by decide)).mpr
    (.inl ⟨([1], {}), rfl, by decide, fun _ => ⟨by decide, fun i hi => by
      have hnone : ∀ i < 16, ((machine.run {} [.insert 7 [1] {}, .release]).1.slot i).full = false := by decide
      rw [hnone i (lt_of_full hi)] at hi
      cases hi⟩⟩)

/-- A burst of sixteen is lost behind packet 7: none of the sixteen packets behind it is stored. -/
theorem outage_refused :
    let b := (machine.run {} [.insert 7 [1] {}, .release]).1
    b.based = true ∧ ((24 : UInt16) - b.nextSeq).toNat < 2 ^ 15 ∧
      (b.feed 24 (List.replicate 16 ([1], {}))).take JITTER_MAX_SLOTS = List.replicate 16 false := by
  decide

end Feed

end Wave.Common.JitterCore
