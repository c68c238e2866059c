import Wave.Lib.Bytes
import Wave.Lib.Machine
import Wave.Lib.Table
import Mathlib.Data.List.Induction

/-! # The jitter buffer (`common/jitter_core.rs`)

`RingInv` says where a packet may lie in the ring, and so that a skip ends at one that is held. -/

namespace Wave.Common.JitterCore

open Lib

variable {payload : Bytes}

def JITTER_SLOT_SIZE : Nat := 1460
def JITTER_MAX_SLOTS : Nat := 16

structure JitterPacketMeta where
  timestamp : UInt32 := 0
  ssrc : UInt32 := 0
  payloadType : UInt8 := 0
  marker : Bool := false
  codec : UInt8 := 0

structure Slot where
  data : Bytes := []
  seq : UInt16 := 0
  full : Bool := false
  info : JitterPacketMeta := {}

structure Released where
  seq : UInt16
  info : JitterPacketMeta
  payload : Bytes
  lostBefore : Bool

structure JitterBuffer where
  slots : List Slot := List.replicate JITTER_MAX_SLOTS {}
  nextSeq : UInt16 := 0
  based : Bool := false
  fillCount : Nat := 0
  skipped : Bool := false
  packetsReceived : UInt32 := 0
  packetsLost : UInt32 := 0

namespace JitterBuffer

def slot (b : JitterBuffer) (i : Nat) : Slot := b.slots.getD i {}

/-- `self.slots[seq as usize % JITTER_MAX_SLOTS]`. -/
def index (seq : UInt16) : Nat := seq.toNat % JITTER_MAX_SLOTS

def reset (_ : JitterBuffer) : JitterBuffer := {}

/-- `insert`: the buffer afterwards, and whether the payload was stored. -/
def insert (b : JitterBuffer) (seq : UInt16) (payload : Bytes) (info : JitterPacketMeta) : JitterBuffer × Bool :=
  let b := { b with packetsReceived := b.packetsReceived + 1 }
  if payload.length > JITTER_SLOT_SIZE then (b, false)
  else
    let b := if b.based then b else { b with based := true, nextSeq := seq }
    if (seq - b.nextSeq).toNat ≥ JITTER_MAX_SLOTS then (b, false)
    else if (b.slot (index seq)).full then (b, false)
    else
      ({ b with
          slots := b.slots.set (index seq) { data := payload, seq := seq, full := true, info := info }
          fillCount := b.fillCount + 1 }, true)

def nextReady (b : JitterBuffer) : Bool :=
  b.based && (b.slot (index b.nextSeq)).full && (b.slot (index b.nextSeq)).seq == b.nextSeq

def waitingOnHole (b : JitterBuffer) : Bool := decide (b.fillCount > 0) && !b.nextReady

/-- The loop of `skip_hole`, with the turns it has left: the buffer afterwards and the sequences passed over. -/
def passHole : Nat → JitterBuffer → JitterBuffer × Nat
  | 0, b => (b, 0)
  | turns + 1, b =>
    if b.nextReady then (b, 0)
    else
      let r := passHole turns { b with nextSeq := b.nextSeq + 1 }
      (r.1, r.2 + 1)

def skipHole (b : JitterBuffer) : JitterBuffer × Nat :=
  if !b.waitingOnHole then (b, 0)
  else
    let r := passHole JITTER_MAX_SLOTS b
    ({ r.1 with packetsLost := r.1.packetsLost + UInt32.ofNat r.2, skipped := true }, r.2)

def peek (b : JitterBuffer) : Option Released :=
  if !b.nextReady then none
  else
    let t := b.slot (index b.nextSeq)
    some { seq := t.seq, info := t.info, payload := t.data, lostBefore := b.skipped }

def release (b : JitterBuffer) : JitterBuffer :=
  if !b.nextReady then b
  else
    { b with
      slots := b.slots.set (index b.nextSeq) { b.slot (index b.nextSeq) with full := false }
      nextSeq := b.nextSeq + 1
      fillCount := b.fillCount - 1
      skipped := false }

end JitterBuffer

inductive Op where
  | insert (seq : UInt16) (payload : Bytes) (info : JitterPacketMeta)
  | peek
  | release
  | skipHole
  | reset

inductive Out where
  | base (seq : UInt16)
  /-- `skip_hole` returned. -/
  | skipped (n : Nat)
  /-- A packet was released; `lost_before` as `peek` returned it. -/
  | released (seq : UInt16) (lostBefore : Bool)
  | reset
deriving DecidableEq

def outs (b : JitterBuffer) : Op → List Out
  | .insert seq payload _ => if !b.based && decide (payload.length ≤ JITTER_SLOT_SIZE) then [.base seq] else []
  | .peek => []
  | .release => (b.peek.map fun r => Out.released r.seq r.lostBefore).toList
  | .skipHole => [.skipped b.skipHole.2]
  | .reset => [.reset]

def next (b : JitterBuffer) : Op → JitterBuffer
  | .insert seq payload info => (b.insert seq payload info).1
  | .peek => b
  | .release => b.release
  | .skipHole => b.skipHole.1
  | .reset => b.reset

def machine : Machine JitterBuffer Op Out where
  step b op := (next b op, outs b op)

/-! ### The ring -/

structure RingInv (b : JitterBuffer) : Prop where
  length : b.slots.length = JITTER_MAX_SLOTS
  fill : b.fillCount = b.slots.countP Slot.full
  based : ∀ i, (b.slot i).full = true → b.based = true
  home : ∀ i, (b.slot i).full = true → JitterBuffer.index (b.slot i).seq = i
  ahead : ∀ i, (b.slot i).full = true → ((b.slot i).seq - b.nextSeq).toNat < JITTER_MAX_SLOTS

section Ring

variable {b : JitterBuffer} {i : Nat} {seq : UInt16}

theorem index_lt (seq : UInt16) : JitterBuffer.index seq < JITTER_MAX_SLOTS := Nat.mod_lt _ (by decide)

theorem slot_eq_getElem (hi : i < b.slots.length) : b.slot i = b.slots[i] := List.getD_eq_getElem _ _ hi

theorem lt_of_full (h : (b.slot i).full = true) : i < b.slots.length := by
  apply Table.lt_of_getD_ne (d := ({} : Slot))
  intro heq
  unfold JitterBuffer.slot at h
  rw [heq] at h
  cases h

theorem seq_of_index {a b next : UInt16} (ha : (a - next).toNat < JITTER_MAX_SLOTS)
    (hb : (b - next).toNat < JITTER_MAX_SLOTS) (hi : JitterBuffer.index a = JitterBuffer.index b) : a = b := by
  unfold JitterBuffer.index at hi
  rw [UInt16.toNat_sub] at ha hb
  unfold JITTER_MAX_SLOTS at ha hb hi
  have hlt := a.toNat_lt
  have hlt' := b.toNat_lt
  have hltn := next.toNat_lt
  apply UInt16.toNat_inj.mp
  omega

theorem slot_empty (i : Nat) : ({} : JitterBuffer).slot i = {} := by
  change (List.replicate JITTER_MAX_SLOTS ({} : Slot)).getD i {} = {}
  rw [List.getD_eq_getElem?_getD, List.getElem?_replicate]
  split <;> rfl

theorem RingInv.empty : RingInv {} := by
  have hnone : ∀ i, (({} : JitterBuffer).slot i).full ≠ true := by
    intro i hi
    rw [slot_empty] at hi
    cases hi
  exact ⟨rfl, rfl, fun i hi => absurd hi (hnone i), fun i hi => absurd hi (hnone i), fun i hi => absurd hi (hnone i)⟩

theorem RingInv.nextReady_iff (h : RingInv b) :
    b.nextReady = true ↔ ∃ i, (b.slot i).full = true ∧ (b.slot i).seq = b.nextSeq := by
  unfold JitterBuffer.nextReady
  rw [and_eq_true, and_eq_true, beq_iff_eq]
  constructor
  · rintro ⟨⟨_, hfull⟩, hseq⟩
    exact ⟨_, hfull, hseq⟩
  · rintro ⟨i, hfull, hseq⟩
    have hi : JitterBuffer.index b.nextSeq = i := by
      rw [← hseq]
      exact h.home i hfull
    rw [hi]
    exact ⟨⟨h.based i hfull, hfull⟩, hseq⟩

theorem RingInv.store (h : RingInv b) (hbased : b.based = true) (hahead : (seq - b.nextSeq).toNat < JITTER_MAX_SLOTS)
    (hfree : (b.slot (JitterBuffer.index seq)).full = false) (payload : Bytes) (info : JitterPacketMeta) :
    RingInv { b with
      slots := b.slots.set (JitterBuffer.index seq) { data := payload, seq := seq, full := true, info := info }
      fillCount := b.fillCount + 1 } := by
  have hlt : JitterBuffer.index seq < b.slots.length := by
    rw [h.length]
    exact index_lt seq
  have hcases := Table.getD_set_cases b.slots (JitterBuffer.index seq)
  refine ⟨by rw [length_set]; exact h.length, ?_, fun _ _ => hbased, ?_, ?_⟩
  · rw [List.countP_set hlt, h.fill]
    rw [slot_eq_getElem hlt] at hfree
    simp [hfree]
  · intro i hi
    obtain ⟨rfl, hslot⟩ | hslot := hcases i { data := payload, seq := seq, full := true, info := info } {}
    · unfold JitterBuffer.slot
      rw [hslot]
    · unfold JitterBuffer.slot at hi ⊢
      rw [hslot] at hi ⊢
      exact h.home i hi
  · intro i hi
    obtain ⟨rfl, hslot⟩ | hslot := hcases i { data := payload, seq := seq, full := true, info := info } {}
    · unfold JitterBuffer.slot
      rw [hslot]
      exact hahead
    · unfold JitterBuffer.slot at hi ⊢
      rw [hslot] at hi ⊢
      exact h.ahead i hi

theorem ahead_step {seq next : UInt16} (hne : seq ≠ next) : (seq - (next + 1)).toNat + 1 = (seq - next).toNat := by
  have hne' : seq.toNat ≠ next.toNat := fun h => hne (UInt16.toNat_inj.mp h)
  have hlt := seq.toNat_lt
  have hltn := next.toNat_lt
  rw [UInt16.toNat_sub, UInt16.toNat_sub, UInt16.toNat_add, show (1 : UInt16).toNat = 1 from rfl]
  omega

theorem RingInv.release (h : RingInv b) : RingInv b.release := by
  unfold JitterBuffer.release
  split
  · exact h
  next hready =>
    rw [Bool.not_eq_true', Bool.not_eq_false, JitterBuffer.nextReady, and_eq_true, and_eq_true] at hready
    obtain ⟨⟨hbased, hfull⟩, _⟩ := hready
    have hlt := lt_of_full hfull
    have hcases := Table.getD_set_cases b.slots (JitterBuffer.index b.nextSeq)
    have hother : ∀ i, ((b.slots.set (JitterBuffer.index b.nextSeq)
        { b.slot (JitterBuffer.index b.nextSeq) with full := false }).getD i {}).full = true →
        i ≠ JitterBuffer.index b.nextSeq ∧ (b.slots.set (JitterBuffer.index b.nextSeq)
          { b.slot (JitterBuffer.index b.nextSeq) with full := false }).getD i {} = b.slot i := by
      intro i hi
      by_cases hne : i = JitterBuffer.index b.nextSeq
      · subst hne
        rw [Table.getD_set_self hlt] at hi
        cases hi
      · exact ⟨hne, Table.getD_set_ne hne⟩
    refine ⟨by rw [length_set]; exact h.length, ?_, fun _ _ => hbased, ?_, ?_⟩
    · have hpos : 0 < b.slots.countP Slot.full :=
        List.countP_pos_iff.mpr ⟨_, getElem_mem hlt, by rw [← slot_eq_getElem hlt]; exact hfull⟩
      rw [List.countP_set hlt, ← slot_eq_getElem hlt, if_pos hfull, h.fill]
      rfl
    · intro i hi
      obtain ⟨_, hslot⟩ := hother i hi
      change JitterBuffer.index ((b.slots.set _ _).getD i {}).seq = i
      change ((b.slots.set _ _).getD i {}).full = true at hi
      rw [hslot] at hi ⊢
      exact h.home i hi
    · intro i hi
      obtain ⟨hne, hslot⟩ := hother i hi
      change (((b.slots.set _ _).getD i {}).seq - (b.nextSeq + 1)).toNat < _
      change ((b.slots.set _ _).getD i {}).full = true at hi
      rw [hslot] at hi ⊢
      have hahead := h.ahead i hi
      have hseq : (b.slot i).seq ≠ b.nextSeq := by
        intro heq
        rw [← heq] at hne
        exact hne (h.home i hi).symm
      have hstep := ahead_step hseq
      omega

theorem RingInv.pass (h : RingInv b) (hready : b.nextReady = false) :
    RingInv { b with nextSeq := b.nextSeq + 1 } ∧
      ∀ i, (b.slot i).full = true → ((b.slot i).seq - (b.nextSeq + 1)).toNat + 1 = ((b.slot i).seq - b.nextSeq).toNat := by
  have hne : ∀ i, (b.slot i).full = true → (b.slot i).seq ≠ b.nextSeq := by
    intro i hi heq
    rw [h.nextReady_iff.mpr ⟨i, hi, heq⟩] at hready
    cases hready
  refine ⟨⟨h.length, h.fill, h.based, h.home, ?_⟩, fun i hi => ahead_step (hne i hi)⟩
  intro i hi
  have hahead := h.ahead i hi
  have hstep := ahead_step (hne i hi)
  change ((b.slot i).seq - (b.nextSeq + 1)).toNat < _
  omega

theorem RingInv.passHole (h : RingInv b) {turns : Nat} {i : Nat} (hi : (b.slot i).full = true)
    (hturns : ((b.slot i).seq - b.nextSeq).toNat < turns) :
    ∃ n, JitterBuffer.passHole turns b = ({ b with nextSeq := b.nextSeq + UInt16.ofNat n }, n) ∧ n < turns ∧
      RingInv { b with nextSeq := b.nextSeq + UInt16.ofNat n } ∧
      ({ b with nextSeq := b.nextSeq + UInt16.ofNat n } : JitterBuffer).nextReady = true ∧
      (b.nextReady = false → 0 < n) := by
  induction turns generalizing b with
  | zero => exact absurd hturns (Nat.not_lt_zero _)
  | succ turns ih =>
    unfold JitterBuffer.passHole
    cases hready : b.nextReady with
    | true => exact ⟨0, by simp, Nat.succ_pos _, by simpa using h, by simpa using hready, by simp⟩
    | false =>
      obtain ⟨hpass, hstep⟩ := h.pass hready
      have hstep := hstep i hi
      obtain ⟨n, hn, hlt, hinv, hnext, _⟩ := ih hpass hi (by change ((b.slot i).seq - (b.nextSeq + 1)).toNat < _; omega)
      have hadd : b.nextSeq + 1 + UInt16.ofNat n = b.nextSeq + UInt16.ofNat (n + 1) := by
        rw [UInt16.ofNat_add, UInt16.add_assoc, UInt16.add_comm 1]
        rfl
      dsimp only at hn hinv hnext
      rw [hadd] at hn hinv hnext
      refine ⟨n + 1, ?_, by omega, hinv, hnext, fun _ => Nat.succ_pos n⟩
      rw [if_neg (by decide), hn]

theorem RingInv.exists_full (h : RingInv b) (hpos : 0 < b.fillCount) : ∃ i, (b.slot i).full = true := by
  rw [h.fill, List.countP_pos_iff] at hpos
  obtain ⟨t, ht, hfull⟩ := hpos
  obtain ⟨i, hlt, rfl⟩ := mem_iff_getElem.mp ht
  exact ⟨i, by rw [slot_eq_getElem hlt]; exact hfull⟩

theorem RingInv.skipHole_eq (h : RingInv b) (hwait : b.waitingOnHole = true) :
    ∃ n, 0 < n ∧ n < JITTER_MAX_SLOTS ∧ b.skipHole = ({ b with
        nextSeq := b.nextSeq + UInt16.ofNat n, packetsLost := b.packetsLost + UInt32.ofNat n, skipped := true }, n) ∧
      RingInv b.skipHole.1 ∧ b.skipHole.1.nextReady = true := by
  have hw := hwait
  rw [JitterBuffer.waitingOnHole, and_eq_true, decide_eq_true_iff, Bool.not_eq_true'] at hw
  obtain ⟨i, hi⟩ := h.exists_full hw.1
  obtain ⟨n, hn, hlt, hinv, hnext, hpos⟩ := h.passHole hi (h.ahead i hi)
  have hskip : b.skipHole = ({ b with
      nextSeq := b.nextSeq + UInt16.ofNat n, packetsLost := b.packetsLost + UInt32.ofNat n, skipped := true }, n) := by
    rw [JitterBuffer.skipHole, hwait, hn]
    rfl
  refine ⟨n, hpos hw.2, hlt, hskip, ?_, ?_⟩
  · rw [hskip]
    exact ⟨hinv.length, hinv.fill, hinv.based, hinv.home, hinv.ahead⟩
  · rw [hskip]
    exact hnext

theorem RingInv.skipHole (h : RingInv b) (hwait : b.waitingOnHole = true) :
    ∃ n, b.skipHole.2 = n ∧ 0 < n ∧ n < JITTER_MAX_SLOTS ∧ RingInv b.skipHole.1 ∧ b.skipHole.1.nextReady = true ∧
      b.skipHole.1.nextSeq = b.nextSeq + UInt16.ofNat n ∧ b.skipHole.1.based = b.based ∧ b.skipHole.1.skipped = true := by
  obtain ⟨n, hpos, hlt, hskip, hinv, hnext⟩ := h.skipHole_eq hwait
  rw [hskip] at hinv hnext ⊢
  exact ⟨n, rfl, hpos, hlt, hinv, hnext, rfl, rfl, rfl⟩

theorem skipHole_of_not_waiting (hwait : b.waitingOnHole = false) : b.skipHole = (b, 0) := by
  rw [JitterBuffer.skipHole, hwait]
  rfl

theorem insert_oversize (hlen : payload.length > JITTER_SLOT_SIZE) (seq : UInt16) (info : JitterPacketMeta) :
    b.insert seq payload info = ({ b with packetsReceived := b.packetsReceived + 1 }, false) := by
  rw [JitterBuffer.insert, if_pos hlen]

def opened (b : JitterBuffer) (seq : UInt16) : JitterBuffer :=
  if b.based then { b with packetsReceived := b.packetsReceived + 1 }
  else { b with packetsReceived := b.packetsReceived + 1, based := true, nextSeq := seq }

theorem opened_spec (b : JitterBuffer) (seq : UInt16) :
    (opened b seq).slots = b.slots ∧ (opened b seq).based = true ∧ (opened b seq).skipped = b.skipped ∧
      (opened b seq).fillCount = b.fillCount ∧
      (opened b seq).nextSeq = if b.based then b.nextSeq else seq := by
  unfold opened
  cases hbased : b.based with
  | false => exact ⟨rfl, rfl, rfl, rfl, rfl⟩
  | true => exact ⟨rfl, rfl, rfl, rfl, rfl⟩

theorem RingInv.rebased (h : RingInv b) (seq : UInt16) : RingInv (opened b seq) := by
  obtain ⟨hslots, hbased, _, hfill, hnext⟩ := opened_spec b seq
  have hslot : ∀ i, (opened b seq).slot i = b.slot i := fun i => by
    rw [JitterBuffer.slot, JitterBuffer.slot, hslots]
  refine ⟨by rw [hslots]; exact h.length, by rw [hslots, hfill]; exact h.fill, fun _ _ => hbased, ?_, ?_⟩
  · intro i hi
    rw [hslot] at hi ⊢
    exact h.home i hi
  · intro i hi
    rw [hslot] at hi ⊢
    rw [hnext, if_pos (h.based i hi)]
    exact h.ahead i hi

theorem insert_opened (hlen : ¬payload.length > JITTER_SLOT_SIZE) (seq : UInt16) (info : JitterPacketMeta) :
    b.insert seq payload info =
      if (seq - (opened b seq).nextSeq).toNat ≥ JITTER_MAX_SLOTS then (opened b seq, false)
      else if (b.slot (JitterBuffer.index seq)).full then (opened b seq, false)
      else ({ opened b seq with
        slots := b.slots.set (JitterBuffer.index seq) { data := payload, seq := seq, full := true, info := info }
        fillCount := b.fillCount + 1 }, true) := by
  rw [JitterBuffer.insert, if_neg hlen]
  unfold opened
  cases b.based <;> rfl

theorem RingInv.insert_fits (h : RingInv b) (hlen : ¬payload.length > JITTER_SLOT_SIZE)
    (seq : UInt16) (info : JitterPacketMeta) :
    RingInv (b.insert seq payload info).1 ∧
      (b.insert seq payload info).1.nextSeq = (opened b seq).nextSeq ∧
      (b.insert seq payload info).1.based = true ∧ (b.insert seq payload info).1.skipped = b.skipped ∧
      ((b.insert seq payload info).2 = false → (seq - (opened b seq).nextSeq).toNat < JITTER_MAX_SLOTS →
        ∃ i, (b.slot i).full = true ∧ (b.slot i).seq = seq) ∧
      ((b.insert seq payload info).2 = true → ∃ i, ((b.insert seq payload info).1.slot i).full = true ∧
        ((b.insert seq payload info).1.slot i).seq = seq) ∧
      ∀ i, (b.slot i).full = true → (b.insert seq payload info).1.slot i = b.slot i := by
  have hopen := h.rebased seq
  obtain ⟨hslots, hbased, hskipped, hfill, _⟩ := opened_spec b seq
  have hslot : ∀ i, (opened b seq).slot i = b.slot i := fun i => by
    rw [JitterBuffer.slot, JitterBuffer.slot, hslots]
  rw [insert_opened hlen]
  by_cases hfar : (seq - (opened b seq).nextSeq).toNat ≥ JITTER_MAX_SLOTS
  · rw [if_pos hfar]
    exact ⟨hopen, rfl, hbased, hskipped, fun _ hnear => absurd hfar (Nat.not_le.mpr hnear), nofun, fun i _ => hslot i⟩
  · rw [if_neg hfar]
    cases hfull : (b.slot (JitterBuffer.index seq)).full with
    | true =>
      refine ⟨hopen, rfl, hbased, hskipped, fun _ hnear => ⟨_, hfull, ?_⟩, nofun, fun i _ => hslot i⟩
      have hahead := hopen.ahead _ ((congrArg Slot.full (hslot _)).trans hfull)
      rw [hslot] at hahead
      exact seq_of_index hahead hnear (h.home _ hfull)
    | false =>
      have hstore := hopen.store hbased (Nat.lt_of_not_le hfar) (by rw [hslot]; exact hfull) payload info
      rw [hslots, hfill] at hstore
      have hlt : JitterBuffer.index seq < b.slots.length := by
        rw [h.length]
        exact index_lt seq
      refine ⟨hstore, rfl, hbased, hskipped, nofun, fun _ => ⟨JitterBuffer.index seq, ?_, ?_⟩, ?_⟩
      · change ((b.slots.set _ _).getD _ {}).full = true
        rw [Table.getD_set_self hlt]
      · change ((b.slots.set _ _).getD _ {}).seq = seq
        rw [Table.getD_set_self hlt]
      · intro i hi
        apply Table.getD_set_ne
        rintro rfl
        rw [hi] at hfull
        cases hfull

end Ring

/-! ### The order of releases -/

def skips (os : List Out) : List Nat :=
  os.filterMap fun o =>
    match o with
    | .skipped n => if n = 0 then none else some n
    | _ => none

def OnlySkips (os : List Out) : Prop := ∀ o ∈ os, ∃ n, o = .skipped n

structure InOrder (log : List Out) : Prop where
  once : ∀ pre s mid s' post, log = pre ++ Out.base s :: (mid ++ Out.base s' :: post) → Out.reset ∈ mid
  behind : ∀ pre seq lost post, log = pre ++ Out.released seq lost :: post →
    ∃ before o mid, pre = before ++ o :: mid ∧ OnlySkips mid ∧ ((∃ s, o = .base s) ∨ ∃ s l, o = .released s l)
  first : ∀ pre s mid seq lost post, log = pre ++ Out.base s :: (mid ++ Out.released seq lost :: post) → OnlySkips mid →
    seq = s ∧ lost = false ∧ skips mid = []
  /-- The next is one further, and as many more as the skip in between returned. -/
  follows : ∀ pre s l mid seq lost post, log = pre ++ Out.released s l :: (mid ++ Out.released seq lost :: post) →
    OnlySkips mid → (skips mid = [] ∧ seq = s + 1 ∧ lost = false) ∨
      ∃ n, 0 < n ∧ n < JITTER_MAX_SLOTS ∧ skips mid = [n] ∧ seq = s + 1 + UInt16.ofNat n ∧ lost = true

/-- A history's base since the last reset, the next number behind it, and the skips since the last release. -/
structure Trail where
  base : Option UInt16 := none
  number : Nat := 0
  gap : List Nat := []

def Trail.after (t : Trail) : Out → Trail
  | .base s => { base := some s, number := 0, gap := [] }
  | .skipped n => if n = 0 then t else { t with number := t.number + n, gap := t.gap ++ [n] }
  | .released _ _ => { t with number := t.number + 1, gap := [] }
  | .reset => {}

def trail (log : List Out) : Trail := log.foldl Trail.after {}

structure Ordered (log : List Out) : Prop where
  once : ∀ pre s post, log = pre ++ Out.base s :: post → (trail pre).base = none
  released : ∀ pre seq lost post, log = pre ++ Out.released seq lost :: post →
    ∃ base, (trail pre).base = some base ∧ seq = base + UInt16.ofNat (trail pre).number ∧
      (((trail pre).gap = [] ∧ lost = false) ∨
        ∃ n, 0 < n ∧ n < JITTER_MAX_SLOTS ∧ (trail pre).gap = [n] ∧ n < (trail pre).number ∧ lost = true)

section Trail

variable {log mid : List Out}

theorem trail_concat (log : List Out) (o : Out) : trail (log ++ [o]) = (trail log).after o := by
  simp [trail]

theorem trail_append_cons (log : List Out) (o : Out) (mid : List Out) :
    trail (log ++ o :: mid) = mid.foldl Trail.after ((trail log).after o) := by
  simp [trail]

theorem foldl_skips (hmid : OnlySkips mid) (t : Trail) :
    mid.foldl Trail.after t =
      { base := t.base, number := t.number + (skips mid).sum, gap := t.gap ++ skips mid } := by
  induction mid generalizing t with
  | nil => simp [skips]
  | cons o mid ih =>
    obtain ⟨n, rfl⟩ := hmid o (by simp)
    rw [foldl_cons, ih (fun x hx => hmid x (by simp [hx]))]
    unfold Trail.after skips
    rw [List.filterMap_cons]
    by_cases hn : n = 0
    · simp [hn]
    · simp [hn, Nat.add_assoc]

theorem base_of_not_reset (log : List Out) (s : UInt16) (hmid : Out.reset ∉ mid) :
    (trail (log ++ Out.base s :: mid)).base ≠ none := by
  induction mid using List.reverseRecOn with
  | nil =>
    rw [trail_concat]
    nofun
  | append_singleton mid o ih =>
    have hih := ih fun h => hmid (by simp [h])
    rw [← cons_append, ← append_assoc, trail_concat]
    cases o with
    | base s' => nofun
    | skipped n =>
      unfold Trail.after
      dsimp only
      split <;> exact hih
    | released s' l => exact hih
    | reset => exact absurd (by simp) hmid

theorem behind_of_base (h : (trail log).base ≠ none) :
    ∃ before o mid, log = before ++ o :: mid ∧ OnlySkips mid ∧ ((∃ s, o = .base s) ∨ ∃ s l, o = .released s l) := by
  induction log using List.reverseRecOn with
  | nil => exact absurd rfl h
  | append_singleton log o ih =>
    rw [trail_concat] at h
    cases o with
    | base s => exact ⟨log, _, [], rfl, by simp [OnlySkips], Or.inl ⟨s, rfl⟩⟩
    | released s l => exact ⟨log, _, [], rfl, by simp [OnlySkips], Or.inr ⟨s, l, rfl⟩⟩
    | reset => exact absurd rfl h
    | skipped n =>
      have hbase : (trail log).base ≠ none := by
        unfold Trail.after at h
        dsimp only at h
        split at h <;> exact h
      obtain ⟨before, o, mid, rfl, hmid, ho⟩ := ih hbase
      refine ⟨before, o, mid ++ [Out.skipped n], by simp, ?_, ho⟩
      intro x hx
      obtain hx | hx := mem_append.mp hx
      · exact hmid x hx
      · exact ⟨n, mem_singleton.mp hx⟩

theorem Ordered.inOrder (h : Ordered log) : InOrder log where
  once pre s mid s' post hlog := by
    by_contra hmid
    refine base_of_not_reset pre s hmid (h.once (pre ++ Out.base s :: mid) s' post ?_)
    rw [hlog]
    simp
  behind pre seq lost post hlog := by
    obtain ⟨base, hbase, _⟩ := h.released pre seq lost post hlog
    exact behind_of_base (by rw [hbase]; nofun)
  first pre s mid seq lost post hlog hmid := by
    obtain ⟨base, hbase, hseq, hgap⟩ := h.released (pre ++ Out.base s :: mid) seq lost post (by rw [hlog]; simp)
    rw [trail_append_cons, foldl_skips hmid] at hbase hseq hgap
    dsimp only [Trail.after] at hbase hseq hgap
    cases hbase
    rw [nil_append, Nat.zero_add] at *
    obtain ⟨hnil, hlost⟩ | ⟨n, hpos, _, hone, hlt, _⟩ := hgap
    · rw [hnil] at hseq
      exact ⟨by rw [hseq]; simp, hlost, hnil⟩
    · rw [hone] at hlt
      simp at hlt
  follows pre s l mid seq lost post hlog hmid := by
    obtain ⟨base₀, hbase₀, hseq₀, _⟩ := h.released pre s l _ hlog
    obtain ⟨base, hbase, hseq, hgap⟩ := h.released (pre ++ Out.released s l :: mid) seq lost post (by rw [hlog]; simp)
    rw [trail_append_cons, foldl_skips hmid] at hbase hseq hgap
    dsimp only [Trail.after] at hbase hseq hgap
    rw [hbase₀] at hbase
    cases hbase
    rw [nil_append] at hgap
    have hstep : seq = s + 1 + UInt16.ofNat (skips mid).sum := by
      rw [hseq, hseq₀, UInt16.ofNat_add, UInt16.ofNat_add, UInt16.add_assoc, UInt16.add_assoc, UInt16.add_assoc]
      rfl
    obtain ⟨hnil, hlost⟩ | ⟨n, hpos, hn, hone, _, hlost⟩ := hgap
    · rw [hnil] at hstep
      exact Or.inl ⟨hnil, by rw [hstep]; simp, hlost⟩
    · rw [hone, List.sum_singleton] at hstep
      exact Or.inr ⟨n, hpos, hn, hone, hstep, hlost⟩

end Trail

/-! ### Runs of the buffer -/

structure Stands (b : JitterBuffer) (t : Trail) : Prop where
  based : b.based = t.base.isSome
  next : ∀ base, t.base = some base → b.nextSeq = base + UInt16.ofNat t.number
  gap : (t.gap = [] ∧ b.skipped = false) ∨
    ∃ n, 0 < n ∧ n < JITTER_MAX_SLOTS ∧ t.gap = [n] ∧ n < t.number ∧ b.skipped = true ∧ b.nextReady = true
  first : t.base ≠ none → t.number = 0 → b.nextReady = true
  unbased : t.base = none → t.gap = []

structure BufferInv (b : JitterBuffer) (log : List Out) : Prop where
  ring : RingInv b
  stands : Stands b (trail log)
  ordered : Ordered log

section Run

variable {b : JitterBuffer} {log : List Out}

theorem Ordered.concat (h : Ordered log) {o : Out} (hbase : ∀ s, o = .base s → (trail log).base = none)
    (hrel : ∀ seq lost, o = .released seq lost →
      ∃ base, (trail log).base = some base ∧ seq = base + UInt16.ofNat (trail log).number ∧
        (((trail log).gap = [] ∧ lost = false) ∨
          ∃ n, 0 < n ∧ n < JITTER_MAX_SLOTS ∧ (trail log).gap = [n] ∧ n < (trail log).number ∧ lost = true)) :
    Ordered (log ++ [o]) := by
  have hsplit : ∀ pre x post, log ++ [o] = pre ++ x :: post → (pre = log ∧ x = o) ∨ ∃ post', log = pre ++ x :: post' := by
    intro pre x post heq
    induction post using List.reverseRecOn with
    | nil =>
      obtain ⟨rfl, hx⟩ := List.append_inj' heq rfl
      exact Or.inl ⟨rfl, by simpa using hx.symm⟩
    | append_singleton post y _ =>
      rw [← cons_append, ← append_assoc] at heq
      exact Or.inr ⟨post, (List.append_inj' heq rfl).1⟩
  constructor
  · intro pre s post heq
    obtain ⟨rfl, ho⟩ | ⟨post', hlog⟩ := hsplit _ _ _ heq
    · exact hbase s ho.symm
    · exact h.once pre s post' hlog
  · intro pre seq lost post heq
    obtain ⟨rfl, ho⟩ | ⟨post', hlog⟩ := hsplit _ _ _ heq
    · exact hrel seq lost ho.symm
    · exact h.released pre seq lost post' hlog

theorem outs_insert (b : JitterBuffer) (seq : UInt16) (payload : Bytes) (info : JitterPacketMeta) :
    outs b (.insert seq payload info) =
      if b.based = false ∧ ¬payload.length > JITTER_SLOT_SIZE then [.base seq] else [] := by
  unfold outs
  cases b.based <;> simp

theorem BufferInv.insert (h : BufferInv b log) (seq : UInt16) (payload : Bytes) (info : JitterPacketMeta) :
    BufferInv (b.insert seq payload info).1 (log ++ outs b (.insert seq payload info)) := by
  rw [outs_insert]
  by_cases hlen : payload.length > JITTER_SLOT_SIZE
  · rw [if_neg (fun hc => hc.2 hlen), append_nil, insert_oversize hlen]
    have hs := h.stands
    have hr := h.ring
    exact ⟨⟨hr.length, hr.fill, hr.based, hr.home, hr.ahead⟩, ⟨hs.based, hs.next, hs.gap, hs.first, hs.unbased⟩,
      h.ordered⟩
  · obtain ⟨hring, hnext, hbased, hskipped, _, hstored, hkept⟩ := h.ring.insert_fits hlen seq info
    obtain ⟨_, _, _, _, hopen⟩ := opened_spec b seq
    rw [hopen] at hnext
    cases hb : b.based with
    | true =>
      rw [if_neg (by simp), append_nil]
      rw [hb, if_pos rfl] at hnext
      have hready : b.nextReady = true → (b.insert seq payload info).1.nextReady = true := by
        intro hr
        obtain ⟨i, hfull, hseq⟩ := h.ring.nextReady_iff.mp hr
        refine hring.nextReady_iff.mpr ⟨i, ?_, ?_⟩
        · rw [hkept i hfull]
          exact hfull
        · rw [hkept i hfull, hnext]
          exact hseq
      refine ⟨hring, ⟨?_, ?_, ?_, ?_, h.stands.unbased⟩, h.ordered⟩
      · rw [hbased, ← h.stands.based, hb]
      · intro base hbase
        rw [hnext]
        exact h.stands.next base hbase
      · obtain ⟨hnil, hs⟩ | ⟨n, hpos, hn, hone, hlt, hs, hr⟩ := h.stands.gap
        · exact Or.inl ⟨hnil, by rw [hskipped]; exact hs⟩
        · exact Or.inr ⟨n, hpos, hn, hone, hlt, by rw [hskipped]; exact hs, hready hr⟩
      · exact fun hbase hzero => hready (h.stands.first hbase hzero)
    | false =>
      have hnone : (trail log).base = none := by
        have := h.stands.based
        rw [hb] at this
        exact Option.not_isSome_iff_eq_none.mp (by rw [← this]; decide)
      have hempty : ∀ i, (b.slot i).full ≠ true := by
        intro i hi
        rw [h.ring.based i hi] at hb
        cases hb
      have hverdict : (b.insert seq payload info).2 = true := by
        rw [insert_opened hlen, hopen, hb, if_neg false_ne_true, UInt16.sub_self, if_neg (by decide),
          if_neg (hempty _)]
      rw [if_pos ⟨rfl, hlen⟩]
      rw [hb, if_neg false_ne_true] at hnext
      have hready : (b.insert seq payload info).1.nextReady = true := by
        obtain ⟨i, hfull, hseq⟩ := hstored hverdict
        exact hring.nextReady_iff.mpr ⟨i, hfull, by rw [hseq, hnext]⟩
      refine ⟨hring, ?_, h.ordered.concat (fun _ _ => hnone) nofun⟩
      rw [trail_concat]
      refine ⟨hbased, ?_, Or.inl ⟨rfl, ?_⟩, fun _ _ => hready, nofun⟩
      · intro base hbase
        cases hbase
        rw [hnext]
        simp [Trail.after]
      · rw [hskipped]
        obtain ⟨_, hs⟩ | ⟨n, _, _, hone, _, _, _⟩ := h.stands.gap
        · exact hs
        · rw [h.stands.unbased hnone] at hone
          cases hone

theorem BufferInv.release (h : BufferInv b log) : BufferInv b.release (log ++ outs b .release) := by
  have hring := h.ring.release
  cases hready : b.nextReady with
  | false =>
    have hsame : b.release = b := by rw [JitterBuffer.release, hready]; rfl
    have hout : outs b .release = [] := by rw [outs, JitterBuffer.peek, hready]; rfl
    rw [hsame, hout, append_nil]
    exact h
  | true =>
    have hr := hready
    rw [JitterBuffer.nextReady, and_eq_true, and_eq_true, beq_iff_eq] at hr
    obtain ⟨⟨hbased, _⟩, hseq⟩ := hr
    have hout : outs b .release = [.released b.nextSeq b.skipped] := by
      rw [outs, JitterBuffer.peek, hready]
      change [Out.released (b.slot (JitterBuffer.index b.nextSeq)).seq b.skipped] = _
      rw [hseq]
    have hrel : b.release.nextSeq = b.nextSeq + 1 ∧ b.release.based = true ∧ b.release.skipped = false := by
      rw [JitterBuffer.release, hready]
      exact ⟨rfl, hbased, rfl⟩
    obtain ⟨base, hbase⟩ : ∃ base, (trail log).base = some base :=
      isSome_iff_exists.mp (by rw [← h.stands.based]; exact hbased)
    rw [hout]
    refine ⟨hring, ?_, h.ordered.concat nofun ?_⟩
    · rw [trail_concat]
      refine ⟨?_, ?_, Or.inl ⟨rfl, hrel.2.2⟩, ?_, fun _ => rfl⟩
      · rw [hrel.2.1]
        change true = (trail log).base.isSome
        rw [hbase]
        rfl
      · intro base' hbase'
        rw [hrel.1, h.stands.next base' hbase', UInt16.add_assoc]
        change _ = base' + UInt16.ofNat ((trail log).number + 1)
        rw [UInt16.ofNat_add]
        rfl
      · exact fun _ hzero => absurd hzero (Nat.succ_ne_zero _)
    · intro seq lost heq
      cases heq
      refine ⟨base, hbase, h.stands.next base hbase, ?_⟩
      obtain ⟨hnil, hs⟩ | ⟨n, hpos, hn, hone, hlt, hs, _⟩ := h.stands.gap
      · exact Or.inl ⟨hnil, hs⟩
      · exact Or.inr ⟨n, hpos, hn, hone, hlt, hs⟩

theorem BufferInv.skipHole (h : BufferInv b log) : BufferInv b.skipHole.1 (log ++ outs b .skipHole) := by
  have hord : ∀ n, Ordered (log ++ [Out.skipped n]) := fun n => h.ordered.concat nofun nofun
  unfold outs
  cases hwait : b.waitingOnHole with
  | false =>
    rw [skipHole_of_not_waiting hwait]
    refine ⟨h.ring, ?_, hord 0⟩
    rw [trail_concat]
    exact h.stands
  | true =>
    obtain ⟨n, hn, hpos, hlt, hring, hready, hnext, hbased, hskipped⟩ := h.ring.skipHole hwait
    have hnot : b.nextReady = false := by
      rw [JitterBuffer.waitingOnHole, and_eq_true, Bool.not_eq_true'] at hwait
      exact hwait.2
    rw [hn]
    refine ⟨hring, ?_, hord n⟩
    have hafter : (trail log).after (.skipped n) =
        { trail log with number := (trail log).number + n, gap := (trail log).gap ++ [n] } :=
      if_neg (by omega)
    -- something is held, so that there is a base
    have hbase : (trail log).base ≠ none := by
      intro hnone
      have hb : b.based = false := by rw [h.stands.based, hnone]; rfl
      rw [JitterBuffer.waitingOnHole, and_eq_true, decide_eq_true_iff] at hwait
      obtain ⟨i, hi⟩ := h.ring.exists_full hwait.1
      rw [h.ring.based i hi] at hb
      cases hb
    rw [trail_concat, hafter]
    refine ⟨?_, ?_, Or.inr ⟨n, hpos, hlt, ?_, ?_, hskipped, hready⟩, fun _ _ => hready, fun hnone => absurd hnone hbase⟩
    · rw [hbased]
      exact h.stands.based
    · intro base hb
      rw [hnext, h.stands.next base hb, UInt16.add_assoc]
      change _ = base + UInt16.ofNat ((trail log).number + n)
      rw [UInt16.ofNat_add]
    · obtain ⟨hnil, _⟩ | ⟨_, _, _, _, _, _, hr⟩ := h.stands.gap
      · change (trail log).gap ++ [n] = [n]
        rw [hnil]
        rfl
      · rw [hr] at hnot
        cases hnot
    · change n < (trail log).number + n
      have hnum : (trail log).number ≠ 0 := by
        intro hzero
        rw [h.stands.first hbase hzero] at hnot
        cases hnot
      omega

theorem BufferInv.next (h : BufferInv b log) (op : Op) : BufferInv (next b op) (log ++ outs b op) := by
  cases op with
  | insert seq payload info => exact h.insert seq payload info
  | peek =>
    unfold outs
    rw [append_nil]
    exact h
  | release => exact h.release
  | skipHole => exact h.skipHole
  | reset =>
    refine ⟨RingInv.empty, ?_, h.ordered.concat nofun nofun⟩
    change Stands {} (trail (log ++ [Out.reset]))
    rw [trail_concat]
    exact ⟨rfl, nofun, Or.inl ⟨rfl, rfl⟩, fun hb => absurd rfl hb, fun _ => rfl⟩

theorem bufferInv_run (ops : List Op) : BufferInv (machine.run {} ops).1 (machine.run {} ops).2 := by
  refine machine.run_log_invariant (P := fun _ _ => True) (I := BufferInv) (l := []) (fun _ _ op h _ => h.next op) ?_
    (machine.along_of_forall (fun _ _ => trivial) _ _)
  exact ⟨RingInv.empty, ⟨rfl, nofun, Or.inl ⟨rfl, rfl⟩, fun hb => absurd rfl hb, fun _ => rfl⟩,
    ⟨fun pre _ _ h => by simp at h, fun pre _ _ _ h => by simp at h⟩⟩

/-- In every state of a buffer: the counter counts the full slots, a packet lies in its slot ahead of the next number,
one in the window is refused only for its length or as held, a skip ends, and releases are in order. -/
theorem jitter_buffer (ops : List Op) :
    let b := (machine.run {} ops).1
    b.fillCount = b.slots.countP Slot.full ∧
    (∀ i, (b.slot i).full = true → (b.slot i).seq.toNat % JITTER_MAX_SLOTS = i ∧
      ((b.slot i).seq - b.nextSeq).toNat < JITTER_MAX_SLOTS) ∧
    (∀ seq payload info, (b.based = true → (seq - b.nextSeq).toNat < JITTER_MAX_SLOTS) →
      (b.insert seq payload info).2 = false →
        payload.length > JITTER_SLOT_SIZE ∨ ∃ i, (b.slot i).full = true ∧ (b.slot i).seq = seq) ∧
    (b.waitingOnHole = true → b.skipHole.1.nextReady = true) ∧
    InOrder (machine.run {} ops).2 := by
  have h := bufferInv_run ops
  refine ⟨h.ring.fill, fun i hi => ⟨h.ring.home i hi, h.ring.ahead i hi⟩, ?_, ?_, h.ordered.inOrder⟩
  · intro seq payload info hwindow hrefused
    by_cases hlen : payload.length > JITTER_SLOT_SIZE
    · exact Or.inl hlen
    · refine Or.inr ?_
      obtain ⟨_, _, _, _, hheld, _, _⟩ := h.ring.insert_fits hlen seq info
      obtain ⟨_, _, _, _, hopen⟩ := opened_spec (machine.run {} ops).1 seq
      refine hheld hrefused ?_
      rw [hopen]
      split
      next hb => exact hwindow hb
      · rw [UInt16.sub_self]
        decide
  · intro hwait
    obtain ⟨_, _, _, _, _, hready, _⟩ := h.ring.skipHole hwait
    exact hready

/-- A payload longer than a slot is refused inside the window, though its number is not held. -/
theorem oversize_refused :
    let b := (machine.run {} [.insert 7 [1] {}]).1
    b.based = true ∧ ((8 : UInt16) - b.nextSeq).toNat < JITTER_MAX_SLOTS ∧
      (b.insert 8 (List.replicate 1461 0) {}).2 = false ∧ ∀ i, (b.slot i).full = true → (b.slot i).seq ≠ 8 := by
  refine ⟨rfl, by decide, ?_, ?_⟩
  · rw [insert_oversize (by rw [length_replicate]; decide)]
  · intro i hi
    have hlt := lt_of_full hi
    have hall : ∀ i < 16, let b := (machine.run {} [.insert 7 [1] {}]).1
        (b.slot i).full = true → (b.slot i).seq ≠ 8 := by
      decide
    exact hall i hlt hi

end Run

end Wave.Common.JitterCore
