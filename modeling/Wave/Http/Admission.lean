import Wave.Common.WsAdmit
import Wave.Lib.Machine

/-! # Admission of WebSocket upgrades (`http/server/ws.rs`, `h1.rs`)

One channel brings every decision, by connection id. `AdmitWorld` numbers the upgrades, to say which one a
decision was made for. -/

namespace Wave.Http.Admit

open Lib Common

variable {w : AdmitWorld} {d : AdmitDecision} {rest : List AdmitRecord} {r : AdmitRecord}

def WS_ADMIT_TIMEOUT_TICKS : Nat := 1500
def WS_PROTOCOL_MAX : Nat := 64
def WS_REASON_MAX : Nat := 128

def DECISION_BUF : Nat := WS_ADMIT_DEC_HDR + WS_PROTOCOL_MAX + WS_REASON_MAX

/-- A connection slot: the upgrade it waits for, if it is in `WsAwaitAdmit`. -/
structure AdmitSlot where
  conn : UInt16 := 0
  upgrade : Option Nat := none
  sent : Bool := false
  ticks : Nat := 0

/-- A record on `ws_admit_in`, and the upgrade it was made for. -/
structure AdmitRecord where
  upgrade : Nat
  bytes : Bytes

inductive AdmitOutcome where
  | accept (protocol : Bytes)
  | reject (status : UInt16) (reason : Bytes)
deriving DecidableEq

/-- An answer to a peer: the upgrade it went to, and the decision behind it. -/
structure Applied where
  upgrade : Nat
  madeFor : Nat
  decision : AdmitDecision
  outcome : AdmitOutcome

structure AdmitWorld where
  slots : List AdmitSlot
  channel : List AdmitRecord := []
  /-- How many upgrades there were, and the connection of each. -/
  count : Nat := 0
  connOf : Nat → UInt16 := fun _ => 0
  offered : List Nat := []
  decided : List (Nat × AdmitDecision) := []
  applied : List Applied := []
  expired : List Nat := []

def AdmitWorld.slot (w : AdmitWorld) (i : Nat) : AdmitSlot := w.slots.getD i {}

def AdmitWorld.setSlot (w : AdmitWorld) (i : Nat) (c : AdmitSlot) : AdmitWorld :=
  { w with slots := w.slots.set i c }

def admitOutcome (d : AdmitDecision) : AdmitOutcome :=
  if d.accepted then .accept (d.protocol.take WS_PROTOCOL_MAX)
  else .reject (if d.status = 0 then 403 else d.status) (d.reason.take WS_REASON_MAX)

/-- `ws_poll_admission`: the next record is taken off the channel, whose ever it is. -/
def wsPollAdmission (channel : List AdmitRecord) (conn : UInt32) :
    Option (AdmitRecord × AdmitDecision) × List AdmitRecord :=
  match channel with
  | [] => (none, [])
  | r :: rest =>
    match parseWsAdmitDecision (r.bytes.take DECISION_BUF) with
    | none => (none, rest)
    | some d => if d.conn ≠ conn then (none, rest) else (some (r, d), rest)

def AdmitSlot.leave (c : AdmitSlot) : AdmitSlot := { c with upgrade := none }

/-- `Phase::WsAwaitAdmit`: the request is offered until it is taken, then decisions are
read, one a step, up to the deadline. -/
def stepAwaitAdmit (w : AdmitWorld) (i : Nat) (offerTaken : Bool) : AdmitWorld :=
  let c := w.slot i
  match c.upgrade with
  | none => w
  | some u =>
    if !c.sent then
      if offerTaken then { w.setSlot i { c with sent := true } with offered := u :: w.offered } else w
    else
      match wsPollAdmission w.channel c.conn.toUInt32 with
      | (some (r, d), rest) =>
        { w.setSlot i c.leave with
          channel := rest
          applied := { upgrade := u, madeFor := r.upgrade, decision := d, outcome := admitOutcome d } :: w.applied }
      | (none, rest) =>
        let ticks := c.ticks + 1
        if ticks ≥ WS_ADMIT_TIMEOUT_TICKS then
          { w.setSlot i c.leave with channel := rest, expired := u :: w.expired }
        else { w.setSlot i { c with ticks := ticks } with channel := rest }

inductive AdmitEvent where
  /-- A request for an admission route reaches slot `i`, on connection `conn`. -/
  | begin (i : Nat) (conn : UInt16)
  | release (i : Nat)
  /-- The application decides an upgrade it was offered. -/
  | decide (u : Nat) (decision : UInt8) (status : UInt16) (protocol reason : Bytes)
  | step (i : Nat) (offerTaken : Bool)
deriving DecidableEq

def decideStep (w : AdmitWorld) (u : Nat) (d : AdmitDecision) : AdmitWorld :=
  if u ∈ w.offered ∧ ∀ x ∈ w.decided, x.1 ≠ u then
    match writeWsAdmitDecision d with
    | some bytes =>
      { w with
        channel := w.channel ++ [{ upgrade := u, bytes := bytes }]
        decided := (u, d) :: w.decided }
    | none => w
  else w

def admitStep (w : AdmitWorld) : AdmitEvent → AdmitWorld
  | .begin i conn =>
    if (w.slot i).upgrade = none ∧ i < w.slots.length then
      { w.setSlot i { conn := conn, upgrade := some w.count } with
        count := w.count + 1
        connOf := Function.update w.connOf w.count conn }
    else w
  | .release i => w.setSlot i {}
  | .decide u decision status protocol reason =>
    decideStep w u
      { conn := (w.connOf u).toUInt32, decision := decision, status := status, protocol := protocol
        reason := reason }
  | .step i offerTaken => stepAwaitAdmit w i offerTaken

def admitMachine : Machine AdmitWorld AdmitEvent Unit where
  step w e := (admitStep w e, [])

def AdmitWorld.init (slots : Nat) : AdmitWorld where
  slots := List.replicate slots {}

def Waits (w : AdmitWorld) (i u : Nat) : Prop := (w.slot i).upgrade = some u

instance (w : AdmitWorld) (i u : Nat) : Decidable (Waits w i u) := inferInstanceAs (Decidable (_ = _))

/-- The step polls for `u` and finds its own record, or one for no connection of the same id and no upgrade that
waits. It does not give up while its own decision is behind. -/
def PollOk (w : AdmitWorld) (i u : Nat) (r : AdmitRecord) : Prop :=
  r.upgrade = u ∨
    (w.connOf r.upgrade ≠ (w.slot i).conn ∧ (∀ c ∈ w.slots, c.upgrade ≠ some r.upgrade) ∧
      ((∃ x ∈ w.decided, x.1 = u) → (w.slot i).ticks + 1 < WS_ADMIT_TIMEOUT_TICKS))

def AdmitOk (w : AdmitWorld) : AdmitEvent → Prop
  | .decide _ _ _ protocol reason => protocol.length + reason.length ≤ WS_PROTOCOL_MAX + WS_REASON_MAX
  | .step i _ => (w.slot i).sent = true → ∀ u ∈ (w.slot i).upgrade, ∀ r ∈ w.channel.head?, PollOk w i u r
  | _ => True

def AnswersOwn (w : AdmitWorld) : Prop := ∀ a ∈ w.applied, a.upgrade = a.madeFor

def Reached (w : AdmitWorld) (u : Nat) (d : AdmitDecision) : Prop :=
  ∃ a ∈ w.applied, a.upgrade = u ∧ a.decision = d ∧ a.outcome = admitOutcome d

def Decided (w : AdmitWorld) (u : Nat) : Prop := ∃ x ∈ w.decided, x.1 = u

structure RecordOk (w : AdmitWorld) (r : AdmitRecord) (d : AdmitDecision) : Prop where
  decided : (r.upgrade, d) ∈ w.decided
  written : writeWsAdmitDecision d = some r.bytes
  fits : r.bytes.length ≤ DECISION_BUF
  conn : d.conn = (w.connOf r.upgrade).toUInt32

structure AdmitInv (w : AdmitWorld) : Prop where
  apart : ∀ i j u, Waits w i u → Waits w j u → i = j
  bounded : ∀ i u, Waits w i u → u < w.count
  conn : ∀ i u, Waits w i u → (w.slot i).conn = w.connOf u
  sent : ∀ i u, Waits w i u → u ∈ w.offered → (w.slot i).sent = true
  offered : ∀ u ∈ w.offered, u < w.count
  decided : ∀ x ∈ w.decided, x.1 ∈ w.offered
  once : ∀ x ∈ w.decided, ∀ y ∈ w.decided, x.1 = y.1 → x = y
  records : ∀ r ∈ w.channel, ∃ d, RecordOk w r d
  /-- A decision on an upgrade that waits is still on the channel. -/
  kept : ∀ i u, Waits w i u → Decided w u → ∃ r ∈ w.channel, r.upgrade = u
  own : AnswersOwn w
  expired : ∀ u ∈ w.expired, u < w.count ∧ ∀ i, ¬ Waits w i u

theorem setSlot_slot (w : AdmitWorld) (i : Nat) (c : AdmitSlot) (j : Nat) :
    (j = i ∧ (w.setSlot i c).slot j = c) ∨ (w.setSlot i c).slot j = w.slot j := by
  unfold AdmitWorld.setSlot AdmitWorld.slot
  by_cases hj : i = j
  · by_cases hi : i < w.slots.length
    · exact .inl ⟨hj.symm, by simp [List.getD_eq_getElem?_getD, ← hj, hi]⟩
    · exact .inr (by rw [set_eq_of_length_le (Nat.le_of_not_lt hi)])
  · exact .inr (by simp [List.getD_eq_getElem?_getD, hj])

theorem setSlot_ne (w : AdmitWorld) {i j : Nat} (c : AdmitSlot) (h : j ≠ i) :
    (w.setSlot i c).slot j = w.slot j :=
  (setSlot_slot w i c j).resolve_left fun hj => h hj.1

theorem waits_setSlot {i j v : Nat} {c : AdmitSlot} (h : Waits (w.setSlot i c) j v) :
    (j = i ∧ c.upgrade = some v) ∨ Waits w j v := by
  unfold Waits at h
  obtain ⟨hj, heq⟩ | heq := setSlot_slot w i c j <;> rw [heq] at h
  · exact .inl ⟨hj, h⟩
  · exact .inr h

theorem AdmitInv.setSlot (h : AdmitInv w) (i : Nat) (c : AdmitSlot)
    (hc : ∀ u ∈ c.upgrade, Waits w i u ∧ c.conn = (w.slot i).conn ∧ ((w.slot i).sent = true → c.sent = true)) :
    AdmitInv (w.setSlot i c) := by
  have hwaits : ∀ j u, Waits (w.setSlot i c) j u → Waits w j u := by
    intro j u hj
    obtain ⟨rfl, hu⟩ | hu := waits_setSlot hj
    · exact (hc u hu).1
    · exact hu
  refine ⟨?_, ?_, ?_, ?_, h.offered, h.decided, h.once, ?_, ?_, h.own, ?_⟩
  · exact fun j k u hj hk => h.apart j k u (hwaits j u hj) (hwaits k u hk)
  · exact fun j u hj => h.bounded j u (hwaits j u hj)
  · intro j u hj
    have hconn := h.conn j u (hwaits j u hj)
    unfold Waits at hj
    obtain ⟨rfl, heq⟩ | heq := setSlot_slot w i c j <;> rw [heq] at hj ⊢
    · exact (hc u hj).2.1.trans hconn
    · exact hconn
  · intro j u hj hu
    have hsent := h.sent j u (hwaits j u hj) hu
    unfold Waits at hj
    obtain ⟨rfl, heq⟩ | heq := setSlot_slot w i c j <;> rw [heq] at hj ⊢
    · exact (hc u hj).2.2 hsent
    · exact hsent
  · intro r hr
    obtain ⟨d, hd⟩ := h.records r hr
    exact ⟨d, hd.decided, hd.written, hd.fits, hd.conn⟩
  · exact fun j u hj hu => h.kept j u (hwaits j u hj) hu
  · exact fun u hu => ⟨(h.expired u hu).1, fun j hj => (h.expired u hu).2 j (hwaits j u hj)⟩

theorem AdmitInv.pop (h : AdmitInv w) (hchannel : w.channel = r :: rest) (hr : ∀ i, ¬ Waits w i r.upgrade) :
    AdmitInv { w with channel := rest } := by
  refine ⟨h.apart, h.bounded, h.conn, h.sent, h.offered, h.decided, h.once, ?_, ?_, h.own, h.expired⟩
  · intro r' hr'
    obtain ⟨d, hd⟩ := h.records r' (by rw [hchannel]; exact mem_cons_of_mem _ hr')
    exact ⟨d, hd.decided, hd.written, hd.fits, hd.conn⟩
  · intro i u hi hu
    obtain ⟨r', hr', hru⟩ := h.kept i u hi hu
    rw [hchannel] at hr'
    rcases mem_cons.mp hr' with rfl | hr'
    · exact absurd (hru ▸ hi) (hr i)
    · exact ⟨r', hr', hru⟩

/-! ## One step -/

theorem poll_own (h : AdmitInv w) {i u : Nat} (hi : Waits w i u) (hchannel : w.channel = r :: rest) (hr : r.upgrade = u) :
    ∃ d, (u, d) ∈ w.decided ∧
      wsPollAdmission w.channel (w.slot i).conn.toUInt32 = (some (r, d), rest) := by
  obtain ⟨d, hd⟩ := h.records r (by rw [hchannel]; exact mem_cons_self)
  refine ⟨d, hr ▸ hd.decided, ?_⟩
  have hread : parseWsAdmitDecision (r.bytes.take DECISION_BUF) = some d := by
    rw [take_of_length_le hd.fits, parse_write hd.written]
  have hconn : d.conn = (w.slot i).conn.toUInt32 := by rw [hd.conn, hr, h.conn i u hi]
  rw [hchannel, wsPollAdmission]
  simp only [hread, hconn, ne_eq, not_true_eq_false, if_false]

theorem poll_other (h : AdmitInv w) {conn : UInt16} (hchannel : w.channel = r :: rest) (hr : w.connOf r.upgrade ≠ conn) :
    wsPollAdmission w.channel conn.toUInt32 = (none, rest) := by
  obtain ⟨d, hd⟩ := h.records r (by rw [hchannel]; exact mem_cons_self)
  have hread : parseWsAdmitDecision (r.bytes.take DECISION_BUF) = some d := by
    rw [take_of_length_le hd.fits, parse_write hd.written]
  have hconn : d.conn ≠ conn.toUInt32 := by
    rw [hd.conn]
    intro heq
    refine hr (UInt16.toNat.inj ?_)
    have hnat := congrArg UInt32.toNat heq
    rwa [UInt16.toNat_toUInt32, UInt16.toNat_toUInt32] at hnat
  rw [hchannel, wsPollAdmission]
  simp only [hread, hconn, ne_eq, not_false_eq_true, if_true]

def tick (w : AdmitWorld) (i u : Nat) (rest : List AdmitRecord) : AdmitWorld :=
  if (w.slot i).ticks + 1 ≥ WS_ADMIT_TIMEOUT_TICKS then
    { w.setSlot i (w.slot i).leave with channel := rest, expired := u :: w.expired }
  else { w.setSlot i { w.slot i with ticks := (w.slot i).ticks + 1 } with channel := rest }

inductive AwaitStep (w : AdmitWorld) (i : Nat) : AdmitWorld → Prop where
  | idle (hidle : ∀ u, Waits w i u → (w.slot i).sent = false) : AwaitStep w i w
  | offered (u : Nat) (hi : Waits w i u) (hsent : (w.slot i).sent = false) :
      AwaitStep w i { w.setSlot i { w.slot i with sent := true } with offered := u :: w.offered }
  | quiet (u : Nat) (hi : Waits w i u) (hchannel : w.channel = []) : AwaitStep w i (tick w i u [])
  | applied (u : Nat) (r : AdmitRecord) (rest : List AdmitRecord) (d : AdmitDecision) (hi : Waits w i u)
      (hchannel : w.channel = r :: rest) (hr : r.upgrade = u) (hd : (u, d) ∈ w.decided) :
      AwaitStep w i { w.setSlot i (w.slot i).leave with
        channel := rest
        applied := { upgrade := u, madeFor := r.upgrade, decision := d, outcome := admitOutcome d } ::
          w.applied }
  | passed (u : Nat) (r : AdmitRecord) (rest : List AdmitRecord) (hi : Waits w i u)
      (hchannel : w.channel = r :: rest) (hr : r.upgrade ≠ u)
      (hgone : ∀ j, ¬ Waits w j r.upgrade)
      (hticks : Decided w u → (w.slot i).ticks + 1 < WS_ADMIT_TIMEOUT_TICKS) :
      AwaitStep w i (tick w i u rest)

theorem waits_lt {i u : Nat} (h : Waits w i u) : i < w.slots.length := by
  by_contra hlen
  unfold Waits AdmitWorld.slot at h
  rw [List.getD_eq_getElem?_getD, List.getElem?_eq_none (Nat.le_of_not_lt hlen)] at h
  cases h

theorem waits_mem {i u : Nat} (h : Waits w i u) : w.slot i ∈ w.slots := by
  unfold AdmitWorld.slot
  rw [List.getD_eq_getElem?_getD, List.getElem?_eq_getElem (waits_lt h)]
  exact getElem_mem _

theorem stepAwaitAdmit_sent {i u : Nat} (taken : Bool) (hi : Waits w i u) (hsent : (w.slot i).sent = true) :
    stepAwaitAdmit w i taken =
      match wsPollAdmission w.channel (w.slot i).conn.toUInt32 with
      | (some (r, d), rest) =>
        { w.setSlot i (w.slot i).leave with
          channel := rest
          applied := { upgrade := u, madeFor := r.upgrade, decision := d, outcome := admitOutcome d } :: w.applied }
      | (none, rest) => tick w i u rest := by
  unfold Waits at hi
  simp only [stepAwaitAdmit, tick, hi, hsent, Bool.not_true, false_eq_true, if_false]

theorem awaitStep (h : AdmitInv w) (i : Nat) (taken : Bool) (hok : AdmitOk w (.step i taken)) : AwaitStep w i (stepAwaitAdmit w i taken) := by
  by_cases hwaits : ∃ u, Waits w i u
  · obtain ⟨u, hi⟩ := hwaits
    by_cases hsent : (w.slot i).sent = true
    · rw [stepAwaitAdmit_sent taken hi hsent]
      cases hchannel : w.channel with
      | nil => exact .quiet u hi hchannel
      | cons r rest =>
        rw [← hchannel]
        have hpoll : PollOk w i u r := hok hsent u hi r (by rw [hchannel]; rfl)
        by_cases hr : r.upgrade = u
        · obtain ⟨d, hd, hread⟩ := poll_own h hi hchannel hr
          rw [hread]
          exact .applied u r rest d hi hchannel hr hd
        · obtain ⟨hconn, hgone, hticks⟩ := hpoll.resolve_left hr
          rw [poll_other h hchannel hconn]
          exact .passed u r rest hi hchannel hr (fun j hj => hgone _ (waits_mem hj) hj) hticks
    · have hunsent : (w.slot i).sent = false := by simpa using hsent
      cases taken with
      | false =>
        have hsame : stepAwaitAdmit w i false = w := by
          unfold Waits at hi
          simp [stepAwaitAdmit, hi, hunsent]
        rw [hsame]
        exact .idle fun _ _ => hunsent
      | true =>
        have hoffer : stepAwaitAdmit w i true =
            { w.setSlot i { w.slot i with sent := true } with offered := u :: w.offered } := by
          unfold Waits at hi
          simp [stepAwaitAdmit, hi, hunsent]
        rw [hoffer]
        exact .offered u hi hunsent
  · have hnone : (w.slot i).upgrade = none :=
      Option.eq_none_iff_forall_ne_some.mpr fun u hu => hwaits ⟨u, hu⟩
    have hsame : stepAwaitAdmit w i taken = w := by simp [stepAwaitAdmit, hnone]
    rw [hsame]
    exact .idle fun u hi => absurd ⟨u, hi⟩ hwaits

theorem not_waits_leave (h : AdmitInv w) {i u : Nat} (hi : Waits w i u) (j : Nat) :
    ¬ Waits (w.setSlot i (w.slot i).leave) j u := by
  intro hj
  by_cases hji : j = i
  · subst hji
    have hlen := waits_lt hi
    unfold Waits AdmitWorld.setSlot AdmitWorld.slot at hj
    simp [List.getD_eq_getElem?_getD, hlen, AdmitSlot.leave] at hj
  · unfold Waits at hj
    rw [setSlot_ne w _ hji] at hj
    exact hji (h.apart j i u hj hi)

theorem AdmitInv.tick (h : AdmitInv w) {i u : Nat} (hi : Waits w i u)
    (hrest : w.channel = rest ∨ ∃ r, w.channel = r :: rest ∧ ∀ j, ¬ Waits w j r.upgrade) :
    AdmitInv (tick w i u rest) := by
  have hpopped : ∀ c : AdmitSlot, (∀ v ∈ c.upgrade, Waits w i v ∧ c.conn = (w.slot i).conn ∧
      ((w.slot i).sent = true → c.sent = true)) → AdmitInv { w.setSlot i c with channel := rest } := by
    intro c hc
    rcases hrest with rfl | ⟨r, hchannel, hgone⟩
    · exact h.setSlot i c hc
    · refine (h.setSlot i c hc).pop hchannel fun j hj => ?_
      obtain ⟨rfl, hu⟩ | hu := waits_setSlot hj
      · exact hgone j (hc _ hu).1
      · exact hgone j hu
  unfold Admit.tick
  split_ifs
  · have hleft := hpopped (w.slot i).leave nofun
    refine ⟨hleft.apart, hleft.bounded, hleft.conn, hleft.sent, hleft.offered, hleft.decided, hleft.once,
      fun r hr => (hleft.records r hr).imp fun d hd => ⟨hd.decided, hd.written, hd.fits, hd.conn⟩,
      hleft.kept, hleft.own, fun v hv => ?_⟩
    rcases mem_cons.mp hv with rfl | hv
    · exact ⟨h.bounded i _ hi, not_waits_leave h hi⟩
    · exact hleft.expired v hv
  · exact hpopped _ fun v hv => ⟨hv, rfl, id⟩

theorem AdmitInv.offer (h : AdmitInv w) {i u : Nat} (hi : Waits w i u) :
    AdmitInv { w.setSlot i { w.slot i with sent := true } with offered := u :: w.offered } := by
  have hset := h.setSlot i { w.slot i with sent := true } fun v hv => ⟨hv, rfl, fun _ => rfl⟩
  have hself : (w.setSlot i { w.slot i with sent := true }).slot i = { w.slot i with sent := true } := by
    simp [AdmitWorld.slot, AdmitWorld.setSlot, List.getD_eq_getElem?_getD, waits_lt hi]
  refine ⟨hset.apart, hset.bounded, hset.conn, ?_, ?_, ?_, hset.once,
    fun r hr => (hset.records r hr).imp fun d hd => ⟨hd.decided, hd.written, hd.fits, hd.conn⟩, hset.kept,
    hset.own, hset.expired⟩
  · intro j v hj hv
    rcases mem_cons.mp hv with rfl | hv
    · have hiv : Waits (w.setSlot i { w.slot i with sent := true }) i v := by
        unfold Waits
        rw [hself]
        exact hi
      rw [hset.apart j i v hj hiv]
      exact congrArg AdmitSlot.sent hself
    · exact hset.sent j v hj hv
  · intro v hv
    rcases mem_cons.mp hv with rfl | hv
    · exact h.bounded i v hi
    · exact h.offered v hv
  · exact fun x hx => mem_cons_of_mem _ (h.decided x hx)

theorem AdmitInv.apply (h : AdmitInv w) {i u : Nat} (hi : Waits w i u) (hchannel : w.channel = r :: rest)
    (hr : r.upgrade = u) :
    AdmitInv { w.setSlot i (w.slot i).leave with
      channel := rest
      applied := { upgrade := u, madeFor := r.upgrade, decision := d, outcome := admitOutcome d } ::
        w.applied } := by
  have hset := h.setSlot i (w.slot i).leave nofun
  have hpop := hset.pop hchannel fun j => hr ▸ not_waits_leave h hi j
  refine ⟨hpop.apart, hpop.bounded, hpop.conn, hpop.sent, hpop.offered, hpop.decided, hpop.once,
    fun r hr => (hpop.records r hr).imp fun d hd => ⟨hd.decided, hd.written, hd.fits, hd.conn⟩, hpop.kept,
    fun a ha => ?_, hpop.expired⟩
  rcases mem_cons.mp ha with rfl | ha
  · exact hr.symm
  · exact h.own a ha

theorem AdmitInv.await {w w' : AdmitWorld} (h : AdmitInv w) {i : Nat} (hstep : AwaitStep w i w') :
    AdmitInv w' := by
  cases hstep with
  | idle => exact h
  | offered u hi hsent => exact h.offer hi
  | quiet u hi hchannel => exact h.tick hi (.inl hchannel)
  | applied u r rest d hi hchannel hr hd => exact h.apply hi hchannel hr
  | passed u r rest hi hchannel hr hgone hticks => exact h.tick hi (.inr ⟨r, hchannel, hgone⟩)

theorem AdmitInv.begin (h : AdmitInv w) (i : Nat) (conn : UInt16) :
    AdmitInv (admitStep w (.begin i conn)) := by
  rw [admitStep]
  split_ifs with hfree
  swap
  · exact h
  -- the slot was free, so the others wait as before, for older upgrades
  have hwaits : ∀ {j v}, Waits (w.setSlot i { conn := conn, upgrade := some w.count }) j v →
      (j = i ∧ v = w.count) ∨ (Waits w j v ∧ v < w.count ∧
        (w.setSlot i { conn := conn, upgrade := some w.count }).slot j = w.slot j) := by
    intro j v hj
    unfold Waits at hj
    obtain ⟨rfl, heq⟩ | heq := setSlot_slot w i { conn := conn, upgrade := some w.count } j
    · rw [heq] at hj
      exact .inl ⟨rfl, (Option.some.inj hj).symm⟩
    · rw [heq] at hj
      exact .inr ⟨hj, h.bounded j v hj, heq⟩
  have hold : ∀ {v}, v < w.count → Function.update w.connOf w.count conn v = w.connOf v :=
    fun hv => Function.update_of_ne (Nat.ne_of_lt hv) _ _
  refine ⟨?_, ?_, ?_, ?_, ?_, h.decided, h.once, ?_, ?_, h.own, ?_⟩
  · intro j k v hj hk
    obtain ⟨rfl, rfl⟩ | ⟨hj, hlt, -⟩ := hwaits hj
    · obtain ⟨rfl, -⟩ | ⟨-, hlt, -⟩ := hwaits hk
      · rfl
      · exact absurd hlt (Nat.lt_irrefl _)
    · obtain ⟨-, rfl⟩ | ⟨hk, -, -⟩ := hwaits hk
      · exact absurd hlt (Nat.lt_irrefl _)
      · exact h.apart j k v hj hk
  · intro j v hj
    obtain ⟨-, rfl⟩ | ⟨-, hlt, -⟩ := hwaits hj
    · exact Nat.lt_succ_self _
    · exact Nat.lt_succ_of_lt hlt
  · intro j v hj
    obtain ⟨rfl, rfl⟩ | ⟨hj', hlt, heq⟩ := hwaits hj
    · simp [AdmitWorld.slot, AdmitWorld.setSlot, List.getD_eq_getElem?_getD, hfree.2]
    · exact (congrArg AdmitSlot.conn heq).trans ((h.conn j v hj').trans (hold hlt).symm)
  · intro j v hj hv
    obtain ⟨-, rfl⟩ | ⟨hj', -, heq⟩ := hwaits hj
    · exact absurd (h.offered _ hv) (Nat.lt_irrefl _)
    · exact (congrArg AdmitSlot.sent heq).trans (h.sent j v hj' hv)
  · exact fun v hv => Nat.lt_succ_of_lt (h.offered v hv)
  · intro r hr
    obtain ⟨d, hd⟩ := h.records r hr
    refine ⟨d, hd.decided, hd.written, hd.fits, ?_⟩
    rw [hd.conn, ← hold (h.offered _ (h.decided _ hd.decided))]
  · intro j v hj hv
    obtain ⟨-, rfl⟩ | ⟨hj', -, -⟩ := hwaits hj
    · obtain ⟨x, hx, hxv⟩ := hv
      exact absurd (h.offered _ (h.decided x hx)) (by rw [hxv]; exact Nat.lt_irrefl _)
    · exact h.kept j v hj' hv
  · intro v hv
    refine ⟨Nat.lt_succ_of_lt (h.expired v hv).1, fun j hj => ?_⟩
    obtain ⟨-, rfl⟩ | ⟨hj', -, -⟩ := hwaits hj
    · exact absurd (h.expired _ hv).1 (Nat.lt_irrefl _)
    · exact (h.expired v hv).2 j hj'

theorem AdmitInv.decide (h : AdmitInv w) {u : Nat} (hconn : d.conn = (w.connOf u).toUInt32)
    (hfits : d.protocol.length + d.reason.length ≤ WS_PROTOCOL_MAX + WS_REASON_MAX) :
    AdmitInv (decideStep w u d) := by
  unfold decideStep
  split_ifs with hfresh
  swap
  · exact h
  cases hwrite : writeWsAdmitDecision d with
  | none => exact h
  | some bytes =>
    have hlen : bytes.length ≤ DECISION_BUF := by
      rw [length_write hwrite]
      unfold DECISION_BUF
      omega
    refine ⟨h.apart, h.bounded, h.conn, h.sent, h.offered, ?_, ?_, ?_, ?_, h.own, h.expired⟩
    · intro x hx
      rcases mem_cons.mp hx with rfl | hx
      · exact hfresh.1
      · exact h.decided x hx
    · intro x hx y hy hxy
      rcases mem_cons.mp hx with rfl | hx <;> rcases mem_cons.mp hy with rfl | hy
      · rfl
      · exact absurd hxy.symm (hfresh.2 y hy)
      · exact absurd hxy (hfresh.2 x hx)
      · exact h.once x hx y hy hxy
    · intro r hr
      rcases mem_append.mp hr with hr | hr
      · obtain ⟨e, he⟩ := h.records r hr
        exact ⟨e, mem_cons_of_mem _ he.decided, he.written, he.fits, he.conn⟩
      · cases mem_singleton.mp hr
        exact ⟨d, mem_cons_self, hwrite, hlen, hconn⟩
    · rintro j v hj ⟨x, hx, hxv⟩
      rcases mem_cons.mp hx with rfl | hx
      · exact ⟨_, mem_append_right _ mem_cons_self, hxv⟩
      · obtain ⟨r, hr, hrv⟩ := h.kept j v hj ⟨x, hx, hxv⟩
        exact ⟨r, mem_append_left _ hr, hrv⟩

theorem AdmitInv.step (h : AdmitInv w) {e : AdmitEvent} (hok : AdmitOk w e) :
    AdmitInv (admitStep w e) := by
  cases e with
  | begin i conn => exact h.begin i conn
  | release i => exact h.setSlot i {} nofun
  | decide u decision status protocol reason => exact h.decide rfl hok
  | step i taken => exact h.await (awaitStep h i taken hok)

theorem AdmitInv.init (slots : Nat) : AdmitInv (.init slots) := by
  have hnone : ∀ i u, ¬ Waits (.init slots) i u := by
    intro i u hi
    have hmem := eq_of_mem_replicate (waits_mem hi)
    rw [Waits, hmem] at hi
    cases hi
  exact ⟨fun i _ u hi => absurd hi (hnone i u), fun i u hi => absurd hi (hnone i u),
    fun i u hi => absurd hi (hnone i u), fun i u hi => absurd hi (hnone i u), nofun, nofun, nofun, nofun,
    fun i u hi => absurd hi (hnone i u), nofun, nofun⟩

/-! ## From the decision to the answer -/

/-- Slot `i` waits for `u`, and at most `n` records stand before the decision `d` on it. -/
structure Pending (w : AdmitWorld) (i u : Nat) (d : AdmitDecision) (n : Nat) : Prop where
  waits : Waits w i u
  decided : (u, d) ∈ w.decided
  behind : ∃ front r rest, w.channel = front ++ r :: rest ∧ r.upgrade = u ∧ front.length ≤ n

structure Done (w : AdmitWorld) (u : Nat) (d : AdmitDecision) : Prop where
  reached : Reached w u d
  gone : ∀ j, ¬ Waits w j u
  bounded : u < w.count
  kept : u ∉ w.expired

theorem Pending.of_inv (h : AdmitInv w) {i u : Nat} (hi : Waits w i u) (hd : (u, d) ∈ w.decided) : ∃ n < w.channel.length, Pending w i u d n := by
  obtain ⟨r, hr, hru⟩ := h.kept i u hi ⟨_, hd, rfl⟩
  obtain ⟨front, rest, hchannel⟩ := List.append_of_mem hr
  exact ⟨front.length, by simp [hchannel], hi, hd, front, r, rest, hchannel, hru, Nat.le_refl _⟩

theorem waits_setSlot_ne {i j u : Nat} {c : AdmitSlot} (hij : i ≠ j) (h : Waits w i u) :
    Waits (w.setSlot j c) i u := by
  unfold Waits
  rw [setSlot_ne w c hij]
  exact h

theorem Pending.tail {w w' : AdmitWorld} {i u n : Nat} (hp : Pending w i u d n) (hchannel : w.channel = r :: rest)
    (hr : r.upgrade ≠ u) (hi : Waits w' i u) (hdecided : w'.decided = w.decided)
    (hrest : w'.channel = rest) : ∃ m < n, Pending w' i u d m := by
  obtain ⟨front, q, back, happ, hqu, hn⟩ := hp.behind
  cases front with
  | nil =>
    rw [hchannel] at happ
    cases happ
    exact absurd hqu hr
  | cons f front =>
    rw [hchannel] at happ
    cases happ
    exact ⟨front.length, hn, hi, hdecided ▸ hp.decided, front, q, back, hrest, hqu, Nat.le_refl _⟩

theorem Pending.own {w w' : AdmitWorld} (h : AdmitInv w) {i u n : Nat}
    (hp : Pending w i u d n) (hstep : AwaitStep w i w') :
    Done w' u d ∨ ∃ m < n, Pending w' i u d m := by
  have hsent := h.sent i u hp.waits (h.decided _ hp.decided)
  have hsame : ∀ {v}, Waits w i v → v = u := fun hv => Option.some.inj (hv.symm.trans hp.waits)
  cases hstep with
  | idle hidle =>
    rw [hidle u hp.waits] at hsent
    cases hsent
  | offered v hi hunsent =>
    rw [hunsent] at hsent
    cases hsent
  | quiet v hi hchannel =>
    obtain ⟨front, q, back, happ, -, -⟩ := hp.behind
    rw [hchannel] at happ
    simp at happ
  | applied v r rest e hi hchannel hr he =>
    cases hsame hi
    cases h.once _ he _ hp.decided rfl
    exact .inl ⟨⟨_, mem_cons_self, rfl, rfl, rfl⟩, not_waits_leave h hi, h.bounded i u hi,
      fun hu => (h.expired u hu).2 i hi⟩
  | passed v r rest hi hchannel hr hgone hticks =>
    cases hsame hi
    have hwait : tick w i u rest =
        { w.setSlot i { w.slot i with ticks := (w.slot i).ticks + 1 } with channel := rest } :=
      if_neg (Nat.not_le.mpr (hticks ⟨_, hp.decided, rfl⟩))
    rw [hwait]
    refine .inr (hp.tail hchannel hr ?_ rfl rfl)
    simp only [Waits, AdmitWorld.slot, AdmitWorld.setSlot, List.getD_eq_getElem?_getD,
      List.getElem?_set_self (waits_lt hi), getD_some]
    simpa [Waits, AdmitWorld.slot, List.getD_eq_getElem?_getD] using hi

theorem Pending.other {w w' : AdmitWorld} (h : AdmitInv w) {i j u n : Nat}
    (hp : Pending w i u d n) (hij : i ≠ j) (hstep : AwaitStep w j w') : Pending w' i u d n := by
  have hnotice : ∀ {v}, Waits w j v → v ≠ u := fun hj hv => hij (h.apart i j u hp.waits (hv ▸ hj))
  have hpast : ∀ {r rest} {w' : AdmitWorld}, w.channel = r :: rest → r.upgrade ≠ u → Waits w' i u →
      w'.decided = w.decided → w'.channel = rest → Pending w' i u d n := by
    intro r rest w' hchannel hr hi hdecided hrest
    obtain ⟨m, hm, hq⟩ := hp.tail hchannel hr hi hdecided hrest
    obtain ⟨front, q, back, happ, hqu, hlen⟩ := hq.behind
    exact ⟨hq.waits, hq.decided, front, q, back, happ, hqu, hlen.trans (Nat.le_of_lt hm)⟩
  have hticked : ∀ v rest, Waits (tick w j v rest) i u ∧ (tick w j v rest).decided = w.decided ∧
      (tick w j v rest).channel = rest := by
    intro v rest
    unfold tick
    split_ifs <;> exact ⟨waits_setSlot_ne hij hp.waits, rfl, rfl⟩
  cases hstep with
  | idle => exact hp
  | offered v hj hsent => exact ⟨waits_setSlot_ne hij hp.waits, hp.decided, hp.behind⟩
  | quiet v hj hchannel =>
    obtain ⟨front, q, back, happ, -, -⟩ := hp.behind
    rw [hchannel] at happ
    simp at happ
  | applied v r rest e hj hchannel hr he =>
    exact hpast hchannel (hr ▸ hnotice hj) (waits_setSlot_ne hij hp.waits) rfl rfl
  | passed v r rest hj hchannel hr hgone hticks =>
    obtain ⟨hi, hdecided, hrest⟩ := hticked v rest
    exact hpast hchannel (fun hru => hgone i (hru ▸ hp.waits)) hi hdecided hrest

theorem Pending.keep (h : AdmitInv w) {i u n : Nat} {e : AdmitEvent}
    (hp : Pending w i u d n) (hok : AdmitOk w e) (hrelease : e ≠ .release i)
    (hstep : ∀ taken, e ≠ .step i taken) : Pending (admitStep w e) i u d n := by
  cases e with
  | begin j conn =>
    rw [admitStep]
    split_ifs with hfree
    · have hij : i ≠ j := by
        rintro rfl
        exact absurd (hfree.1.symm.trans hp.waits) nofun
      exact ⟨waits_setSlot_ne hij hp.waits, hp.decided, hp.behind⟩
    · exact hp
  | release j =>
    have hij : i ≠ j := by
      rintro rfl
      exact hrelease rfl
    exact ⟨waits_setSlot_ne hij hp.waits, hp.decided, hp.behind⟩
  | decide v decision status protocol reason =>
    rw [admitStep, decideStep]
    split_ifs
    · split
      · obtain ⟨front, r, rest, happ, hru, hn⟩ := hp.behind
        exact ⟨hp.waits, mem_cons_of_mem _ hp.decided, front, r, _,
          (congrArg (· ++ _) happ).trans (append_assoc _ _ _), hru, hn⟩
      · exact hp
    · exact hp
  | step j taken =>
    have hij : i ≠ j := by
      rintro rfl
      exact hstep taken rfl
    exact hp.other h hij (awaitStep h j taken hok)

theorem Done.await {w w' : AdmitWorld} {i u : Nat} (hdone : Done w u d) (hstep : AwaitStep w i w') : Done w' u d := by
  have hset : ∀ {c : AdmitSlot}, (∀ v ∈ c.upgrade, Waits w i v) → ∀ j, ¬ Waits (w.setSlot i c) j u := by
    intro c hc j hj
    obtain ⟨-, hu⟩ | hu := waits_setSlot hj
    · exact hdone.gone i (hc u hu)
    · exact hdone.gone j hu
  have hticked : ∀ v rest, Waits w i v → Done (tick w i v rest) u d := by
    intro v rest hi
    unfold tick
    split_ifs
    · refine ⟨hdone.reached, hset nofun, hdone.bounded, fun hu => ?_⟩
      rcases mem_cons.mp hu with rfl | hu
      · exact hdone.gone i hi
      · exact hdone.kept hu
    · exact ⟨hdone.reached, hset fun _ hv => hv, hdone.bounded, hdone.kept⟩
  cases hstep with
  | idle => exact hdone
  | offered v hi hsent => exact ⟨hdone.reached, hset fun _ hv => hv, hdone.bounded, hdone.kept⟩
  | quiet v hi hchannel => exact hticked v [] hi
  | applied v r rest e hi hchannel hr he =>
    obtain ⟨a, ha, hau⟩ := hdone.reached
    exact ⟨⟨a, mem_cons_of_mem _ ha, hau⟩, hset nofun, hdone.bounded, hdone.kept⟩
  | passed v r rest hi hchannel hr hgone hticks => exact hticked v rest hi

theorem Done.step (h : AdmitInv w) {u : Nat} {e : AdmitEvent} (hdone : Done w u d) (hok : AdmitOk w e) : Done (admitStep w e) u d := by
  cases e with
  | begin i conn =>
    rw [admitStep]
    split_ifs
    · refine ⟨hdone.reached, fun j hj => ?_, Nat.lt_succ_of_lt hdone.bounded, hdone.kept⟩
      obtain ⟨-, hu⟩ | hu := waits_setSlot hj
      · exact absurd hdone.bounded (by rw [Option.some.inj hu]; exact Nat.lt_irrefl _)
      · exact hdone.gone j hu
    · exact hdone
  | release i =>
    refine ⟨hdone.reached, fun j hj => ?_, hdone.bounded, hdone.kept⟩
    obtain ⟨-, hu⟩ | hu := waits_setSlot hj
    · cases hu
    · exact hdone.gone j hu
  | decide v decision status protocol reason =>
    rw [admitStep, decideStep]
    split_ifs
    · split
      · exact ⟨hdone.reached, hdone.gone, hdone.bounded, hdone.kept⟩
      · exact hdone
    · exact hdone
  | step i taken => exact hdone.await (awaitStep h i taken hok)

/-! ## The theorem -/

def stepsOf (i : Nat) (events : List AdmitEvent) : Nat :=
  events.countP fun e => match e with
    | .step j _ => i = j
    | _ => false

theorem Done.run (h : AdmitInv w) {u : Nat} {events : List AdmitEvent}
    (hdone : Done w u d) (hal : admitMachine.Along AdmitOk w events) :
    Done (admitMachine.run w events).1 u d := by
  have hboth := admitMachine.run_invariant (I := fun w => AdmitInv w ∧ Done w u d)
    (fun w e hw hok => ⟨hw.1.step hok, hw.2.step hw.1 hok⟩) ⟨h, hdone⟩ hal
  exact hboth.2

/-- A decision slot `i` waits for is never given up; `n` steps past the `n` records before it bring it to the slot. -/
theorem Pending.run (h : AdmitInv w) {i u n : Nat}
    {events : List AdmitEvent} (hp : Pending w i u d n) (hal : admitMachine.Along AdmitOk w events)
    (hrelease : .release i ∉ events) :
    Done (admitMachine.run w events).1 u d ∨
      Pending (admitMachine.run w events).1 i u d (n - stepsOf i events) ∧ stepsOf i events ≤ n := by
  induction events generalizing w n with
  | nil => exact .inr ⟨hp, Nat.zero_le _⟩
  | cons e events ih =>
    obtain ⟨hok, hrest⟩ := hal
    have hnext := h.step hok
    have hfree : .release i ∉ events := fun hmem => hrelease (mem_cons_of_mem _ hmem)
    by_cases hown : ∃ taken, e = .step i taken
    · obtain ⟨taken, rfl⟩ := hown
      have hcount : stepsOf i (.step i taken :: events) = stepsOf i events + 1 := by simp [stepsOf]
      rcases hp.own h (awaitStep h i taken hok) with hdone | ⟨m, hm, hq⟩
      · exact .inl (hdone.run hnext hrest)
      · rcases ih hnext hq hrest hfree with hdone | ⟨hq, hle⟩
        · exact .inl hdone
        · obtain ⟨front, r, rest, happ, hru, hlen⟩ := hq.behind
          exact .inr ⟨⟨hq.waits, hq.decided, front, r, rest, happ, hru, by omega⟩, by omega⟩
    · have hcount : stepsOf i (e :: events) = stepsOf i events := by
        unfold stepsOf
        refine List.countP_cons_of_neg ?_
        cases e with
        | step j taken =>
          simp only [decide_eq_true_eq]
          rintro rfl
          exact hown ⟨taken, rfl⟩
        | _ => simp
      have hq := hp.keep h hok (fun he => hrelease (he ▸ mem_cons_self)) fun taken he => hown ⟨taken, he⟩
      rw [hcount]
      exact ih hnext hq hrest hfree

/-- In a run that meets `AdmitOk` every answer goes to the upgrade its decision was made for, and a decision for one
that waits reaches it in time. -/
theorem decisions_applied (slots : Nat) (events more : List AdmitEvent)
    (hal : admitMachine.Along AdmitOk (.init slots) (events ++ more)) :
    AnswersOwn (admitMachine.run (.init slots) (events ++ more)).1 ∧
      ∀ i u d, Waits (admitMachine.run (.init slots) events).1 i u →
        (u, d) ∈ (admitMachine.run (.init slots) events).1.decided → .release i ∉ more →
        u ∉ (admitMachine.run (.init slots) (events ++ more)).1.expired ∧
          ((admitMachine.run (.init slots) events).1.channel.length ≤ stepsOf i more →
            Reached (admitMachine.run (.init slots) (events ++ more)).1 u d) := by
  have hinv : ∀ {w is}, AdmitInv w → admitMachine.Along AdmitOk w is → AdmitInv (admitMachine.run w is).1 :=
    fun hw his => admitMachine.run_invariant (I := AdmitInv) (fun _ _ h hok => h.step hok) hw his
  refine ⟨(hinv (AdmitInv.init slots) hal).own, fun i u d hi hd hrelease => ?_⟩
  obtain ⟨hevents, hmore⟩ := (admitMachine.along_append _ _ _ _).mp hal
  have hmid := hinv (AdmitInv.init slots) hevents
  obtain ⟨n, hn, hp⟩ := Pending.of_inv hmid hi hd
  rw [Machine.run_append]
  rcases hp.run hmid hmore hrelease with hdone | ⟨hq, hle⟩
  · exact ⟨hdone.kept, fun _ => hdone.reached⟩
  · refine ⟨fun hu => ((hinv hmid hmore).expired u hu).2 i hq.waits, fun hsteps => ?_⟩
    omega

instance (w : AdmitWorld) (i u : Nat) (r : AdmitRecord) : Decidable (PollOk w i u r) :=
  inferInstanceAs (Decidable (_ ∨ (_ ∧ _ ∧ _)))

instance (w : AdmitWorld) : (e : AdmitEvent) → Decidable (AdmitOk w e)
  | .decide _ _ _ _ _ => inferInstanceAs (Decidable (_ ≤ _))
  | .step _ _ => inferInstanceAs (Decidable (_ → _))
  | .begin _ _ => isTrue trivial
  | .release _ => isTrue trivial

/-- A peer leaves before its decision; the next upgrade is admitted by its own decision, behind the stale one. -/
def lateDecision : List AdmitEvent :=
  [.begin 0 7, .step 0 true, .release 0, .begin 0 8, .step 0 true, .decide 0 1 0 [] [],
    .decide 1 WS_ADMIT_ACCEPT 0 "chat".toUTF8.toList []]

theorem decisions_applied_lateDecision :
    Reached (admitMachine.run (.init 1) (lateDecision ++ [AdmitEvent.step 0 true, .step 0 true])).1 1
      { conn := 8, decision := WS_ADMIT_ACCEPT, protocol := "chat".toUTF8.toList } :=
  ((decisions_applied 1 lateDecision [.step 0 true, .step 0 true] (by decide +kernel)).2 0 1 _
    (by decide +kernel) (by decide +kernel) (by decide)).2 (by decide +kernel)

def twoWaiting : List AdmitEvent :=
  [.begin 0 7, .begin 1 8, .step 0 true, .step 1 true, .decide 1 WS_ADMIT_ACCEPT 0 [] [], .step 0 true]

def reusedId : List AdmitEvent :=
  [.begin 0 7, .step 0 true, .release 0, .begin 0 7, .step 0 true, .decide 0 WS_ADMIT_ACCEPT 0 [] [],
    .step 0 true]

theorem stepAwaitAdmit_quiet (i : Nat) (taken : Bool) (h : w.channel = []) :
    (stepAwaitAdmit w i taken).channel = [] ∧ (stepAwaitAdmit w i taken).applied = w.applied := by
  unfold stepAwaitAdmit
  simp only [h, wsPollAdmission]
  split
  · exact ⟨h, rfl⟩
  · split_ifs
    all_goals first | exact ⟨h, rfl⟩ | exact ⟨rfl, rfl⟩

/-- The dropped decision is never applied, and an accept goes to a peer nobody admitted. -/
theorem decision_lost_twoWaiting :
    (Waits (admitMachine.run (.init 2) twoWaiting).1 1 1 ∧
      (1, { conn := 8, decision := WS_ADMIT_ACCEPT }) ∈ (admitMachine.run (.init 2) twoWaiting).1.decided ∧
      ∀ n, (admitMachine.run (.init 2) (twoWaiting ++ List.replicate n (AdmitEvent.step 1 true))).1.applied = []) ∧
    ¬ AnswersOwn (admitMachine.run (.init 1) reusedId).1 := by
  refine ⟨⟨by decide +kernel, by decide +kernel, fun n => ?_⟩, ?_⟩
  · rw [Machine.run_append]
    have hrun : ∀ w : AdmitWorld, w.channel = [] ∧ w.applied = [] →
        (admitMachine.run w (List.replicate n (AdmitEvent.step 1 true))).1.applied = [] := by
      intro w hw
      induction n generalizing w with
      | zero => exact hw.2
      | succ n ih =>
        obtain ⟨hchannel, happlied⟩ := stepAwaitAdmit_quiet 1 true hw.1
        exact ih _ ⟨hchannel, happlied.trans hw.2⟩
    exact hrun _ (by decide +kernel)
  · unfold AnswersOwn
    decide +kernel

end Wave.Http.Admit
