import Wave.Http.BodyForward
import Wave.Http.H2Conn

/-! # Credit that `request_out` refused (`http/server/app.rs`, `h2.rs`)

`grant` is tried as bytes of the response leave, and nowhere else. -/

namespace Wave.Http.App

open Lib

variable {rec : Bytes}

variable {s : H1App} {h : H2App}

/-- The exchange owes the application credit, and there is nothing left to deliver. -/
structure Exchange.Owes (x : Exchange) (q : RecordQueue) : Prop where
  isOpen : x.isOpen = true
  answering : x.respDone = false
  idle : q.isEmpty = true
  owed : 0 < x.respOwed

/-- `h1_record` and `app_record`: an exchange the application failed is closed. -/
def recorded (c : Contract) (L : Limits) (arena : Arena) (now : Nat) (x : Exchange) (q : RecordQueue) (rec : Bytes) :
    Option (Exchange × RecordQueue) :=
  (admitRecord c L arena now x q rec).map fun r => if r.1 = .violation ∨ r.1 = .abort then ({}, {}) else r.2

/-! ## HTTP/1.1 -/

/-- `CloseConn`; `DrainSend`, behind an error response; and what `finish_response` leads to. -/
inductive H1Phase where
  | appExchange
  | closeConn
  | drainSend
  | finished
deriving DecidableEq

/-- A connection slot in `Phase::AppExchange`. -/
structure H1App where
  x : Exchange
  q : RecordQueue := {}
  slot : H1Send := {}
  sendOffset : Nat := 0
  /-- `CONTINUE` of the exchange's state. -/
  expects : Bool := false
  body : Upload
  phase : H1Phase := .appExchange

structure H1Input where
  now : Nat
  /-- The bytes `net_send` takes at most. -/
  netSend : Nat
  sendBufSize : Nat
  head : Bytes → Option StagedHead
  /-- What `request_out` says to the CREDIT records of the step, and to its BODY records. -/
  grants : List Bool
  bodies : List Bool

def INTERIM_LEN : Nat := 25

namespace H1App

/-- `h1_close_exchange`, on the way to another phase. -/
def closeExchange (s : H1App) (phase : H1Phase) : H1App :=
  { s with
    x := {}
    q := {}
    expects := false
    slot := { s.slot with respStarted := false, respLengthKnown := false, respRemaining := 0 }
    phase := phase }

def failPhase (s : H1App) : H1Phase := if s.slot.respStarted then .closeConn else .drainSend

/-- `h1_record`. -/
def record (c : Contract) (L : Limits) (s : H1App) (arena : Arena) (now : Nat) (rec : Bytes) : Option H1App :=
  (recorded c L arena now s.x s.q rec).map fun r =>
    if s.x.isOpen && !r.1.isOpen then s.closeExchange s.failPhase else { s with x := r.1, q := r.2 }

def flush (s : H1App) (i : H1Input) : H1App :=
  { s with sendOffset := s.sendOffset + min i.netSend (s.slot.sendLen - s.sendOffset) }

def compose (c : Contract) (L : Limits) (s : H1App) (i : H1Input) : Option H1App :=
  (composeLoop (h1Turn c L i.sendBufSize i.head) (s.q.len + 1) i.grants s.x s.q { s.slot with sendLen := 0 }).map fun r =>
    let s' := { s with slot := r.io, sendOffset := 0 }
    if s.x.isOpen && !r.x.isOpen then s'.closeExchange s'.failPhase else { s' with x := r.x, q := r.q }

def interim (s : H1App) : H1App :=
  if s.slot.sendLen = 0 then { s with slot := { s.slot with sendLen := INTERIM_LEN }, expects := false } else s

def upload (s : H1App) : Upload := { s.body with reqCredit := s.x.reqCredit, reqDone := s.x.reqDone }

variable (bodyMax : Nat)

/-- `h1_forward`. -/
def forward (s : H1App) (i : H1Input) : H1App :=
  let u := s.upload.forward bodyMax i.bodies
  let s := { s with body := u, x := { s.x with reqCredit := u.reqCredit, reqDone := u.reqDone } }
  match u.ended with
  | none => s
  | some .peerGone => s.closeExchange .closeConn
  | some _ => s.closeExchange s.failPhase

/-- The end of a step: the response may be over, the peer gone, or the application's turn lapsed. -/
def settle (s : H1App) (now : Nat) : H1App :=
  if s.x.respDone ∧ s.q.isEmpty ∧ s.slot.sendLen = 0 then s.closeExchange .finished
  else if s.body.peerClosed ∧ s.slot.sendLen = 0 then { s with phase := .closeConn }
  else if s.x.deadlineMs ≠ 0 ∧ now ≥ s.x.deadlineMs then s.closeExchange s.failPhase
  else s

def relay (s : H1App) (i : H1Input) : H1App :=
  if s.expects ∧ s.x.credited ∧ s.x.respHead = false then s.interim
  else
    let s := if s.x.reqDone ∨ s.expects then s else s.forward bodyMax i
    if s.phase = .appExchange then s.settle i.now else s

/-- `h1_step`. -/
def step (c : Contract) (L : Limits) (s : H1App) (i : H1Input) : Option H1App :=
  if s.phase ≠ .appExchange then some s
  else
    let s := s.flush i
    (if s.sendOffset ≥ s.slot.sendLen then s.compose c L i else some s).map fun s =>
      if s.phase = .appExchange then s.relay bodyMax i else s

end H1App

inductive H1AppEvent where
  | record (arena : Arena) (now : Nat) (rec : Bytes)
  | arrive (n : Nat)
  | peerClose
  | step (i : H1Input)

/-- The state is `none` behind an access outside the queue's buffer. -/
def h1AppMachine (c : Contract) (L : Limits) (bodyMax : Nat) : Machine (Option H1App) H1AppEvent Empty where
  step s e :=
    (s.bind fun s => match e with
      | .record arena now rec => s.record c L arena now rec
      | .arrive n => some { s with body := s.body.turn bodyMax (.arrive n) }
      | .peerClose => some { s with body := s.body.turn bodyMax .peerClose }
      | .step i => s.step bodyMax c L i, [])

def H1App.start (L : Limits) (now : Nat) (hasBody expects : Bool) (body : Upload) : H1App where
  x := opened L now hasBody
  expects := hasBody && expects
  body := body

/-! ## HTTP/2 -/

/-- A stream of the table; it is the application's while its exchange is open. -/
structure AppStream where
  x : Exchange := {}
  q : RecordQueue := {}
  sendsBody : Bool := true
  headersSent : Bool := false
  respCarries : Bool := false
  sendWindow : Int := 0
  rx : Bytes := []
  endStreamIn : Bool := false

structure H2App where
  streams : Fin H2.MAX_STREAMS → AppStream := fun _ => {}
  connWindow : Int := 65535
  sendLen : Nat := 0
  appCursor : Nat := 0

structure H2Input where
  now : Nat
  sendBufSize : Nat
  head : Bytes → Option StagedHead
  /-- What `request_out` says to the CREDIT records of the pass, and to the BODY records of each stream. -/
  grants : List Bool
  bodies : Fin H2.MAX_STREAMS → List Bool
  /-- The frames the server answers with for an application, in bytes. -/
  answer : Nat

/-- `forward_rx`, of a record that is taken. `none` when there is none to send. -/
def AppStream.forwardRx (bodyMax : Nat) (st : AppStream) : Option AppStream :=
  if !st.x.isOpen || st.x.reqDone then none
  else
    let n := min (min st.rx.length st.x.reqCredit) bodyMax
    let last := st.endStreamIn && decide (n = st.rx.length)
    if n = 0 ∧ last = false then none
    else some
      { st with
        rx := st.rx.drop n
        x := { st.x with reqCredit := st.x.reqCredit - n, reqDone := last } }

def AppStream.forwardAll (bodyMax : Nat) : List Bool → AppStream → AppStream
  | true :: accepts, st =>
    match st.forwardRx bodyMax with
    | some st => forwardAll bodyMax accepts st
    | none => st
  | _, st => st

def AppStream.lapsed (st : AppStream) (now : Nat) : Bool :=
  st.x.isOpen && st.x.deadlineMs ≠ 0 && decide (now ≥ st.x.deadlineMs)

def RST_FRAME_LEN : Nat := 13

namespace H2App

def setStream (h : H2App) (j : Fin H2.MAX_STREAMS) (st : AppStream) : H2App :=
  { h with streams := Function.update h.streams j st }

/-- What `send_buf` holds behind a stream that ended: the end of its response, or the answer for the application. -/
def endLen (st : AppStream) (io : H2Send) (i : H2Input) : Nat :=
  if io.headersSent then io.used + if !st.x.reqDone ∧ io.used + RST_FRAME_LEN ≤ i.sendBufSize then RST_FRAME_LEN else 0
  else i.answer

/-- `compose_app_frames`, and whether anything was framed or the stream ended. -/
def composeFrames (c : Contract) (L : Limits) (h : H2App) (i : H2Input) (j : Fin H2.MAX_STREAMS) : Option (H2App × Bool) :=
  let st := h.streams j
  (composeLoop (h2Turn c L i.sendBufSize fun rec => (i.head rec).map StagedHead.len) (st.q.len + 1) i.grants st.x st.q
    { sendsBody := st.sendsBody, headersSent := st.headersSent, respCarries := st.respCarries, connWindow := h.connWindow,
      sendWindow := st.sendWindow }).map fun r =>
    let h := { h with connWindow := r.io.connWindow }
    if r.x.isOpen then
      ({ h with sendLen := r.io.used }.setStream j
        { st with x := r.x, q := r.q, headersSent := r.io.headersSent, respCarries := r.io.respCarries,
                  sendWindow := r.io.sendWindow }, decide (0 < r.io.used))
    else ({ h with sendLen := endLen st r.io i }.setStream j {}, true)

/-- The responses, one stream after the other until one fills `send_buf`. -/
def serve (c : Contract) (L : Limits) (i : H2Input) : List (Fin H2.MAX_STREAMS) → H2App → Option H2App
  | [], h => some h
  | j :: js, h =>
    if !(h.streams j).x.isOpen || (h.streams j).q.isEmpty then serve c L i js h
    else
      match h.composeFrames c L i j with
      | none => none
      | some (h, true) => some { h with appCursor := j }
      | some (h, false) => serve c L i js h

def turns (h : H2App) : List (Fin H2.MAX_STREAMS) :=
  (List.range H2.MAX_STREAMS).map fun k => ⟨(h.appCursor + 1 + k) % H2.MAX_STREAMS, Nat.mod_lt _ (by decide)⟩

def forwardBodies (bodyMax : Nat) (h : H2App) (i : H2Input) : H2App :=
  { h with streams := fun j => (h.streams j).forwardAll bodyMax (i.bodies j) }

/-- Into a free `send_buf`: the answer for the first application whose turn has lapsed, or a response. -/
def respond (c : Contract) (L : Limits) (h : H2App) (i : H2Input) : Option H2App :=
  if h.sendLen ≠ 0 then some h
  else
    match (List.finRange H2.MAX_STREAMS).find? fun j => (h.streams j).lapsed i.now with
    | some j => some ({ h with sendLen := i.answer }.setStream j {})
    | none => serve c L i h.turns h

/-- `pump_app_streams`. -/
def pump (c : Contract) (L : Limits) (bodyMax : Nat) (h : H2App) (i : H2Input) : Option H2App :=
  (h.forwardBodies bodyMax i).respond c L i

/-- `app_record`. -/
def record (c : Contract) (L : Limits) (h : H2App) (j : Fin H2.MAX_STREAMS) (arena : Arena) (now : Nat) (rec : Bytes) :
    Option H2App :=
  let st := h.streams j
  (recorded c L arena now st.x st.q rec).map fun r =>
    h.setStream j (if r.1.isOpen then { st with x := r.1, q := r.2 } else {})

end H2App

inductive H2AppEvent where
  | opened (j : Fin H2.MAX_STREAMS) (now : Nat) (hasBody sendsBody : Bool) (sendWindow : Int)
  | record (j : Fin H2.MAX_STREAMS) (arena : Arena) (now : Nat) (rec : Bytes)
  | data (j : Fin H2.MAX_STREAMS) (payload : Bytes) (ended : Bool)
  | windows (conn : Int) (j : Fin H2.MAX_STREAMS) (stream : Int)
  /-- `send_buf` has drained. -/
  | drained
  | pump (i : H2Input)

def h2AppMachine (c : Contract) (L : Limits) (bodyMax : Nat) : Machine (Option H2App) H2AppEvent Empty where
  step h e :=
    (h.bind fun h => match e with
      | .opened j now hasBody sendsBody sendWindow =>
        if (h.streams j).x.isOpen then some h
        else some (h.setStream j { x := App.opened L now hasBody, sendsBody := sendsBody, sendWindow := sendWindow })
      | .record j arena now rec => h.record c L j arena now rec
      | .data j payload ended =>
        let st := h.streams j
        if st.x.isOpen then some (h.setStream j { st with rx := st.rx ++ payload, endStreamIn := st.endStreamIn || ended })
        else some h
      | .windows conn j stream => some ({ h with connWindow := conn }.setStream j { h.streams j with sendWindow := stream })
      | .drained => some { h with sendLen := 0 }
      | .pump i => h.pump c L bodyMax i, [])

/-! ## What a compose and a record leave -/

structure Exchange.Kept (x x' : Exchange) : Prop where
  isOpen : x'.isOpen = x.isOpen
  respDone : x'.respDone = x.respDone
  respCredit : x'.respCredit = x.respCredit
  respOwed : x'.respOwed = x.respOwed
  deadlineMs : x'.deadlineMs = x.deadlineMs

section Exchange

variable {c : Contract} {L : Limits} {x x' : Exchange} {q : RecordQueue} {records : List Bytes}

theorem Exchange.Kept.refl (x : Exchange) : x.Kept x := ⟨rfl, rfl, rfl, rfl, rfl⟩

theorem Exchange.Kept.trans {y : Exchange} (h : x.Kept x') (h' : x'.Kept y) : x.Kept y :=
  ⟨h'.1.trans h.1, h'.2.trans h.2, h'.3.trans h.3, h'.4.trans h.4, h'.5.trans h.5⟩

theorem Exchange.Kept.owes (h : x.Kept x') : x'.Owes q ↔ x.Owes q :=
  ⟨fun ⟨hopen, hdone, hidle, howed⟩ => ⟨h.isOpen ▸ hopen, h.respDone ▸ hdone, hidle, h.respOwed ▸ howed⟩,
    fun ⟨hopen, hdone, hidle, howed⟩ => ⟨h.isOpen ▸ hopen, h.respDone ▸ hdone, hidle, h.respOwed ▸ howed⟩⟩

theorem Balanced.kept (h : Balanced c L x q records) (hkept : x.Kept x') : Balanced c L x' q records :=
  ⟨h.holds, h.taken, fun hclosed => h.idle (hkept.isOpen ▸ hclosed), fun hopen hdone => by
    rw [hkept.respCredit, hkept.respOwed]
    exact h.credit (hkept.isOpen ▸ hopen) (hkept.respDone ▸ hdone)⟩

theorem not_owes_closed (q : RecordQueue) : ¬ Exchange.Owes {} q := fun h => false_ne_true h.isOpen

theorem balanced_over (h : x.isOpen = false) : Balanced c L x {} [] :=
  ⟨RecordQueue.holds_empty L, Nat.le_refl 0, fun _ => rfl, fun hopen => by rw [h] at hopen; cases hopen⟩

theorem isEmpty_iff (h : q.Holds L records) : q.isEmpty = true ↔ records = [] := by
  rw [RecordQueue.isEmpty, decide_eq_true_iff, h.len]
  constructor
  · intro hlen
    have hle := length_le_held records
    exact eq_nil_of_length_eq_zero (by omega)
  · rintro rfl
    rfl

theorem Balanced.recorded (h : Balanced c L x q records) (arena : Arena) (now : Nat) (hrec : rec.length ≤ L.recordMax) :
    ∃ x' q' left, recorded c L arena now x q rec = some (x', q') ∧ Balanced c L x' q' left ∧
      (x'.Owes q' → x.Owes q) := by
  obtain ⟨o, x', q', htook, hcame⟩ := admitRecord_spec h arena now hrec
  unfold App.recorded
  rw [htook, map_some]
  dsimp only
  by_cases hfailed : o = .violation ∨ o = .abort
  · rw [if_pos hfailed]
    exact ⟨_, _, [], rfl, balanced_closed c L, fun howes => absurd howes (not_owes_closed _)⟩
  rw [if_neg hfailed]
  by_cases hqueued : o = .queued
  · obtain ⟨hbal, -⟩ := hcame.queued hqueued
    refine ⟨x', q', _, rfl, hbal, fun howes => ?_⟩
    exact absurd ((isEmpty_iff hbal.holds).mp howes.idle) (by simp)
  · obtain ⟨hbal, hopen, hdone, hcredit⟩ := hcame.kept hqueued
    refine ⟨x', q', records, rfl, hbal, fun howes => ?_⟩
    have hempty := (isEmpty_iff hbal.holds).mp howes.idle
    have hopen' := hopen.symm.trans howes.isOpen
    have hdone' := hdone.symm.trans howes.answering
    have hbefore := h.credit hopen' hdone'
    have hafter := hbal.credit howes.isOpen howes.answering
    have howed := howes.owed
    subst hempty
    simp only [waiting, map_nil, List.sum_nil, Nat.zero_sub] at hbefore hafter
    exact ⟨hopen', hdone', (isEmpty_iff h.holds).mpr rfl, by omega⟩

theorem composeLoop_idle {σ : Type} (turn : Exchange → RecordQueue → σ → Bytes → Bool → Option (Turn σ))
    (h : q.isEmpty = true) (accepts : List Bool) (x : Exchange) (io : σ) :
    composeLoop turn (q.len + 1) accepts x q io = some { x := x, q := q, io := io } := by
  have hlen : q.len = 0 := of_decide_eq_true h
  rw [composeLoop, RecordQueue.front, hlen, if_pos (by decide)]
  rfl

/-- `request_out` takes every CREDIT a compose of a queue can write. -/
def Accepting (L : Limits) (grants : List Bool) : Prop := L.queueLimit < grants.length ∧ ∀ b ∈ grants, b = true

theorem takeBody_repaid {σ : Type} {io : σ} {n : Nat} {whole : Bool} {r : Composed σ}
    (h : takeBody L x q io n whole true = some r) : ¬ r.x.Owes r.q := by
  unfold takeBody at h
  obtain ⟨q', -, rfl⟩ := map_eq_some_iff.mp h
  dsimp only
  rintro ⟨hopen, hdone, hidle, howed⟩
  rw [hidle] at hopen hdone howed
  unfold noteDelivered grant at hopen hdone howed
  split at howed
  next hnone =>
    rw [if_pos hnone] at hopen hdone
    rcases hnone with hzero | hended | hclosed
    · exact Nat.ne_of_gt howed hzero
    · rw [hended] at hdone
      cases hdone
    · rw [hopen] at hclosed
      cases hclosed
  next hsome =>
    rw [if_neg (by simp), if_pos rfl] at howed
    exact Nat.lt_irrefl 0 howed

/-- What a compose leaves owed over an empty queue was owed over one before. -/
def Repays {σ : Type} (turn : Exchange → RecordQueue → σ → Bytes → Bool → Option (Turn σ)) : Prop :=
  ∀ x q io rec t, ¬ x.Owes q → turn x q io rec true = some t → ¬ t.result.x.Owes t.result.q

theorem h1Turn_repays (sendBufSize : Nat) (head : Bytes → Option StagedHead) : Repays (h1Turn c L sendBufSize head) := by
  intro x q io rec t howes h
  unfold h1Turn at h
  dsimp only at h
  generalize (if (recordBody c rec).2 && !q.frontHeadDone then stageHead io (head rec) else some io) = staged at h
  cases staged with
  | none =>
    cases h
    exact not_owes_closed _
  | some slot =>
    dsimp only at h
    generalize (if ((recordBody c rec).2 && !q.frontHeadDone) = true then q.takeFrontHead else q) = q' at h
    generalize (if slot.respCarriesBody = true then (_ : Nat) else _) = n at h
    split at h
    · cases h
      exact not_owes_closed _
    generalize (if slot.respCarriesBody = true then (_ : H1Send) else slot) = slot' at h
    obtain ⟨r, htook, rfl⟩ := map_eq_some_iff.mp h
    split <;> exact takeBody_repaid htook

theorem h2Data_repaid {sendBufSize : Nat} {st : H2Send} {t : Turn H2Send} (howes : ¬ x.Owes q)
    (h : h2Data c L sendBufSize x q st rec true = some t) : ¬ t.result.x.Owes t.result.q := by
  unfold h2Data at h
  dsimp only at h
  split at h
  · cases h
    exact howes
  obtain ⟨r, htook, rfl⟩ := map_eq_some_iff.mp h
  split
  · exact not_owes_closed _
  split <;> exact takeBody_repaid htook

theorem h2Turn_repays (sendBufSize : Nat) (frame : Bytes → Option Nat) : Repays (h2Turn c L sendBufSize frame) := by
  intro x q st rec t howes h
  unfold h2Turn at h
  split at h
  · split at h
    · exact h2Data_repaid howes h
    dsimp only at h
    split at h
    · cases h
      exact not_owes_closed _
    split at h
    · cases h
      exact not_owes_closed _
    · have howes' : ¬ x.Owes q.takeFrontHead := fun h => howes ⟨h.isOpen, h.answering, h.idle, h.owed⟩
      exact h2Data_repaid howes' h
  · exact h2Data_repaid howes h

theorem composeLoop_repaid {σ : Type} {turn : Exchange → RecordQueue → σ → Bytes → Bool → Option (Turn σ)}
    (hturn : Repays turn) {fuel : Nat} {accepts : List Bool} (hlen : fuel ≤ accepts.length) (hall : ∀ b ∈ accepts, b = true)
    {io : σ} {r : Composed σ} (howes : ¬ x.Owes q) (h : composeLoop turn fuel accepts x q io = some r) :
    ¬ r.x.Owes r.q := by
  induction fuel generalizing accepts x q io r with
  | zero => cases h
  | succ fuel ih =>
    obtain ⟨accept, accepts, rfl⟩ := List.exists_cons_of_length_pos (Nat.lt_of_lt_of_le (Nat.succ_pos fuel) hlen)
    obtain rfl := hall accept mem_cons_self
    rw [composeLoop, bind_eq_bind, bind_eq_some_iff] at h
    obtain ⟨front, -, h⟩ := h
    cases front with
    | none =>
      cases h
      exact howes
    | some rec =>
      simp only [bind_eq_bind, bind_eq_some_iff, List.headD_cons, tail_cons] at h
      obtain ⟨t, hone, h⟩ := h
      have hleft := hturn x q io rec t howes hone
      cases t with
      | stop r' =>
        cases h
        exact hleft
      | next r' =>
        dsimp only at h
        obtain ⟨rest, hrest, hr⟩ := bind_eq_some_iff.mp h
        cases hr
        have hrepaid := ih (Nat.le_of_succ_le_succ hlen) (fun b hb => hall b (mem_cons_of_mem _ hb)) hleft hrest
        exact hrepaid

theorem Balanced.composed {σ : Type} {turn : Exchange → RecordQueue → σ → Bytes → Bool → Option (Turn σ)}
    (h : Balanced c L x q records) (hkeeps : Keeps c L turn) (hrepays : Repays turn) (accepts : List Bool) (io : σ) :
    ∃ r left, composeLoop turn (q.len + 1) accepts x q io = some r ∧ Balanced c L r.x r.q left ∧
      (Accepting L accepts → r.x.Owes r.q → x.Owes q) := by
  have hfuel : records.length < q.len + 1 := by
    have hle := length_le_held records
    rw [h.holds.len]
    omega
  obtain ⟨r, left, hr, -, hbal⟩ := composeLoop_spec hkeeps records hfuel accepts io h
  refine ⟨r, left, hr, hbal, fun ⟨hlen, hall⟩ howes => ?_⟩
  have hbound := h.holds.bound
  have hcap := h.holds.capped
  by_contra hnot
  exact composeLoop_repaid hrepays (by omega) hall hnot hr howes

end Exchange

/-! ## A step over an empty queue -/

namespace H1App

variable {c : Contract} {L : Limits} {bodyMax : Nat}

def Drains (s : H1App) (i : H1Input) : Prop := s.slot.sendLen - s.sendOffset ≤ i.netSend

/-- The step ends the exchange: its request body is refused or can never be whole, or the application has let its turn
lapse. -/
def Ends (bodyMax : Nat) (s : H1App) (i : H1Input) : Prop :=
  ¬ (s.expects ∧ s.x.credited ∧ s.x.respHead = false) ∧
    (s.x.reqDone = false ∧ s.expects = false ∧ (s.upload.forward bodyMax i.bodies).ended.isSome ∨
      s.x.deadlineMs ≠ 0 ∧ i.now ≥ s.x.deadlineMs ∧ ¬ (s.body.peerClosed ∧ s.Drains i))

theorem settle_owed (howes : s.x.Owes s.q) (now : Nat) :
    (s.settle now).x.respOwed = 0 ↔
      s.x.deadlineMs ≠ 0 ∧ now ≥ s.x.deadlineMs ∧ ¬ (s.body.peerClosed ∧ s.slot.sendLen = 0) := by
  have howed := howes.owed
  unfold settle
  rw [if_neg (by rw [howes.answering]; nofun)]
  by_cases hgone : s.body.peerClosed ∧ s.slot.sendLen = 0
  · rw [if_pos hgone]
    exact iff_of_false (Nat.ne_of_gt howed) fun h => h.2.2 hgone
  rw [if_neg hgone]
  by_cases hlapsed : s.x.deadlineMs ≠ 0 ∧ now ≥ s.x.deadlineMs
  · rw [if_pos hlapsed]
    exact iff_of_true rfl ⟨hlapsed.1, hlapsed.2, hgone⟩
  · rw [if_neg hlapsed]
    exact iff_of_false (Nat.ne_of_gt howed) fun h => hlapsed ⟨h.1, h.2.1⟩

theorem failPhase_ne (s : H1App) : s.failPhase ≠ .appExchange := by
  unfold failPhase
  split <;> nofun

theorem forward_on {i : H1Input} (h : (s.upload.forward bodyMax i.bodies).ended = none) :
    s.x.Kept (s.forward bodyMax i).x ∧ (s.forward bodyMax i).q = s.q ∧ (s.forward bodyMax i).phase = s.phase ∧
      (s.forward bodyMax i).slot = s.slot ∧ (s.forward bodyMax i).body.peerClosed = s.body.peerClosed := by
  unfold forward
  dsimp only
  rw [h]
  exact ⟨⟨rfl, rfl, rfl, rfl, rfl⟩, rfl, rfl, rfl, Upload.forward_peerClosed _ _ _⟩

theorem forward_over {i : H1Input} {e : BodyEnd} (h : (s.upload.forward bodyMax i.bodies).ended = some e) :
    (s.forward bodyMax i).x = {} ∧ (s.forward bodyMax i).q = {} ∧ (s.forward bodyMax i).phase ≠ .appExchange := by
  unfold forward
  dsimp only
  rw [h]
  cases e with
  | peerGone => exact ⟨rfl, rfl, nofun⟩
  | bad => exact ⟨rfl, rfl, failPhase_ne _⟩
  | tooLarge => exact ⟨rfl, rfl, failPhase_ne _⟩

theorem relay_owed (hphase : s.phase = .appExchange) (howes : s.x.Owes s.q) (i : H1Input) :
    (s.relay bodyMax i).x.respOwed = 0 ↔
      ¬ (s.expects ∧ s.x.credited ∧ s.x.respHead = false) ∧
        (s.x.reqDone = false ∧ s.expects = false ∧ (s.upload.forward bodyMax i.bodies).ended.isSome ∨
          s.x.deadlineMs ≠ 0 ∧ i.now ≥ s.x.deadlineMs ∧ ¬ (s.body.peerClosed ∧ s.slot.sendLen = 0)) := by
  have howed := Nat.ne_of_gt howes.owed
  unfold relay
  by_cases hinterim : s.expects ∧ s.x.credited ∧ s.x.respHead = false
  · rw [if_pos hinterim]
    refine iff_of_false ?_ fun h => h.1 hinterim
    unfold interim
    split <;> exact howed
  rw [if_neg hinterim, and_iff_right hinterim]
  dsimp only
  by_cases hskip : s.x.reqDone ∨ s.expects
  · rw [if_pos hskip, if_pos hphase, settle_owed howes]
    refine (or_iff_right fun h => ?_).symm
    rcases hskip with hdone | hexpects
    · rw [h.1] at hdone
      cases hdone
    · rw [h.2.1] at hexpects
      cases hexpects
  rw [if_neg hskip]
  obtain ⟨hdone, hexpects⟩ := not_or.mp hskip
  rw [not_eq_true] at hdone hexpects
  cases hended : (s.upload.forward bodyMax i.bodies).ended with
  | none =>
    obtain ⟨hkept, hq, hphase', hslot, hpeer⟩ := forward_on hended
    rw [if_pos (hphase'.trans hphase), settle_owed (by rw [hq]; exact hkept.owes.mpr howes), hkept.deadlineMs, hslot, hpeer]
    exact (or_iff_right fun h => by cases h.2.2).symm
  | some e =>
    obtain ⟨hclosed, -, hover⟩ := forward_over hended
    rw [if_neg hover, hclosed]
    exact iff_of_true rfl (.inl ⟨hdone, hexpects, rfl⟩)

theorem compose_idle (h : s.q.isEmpty = true) (i : H1Input) :
    s.compose c L i = some { s with slot := { s.slot with sendLen := 0 }, sendOffset := 0 } := by
  rw [compose, composeLoop_idle _ h, map_some]
  dsimp only
  rw [Bool.and_not_self, if_neg false_ne_true]

theorem flush_idle (h : s.q.isEmpty = true) (i : H1Input) :
    ∃ s', (if (s.flush i).sendOffset ≥ (s.flush i).slot.sendLen then (s.flush i).compose c L i else some (s.flush i)) = some s' ∧
      s'.x = s.x ∧ s'.q = s.q ∧ s'.expects = s.expects ∧ s'.body = s.body ∧ s'.phase = s.phase ∧
      (s'.slot.sendLen = 0 ↔ s.Drains i) := by
  have hoffset : (s.flush i).sendOffset = s.sendOffset + min i.netSend (s.slot.sendLen - s.sendOffset) := rfl
  have hlen : (s.flush i).slot.sendLen = s.slot.sendLen := rfl
  by_cases hdrains : s.Drains i
  · have hle : s.slot.sendLen - s.sendOffset ≤ i.netSend := hdrains
    rw [if_pos (by omega), compose_idle (show (s.flush i).q.isEmpty = true from h)]
    exact ⟨_, rfl, rfl, rfl, rfl, rfl, rfl, iff_of_true rfl hdrains⟩
  · have hlt : ¬ s.slot.sendLen - s.sendOffset ≤ i.netSend := hdrains
    rw [if_neg (by omega)]
    exact ⟨_, rfl, rfl, rfl, rfl, rfl, rfl, iff_of_false (by omega) hdrains⟩

theorem step_owed (hphase : s.phase = .appExchange) (howes : s.x.Owes s.q) (i : H1Input) :
    ∃ s', s.step bodyMax c L i = some s' ∧ (s'.x.respOwed = 0 ↔ s.Ends bodyMax i) := by
  obtain ⟨s₁, hflush, hx, hq, hexpects, hbody, hphase₁, hidle⟩ := flush_idle (c := c) (L := L) howes.idle i
  have hupload : s₁.upload = s.upload := by rw [upload, upload, hbody, hx]
  unfold step
  rw [if_neg (not_not.mpr hphase)]
  dsimp only
  rw [hflush, map_some, if_pos (hphase₁.trans hphase)]
  refine ⟨_, rfl, ?_⟩
  rw [relay_owed (hphase₁.trans hphase) (by rw [hx, hq]; exact howes), hupload, hx, hexpects, hbody, hidle]
  rfl

/-! ### Runs -/

def Sound (c : Contract) (L : Limits) (s : H1App) : Prop := ∃ records, Balanced c L s.x s.q records

/-- From `s` the exchange was kept or closed, and nothing was delivered. -/
def Onward (s s' : H1App) : Prop := s.x.Kept s'.x ∧ s'.q = s.q ∨ s'.x.isOpen = false ∧ s'.q = {}

theorem Onward.refl (s : H1App) : s.Onward s := .inl ⟨.refl _, rfl⟩

theorem Onward.trans {s s' t : H1App} (h : s.Onward s') (h' : s'.Onward t) : s.Onward t := by
  rcases h' with ⟨hkept', hq'⟩ | hclosed
  · rcases h with ⟨hkept, hq⟩ | ⟨hx, hq⟩
    · exact .inl ⟨hkept.trans hkept', hq'.trans hq⟩
    · exact .inr ⟨hkept'.isOpen.trans hx, hq'.trans hq⟩
  · exact .inr hclosed

theorem Onward.sound {s s' : H1App} (h : s.Onward s') (hs : s.Sound c L) : s'.Sound c L := by
  rcases h with ⟨hkept, hq⟩ | ⟨hx, hq⟩
  · obtain ⟨records, hbal⟩ := hs
    exact ⟨records, by rw [hq]; exact hbal.kept hkept⟩
  · exact ⟨[], by rw [hq]; exact balanced_over hx⟩

theorem Onward.owes {s s' : H1App} (h : s.Onward s') (howes : s'.x.Owes s'.q) : s.x.Owes s.q := by
  rcases h with ⟨hkept, hq⟩ | ⟨hx, hq⟩
  · rw [hq] at howes
    exact hkept.owes.mp howes
  · rw [howes.isOpen] at hx
    cases hx

theorem forward_onward (s : H1App) (i : H1Input) : s.Onward (s.forward bodyMax i) := by
  cases hended : (s.upload.forward bodyMax i.bodies).ended with
  | none =>
    obtain ⟨hkept, hq, -⟩ := forward_on hended
    exact .inl ⟨hkept, hq⟩
  | some e =>
    obtain ⟨hx, hq, -⟩ := forward_over hended
    exact .inr ⟨by rw [hx], hq⟩

theorem settle_onward (s : H1App) (now : Nat) : s.Onward (s.settle now) := by
  unfold settle
  split
  · exact .inr ⟨rfl, rfl⟩
  split
  · exact .inl ⟨.refl _, rfl⟩
  split
  · exact .inr ⟨rfl, rfl⟩
  · exact .refl s

theorem relay_onward (s : H1App) (i : H1Input) : s.Onward (s.relay bodyMax i) := by
  unfold relay
  split
  · unfold interim
    split <;> exact .inl ⟨.refl _, rfl⟩
  dsimp only
  have hbody : s.Onward (if s.x.reqDone ∨ s.expects then s else s.forward bodyMax i) := by
    split
    · exact .refl s
    · exact s.forward_onward i
  generalize (if s.x.reqDone ∨ s.expects then s else s.forward bodyMax i) = s' at hbody ⊢
  split
  · exact hbody.trans (s'.settle_onward i.now)
  · exact hbody

theorem Sound.composed (h : s.Sound c L) (i : H1Input) :
    ∃ s', s.compose c L i = some s' ∧ s'.Sound c L ∧ (Accepting L i.grants → s'.x.Owes s'.q → s.x.Owes s.q) := by
  obtain ⟨records, hbal⟩ := h
  obtain ⟨r, left, hr, hbal', howes⟩ := hbal.composed (h1Turn_keeps c L i.sendBufSize i.head)
    (h1Turn_repays i.sendBufSize i.head) i.grants { s.slot with sendLen := 0 }
  rw [compose, hr, map_some]
  refine ⟨_, rfl, ?_⟩
  dsimp only
  split
  · exact ⟨⟨[], balanced_closed c L⟩, fun _ h => absurd h (not_owes_closed _)⟩
  · exact ⟨⟨left, hbal'⟩, howes⟩

theorem Sound.stepped (h : s.Sound c L) (i : H1Input) :
    ∃ s', s.step bodyMax c L i = some s' ∧ s'.Sound c L ∧ (Accepting L i.grants → s'.x.Owes s'.q → s.x.Owes s.q) := by
  unfold step
  split
  · exact ⟨s, rfl, h, fun _ howes => howes⟩
  dsimp only
  obtain ⟨s₁, hs₁, hsound, howes⟩ : ∃ s₁,
      (if (s.flush i).sendOffset ≥ (s.flush i).slot.sendLen then (s.flush i).compose c L i else some (s.flush i)) = some s₁ ∧
        s₁.Sound c L ∧ (Accepting L i.grants → s₁.x.Owes s₁.q → s.x.Owes s.q) := by
    have hflush : (s.flush i).Sound c L := h
    split
    · exact hflush.composed i
    · exact ⟨_, rfl, hflush, fun _ howes => howes⟩
  rw [hs₁, map_some]
  refine ⟨_, rfl, ?_⟩
  have honward : s₁.Onward (if s₁.phase = .appExchange then s₁.relay bodyMax i else s₁) := by
    split
    · exact s₁.relay_onward i
    · exact .refl s₁
  exact ⟨honward.sound hsound, fun haccepting howes' => howes haccepting (honward.owes howes')⟩

theorem Sound.recorded (h : s.Sound c L) (arena : Arena) (now : Nat) (hrec : rec.length ≤ L.recordMax) :
    ∃ s', s.record c L arena now rec = some s' ∧ s'.Sound c L ∧ (s'.x.Owes s'.q → s.x.Owes s.q) := by
  obtain ⟨records, hbal⟩ := h
  obtain ⟨x', q', left, htook, hbal', howes⟩ := hbal.recorded arena now hrec
  rw [record, htook, map_some]
  refine ⟨_, rfl, ?_⟩
  dsimp only
  split
  · exact ⟨⟨[], balanced_closed c L⟩, fun h => absurd h (not_owes_closed _)⟩
  · exact ⟨⟨left, hbal'⟩, howes⟩

end H1App

/-- A record read is as long as one read of `RECORD_MAX` bytes gives. -/
def H1AppEvent.Sized (L : Limits) : H1AppEvent → Prop
  | .record _ _ rec => rec.length ≤ L.recordMax
  | _ => True

/-- `request_out` takes the CREDIT records of the step. -/
def H1AppEvent.Granted (L : Limits) : H1AppEvent → Prop
  | .step i => Accepting L i.grants
  | _ => True

theorem h1AppMachine_step {c : Contract} {L : Limits} (bodyMax : Nat) (h : s.Sound c L) {e : H1AppEvent}
    (hsized : e.Sized L) :
    ∃ s', ((h1AppMachine c L bodyMax).step (some s) e).1 = some s' ∧ s'.Sound c L ∧
      (e.Granted L → s'.x.Owes s'.q → s.x.Owes s.q) := by
  cases e with
  | record arena now rec =>
    obtain ⟨s', hs', hsound, howes⟩ := h.recorded arena now hsized
    exact ⟨s', hs', hsound, fun _ => howes⟩
  | arrive n => exact ⟨_, rfl, h, fun _ howes => howes⟩
  | peerClose => exact ⟨_, rfl, h, fun _ howes => howes⟩
  | step i => exact h.stepped i

section Stream

variable {bodyMax : Nat} {st st' : AppStream}

theorem AppStream.forwardRx_kept (h : st.forwardRx bodyMax = some st') : st.x.Kept st'.x ∧ st'.q = st.q := by
  unfold forwardRx at h
  split at h
  · cases h
  dsimp only at h
  split at h
  · cases h
  · cases h
    exact ⟨⟨rfl, rfl, rfl, rfl, rfl⟩, rfl⟩

theorem AppStream.forwardAll_kept (accepts : List Bool) (st : AppStream) :
    st.x.Kept (st.forwardAll bodyMax accepts).x ∧ (st.forwardAll bodyMax accepts).q = st.q := by
  induction accepts generalizing st with
  | nil => exact ⟨.refl _, rfl⟩
  | cons accept accepts ih =>
    cases accept with
    | false => exact ⟨.refl _, rfl⟩
    | true =>
      rw [forwardAll]
      cases hone : st.forwardRx bodyMax with
      | none => exact ⟨.refl _, rfl⟩
      | some st₁ =>
        obtain ⟨hkept, hq⟩ := forwardRx_kept hone
        obtain ⟨hkept', hq'⟩ := ih st₁
        exact ⟨hkept.trans hkept', hq'.trans hq⟩

end Stream

namespace H2App

variable {c : Contract} {L : Limits} {bodyMax : Nat}

theorem setStream_self (h : H2App) (j : Fin H2.MAX_STREAMS) (st : AppStream) : (h.setStream j st).streams j = st :=
  Function.update_self ..

theorem setStream_ne (h : H2App) {j k : Fin H2.MAX_STREAMS} (hne : k ≠ j) (st : AppStream) :
    (h.setStream j st).streams k = h.streams k :=
  Function.update_of_ne hne ..

def Sound (c : Contract) (L : Limits) (h : H2App) : Prop :=
  ∀ j, ∃ records, Balanced c L (h.streams j).x (h.streams j).q records

def OwesAt (h : H2App) (j : Fin H2.MAX_STREAMS) : Prop := (h.streams j).x.Owes (h.streams j).q

/-- The pass ends the stream: `send_buf` is free, and it is the first whose application has let its turn lapse. -/
def Ends (h : H2App) (i : H2Input) (j : Fin H2.MAX_STREAMS) : Prop :=
  h.sendLen = 0 ∧ (h.streams j).lapsed i.now ∧ ∀ k < j, ¬ (h.streams k).lapsed i.now

theorem Sound.set (hs : h.Sound c L) (j : Fin H2.MAX_STREAMS) {st : AppStream} {records : List Bytes}
    (hbal : Balanced c L st.x st.q records) : (h.setStream j st).Sound c L := by
  intro k
  by_cases hk : k = j
  · subst hk
    rw [setStream_self]
    exact ⟨records, hbal⟩
  · rw [setStream_ne _ hk]
    exact hs k

theorem owesAt_set {j k : Fin H2.MAX_STREAMS} {st : AppStream}
    (hst : st.x.Owes st.q → h.OwesAt j) (howes : (h.setStream j st).OwesAt k) : h.OwesAt k := by
  by_cases hk : k = j
  · subst hk
    rw [OwesAt, setStream_self] at howes
    exact hst howes
  · rw [OwesAt, setStream_ne _ hk] at howes
    exact howes

theorem Sound.composed (hs : h.Sound c L) (i : H2Input) (j : Fin H2.MAX_STREAMS) :
    ∃ h' framed, h.composeFrames c L i j = some (h', framed) ∧ h'.Sound c L ∧
      (∀ k, k ≠ j → h'.streams k = h.streams k) ∧ (Accepting L i.grants → ∀ k, h'.OwesAt k → h.OwesAt k) := by
  obtain ⟨records, hbal⟩ := hs j
  obtain ⟨r, left, hr, hbal', howes⟩ := hbal.composed
    (h2Turn_keeps c L i.sendBufSize fun rec => (i.head rec).map StagedHead.len) (h2Turn_repays i.sendBufSize _) i.grants
    { sendsBody := (h.streams j).sendsBody, headersSent := (h.streams j).headersSent,
      respCarries := (h.streams j).respCarries, connWindow := h.connWindow, sendWindow := (h.streams j).sendWindow }
  rw [composeFrames]
  dsimp only
  rw [hr, map_some]
  cases hopen : r.x.isOpen with
  | true =>
    rw [if_pos rfl]
    have hs' : Sound c L { h with connWindow := r.io.connWindow, sendLen := r.io.used } := hs
    exact ⟨_, _, rfl, hs'.set j hbal', fun k hk => setStream_ne _ hk _, fun haccepting k => owesAt_set (howes haccepting)⟩
  | false =>
    rw [if_neg false_ne_true]
    have hs' : Sound c L { h with connWindow := r.io.connWindow, sendLen := endLen (h.streams j) r.io i } := hs
    exact ⟨_, _, rfl, hs'.set j (balanced_closed c L), fun k hk => setStream_ne _ hk _, fun _ k =>
      owesAt_set fun h => absurd h (not_owes_closed _)⟩

theorem Sound.served (js : List (Fin H2.MAX_STREAMS)) (hs : h.Sound c L) (i : H2Input) :
    ∃ h', serve c L i js h = some h' ∧ h'.Sound c L ∧
      (∀ k, (h.streams k).q.isEmpty = true → h'.streams k = h.streams k) ∧
      (Accepting L i.grants → ∀ k, h'.OwesAt k → h.OwesAt k) := by
  induction js generalizing h with
  | nil => exact ⟨h, rfl, hs, fun _ _ => rfl, fun _ _ howes => howes⟩
  | cons j js ih =>
    rw [serve]
    by_cases hskip : (!(h.streams j).x.isOpen || (h.streams j).q.isEmpty) = true
    · rw [if_pos hskip]
      exact ih hs
    rw [if_neg hskip]
    have hwaits : (h.streams j).q.isEmpty ≠ true := fun hempty => hskip (by rw [hempty, Bool.or_true])
    obtain ⟨h₁, framed, hcompose, hs₁, hothers, howes⟩ := hs.composed i j
    have hkept : ∀ k, (h.streams k).q.isEmpty = true → h₁.streams k = h.streams k := fun k hk =>
      hothers k fun heq => hwaits (heq ▸ hk)
    rw [hcompose]
    cases framed with
    | true => exact ⟨_, rfl, hs₁, hkept, howes⟩
    | false =>
      obtain ⟨h', hserve, hs', hkept', howes'⟩ := ih hs₁
      refine ⟨h', hserve, hs', fun k hk => ?_, fun haccepting k hk => howes haccepting k (howes' haccepting k hk)⟩
      rw [hkept' k (by rw [hkept k hk]; exact hk), hkept k hk]

theorem find_lapsed (h : H2App) (now : Nat) (j : Fin H2.MAX_STREAMS) :
    ((List.finRange H2.MAX_STREAMS).find? fun k => (h.streams k).lapsed now) = some j ↔
      (h.streams j).lapsed now ∧ ∀ k < j, ¬ (h.streams k).lapsed now := by
  rw [List.find?_eq_some_iff_getElem]
  refine and_congr_right fun _ => ⟨?_, fun hfirst => ⟨j, by simp, by simp, fun k hk => ?_⟩⟩
  · rintro ⟨n, hn, rfl, hfirst⟩ k hk
    rw [List.getElem_finRange] at hk
    have hbefore := hfirst k hk
    simpa using hbefore
  · simpa using hfirst ⟨k, by omega⟩ hk

theorem Sound.responded (hs : h.Sound c L) (i : H2Input) :
    ∃ h', h.respond c L i = some h' ∧ h'.Sound c L ∧ (Accepting L i.grants → ∀ k, h'.OwesAt k → h.OwesAt k) ∧
      ∀ j, h.OwesAt j → ((h'.streams j).x.respOwed = 0 ↔ h.Ends i j) := by
  have howed : ∀ {j} {st : AppStream}, h.OwesAt j → st = h.streams j → st.x.respOwed ≠ 0 := by
    rintro j st hj rfl
    exact Nat.ne_of_gt hj.owed
  unfold respond
  by_cases hfull : h.sendLen ≠ 0
  · rw [if_pos hfull]
    exact ⟨h, rfl, hs, fun _ _ hk => hk, fun j hj => iff_of_false (howed hj rfl) fun hend => hfull hend.1⟩
  rw [if_neg hfull]
  cases hfind : (List.finRange H2.MAX_STREAMS).find? fun k => (h.streams k).lapsed i.now with
  | some k =>
    have hs' : Sound c L { h with sendLen := i.answer } := hs
    refine ⟨_, rfl, hs'.set k (balanced_closed c L), fun _ j => ?_, fun j hj => ?_⟩
    · exact owesAt_set (h := { h with sendLen := i.answer }) fun h => absurd h (not_owes_closed _)
    · rw [Ends, ← find_lapsed, hfind]
      by_cases hjk : j = k
      · subst hjk
        rw [setStream_self]
        exact iff_of_true rfl ⟨not_not.mp hfull, rfl⟩
      · refine iff_of_false (howed hj (setStream_ne _ hjk _)) fun hend => hjk ?_
        exact (Option.some.inj hend.2).symm
  | none =>
    obtain ⟨h', hserve, hs', hidle, howes⟩ := hs.served h.turns i
    refine ⟨h', hserve, hs', howes, fun j hj => iff_of_false (howed hj (hidle j hj.idle)) fun hend => ?_⟩
    rw [Ends, ← find_lapsed, hfind] at hend
    cases hend.2

theorem Sound.pumped (hs : h.Sound c L) (bodyMax : Nat) (i : H2Input) :
    ∃ h', h.pump c L bodyMax i = some h' ∧ h'.Sound c L ∧ (Accepting L i.grants → ∀ k, h'.OwesAt k → h.OwesAt k) ∧
      ∀ j, h.OwesAt j → ((h'.streams j).x.respOwed = 0 ↔ h.Ends i j) := by
  have hkept : ∀ j, (h.streams j).x.Kept ((h.forwardBodies bodyMax i).streams j).x ∧
      ((h.forwardBodies bodyMax i).streams j).q = (h.streams j).q := fun j => AppStream.forwardAll_kept _ _
  have hs₁ : (h.forwardBodies bodyMax i).Sound c L := fun j => by
    obtain ⟨records, hbal⟩ := hs j
    exact ⟨records, by rw [(hkept j).2]; exact hbal.kept (hkept j).1⟩
  have howes : ∀ j, (h.forwardBodies bodyMax i).OwesAt j ↔ h.OwesAt j := fun j => by
    rw [OwesAt, (hkept j).2]
    exact (hkept j).1.owes
  have hends : ∀ j, (h.forwardBodies bodyMax i).Ends i j ↔ h.Ends i j := fun j => by
    simp only [Ends, AppStream.lapsed, (hkept _).1.isOpen, (hkept _).1.deadlineMs]
    rfl
  obtain ⟨h', hrespond, hs', howes', hover⟩ := hs₁.responded i
  exact ⟨h', hrespond, hs', fun haccepting k hk => (howes k).mp (howes' haccepting k hk),
    fun j hj => (hover j ((howes j).mpr hj)).trans (hends j)⟩

theorem Sound.recorded (hs : h.Sound c L) (j : Fin H2.MAX_STREAMS) (arena : Arena) (now : Nat)
    (hrec : rec.length ≤ L.recordMax) :
    ∃ h', h.record c L j arena now rec = some h' ∧ h'.Sound c L ∧ ∀ k, h'.OwesAt k → h.OwesAt k := by
  obtain ⟨records, hbal⟩ := hs j
  obtain ⟨x', q', left, htook, hbal', howes⟩ := hbal.recorded arena now hrec
  rw [record, htook, map_some]
  refine ⟨_, rfl, ?_⟩
  split
  · exact ⟨hs.set j hbal', fun k => owesAt_set howes⟩
  · exact ⟨hs.set j (balanced_closed c L), fun k => owesAt_set fun h => absurd h (not_owes_closed _)⟩

theorem balanced_opened (c : Contract) (L : Limits) (now : Nat) (hasBody : Bool) : Balanced c L (opened L now hasBody) {} [] :=
  ⟨RecordQueue.holds_empty L, Nat.le_refl 0, fun _ => rfl, fun _ _ => rfl⟩

end H2App

def H2AppEvent.Sized (L : Limits) : H2AppEvent → Prop
  | .record _ _ _ rec => rec.length ≤ L.recordMax
  | _ => True

def H2AppEvent.Granted (L : Limits) : H2AppEvent → Prop
  | .pump i => Accepting L i.grants
  | _ => True

theorem h2AppMachine_step {c : Contract} {L : Limits} (bodyMax : Nat) (hs : h.Sound c L) {e : H2AppEvent}
    (hsized : e.Sized L) :
    ∃ h', ((h2AppMachine c L bodyMax).step (some h) e).1 = some h' ∧ h'.Sound c L ∧
      (e.Granted L → ∀ k, h'.OwesAt k → h.OwesAt k) := by
  have hset : ∀ (j : Fin H2.MAX_STREAMS) (st : AppStream), (h.streams j).x.Kept st.x → st.q = (h.streams j).q →
      (h.setStream j st).Sound c L ∧ ∀ k, (h.setStream j st).OwesAt k → h.OwesAt k := by
    intro j st hkept hq
    obtain ⟨records, hbal⟩ := hs j
    refine ⟨hs.set j (by rw [hq]; exact hbal.kept hkept), fun k => H2App.owesAt_set fun howes => ?_⟩
    rw [hq] at howes
    exact hkept.owes.mp howes
  cases e with
  | «opened» j now hasBody sendsBody sendWindow =>
    simp only [h2AppMachine, bind_some]
    split
    · exact ⟨h, rfl, hs, fun _ _ howes => howes⟩
    · refine ⟨_, rfl, hs.set j (H2App.balanced_opened c L now hasBody), fun _ k => H2App.owesAt_set fun howes => ?_⟩
      exact absurd howes.owed (Nat.lt_irrefl 0)
  | record j arena now rec =>
    obtain ⟨h', hh', hs', howes⟩ := hs.recorded j arena now hsized
    exact ⟨h', hh', hs', fun _ => howes⟩
  | data j payload ended =>
    simp only [h2AppMachine, bind_some]
    split
    · have hput := hset j { h.streams j with
        rx := (h.streams j).rx ++ payload, endStreamIn := (h.streams j).endStreamIn || ended } (.refl _) rfl
      exact ⟨_, rfl, hput.1, fun _ => hput.2⟩
    · exact ⟨h, rfl, hs, fun _ _ howes => howes⟩
  | windows conn j stream =>
    have hput := hset j { h.streams j with sendWindow := stream } (.refl _) rfl
    exact ⟨_, rfl, hput.1, fun _ => hput.2⟩
  | drained => exact ⟨_, rfl, hs, fun _ _ howes => howes⟩
  | pump i =>
    obtain ⟨h', hh', hs', howes, -⟩ := hs.pumped bodyMax i
    exact ⟨h', hh', hs', howes⟩

theorem h1AppMachine_run {c : Contract} {L : Limits} (bodyMax : Nat) (h : s.Sound c L) (es : List H1AppEvent)
    (hsized : ∀ e ∈ es, e.Sized L) :
    ∃ s', ((h1AppMachine c L bodyMax).run (some s) es).1 = some s' ∧ s'.Sound c L ∧
      ((∀ e ∈ es, e.Granted L) → s'.x.Owes s'.q → s.x.Owes s.q) := by
  induction es generalizing s with
  | nil => exact ⟨s, rfl, h, fun _ howes => howes⟩
  | cons e es ih =>
    obtain ⟨s₁, hstep, hsound, howes⟩ := h1AppMachine_step bodyMax h (hsized e mem_cons_self)
    obtain ⟨s', hrun, hsound', howes'⟩ := ih hsound fun e he => hsized e (mem_cons_of_mem _ he)
    refine ⟨s', by rw [Machine.run_cons, hstep, hrun], hsound', fun hgranted h' => ?_⟩
    exact howes (hgranted e mem_cons_self) (howes' (fun e he => hgranted e (mem_cons_of_mem _ he)) h')

theorem h2AppMachine_run {c : Contract} {L : Limits} (bodyMax : Nat) (hs : h.Sound c L) (es : List H2AppEvent)
    (hsized : ∀ e ∈ es, e.Sized L) :
    ∃ h', ((h2AppMachine c L bodyMax).run (some h) es).1 = some h' ∧ h'.Sound c L ∧
      ((∀ e ∈ es, e.Granted L) → ∀ j, h'.OwesAt j → h.OwesAt j) := by
  induction es generalizing h with
  | nil => exact ⟨h, rfl, hs, fun _ _ howes => howes⟩
  | cons e es ih =>
    obtain ⟨h₁, hstep, hs₁, howes⟩ := h2AppMachine_step bodyMax hs (hsized e mem_cons_self)
    obtain ⟨h', hrun, hs', howes'⟩ := ih hs₁ fun e he => hsized e (mem_cons_of_mem _ he)
    refine ⟨h', by rw [Machine.run_cons, hstep, hrun], hs', fun hgranted j hj => ?_⟩
    exact howes (hgranted e mem_cons_self) j (howes' (fun e he => hgranted e (mem_cons_of_mem _ he)) j hj)

/-- A further step leaves nothing owed over an empty queue exactly when it ends the exchange. No exchange gets there
while `request_out` takes the CREDITs. -/
theorem owed_retried_iff (c : Contract) (L : Limits) (bodyMax : Nat) :
    (∀ (now : Nat) (hasBody expects : Bool) (body : Upload) (es : List H1AppEvent), (∀ e ∈ es, e.Sized L) →
      ∃ s, ((h1AppMachine c L bodyMax).run (some (.start L now hasBody expects body)) es).1 = some s ∧
        (s.phase = .appExchange → s.x.Owes s.q → ∀ i, ∃ s', s.step bodyMax c L i = some s' ∧
          (s'.x.respOwed = 0 ↔ s.Ends bodyMax i)) ∧
        ((∀ e ∈ es, e.Granted L) → ¬ s.x.Owes s.q)) ∧
    (∀ es : List H2AppEvent, (∀ e ∈ es, e.Sized L) →
      ∃ h, ((h2AppMachine c L bodyMax).run (some {}) es).1 = some h ∧ ∀ j,
        (h.OwesAt j → ∀ i, ∃ h', h.pump c L bodyMax i = some h' ∧ ((h'.streams j).x.respOwed = 0 ↔ h.Ends i j)) ∧
        ((∀ e ∈ es, e.Granted L) → ¬ h.OwesAt j)) := by
  refine ⟨fun now hasBody expects body es hsized => ?_, fun es hsized => ?_⟩
  · have hstart : (H1App.start L now hasBody expects body).Sound c L := ⟨[], H2App.balanced_opened c L now hasBody⟩
    obtain ⟨s, hrun, -, howes⟩ := h1AppMachine_run bodyMax hstart es hsized
    refine ⟨s, hrun, fun hphase hs i => H1App.step_owed hphase hs i, fun hgranted hs => ?_⟩
    exact absurd (howes hgranted hs).owed (Nat.lt_irrefl 0)
  · have hstart : H2App.Sound c L {} := fun j => ⟨[], balanced_closed c L⟩
    obtain ⟨h, hrun, hs, howes⟩ := h2AppMachine_run bodyMax hstart es hsized
    refine ⟨h, hrun, fun j => ⟨fun hj i => ?_, fun hgranted hj => ?_⟩⟩
    · obtain ⟨h', hpump, -, -, hover⟩ := hs.pumped bodyMax i
      exact ⟨h', hpump, hover j hj⟩
    · exact not_owes_closed _ (howes hgranted j hj)

def tenBytes : Bytes := 2 :: 1 :: List.replicate 24 0

/-- A step that finds room everywhere and is told `accept` for each record it writes. -/
def roomyStep (accept : Bool) : H1Input where
  now := 1
  netSend := 8192
  sendBufSize := 8192
  head _ := some { len := 64, carries := true, length := none }
  grants := List.replicate 24569 accept
  bodies := List.replicate FORWARDS_PER_STEP accept

def bodilessExchange : H1App :=
  .start smallLimits 0 false false { reader := {}, headerEnd := 40, recvCap := 2048, wire := [] }

/-- Its answer begins with ten bytes while `request_out` is full. -/
def tenBytesRefused : List H1AppEvent :=
  [.record wideArena 0 moreHead, .record wideArena 0 tenBytes, .step (roomyStep false)]

theorem tenBytesRefused_owed :
    (((h1AppMachine plainContract smallLimits 8176).run (some bodilessExchange) tenBytesRefused).1.map fun s =>
      (s.phase, s.x, s.q.isEmpty)) =
      some (.appExchange,
        { deadlineMs := 30000, respCredit := 8166, respOwed := 10, isOpen := true, reqDone := true, respHead := true }, true) := by
  decide +kernel

/-- The ten bytes have left, the application is not told, and a step in which every write is taken does not tell it. -/
theorem refused_credit_not_retried :
    ¬ ∀ (es : List H1AppEvent) (s : H1App) (i : H1Input),
      ((h1AppMachine plainContract smallLimits 8176).run (some bodilessExchange) es).1 = some s → s.phase = .appExchange →
      s.x.Owes s.q → Accepting smallLimits i.grants → (∀ b ∈ i.bodies, b = true) →
      ∃ s', s.step 8176 plainContract smallLimits i = some s' ∧ s'.x.respOwed = 0 := by
  intro h
  have howed := tenBytesRefused_owed
  cases hrun : ((h1AppMachine plainContract smallLimits 8176).run (some bodilessExchange) tenBytesRefused).1 with
  | none =>
    rw [hrun] at howed
    cases howed
  | some s =>
    rw [hrun, map_some, Option.some.injEq, Prod.mk.injEq, Prod.mk.injEq] at howed
    obtain ⟨hphase, hx, hq⟩ := howed
    have howes : s.x.Owes s.q := ⟨by rw [hx], by rw [hx], hq, by rw [hx]; decide⟩
    have hall : ∀ n, ∀ b ∈ List.replicate n true, b = true := fun n b hb => eq_of_mem_replicate hb
    obtain ⟨s', hstep, hzero⟩ := h tenBytesRefused s (roomyStep true) hrun hphase howes
      ⟨by rw [roomyStep, length_replicate]; decide, hall _⟩ (hall _)
    obtain ⟨s'', hstep', hover⟩ : ∃ s'', s.step 8176 plainContract smallLimits (roomyStep true) = some s'' ∧
        (s''.x.respOwed = 0 ↔ s.Ends 8176 (roomyStep true)) := H1App.step_owed hphase howes _
    rw [hstep'] at hstep
    cases hstep
    obtain ⟨-, hbody | hlapsed⟩ := hover.mp hzero
    · rw [hx] at hbody
      cases hbody.1
    · rw [hx] at hlapsed
      exact absurd hlapsed.2.1 (by decide)

end Wave.Http.App
