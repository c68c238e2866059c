import Wave.Http.RecordQueue
import Wave.Lib.Machine

/-! # Response credit of an application exchange (`http/server/app.rs`, `h2.rs`)

`admit` queues a record and takes its body off the credit; what has left is granted back by CREDIT records. -/

namespace Wave.Http.App

open Lib

variable {L : Limits} {c : Contract} {records : List Bytes}
  {s : AppRun} {q : RecordQueue} {rec : Bytes} {x : Exchange}

/-- What the SDK's `parse_response` reads off a record, with the flags `MORE` and `HOLD`. -/
inductive Record where
  | credit (bytes : Nat)
  | abort
  | datagram
  | link
  | head (status : Nat) (more hold : Bool) (body : Bytes)
  | body (more : Bool) (data : Bytes)
deriving DecidableEq

/-- The exchange contract, which belongs to the SDK. -/
structure Contract where
  parseResponse : Bytes → Option Record

def APP_TIMEOUT_MS : Nat := 30000
def HOLD_TIMEOUT_MS : Nat := 3600000

/-- `u32::saturating_add`. -/
def satAdd (a b : Nat) : Nat := min (a + b) (2 ^ 32 - 1)

/-- `u64::saturating_add`. -/
def deadlineAt (now ms : Nat) : Nat := min (now + ms) (2 ^ 64 - 1)

structure Exchange where
  deadlineMs : Nat := 0
  reqCredit : Nat := 0
  respCredit : Nat := 0
  respOwed : Nat := 0
  isOpen : Bool := false
  reqDone : Bool := false
  respHead : Bool := false
  respDone : Bool := false
  credited : Bool := false
  /-- `HOLD` of the response HEAD's flags. -/
  hold : Bool := false
deriving DecidableEq

def opened (L : Limits) (now : Nat) (hasBody : Bool) : Exchange where
  isOpen := true
  reqDone := !hasBody
  respCredit := L.respWindow
  deadlineMs := deadlineAt now APP_TIMEOUT_MS

/-- `record_body`: the body bytes of a record, and whether it is a HEAD. -/
def recordBody (c : Contract) (rec : Bytes) : Bytes × Bool :=
  match c.parseResponse rec with
  | some (.head _ _ _ body) => (body, true)
  | some (.body _ data) => (data, false)
  | _ => ([], false)

/-- `record_ends`: the record carries no `MORE`. -/
def recordEnds (c : Contract) (rec : Bytes) : Bool :=
  match c.parseResponse rec with
  | some (.head _ more _ _) => !more
  | some (.body more _) => !more
  | _ => false

def progressTimeoutMs (hold : Bool) : Nat := if hold then HOLD_TIMEOUT_MS else APP_TIMEOUT_MS

inductive Admit where
  | queued
  | credit
  | abort
  | violation
  | stale
deriving DecidableEq

/-- A response record taken: its body comes off the credit, and it may end the response. -/
def Exchange.answered (x : Exchange) (now bodyLen : Nat) (more : Bool) : Exchange :=
  { x with
    respCredit := x.respCredit - bodyLen
    respDone := x.respDone || !more
    deadlineMs := if more then deadlineAt now (progressTimeoutMs x.hold) else 0 }

/-- A record is pushed, and the exchange goes on as `y`; without room for it the rules are broken. -/
def enqueue (L : Limits) (arena : Arena) (x y : Exchange) (q : RecordQueue) (rec : Bytes) :
    Option (Admit × Exchange × RecordQueue) := do
  let (ok, q) ← q.push L arena rec
  if ok then pure (.queued, y, q) else pure (.violation, x, q)

/-- `admit`. -/
def admitRecord (c : Contract) (L : Limits) (arena : Arena) (now : Nat) (x : Exchange) (q : RecordQueue)
    (rec : Bytes) : Option (Admit × Exchange × RecordQueue) :=
  if !x.isOpen then some (.stale, x, q)
  else
    match c.parseResponse rec with
    | none => some (.violation, x, q)
    | some (.credit bytes) =>
      if x.reqDone then some (.stale, x, q)
      else
        some (.credit,
          { x with
            reqCredit := satAdd x.reqCredit bytes
            credited := true
            deadlineMs := if x.respHead then x.deadlineMs else deadlineAt now APP_TIMEOUT_MS }, q)
    | some .abort => some (.abort, x, q)
    | some .datagram => some (.stale, x, q)
    | some .link => some (.stale, x, q)
    | some (.head _ more hold body) =>
      if x.respHead ∨ body.length > x.respCredit then some (.violation, x, q)
      else enqueue L arena x ({ x with hold := hold, respHead := true }.answered now body.length more) q rec
    | some (.body more data) =>
      if !x.respHead ∨ x.respDone ∨ data.length > x.respCredit then some (.violation, x, q)
      else enqueue L arena x (x.answered now data.length more) q rec

/-- `grant`, with the credit of the record it wrote: `accept` is whether `request_out` took one. -/
def grant (L : Limits) (x : Exchange) (queueEmpty accept : Bool) : Exchange × Nat :=
  if x.respOwed = 0 ∨ x.respDone ∨ !x.isOpen then (x, 0)
  else if x.respOwed < L.bodyMax ∧ !queueEmpty then (x, 0)
  else if accept then ({ x with respCredit := satAdd x.respCredit x.respOwed, respOwed := 0 }, x.respOwed)
  else (x, 0)

def noteDelivered (L : Limits) (x : Exchange) (n : Nat) (queueEmpty accept : Bool) : Exchange × Nat :=
  grant L { x with respOwed := satAdd x.respOwed n } queueEmpty accept

/-- An exchange with what its connection keeps for it, and the credit written meanwhile. -/
structure Composed (σ : Type) where
  x : Exchange
  q : RecordQueue
  io : σ
  credit : Nat := 0

/-- A turn of the compose loop ends it or goes on with the next record. -/
inductive Turn (σ : Type) where
  | stop (r : Composed σ)
  | next (r : Composed σ)

def Turn.result {σ : Type} : Turn σ → Composed σ
  | .stop r => r
  | .next r => r

/-- The exchange is over: nothing waits and no record is taken for it any more. -/
def Composed.closed {σ : Type} (io : σ) : Composed σ where
  x := {}
  q := {}
  io := io

/-- `take_front_body`, `pop` of a record taken whole, and `note_delivered`. -/
def takeBody {σ : Type} (L : Limits) (x : Exchange) (q : RecordQueue) (io : σ) (n : Nat) (whole accept : Bool) :
    Option (Composed σ) :=
  (if whole then (q.takeFrontBody n).pop else some (q.takeFrontBody n)).map fun q =>
    let delivered := noteDelivered L x n q.isEmpty accept
    { x := delivered.1, q := q, io := io, credit := delivered.2 }

/-- `while let Some(rec) = queue.front()`: a turn that goes on has popped a record. `accepts` answers each grant. -/
def composeLoop {σ : Type} (turn : Exchange → RecordQueue → σ → Bytes → Bool → Option (Turn σ)) :
    Nat → List Bool → Exchange → RecordQueue → σ → Option (Composed σ)
  | 0, _, _, _, _ => none
  | fuel + 1, accepts, x, q, io => do
    match ← q.front with
    | none => pure { x := x, q := q, io := io }
    | some rec =>
      match ← turn x q io rec (accepts.headD false) with
      | .stop r => pure r
      | .next r =>
        let rest ← composeLoop turn fuel accepts.tail r.x r.q r.io
        pure { rest with credit := r.credit + rest.credit }

structure H1Send where
  sendLen : Nat := 0
  respStarted : Bool := false
  respCarriesBody : Bool := false
  respLengthKnown : Bool := false
  respRemaining : Nat := 0

/-- What `h1_compose_head` staged: the length of the head, whether a body follows it, and the length
that body is framed by. -/
structure StagedHead where
  len : Nat
  carries : Bool
  length : Option Nat

/-- The head of the front record goes first. `none` when it does not fit. -/
def stageHead (slot : H1Send) : Option StagedHead → Option H1Send
  | none => none
  | some h => some
    { slot with
      sendLen := h.len
      respStarted := true
      respCarriesBody := h.carries
      respLengthKnown := h.carries && h.length.isSome
      respRemaining := h.length.getD 0 }

/-- A turn of `h1_compose`; `head` is what `h1_compose_head` does with a record. -/
def h1Turn (c : Contract) (L : Limits) (sendBufSize : Nat) (head : Bytes → Option StagedHead)
    (x : Exchange) (q : RecordQueue) (slot : H1Send) (rec : Bytes) (accept : Bool) : Option (Turn H1Send) :=
  let body := (recordBody c rec).1
  let headNext := (recordBody c rec).2 && !q.frontHeadDone
  match if headNext then stageHead slot (head rec) else some slot with
  | none => some (.stop (.closed slot))
  | some slot =>
    let q := if headNext then q.takeFrontHead else q
    let rest := body.drop (min q.frontTaken body.length)
    let n := if slot.respCarriesBody then min rest.length (sendBufSize - slot.sendLen) else rest.length
    if slot.respCarriesBody ∧ 0 < n ∧ slot.respLengthKnown ∧ n > slot.respRemaining then
      some (.stop (.closed slot))
    else
      let slot :=
        if slot.respCarriesBody then
          { slot with
            sendLen := slot.sendLen + n
            respRemaining := if slot.respLengthKnown then slot.respRemaining - n else slot.respRemaining }
        else slot
      let whole : Bool := decide (body.length ≤ q.frontTaken + n)
      (takeBody L x q slot n whole accept).map fun r =>
        if !whole || decide (sendBufSize ≤ slot.sendLen) then .stop r else .next r

def FRAME_HEADER_LEN : Nat := 9

/-- `status_allows_body`, for a method whose response has a body or not. -/
def statusAllowsBody (status : Nat) (sendsBody : Bool) : Bool :=
  sendsBody && !(status = 204 || status = 304) && !(decide (100 ≤ status ∧ status < 200))

/-- What a stream keeps of the response it sends; `used` is what the pass has put in `send_buf`. -/
structure H2Send where
  sendsBody : Bool
  headersSent : Bool := false
  respCarries : Bool := false
  connWindow : Int
  sendWindow : Int
  used : Nat := 0

/-- How many of `rest` body bytes the windows and the buffer let go; all, where none are sent. -/
def H2Send.takes (st : H2Send) (sendBufSize rest : Nat) : Nat :=
  if st.respCarries then
    min (min rest (max (min st.connWindow st.sendWindow) 0).toNat) (sendBufSize - (st.used + FRAME_HEADER_LEN))
  else rest

/-- A DATA frame of `n` bytes in `send_buf`, where one is called for. `none` when it does not fit. -/
def H2Send.framed (st : H2Send) (sendBufSize n : Nat) (endHere : Bool) : Option H2Send :=
  if st.respCarries && (decide (0 < n) || endHere) then
    if st.used + FRAME_HEADER_LEN + n > sendBufSize then none
    else some
      { st with
        used := st.used + FRAME_HEADER_LEN + n
        connWindow := st.connWindow - n
        sendWindow := st.sendWindow - n }
  else if !st.respCarries && endHere && st.headersSent then
    if st.used + FRAME_HEADER_LEN > sendBufSize then none
    else some { st with used := st.used + FRAME_HEADER_LEN }
  else some st

/-- What is left of a turn of `compose_app_frames` once the head has gone. -/
def h2Data (c : Contract) (L : Limits) (sendBufSize : Nat) (x : Exchange) (q : RecordQueue) (st : H2Send)
    (rec : Bytes) (accept : Bool) : Option (Turn H2Send) :=
  let body := (recordBody c rec).1
  let rest := body.drop (min q.frontTaken body.length)
  let n := st.takes sendBufSize rest.length
  let whole : Bool := decide (n = rest.length)
  let endHere := whole && recordEnds c rec
  match st.framed sendBufSize n endHere with
  | none => some (.stop { x := x, q := q, io := st })
  | some st =>
    (takeBody L x q st n whole accept).map fun r =>
      if endHere then .stop { Composed.closed st with credit := r.credit } else if !whole then .stop r else .next r

/-- A turn of `compose_app_frames`; `frame` is the HEADERS frame's length, when it fits. -/
def h2Turn (c : Contract) (L : Limits) (sendBufSize : Nat) (frame : Bytes → Option Nat)
    (x : Exchange) (q : RecordQueue) (st : H2Send) (rec : Bytes) (accept : Bool) : Option (Turn H2Send) :=
  match c.parseResponse rec with
  | some (.head status more _ body) =>
    if q.frontHeadDone then h2Data c L sendBufSize x q st rec accept
    else
      let carries := statusAllowsBody status st.sendsBody
      match frame rec with
      | none => some (.stop (.closed { st with respCarries := carries }))
      | some n =>
        let st := { st with respCarries := carries, used := st.used + n, headersSent := true }
        if !more && (!carries || body.isEmpty) then some (.stop (.closed st))
        else h2Data c L sendBufSize x q.takeFrontHead st rec accept
  | _ => h2Data c L sendBufSize x q st rec accept

inductive Carrier where
  | h1 (slot : H1Send)
  | h2 (stream : H2Send)

/-- An exchange and its queue, with the credit given to the application since it opened and the body
bytes taken off it. -/
structure AppRun where
  x : Exchange
  q : RecordQueue
  carrier : Carrier
  granted : Nat
  sent : Nat := 0

inductive AppEvent where
  | record (arena : Arena) (now : Nat) (rec : Bytes)
  /-- `send_buf` has drained and is composed anew, with the windows h2 has by then. -/
  | compose (sendBufSize : Nat) (head : Bytes → Option StagedHead) (connWindow sendWindow : Int)
    (accepts : List Bool)

namespace AppRun

def start (L : Limits) (now : Nat) (hasBody : Bool) (carrier : Carrier) : AppRun where
  x := opened L now hasBody
  q := {}
  carrier := carrier
  granted := L.respWindow

/-- `h1_record` and `h2::app_record`: an exchange the application failed is closed. -/
def record (c : Contract) (L : Limits) (s : AppRun) (arena : Arena) (now : Nat) (rec : Bytes) :
    Option (AppRun × List Admit) := do
  let (outcome, x, q) ← admitRecord c L arena now s.x s.q rec
  if outcome = .violation ∨ outcome = .abort then pure ({ s with x := {}, q := {} }, [outcome])
  else
    let taken := if outcome = .queued then (recordBody c rec).1.length else 0
    pure ({ s with x := x, q := q, sent := s.sent + taken }, [outcome])

/-- `h1_compose` and `compose_app_frames`. -/
def compose (c : Contract) (L : Limits) (s : AppRun) (sendBufSize : Nat) (head : Bytes → Option StagedHead)
    (connWindow sendWindow : Int) (accepts : List Bool) : Option AppRun :=
  match s.carrier with
  | .h1 slot =>
    (composeLoop (h1Turn c L sendBufSize head) (s.q.len + 1) accepts s.x s.q { slot with sendLen := 0 }).map
      fun r => { s with x := r.x, q := r.q, carrier := .h1 r.io, granted := s.granted + r.credit }
  | .h2 st =>
    (composeLoop (h2Turn c L sendBufSize fun rec => (head rec).map StagedHead.len) (s.q.len + 1) accepts s.x s.q
      { st with connWindow := connWindow, sendWindow := sendWindow, used := 0 }).map
      fun r => { s with x := r.x, q := r.q, carrier := .h2 r.io, granted := s.granted + r.credit }

def step (c : Contract) (L : Limits) (s : AppRun) : AppEvent → Option (AppRun × List Admit)
  | .record arena now rec => s.record c L arena now rec
  | .compose sendBufSize head conn send accepts => (s.compose c L sendBufSize head conn send accepts).map (·, [])

end AppRun

def appMachine (c : Contract) (L : Limits) : Machine (Option AppRun) AppEvent Admit where
  step s e :=
    match s.bind (·.step c L e) with
    | some (s, out) => (some s, out)
    | none => (none, [])

/-! ## The identity -/

def waiting (c : Contract) (records : List Bytes) : Nat := (records.map fun rec => (recordBody c rec).1.length).sum

def frontBody (c : Contract) : List Bytes → Nat
  | [] => 0
  | rec :: _ => (recordBody c rec).1.length

/-- Until the response ends the credit left, the bytes that wait and the bytes owed make up the window. -/
structure Balanced (c : Contract) (L : Limits) (x : Exchange) (q : RecordQueue) (records : List Bytes) :
    Prop where
  holds : q.Holds L records
  taken : q.frontTaken ≤ frontBody c records
  idle : x.isOpen = false → records = []
  credit : x.isOpen = true → x.respDone = false →
    x.respCredit + (waiting c records - q.frontTaken) + x.respOwed = L.respWindow

theorem frontBody_le_waiting (c : Contract) (records : List Bytes) : frontBody c records ≤ waiting c records := by
  cases records with
  | nil => exact Nat.le_refl 0
  | cons rec records => simp [frontBody, waiting]

theorem waiting_cons (c : Contract) (rec : Bytes) (records : List Bytes) :
    waiting c (rec :: records) = (recordBody c rec).1.length + waiting c records := rfl

theorem waiting_concat (c : Contract) (records : List Bytes) (rec : Bytes) :
    waiting c (records ++ [rec]) = waiting c records + (recordBody c rec).1.length := by
  simp [waiting]

theorem balanced_closed (c : Contract) (L : Limits) : Balanced c L {} {} [] :=
  ⟨RecordQueue.holds_empty L, Nat.le_refl 0, fun _ => rfl, nofun⟩

/-- `x'` is `x` after deliveries that wrote `credit`, or is closed. -/
def Follows (x x' : Exchange) (credit : Nat) : Prop :=
  x'.isOpen = true → x.isOpen = true ∧ x'.respHead = x.respHead ∧ x'.respDone = x.respDone ∧
    (x.respDone = false → x'.respCredit = x.respCredit + credit)

theorem Follows.refl (x : Exchange) : Follows x x 0 := fun h => ⟨h, rfl, rfl, fun _ => rfl⟩

theorem Follows.trans {x y z : Exchange} {m n : Nat} (h : Follows x y m) (h' : Follows y z n) :
    Follows x z (m + n) := by
  intro hz
  obtain ⟨hy, hhead', hdone', hcredit'⟩ := h' hz
  obtain ⟨hx, hhead, hdone, hcredit⟩ := h hy
  refine ⟨hx, hhead'.trans hhead, hdone'.trans hdone, fun hnot => ?_⟩
  rw [hcredit' (hdone.trans hnot), hcredit hnot, Nat.add_assoc]

theorem follows_closed (x : Exchange) (n : Nat) : Follows x {} n := nofun

theorem noteDelivered_spec {x x' : Exchange} {n credit : Nat} {queueEmpty accept : Bool}
    (h : noteDelivered L x n queueEmpty accept = (x', credit)) :
    x'.isOpen = x.isOpen ∧ x'.respHead = x.respHead ∧ x'.respDone = x.respDone ∧
      (x.isOpen = true → x.respDone = false → x.respCredit + x.respOwed + n ≤ L.respWindow →
        x'.respCredit = x.respCredit + credit ∧
          x'.respCredit + x'.respOwed = x.respCredit + x.respOwed + n) := by
  have hsmall := L.small
  have hwindow : L.respWindow < 2 ^ 32 := by
    rw [Limits.respWindow]
    omega
  have hsat : ∀ a b : Nat, a + b ≤ L.respWindow → satAdd a b = a + b := fun a b hab =>
    Nat.min_eq_left (by omega)
  simp only [noteDelivered, grant] at h
  split_ifs at h
  · obtain ⟨rfl, rfl⟩ := Prod.mk.inj h
    refine ⟨rfl, rfl, rfl, fun _ _ hle => ⟨rfl, ?_⟩⟩
    simp only [hsat x.respOwed n (by omega)]
    omega
  · obtain ⟨rfl, rfl⟩ := Prod.mk.inj h
    refine ⟨rfl, rfl, rfl, fun _ _ hle => ⟨rfl, ?_⟩⟩
    simp only [hsat x.respOwed n (by omega)]
    omega
  · obtain ⟨rfl, rfl⟩ := Prod.mk.inj h
    refine ⟨rfl, rfl, rfl, fun _ _ hle => ?_⟩
    have howed := hsat x.respOwed n (by omega)
    have hback := hsat x.respCredit (x.respOwed + n) (by omega)
    change satAdd x.respCredit (satAdd x.respOwed n) = x.respCredit + satAdd x.respOwed n ∧
      satAdd x.respCredit (satAdd x.respOwed n) + 0 = _
    rw [howed, hback]
    omega
  · obtain ⟨rfl, rfl⟩ := Prod.mk.inj h
    refine ⟨rfl, rfl, rfl, fun _ _ hle => ⟨rfl, ?_⟩⟩
    simp only [hsat x.respOwed n (by omega)]
    omega

theorem Balanced.headTaken (h : Balanced c L x q records) : Balanced c L x q.takeFrontHead records :=
  ⟨h.holds.mark _ _, h.taken, h.idle, h.credit⟩

theorem length_rest (h : Balanced c L x q (rec :: records)) :
    ((recordBody c rec).1.drop (min q.frontTaken (recordBody c rec).1.length)).length + q.frontTaken =
      (recordBody c rec).1.length := by
  have htaken := h.taken
  simp only [frontBody] at htaken
  rw [length_drop, Nat.min_eq_left htaken]
  omega

theorem Balanced.tookBody {σ : Type} (h : Balanced c L x q (rec :: records)) (io : σ) (n : Nat) (whole accept : Bool)
    (hn : q.frontTaken + n ≤ (recordBody c rec).1.length)
    (hwhole : whole = true → q.frontTaken + n = (recordBody c rec).1.length) :
    ∃ r, takeBody L x q io n whole accept = some r ∧ r.io = io ∧ Follows x r.x r.credit ∧
      Balanced c L r.x r.q (if whole then records else rec :: records) := by
  have htaken := h.taken
  have hfront := frontBody_le_waiting c (rec :: records)
  -- the queue: the same records with more of the front taken, or the front popped
  obtain ⟨q', hq', hholds, htaken', hbytes⟩ : ∃ q',
      (if whole then (q.takeFrontBody n).pop else some (q.takeFrontBody n)) = some q' ∧
      q'.Holds L (if whole then records else rec :: records) ∧
      q'.frontTaken ≤ frontBody c (if whole then records else rec :: records) ∧
      waiting c (if whole then records else rec :: records) - q'.frontTaken + n =
        waiting c (rec :: records) - q.frontTaken := by
    cases whole with
    | true =>
      obtain ⟨q', hpop, hq', hzero, -⟩ := (h.holds.mark (q.frontTaken + n) q.frontHeadDone).popped
      refine ⟨q', hpop, hq', by rw [hzero]; exact Nat.zero_le _, ?_⟩
      have := hwhole rfl
      rw [hzero, if_pos rfl, waiting_cons]
      omega
    | false =>
      refine ⟨q.takeFrontBody n, rfl, h.holds.mark _ _, ?_, ?_⟩
      · exact hn
      · simp only [frontBody] at hfront
        simp only [false_eq_true, if_false, RecordQueue.takeFrontBody]
        omega
  obtain ⟨x', credit, hnote⟩ : ∃ x' credit, noteDelivered L x n q'.isEmpty accept = (x', credit) := ⟨_, _, rfl⟩
  obtain ⟨hopen, hhead, hdone, hbalance⟩ := noteDelivered_spec hnote
  have hleft : x.isOpen = true → x.respDone = false → x.respCredit + x.respOwed + n ≤ L.respWindow := by
    intro ho hd
    have := h.credit ho hd
    omega
  refine ⟨{ x := x', q := q', io := io, credit := credit }, ?_, rfl, ?_, hholds, htaken', ?_, ?_⟩
  · simp only [takeBody, hq', map_some, hnote]
  · intro ho
    rw [hopen] at ho
    exact ⟨ho, hhead, hdone, fun hd => (hbalance ho hd (hleft ho hd)).1⟩
  · intro hclosed
    rw [hopen] at hclosed
    exact absurd (h.idle hclosed) (cons_ne_nil _ _)
  · intro ho hd
    rw [hopen] at ho
    rw [hdone] at hd
    have hsum := (hbalance ho hd (hleft ho hd)).2
    have hbefore := h.credit ho hd
    change x'.respCredit + (_ - q'.frontTaken) + x'.respOwed = _
    omega

/-- A turn of a compose loop stays in the buffer, keeps the balance, and pops the front record before it goes on. -/
def Keeps {σ : Type} (c : Contract) (L : Limits)
    (turn : Exchange → RecordQueue → σ → Bytes → Bool → Option (Turn σ)) : Prop :=
  ∀ x q io rec records accept, Balanced c L x q (rec :: records) →
    (∃ r left, turn x q io rec accept = some (.stop r) ∧ Follows x r.x r.credit ∧ Balanced c L r.x r.q left) ∨
    (∃ r, turn x q io rec accept = some (.next r) ∧ Follows x r.x r.credit ∧ Balanced c L r.x r.q records)

theorem composeLoop_spec {σ : Type}
    {turn : Exchange → RecordQueue → σ → Bytes → Bool → Option (Turn σ)} (hturn : Keeps c L turn)
    (records : List Bytes) {fuel : Nat} (hfuel : records.length < fuel) (accepts : List Bool)
    (io : σ) (h : Balanced c L x q records) :
    ∃ r left, composeLoop turn fuel accepts x q io = some r ∧ Follows x r.x r.credit ∧
      Balanced c L r.x r.q left := by
  induction records generalizing fuel accepts x q io with
  | nil =>
    obtain ⟨fuel, rfl⟩ := Nat.exists_eq_succ_of_ne_zero (Nat.ne_of_gt hfuel)
    refine ⟨{ x := x, q := q, io := io }, [], ?_, .refl x, h⟩
    rw [composeLoop, h.holds.front_eq]
    rfl
  | cons rec records ih =>
    obtain ⟨fuel, rfl⟩ := Nat.exists_eq_succ_of_ne_zero (Nat.ne_of_gt (Nat.zero_lt_of_lt hfuel))
    rw [composeLoop, h.holds.front_eq]
    simp only [List.head?_cons, bind_eq_bind, bind_some]
    rcases hturn x q io rec records (accepts.headD false) h with
      ⟨r, left, hr, hfollows, hbal⟩ | ⟨r, hr, hfollows, hbal⟩
    · refine ⟨r, left, ?_, hfollows, hbal⟩
      rw [hr]
      rfl
    · obtain ⟨rest, left, hrest, hfollows', hbal'⟩ :=
        ih (by simpa using hfuel) accepts.tail r.io hbal
      refine ⟨{ rest with credit := r.credit + rest.credit }, left, ?_, hfollows.trans hfollows', hbal'⟩
      rw [hr]
      simp only [bind_some, hrest]
      rfl

theorem h1Turn_keeps (c : Contract) (L : Limits) (sendBufSize : Nat) (head : Bytes → Option StagedHead) :
    Keeps c L (h1Turn c L sendBufSize head) := by
  intro x q io rec records accept h
  unfold h1Turn
  obtain ⟨staged, hstaged⟩ : ∃ staged, (if (recordBody c rec).2 && !q.frontHeadDone then stageHead io (head rec)
    else some io) = staged := ⟨_, rfl⟩
  simp only [hstaged]
  cases staged with
  | none => exact .inl ⟨_, [], rfl, follows_closed _ _, balanced_closed c L⟩
  | some slot =>
    obtain ⟨q', hq', hbal⟩ : ∃ q', (if (recordBody c rec).2 && !q.frontHeadDone then q.takeFrontHead else q) = q' ∧
        Balanced c L x q' (rec :: records) := by
      refine ⟨_, rfl, ?_⟩
      split_ifs
      · exact h.headTaken
      · exact h
    simp only [hq']
    have hrest := length_rest hbal
    generalize hlen : (recordBody c rec).1.drop (min q'.frontTaken (recordBody c rec).1.length) = rest at hrest ⊢
    obtain ⟨n, hn⟩ : ∃ n, n = if slot.respCarriesBody = true then min rest.length (sendBufSize - slot.sendLen)
      else rest.length := ⟨_, rfl⟩
    have hle : n ≤ rest.length := by
      rw [hn]
      split_ifs
      · exact Nat.min_le_left _ _
      · exact Nat.le_refl _
    rw [← hn]
    by_cases hover : slot.respCarriesBody = true ∧ 0 < n ∧ slot.respLengthKnown = true ∧ n > slot.respRemaining
    · rw [if_pos hover]
      exact .inl ⟨_, [], rfl, follows_closed _ _, balanced_closed c L⟩
    rw [if_neg hover]
    generalize hslot : (if slot.respCarriesBody = true then _ else slot : H1Send) = slot'
    obtain ⟨r, hr, -, hfollows, hbal'⟩ := hbal.tookBody slot' n
      (decide ((recordBody c rec).1.length ≤ q'.frontTaken + n)) accept (by omega)
      fun hw => by
        have := of_decide_eq_true hw
        omega
    rw [hr]
    by_cases hstop : (!decide ((recordBody c rec).1.length ≤ q'.frontTaken + n) ||
        decide (sendBufSize ≤ slot'.sendLen)) = true
    · exact .inl ⟨r, _, by simp [hstop], hfollows, hbal'⟩
    · refine .inr ⟨r, by simp [hstop], hfollows, ?_⟩
      simp only [or_eq_true, not_or, not_eq_true, Bool.not_eq_false'] at hstop
      rwa [hstop.1, if_pos rfl] at hbal'

theorem takes_le (st : H2Send) (sendBufSize rest : Nat) : st.takes sendBufSize rest ≤ rest := by
  unfold H2Send.takes
  split_ifs
  · omega
  · exact Nat.le_refl rest

theorem h2Data_keeps (sendBufSize : Nat) (st : H2Send) (accept : Bool) (h : Balanced c L x q (rec :: records)) :
    (∃ r left, h2Data c L sendBufSize x q st rec accept = some (.stop r) ∧ Follows x r.x r.credit ∧
      Balanced c L r.x r.q left) ∨
    (∃ r, h2Data c L sendBufSize x q st rec accept = some (.next r) ∧ Follows x r.x r.credit ∧
      Balanced c L r.x r.q records) := by
  unfold h2Data
  dsimp only
  have hrest := length_rest h
  generalize (recordBody c rec).1.drop (min q.frontTaken (recordBody c rec).1.length) = rest at hrest ⊢
  have hle := takes_le st sendBufSize rest.length
  generalize st.takes sendBufSize rest.length = n at hle ⊢
  cases st.framed sendBufSize n (decide (n = rest.length) && recordEnds c rec) with
  | none => exact .inl ⟨{ x := x, q := q, io := st }, _, rfl, .refl x, h⟩
  | some st' =>
    obtain ⟨r, hr, -, hfollows, hbal⟩ := h.tookBody st' n (decide (n = rest.length)) accept (by omega)
      fun hw => by
        have := of_decide_eq_true hw
        omega
    dsimp only
    rw [hr]
    by_cases hend : (decide (n = rest.length) && recordEnds c rec) = true
    · exact .inl ⟨{ Composed.closed st' with credit := r.credit }, [], by simp [hend], follows_closed _ _,
        balanced_closed c L⟩
    by_cases hwhole : n = rest.length
    · refine .inr ⟨r, by simp_all, hfollows, ?_⟩
      rwa [decide_eq_true hwhole, if_pos rfl] at hbal
    · exact .inl ⟨r, _, by simp [hwhole], hfollows, hbal⟩

theorem h2Turn_keeps (c : Contract) (L : Limits) (sendBufSize : Nat) (frame : Bytes → Option Nat) :
    Keeps c L (h2Turn c L sendBufSize frame) := by
  intro x q st rec records accept h
  unfold h2Turn
  split
  · rename_i status more hold body hparse
    by_cases hdone : q.frontHeadDone = true
    · rw [if_pos hdone]
      exact h2Data_keeps sendBufSize st accept h
    rw [if_neg hdone]
    cases frame rec with
    | none => exact .inl ⟨_, [], rfl, follows_closed _ _, balanced_closed c L⟩
    | some n =>
      dsimp only
      by_cases hend : (!more && (!statusAllowsBody status st.sendsBody || body.isEmpty)) = true
      · exact .inl ⟨_, [], by rw [if_pos hend], follows_closed _ _, balanced_closed c L⟩
      rw [if_neg hend]
      exact h2Data_keeps sendBufSize _ accept h.headTaken
  · exact h2Data_keeps sendBufSize st accept h

/-! ## Steps and runs -/

theorem length_le_held (records : List Bytes) :
    records.length ≤ (records.flatMap RecordQueue.encode).length := by
  induction records with
  | nil => exact Nat.le_refl 0
  | cons rec records ih =>
    rw [flatMap_cons, length_append, RecordQueue.length_encode, length_cons]
    omega

/-- The balance, and that the credit left is what was granted and not sent. -/
def RunInv (c : Contract) (L : Limits) (s : AppRun) : Prop :=
  (∃ records, Balanced c L s.x s.q records) ∧
    (s.x.isOpen = true → s.x.respDone = false → s.x.respCredit + s.sent = s.granted)

theorem runInv_start (c : Contract) (L : Limits) (now : Nat) (hasBody : Bool) (carrier : Carrier) :
    RunInv c L (AppRun.start L now hasBody carrier) :=
  ⟨⟨[], RecordQueue.holds_empty L, Nat.le_refl 0, nofun, fun _ _ => rfl⟩, fun _ _ => rfl⟩

theorem RunInv.composed (h : RunInv c L s) (sendBufSize : Nat)
    (head : Bytes → Option StagedHead) (connWindow sendWindow : Int) (accepts : List Bool) :
    ∃ s', s.compose c L sendBufSize head connWindow sendWindow accepts = some s' ∧ RunInv c L s' := by
  obtain ⟨⟨records, hbal⟩, hgranted⟩ := h
  have hfuel : records.length < s.q.len + 1 := by
    have := length_le_held records
    rw [hbal.holds.len]
    omega
  have hafter : ∀ {x : Exchange} {q : RecordQueue} {left : List Bytes} {credit : Nat} (carrier : Carrier),
      Follows s.x x credit → Balanced c L x q left →
      RunInv c L { s with x := x, q := q, carrier := carrier, granted := s.granted + credit } := by
    intro x q left credit carrier hfollows hleft
    refine ⟨⟨left, hleft⟩, fun ho hd => ?_⟩
    obtain ⟨hopen, -, hdone, hcredit⟩ := hfollows ho
    have hnot := hdone.symm.trans hd
    have hbefore := hgranted hopen hnot
    change x.respCredit + s.sent = s.granted + credit
    rw [hcredit hnot]
    omega
  cases hcarrier : s.carrier with
  | h1 slot =>
    obtain ⟨r, left, hr, hfollows, hleft⟩ := composeLoop_spec (h1Turn_keeps c L sendBufSize head) records hfuel
      accepts { slot with sendLen := 0 } hbal
    exact ⟨_, by rw [AppRun.compose, hcarrier]; simp only [hr, map_some], hafter (.h1 r.io) hfollows hleft⟩
  | h2 st =>
    obtain ⟨r, left, hr, hfollows, hleft⟩ := composeLoop_spec
      (h2Turn_keeps c L sendBufSize fun rec => (head rec).map StagedHead.len) records hfuel accepts
      { st with connWindow := connWindow, sendWindow := sendWindow, used := 0 } hbal
    exact ⟨_, by rw [AppRun.compose, hcarrier]; simp only [hr, map_some], hafter (.h2 r.io) hfollows hleft⟩

theorem Balanced.queued {x y : Exchange} {q q' : RecordQueue} (h : Balanced c L x q records) (hopen : x.isOpen = true)
    (hholds : q'.Holds L (records ++ [rec])) (htaken : q'.frontTaken = q.frontTaken) {now : Nat} {more : Bool}
    (hy : y.isOpen = x.isOpen ∧ y.respDone = x.respDone ∧ y.respCredit = x.respCredit ∧ y.respOwed = x.respOwed)
    (hcredit : (recordBody c rec).1.length ≤ x.respCredit) :
    Balanced c L (y.answered now (recordBody c rec).1.length more) q' (records ++ [rec]) := by
  obtain ⟨hyopen, hydone, hycredit, hyowed⟩ := hy
  have htaken' := h.taken
  have hfront := frontBody_le_waiting c records
  refine ⟨hholds, ?_, fun hclosed => ?_, fun _ hd => ?_⟩
  · rw [htaken]
    cases records with
    | nil =>
      simp only [frontBody] at htaken'
      omega
    | cons first records => exact htaken'
  · exact absurd (hyopen.trans hopen) (by rw [show y.isOpen = false from hclosed]; simp)
  · have hnot : x.respDone = false := by
      have : (y.respDone || !more) = false := hd
      rw [← hydone]
      exact (or_eq_false_iff.mp this).1
    have hbefore := h.credit hopen hnot
    change y.respCredit - _ + (_ - q'.frontTaken) + y.respOwed = _
    rw [waiting_concat, htaken, hycredit, hyowed]
    omega

/-- The rules a record keeps: the HEAD first and once, nothing behind the end, no body past the credit. -/
def InOrder (c : Contract) (x : Exchange) (rec : Bytes) : Prop :=
  match c.parseResponse rec with
  | none => False
  | some (.head _ _ _ body) => x.respHead = false ∧ body.length ≤ x.respCredit
  | some (.body _ data) => x.respHead = true ∧ x.respDone = false ∧ data.length ≤ x.respCredit
  | some _ => True

def Answers (c : Contract) (rec : Bytes) : Prop :=
  match c.parseResponse rec with
  | some (.head ..) => True
  | some (.body ..) => True
  | _ => False

def Placed (L : Limits) (arena : Arena) (q : RecordQueue) (rec : Bytes) : Prop :=
  q.len + (4 + rec.length) ≤ L.queueLimit ∧
    (q.len + (4 + rec.length) ≤ q.cap ∨
      (arena.alloc (RecordQueue.nextCap L q.cap (q.len + (4 + rec.length)))).isSome)

structure Admitted (c : Contract) (L : Limits) (x : Exchange) (rec : Bytes) (records : List Bytes) (bad : Prop)
    (o : Admit) (x' : Exchange) (q' : RecordQueue) : Prop where
  violation : o = .violation ↔ bad
  queued : o = .queued → Balanced c L x' q' (records ++ [rec]) ∧ x'.isOpen = true ∧
    (x'.respDone = false → x.respDone = false) ∧ x'.respCredit + (recordBody c rec).1.length = x.respCredit
  kept : o ≠ .queued → Balanced c L x' q' records ∧ x'.isOpen = x.isOpen ∧ x'.respDone = x.respDone ∧
    x'.respCredit = x.respCredit

theorem Balanced.admitted (h : Balanced c L x q records) (rec : Bytes) {o : Admit} {bad : Prop} (hqueued : o ≠ .queued)
    (hbad : o = .violation ↔ bad) : Admitted c L x rec records bad o x q :=
  ⟨hbad, fun heq => absurd heq hqueued, fun _ => ⟨h, rfl, rfl, rfl⟩⟩

theorem enqueue_spec {x y : Exchange}
    (h : Balanced c L x q records) (hopen : x.isOpen = true) (arena : Arena) {now : Nat} {more : Bool}
    (hrec : rec.length ≤ L.recordMax) (hle : (recordBody c rec).1.length ≤ x.respCredit)
    (hy : y.isOpen = x.isOpen ∧ y.respDone = x.respDone ∧ y.respCredit = x.respCredit ∧
      y.respOwed = x.respOwed) :
    ∃ o x' q', enqueue L arena x (y.answered now (recordBody c rec).1.length more) q rec = some (o, x', q') ∧
      Admitted c L x rec records (¬ Placed L arena q rec) o x' q' := by
  obtain ⟨ok, q', hpush, hholds, htaken, -, hok⟩ := h.holds.pushed arena hrec
  rw [enqueue, hpush]
  cases ok with
  | false =>
    have hno : ¬ Placed L arena q rec := fun hp => by simpa using hok.mpr hp
    have hbal : Balanced c L x q' records :=
      ⟨hholds, by rw [htaken]; exact h.taken, h.idle, by rw [htaken]; exact h.credit⟩
    exact ⟨.violation, x, q', rfl, hbal.admitted rec (by decide) (by simp [hno])⟩
  | true =>
    have hp : Placed L arena q rec := hok.mp rfl
    refine ⟨.queued, _, q', rfl, by simp [hp], fun _ => ⟨?_, hy.1.trans hopen, fun hd => ?_, ?_⟩,
      fun hne => absurd rfl hne⟩
    · exact h.queued hopen hholds htaken hy hle
    · exact hy.2.1 ▸ (or_eq_false_iff.mp hd).1
    · change y.respCredit - _ + _ = _
      rw [hy.2.2.1]
      exact Nat.sub_add_cancel hle

/-- `admit` keeps the balance, and finds a violation exactly where the record breaks the rules or finds no place. -/
theorem admitRecord_spec (h : Balanced c L x q records) (arena : Arena) (now : Nat) (hrec : rec.length ≤ L.recordMax) :
    ∃ o x' q', admitRecord c L arena now x q rec = some (o, x', q') ∧
      Admitted c L x rec records
        (x.isOpen = true ∧ ¬ (InOrder c x rec ∧ (Answers c rec → Placed L arena q rec))) o x' q' := by
  unfold admitRecord
  by_cases hopen : x.isOpen = true
  swap
  · exact ⟨.stale, x, q, by simp [hopen], h.admitted rec (by decide) (by simp [hopen])⟩
  rw [if_neg (by simp [hopen])]
  simp only [hopen, true_and]
  cases hparse : c.parseResponse rec with
  | none => exact ⟨.violation, x, q, rfl, h.admitted rec (by decide) (by simp [InOrder, hparse])⟩
  | some r =>
    cases r with
    | credit bytes =>
      dsimp only
      by_cases hdone : x.reqDone = true
      · exact ⟨.stale, x, q, if_pos hdone, h.admitted rec (by decide) (by simp [InOrder, Answers, hparse])⟩
      · exact ⟨.credit, _, q, if_neg hdone, by simp [InOrder, Answers, hparse], nofun,
          fun _ => ⟨⟨h.holds, h.taken, nofun, fun _ => h.credit hopen⟩, hopen.symm, rfl, rfl⟩⟩
    | abort => exact ⟨.abort, x, q, rfl, h.admitted rec (by decide) (by simp [InOrder, Answers, hparse])⟩
    | datagram => exact ⟨.stale, x, q, rfl, h.admitted rec (by decide) (by simp [InOrder, Answers, hparse])⟩
    | link => exact ⟨.stale, x, q, rfl, h.admitted rec (by decide) (by simp [InOrder, Answers, hparse])⟩
    | head status more hold body =>
      have hbody : body = (recordBody c rec).1 := by simp [recordBody, hparse]
      dsimp only
      by_cases hbad : x.respHead = true ∨ body.length > x.respCredit
      · have hnot : ¬ InOrder c x rec := by
          simp only [InOrder, hparse]
          rintro ⟨hhead, hle⟩
          rcases hbad with hbad | hbad
          · rw [hhead] at hbad
            cases hbad
          · omega
        exact ⟨.violation, x, q, if_pos hbad, h.admitted rec (by decide) (by simp [hnot])⟩
      · rw [if_neg hbad]
        obtain ⟨hhead, hle⟩ := not_or.mp hbad
        have horder : InOrder c x rec := by
          simp only [InOrder, hparse]
          exact ⟨by simpa using hhead, Nat.le_of_not_lt hle⟩
        have hans : Answers c rec := by simp [Answers, hparse]
        simp only [horder, hans, true_and, forall_const]
        rw [hbody] at hle ⊢
        exact enqueue_spec h hopen arena hrec (Nat.le_of_not_lt hle) ⟨hopen.symm, rfl, rfl, rfl⟩
    | body more data =>
      have hbody : data = (recordBody c rec).1 := by simp [recordBody, hparse]
      dsimp only
      by_cases hbad : (!x.respHead) = true ∨ x.respDone = true ∨ data.length > x.respCredit
      · have hnot : ¬ InOrder c x rec := by
          simp only [InOrder, hparse]
          rintro ⟨hhead, hdone, hle⟩
          rcases hbad with hbad | hbad | hbad
          · rw [hhead] at hbad
            cases hbad
          · rw [hdone] at hbad
            cases hbad
          · omega
        exact ⟨.violation, x, q, if_pos hbad, h.admitted rec (by decide) (by simp [hnot])⟩
      · rw [if_neg hbad]
        obtain ⟨hhead, hrest⟩ := not_or.mp hbad
        obtain ⟨hdone, hle⟩ := not_or.mp hrest
        have horder : InOrder c x rec := by
          simp only [InOrder, hparse]
          exact ⟨by simpa using hhead, by simpa using hdone, Nat.le_of_not_lt hle⟩
        have hans : Answers c rec := by simp [Answers, hparse]
        simp only [horder, hans, true_and, forall_const]
        rw [hbody] at hle ⊢
        exact enqueue_spec h hopen arena hrec (Nat.le_of_not_lt hle) ⟨rfl, rfl, rfl, rfl⟩

/-- A record read is as long as one read of `RECORD_MAX` bytes gives. -/
def AppEvent.Sized (L : Limits) : AppEvent → Prop
  | .record _ _ rec => rec.length ≤ L.recordMax
  | .compose .. => True

theorem RunInv.recorded (h : RunInv c L s) (arena : Arena) (now : Nat) (hrec : rec.length ≤ L.recordMax) :
    ∃ s' o, s.record c L arena now rec = some (s', [o]) ∧ RunInv c L s' ∧
      (o = .violation ↔
        s.x.isOpen = true ∧ ¬ (InOrder c s.x rec ∧ (Answers c rec → Placed L arena s.q rec))) := by
  obtain ⟨⟨records, hbal⟩, hgranted⟩ := h
  obtain ⟨o, x', q', htook, hresult⟩ := admitRecord_spec hbal arena now hrec
  simp only [AppRun.record, htook, bind_eq_bind, bind_some]
  by_cases hfail : o = .violation ∨ o = .abort
  · refine ⟨_, o, by rw [if_pos hfail]; rfl, ⟨⟨[], balanced_closed c L⟩, fun ho => by cases ho⟩,
      hresult.violation⟩
  refine ⟨_, o, by rw [if_neg hfail]; rfl, ?_, hresult.violation⟩
  by_cases hqueued : o = .queued
  · obtain ⟨hbal', -, hdone, hcredit⟩ := hresult.queued hqueued
    refine ⟨⟨_, hbal'⟩, fun _ hd => ?_⟩
    have hopen : s.x.isOpen = true := by
      by_contra hclosed
      unfold admitRecord at htook
      rw [if_pos (by simpa using hclosed)] at htook
      cases htook
      cases hqueued
    have hbefore := hgranted hopen (hdone hd)
    change x'.respCredit + (s.sent + _) = s.granted
    rw [if_pos hqueued]
    omega
  · obtain ⟨hbal', hopen, hdone, hcredit⟩ := hresult.kept hqueued
    refine ⟨⟨_, hbal'⟩, fun ho hd => ?_⟩
    have hbefore := hgranted (hopen.symm.trans ho) (hdone.symm.trans hd)
    change x'.respCredit + (s.sent + _) = s.granted
    rw [if_neg hqueued, hcredit]
    exact hbefore

theorem appMachine_step (h : RunInv c L s) {e : AppEvent} (he : e.Sized L) : ∃ s', ((appMachine c L).step (some s) e).1 = some s' ∧ RunInv c L s' := by
  cases e with
  | record arena now rec =>
    obtain ⟨s', o, hstep, hinv, -⟩ := h.recorded arena now he
    exact ⟨s', by simp [appMachine, AppRun.step, hstep], hinv⟩
  | compose sendBufSize head conn send accepts =>
    obtain ⟨s', hstep, hinv⟩ := h.composed sendBufSize head conn send accepts
    exact ⟨s', by simp [appMachine, AppRun.step, hstep], hinv⟩

theorem appMachine_run (h : RunInv c L s) (es : List AppEvent) (hes : ∀ e ∈ es, e.Sized L) : ∃ s', ((appMachine c L).run (some s) es).1 = some s' ∧ RunInv c L s' := by
  induction es generalizing s with
  | nil => exact ⟨s, rfl, h⟩
  | cons e es ih =>
    obtain ⟨s', hstep, hinv⟩ := appMachine_step h (hes e mem_cons_self)
    obtain ⟨s'', hrun, hinv'⟩ := ih hinv fun e he => hes e (mem_cons_of_mem _ he)
    exact ⟨s'', by rw [Machine.run_cons, hstep, hrun], hinv'⟩

/-- No access leaves a queue's buffer, and it is the list of the records whose push returned true. Until a response
ends, the credit left, the bytes that wait and the bytes owed make up the window. -/
theorem record_queue_fifo_and_credit (c : Contract) (L : Limits) :
    (∀ ops : List RecordQueue.Op, (∀ op ∈ ops, op.Sized L) →
      ∃ results, ({} : RecordQueue).calls L ops = some results ∧ results.length = ops.length ∧
        results.map Prod.snd = ({} : Fifo).views ops (results.map Prod.fst) ∧
        ({} : Fifo).AllAnswer L ops (results.map Prod.fst)) ∧
    (∀ (now : Nat) (hasBody : Bool) (carrier : Carrier) (es : List AppEvent), (∀ e ∈ es, e.Sized L) →
      ∃ s records, ((appMachine c L).run (some (.start L now hasBody carrier)) es).1 = some s ∧
        s.q.Holds L records ∧ s.q.frontTaken ≤ waiting c records ∧
        (s.x.isOpen = true → s.x.respDone = false →
          s.x.respCredit + (waiting c records - s.q.frontTaken) + s.x.respOwed = L.respWindow)) := by
  refine ⟨fun ops hops => (RecordQueue.models_empty L).calls_eq hops, fun now hasBody carrier es hes => ?_⟩
  obtain ⟨s, hrun, ⟨records, hbal⟩, -⟩ := appMachine_run (runInv_start c L now hasBody carrier) es hes
  exact ⟨s, records, hrun, hbal.holds, hbal.taken.trans (frontBody_le_waiting c records), hbal.credit⟩

def smallLimits : Limits where
  recordMax := 8192
  bodyMax := 8176
  windowRecords := 1
  small := by decide

/-- HEADs begin with 1 and BODYs with 2; then the flags, with `MORE`, and the id. -/
def plainContract : Contract where
  parseResponse
    | 1 :: flags :: _ => some (.head 200 (flags = 1) false [])
    | 2 :: flags :: rest => some (.body (flags = 1) (rest.drop 14))
    | _ => none

def wideArena : Arena where
  alloc n := some (List.replicate n 0)
  sized n buf h := by
    cases h
    exact length_replicate

def moreHead : Bytes := 1 :: 1 :: List.replicate 22 0

def emptyBody : Bytes := 2 :: 1 :: List.replicate 14 0

/-- A HEAD and a BODY are pushed, both accepted, and the HEAD popped. -/
theorem record_queue_fifo_and_credit_threeCalls :
    ∃ results, ({} : RecordQueue).calls smallLimits
        [.push wideArena moreHead, .push wideArena emptyBody, .pop] = some results ∧
      results.map Prod.fst = [true, true, true] ∧
      results.map Prod.snd = ({} : Fifo).views [.push wideArena moreHead, .push wideArena emptyBody, .pop]
        [true, true, true] := by
  obtain ⟨results, hcalls, hlen, hviews, hanswers⟩ :=
    (record_queue_fifo_and_credit plainContract smallLimits).1
      [.push wideArena moreHead, .push wideArena emptyBody, .pop] (by
        intro op hop
        simp only [mem_cons, not_mem_nil, or_false] at hop
        rcases hop with rfl | rfl | rfl
        · exact show moreHead.length ≤ smallLimits.recordMax by decide
        · exact show emptyBody.length ≤ smallLimits.recordMax by decide
        · trivial)
  have hwide : ∀ {ok : Bool} {fits : Prop}, fits → (ok = false → fits → ∃ n, wideArena.alloc n = none) → ok = true := by
    intro ok fits hfits hrefused
    cases ok with
    | true => rfl
    | false =>
      obtain ⟨n, hn⟩ := hrefused rfl hfits
      cases hn
  obtain ⟨a, b, c, hoks⟩ := List.length_eq_three.mp (show (results.map Prod.fst).length = 3 by rw [length_map, hlen]; rfl)
  rw [hoks] at hviews hanswers
  obtain ⟨⟨-, hfirst⟩, ⟨-, hsecond⟩, hthird, -⟩ := hanswers
  obtain rfl := hwide (by decide) hfirst
  obtain rfl := hwide (by decide) hsecond
  obtain rfl : c = true := hthird
  exact ⟨results, hcalls, hoks, hviews⟩

def Arena.Satisfies (arena : Arena) : Prop := ∀ n, (arena.alloc n).isSome

/-- The next record of an answer in order, within the credit given to the application. -/
def NextRecord (c : Contract) (s : AppRun) (rec : Bytes) : Prop :=
  s.x.respDone = false ∧ s.sent + (recordBody c rec).1.length ≤ s.granted ∧
    match c.parseResponse rec with
    | some (.head ..) => s.x.respHead = false
    | some (.body ..) => s.x.respHead = true
    | _ => False

/-- A step with an application inside its credit, while the arena satisfies allocations. -/
def Conforms (c : Contract) (L : Limits) (s : Option AppRun) : AppEvent → Prop
  | .record arena _ rec =>
    rec.length ≤ L.recordMax ∧ arena.Satisfies ∧ ∀ a ∈ s, a.x.isOpen = true → NextRecord c a rec
  | .compose .. => True

/-- The record and its prefix fit the limit behind the records that still wait. -/
def Fits (L : Limits) (s : Option AppRun) : AppEvent → Prop
  | .record _ _ rec => ∀ a ∈ s, a.q.len + (4 + rec.length) ≤ L.queueLimit
  | .compose .. => True

theorem Conforms.sized {s : Option AppRun} {e : AppEvent} (h : Conforms c L s e) :
    e.Sized L := by
  cases e with
  | record arena now rec => exact h.1
  | compose sendBufSize head conn send accepts => trivial

theorem RunInv.len_of_closed (h : RunInv c L s) (hclosed : s.x.isOpen = false) : s.q.len = 0 := by
  obtain ⟨⟨records, hbal⟩, -⟩ := h
  rw [hbal.holds.len, hbal.idle hclosed]
  rfl

theorem RunInv.fits_iff (h : RunInv c L s) {e : AppEvent} (he : Conforms c L (some s) e) :
    Admit.violation ∉ ((appMachine c L).step (some s) e).2 ↔ Fits L (some s) e := by
  cases e with
  | compose sendBufSize head conn send accepts =>
    obtain ⟨s', hstep, -⟩ := h.composed sendBufSize head conn send accepts
    simp [appMachine, AppRun.step, hstep, Fits]
  | record arena now rec =>
    obtain ⟨hrec, harena, hnext⟩ := he
    obtain ⟨s', o, hstep, -, hiff⟩ := h.recorded arena now hrec
    have hout : ((appMachine c L).step (some s) (.record arena now rec)).2 = [o] := by
      simp [appMachine, AppRun.step, hstep]
    rw [hout, mem_singleton, eq_comm, hiff]
    simp only [Fits, Option.mem_def, Option.some.injEq, forall_eq']
    by_cases hopen : s.x.isOpen = true
    · obtain ⟨hdone, hcredit, hkind⟩ := hnext s rfl hopen
      have hleft := h.2 hopen hdone
      have horder : InOrder c s.x rec ∧ Answers c rec := by
        unfold InOrder Answers
        cases hparse : c.parseResponse rec with
        | none => simp [hparse] at hkind
        | some r =>
          cases r with
          | head status more hold body =>
            simp only [hparse, recordBody] at hkind hcredit
            exact ⟨⟨hkind, by omega⟩, trivial⟩
          | body more data =>
            simp only [hparse, recordBody] at hkind hcredit
            exact ⟨⟨hkind, hdone, by omega⟩, trivial⟩
          | _ => simp [hparse] at hkind
      have hplaced : Placed L arena s.q rec ↔ s.q.len + (4 + rec.length) ≤ L.queueLimit :=
        ⟨And.left, fun hle => ⟨hle, .inr (harena _)⟩⟩
      simp [hopen, horder, hplaced]
    · have hzero := h.len_of_closed (by simpa using hopen)
      have hfits : s.q.len + (4 + rec.length) ≤ L.queueLimit := by
        rw [hzero, Limits.queueLimit]
        omega
      simp [hopen, hfits]

/-- An application that answers in order and within its credit is in violation exactly when a record does not fit
`QUEUE_LIMIT` behind those that still wait. -/
theorem violation_iff_queue_limit (c : Contract) (L : Limits) (now : Nat) (hasBody : Bool) (carrier : Carrier)
    (es : List AppEvent) (hes : (appMachine c L).Along (Conforms c L) (some (.start L now hasBody carrier)) es) :
    Admit.violation ∉ ((appMachine c L).run (some (.start L now hasBody carrier)) es).2 ↔
      (appMachine c L).Along (fun s e => Fits L s e) (some (.start L now hasBody carrier)) es := by
  have hinv := runInv_start c L now hasBody carrier
  generalize AppRun.start L now hasBody carrier = s at hes hinv
  induction es generalizing s with
  | nil => simp
  | cons e es ih =>
    obtain ⟨he, hrest⟩ := hes
    obtain ⟨s', hstep, hinv'⟩ := appMachine_step hinv he.sized
    rw [hstep] at hrest
    rw [Machine.run_cons, Machine.along_cons, hstep, mem_append, not_or]
    exact and_congr (hinv.fits_iff he) (ih s' hrest hinv')

/-! ### Small records -/

/-- An answer of `n` such BODYs, none of which the connection takes yet. -/
def emptyBodies (n : Nat) : List AppEvent := List.replicate n (.record wideArena 0 emptyBody)

theorem RunInv.enqueued (h : RunInv c L s) {arena : Arena} {now : Nat} (hrec : rec.length ≤ L.recordMax) {y : Exchange}
    (htook : admitRecord c L arena now s.x s.q rec = enqueue L arena s.x y s.q rec) :
    s.record c L arena now rec = some ({ s with x := {}, q := {} }, [.violation]) ∨
      ∃ q', s.record c L arena now rec =
          some ({ s with x := y, q := q', sent := s.sent + (recordBody c rec).1.length }, [.queued]) ∧
        q'.len = s.q.len + (4 + rec.length) := by
  obtain ⟨⟨records, hbal⟩, -⟩ := h
  obtain ⟨ok, q', hpush, hholds, -⟩ := hbal.holds.pushed arena hrec
  simp only [AppRun.record, htook, enqueue, hpush, bind_eq_bind, bind_some]
  cases ok with
  | false => exact .inl rfl
  | true =>
    refine .inr ⟨q', rfl, ?_⟩
    rw [hholds.len, hbal.holds.len]
    simp

theorem record_emptyBody (h : RunInv plainContract smallLimits s) (hopen : s.x.isOpen = true)
    (hhead : s.x.respHead = true) (hdone : s.x.respDone = false) :
    ∃ s' o, s.record plainContract smallLimits wideArena 0 emptyBody = some (s', [o]) ∧
      RunInv plainContract smallLimits s' ∧ s'.sent = s.sent ∧ s'.granted = s.granted ∧
      ((o = .violation ∧ s'.x.isOpen = false) ∨
        (s'.x.isOpen = true ∧ s'.x.respHead = true ∧ s'.x.respDone = false ∧
          s'.q.len = s.q.len + 20)) := by
  have hrec : emptyBody.length ≤ smallLimits.recordMax := by decide
  obtain ⟨s', o, hstep, hinv, -⟩ := h.recorded wideArena 0 hrec
  refine ⟨s', o, hstep, hinv, ?_⟩
  have hparse : plainContract.parseResponse emptyBody = some (.body true []) := by decide
  have htook : admitRecord plainContract smallLimits wideArena 0 s.x s.q emptyBody =
      enqueue smallLimits wideArena s.x (s.x.answered 0 0 true) s.q emptyBody := by
    simp [admitRecord, hopen, hparse, hhead, hdone]
  rcases h.enqueued hrec htook with hclosed | ⟨q', hqueued, hlen⟩
  · rw [hclosed] at hstep
    cases hstep
    exact ⟨rfl, rfl, .inl ⟨rfl, rfl⟩⟩
  · rw [hqueued] at hstep
    cases hstep
    refine ⟨rfl, rfl, .inr ⟨hopen, hhead, ?_, hlen⟩⟩
    change (s.x.respDone || !true) = false
    rw [hdone]
    rfl

theorem emptyBodies_spec (n : Nat) (h : RunInv plainContract smallLimits s) (hsent : s.sent ≤ s.granted)
    (hmore : s.x.isOpen = true → s.x.respHead = true ∧ s.x.respDone = false) :
    (appMachine plainContract smallLimits).Along (Conforms plainContract smallLimits) (some s) (emptyBodies n) ∧
      (s.x.isOpen = true →
        Admit.violation ∉ ((appMachine plainContract smallLimits).run (some s) (emptyBodies n)).2 →
        s.q.len + 20 * n ≤ smallLimits.queueLimit) := by
  induction n generalizing s with
  | zero =>
    refine ⟨trivial, fun _ _ => ?_⟩
    obtain ⟨⟨records, hbal⟩, -⟩ := h
    have := hbal.holds.bound
    have := hbal.holds.capped
    omega
  | succ n ih =>
    have hconf : Conforms plainContract smallLimits (some s) (.record wideArena 0 emptyBody) := by
      refine ⟨by decide, fun _ => rfl, ?_⟩
      rintro a ⟨⟩ hopen
      obtain ⟨hhead, hdone⟩ := hmore hopen
      have hbody : (recordBody plainContract emptyBody).1 = [] := by decide
      have hparse : plainContract.parseResponse emptyBody = some (.body true []) := by decide
      exact ⟨hdone, by rw [hbody]; exact hsent, by rw [hparse]; exact hhead⟩
    rw [emptyBodies, List.replicate_succ, Machine.along_cons, Machine.run_cons, ← emptyBodies]
    by_cases hopen : s.x.isOpen = true
    · obtain ⟨hhead, hdone⟩ := hmore hopen
      obtain ⟨s', o, hstep, hinv, hsent', hgranted', hcases⟩ := record_emptyBody h hopen hhead hdone
      have hmach : (appMachine plainContract smallLimits).step (some s) (.record wideArena 0 emptyBody) =
          (some s', [o]) := by simp [appMachine, AppRun.step, hstep]
      rw [hmach]
      rcases hcases with ⟨rfl, hclosed⟩ | ⟨hopen', hhead', hdone', hlen⟩
      · exact ⟨⟨hconf, (ih hinv (by omega) (by simp [hclosed])).1⟩, fun _ hnot => absurd (by simp) hnot⟩
      · obtain ⟨halong, hbound⟩ := ih hinv (by omega) fun _ => ⟨hhead', hdone'⟩
        refine ⟨⟨hconf, halong⟩, fun _ hnot => ?_⟩
        have := hbound hopen' fun hmem => hnot (mem_append_right _ hmem)
        omega
    · have hmach : (appMachine plainContract smallLimits).step (some s) (.record wideArena 0 emptyBody) =
          (some s, [.stale]) := by
        simp [appMachine, AppRun.step, AppRun.record, admitRecord, hopen]
      rw [hmach]
      exact ⟨⟨hconf, (ih h hsent hmore).1⟩, fun ho => absurd ho hopen⟩

theorem start_moreHead :
    ∃ s, (AppRun.start smallLimits 0 false (.h1 {})).record plainContract smallLimits wideArena 0 moreHead =
        some (s, [.queued]) ∧ RunInv plainContract smallLimits s ∧ s.x.isOpen = true ∧
      s.x.respHead = true ∧ s.x.respDone = false ∧ s.sent ≤ s.granted := by
  have hrec : moreHead.length ≤ smallLimits.recordMax := by decide
  have hinv := runInv_start plainContract smallLimits 0 false (.h1 {})
  obtain ⟨s, o, hstep, hinv', hiff⟩ := hinv.recorded wideArena 0 hrec
  have hok : o ≠ .violation := by
    rw [Ne, hiff]
    exact fun hbad => hbad.2 ⟨⟨rfl, by decide⟩, fun _ => ⟨by decide, .inr rfl⟩⟩
  have htook : admitRecord plainContract smallLimits wideArena 0 (opened smallLimits 0 false) {} moreHead =
      enqueue smallLimits wideArena (opened smallLimits 0 false)
        ({ opened smallLimits 0 false with respHead := true }.answered 0 0 true) {} moreHead := rfl
  rcases hinv.enqueued hrec htook with hclosed | ⟨q', hqueued, hlen⟩
  · rw [hclosed] at hstep
    cases hstep
    exact absurd rfl hok
  · rw [hqueued] at hstep
    cases hstep
    exact ⟨_, hqueued, hinv', rfl, rfl, rfl, Nat.zero_le _⟩

/-- Thirteen hundred BODYs without a byte pass the limit, although no credit is used. -/
theorem violation_within_credit_emptyBodies :
    (appMachine plainContract smallLimits).Along (Conforms plainContract smallLimits)
        (some (.start smallLimits 0 false (.h1 {}))) (.record wideArena 0 moreHead :: emptyBodies 1300) ∧
      Admit.violation ∈ ((appMachine plainContract smallLimits).run (some (.start smallLimits 0 false (.h1 {})))
        (.record wideArena 0 moreHead :: emptyBodies 1300)).2 := by
  obtain ⟨s, hstep, hinv, hopen, hhead, hdone, hsent⟩ := start_moreHead
  have hmach : (appMachine plainContract smallLimits).step (some (.start smallLimits 0 false (.h1 {})))
      (.record wideArena 0 moreHead) = (some s, [.queued]) := by simp [appMachine, AppRun.step, hstep]
  obtain ⟨halong, hbound⟩ := emptyBodies_spec 1300 hinv hsent fun _ => ⟨hhead, hdone⟩
  rw [Machine.along_cons, Machine.run_cons, hmach]
  refine ⟨⟨⟨by decide, fun _ => rfl, ?_⟩, halong⟩, ?_⟩
  · rintro a ⟨⟩ -
    exact ⟨rfl, by decide, rfl⟩
  · by_contra hnot
    have hfits := hbound hopen fun hmem => hnot (mem_append_right _ hmem)
    simp [smallLimits, Limits.queueLimit, Limits.respWindow] at hfits

def tinyLimits : Limits where
  recordMax := 64
  bodyMax := 48
  windowRecords := 1
  small := by decide

def shortBody : Bytes := 2 :: 1 :: List.replicate 14 0 ++ [0x61, 0x62]

/-- A HEAD and a BODY of two bytes, which go out together, and another. -/
def shortAnswer : List AppEvent :=
  [.record wideArena 0 moreHead, .record wideArena 0 shortBody,
    .compose 4100 (fun _ => some ⟨60, true, none⟩) 0 0 [true, true], .record wideArena 0 shortBody]

/-- The answer is in order and within the credit, and that of its first body comes back. -/
theorem violation_iff_queue_limit_shortAnswer :
    let run := (appMachine plainContract tinyLimits).run (some (.start tinyLimits 0 false (.h1 {}))) shortAnswer
    (appMachine plainContract tinyLimits).Along (Conforms plainContract tinyLimits)
        (some (.start tinyLimits 0 false (.h1 {}))) shortAnswer ∧
      run.2 = [.queued, .queued, .queued] ∧ run.1.map (fun s => (s.sent, s.granted)) = some (4, 50) ∧
      Admit.violation ∉ run.2 := by
  intro run
  have hconf : (appMachine plainContract tinyLimits).Along (Conforms plainContract tinyLimits)
      (some (.start tinyLimits 0 false (.h1 {}))) shortAnswer := by
    refine ⟨⟨by decide, fun _ => rfl, ?_⟩, ⟨by decide, fun _ => rfl, ?_⟩, trivial, ⟨by decide, fun _ => rfl, ?_⟩, trivial⟩
    · rintro a ⟨⟩ -
      exact ⟨rfl, by decide, rfl⟩
    · rintro a ⟨⟩ -
      exact ⟨rfl, by decide, rfl⟩
    · rintro a ⟨⟩ -
      exact ⟨rfl, by decide, rfl⟩
  refine ⟨hconf, by decide +kernel, by decide +kernel,
    (violation_iff_queue_limit plainContract tinyLimits 0 false (.h1 {}) _ hconf).mpr ⟨?_, ?_, trivial, ?_, trivial⟩⟩
  · rintro a ⟨⟩
    decide
  · rintro a ⟨⟩
    decide
  · rintro a ⟨⟩
    decide

end Wave.Http.App
