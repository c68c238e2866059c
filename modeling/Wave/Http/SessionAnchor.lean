import Wave.Lib.Bytes
import Wave.Lib.Machine
import Wave.Lib.Table

/-! # The session anchor (`http/server/session.rs`)

The anchor attaches a session to a worker, drains it, relays its export to the other and detaches the old one. -/

namespace Wave.Http.Anchor

open Lib Lib.Bytes

/-- The two worker slots; `false` is worker 0. -/
abbrev Worker := Bool

abbrev SessionId := Bytes

/-- `sc_phase`. -/
inductive SessionPhase where
  | none
  | attachWait
  | active
  | drainWait
  | importWait
  | resumeWait
  | resumeBackWait
  | attachPending
  | failed
deriving DecidableEq

namespace SessionPhase

/-- `SP_DRAIN_WAIT | SP_IMPORT_WAIT | SP_RESUME_WAIT`: the session is inside the swap. -/
def swapping : SessionPhase → Bool
  | drainWait | importWait | resumeWait => true
  | _ => false

/-- `SP_IMPORT_WAIT | SP_RESUME_WAIT`: the standby was given the export. -/
def exported : SessionPhase → Bool
  | importWait | resumeWait => true
  | _ => false

/-- The phases in which `on_slot_close` detaches `sc_worker`. -/
def attached : SessionPhase → Bool
  | none | attachPending => false
  | _ => true

end SessionPhase

structure SessionSlot where
  phase : SessionPhase := .none
  sessionId : SessionId := []
  epoch : UInt32 := 0
  /-- `sc_worker`; none is `NO_WORKER`. -/
  worker : Option Worker := none
  forwarded : UInt64 := 0
  relayed : UInt64 := 0
  holdStartMs : UInt64 := 0

inductive Msg where
  | attach
  | drain
  | detach
  | resume
  | exportBegin
  | exportChunk
  | exportEnd
  | attached
  | drained
  | importBegin
  | importEnd
  | resumed
  | detached
  | error
  | other
deriving DecidableEq

/-- A control frame from a worker, with what the contract's accessors read from its payload. -/
structure CtrlFrame where
  msg : Msg
  sessionId : SessionId
  epoch : UInt32 := 0
  /-- Whether the status is `STATUS_OK`; none when the payload ends at the header. -/
  statusOk : Option Bool := none
  /-- `export_cursors` and `SessionCursors::decode`. -/
  cursors : Option (UInt64 × UInt64) := none

/-- The wiring and the world outside: `accepts n w m` is the answer of `w` when the anchor's `n`th write is an `m`. -/
structure Setup where
  anchored : Bool
  hasStandby : Bool
  anchorId : Bytes
  drainMs : UInt32
  handoffAfterFrames : UInt32
  cursorsAdmit : UInt64 × UInt64 → UInt64 → UInt64 → Bool
  accepts : Nat → Worker → Msg → Bool

inductive Entry where
  | wrote (w : Worker) (msg : Msg) (sid : SessionId) (epoch : UInt32)
  /-- `from`, `to`, and the sessions on `from` by slot. -/
  | swapStarted (src dst : Worker) (on : List (Nat × SessionId))
  | refused (sid : SessionId)
  | closed (sid : SessionId)
  /-- `swap_active` went to 0, with the slots as they were. -/
  | swapDone (slots : List SessionSlot)

structure SessionAnchor where
  slots : List SessionSlot
  activeW : Worker := false
  swapActive : Bool := false
  swapFrom : Worker := false
  swapTo : Worker := false
  swapRequested : Bool := false
  swapDeadlineMs : UInt64 := 0
  framesSinceSwap : UInt32 := 0
  genNext : UInt32 := 0
  writes : Nat := 0
  log : List Entry := []

namespace SessionAnchor

def slot (a : SessionAnchor) (idx : Nat) : SessionSlot := a.slots.getD idx {}

def setSlot (a : SessionAnchor) (idx : Nat) (x : SessionSlot) : SessionAnchor :=
  { a with slots := a.slots.set idx x }

def note (a : SessionAnchor) (e : Entry) : SessionAnchor := { a with log := e :: a.log }

def sessionsOn (a : SessionAnchor) (w : Worker) : List (Nat × SessionId) :=
  ((List.range a.slots.length).filter fun i =>
    (a.slot i).phase ≠ .none ∧ (a.slot i).worker = some w).map fun i => (i, (a.slot i).sessionId)

end SessionAnchor

open SessionAnchor

def mintSessionId (anchorId : Bytes) (conn gen : UInt32) : SessionId := anchorId ++ be32 conn ++ be32 gen

section Anchor

variable (C : Setup)

section

variable (a : SessionAnchor)

/-- `sc_write` and `relay`. -/
def scWrite (w : Option Worker) (msg : Msg) (sid : SessionId) (epoch : UInt32) :
    SessionAnchor × Bool :=
  match w with
  | none => (a, false)
  | some w =>
    if C.accepts a.writes w msg then
      ({ a with writes := a.writes + 1, log := .wrote w msg sid epoch :: a.log }, true)
    else ({ a with writes := a.writes + 1 }, false)

def tryAttach (idx : Nat) : SessionAnchor :=
  let slot := a.slot idx
  let (a, ok) := scWrite C a slot.worker .attach slot.sessionId slot.epoch
  if ok then a.setSlot idx { slot with phase := .attachWait } else a

def onWsOpen (idx : Nat) (conn : UInt32) : SessionAnchor :=
  if C.anchored then
    let a' := { a with genNext := a.genNext + 1 }
    let slot : SessionSlot :=
      { phase := .attachPending, sessionId := mintSessionId C.anchorId conn a.genNext, epoch := 1,
        worker := some a.activeW }
    tryAttach C (a'.setSlot idx slot) idx
  else a

/-- `send_detach`, whose answer no caller reads. -/
def sendDetach (w : Option Worker) (slot : SessionSlot) : SessionAnchor :=
  (scWrite C a w .detach slot.sessionId slot.epoch).1

def checkSwapDone : SessionAnchor :=
  if a.swapActive = false then a
  else if a.slots.any (·.phase.swapping) then a
  else { a with swapActive := false, log := .swapDone a.slots :: a.log }

/-- `on_slot_close`, which `on_ws_end` is for an h2 tunnel. -/
def onSlotClose (idx : Nat) : SessionAnchor :=
  let slot := a.slot idx
  if slot.phase = .none then a
  else
    let a := if slot.phase.attached then sendDetach C a slot.worker slot else a
    let a := if slot.phase.exported then sendDetach C a (some a.swapTo) slot else a
    checkSwapDone ((a.note (.closed slot.sessionId)).setSlot idx
      { slot with phase := .none, worker := none })

end

def refuseSession (now : UInt64) (a : SessionAnchor) (idx : Nat) : SessionAnchor :=
  let slot := a.slot idx
  let a := if slot.phase.exported then sendDetach C a (some a.swapTo) slot else a
  let a := (a.note (.refused slot.sessionId)).setSlot idx
    { slot with
      phase := .resumeBackWait
      holdStartMs := if slot.holdStartMs = 0 then now else slot.holdStartMs }
  checkSwapDone (scWrite C a slot.worker .resume slot.sessionId slot.epoch).1

def drainSlot (now : UInt64) (src : Worker) (r : SessionAnchor × Nat) (idx : Nat) : SessionAnchor × Nat :=
  let slot := r.1.slot idx
  if slot.phase = .active ∧ slot.worker = some src then
    let (a, ok) := scWrite C r.1 (some src) .drain slot.sessionId slot.epoch
    if ok then (a.setSlot idx { slot with phase := .drainWait, holdStartMs := now }, r.2 + 1) else (a, r.2)
  else r

/-- `due`. -/
def swapDue (a : SessionAnchor) : Bool :=
  a.swapRequested || (C.handoffAfterFrames ≠ 0 && a.framesSinceSwap ≥ C.handoffAfterFrames)

/-- The fields a swap from `active_w` starts with. -/
def openSwap (now : UInt64) (a : SessionAnchor) : SessionAnchor :=
  { a with
    swapFrom := a.activeW
    swapTo := !a.activeW
    swapActive := true
    swapRequested := false
    framesSinceSwap := 0
    swapDeadlineMs := now + C.drainMs.toUInt64
    activeW := !a.activeW
    log := .swapStarted a.activeW (!a.activeW) (a.sessionsOn a.activeW) :: a.log }

def drainAll (now : UInt64) (src : Worker) (a : SessionAnchor) : SessionAnchor × Nat :=
  (List.range a.slots.length).foldl (drainSlot C now src) (a, 0)

def maybeStartSwap (now : UInt64) (a : SessionAnchor) : SessionAnchor :=
  if a.swapActive then a
  else if swapDue C a then
    if C.hasStandby then
      let r := drainAll C now a.activeW (openSwap C now a)
      if r.2 = 0 then checkSwapDone r.1 else r.1
    else { a with swapRequested := false, framesSinceSwap := 0 }
  else a

def refuseLate (now : UInt64) (a : SessionAnchor) (idx : Nat) : SessionAnchor :=
  if (a.slot idx).phase.swapping then refuseSession C now a idx else a

def failLate (now : UInt64) (a : SessionAnchor) (idx : Nat) : SessionAnchor :=
  let slot := a.slot idx
  if slot.phase = .resumeBackWait ∧ C.drainMs.toNat * 3 < now.toNat - slot.holdStartMs.toNat then
    a.setSlot idx { slot with phase := .failed }
  else a

def enforceDeadlines (now : UInt64) (a : SessionAnchor) : SessionAnchor :=
  let a :=
    if a.swapActive ∧ a.swapDeadlineMs ≤ now then
      checkSwapDone ((List.range a.slots.length).foldl (refuseLate C now) a)
    else a
  (List.range a.slots.length).foldl (failLate C now) a

def attachPending (a : SessionAnchor) : SessionAnchor :=
  (List.range a.slots.length).foldl
    (fun a idx => if (a.slot idx).phase = .attachPending then tryAttach C a idx else a) a

def slotForSession (a : SessionAnchor) (sid : SessionId) : Option Nat :=
  a.slots.findIdx? fun s => s.phase ≠ .none && s.sessionId = sid

/-- `dispatch_ctrl` for the slot `idx` of the frame's session. -/
def dispatchAt (now : UInt64) (a : SessionAnchor) (w : Worker) (f : CtrlFrame) (idx : Nat) : SessionAnchor :=
  let slot := a.slot idx
  let own := slot.worker = some w
  match f.msg with
  | .attached =>
    match f.statusOk with
    | some ok =>
      if slot.phase = .attachWait ∧ own then
        a.setSlot idx { slot with phase := if ok then .active else .failed }
      else a
    | none => a
  | .exportBegin =>
    if slot.phase = .drainWait ∧ own ∧ a.swapActive then
      if (f.cursors.map fun c => C.cursorsAdmit c slot.forwarded slot.relayed) = some true then
        let r := scWrite C a (some a.swapTo) .exportBegin slot.sessionId f.epoch
        if r.2 then r.1.setSlot idx { slot with phase := .importWait } else refuseSession C now r.1 idx
      else refuseSession C now a idx
    else a
  | .exportChunk | .exportEnd =>
    if slot.phase = .importWait ∧ own then
      let r := scWrite C a (some a.swapTo) f.msg slot.sessionId f.epoch
      if r.2 then r.1 else refuseSession C now r.1 idx
    else a
  | .importBegin =>
    if slot.phase = .importWait ∧ w = a.swapTo ∧ f.statusOk = some false then refuseSession C now a idx
    else a
  | .importEnd =>
    match f.statusOk with
    | some ok =>
      if slot.phase = .importWait ∧ w = a.swapTo then
        if ok then
          let r := scWrite C a (some a.swapTo) .resume slot.sessionId (slot.epoch + 1)
          if r.2 then r.1.setSlot idx { slot with phase := .resumeWait } else refuseSession C now r.1 idx
        else refuseSession C now a idx
      else a
    | none => a
  | .resumed =>
    if slot.phase = .resumeWait ∧ w = a.swapTo ∧ f.epoch = slot.epoch + 1 then
      let moved := { slot with epoch := f.epoch, worker := some a.swapTo, phase := .active, holdStartMs := 0 }
      checkSwapDone (sendDetach C (a.setSlot idx moved) slot.worker moved)
    else if slot.phase = .resumeBackWait ∧ own ∧ f.epoch = slot.epoch then
      a.setSlot idx { slot with phase := .active, holdStartMs := 0 }
    else a
  | .error =>
    if slot.phase.swapping then refuseSession C now a idx
    else if slot.phase = .resumeBackWait ∧ own then a.setSlot idx { slot with phase := .failed }
    else a
  | _ => a

def dispatchCtrl (now : UInt64) (a : SessionAnchor) (w : Worker) (f : CtrlFrame) : SessionAnchor :=
  match slotForSession a f.sessionId with
  | some idx => dispatchAt C now a w f idx
  | none => a

/-- `cur_note_forwarded`. -/
def noteForwarded (a : SessionAnchor) (idx : Nat) (total : UInt64) : SessionAnchor :=
  let slot := a.slot idx
  if slot.phase = .none then a
  else { a.setSlot idx { slot with forwarded := slot.forwarded + total } with
    framesSinceSwap := a.framesSinceSwap + 1 }

def noteRelayed (a : SessionAnchor) (idx : Nat) (total : UInt64) : SessionAnchor :=
  let slot := a.slot idx
  if slot.phase = .none then a else a.setSlot idx { slot with relayed := slot.relayed + total }

/-- `pump_trigger_table`, for the row the subscription shows. -/
def pumpTriggerTable (a : SessionAnchor) (desired : Worker) : SessionAnchor :=
  if desired ≠ a.activeW ∧ a.swapActive = false then { a with swapRequested := true } else a

end Anchor

/-- A turn of the anchor. The parts of a `pump` are turns of their own, in every order. -/
inductive Turn where
  | wsOpen (idx : Nat) (conn : UInt32)
  | slotClose (idx : Nat)
  | forwarded (idx : Nat) (total : UInt64)
  | relayed (idx : Nat) (total : UInt64)
  | trigger (desired : Worker)
  | attachPending
  | ctrl (now : UInt64) (w : Worker) (f : CtrlFrame)
  | deadlines (now : UInt64)
  | startSwap (now : UInt64)

def turn (C : Setup) (a : SessionAnchor) : Turn → SessionAnchor
  -- An upgrade is committed on a slot that carries no session: a connection or seat just taken, or an h2
  -- connection without a tunnel.
  | .wsOpen idx conn => if (a.slot idx).phase = .none then onWsOpen C a idx conn else a
  | .slotClose idx => onSlotClose C a idx
  | .forwarded idx total => noteForwarded a idx total
  | .relayed idx total => noteRelayed a idx total
  | .trigger desired => if C.anchored then pumpTriggerTable a desired else a
  | .attachPending => if C.anchored then attachPending C a else a
  | .ctrl now w f => if C.anchored then dispatchCtrl C now a w f else a
  | .deadlines now => if C.anchored then enforceDeadlines C now a else a
  | .startSwap now => if C.anchored then maybeStartSwap C now a else a

def machine (C : Setup) : Machine SessionAnchor Turn Empty where
  step a t := (turn C a t, [])

def init (conns : Nat) : SessionAnchor where
  slots := List.replicate conns {}

end Wave.Http.Anchor
