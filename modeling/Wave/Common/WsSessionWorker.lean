import Wave.Lib.Bytes
import Wave.Lib.Machine
import Wave.Lib.Table

/-! # The worker's half of session continuity (`common/ws_session_worker.rs`)

A worker drains, exports, imports and resumes the sessions it holds: `handleCtrl` takes the control frames and
`nextOut` renders the replies owed. -/

namespace Wave.Common

open Lib

inductive WswCommand where
  | attach
  | drain
  | detach
  | exportBegin
  | exportChunk
  | exportEnd
  | resume
  | other

/-- What the worker takes from the SDK: codes, lengths, and the walk, assembly and checksum of `session_handoff.rs`.
-/
structure HandoffSdk where
  command : UInt8 → WswCommand
  ATTACH_PAYLOAD_LEN : Nat
  EXPORT_BEGIN_LEN : Nat
  STATUS_OK : UInt8
  STATUS_STALE_EPOCH : UInt8
  HANDOFF_OK : UInt8
  Export : Type
  newExport : Nat → Export
  nextChunk : Export → Nat → Option (Nat × Nat)
  advance : Export → Nat → Export
  exportDone : Export → Bool
  Import : Type
  newImport : Import
  begin : Import → Nat → Nat → Import × UInt8
  chunk : {n : Nat} → Import → Nat → Bytes → FixedBytes n → Import × FixedBytes n × UInt8
  importEnd : Import → UInt32 → Import × UInt8
  totalLen : Import → Nat
  crc32 : Bytes → UInt32
  decodeCursors : Bytes → Option (UInt64 × UInt64)

inductive WswPhase where
  | free
  | active
  | draining
  | exporting
  | drained
  | importing
  | imported
deriving DecidableEq

inductive WswPending where
  | attached
  | drained
  | exportBegin
  | exportChunk
  | exportEnd
  | importBegin
  | importEnd
  | resumed
  | detached
  | error
deriving DecidableEq

inductive WswEvent where
  | none
  | attached (idx : Nat)
  | exportRequested (idx : Nat)
  | imported (idx : Nat)
  | resumed (idx : Nat)
  | detached (idx : Nat)
deriving DecidableEq

def WSW_HDR : Nat := 20
def WSW_PENDING_MAX : Nat := 4
def CURSOR_PAIR_LEN : Nat := 16
def SESSION_ID_BYTES : Nat := 16

structure ReplyQueue where
  entries : List WswPending
  bound : entries.length ≤ WSW_PENDING_MAX

namespace ReplyQueue

def empty : ReplyQueue := ⟨[], Nat.zero_le _⟩

def head (q : ReplyQueue) : Option WswPending := q.entries.head?

theorem bound_concat {entries : List WswPending} {p : WswPending} (h : entries.length < WSW_PENDING_MAX) :
    (entries ++ [p]).length ≤ WSW_PENDING_MAX := by
  rw [length_append]
  exact h

theorem bound_tail_concat {entries : List WswPending} {p : WswPending} (h : entries.length ≤ WSW_PENDING_MAX) :
    (entries.tail ++ [p]).length ≤ WSW_PENDING_MAX := by
  have hmax : 1 ≤ WSW_PENDING_MAX := by decide
  rw [length_append, List.length_tail, length_singleton]
  omega

def owe (q : ReplyQueue) (p : WswPending) : ReplyQueue :=
  if h : q.entries.length < WSW_PENDING_MAX then ⟨q.entries ++ [p], bound_concat h⟩
  else ⟨q.entries.tail ++ [p], bound_tail_concat q.bound⟩

def pop (q : ReplyQueue) : ReplyQueue := ⟨q.entries.tail, by have := q.bound; simp; omega⟩

def replaceHead (q : ReplyQueue) (p : WswPending) : ReplyQueue :=
  if h : 0 < q.entries.length then ⟨p :: q.entries.tail, by have := q.bound; simp; omega⟩ else q.owe p

end ReplyQueue

structure WswSession (sdk : HandoffSdk) (B : Nat) where
  sessionId : Bytes
  anchorId : Bytes
  conn : UInt32
  epoch : UInt32
  phase : WswPhase
  msgOpen : Bool
  pending : ReplyQueue
  inConsumed : UInt64
  outProduced : UInt64
  blobLen : Nat
  importEpoch : UInt32
  handoffExport : sdk.Export
  handoffImport : sdk.Import
  errEpoch : UInt32
  errStatus : UInt8
  attachStatus : UInt8
  importStatus : UInt8
  blob : FixedBytes B

def WswSession.new (sdk : HandoffSdk) (B : Nat) : WswSession sdk B where
  sessionId := List.replicate SESSION_ID_BYTES 0
  anchorId := List.replicate 8 0
  conn := 0
  epoch := 0
  phase := .free
  msgOpen := false
  pending := .empty
  inConsumed := 0
  outProduced := 0
  blobLen := 0
  importEpoch := 0
  handoffExport := sdk.newExport 0
  handoffImport := sdk.newImport
  errEpoch := 0
  errStatus := 0
  attachStatus := 0
  importStatus := 0
  blob := .zero B

/-- `u32::from_le_bytes` of the four bytes at `i`. -/
def u32At (b : Bytes) (i : Nat) : UInt32 := Bytes.u32le (b.at0 i) (b.at0 (i + 1)) (b.at0 (i + 2)) (b.at0 (i + 3))

def wswConnOf (sessionId : Bytes) : UInt32 :=
  Bytes.u32be (sessionId.at0 8) (sessionId.at0 9) (sessionId.at0 10) (sessionId.at0 11)

namespace WswSession

variable {sdk : HandoffSdk} {B : Nat}

def owe (s : WswSession sdk B) (p : WswPending) : WswSession sdk B := { s with pending := s.pending.owe p }

def pop (s : WswSession sdk B) : WswSession sdk B := { s with pending := s.pending.pop }

def replaceHead (s : WswSession sdk B) (p : WswPending) : WswSession sdk B :=
  { s with pending := s.pending.replaceHead p }

/-- `ATTACH` -/
def attachedBy (sdk : HandoffSdk) (B : Nat) (payload : Bytes) : WswSession sdk B :=
  let sid := payload.take SESSION_ID_BYTES
  { new sdk B with
    sessionId := sid, anchorId := Bytes.slice payload 16 24, conn := wswConnOf sid, epoch := u32At payload 24,
    phase := .active, attachStatus := sdk.STATUS_OK }.owe .attached

/-- `EXPORT_BEGIN`: an import is refused for capacity when its reply goes out. -/
def begunBy (sdk : HandoffSdk) (B : Nat) (payload : Bytes) : WswSession sdk B :=
  let sid := payload.take SESSION_ID_BYTES
  let epoch := u32At payload 16
  let cursors := (sdk.decodeCursors (Bytes.slice payload 24 (24 + CURSOR_PAIR_LEN))).getD (0, 0)
  let begun := sdk.begin sdk.newImport (u32At payload 20).toNat (B % 2 ^ 32)
  { { new sdk B with
      sessionId := sid, conn := wswConnOf sid, importEpoch := epoch, epoch := epoch, inConsumed := cursors.1,
      outProduced := cursors.2, handoffImport := begun.1, importStatus := begun.2 }.owe .importBegin with
    phase := .importing }

section

variable (s : WswSession sdk B)

/-- `DETACH`: whatever the phase, and replies owed are dropped with the session. -/
def letGo : WswSession sdk B :=
  { { s with pending := .empty }.owe .detached with phase := .free }

/-- `EXPORT_CHUNK` -/
def chunkBy (payload : Bytes) : WswSession sdk B :=
  let r := sdk.chunk s.handoffImport (u32At payload 20).toNat (payload.drop (WSW_HDR + 4)) s.blob
  let s := { s with handoffImport := r.1, blob := r.2.1 }
  if r.2.2 = sdk.HANDOFF_OK then s else { { s with importStatus := r.2.2 }.owe .importEnd with phase := .free }

def endStatus (payload : Bytes) : UInt8 := (sdk.importEnd s.handoffImport (u32At payload 20)).2

/-- `EXPORT_END` -/
def endBy (payload : Bytes) : WswSession sdk B :=
  let r := sdk.importEnd s.handoffImport (u32At payload 20)
  let s := { s with handoffImport := r.1, importStatus := r.2 }.owe .importEnd
  if r.2 = sdk.HANDOFF_OK then { s with blobLen := sdk.totalLen r.1, phase := .imported }
  else { s with phase := .free }

def fresh (epoch : UInt32) : Prop := s.phase = .imported ∧ epoch > s.importEpoch

def back (epoch : UInt32) : Prop :=
  (s.phase = .draining ∨ s.phase = .exporting ∨ s.phase = .drained) ∧ epoch = s.epoch

end

instance (s : WswSession sdk B) (epoch : UInt32) : Decidable (s.fresh epoch) := inferInstanceAs (Decidable (_ ∧ _))

instance (s : WswSession sdk B) (epoch : UInt32) : Decidable (s.back epoch) := inferInstanceAs (Decidable (_ ∧ _))

/-- `RESUME` -/
def resumeBy (s : WswSession sdk B) (epoch : UInt32) : WswSession sdk B :=
  if s.fresh epoch then { s with epoch := epoch, phase := .active }.owe .resumed
  else if s.back epoch then { s with phase := .active }.owe .resumed
  else { s with errEpoch := epoch, errStatus := sdk.STATUS_STALE_EPOCH }.owe .error

/-- `export_committed`, of a session that was asked for its blob. -/
def commit (s : WswSession sdk B) (len : Nat) : WswSession sdk B :=
  let blobLen := min len B % 2 ^ 32
  { s with blobLen := blobLen, handoffExport := sdk.newExport blobLen, phase := .drained }.owe .drained

/-- `self.sessions[idx].blob[..n]` -/
def exported (s : WswSession sdk B) : Bytes := s.blob.1.take (min s.blobLen B)

end WswSession

/-- What a control frame carries behind the session id and the epoch. -/
inductive WswBody where
  | attached (status : UInt8)
  | drained
  | exportBegin (total : Nat) (cursors : UInt64 × UInt64)
  | exportChunk (offset : Nat) (data : Bytes)
  | exportEnd (crc : UInt32)
  | importBegin (status : UInt8)
  | importEnd (status : UInt8)
  | resumed
  | detached
  | error (status : UInt8)
deriving DecidableEq

structure WswFrame where
  sessionId : Bytes
  epoch : UInt32
  body : WswBody
deriving DecidableEq

structure WsSessionWorker (sdk : HandoffSdk) (B : Nat) where
  workerId : Bytes
  chunk : Nat
  sessions : List (WswSession sdk B)

namespace WsSessionWorker

variable {sdk : HandoffSdk} {B : Nat}

def new (sdk : HandoffSdk) (B n : Nat) (workerId : Bytes) (chunk : Nat) : WsSessionWorker sdk B where
  workerId := workerId
  chunk := chunk
  sessions := List.replicate n (.new sdk B)

section

variable (w : WsSessionWorker sdk B)

def session (idx : Nat) : WswSession sdk B := w.sessions.getD idx (.new sdk B)

def setSession (idx : Nat) (s : WswSession sdk B) : WsSessionWorker sdk B :=
  { w with sessions := w.sessions.set idx s }

def sessionForId (sid : Bytes) : Option Nat :=
  if sid.length < SESSION_ID_BYTES then none
  else w.sessions.findIdx? fun s => s.phase ≠ .free && s.sessionId = sid.take SESSION_ID_BYTES

def freeSlot : Option Nat :=
  w.sessions.findIdx? fun s => s.phase = .free && s.pending.head = none

def mayConsume (idx : Nat) : Bool :=
  idx < w.sessions.length && ((w.session idx).phase = .active || (w.session idx).phase = .draining)

def onInbound (idx len : Nat) : WsSessionWorker sdk B :=
  w.setSession idx { w.session idx with inConsumed := (w.session idx).inConsumed + UInt64.ofNat len }

def onOutbound (idx len : Nat) : WsSessionWorker sdk B :=
  w.setSession idx { w.session idx with outProduced := (w.session idx).outProduced + UInt64.ofNat len }

def setMessageOpen (idx : Nat) (isOpen : Bool) : WsSessionWorker sdk B :=
  w.setSession idx { w.session idx with msgOpen := isOpen }

/-- The first session that drains and has its message closed is asked for its blob. -/
def dataIdle : WsSessionWorker sdk B × WswEvent :=
  match w.sessions.findIdx? fun s => s.phase = .draining && !s.msgOpen with
  | some i => (w.setSession i { w.session i with phase := .exporting }, .exportRequested i)
  | none => (w, .none)

/-- The module's state of a session, written through `blob_mut`. -/
def writeBlob (idx : Nat) (blob : FixedBytes B) : WsSessionWorker sdk B :=
  w.setSession idx { w.session idx with blob := blob }

def exportCommitted (idx len : Nat) : WsSessionWorker sdk B :=
  if idx ≥ w.sessions.length ∨ (w.session idx).phase ≠ .exporting then w
  else w.setSession idx ((w.session idx).commit len)

def attach (payload : Bytes) : WsSessionWorker sdk B × WswEvent :=
  if payload.length < sdk.ATTACH_PAYLOAD_LEN then (w, .none)
  else if (w.sessionForId payload).isSome then (w, .none)
  else
    match w.freeSlot with
    | none => (w, .none)
    | some i => (w.setSession i (.attachedBy sdk B payload), .attached i)

def drain (payload : Bytes) : WsSessionWorker sdk B × WswEvent :=
  match w.sessionForId payload with
  | none => (w, .none)
  | some i =>
    if (w.session i).phase = .active ∧ u32At payload 16 = (w.session i).epoch then
      (w.setSession i { w.session i with phase := .draining }, .none)
    else (w, .none)

def detach (payload : Bytes) : WsSessionWorker sdk B × WswEvent :=
  match w.sessionForId payload with
  | none => (w, .none)
  | some i => (w.setSession i (w.session i).letGo, .detached i)

def exportBegin (payload : Bytes) : WsSessionWorker sdk B × WswEvent :=
  if payload.length < sdk.EXPORT_BEGIN_LEN then (w, .none)
  else if (w.sessionForId payload).isSome then (w, .none)
  else
    match w.freeSlot with
    | none => (w, .none)
    | some i => (w.setSession i (.begunBy sdk B payload), .none)

def exportChunk (payload : Bytes) : WsSessionWorker sdk B × WswEvent :=
  match w.sessionForId payload with
  | none => (w, .none)
  | some i =>
    if (w.session i).phase ≠ .importing ∨ payload.length ≤ WSW_HDR + 4 then (w, .none)
    else (w.setSession i ((w.session i).chunkBy payload), .none)

def exportEnd (payload : Bytes) : WsSessionWorker sdk B × WswEvent :=
  match w.sessionForId payload with
  | none => (w, .none)
  | some i =>
    if (w.session i).phase ≠ .importing ∨ payload.length < WSW_HDR + 4 then (w, .none)
    else
      (w.setSession i ((w.session i).endBy payload),
        if (w.session i).endStatus payload = sdk.HANDOFF_OK then .imported i else .none)

def resume (payload : Bytes) : WsSessionWorker sdk B × WswEvent :=
  match w.sessionForId payload with
  | none => (w, .none)
  | some i =>
    let epoch := u32At payload 16
    (w.setSession i ((w.session i).resumeBy epoch),
      if (w.session i).fresh epoch ∨ (w.session i).back epoch then .resumed i else .none)

/-- `handle_ctrl`: one command from the anchor. -/
def handleCtrl (msg : UInt8) (payload : Bytes) : WsSessionWorker sdk B × WswEvent :=
  if payload.length < WSW_HDR then (w, .none)
  else
    match sdk.command msg with
    | .attach => w.attach payload
    | .drain => w.drain payload
    | .detach => w.detach payload
    | .exportBegin => w.exportBegin payload
    | .exportChunk => w.exportChunk payload
    | .exportEnd => w.exportEnd payload
    | .resume => w.resume payload
    | .other => (w, .none)

end

def outMin (sdk : HandoffSdk) (chunk : Nat) : Nat := max (WSW_HDR + 4 + chunk) sdk.EXPORT_BEGIN_LEN

end WsSessionWorker

/-- The frame at the head of a session's replies; none when the walk turns out to be over. -/
def WswSession.render {sdk : HandoffSdk} {B : Nat} (chunk : Nat) (s : WswSession sdk B) :
    WswSession sdk B × Option WswFrame :=
  let frame (body : WswBody) : Option WswFrame := some ⟨s.sessionId, s.epoch, body⟩
  match s.pending.head with
  | none => (s, none)
  | some .attached => (s.pop, frame (.attached s.attachStatus))
  | some .drained => (s.replaceHead .exportBegin, frame .drained)
  | some .exportBegin =>
    (s.replaceHead (if s.blobLen = 0 then .exportEnd else .exportChunk),
      frame (.exportBegin s.blobLen (s.inConsumed, s.outProduced)))
  | some .exportChunk =>
    match sdk.nextChunk s.handoffExport chunk with
    | some (off, len) =>
      let walked := { s with handoffExport := sdk.advance s.handoffExport len }
      (if sdk.exportDone walked.handoffExport then walked.replaceHead .exportEnd else walked,
        frame (.exportChunk off (Bytes.slice s.blob.1 off (off + len))))
    | none => (s.replaceHead .exportEnd, none)
  | some .exportEnd => (s.pop, frame (.exportEnd (sdk.crc32 s.exported)))
  | some .importBegin =>
    ({ s.pop with phase := if s.importStatus ≠ sdk.HANDOFF_OK then .free else s.phase },
      some ⟨s.sessionId, s.importEpoch, .importBegin s.importStatus⟩)
  | some .importEnd => (s.pop, some ⟨s.sessionId, s.importEpoch, .importEnd s.importStatus⟩)
  | some .resumed => (s.pop, frame .resumed)
  | some .detached => (.new sdk B, frame .detached)
  | some .error => (s.pop, some ⟨s.sessionId, s.errEpoch, .error s.errStatus⟩)

namespace WsSessionWorker

variable {sdk : HandoffSdk} {B : Nat}

/-- The first session that owes a frame and has one, from slot `i` on. -/
def nextOutLoop (chunk outLen : Nat) : Nat → List (WswSession sdk B) → List (WswSession sdk B) × Option (Nat × WswFrame)
  | _, [] => ([], none)
  | i, s :: rest =>
    if s.pending.head = none then
      let r := nextOutLoop chunk outLen (i + 1) rest
      (s :: r.1, r.2)
    else if outLen < outMin sdk chunk then (s :: rest, none)
    else
      match s.render chunk with
      | (s', some f) => (s' :: rest, some (i, f))
      | (s', none) =>
        let r := nextOutLoop chunk outLen (i + 1) rest
        (s' :: r.1, r.2)

/-- `next_out`: the next frame owed, and the slot it is of. -/
def nextOut (w : WsSessionWorker sdk B) (outLen : Nat) : WsSessionWorker sdk B × Option (Nat × WswFrame) :=
  let r := nextOutLoop w.chunk outLen 0 w.sessions
  ({ w with sessions := r.1 }, r.2)

end WsSessionWorker

end Wave.Common
