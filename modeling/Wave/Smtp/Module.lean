import Wave.Common.SmtpCore
import Wave.Lib.Machine

/-! # The submission client (`foundation/smtp/mod.rs`)

`SmtpWorld` has the module's state, its channels' answers, and the course: `staged`, `wire`, `message` and `accepts`
(what had been sent at each decision that the server took a message). -/

namespace Wave.Smtp

open Lib Common

/-- `BODY_MAX` of the exchange contract. -/
def CHUNK_BUF : Nat := 8176
def REQ_BUF : Nat := 2 * CHUNK_BUF + 64
def ACC_BUF : Nat := 2048
def NAME_BUF : Nat := 256
def CRED_BUF : Nat := 120
def TEXT_BUF : Nat := 256
def NET_BUF : Nat := 2048
def NET_FRAME_HDR : Nat := 3
def CONNECT_TIMEOUT_MS : UInt64 := 10000
def REPLY_TIMEOUT_MS : UInt64 := 15000

structure SmtpConfig where
  requestIn : Bool
  responseOut : Bool
  statusOut : Bool
  helo : BoundedBytes NAME_BUF
  authUser : BoundedBytes CRED_BUF
  authPass : BoundedBytes CRED_BUF
  channelConfidential : Bool
  tag : UInt32

/-- A record that waits for `response_out` beside the answer. -/
inductive Ctl where
  | credit (id : Nat) (bytes : Nat)
  | abort (id : Nat)

inductive Refusal where
  | busy
  | badRequest
  | tooLarge
deriving DecidableEq

structure Answer where
  id : Nat
  status : UInt16
  outcome : SmtpOutcome
  phase : SmtpPhase
  code : UInt16
  text : Bytes
  more : Bool

structure Acceptance where
  wire : Bytes
  mailFrom : Bytes
  rcptTo : Bytes
  message : Bytes
  moreBody : Bool

structure SmtpState where
  sawAuthPlain : Bool := false
  opActive : Bool := false
  id : Nat := 0
  answerable : Bool := false
  abandoned : Bool := false
  creditOut : Nat := 0
  creditOwed : Nat := 0
  respCredit : Nat := 0
  headSent : Bool := false
  mailFrom : Bytes := []
  rcptTo : Bytes := []
  chunk : Bytes := []
  moreBody : Bool := false
  atLineStart : Bool := true
  endsCrlf : Bool := false
  bodyTerminated : Bool := false
  phase : SmtpPhase := .disconnected
  connId : UInt16 := 0
  connPresent : Bool := false
  startedMs : UInt64 := 0
  draining : Bool := false
  req : Bytes := []
  reqSent : Nat := 0
  acc : Bytes := []
  resProduced : Bool := false
  resOwed : Bool := false
  resOutcome : SmtpOutcome := .accepted
  resPhase : SmtpPhase := .disconnected
  resCode : UInt16 := 0
  resText : Bytes := []
  status : Option Bytes := none
  statusProduced : Bool := false
  refusal : Option (Nat × Refusal) := none
  ctl : Option Ctl := none

structure SmtpWorld extends SmtpState where
  respTaken : List Bool := []
  staged : Bytes := []
  wire : Bytes := []
  message : Bytes := []
  accepts : List Acceptance := []
  answers : List Answer := []

namespace SmtpWorld

variable (cfg : SmtpConfig)

def emitStatus (w : SmtpWorld) (text : Bytes) : SmtpWorld :=
  if !cfg.statusOut || w.statusProduced then w
  else { w with statusProduced := true, status := some text }

def flushStatus (w : SmtpWorld) (taken : Bool) : SmtpWorld :=
  if taken then { w with status := none } else w

def acceptance (w : SmtpWorld) : Acceptance where
  wire := w.wire
  mailFrom := w.mailFrom
  rcptTo := w.rcptTo
  message := w.message
  moreBody := w.moreBody

def emitResult (w : SmtpWorld) (outcome : SmtpOutcome) (reached : SmtpPhase) : SmtpWorld :=
  if w.resProduced then w
  else
    { w with
      resProduced := true
      resOwed := true
      resOutcome := outcome
      resPhase := reached
      accepts := if outcome = .accepted then w.accepts ++ [w.acceptance] else w.accepts }

def answerStatus : SmtpOutcome → UInt16
  | .connectFailed | .closed => 502
  | .timeout => 504
  | _ => 200

section

variable (w : SmtpWorld)

/-- A write to `response_out`; none left is a refusal. -/
def respond : Bool × SmtpWorld :=
  match w.respTaken with
  | taken :: rest => (taken, { w with respTaken := rest })
  | [] => (false, w)

def answer (more : Bool) : Answer where
  id := w.id
  status := answerStatus w.resOutcome
  outcome := w.resOutcome
  phase := w.resPhase
  code := w.resCode
  text := w.resText
  more := more

/-- The result goes with the head when the credit covers it, else behind it. -/
def flushResult : SmtpWorld :=
  if !w.resOwed then w
  else if !w.answerable || w.abandoned || !cfg.responseOut then { w with resOwed := false }
  else
    let fits := decide (w.respCredit ≥ SMTP_RES_HDR + w.resText.length)
    if w.headSent && !fits then w
    else
      match w.respond with
      | (false, w) => w
      | (true, w) =>
        { w with
          answers := w.answers ++ [w.answer !fits]
          resOwed := !fits
          headSent := w.headSent || !fits }

def recordReply (code : UInt16) (text : Bytes) : SmtpWorld :=
  { w with resCode := code, resText := text.take TEXT_BUF }

def stageReq (bytes : Bytes) (now : UInt64) : SmtpWorld :=
  { w with
    req := bytes.take REQ_BUF
    reqSent := 0
    startedMs := now
    staged := w.staged ++ bytes.take REQ_BUF }

def commandFor : SmtpCmd → Option Bytes
  | .sendEhlo => smtpPut REQ_BUF (ehloLine cfg.helo.val)
  | .sendAuth => smtpAuthPlain REQ_BUF cfg.authUser.val cfg.authPass.val
  | .sendMailFrom => smtpPut REQ_BUF (mailFromLine w.mailFrom)
  | .sendRcptTo => smtpPut REQ_BUF (rcptToLine w.rcptTo)
  | .sendData => smtpPut REQ_BUF dataLine
  | .sendQuit => smtpPut REQ_BUF quitLine
  | .sendBody | .complete | .fail => none

def stageCmd (cmd : SmtpCmd) (now : UInt64) : SmtpWorld :=
  match w.commandFor cfg cmd with
  | some bytes => w.stageReq bytes now
  | none => w

def pumpBody (now : UInt64) : SmtpWorld :=
  if w.phase ≠ .body || w.reqSent < w.req.length then w
  else if w.chunk ≠ [] then
    match smtpBodyChunk REQ_BUF w.chunk w.atLineStart with
    | some (out, atLineStart) =>
      stageReq { w with
        atLineStart := atLineStart
        endsCrlf := endsCrlf w.chunk
        chunk := []
        creditOwed := if w.moreBody && w.answerable then w.creditOwed + w.chunk.length
          else w.creditOwed } out now
    | none => w
  else if !w.moreBody && !w.bodyTerminated then
    stageReq { w with bodyTerminated := true } (smtpBodyEnd w.endsCrlf) now
  else w

def authPlan : SmtpAuthPlan :=
  if cfg.authUser.val = [] then .none
  else if !cfg.channelConfidential || !w.sawAuthPlain then .refuse
  else .plain

def closeConnection : SmtpWorld :=
  if w.connPresent then { w with connId := 0, connPresent := false } else w

def onReply (code : UInt16) (now : UInt64) : SmtpWorld :=
  let answered := w.phase
  let w :=
    if smtpReplyAccepts answered code then
      (w.emitResult .accepted answered).emitStatus cfg (ascii "smtp: delivered\n")
    else w
  let plan := w.authPlan cfg
  let r := smtpOnReply answered code plan
  let w := { w with phase := r.2 }
  match r.1 with
  | .complete => w.emitStatus cfg (ascii "smtp: delivered\n")
  | .fail =>
    if answered = .ehlo ∧ code = 250 ∧ plan = .refuse then
      ((w.emitResult .authUnavailable answered).emitStatus cfg
        (ascii "smtp: auth unavailable\n")).closeConnection
    else
      ((w.emitResult (smtpClassifyCode code) answered).emitStatus cfg
        (ascii "smtp: rejected\n")).closeConnection
  | cmd => w.stageCmd cfg cmd now

/-- The line at the head of the replies: an offer in it is noted, and the text of a
final one kept. -/
def takeLine (line : ReplyLine) : SmtpWorld :=
  let w :=
    if w.phase = .ehlo && smtpOffersAuthPlain (w.acc.take line.len) then { w with sawAuthPlain := true }
    else w
  let w := if line.isFinal then w.recordReply line.code (smtpReplyText (w.acc.take line.len)) else w
  { w with acc := w.acc.drop line.len }

end

def drainReplies (now : UInt64) : (fuel : Nat) → SmtpWorld → SmtpWorld
  | 0, w => w
  | fuel + 1, w =>
    if w.phase = .done || w.phase = .failed then w
    else
      match smtpReplyLine w.acc with
      | none => w
      | some line =>
        let w := w.takeLine line
        drainReplies now fuel (if line.isFinal then w.onReply cfg line.code now else w)

/-- A record of `request_in`; one that does not parse is `other`. -/
inductive SmtpRecord where
  | head (id : Nat) (post : Bool) (plain : Bool) (mailFrom : Bytes) (target : Bytes) (body : Bytes)
      (more : Bool) (respCredit : Nat)
  | body (id : Nat) (more : Bool) (data : Bytes)
  | credit (id : Nat) (bytes : Nat)
  | abort (id : Nat)
  | other

def U32_MAX : Nat := 4294967295

def satAdd (a b : Nat) : Nat := min (a + b) U32_MAX

section

variable (w : SmtpWorld)

def composeCredit : SmtpWorld :=
  if w.ctl = none && w.creditOwed ≠ 0 && w.answerable && !w.abandoned then
    { w with
      ctl := some (.credit w.id w.creditOwed)
      creditOut := satAdd w.creditOut w.creditOwed
      creditOwed := 0 }
  else w

def flushCtl : Bool × SmtpWorld :=
  if w.ctl = none then (true, w)
  else
    match w.respond with
    | (true, w) => (true, { w with ctl := none })
    | (false, w) => (false, w)

def flushRefusal : Bool × SmtpWorld :=
  if w.refusal = none then (true, w)
  else
    match w.respond with
    | (true, w) => (true, { w with refusal := none })
    | (false, w) => (false, w)

def flushOwed : Bool × SmtpWorld :=
  match w.composeCredit.flushCtl with
  | (true, w) => w.flushRefusal
  | (false, w) => (false, w)

def refuse (id : Nat) (code : Refusal) : SmtpWorld :=
  (flushOwed { w with refusal := some (id, code) }).2

def endAbandoned : SmtpWorld :=
  { closeConnection { w with abandoned := true, resOwed := false, resProduced := true, creditOwed := 0 }
    with phase := .failed }

def live (id : Nat) : Bool := w.opActive && w.answerable && id = w.id

def takeRecord : SmtpRecord → SmtpWorld
  | .head id post plain mailFrom target body more respCredit =>
    if w.live id then w
    else if w.draining || w.opActive then w.refuse id .busy
    else if !post || !plain || mailFrom = [] || target = [] then w.refuse id .badRequest
    else if mailFrom.length > NAME_BUF || target.length > NAME_BUF || body.length > CHUNK_BUF then
      w.refuse id .tooLarge
    else
      { w with
        id := id
        answerable := true
        abandoned := false
        respCredit := respCredit
        headSent := false
        mailFrom := mailFrom
        rcptTo := target
        chunk := body
        moreBody := more
        creditOut := 0
        creditOwed := if more then CHUNK_BUF - body.length else 0
        atLineStart := true
        endsCrlf := false
        bodyTerminated := false
        opActive := true
        message := body }
  | .body id more data =>
    if w.live id then
      if !w.moreBody || data.length > w.creditOut then
        endAbandoned { w with ctl := some (.abort w.id) }
      else
        { w with
          chunk := w.chunk ++ data
          creditOut := w.creditOut - data.length
          moreBody := more
          message := w.message ++ data }
    else w
  | .credit id bytes => if w.live id then { w with respCredit := satAdd w.respCredit bytes } else w
  | .abort id => if w.live id then (w.emitStatus cfg (ascii "smtp: cancelled\n")).endAbandoned else w
  | .other => w

end

def pumpLoop : (fuel : Nat) → List SmtpRecord → SmtpWorld → SmtpWorld
  | 0, _, w => w
  | fuel + 1, records, w =>
    match w.flushOwed with
    | (false, w) => w
    | (true, w) =>
      match records with
      | [] => w
      | record :: rest => pumpLoop fuel rest (w.takeRecord cfg record)

def pumpRequests (w : SmtpWorld) (records : List SmtpRecord) : SmtpWorld :=
  if !cfg.requestIn || !cfg.responseOut then w else pumpLoop cfg 4 records w

inductive SmtpFrame where
  | connected (conn : UInt16) (tag : UInt32)
  | data (conn : UInt16) (bytes : Bytes)
  | closed (conn : UInt16)
  | error (conn : UInt16) (tag : Option UInt32)
  | other

def onData (w : SmtpWorld) (now : UInt64) (conn : UInt16) (bytes : Bytes) : SmtpWorld :=
  if w.phase = .disconnected || w.phase = .connecting || bytes = [] || conn ≠ w.connId then w
  else
    let w := { w with acc := w.acc ++ bytes.take (ACC_BUF - w.acc.length) }
    w.drainReplies cfg now (w.acc.length + 1)

def onClosed (w : SmtpWorld) (conn : UInt16) : SmtpWorld :=
  if w.phase = .disconnected || w.phase = .done || conn ≠ w.connId then w
  else
    { (emitResult { w with phase := .failed } .closed .failed).emitStatus cfg
        (ascii "smtp: connection closed\n") with connId := 0, connPresent := false }

/-- A failed dial is known by its tag, a failed connection by its id alone. -/
def onError (w : SmtpWorld) (conn : UInt16) (tag : Option UInt32) : SmtpWorld :=
  let connecting := w.phase = .connecting && tag = some cfg.tag
  let established := w.connPresent && tag = none && conn = w.connId
  if (connecting || established) && w.phase ≠ .done && w.phase ≠ .failed then
    (emitResult { w with phase := .failed } (if connecting then .connectFailed else .closed)
      w.phase).emitStatus cfg (ascii "smtp: network error\n")
  else w

def onFrame (now : UInt64) (w : SmtpWorld) : SmtpFrame → SmtpWorld
  | .connected conn tag =>
    if w.phase = .connecting && tag = cfg.tag then
      { w with connId := conn, connPresent := true, phase := .greet, startedMs := now }
    else w
  | .data conn bytes => w.onData cfg now conn bytes
  | .closed conn => w.onClosed cfg conn
  | .error conn tag => w.onError cfg conn tag
  | .other => w

def MAX_CHUNK : Nat := NET_BUF - NET_FRAME_HDR - 1

def sendStaged : List Bool → SmtpWorld → SmtpWorld
  | true :: rest, w =>
    if w.reqSent < w.req.length then
      sendStaged rest { w with
        wire := w.wire ++ (w.req.drop w.reqSent).take MAX_CHUNK
        reqSent := w.reqSent + min (w.req.length - w.reqSent) MAX_CHUNK }
    else w
  | _, w => w

/-- The clock, the records and frames that wait, and the answers to the writes of this step. -/
structure SmtpInput where
  now : UInt64 := 0
  drain : Bool := false
  records : List SmtpRecord := []
  frames : List SmtpFrame := []
  dialTaken : Bool := true
  sendTaken : List Bool := []
  respTaken : List Bool := []
  statusTaken : Bool := true

section

variable (w : SmtpWorld)

def stepDial (inp : SmtpInput) : SmtpWorld :=
  if w.opActive && w.phase = .disconnected && !w.resProduced && inp.dialTaken then
    { w with phase := .connecting, startedMs := inp.now }
  else w

def stepFrames (inp : SmtpInput) : SmtpWorld :=
  inp.frames.foldl (onFrame cfg inp.now) w

def stepSend (inp : SmtpInput) : SmtpWorld :=
  if w.connPresent then sendStaged inp.sendTaken w else w

def stepTimeout (now : UInt64) : SmtpWorld :=
  if w.opActive && w.phase ≠ .disconnected && w.phase ≠ .done && w.phase ≠ .failed &&
      now - w.startedMs > (if w.phase = .connecting then CONNECT_TIMEOUT_MS else REPLY_TIMEOUT_MS) then
    (emitResult { w with phase := .failed } .timeout w.phase).emitStatus cfg (ascii "smtp: timeout\n")
  else w

def finishOp : SmtpWorld :=
  if w.resOwed || w.status ≠ none then w
  else
    let w := w.closeConnection
    { w with
      opActive := false
      id := 0
      answerable := false
      abandoned := false
      creditOut := 0
      creditOwed := 0
      respCredit := 0
      headSent := false
      mailFrom := []
      rcptTo := []
      chunk := []
      moreBody := false
      atLineStart := true
      endsCrlf := false
      bodyTerminated := false
      sawAuthPlain := false
      phase := .disconnected
      req := []
      reqSent := 0
      acc := []
      resProduced := false
      resOutcome := .accepted
      resPhase := .disconnected
      resCode := 0
      resText := []
      statusProduced := false
      staged := []
      wire := []
      message := [] }

def stepFinish : SmtpWorld :=
  if w.opActive && (w.phase = .done || w.phase = .failed) then w.finishOp else w

def stepQuiesce : SmtpWorld :=
  if w.draining && !w.resOwed && w.status = none && !w.opActive && w.refusal = none && w.ctl = none then
    w.closeConnection
  else w

def facing (inp : SmtpInput) : SmtpWorld :=
  { w with respTaken := inp.respTaken, draining := w.draining || inp.drain }

def stepReplies (inp : SmtpInput) : SmtpWorld :=
  ((((w.facing inp).pumpRequests cfg inp.records).stepDial inp).stepFrames cfg inp)

def moduleStep (inp : SmtpInput) : SmtpWorld :=
  let w := (((w.stepReplies cfg inp).pumpBody inp.now).stepSend inp).stepTimeout cfg inp.now
  ((w.flushResult cfg).flushStatus inp.statusTaken).stepFinish.stepQuiesce

end

end SmtpWorld

structure SmtpStart where
  mailFrom : Bytes := []
  rcptTo : Bytes := []
  body : Bytes := []

def SmtpStart.world (start : SmtpStart) : SmtpWorld where
  mailFrom := start.mailFrom.take NAME_BUF
  rcptTo := start.rcptTo.take NAME_BUF
  chunk := start.body.take CHUNK_BUF
  opActive := start.mailFrom.take NAME_BUF ≠ [] && start.rcptTo.take NAME_BUF ≠ []
  message := start.body.take CHUNK_BUF

def smtpMachine (cfg : SmtpConfig) : Machine SmtpWorld SmtpWorld.SmtpInput Unit where
  step w inp := (w.moduleStep cfg inp, [])

end Wave.Smtp
