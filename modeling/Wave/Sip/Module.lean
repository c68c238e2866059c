import Wave.Common.SipDialog
import Wave.Common.SipCore
import Wave.Common.SipWire
import Wave.Lib.Machine

/-! # The call user agent (`foundation/sip/mod.rs`)

`SipWorld` has the module's state, what its channels answer, and what was written and asked so far. -/

namespace Wave.Sip

open Lib Common

def SIP_TX_BUF_SIZE : Nat := 512
def SIP_RX_BUF_SIZE : Nat := 512
def CALL_ID_SIZE : Nat := 16
def CTRL_QUEUE : Nat := 4
def T1_MS : UInt64 := 500

/-- Which ports are wired, and the configuration. -/
structure SipConfig where
  commandIn : Bool
  callCtrlIn : Bool
  rtpCtrlOut : Bool
  eventOut : Bool
  localIp : UInt32
  localSipPort : UInt16
  fromTag : UInt16
  autoAnswer : Bool

inductive CtrlCmd where
  | setEndpoint
  | start
  | stop
deriving DecidableEq

/-- A control record; only `SET_ENDPOINT` carries an endpoint. -/
structure CtrlRecord where
  cmd : CtrlCmd
  ip : UInt32
  port : UInt16
deriving DecidableEq

structure SipModState where
  sipBound : Bool := false
  sipEpId : UInt8 := 0xFF
  peerIp : UInt32 := 0
  peerSipPort : UInt16 := 5060
  rtpPort : UInt16 := 5004
  peerRtpIp : UInt32 := 0
  peerRtpPort : UInt16 := 0
  cid : UInt32 := 0
  cidCounter : UInt32 := 0
  offerPending : Bool := false
  eventOwed : Option SipEventRecord := none
  cseq : UInt32 := 1
  callIdCounter : UInt16 := 0
  toTag : UInt16 := 0
  branch : UInt16 := 0
  callId : Bytes := []
  fsm : SipDialogFsm := {}
  lastRetransmitMs : UInt64 := 0
  ctrlQueue : List CtrlCmd := []
  sipTxBuf : Bytes := []
  sipTxPending : Bool := false

structure Built where
  msg : SipSend
  dialog : SipDialog

/-- The module with the answers to this step's writes, the records written, and `asked` (media commands), `reports`
(events) and `begun` (calls). -/
structure SipWorld extends SipModState where
  netTaken : List Bool := []
  ctrlTaken : List Bool := []
  datagrams : List Bytes := []
  ctrlSent : List CtrlRecord := []
  eventsSent : List SipEventRecord := []
  built : List Built := []
  asked : List CtrlRecord := []
  reports : List SipEventRecord := []
  begun : List UInt32 := []

namespace SipWorld

variable (cfg : SipConfig)

def dialog (w : SipWorld) : SipDialog where
  localIp := cfg.localIp
  peerIp := w.peerIp
  localPort := cfg.localSipPort
  peerPort := w.peerSipPort
  rtpPort := w.rtpPort
  cseq := w.cseq
  fromTag := cfg.fromTag
  toTag := w.toTag
  branch := w.branch
  callId := w.callId

def message (d : SipDialog) : SipSend → Option Bytes
  | .invite => some (buildInvite d)
  | .ok => some (buildInviteOk d)
  | .ack => some (buildAck d)
  | .bye => some (buildBye d)
  | .byeOk => some (buildByeOk d)
  | .retransmit => none

section

variable (w : SipWorld)

def stage (bytes : Bytes) : SipWorld :=
  if bytes.length ≤ SIP_TX_BUF_SIZE then { w with sipTxBuf := bytes } else w

def build (msg : SipSend) : SipWorld :=
  match message (w.dialog cfg) msg with
  | some bytes => { w.stage bytes with built := w.built ++ [⟨msg, w.dialog cfg⟩] }
  | none => w

def buildRefusal (code : UInt16) : SipWorld :=
  w.stage (buildInviteStatus (w.dialog cfg) code)

/-- A refused datagram stays pending; the buffer is kept for retransmission. -/
def sipFlush : SipWorld :=
  if !w.sipTxPending || w.sipTxBuf = [] || w.sipEpId = 0xFF then w
  else
    match w.netTaken with
    | true :: rest =>
      { w with sipTxPending := false, netTaken := rest, datagrams := w.datagrams ++ [w.sipTxBuf] }
    | false :: rest => { w with netTaken := rest }
    | [] => w

/-- The record of a command as it is written: the endpoint is the one at that moment. -/
def ctrlRecord (cmd : CtrlCmd) : CtrlRecord :=
  if cmd = .setEndpoint then ⟨cmd, w.peerRtpIp, w.peerRtpPort⟩ else ⟨cmd, 0, 0⟩

def flushQueue (w : SipWorld) : List CtrlCmd → SipWorld
  | [] => { w with ctrlQueue := [] }
  | cmd :: rest =>
    match w.ctrlTaken with
    | true :: answers =>
      flushQueue { w with
        ctrlTaken := answers, ctrlSent := w.ctrlSent ++ [w.ctrlRecord cmd] } rest
    | false :: answers => { w with ctrlTaken := answers, ctrlQueue := cmd :: rest }
    | [] => { w with ctrlQueue := cmd :: rest }

def flushRtpCtrl : SipWorld := w.flushQueue w.ctrlQueue

def queueRtpCtrl (cmd : CtrlCmd) : SipWorld :=
  if !cfg.rtpCtrlOut then w
  else
    flushRtpCtrl { w with
      ctrlQueue :=
        if w.ctrlQueue.length < CTRL_QUEUE then w.ctrlQueue ++ [cmd] else w.ctrlQueue
      asked := w.asked ++ [⟨cmd, w.peerRtpIp, w.peerRtpPort⟩] }

def mediaStart : SipWorld :=
  (w.queueRtpCtrl cfg .setEndpoint).queueRtpCtrl cfg .start

def mediaStop : SipWorld := w.queueRtpCtrl cfg .stop

def applyMedia : MediaCmd → SipWorld
  | .start => w.mediaStart cfg
  | .stop => w.mediaStop cfg
  | .none => w

def eventRecord (event : SipEventKind) (code : UInt16) : SipEventRecord where
  cid := w.cid
  event := event
  code := code
  mediaIp := w.peerRtpIp
  mediaPort := w.peerRtpPort
  payloadType := if w.peerRtpPort ≠ 0 then 0 else 0xFF

def emitEvent (event : SipEventKind) (code : UInt16) : SipWorld :=
  if !cfg.eventOut then w
  else
    { w with
      eventOwed := w.eventOwed.or (some (w.eventRecord event code))
      reports := w.reports ++ [w.eventRecord event code] }

def flushEvent (taken : Bool) : SipWorld :=
  match w.eventOwed with
  | some r =>
    if cfg.eventOut && taken then { w with eventOwed := none, eventsSent := w.eventsSent ++ [r] }
    else w
  | none => w

def applySend : Option SipSend → SipWorld
  | some msg => sipFlush { w.build cfg msg with sipTxPending := true }
  | none => w

def apply (now : UInt64) (step : SipStep) : SipWorld :=
  let w := (w.applySend cfg step.send).applyMedia cfg step.media
  if step.resetTimer then { w with lastRetransmitMs := now } else w

def feed (now : UInt64) (ev : SipEvent) : SipWorld :=
  apply cfg { w with fsm := (w.fsm.onEvent ev).1 } now (w.fsm.onEvent ev).2

def begins (cid : UInt32) : SipWorld := { w with cid := cid, begun := w.begun ++ [cid] }

def freshCall : SipWorld :=
  { w with
    callIdCounter := w.callIdCounter + 1
    callId := hex16 ((w.callIdCounter + 1) ^^^ cfg.fromTag)
    cseq := 1
    toTag := 0
    branch := w.branch + 1 }

def nextRequest : SipWorld := { w with cseq := w.cseq + 1, branch := w.branch + 1 }

def applies : SipOp → Bool
  | .dial => w.fsm.state = .ready && !w.offerPending
  | .accept | .reject => w.offerPending
  | .hangup => w.fsm.state = .active
  | .cancel => w.fsm.state = .inviting

def adoptPeer (cmd : SipCommand) : SipWorld :=
  { w with
    peerIp := if cmd.peerPort ≠ 0 then cmd.peerIp else w.peerIp
    peerSipPort := if cmd.peerPort ≠ 0 then cmd.peerPort else w.peerSipPort
    rtpPort := if cmd.mediaPort ≠ 0 then cmd.mediaPort else w.rtpPort }

def handleCommand (now : UInt64) (cmd : SipCommand) : SipWorld :=
  if w.applies cmd.op then
    match cmd.op with
    | .dial =>
      feed cfg (freshCall cfg ((w.adoptPeer cmd).begins cmd.cid)) now .localInvite
    | .accept =>
      feed cfg { w with
        rtpPort := if cmd.mediaPort ≠ 0 then cmd.mediaPort else w.rtpPort
        offerPending := false } now (.rxInvite true)
    | .reject =>
      let code := if cmd.code = 0 then 603 else cmd.code
      let w := sipFlush { buildRefusal cfg { w with offerPending := false } code with
        sipTxPending := true }
      { w.emitEvent cfg .declined code with cid := 0 }
    | .hangup => feed cfg ((w.nextRequest).emitEvent cfg .localClosed 0) now .localBye
    | .cancel =>
      { mediaStop cfg { w.emitEvent cfg .localClosed 0 with fsm := {} } with cid := 0 }
  else
    let w' := { w with cid := cmd.cid }.emitEvent cfg .failed 0
    { w' with cid := if w.cid ≠ 0 then w.cid else cmd.cid }

def adoptOffer (msg : Bytes) (ep : SdpEndpoint) : SipWorld :=
  { w with
    peerRtpIp := ep.ip.getD w.peerIp
    peerRtpPort := ep.port
    callId := ((findCallId msg).map (·.take CALL_ID_SIZE)).getD w.callId
    toTag := parseFromTag msg + 1
    branch := w.branch + 1 }

def adoptAnswer (msg : Bytes) : SipWorld :=
  match parseSdpEndpoint msg with
  | some ep =>
    { w with peerRtpIp := ep.ip.getD w.peerIp, peerRtpPort := ep.port, toTag := parseToTag msg }
  | none => { w with toTag := parseToTag msg }

def holdOffer : SipWorld :=
  if !w.offerPending && w.fsm.state = .ready then
    emitEvent cfg { w.begins (w.cidCounter + 1) with
      cidCounter := w.cidCounter + 1
      offerPending := true } .offered 0
  else w

def answerOffer : SipWorld :=
  if w.fsm.state = .ready && cfg.autoAnswer then w.begins w.cid else w

end

def responseEvent (code : UInt16) : SipEventKind :=
  if code < 200 then .provisional else if code < 300 then .established else .rejected

inductive Kind where
  | invite (ep : SdpEndpoint)
  | ack
  | bye
  | response (code : UInt16)
  | other
deriving DecidableEq

def kindOf (msg : Bytes) : Kind :=
  if (ascii "INVITE ").isPrefixOf msg then
    match parseSdpEndpoint msg with
    | some ep => .invite ep
    | none => .other
  else if (ascii "ACK ").isPrefixOf msg then .ack
  else if (ascii "BYE ").isPrefixOf msg then .bye
  else if parseStatusCode msg ≥ 100 then .response (parseStatusCode msg)
  else .other

def classifyAndExtract (w : SipWorld) (msg : Bytes) : SipWorld × Option SipEvent :=
  match kindOf msg with
  | .invite ep =>
    if cfg.commandIn then ((w.adoptOffer msg ep).holdOffer cfg, none)
    else ((w.adoptOffer msg ep).answerOffer cfg, some (.rxInvite cfg.autoAnswer))
  | .ack =>
    (if w.fsm.state = .waitAck then w.emitEvent cfg .established 200 else w, some .rxAck)
  | .bye => (w.emitEvent cfg .remoteHangup 0, some .rxBye)
  | .response code =>
    let w :=
      if w.fsm.state = .inviting then
        (if 200 ≤ code ∧ code < 300 then w.adoptAnswer msg else w).emitEvent cfg
          (responseEvent code) code
      else w
    (w, some (.rxResponse code))
  | .other => (w, none)

def receive (w : SipWorld) (now : UInt64) (msg : Bytes) : SipWorld :=
  match classifyAndExtract cfg w msg with
  | (w, some ev) => w.feed cfg now ev
  | (w, none) => w

/-- What `sip_net_in` holds. -/
inductive SipFrame where
  | bound (ep : UInt8) (port : UInt16)
  | rxFrom (ep : UInt8) (data : Bytes)
  | other

/-- The clock, the record waiting on each input, and the answers to the writes of this step (none left is a refusal).
-/
structure SipInput where
  now : UInt64 := 0
  frame : Option SipFrame := none
  command : Option Bytes := none
  trigger : Bool := false
  bindTaken : Bool := true
  netTaken : List Bool := []
  ctrlTaken : List Bool := []
  eventTaken : Bool := true

section

variable (w : SipWorld)

def commandOf (inp : SipInput) : Option SipCommand :=
  if cfg.commandIn && w.eventOwed = none then inp.command.bind parseSipCommand else none

def stepTrigger (now : UInt64) : Option SipWorld :=
  match w.fsm.state with
  | .ready => some (((w.begins w.cid).freshCall cfg).feed cfg now .localInvite)
  | .active => some (w.nextRequest.feed cfg now .localBye)
  | _ => none

def timerDue (now : UInt64) : Bool :=
  w.fsm.state.retransmits && now - w.lastRetransmitMs ≥ T1_MS

def stepTimer (now : UInt64) : SipWorld :=
  if w.timerDue now then
    let r := w.fsm.onEvent .timeout
    let w' := { w with fsm := r.1 }
    apply cfg (if r.2.send = none ∧ r.1.state ≠ w.fsm.state then w'.emitEvent cfg .timeout 0 else w')
      now r.2
  else w

def datagramOf (inp : SipInput) : Option Bytes :=
  match inp.frame with
  | some (.rxFrom ep data) => if ep = w.sipEpId && data ≠ [] then some (data.take SIP_RX_BUF_SIZE) else none
  | _ => none

def stepInbound (inp : SipInput) : SipWorld :=
  match w.datagramOf inp with
  | some msg => w.receive cfg inp.now msg
  | none => w

def stepBind (inp : SipInput) : SipWorld :=
  if !w.sipBound then { w with sipBound := inp.bindTaken }
  else
    match inp.frame with
    | some (.bound ep port) => if port = cfg.localSipPort then { w with sipEpId := ep } else w
    | _ => w

def stepSip (inp : SipInput) : SipWorld :=
  if !w.sipBound || w.sipEpId = 0xFF then w.stepBind cfg inp
  else
    match w.commandOf cfg inp with
    | some cmd => w.handleCommand cfg inp.now cmd
    | none =>
      match if cfg.callCtrlIn && inp.trigger then w.stepTrigger cfg inp.now else none with
      | some w => w
      | none => (w.stepTimer cfg inp.now).stepInbound cfg inp

def facing (inp : SipInput) : SipWorld :=
  { w with netTaken := inp.netTaken, ctrlTaken := inp.ctrlTaken }

def moduleStep (inp : SipInput) : SipWorld :=
  (((w.facing inp).stepSip cfg inp).sipFlush.flushRtpCtrl).flushEvent cfg inp.eventTaken

end

end SipWorld

/-- What construction leaves in the state: the peer, the media port and the first
branch. -/
structure SipStart where
  peerIp : UInt32
  peerSipPort : UInt16 := 5060
  rtpPort : UInt16 := 5004
  branch : UInt16 := 0

def SipStart.world (start : SipStart) : SipWorld where
  peerIp := start.peerIp
  peerSipPort := start.peerSipPort
  rtpPort := start.rtpPort
  branch := start.branch

def sipMachine (cfg : SipConfig) : Machine SipWorld SipWorld.SipInput Unit where
  step w inp := (w.moduleStep cfg inp, [])

end Wave.Sip
