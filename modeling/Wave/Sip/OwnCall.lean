import Wave.Sip.CallEvents
import Mathlib.Data.List.Forall2

/-! # A call and the datagrams of others

The module looks at the Call-ID of a datagram only to store it. `Watched` goes beside a run and keeps what
belongs to the call in progress, as its own messages give it. -/

namespace Wave.Sip

open Lib Common SipWorld

variable {f : SipDialogFsm} {inp : SipInput}

variable {cfg : SipConfig} {v : Watched} {w : SipWorld} {now : UInt64}
  {c : Call} {u : SipWorld} {msg : Bytes} {ev : SipEvent} {ep : SdpEndpoint} {code : UInt16}
  {answers : Bool}

/-! ## What belongs to a call -/

/-- A call as its own messages make it; its media endpoint is open until one of them negotiates it. -/
structure Call where
  placed : Bool := false
  wire : Option Bytes := none
  remote : Option Bytes := none
  media : Option (UInt32 × UInt16) := none
deriving DecidableEq

def inCall (w : SipWorld) : Bool := w.offerPending || w.fsm.state ≠ .ready

def endpointOf (w : SipWorld) (ep : SdpEndpoint) : UInt32 × UInt16 := (ep.ip.getD w.peerIp, ep.port)

def placedCall (cfg : SipConfig) (w : SipWorld) : Call where
  placed := true
  wire := some (callIdAtHost ((w.freshCall cfg).dialog cfg))

/-- What a datagram says about the call: an offer opens one when there is none; of the
others, those with its Call-ID count. -/
def Call.hear (c : Call) (w : SipWorld) (msg : Bytes) : Call :=
  match kindOf msg with
  | .invite ep =>
    if inCall w = false then
      { wire := findCallId msg, remote := fromTagText msg, media := some (endpointOf w ep) }
    else if findCallId msg = c.wire then
      { c with remote := fromTagText msg, media := some (endpointOf w ep) }
    else c
  | .response code =>
    if w.fsm.state = .inviting ∧ 200 ≤ code ∧ findCallId msg = c.wire then
      { c with
        remote := toTagText msg
        media := if code < 300 then ((parseSdpEndpoint msg).map (endpointOf w)).or c.media else c.media }
    else c
  | _ => c

/-- A run with its calls: the one in progress, the one each message was built for, and
those whose media was started. -/
structure Watched where
  world : SipWorld
  call : Call := {}
  owners : List Call := []
  started : List Call := []

def Watched.moved (cfg : SipConfig) (v : Watched) (c : Call) (w : SipWorld) : Watched where
  world := w
  call := c
  owners := if v.world.built.length < w.built.length then v.owners ++ [c] else v.owners
  started :=
    if cfg.rtpCtrlOut && !v.world.fsm.state.running && w.fsm.state.running then v.started ++ [c]
    else v.started

def Watched.commanded (cfg : SipConfig) (v : Watched) (now : UInt64) (cmd : SipCommand) : Watched :=
  v.moved cfg
    (if v.world.applies cmd.op && cmd.op = .dial then placedCall cfg (v.world.adoptPeer cmd) else v.call)
    (v.world.handleCommand cfg now cmd)

def Watched.triggered (cfg : SipConfig) (v : Watched) (w : SipWorld) : Watched :=
  v.moved cfg (if v.world.fsm.state = .ready then placedCall cfg v.world else v.call) w

def Watched.heard (cfg : SipConfig) (v : Watched) (inp : SipInput) : Watched :=
  match v.world.datagramOf inp with
  | some msg => v.moved cfg (v.call.hear v.world msg) (v.world.receive cfg inp.now msg)
  | none => v

def Watched.stepSip (cfg : SipConfig) (v : Watched) (inp : SipInput) : Watched :=
  if !v.world.sipBound || v.world.sipEpId = 0xFF then { v with world := v.world.stepBind cfg inp }
  else
    match v.world.commandOf cfg inp with
    | some cmd => v.commanded cfg inp.now cmd
    | none =>
      match if cfg.callCtrlIn && inp.trigger then v.world.stepTrigger cfg inp.now else none with
      | some w => v.triggered cfg w
      | none => Watched.heard cfg { v with world := v.world.stepTimer cfg inp.now } inp

def Watched.step (cfg : SipConfig) (v : Watched) (inp : SipInput) : Watched :=
  let v := Watched.stepSip cfg { v with world := v.world.facing inp } inp
  { v with world := (v.world.sipFlush.flushRtpCtrl).flushEvent cfg inp.eventTaken }

def watchMachine (cfg : SipConfig) : Machine Watched SipInput Unit where
  step v inp := (v.step cfg inp, [])

theorem Watched.heard_world (cfg : SipConfig) (v : Watched) (inp : SipInput) :
    (v.heard cfg inp).world = v.world.stepInbound cfg inp := by
  unfold Watched.heard stepInbound
  cases v.world.datagramOf inp <;> rfl

theorem Watched.stepSip_world (cfg : SipConfig) (v : Watched) (inp : SipInput) :
    (v.stepSip cfg inp).world = v.world.stepSip cfg inp := by
  unfold Watched.stepSip SipWorld.stepSip
  by_cases hbind : (!v.world.sipBound || decide (v.world.sipEpId = 0xFF)) = true
  · rw [if_pos hbind, if_pos hbind]
  rw [if_neg hbind, if_neg hbind]
  cases v.world.commandOf cfg inp with
  | some cmd => rfl
  | none =>
    simp only
    generalize (if cfg.callCtrlIn && inp.trigger then v.world.stepTrigger cfg inp.now else none) = t
    cases t with
    | some w => rfl
    | none => exact Watched.heard_world cfg _ inp

theorem watchMachine_world (cfg : SipConfig) (v : Watched) (inputs : List SipInput) :
    ((watchMachine cfg).run v inputs).1.world = ((sipMachine cfg).run v.world inputs).1 := by
  induction inputs generalizing v with
  | nil => rfl
  | cons inp inputs ih =>
    rw [Machine.run_cons, Machine.run_cons]
    have hstep : ((watchMachine cfg).step v inp).1.world = ((sipMachine cfg).step v.world inp).1 := by
      show ((_ : SipWorld).sipFlush.flushRtpCtrl).flushEvent cfg inp.eventTaken = _
      rw [Watched.stepSip_world]
      rfl
    rw [ih, hstep]

/-! ## The condition -/

def Inert (cfg : SipConfig) (w : SipWorld) (msg : Bytes) : Prop :=
  match kindOf msg with
  | .invite _ => False
  | .ack => w.fsm.state ≠ .waitAck
  | .bye => cfg.eventOut = false ∧ w.fsm.state ≠ .active
  | .response code => w.fsm.state ≠ .inviting ∧ (w.fsm.state = .byeSent → code < 200)
  | .other => True

/-- A `SET_ENDPOINT` that still waits keeps its endpoint. -/
def EndpointKept (w : SipWorld) (ep : SdpEndpoint) : Prop :=
  .setEndpoint ∈ w.ctrlQueue → endpointOf w ep = (w.peerRtpIp, w.peerRtpPort)

/-- A tag that the module writes as it was read: it keeps the number of the first four digits. -/
def FourDigits (tag : Option Bytes) : Prop := ∀ text ∈ tag, parseHex16 text ≠ 0 ∧ text = hex16 (parseHex16 text)

def Storable (id : Option Bytes) : Prop := ∃ text ∈ id, text.length ≤ CALL_ID_SIZE

/-- What a datagram of the call in progress needs; `answers` says whether calls may be answered. -/
def OwnOk (cfg : SipConfig) (answers : Bool) (w : SipWorld) (c : Call) (msg : Bytes) : Prop :=
  RoomOn cfg w w.ctrlTaken (eventOf cfg msg) ∧
  match kindOf msg with
  | .invite ep => EndpointKept w ep ∧
      if inCall w then c.placed = false
      else ((cfg.commandIn || cfg.autoAnswer) = true → Storable (findCallId msg)) ∧
        (cfg.commandIn = false → cfg.autoAnswer = true → answers = true)
  | .bye => w.fsm.state = .active → c.placed = false ∧ answers = true
  | .response code => w.fsm.state = .inviting → 200 ≤ code →
      if code < 300 then FourDigits (toTagText msg) ∧ ∃ ep ∈ parseSdpEndpoint msg, EndpointKept w ep
      else toTagText msg = none
  | _ => True

def foreign (w : SipWorld) (c : Call) (msg : Bytes) : Bool := inCall w && findCallId msg ≠ c.wire

def HeardOk (cfg : SipConfig) (answers : Bool) (w : SipWorld) (c : Call) (msg : Bytes) : Prop :=
  if foreign w c msg then Inert cfg w msg else OwnOk cfg answers w c msg

def CommandOk (cfg : SipConfig) (answers : Bool) (w : SipWorld) (c : Call) (op : SipOp) : Prop :=
  RoomOn cfg w w.ctrlTaken (opEvent op) ∧ (op = .accept → answers = true) ∧
    (op = .hangup → c.placed = true) ∧ (op = .cancel → Room cfg w w.ctrlTaken .stop)

def TriggerOk (cfg : SipConfig) (w : SipWorld) (c : Call) : Prop :=
  RoomOn cfg w w.ctrlTaken (triggerEvent w.fsm.state) ∧ w.offerPending = false ∧
    (w.fsm.state = .active → c.placed = true)

def OwnSipOk (cfg : SipConfig) (answers : Bool) (w : SipWorld) (c : Call) (inp : SipInput) : Prop :=
  match w.commandOf cfg inp with
  | some cmd => w.applies cmd.op = true → CommandOk cfg answers w c cmd.op
  | none =>
    (triggerTakes cfg w inp = true → TriggerOk cfg w c) ∧
    (triggerTakes cfg w inp = false → ∀ msg ∈ (w.stepTimer cfg inp.now).datagramOf inp,
      HeardOk cfg answers (w.stepTimer cfg inp.now) c msg)

def OwnStepOk (cfg : SipConfig) (answers : Bool) (v : Watched) (inp : SipInput) : Prop :=
  OwnSipOk cfg answers (v.world.facing inp) v.call inp

instance (cfg : SipConfig) (w : SipWorld) (msg : Bytes) : Decidable (Inert cfg w msg) :=
  match h : kindOf msg with
  | .invite _ => isFalse (by rw [Inert, h]; exact id)
  | .ack => decidable_of_iff (w.fsm.state ≠ .waitAck) (by rw [Inert, h])
  | .bye => decidable_of_iff (cfg.eventOut = false ∧ w.fsm.state ≠ .active) (by rw [Inert, h])
  | .response code =>
    decidable_of_iff (w.fsm.state ≠ .inviting ∧ (w.fsm.state = .byeSent → code < 200)) (by rw [Inert, h])
  | .other => isTrue (by rw [Inert, h]; trivial)

instance (w : SipWorld) (ep : SdpEndpoint) : Decidable (EndpointKept w ep) :=
  inferInstanceAs (Decidable (_ → _))

instance (id : Option Bytes) : Decidable (Storable id) :=
  inferInstanceAs (Decidable (∃ text ∈ id, text.length ≤ CALL_ID_SIZE))

instance (tag : Option Bytes) : Decidable (FourDigits tag) :=
  inferInstanceAs (Decidable (∀ text ∈ tag, _))

instance (cfg : SipConfig) (w : SipWorld) (c : Call) (msg : Bytes) : Decidable (OwnOk cfg answers w c msg) :=
  match h : kindOf msg with
  | .invite ep => decidable_of_iff (RoomOn cfg w w.ctrlTaken (eventOf cfg msg) ∧ EndpointKept w ep ∧
      if inCall w then c.placed = false
      else ((cfg.commandIn || cfg.autoAnswer) = true → Storable (findCallId msg)) ∧
        (cfg.commandIn = false → cfg.autoAnswer = true → answers = true)) (by rw [OwnOk, h])
  | .bye => decidable_of_iff (RoomOn cfg w w.ctrlTaken (eventOf cfg msg) ∧
      (w.fsm.state = .active → c.placed = false ∧ answers = true)) (by rw [OwnOk, h])
  | .response code => decidable_of_iff (RoomOn cfg w w.ctrlTaken (eventOf cfg msg) ∧
      (w.fsm.state = .inviting → 200 ≤ code →
        if code < 300 then FourDigits (toTagText msg) ∧ ∃ ep ∈ parseSdpEndpoint msg, EndpointKept w ep
        else toTagText msg = none)) (by rw [OwnOk, h])
  | .ack | .other => decidable_of_iff (RoomOn cfg w w.ctrlTaken (eventOf cfg msg) ∧ True) (by rw [OwnOk, h])

instance (cfg : SipConfig) (w : SipWorld) (c : Call) (msg : Bytes) : Decidable (HeardOk cfg answers w c msg) :=
  inferInstanceAs (Decidable (if foreign w c msg then Inert cfg w msg else OwnOk cfg answers w c msg))

instance (cfg : SipConfig) (w : SipWorld) (c : Call) (op : SipOp) : Decidable (CommandOk cfg answers w c op) :=
  inferInstanceAs (Decidable (_ ∧ _))

instance (cfg : SipConfig) (w : SipWorld) (c : Call) : Decidable (TriggerOk cfg w c) :=
  inferInstanceAs (Decidable (_ ∧ _))

instance (cfg : SipConfig) (w : SipWorld) (c : Call) (inp : SipInput) :
    Decidable (OwnSipOk cfg answers w c inp) :=
  match h : w.commandOf cfg inp with
  | some cmd =>
    decidable_of_iff (w.applies cmd.op = true → CommandOk cfg answers w c cmd.op) (by rw [OwnSipOk, h])
  | none => decidable_of_iff ((triggerTakes cfg w inp = true → TriggerOk cfg w c) ∧
      (triggerTakes cfg w inp = false → ∀ msg ∈ (w.stepTimer cfg inp.now).datagramOf inp,
        HeardOk cfg answers (w.stepTimer cfg inp.now) c msg)) (by rw [OwnSipOk, h])

instance (cfg : SipConfig) (v : Watched) (inp : SipInput) : Decidable (OwnStepOk cfg answers v inp) :=
  inferInstanceAs (Decidable (OwnSipOk cfg answers (v.world.facing inp) v.call inp))

/-- A message carries the Call-ID of its call and both tags: ours is on the From line of
a request and on the To line of a response. -/
def Carries (cfg : SipConfig) (b : Built) (c : Call) : Prop :=
  ∃ bytes, message b.dialog b.msg = some bytes ∧ findCallId bytes = c.wire ∧
    match b.msg with
    | .ok | .byeOk => fromTagText bytes = c.remote ∧ toTagText bytes = some (hex16 cfg.fromTag)
    | _ => fromTagText bytes = some (hex16 cfg.fromTag) ∧ toTagText bytes = c.remote

def Call.remoteNumber (c : Call) : UInt16 := (c.remote.map parseHex16).getD 0

/-- What the module writes: a `200 OK` to an `INVITE` has the number of the caller's tag
plus one on its From line, one to a `BYE` has no tag there. -/
def Writes (cfg : SipConfig) (answers : Bool) (b : Built) (c : Call) : Prop :=
  ∃ bytes, message b.dialog b.msg = some bytes ∧ findCallId bytes = c.wire ∧
    match b.msg with
    | .ok => answers = true ∧ fromTagText bytes = some (hex16 (c.remoteNumber + 1)) ∧
        toTagText bytes = some (hex16 cfg.fromTag)
    | .byeOk => answers = true ∧ fromTagText bytes = none ∧ toTagText bytes = some (hex16 cfg.fromTag)
    | _ => fromTagText bytes = some (hex16 cfg.fromTag) ∧ toTagText bytes = c.remote

def mediaRecords (w : SipWorld) : List CtrlRecord := w.ctrlSent ++ w.ctrlQueue.map w.ctrlRecord

def startRecords (endpoint : UInt32 × UInt16) : List CtrlRecord :=
  [⟨.setEndpoint, endpoint.1, endpoint.2⟩, ⟨.start, 0, 0⟩]

/-- The `SET_ENDPOINT` records name the endpoints of the calls that were started behind
them, one each. -/
def Named (w : SipWorld) (started : List Call) : Prop :=
  ∃ endpoints : List (UInt32 × UInt16), started.map (·.media) = endpoints.map some ∧
    (mediaRecords w).filter (·.cmd ≠ .stop) = endpoints.flatMap startRecords

structure OwnFacts (cfg : SipConfig) (w : SipWorld) (c : Call) : Prop where
  wire : c.wire = some (if c.placed then callIdAtHost (w.dialog cfg) else w.callId)
  oneLine : OneLine w.callId
  short : w.callId.length ≤ CALL_ID_SIZE
  tag : if c.placed then c.remote = (if w.toTag = 0 then none else some (hex16 w.toTag))
    else w.toTag = c.remoteNumber + 1
  media : ∀ e ∈ c.media, e = (w.peerRtpIp, w.peerRtpPort)

structure KeepsOwn (cfg : SipConfig) (answers : Bool) (v : Watched) : Prop where
  facts : inCall v.world = true → OwnFacts cfg v.world v.call
  written : List.Forall₂ (Writes cfg answers) v.world.built v.owners
  named : Named v.world v.started

/-! ## What an event does to the facts -/

structure SameFacts (w w' : SipWorld) : Prop where
  callId : w'.callId = w.callId
  toTag : w'.toTag = w.toTag
  peerRtpIp : w'.peerRtpIp = w.peerRtpIp
  peerRtpPort : w'.peerRtpPort = w.peerRtpPort
  offerPending : w'.offerPending = w.offerPending

theorem SameFacts.refl (w : SipWorld) : SameFacts w w := ⟨rfl, rfl, rfl, rfl, rfl⟩

theorem SameFacts.trans {a b c : SipWorld} (h : SameFacts a b) (h' : SameFacts b c) : SameFacts a c :=
  ⟨h'.callId.trans h.callId, h'.toTag.trans h.toTag, h'.peerRtpIp.trans h.peerRtpIp,
    h'.peerRtpPort.trans h.peerRtpPort, h'.offerPending.trans h.offerPending⟩

theorem sameFacts_stage (w : SipWorld) (bytes : Bytes) :
    SameFacts w (w.stage bytes) ∧ (w.stage bytes).built = w.built := by
  unfold stage
  split_ifs <;> exact ⟨⟨rfl, rfl, rfl, rfl, rfl⟩, rfl⟩

def builtFor (cfg : SipConfig) (w : SipWorld) : Option SipSend → List Built
  | none => []
  | some msg =>
    match message (w.dialog cfg) msg with
    | some _ => [⟨msg, w.dialog cfg⟩]
    | none => []

theorem sameFacts_build (cfg : SipConfig) (w : SipWorld) (msg : SipSend) :
    SameFacts w (w.build cfg msg) ∧ (w.build cfg msg).built = w.built ++ builtFor cfg w (some msg) := by
  simp only [build, builtFor]
  cases message (w.dialog cfg) msg with
  | none => exact ⟨SameFacts.refl w, (append_nil _).symm⟩
  | some bytes =>
    obtain ⟨hs, -⟩ := sameFacts_stage w bytes
    exact ⟨⟨hs.callId, hs.toTag, hs.peerRtpIp, hs.peerRtpPort, hs.offerPending⟩, rfl⟩

theorem sameFacts_sipFlush (w : SipWorld) : SameFacts w w.sipFlush ∧ w.sipFlush.built = w.built := by
  unfold sipFlush
  split_ifs
  · exact ⟨SameFacts.refl w, rfl⟩
  · split <;> exact ⟨⟨rfl, rfl, rfl, rfl, rfl⟩, rfl⟩

theorem sameFacts_emitEvent (cfg : SipConfig) (w : SipWorld) (event : SipEventKind) (code : UInt16) :
    SameFacts w (w.emitEvent cfg event code) ∧ (w.emitEvent cfg event code).built = w.built := by
  unfold emitEvent
  split_ifs <;> exact ⟨⟨rfl, rfl, rfl, rfl, rfl⟩, rfl⟩

theorem sameFacts_applySend (cfg : SipConfig) (w : SipWorld) (send : Option SipSend) :
    SameFacts w (w.applySend cfg send) ∧
      (w.applySend cfg send).built = w.built ++ builtFor cfg w send := by
  cases send with
  | none => exact ⟨SameFacts.refl w, (append_nil _).symm⟩
  | some msg =>
    obtain ⟨hb, hbuilt⟩ := sameFacts_build cfg w msg
    have hp : SameFacts w { w.build cfg msg with sipTxPending := true } :=
      ⟨hb.callId, hb.toTag, hb.peerRtpIp, hb.peerRtpPort, hb.offerPending⟩
    obtain ⟨hf, hbuilt'⟩ := sameFacts_sipFlush { w.build cfg msg with sipTxPending := true }
    exact ⟨hp.trans hf, hbuilt'.trans hbuilt⟩

theorem sameFacts_flushQueue (w : SipWorld) (queue : List CtrlCmd) :
    SameFacts w (w.flushQueue queue) ∧ (w.flushQueue queue).built = w.built := by
  induction queue generalizing w with
  | nil => exact ⟨⟨rfl, rfl, rfl, rfl, rfl⟩, rfl⟩
  | cons cmd rest ih =>
    rw [flushQueue]
    split
    · rename_i answers _
      obtain ⟨hs, hbuilt⟩ := ih { w with
        ctrlTaken := answers, ctrlSent := w.ctrlSent ++ [w.ctrlRecord cmd] }
      exact ⟨⟨hs.callId, hs.toTag, hs.peerRtpIp, hs.peerRtpPort, hs.offerPending⟩, hbuilt⟩
    · exact ⟨⟨rfl, rfl, rfl, rfl, rfl⟩, rfl⟩
    · exact ⟨⟨rfl, rfl, rfl, rfl, rfl⟩, rfl⟩

theorem ctrlRecord_of_endpoint {w w' : SipWorld} (hip : w'.peerRtpIp = w.peerRtpIp)
    (hport : w'.peerRtpPort = w.peerRtpPort) : w'.ctrlRecord = w.ctrlRecord := by
  funext cmd
  rw [ctrlRecord, ctrlRecord, hip, hport]

theorem mediaRecords_flushQueue (w : SipWorld) (queue : List CtrlCmd) :
    mediaRecords (w.flushQueue queue) = w.ctrlSent ++ queue.map w.ctrlRecord := by
  induction queue generalizing w with
  | nil => rfl
  | cons cmd rest ih =>
    rw [flushQueue]
    split
    · rw [ih, map_cons]
      exact append_assoc _ [_] _
    · rfl
    · rfl

theorem mediaRecords_queueRtpCtrl (cmd : CtrlCmd) (hroom : cfg.rtpCtrlOut = true → w.ctrlQueue.length < CTRL_QUEUE) :
    mediaRecords (w.queueRtpCtrl cfg cmd) =
      mediaRecords w ++ if cfg.rtpCtrlOut then [w.ctrlRecord cmd] else [] := by
  cases hwired : cfg.rtpCtrlOut with
  | false =>
    rw [queueRtpCtrl_unwired hwired]
    exact (append_nil _).symm
  | true =>
    rw [queueRtpCtrl, hwired, if_neg (by decide), if_pos (hroom hwired)]
    simp only [flushRtpCtrl]
    rw [mediaRecords_flushQueue, map_append, ← append_assoc]
    rfl

theorem sameFacts_queueRtpCtrl (cfg : SipConfig) (w : SipWorld) (cmd : CtrlCmd) :
    SameFacts w (w.queueRtpCtrl cfg cmd) ∧ (w.queueRtpCtrl cfg cmd).built = w.built := by
  unfold queueRtpCtrl
  by_cases hwired : (!cfg.rtpCtrlOut) = true
  · rw [if_pos hwired]
    exact ⟨SameFacts.refl w, rfl⟩
  · rw [if_neg hwired]
    obtain ⟨hs, hbuilt⟩ := sameFacts_flushQueue { w with
      ctrlQueue := if w.ctrlQueue.length < CTRL_QUEUE then w.ctrlQueue ++ [cmd] else w.ctrlQueue
      asked := w.asked ++ [⟨cmd, w.peerRtpIp, w.peerRtpPort⟩] }
      (if w.ctrlQueue.length < CTRL_QUEUE then w.ctrlQueue ++ [cmd] else w.ctrlQueue)
    exact ⟨⟨hs.callId, hs.toTag, hs.peerRtpIp, hs.peerRtpPort, hs.offerPending⟩, hbuilt⟩

def recordsFor (cfg : SipConfig) (w : SipWorld) (media : MediaCmd) : List CtrlRecord :=
  if cfg.rtpCtrlOut then
    match media with
    | .none => []
    | .stop => [⟨.stop, 0, 0⟩]
    | .start => startRecords (w.peerRtpIp, w.peerRtpPort)
  else []

theorem applyMedia_spec (media : MediaCmd) (hroom : Room cfg w w.ctrlTaken media) :
    SameFacts w (w.applyMedia cfg media) ∧ (w.applyMedia cfg media).built = w.built ∧
      mediaRecords (w.applyMedia cfg media) = mediaRecords w ++ recordsFor cfg w media := by
  cases media with
  | none => exact ⟨SameFacts.refl w, rfl, by simp [recordsFor, applyMedia]⟩
  | stop =>
    obtain ⟨hs, hbuilt⟩ := sameFacts_queueRtpCtrl cfg w .stop
    refine ⟨hs, hbuilt, ?_⟩
    exact mediaRecords_queueRtpCtrl .stop hroom
  | start =>
    obtain ⟨hs, hbuilt⟩ := sameFacts_queueRtpCtrl cfg w .setEndpoint
    obtain ⟨hs', hbuilt'⟩ := sameFacts_queueRtpCtrl cfg (w.queueRtpCtrl cfg .setEndpoint) .start
    refine ⟨hs.trans hs', hbuilt'.trans hbuilt, ?_⟩
    show mediaRecords ((w.queueRtpCtrl cfg .setEndpoint).queueRtpCtrl cfg .start) = _
    rw [mediaRecords_queueRtpCtrl .start fun hwired => (room_after_first hwired hroom).2,
      mediaRecords_queueRtpCtrl .setEndpoint fun hwired => (room_after_first hwired hroom).1,
      recordsFor, append_assoc]
    cases cfg.rtpCtrlOut <;> rfl

theorem mediaRecords_of_same {w w' : SipWorld} (hm : SameMedia w w') (hs : SameFacts w w') :
    mediaRecords w' = mediaRecords w := by
  rw [mediaRecords, mediaRecords, hm.ctrlSent, hm.ctrlQueue,
    ctrlRecord_of_endpoint hs.peerRtpIp hs.peerRtpPort]

theorem Room.of_same {w w' : SipWorld} {media : MediaCmd}
    (h : Room cfg w w.ctrlTaken media) (hqueue : w'.ctrlQueue = w.ctrlQueue)
    (htaken : w'.ctrlTaken = w.ctrlTaken) : Room cfg w' w'.ctrlTaken media := by
  cases media
  · trivial
  · rw [Room, hqueue, htaken]
    exact h
  · rw [Room, hqueue]
    exact h

theorem feed_spec (now : UInt64) (hroom : Room cfg w w.ctrlTaken (w.fsm.onEvent ev).2.media) :
    SameFacts w (w.feed cfg now ev) ∧ (w.feed cfg now ev).fsm = (w.fsm.onEvent ev).1 ∧
      (w.feed cfg now ev).built = w.built ++ builtFor cfg w (w.fsm.onEvent ev).2.send ∧
      mediaRecords (w.feed cfg now ev) = mediaRecords w ++ recordsFor cfg w (w.fsm.onEvent ev).2.media := by
  obtain ⟨u, hu⟩ : ∃ u : SipWorld, u = { w with fsm := (w.fsm.onEvent ev).1 } := ⟨_, rfl⟩
  obtain ⟨hs, hbuilt⟩ := sameFacts_applySend cfg u (w.fsm.onEvent ev).2.send
  have hm := sameMedia_applySend cfg u (w.fsm.onEvent ev).2.send
  have hroom' : Room cfg (u.applySend cfg (w.fsm.onEvent ev).2.send)
      (u.applySend cfg (w.fsm.onEvent ev).2.send).ctrlTaken (w.fsm.onEvent ev).2.media := by
    refine hroom.of_same (hm.ctrlQueue.trans ?_) (hm.ctrlTaken.trans ?_) <;> rw [hu]
  obtain ⟨hs', hbuilt', hrecords⟩ := applyMedia_spec _ hroom'
  have hfacts : SameFacts w u := by
    subst hu
    exact ⟨rfl, rfl, rfl, rfl, rfl⟩
  have hbuiltFor : u.built ++ builtFor cfg u (w.fsm.onEvent ev).2.send =
      w.built ++ builtFor cfg w (w.fsm.onEvent ev).2.send := by
    subst hu
    rfl
  have hrecordsFor : recordsFor cfg (u.applySend cfg (w.fsm.onEvent ev).2.send)
      (w.fsm.onEvent ev).2.media = recordsFor cfg w (w.fsm.onEvent ev).2.media := by
    unfold recordsFor
    rw [hs.peerRtpIp, hs.peerRtpPort, hfacts.peerRtpIp, hfacts.peerRtpPort]
  have hmu : mediaRecords u = mediaRecords w := by
    subst hu
    rfl
  have hall := (hfacts.trans hs).trans hs'
  rw [hbuilt, hbuiltFor] at hbuilt'
  rw [mediaRecords_of_same hm hs, hrecordsFor, hmu] at hrecords
  refine ⟨?_, (sameReports_feed cfg w now ev).2, ?_⟩
  · rw [feed, ← hu]
    unfold SipWorld.apply
    simp only
    split_ifs
    · exact ⟨hall.callId, hall.toTag, hall.peerRtpIp, hall.peerRtpPort, hall.offerPending⟩
    · exact hall
  · rw [feed, ← hu]
    unfold SipWorld.apply
    simp only
    split_ifs <;> exact ⟨hbuilt', hrecords⟩

/-! ## The invariant -/

/-- Requests write the Call-ID of a placed call, responses that of one that was offered. -/
def SendOk (answers : Bool) (c : Call) : Option SipSend → Prop
  | some .invite => c.placed = true ∧ c.remote = none
  | some .ack | some .bye => c.placed = true
  | some .ok | some .byeOk => c.placed = false ∧ answers = true
  | _ => True

theorem OwnFacts.placed (h : OwnFacts cfg w c) (hplaced : c.placed = true) :
    c.wire = some (callIdAtHost (w.dialog cfg)) ∧
      c.remote = if w.toTag = 0 then none else some (hex16 w.toTag) := by
  obtain ⟨hwire, -, -, htag, -⟩ := h
  rw [hplaced, if_pos rfl] at hwire htag
  exact ⟨hwire, htag⟩

theorem OwnFacts.offered (h : OwnFacts cfg w c) (hplaced : c.placed = false) :
    c.wire = some w.callId ∧ w.toTag = c.remoteNumber + 1 := by
  obtain ⟨hwire, -, -, htag, -⟩ := h
  rw [hplaced, if_neg false_ne_true] at hwire htag
  exact ⟨hwire, htag⟩

theorem writes_builtFor {send : Option SipSend} (h : OwnFacts cfg w c) (hsend : SendOk answers c send) :
    ∀ b ∈ builtFor cfg w send, Writes cfg answers b c := by
  intro b hb
  cases send with
  | none => cases hb
  | some msg =>
    cases msg with
    | retransmit => cases hb
    | invite =>
      obtain rfl := mem_singleton.mp hb
      obtain ⟨hplaced, hremote⟩ := hsend
      obtain ⟨hid, hfrom, hto⟩ := reads_buildInvite (d := w.dialog cfg) h.oneLine
      exact ⟨_, rfl, hid.trans (h.placed hplaced).1.symm, hfrom, hto.trans hremote.symm⟩
    | ok =>
      obtain rfl := mem_singleton.mp hb
      obtain ⟨hwire, htag⟩ := h.offered hsend.1
      obtain ⟨hid, hfrom, hto⟩ := reads_buildInviteOk (d := w.dialog cfg) h.oneLine
      exact ⟨_, rfl, hid.trans hwire.symm, hsend.2, hfrom.trans (by rw [← htag]; rfl), hto⟩
    | byeOk =>
      obtain rfl := mem_singleton.mp hb
      obtain ⟨hid, hfrom, hto⟩ := reads_buildByeOk (d := w.dialog cfg) h.oneLine
      exact ⟨_, rfl, hid.trans (h.offered hsend.1).1.symm, hsend.2, hfrom, hto⟩
    | ack =>
      obtain rfl := mem_singleton.mp hb
      obtain ⟨hwire, htag⟩ := h.placed hsend
      obtain ⟨hid, hfrom, hto⟩ := reads_buildAck (d := w.dialog cfg) h.oneLine
      exact ⟨_, rfl, hid.trans hwire.symm, hfrom, hto.trans htag.symm⟩
    | bye =>
      obtain rfl := mem_singleton.mp hb
      obtain ⟨hwire, htag⟩ := h.placed hsend
      obtain ⟨hid, hfrom, hto⟩ := reads_buildBye (d := w.dialog cfg) h.oneLine
      exact ⟨_, rfl, hid.trans hwire.symm, hfrom, hto.trans htag.symm⟩

/-- A `200 OK` to an `INVITE` never carries the caller's tag, one to a `BYE` when there is none. -/
theorem carries_iff {b : Built} (h : Writes cfg answers b c) :
    Carries cfg b c ↔ b.msg ≠ .ok ∧ (b.msg = .byeOk → c.remote = none) := by
  obtain ⟨msg, d⟩ := b
  obtain ⟨bytes, hbytes, hid, htags⟩ := h
  cases msg
  case ok =>
    obtain ⟨-, hfrom, -⟩ := htags
    refine ⟨?_, fun hne => absurd rfl hne.1⟩
    rintro ⟨bytes', hbytes', -, hfrom', -⟩
    obtain rfl := Option.some.inj (hbytes.symm.trans hbytes')
    have hremote := hfrom'.symm.trans hfrom
    have hnumber : c.remoteNumber = c.remoteNumber + 1 := by
      conv_lhs => rw [Call.remoteNumber, hremote, map_some, getD_some, parseHex16_hex16]
    exact absurd hnumber (by simp)
  case byeOk =>
    obtain ⟨-, hfrom, hto⟩ := htags
    refine ⟨?_, fun hne => ?_⟩
    · rintro ⟨bytes', hbytes', -, hfrom', -⟩
      refine ⟨SipSend.noConfusion, fun _ => ?_⟩
      obtain rfl := Option.some.inj (hbytes.symm.trans hbytes')
      exact hfrom'.symm.trans hfrom
    · exact ⟨bytes, hbytes, hid, hfrom.trans (hne.2 rfl).symm, hto⟩
  all_goals exact ⟨fun _ => ⟨SipSend.noConfusion, SipSend.noConfusion⟩, fun _ => ⟨bytes, hbytes, hid, htags⟩⟩

/-- Where no call is answered, every message carries its own. -/
theorem Writes.carries {b : Built} (h : Writes cfg false b c) : Carries cfg b c := by
  obtain ⟨bytes, hbytes, hid, htags⟩ := h
  refine ⟨bytes, hbytes, hid, ?_⟩
  cases hmsg : b.msg <;> rw [hmsg] at htags
  case ok | byeOk => exact absurd htags.1 false_ne_true
  all_goals exact htags

theorem OwnFacts.of_same {w w' : SipWorld} (h : OwnFacts cfg w c) (hs : SameFacts w w') : OwnFacts cfg w' c := by
  have hhost : callIdAtHost (w'.dialog cfg) = callIdAtHost (w.dialog cfg) := by
    simp only [callIdAtHost, dialog, hs.callId]
  refine ⟨?_, ?_, ?_, ?_, ?_⟩
  · rw [hhost, hs.callId]
    exact h.wire
  · rw [hs.callId]
    exact h.oneLine
  · rw [hs.callId]
    exact h.short
  · rw [hs.toTag]
    exact h.tag
  · rw [hs.peerRtpIp, hs.peerRtpPort]
    exact h.media

structure InRole (cfg : SipConfig) (w : SipWorld) (c : Call) : Prop where
  held : w.offerPending = true →
    cfg.commandIn = true ∧ w.fsm.state = .ready ∧ c.placed = false ∧ c.media.isSome = true
  inviting : w.fsm.state = .inviting → c.placed = true ∧ c.remote = none

structure OwnInv (cfg : SipConfig) (answers : Bool) (v : Watched) : Prop extends KeepsOwn cfg answers v where
  role : InRole cfg v.world v.call

theorem length_builtFor (cfg : SipConfig) (w : SipWorld) (send : Option SipSend) :
    (builtFor cfg w send).length ≤ 1 := by
  unfold builtFor
  split
  · exact Nat.zero_le 1
  · split
    · exact Nat.le_refl 1
    · exact Nat.zero_le 1

theorem written_moved {more : List Built}
    (h : List.Forall₂ (Writes cfg answers) v.world.built v.owners) (hbuilt : w.built = v.world.built ++ more)
    (hlen : more.length ≤ 1) (hmore : ∀ b ∈ more, Writes cfg answers b c) :
    List.Forall₂ (Writes cfg answers) (v.moved cfg c w).world.built (v.moved cfg c w).owners := by
  simp only [Watched.moved]
  rw [hbuilt, length_append]
  match more, hlen with
  | [], _ =>
    rw [append_nil, length_nil, Nat.add_zero, if_neg (Nat.lt_irrefl _)]
    exact h
  | [b], _ =>
    rw [length_singleton, if_pos (Nat.lt_succ_self _)]
    exact List.rel_append h (List.Forall₂.cons (hmore b (mem_singleton.mpr rfl)) .nil)

theorem Named.of_records {w w' : SipWorld} {started : List Call} (h : Named w started)
    (more : List CtrlRecord) (hrec : mediaRecords w' = mediaRecords w ++ more)
    (hstop : ∀ r ∈ more, r.cmd = .stop) : Named w' started := by
  obtain ⟨endpoints, hmedia, hfilter⟩ := h
  refine ⟨endpoints, hmedia, ?_⟩
  have hnone : more.filter (·.cmd ≠ .stop) = [] := by
    rw [List.filter_eq_nil_iff]
    intro r hr
    simp [hstop r hr]
  rw [hrec, List.filter_append, hnone, append_nil, hfilter]

theorem Named.start {w w' : SipWorld} {started : List Call} {e : UInt32 × UInt16}
    (h : Named w started) (hrec : mediaRecords w' = mediaRecords w ++ startRecords e)
    (hc : c.media = some e) : Named w' (started ++ [c]) := by
  obtain ⟨endpoints, hmedia, hfilter⟩ := h
  refine ⟨endpoints ++ [e], ?_, ?_⟩
  · rw [map_append, map_append, hmedia, map_singleton, hc, map_singleton]
  · rw [hrec, List.filter_append, hfilter, flatMap_append, flatMap_singleton]
    rfl

/-- What the step that feeds an event must know: `u` has the facts of the event's message, `c` is the call then. -/
structure Fed (cfg : SipConfig) (answers : Bool) (v : Watched) (c : Call) (u : SipWorld) (ev : SipEvent) : Prop where
  fsm : u.fsm = v.world.fsm
  built : u.built = v.world.built
  records : mediaRecords u = mediaRecords v.world
  room : Room cfg u u.ctrlTaken (u.fsm.onEvent ev).2.media
  notTimeout : ev ≠ .timeout
  facts : OwnFacts cfg u c
  send : SendOk answers c (u.fsm.onEvent ev).2.send
  start : (u.fsm.onEvent ev).2.media = .start → c.media.isSome = true

theorem named_fed (h : Named v.world v.started) (hf : Fed cfg answers v c u ev) :
    Named (v.moved cfg c (u.feed cfg now ev)).world (v.moved cfg c (u.feed cfg now ev)).started := by
  obtain ⟨-, hfsm, -, hrecords⟩ := feed_spec now hf.room
  have hmove := onEvent_media u.fsm ev fun _ => gaveUp_of_ne hf.notTimeout
  simp only [Watched.moved]
  rw [hf.records] at hrecords
  rw [hfsm, ← hf.fsm]
  cases hm : (u.fsm.onEvent ev).2.media <;> rw [hm] at hmove hrecords
  · rw [hmove, Bool.and_assoc, Bool.not_and_self, Bool.and_false, if_neg false_ne_true]
    refine h.of_records _ hrecords ?_
    simp [recordsFor]
  · obtain ⟨e, he⟩ := isSome_iff_exists.mp (hf.start hm)
    rw [hmove.1, hmove.2, Bool.not_false, Bool.and_true, Bool.and_true]
    cases hwired : cfg.rtpCtrlOut <;> rw [recordsFor, hwired] at hrecords
    · exact h.of_records _ hrecords nofun
    · rw [if_pos rfl]
      simp only [if_true] at hrecords
      rw [← hf.facts.media e he] at hrecords
      exact h.start hrecords he
  · rw [hmove.2, Bool.and_false, if_neg false_ne_true]
    refine h.of_records _ hrecords ?_
    cases hwired : cfg.rtpCtrlOut <;> simp [recordsFor, hwired]

theorem ownInv_fed (h : OwnInv cfg answers v) (hf : Fed cfg answers v c u ev)
    (hheld : u.offerPending = true → cfg.commandIn = true ∧ (u.fsm.onEvent ev).1.state = .ready ∧
      c.placed = false ∧ c.media.isSome = true)
    (hinviting : (u.fsm.onEvent ev).1.state = .inviting → c.placed = true ∧ c.remote = none) :
    OwnInv cfg answers (v.moved cfg c (u.feed cfg now ev)) := by
  obtain ⟨hs, hfsm, hbuilt, -⟩ := feed_spec now hf.room
  rw [hf.built] at hbuilt
  refine ⟨⟨fun _ => hf.facts.of_same hs, ?_, named_fed h.named hf⟩, ⟨?_, ?_⟩⟩
  · exact written_moved h.written hbuilt (length_builtFor cfg u _) (writes_builtFor hf.facts hf.send)
  · show (u.feed cfg now ev).offerPending = true → cfg.commandIn = true ∧
      (u.feed cfg now ev).fsm.state = .ready ∧ _
    rw [hs.offerPending, hfsm]
    exact hheld
  · show (u.feed cfg now ev).fsm.state = .inviting → _
    rw [hfsm]
    exact hinviting

theorem ownInv_fed_busy (h : OwnInv cfg answers v) (hf : Fed cfg answers v c u ev) (hq : v.world.fsm.state ≠ .ready)
    (ho : u.offerPending = v.world.offerPending)
    (hinviting : (u.fsm.onEvent ev).1.state = .inviting → c.placed = true ∧ c.remote = none) :
    OwnInv cfg answers (v.moved cfg c (u.feed cfg now ev)) :=
  ownInv_fed h hf (fun hoffer => absurd (h.role.held (ho.symm.trans hoffer)).2.1 hq) hinviting

theorem feed_idle (h : w.fsm.onEvent ev = (w.fsm, {})) : w.feed cfg now ev = w := by
  rw [feed, h]
  rfl

structure SameOwn (w w' : SipWorld) : Prop where
  facts : SameFacts w w'
  fsm : w'.fsm = w.fsm
  built : w'.built = w.built
  records : mediaRecords w' = mediaRecords w

theorem SameOwn.refl (w : SipWorld) : SameOwn w w := ⟨SameFacts.refl w, rfl, rfl, rfl⟩

theorem SameOwn.trans {a b c : SipWorld} (h : SameOwn a b) (h' : SameOwn b c) : SameOwn a c :=
  ⟨h.facts.trans h'.facts, h'.fsm.trans h.fsm, h'.built.trans h.built, h'.records.trans h.records⟩

theorem sameOwn_emitEvent (cfg : SipConfig) (w : SipWorld) (event : SipEventKind) (code : UInt16) :
    SameOwn w (w.emitEvent cfg event code) := by
  obtain ⟨hs, hbuilt⟩ := sameFacts_emitEvent cfg w event code
  have hm := sameMedia_emitEvent cfg w event code
  exact ⟨hs, hm.fsm, hbuilt, mediaRecords_of_same hm hs⟩

theorem sameOwn_sipFlush (w : SipWorld) : SameOwn w w.sipFlush := by
  obtain ⟨hs, hbuilt⟩ := sameFacts_sipFlush w
  exact ⟨hs, (sameMedia_sipFlush w).fsm, hbuilt, mediaRecords_of_same (sameMedia_sipFlush w) hs⟩

theorem sameOwn_flushRtpCtrl (w : SipWorld) : SameOwn w w.flushRtpCtrl := by
  obtain ⟨hs, hbuilt⟩ := sameFacts_flushQueue w w.ctrlQueue
  exact ⟨hs, (flushQueue_spec w w.ctrlQueue).2.2.2, hbuilt, mediaRecords_flushQueue w w.ctrlQueue⟩

theorem sameOwn_flushEvent (cfg : SipConfig) (w : SipWorld) (taken : Bool) :
    SameOwn w (w.flushEvent cfg taken) := by
  unfold flushEvent
  split
  · split_ifs <;> exact ⟨⟨rfl, rfl, rfl, rfl, rfl⟩, rfl, rfl, rfl⟩
  · exact SameOwn.refl w

theorem inCall_of_same {w w' : SipWorld} (ho : w'.offerPending = w.offerPending)
    (hq : w'.fsm.state = w.fsm.state) : inCall w' = inCall w := by
  rw [inCall, inCall, ho, hq]

theorem moved_quiet (hbuilt : w.built = v.world.built)
    (hrun : w.fsm.state.running = false ∨ w.fsm.state = v.world.fsm.state) :
    v.moved cfg c w = { v with world := w, call := c } := by
  unfold Watched.moved
  rw [hbuilt, if_neg (Nat.lt_irrefl _)]
  have hcond : (cfg.rtpCtrlOut && !v.world.fsm.state.running && w.fsm.state.running) = false := by
    rcases hrun with hrun | hrun
    · rw [hrun, Bool.and_false]
    · rw [hrun, Bool.and_assoc, Bool.not_and_self, Bool.and_false]
  rw [hcond, if_neg false_ne_true]

theorem ownInv_told (h : OwnInv cfg answers v) (hq : w.fsm.state = v.world.fsm.state) (hbuilt : w.built = v.world.built)
    (hrecords : mediaRecords w = mediaRecords v.world)
    (hfacts : inCall w = true → OwnFacts cfg w c) (hrole : InRole cfg w c) :
    OwnInv cfg answers (v.moved cfg c w) := by
  rw [moved_quiet hbuilt (.inr hq)]
  refine ⟨⟨hfacts, ?_, ?_⟩, hrole⟩
  · show List.Forall₂ (Writes cfg answers) w.built v.owners
    rw [hbuilt]
    exact h.written
  · exact h.named.of_records [] (by rw [hrecords, append_nil]) nofun

theorem InRole.of_same {w w' : SipWorld} (h : InRole cfg w c)
    (ho : w'.offerPending = w.offerPending) (hq : w'.fsm.state = w.fsm.state) : InRole cfg w' c := by
  refine ⟨?_, ?_⟩
  · rw [ho, hq]
    exact h.held
  · rw [hq]
    exact h.inviting

theorem ownInv_stay (h : OwnInv cfg answers v)
    (hs : SameFacts v.world w) (hq : w.fsm.state = v.world.fsm.state) (hbuilt : w.built = v.world.built)
    (hrecords : mediaRecords w = mediaRecords v.world) : OwnInv cfg answers (v.moved cfg v.call w) := by
  refine ownInv_told h hq hbuilt hrecords ?_ (h.role.of_same hs.offerPending hq)
  rw [inCall_of_same hs.offerPending hq]
  exact fun hin => (h.facts hin).of_same hs

theorem ownInv_same (h : OwnInv cfg answers v) (hs : SameOwn v.world w) : OwnInv cfg answers (v.moved cfg v.call w) :=
  ownInv_stay h hs.facts (by rw [hs.fsm]) hs.built hs.records

theorem ownInv_world (h : OwnInv cfg answers v) (hs : SameOwn v.world w) : OwnInv cfg answers { v with world := w } := by
  have := ownInv_same h hs
  rwa [moved_quiet hs.built (.inr (by rw [hs.fsm]))] at this

theorem ownInv_over (h : OwnInv cfg answers v)
    (more : List CtrlRecord) (ho : w.offerPending = false) (hq : w.fsm.state = .ready)
    (hbuilt : w.built = v.world.built) (hrecords : mediaRecords w = mediaRecords v.world ++ more)
    (hstop : ∀ r ∈ more, r.cmd = .stop) :
    OwnInv cfg answers { v with world := w } := by
  refine ⟨⟨fun hin => ?_, ?_, h.named.of_records more hrecords hstop⟩, ⟨fun hoffer => ?_, fun hinv => ?_⟩⟩
  · rw [inCall, ho, hq] at hin
    cases hin
  · show List.Forall₂ (Writes cfg answers) w.built v.owners
    rw [hbuilt]
    exact h.written
  · exact absurd hoffer (by rw [ho]; exact false_ne_true)
  · exact absurd (hq.symm.trans hinv) SipState.noConfusion

/-! ## Commands, the trigger and the timer -/

theorem not_inCall (hq : w.fsm.state = .ready) (ho : w.offerPending = false) :
    inCall w = false := by
  rw [inCall, hq, ho]
  rfl

theorem ownInv_placed (h : OwnInv cfg answers v) (w : SipWorld) (hq : v.world.fsm.state = .ready)
    (ho : v.world.offerPending = false) (hs : SameOwn v.world w)
    (hu : u = w.freshCall cfg) : OwnInv cfg answers (v.moved cfg (placedCall cfg w) (u.feed cfg now .localInvite)) := by
  have hfsm : u.fsm = v.world.fsm := by rw [hu]; exact hs.fsm
  have hev : u.fsm.onEvent .localInvite =
      ({ state := .inviting, retransmitCount := 0 }, { send := some .invite, resetTimer := true }) := by
    simp only [hfsm, SipDialogFsm.onEvent.eq_def, hq]
  have hfacts : OwnFacts cfg u (placedCall cfg w) := by
    subst hu
    exact ⟨rfl, oneLine_hex16 _, by simp [freshCall, hex16, CALL_ID_SIZE], rfl, (by rintro _ ⟨⟩)⟩
  refine ownInv_fed h ⟨hfsm, ?_, ?_, ?_, (by rintro ⟨⟩), hfacts, ?_, ?_⟩ ?_ ?_
  · rw [hu]
    exact hs.built
  · rw [hu, ← hs.records]
    rfl
  · rw [hev]
    trivial
  · rw [hev]
    exact ⟨rfl, rfl⟩
  · rw [hev]
    rintro ⟨⟩
  · rw [hu]
    intro hoffer
    rw [show (w.freshCall cfg).offerPending = false from hs.facts.offerPending.trans ho] at hoffer
    cases hoffer
  · exact fun _ => ⟨rfl, rfl⟩

theorem ownInv_fed_same {f : SipDialogFsm} {e : SipStep} (h : OwnInv cfg answers v) (hs : SameOwn v.world u)
    (hq : u.fsm.state ≠ .ready) (hev : u.fsm.onEvent ev = (f, e)) (hnot : ev ≠ .timeout)
    (hroom : Room cfg u u.ctrlTaken e.media) (hsend : SendOk answers v.call e.send)
    (hquiet : e.media ≠ .start) (hleft : f.state ≠ .inviting) :
    OwnInv cfg answers (v.moved cfg v.call (u.feed cfg now ev)) := by
  rw [hs.fsm] at hq
  have hin : inCall v.world = true := by simp [inCall, hq]
  refine ownInv_fed_busy h
    ⟨hs.fsm, hs.built, hs.records, ?_, hnot, (h.facts hin).of_same hs.facts, ?_, ?_⟩
    hq hs.facts.offerPending ?_ <;> rw [hev]
  · exact hroom
  · exact hsend
  · exact fun hstart => absurd hstart hquiet
  · exact fun hinviting => absurd hinviting hleft

theorem ownInv_hangup (h : OwnInv cfg answers v) (hq : v.world.fsm.state = .active) (hs : SameOwn v.world u)
    (hroom : Room cfg u u.ctrlTaken .stop) (hplaced : v.call.placed = true) :
    OwnInv cfg answers (v.moved cfg v.call (u.feed cfg now .localBye)) := by
  have hev : u.fsm.onEvent .localBye = ({ state := .byeSent, retransmitCount := 0 },
      { send := some .bye, media := .stop, resetTimer := true }) := by
    simp only [hs.fsm, SipDialogFsm.onEvent.eq_def, hq]
  exact ownInv_fed_same h hs (by rw [hs.fsm, hq]; exact SipState.noConfusion) hev (by rintro ⟨⟩) hroom hplaced
    (by rintro ⟨⟩) (by rintro ⟨⟩)

theorem ownInv_accept (h : OwnInv cfg answers v) (hanswers : answers = true) (ho : v.world.offerPending = true)
    (hs : SameOwn { v.world with offerPending := false } u) (hroom : Room cfg u u.ctrlTaken .start) :
    OwnInv cfg answers (v.moved cfg v.call (u.feed cfg now (.rxInvite true))) := by
  obtain ⟨-, hq, hplaced, hmedia⟩ := h.role.held ho
  have hin : inCall v.world = true := by rw [inCall, ho]; rfl
  have hev : u.fsm.onEvent (.rxInvite true) = ({ state := .waitAck, retransmitCount := 0 },
      { send := some .ok, media := .start, resetTimer := true }) := by
    simp only [show u.fsm = v.world.fsm from hs.fsm, SipDialogFsm.onEvent.eq_def, hq]
  have hfacts : OwnFacts cfg { v.world with offerPending := false } v.call := by
    obtain ⟨hwire, hline, hshort, htag, hendpoint⟩ := h.facts hin
    exact ⟨hwire, hline, hshort, htag, hendpoint⟩
  refine ownInv_fed h ⟨hs.fsm, hs.built, hs.records, ?_, (by rintro ⟨⟩), hfacts.of_same hs.facts, ?_, ?_⟩ ?_ ?_
  · rw [hev]
    exact hroom
  · rw [hev]
    exact ⟨hplaced, hanswers⟩
  · exact fun _ => hmedia
  · intro hoffer
    rw [hs.facts.offerPending] at hoffer
    cases hoffer
  · rw [hev]
    rintro ⟨⟩

theorem sameOwn_pending (w : SipWorld) : SameOwn w { w with sipTxPending := true } :=
  ⟨⟨rfl, rfl, rfl, rfl, rfl⟩, rfl, rfl, rfl⟩

theorem sameOwn_cid (w : SipWorld) (cid : UInt32) : SameOwn w { w with cid := cid } :=
  ⟨⟨rfl, rfl, rfl, rfl, rfl⟩, rfl, rfl, rfl⟩

theorem sameOwn_buildRefusal (cfg : SipConfig) (w : SipWorld) (code : UInt16) :
    SameOwn w (buildRefusal cfg w code) := by
  unfold buildRefusal
  generalize buildInviteStatus (w.dialog cfg) code = bytes
  obtain ⟨hs, hbuilt⟩ := sameFacts_stage w bytes
  have hm := sameMedia_stage w bytes
  exact ⟨hs, hm.fsm, hbuilt, mediaRecords_of_same hm hs⟩

theorem sameOwn_reject (cfg : SipConfig) (w : SipWorld) (code : UInt16) :
    SameOwn w { (sipFlush { buildRefusal cfg w code with sipTxPending := true }).emitEvent cfg .declined
      code with cid := 0 } := by
  have hstaged := (sameOwn_buildRefusal cfg w code).trans (sameOwn_pending _)
  have hflushed := hstaged.trans (sameOwn_sipFlush _)
  exact (hflushed.trans (sameOwn_emitEvent cfg _ .declined code)).trans (sameOwn_cid _ 0)

theorem ownInv_cancelled (h : OwnInv cfg answers v) (hs : SameOwn v.world u) (ho : v.world.offerPending = false)
    (hroom : Room cfg u u.ctrlTaken .stop) :
    OwnInv cfg answers (v.moved cfg v.call { mediaStop cfg { u with fsm := {} } with cid := 0 }) := by
  obtain ⟨hfacts, hbuilt, hrecords⟩ := applyMedia_spec (w := { u with fsm := {} }) .stop hroom
  have hfsm : (mediaStop cfg { u with fsm := {} }).fsm.state = .ready :=
    congrArg SipDialogFsm.state (sameReports_queueRtpCtrl cfg { u with fsm := {} } .stop).2
  have hbuilt' : ({ mediaStop cfg { u with fsm := {} } with cid := 0 } : SipWorld).built =
      v.world.built := hbuilt.trans hs.built
  have hrun : ({ mediaStop cfg { u with fsm := {} } with cid := 0 } : SipWorld).fsm.state.running =
      false := by
    show (mediaStop cfg { u with fsm := {} }).fsm.state.running = false
    rw [hfsm]
    rfl
  rw [moved_quiet hbuilt' (.inl hrun)]
  refine ownInv_over h (recordsFor cfg { u with fsm := {} } .stop)
    (hfacts.offerPending.trans (hs.facts.offerPending.trans ho)) hfsm hbuilt' ?_ ?_
  · rw [← hs.records]
    exact hrecords
  · unfold recordsFor
    split_ifs <;> simp

theorem ownInv_commanded {cmd : SipCommand} (h : OwnInv cfg answers v) (hok : v.world.applies cmd.op = true → CommandOk cfg answers v.world v.call cmd.op) :
    OwnInv cfg answers (v.commanded cfg now cmd) := by
  unfold Watched.commanded handleCommand
  by_cases happ : v.world.applies cmd.op = true
  swap
  · rw [if_neg happ, eq_false_iff.mpr happ, Bool.false_and, if_neg false_ne_true]
    have hs := SameOwn.trans (b := { v.world with cid := cmd.cid })
      (⟨⟨rfl, rfl, rfl, rfl, rfl⟩, rfl, rfl, rfl⟩ : SameOwn v.world { v.world with cid := cmd.cid })
      (sameOwn_emitEvent cfg _ .failed 0)
    refine ownInv_same h ?_
    exact ⟨⟨hs.facts.callId, hs.facts.toTag, hs.facts.peerRtpIp, hs.facts.peerRtpPort,
      hs.facts.offerPending⟩, hs.fsm, hs.built, hs.records⟩
  obtain ⟨hroom, haccept, hhangup, hcancel⟩ := hok happ
  rw [if_pos happ, happ, Bool.true_and]
  cases hop : cmd.op <;> rw [hop] at hroom happ
  case dial =>
    obtain ⟨hq, ho⟩ := and_eq_true_iff.mp happ
    rw [if_pos (by decide)]
    exact ownInv_placed h ((v.world.adoptPeer cmd).begins cmd.cid) (of_decide_eq_true hq)
      (Bool.not_eq_true' _ ▸ ho) ⟨⟨rfl, rfl, rfl, rfl, rfl⟩, rfl, rfl, rfl⟩ rfl
  case accept =>
    rw [if_neg (by decide)]
    refine ownInv_accept h (haccept hop) happ ⟨⟨rfl, rfl, rfl, rfl, rfl⟩, rfl, rfl, rfl⟩ ?_
    have hstart := hroom _ rfl
    simp only [SipDialogFsm.onEvent.eq_def, (h.role.held happ).2.1] at hstart
    exact hstart
  case reject =>
    rw [if_neg (by decide)]
    simp only
    generalize (if cmd.code = 0 then 603 else cmd.code) = code
    have hs := sameOwn_reject cfg { v.world with offerPending := false } code
    have hq := (h.role.held happ).2.1
    rw [moved_quiet hs.built (.inr (congrArg SipDialogFsm.state hs.fsm))]
    refine ownInv_over h [] hs.facts.offerPending ?_ hs.built ?_ (by rintro _ ⟨⟩)
    · rw [hs.fsm]
      exact hq
    · rw [hs.records, append_nil]
      rfl
  case hangup =>
    rw [if_neg (by decide)]
    have hq : v.world.fsm.state = .active := of_decide_eq_true happ
    have hs := SameOwn.trans (b := v.world.nextRequest)
      (⟨⟨rfl, rfl, rfl, rfl, rfl⟩, rfl, rfl, rfl⟩ : SameOwn v.world v.world.nextRequest)
      (sameOwn_emitEvent cfg _ .localClosed 0)
    have hm := sameMedia_emitEvent cfg v.world.nextRequest .localClosed 0
    have hstop := hroom _ rfl
    simp only [SipDialogFsm.onEvent.eq_def, hq] at hstop
    exact ownInv_hangup h hq hs (hstop.of_same hm.ctrlQueue hm.ctrlTaken) (hhangup hop)
  case cancel =>
    rw [if_neg (by decide)]
    have hq : v.world.fsm.state = .inviting := of_decide_eq_true happ
    have hm := sameMedia_emitEvent cfg v.world .localClosed 0
    refine ownInv_cancelled h (sameOwn_emitEvent cfg v.world .localClosed 0) ?_
      ((hcancel hop).of_same hm.ctrlQueue hm.ctrlTaken)
    refine eq_false_iff.mpr fun hoffer => ?_
    rw [(h.role.held hoffer).2.1] at hq
    cases hq

theorem ownInv_triggered
    (h : OwnInv cfg answers v) (hok : TriggerOk cfg v.world v.call)
    (hstep : v.world.stepTrigger cfg now = some w) : OwnInv cfg answers (v.triggered cfg w) := by
  obtain ⟨hroom, ho, hplaced⟩ := hok
  unfold stepTrigger at hstep
  unfold Watched.triggered
  cases hq : v.world.fsm.state <;> rw [hq] at hstep hroom
  case ready =>
    obtain rfl := Option.some.inj hstep
    rw [if_pos rfl]
    exact ownInv_placed h (v.world.begins v.world.cid) hq ho ⟨⟨rfl, rfl, rfl, rfl, rfl⟩, rfl, rfl, rfl⟩ rfl
  case active =>
    obtain rfl := Option.some.inj hstep
    rw [if_neg SipState.noConfusion]
    have hstop := hroom _ rfl
    simp only [SipDialogFsm.onEvent.eq_def, hq] at hstop
    exact ownInv_hangup h hq ⟨⟨rfl, rfl, rfl, rfl, rfl⟩, rfl, rfl, rfl⟩ hstop (hplaced hq)
  all_goals cases hstep

theorem ownInv_stepTimer (now : UInt64) (h : OwnInv cfg answers v) :
    OwnInv cfg answers { v with world := v.world.stepTimer cfg now } := by
  unfold stepTimer
  by_cases hdue : v.world.timerDue now = true
  swap
  · rw [if_neg hdue]
    exact h
  rw [if_pos hdue]
  have hstate : v.world.fsm.state.retransmits = true := (and_eq_true_iff.mp hdue).1
  have hne : v.world.fsm.state ≠ .ready := fun hready => by rw [hready] at hstate; cases hstate
  have ho : v.world.offerPending = false :=
    eq_false_iff.mpr fun hoffer => hne (h.role.held hoffer).2.1
  rw [onEvent_timeout v.world.fsm hstate, SipDialogFsm.onTimeout]
  by_cases hlimit : v.world.fsm.retransmitCount ≥ SIP_MAX_RETRANSMIT
  · rw [if_pos hlimit]
    simp only
    rw [if_pos ⟨trivial, hne.symm⟩]
    obtain ⟨u, hu⟩ : ∃ u : SipWorld,
        u = { v.world with fsm := { v.world.fsm with state := .ready } } := ⟨_, rfl⟩
    rw [← hu]
    have hs := sameOwn_emitEvent cfg u .timeout 0
    have hq : u.fsm.state = .ready := by rw [hu]
    refine ownInv_over h [] ?_ ?_ ?_ ?_ (by rintro _ ⟨⟩)
    · exact hs.facts.offerPending.trans (by rw [hu]; exact ho)
    · show (u.emitEvent cfg .timeout 0).fsm.state = .ready
      rw [hs.fsm, hq]
    · exact hs.built.trans (by rw [hu])
    · rw [append_nil]
      exact hs.records.trans (by rw [hu]; rfl)
  · rw [if_neg hlimit]
    simp only
    rw [if_neg (by simp)]
    obtain ⟨u, hu⟩ : ∃ u : SipWorld, u = { v.world with
        fsm := { v.world.fsm with retransmitCount := v.world.fsm.retransmitCount + 1 } } := ⟨_, rfl⟩
    rw [← hu]
    have hs : SameFacts v.world u := by
      subst hu
      exact ⟨rfl, rfl, rfl, rfl, rfl⟩
    obtain ⟨hs', hbuilt⟩ := sameFacts_applySend cfg u (some .retransmit)
    have hm := sameMedia_applySend cfg u (some .retransmit)
    have hq : (u.applySend cfg (some .retransmit)).fsm.state = v.world.fsm.state := by
      rw [hm.fsm, hu]
    have hbuilt' : (u.applySend cfg (some .retransmit)).built = v.world.built := by
      rw [hbuilt, hu]
      exact append_nil _
    have hrecords : mediaRecords (u.applySend cfg (some .retransmit)) = mediaRecords v.world := by
      rw [mediaRecords_of_same hm hs', hu]
      rfl
    have hall := hs.trans hs'
    have hstay := ownInv_stay (w := u.apply cfg now { send := some .retransmit, resetTimer := true }) h
      ⟨hall.callId, hall.toTag, hall.peerRtpIp, hall.peerRtpPort, hall.offerPending⟩ hq hbuilt' hrecords
    rwa [moved_quiet (w := u.apply cfg now { send := some .retransmit, resetTimer := true }) hbuilt'
      (.inr hq)] at hstay

/-! ## Datagrams -/

theorem onEvent_rxAck_quiet (h : f.state ≠ .waitAck) : f.onEvent .rxAck = (f, {}) := by
  obtain ⟨state, count⟩ := f
  cases state
  case waitAck => exact absurd rfl h
  all_goals rfl

theorem onEvent_rxBye_quiet (h : f.state ≠ .active) : f.onEvent .rxBye = (f, {}) := by
  obtain ⟨state, count⟩ := f
  cases state
  case active => exact absurd rfl h
  all_goals rfl

theorem onEvent_rxResponse_quiet (h : f.state ≠ .inviting) (hcode : f.state = .byeSent → code < 200) : f.onEvent (.rxResponse code) = (f, {}) := by
  obtain ⟨state, count⟩ := f
  cases state
  case inviting => exact absurd rfl h
  case byeSent =>
    simp only [SipDialogFsm.onEvent.eq_def, SipDialogFsm.onByeResponse]
    rw [if_neg (UInt16.not_le.mpr (hcode rfl))]
  all_goals rfl

theorem receive_inert (h : Inert cfg w msg) : w.receive cfg now msg = w := by
  unfold receive classifyAndExtract
  unfold Inert at h
  cases hk : kindOf msg with
  | invite ep =>
    rw [hk] at h
    exact h.elim
  | ack =>
    rw [hk] at h
    simp only
    rw [if_neg h]
    exact feed_idle (onEvent_rxAck_quiet h)
  | bye =>
    rw [hk] at h
    simp only [emitEvent, h.1, Bool.not_false, if_true]
    exact feed_idle (onEvent_rxBye_quiet h.2)
  | response code =>
    rw [hk] at h
    simp only
    rw [if_neg h.1]
    exact feed_idle (onEvent_rxResponse_quiet h.1 h.2)
  | other => rfl

theorem hear_inert (h : Inert cfg w msg) :
    c.hear w msg = c := by
  unfold Call.hear
  unfold Inert at h
  cases hk : kindOf msg with
  | invite ep =>
    rw [hk] at h
    exact h.elim
  | response code =>
    rw [hk] at h
    exact if_neg fun hall => h.1 hall.1
  | _ => rfl

theorem ownInv_ack (h : OwnInv cfg answers v) (hs : SameOwn v.world u) : OwnInv cfg answers (v.moved cfg v.call (u.feed cfg now .rxAck)) := by
  by_cases hq : u.fsm.state = .waitAck
  · have hev : u.fsm.onEvent .rxAck = ({ u.fsm with state := .active }, {}) := by
      simp only [SipDialogFsm.onEvent.eq_def, hq]
    exact ownInv_fed_same h hs (by rw [hq]; exact SipState.noConfusion) hev (by rintro ⟨⟩) trivial trivial
      (by rintro ⟨⟩) (by rintro ⟨⟩)
  · rw [feed_idle (onEvent_rxAck_quiet hq)]
    exact ownInv_same h hs

theorem ownInv_bye (h : OwnInv cfg answers v)
    (hs : SameOwn v.world u) (hroom : Room cfg u u.ctrlTaken (u.fsm.onEvent .rxBye).2.media)
    (hplaced : u.fsm.state = .active → v.call.placed = false ∧ answers = true) :
    OwnInv cfg answers (v.moved cfg v.call (u.feed cfg now .rxBye)) := by
  by_cases hq : u.fsm.state = .active
  · have hev : u.fsm.onEvent .rxBye =
        ({ u.fsm with state := .ready }, { send := some .byeOk, media := .stop }) := by
      simp only [SipDialogFsm.onEvent.eq_def, hq]
    rw [hev] at hroom
    exact ownInv_fed_same h hs (by rw [hq]; exact SipState.noConfusion) hev (by rintro ⟨⟩) hroom (hplaced hq)
      (by rintro ⟨⟩) (by rintro ⟨⟩)
  · rw [feed_idle (onEvent_rxBye_quiet hq)]
    exact ownInv_same h hs

theorem mediaRecords_endpoint {w w' : SipWorld} (hsent : w'.ctrlSent = w.ctrlSent)
    (hqueue : w'.ctrlQueue = w.ctrlQueue) (hto : (w'.peerRtpIp, w'.peerRtpPort) = endpointOf w ep)
    (hkept : EndpointKept w ep) : mediaRecords w' = mediaRecords w := by
  rw [mediaRecords, mediaRecords, hsent, hqueue]
  refine congrArg _ (map_congr_left fun cmd hcmd => ?_)
  unfold ctrlRecord
  by_cases hset : cmd = .setEndpoint
  · subst hset
    obtain ⟨hip, hport⟩ := Prod.mk.inj (hto.trans (hkept hcmd))
    rw [if_pos rfl, if_pos rfl, hip, hport]
  · rw [if_neg hset, if_neg hset]

theorem adoptAnswer_spec (hsdp : parseSdpEndpoint msg = some ep) :
    w.adoptAnswer msg = { w with
      peerRtpIp := (endpointOf w ep).1, peerRtpPort := (endpointOf w ep).2, toTag := parseToTag msg } := by
  rw [adoptAnswer, hsdp]
  rfl

theorem FourDigits.eq {tag : Option Bytes} (h : FourDigits tag) :
    tag = if (tag.map parseHex16).getD 0 = 0 then none else some (hex16 ((tag.map parseHex16).getD 0)) := by
  cases tag with
  | none => rfl
  | some text =>
    obtain ⟨hne, htext⟩ := h text rfl
    rw [map_some, getD_some, if_neg hne, ← htext]

theorem ownInv_answered (h : OwnInv cfg answers v) (hq : v.world.fsm.state = .inviting)
    (hfsm : u.fsm = v.world.fsm) (hbuilt : u.built = v.world.built)
    (hrecords : mediaRecords u = mediaRecords v.world) (hoffer : u.offerPending = v.world.offerPending)
    (hroom : Room cfg u u.ctrlTaken (u.fsm.onEvent (.rxResponse code)).2.media)
    (hfacts : OwnFacts cfg u c) (hplaced : c.placed = true) (hearly : code < 200 → c.remote = none)
    (hstart : 200 ≤ code ∧ code < 300 → c.media.isSome = true) :
    OwnInv cfg answers (v.moved cfg c (u.feed cfg now (.rxResponse code))) := by
  have hev : u.fsm.onEvent (.rxResponse code) = u.fsm.onInviteResponse code := by
    simp only [SipDialogFsm.onEvent.eq_def, hfsm, hq]
  have hsend : SendOk answers c (u.fsm.onEvent (.rxResponse code)).2.send := by
    rw [hev, SipDialogFsm.onInviteResponse]
    split_ifs
    · trivial
    · exact hplaced
    · exact hplaced
    · trivial
  have hmedia : (u.fsm.onEvent (.rxResponse code)).2.media = .start → c.media.isSome = true := by
    rw [hev, SipDialogFsm.onInviteResponse]
    split_ifs with _ hok
    · rintro ⟨⟩
    · exact fun _ => hstart hok
    · rintro ⟨⟩
    · rintro ⟨⟩
  have hinviting : (u.fsm.onEvent (.rxResponse code)).1.state = .inviting → c.placed = true ∧ c.remote = none := by
    rw [hev, SipDialogFsm.onInviteResponse]
    split_ifs with hearlier hok hlate
    · exact fun _ => ⟨hplaced, hearly hearlier.2⟩
    · rintro ⟨⟩
    · rintro ⟨⟩
    · exact fun _ => ⟨hplaced, hearly (by grind)⟩
  exact ownInv_fed_busy h ⟨hfsm, hbuilt, hrecords, hroom, (by rintro ⟨⟩), hfacts, hsend, hmedia⟩
    (by rw [hq]; exact SipState.noConfusion) hoffer hinviting

theorem ownInv_closed (h : OwnInv cfg answers v) (hq : v.world.fsm.state ≠ .inviting) :
    OwnInv cfg answers (v.moved cfg v.call (v.world.feed cfg now (.rxResponse code))) := by
  by_cases hbye : v.world.fsm.state = .byeSent ∧ 200 ≤ code
  · have hev : v.world.fsm.onEvent (.rxResponse code) = ({ v.world.fsm with state := .ready }, {}) := by
      simp only [SipDialogFsm.onEvent.eq_def, hbye.1]
      exact if_pos hbye.2
    exact ownInv_fed_same h (SameOwn.refl _) (by rw [hbye.1]; exact SipState.noConfusion) hev (by rintro ⟨⟩)
      trivial trivial (by rintro ⟨⟩) (by rintro ⟨⟩)
  · rw [feed_idle (onEvent_rxResponse_quiet hq fun hstate => ?_)]
    · exact ownInv_same h (SameOwn.refl _)
    · exact UInt16.not_le.mp fun hcode => hbye ⟨hstate, hcode⟩

theorem Room.of_on {w u : SipWorld} (h : RoomOn cfg w w.ctrlTaken (some ev)) (hs : SameMedia w u) :
    Room cfg u u.ctrlTaken (u.fsm.onEvent ev).2.media := by
  rw [hs.fsm]
  exact Room.of_same (h ev rfl) hs.ctrlQueue hs.ctrlTaken

theorem ownInv_response (h : OwnInv cfg answers v) (hk : kindOf msg = .response code)
    (hown : v.world.fsm.state = .inviting → findCallId msg = v.call.wire)
    (hroom : RoomOn cfg v.world v.world.ctrlTaken (some (.rxResponse code)))
    (hok : v.world.fsm.state = .inviting → 200 ≤ code →
      if code < 300 then FourDigits (toTagText msg) ∧ ∃ ep ∈ parseSdpEndpoint msg, EndpointKept v.world ep
      else toTagText msg = none) :
    OwnInv cfg answers (v.moved cfg (v.call.hear v.world msg)
      ((if v.world.fsm.state = .inviting then
          (if 200 ≤ code ∧ code < 300 then v.world.adoptAnswer msg else v.world).emitEvent cfg
            (responseEvent code) code
        else v.world).feed cfg now (.rxResponse code))) := by
  rw [Call.hear, hk]
  simp only
  by_cases hq : v.world.fsm.state = .inviting
  swap
  · rw [if_neg fun hall => hq hall.1, if_neg hq]
    exact ownInv_closed h hq
  have hin : inCall v.world = true := by simp [inCall, hq]
  have hfacts := h.facts hin
  obtain ⟨hplaced, hremote⟩ := h.role.inviting hq
  rw [if_pos hq]
  by_cases hcode : 200 ≤ code
  swap
  · have hearly : ¬(200 ≤ code ∧ code < 300) := fun hboth => hcode hboth.1
    rw [if_neg fun hall => hcode hall.2.1, if_neg hearly]
    have hs := sameOwn_emitEvent cfg v.world (responseEvent code) code
    exact ownInv_answered h hq hs.fsm hs.built hs.records hs.facts.offerPending
      (Room.of_on hroom (sameMedia_emitEvent cfg v.world _ _)) (hfacts.of_same hs.facts) hplaced
      (fun _ => hremote) fun hyes => absurd hyes.1 hcode
  have hlate : ¬code < 200 := UInt16.not_lt.mpr hcode
  have hok := hok hq hcode
  rw [if_pos ⟨hq, hcode, hown hq⟩]
  by_cases hlow : code < 300
  · rw [if_pos hlow] at hok ⊢
    obtain ⟨htag, ep, hep, hkept⟩ := hok
    have hep : parseSdpEndpoint msg = some ep := hep
    rw [if_pos ⟨hcode, hlow⟩, hep, adoptAnswer_spec hep]
    obtain ⟨u, hu⟩ : ∃ u : SipWorld, u = { v.world with
        peerRtpIp := (endpointOf v.world ep).1, peerRtpPort := (endpointOf v.world ep).2,
        toTag := parseToTag msg } := ⟨_, rfl⟩
    rw [← hu]
    have hs := sameOwn_emitEvent cfg u (responseEvent code) code
    have hm : SameMedia v.world u := by
      subst hu
      exact ⟨rfl, rfl, rfl, rfl, rfl⟩
    have hfacts' : OwnFacts cfg u { v.call with
        remote := toTagText msg, media := ((some ep).map (endpointOf v.world)).or v.call.media } := by
      obtain ⟨hwire, hline, hshort, -, -⟩ := hfacts
      subst hu
      refine ⟨hwire, hline, hshort, ?_, fun e he => (Option.some.inj he).symm⟩
      simp only [hplaced, if_true]
      rw [parseToTag, tagOnLine_eq]
      exact htag.eq
    refine ownInv_answered h hq (hs.fsm.trans hm.fsm)
      (hs.built.trans (by rw [hu])) (hs.records.trans ?_) (hs.facts.offerPending.trans (by rw [hu]))
      (Room.of_on hroom (hm.trans (sameMedia_emitEvent cfg u _ _))) (hfacts'.of_same hs.facts) hplaced
      (fun hyes => absurd hyes hlate) fun _ => rfl
    exact mediaRecords_endpoint hm.ctrlSent hm.ctrlQueue (by rw [hu]) hkept
  · rw [if_neg hlow] at hok ⊢
    rw [if_neg fun hboth => hlow hboth.2]
    have hs := sameOwn_emitEvent cfg v.world (responseEvent code) code
    -- A refusal leaves the tag unset, and has none itself.
    have hsame : { v.call with remote := toTagText msg, media := v.call.media } = v.call := by
      rw [hok, ← hremote]
    rw [hsame]
    exact ownInv_answered h hq hs.fsm hs.built hs.records hs.facts.offerPending
      (Room.of_on hroom (sameMedia_emitEvent cfg v.world _ _)) (hfacts.of_same hs.facts) hplaced
      (fun hyes => absurd hyes hlate) fun hyes => absurd hyes.2 hlow

theorem not_inCall_iff (w : SipWorld) :
    inCall w = false ↔ (!w.offerPending && decide (w.fsm.state = .ready)) = true := by
  simp [inCall]

theorem findCallId_oneLine {msg text : Bytes} (h : findCallId msg = some text) : OneLine text := by
  obtain ⟨pos, -, rfl⟩ := map_eq_some_iff.mp h
  exact oneLine_lineRest _

theorem ownFacts_offer (hid : Storable (findCallId msg)) (hplaced : c.placed = false)
    (hwire : c.wire = findCallId msg) (hremote : c.remote = fromTagText msg)
    (hmedia : c.media = some (endpointOf w ep)) : OwnFacts cfg (w.adoptOffer msg ep) c := by
  obtain ⟨text, htext, hlen⟩ := hid
  have htext : findCallId msg = some text := htext
  have hcallId : (w.adoptOffer msg ep).callId = text := by
    simp only [adoptOffer, htext]
    exact take_of_length_le hlen
  refine ⟨?_, ?_, ?_, ?_, ?_⟩
  · rw [hplaced, hwire, htext, hcallId]
    rfl
  · rw [hcallId]
    exact findCallId_oneLine htext
  · rw [hcallId]
    exact hlen
  · rw [hplaced, if_neg false_ne_true, Call.remoteNumber, hremote]
    exact congrArg (· + 1) (tagOnLine_eq msg _)
  · intro e he
    rw [hmedia] at he
    exact (Option.some.inj he).symm

section

variable (h : OwnInv cfg answers v)

include h

theorem ownInv_reinvite (hin : inCall v.world = true) (hown : findCallId msg = v.call.wire)
    (hplaced : v.call.placed = false) (hkept : EndpointKept v.world ep) :
    OwnInv cfg answers (v.moved cfg
      { v.call with remote := fromTagText msg, media := some (endpointOf v.world ep) }
      (if cfg.commandIn then (v.world.adoptOffer msg ep).holdOffer cfg
        else ((v.world.adoptOffer msg ep).answerOffer cfg).feed cfg now (.rxInvite cfg.autoAnswer))) := by
  have hnot : ¬(!v.world.offerPending && decide (v.world.fsm.state = .ready)) = true := by
    rw [← not_inCall_iff, hin]
    exact Bool.noConfusion
  have hfacts : OwnFacts cfg (v.world.adoptOffer msg ep)
      { v.call with remote := fromTagText msg, media := some (endpointOf v.world ep) } := by
    have hold := h.facts hin
    refine ownFacts_offer ⟨v.world.callId, ?_, hold.short⟩ hplaced hown.symm rfl rfl
    rw [hown, hold.wire, hplaced]
    rfl
  have hrecords : mediaRecords (v.world.adoptOffer msg ep) = mediaRecords v.world :=
    mediaRecords_endpoint rfl rfl rfl hkept
  have hasks : v.world.fsm.state ≠ .inviting := fun hinv =>
    false_ne_true (hplaced.symm.trans (h.role.inviting hinv).1)
  by_cases hcmd : cfg.commandIn = true
  · have hhold : (v.world.adoptOffer msg ep).holdOffer cfg = v.world.adoptOffer msg ep := if_neg hnot
    rw [if_pos hcmd, hhold]
    refine ownInv_told h rfl rfl hrecords (fun _ => hfacts) ⟨fun ho => ?_, fun hinv => absurd hinv hasks⟩
    obtain ⟨_, hready, _, _⟩ := h.role.held ho
    exact ⟨hcmd, hready, hplaced, rfl⟩
  · rw [if_neg hcmd]
    have ho : v.world.offerPending = false :=
      eq_false_iff.mpr fun hoffer => hcmd (h.role.held hoffer).1
    have hq : v.world.fsm.state ≠ .ready := by
      intro hready
      exact hnot (by rw [ho, hready]; rfl)
    have hsame : (v.world.adoptOffer msg ep).answerOffer cfg = v.world.adoptOffer msg ep := by
      rw [answerOffer, if_neg]
      intro hboth
      exact hq (of_decide_eq_true (and_eq_true_iff.mp hboth).1)
    have hev : (v.world.fsm.onEvent (.rxInvite cfg.autoAnswer)).1.state = v.world.fsm.state ∧
        (v.world.fsm.onEvent (.rxInvite cfg.autoAnswer)).2.media = .none ∧
        ∀ c, SendOk answers c (v.world.fsm.onEvent (.rxInvite cfg.autoAnswer)).2.send := by
      cases hstate : v.world.fsm.state
      case ready => exact absurd hstate hq
      all_goals simp only [SipDialogFsm.onEvent.eq_def, hstate]; exact ⟨trivial, trivial, fun _ => trivial⟩
    rw [hsame]
    refine ownInv_fed h ⟨rfl, rfl, hrecords, ?_, (by rintro ⟨⟩), hfacts, hev.2.2 _, ?_⟩ ?_ ?_
    · rw [show (v.world.adoptOffer msg ep).fsm = v.world.fsm from rfl, hev.2.1]
      trivial
    · exact fun _ => rfl
    · intro hoffer
      rw [show (v.world.adoptOffer msg ep).offerPending = false from ho] at hoffer
      cases hoffer
    · rw [show (v.world.adoptOffer msg ep).fsm = v.world.fsm from rfl, hev.1]
      exact fun hinv => absurd hinv hasks

theorem ownInv_invite (hin : inCall v.world = false) (hkept : EndpointKept v.world ep)
    (hroom : cfg.commandIn = false →
      RoomOn cfg v.world v.world.ctrlTaken (some (.rxInvite cfg.autoAnswer)))
    (hid : (cfg.commandIn || cfg.autoAnswer) = true → Storable (findCallId msg))
    (hanswers : cfg.commandIn = false → cfg.autoAnswer = true → answers = true) :
    OwnInv cfg answers (v.moved cfg
      { wire := findCallId msg, remote := fromTagText msg, media := some (endpointOf v.world ep) }
      (if cfg.commandIn then (v.world.adoptOffer msg ep).holdOffer cfg
        else ((v.world.adoptOffer msg ep).answerOffer cfg).feed cfg now (.rxInvite cfg.autoAnswer))) := by
  have hidle := (not_inCall_iff v.world).mp hin
  obtain ⟨ho, hq⟩ := and_eq_true_iff.mp hidle
  have ho : v.world.offerPending = false := by simpa using ho
  have hq : v.world.fsm.state = .ready := of_decide_eq_true hq
  obtain ⟨u, hu⟩ : ∃ u, u = v.world.adoptOffer msg ep := ⟨_, rfl⟩
  have hrecords : mediaRecords u = mediaRecords v.world := by
    subst hu
    exact mediaRecords_endpoint rfl rfl rfl hkept
  have hm : SameMedia v.world u := by
    subst hu
    exact ⟨rfl, rfl, rfl, rfl, rfl⟩
  have hbuilt : u.built = v.world.built := by rw [hu]; rfl
  have hou : u.offerPending = false := by rw [hu]; exact ho
  have hqu : u.fsm.state = .ready := by rw [hm.fsm, hq]
  have hfacts : (cfg.commandIn || cfg.autoAnswer) = true → OwnFacts cfg u
      { wire := findCallId msg, remote := fromTagText msg, media := some (endpointOf v.world ep) } := by
    intro hopens
    rw [hu]
    exact ownFacts_offer (hid hopens) rfl rfl rfl rfl
  rw [← hu]
  by_cases hcmd : cfg.commandIn = true
  · rw [if_pos hcmd, holdOffer, if_pos (by rw [hou, hqu]; rfl)]
    have hs := sameOwn_emitEvent cfg { u.begins (u.cidCounter + 1) with
      cidCounter := u.cidCounter + 1
      offerPending := true } .offered 0
    have hopened := hfacts (by rw [hcmd]; rfl)
    refine ownInv_told h ?_ (hs.built.trans hbuilt) (hs.records.trans hrecords) (fun _ => ?_) ⟨fun _ => ?_, ?_⟩
    · rw [hs.fsm]
      exact congrArg SipDialogFsm.state hm.fsm
    · refine OwnFacts.of_same ?_ hs.facts
      exact ⟨hopened.wire, hopened.oneLine, hopened.short, hopened.tag, hopened.media⟩
    · refine ⟨hcmd, ?_, rfl, rfl⟩
      rw [hs.fsm]
      exact hqu
    · rw [hs.fsm]
      exact fun hinv => absurd (hqu.symm.trans hinv) SipState.noConfusion
  · rw [if_neg hcmd]
    have hcmd : cfg.commandIn = false := eq_false_iff.mpr hcmd
    cases hauto : cfg.autoAnswer with
    | true =>
      have hans : u.answerOffer cfg = u.begins u.cid := by
        rw [answerOffer, hqu, hauto]
        rfl
      have hopened := hfacts (by rw [hauto, Bool.or_true])
      have hroomU : Room cfg u u.ctrlTaken (u.fsm.onEvent (.rxInvite true)).2.media := by
        have := hroom hcmd
        rw [hauto] at this
        exact Room.of_on this hm
      have hev : (u.fsm.onEvent (.rxInvite true)) = ({ state := .waitAck, retransmitCount := 0 },
          { send := some .ok, media := .start, resetTimer := true }) := by
        simp only [SipDialogFsm.onEvent.eq_def, hqu]
      rw [hans]
      refine ownInv_fed h ⟨hm.fsm, hbuilt, hrecords, hroomU, (by rintro ⟨⟩), ?_, ?_, fun _ => rfl⟩ ?_ ?_
      · exact ⟨hopened.wire, hopened.oneLine, hopened.short, hopened.tag, hopened.media⟩
      · show SendOk answers _ (u.fsm.onEvent (.rxInvite true)).2.send
        rw [hev]
        exact ⟨rfl, hanswers hcmd hauto⟩
      · intro hoffer
        rw [show (u.begins u.cid).offerPending = false from hou] at hoffer
        cases hoffer
      · show (u.fsm.onEvent (.rxInvite true)).1.state = .inviting → _
        rw [hev]
        rintro ⟨⟩
    | false =>
      have hans : u.answerOffer cfg = u := by
        rw [answerOffer, hauto, Bool.and_false]
        rfl
      have hev : u.fsm.onEvent (.rxInvite false) = (u.fsm, {}) := by
        simp only [SipDialogFsm.onEvent.eq_def, hqu]
      rw [hans, feed_idle hev]
      refine ownInv_told h (congrArg SipDialogFsm.state hm.fsm) hbuilt hrecords (fun hin' => ?_)
        ⟨fun hoffer => ?_, fun hinv => ?_⟩
      · rw [not_inCall hqu hou] at hin'
        cases hin'
      · rw [hou] at hoffer
        cases hoffer
      · exact absurd (hqu.symm.trans hinv) SipState.noConfusion

theorem ownInv_heard (hok : HeardOk cfg answers v.world v.call msg) :
    OwnInv cfg answers (v.moved cfg (v.call.hear v.world msg) (v.world.receive cfg now msg)) := by
  unfold HeardOk at hok
  by_cases hf : foreign v.world v.call msg = true
  · rw [if_pos hf] at hok
    rw [receive_inert hok, hear_inert hok]
    exact ownInv_same h (SameOwn.refl _)
  rw [if_neg hf] at hok
  have hown : inCall v.world = true → findCallId msg = v.call.wire := by
    intro hin
    by_contra hne
    exact hf (by rw [foreign, hin, decide_eq_true hne]; rfl)
  obtain ⟨hroom, hkind⟩ := hok
  unfold eventOf at hroom
  cases hk : kindOf msg with
  | invite ep =>
    rw [hk] at hroom hkind
    obtain ⟨hkept, hside⟩ := hkind
    simp only at hroom hside
    have hreceive : v.world.receive cfg now msg =
        if cfg.commandIn then (v.world.adoptOffer msg ep).holdOffer cfg
        else ((v.world.adoptOffer msg ep).answerOffer cfg).feed cfg now (.rxInvite cfg.autoAnswer) := by
      rw [receive, classifyAndExtract, hk]
      by_cases hcmd : cfg.commandIn = true
      · simp only [if_pos hcmd]
      · simp only [if_neg hcmd]
    rw [hreceive, Call.hear, hk]
    simp only
    by_cases hin : inCall v.world = true
    · rw [if_neg (by rw [hin]; exact Bool.noConfusion), if_pos (hown hin)]
      rw [if_pos hin] at hside
      exact ownInv_reinvite h hin (hown hin) hside hkept
    · have hin' : inCall v.world = false := eq_false_iff.mpr hin
      rw [if_pos hin']
      rw [if_neg hin] at hside
      refine ownInv_invite h hin' hkept (fun hcmd => ?_) hside.1 hside.2
      rw [hcmd, if_neg false_ne_true] at hroom
      exact hroom
  | ack =>
    have hreceive : v.world.receive cfg now msg = (if v.world.fsm.state = .waitAck then
        v.world.emitEvent cfg .established 200 else v.world).feed cfg now .rxAck := by
      rw [receive, classifyAndExtract, hk]
    rw [hreceive, Call.hear, hk]
    refine ownInv_ack h ?_
    split_ifs
    · exact sameOwn_emitEvent cfg _ _ _
    · exact SameOwn.refl _
  | bye =>
    rw [hk] at hroom hkind
    have hreceive : v.world.receive cfg now msg =
        (v.world.emitEvent cfg .remoteHangup 0).feed cfg now .rxBye := by
      rw [receive, classifyAndExtract, hk]
    have hs := sameOwn_emitEvent cfg v.world .remoteHangup 0
    rw [hreceive, Call.hear, hk]
    refine ownInv_bye h hs (Room.of_on hroom (sameMedia_emitEvent cfg v.world _ _)) ?_
    rw [hs.fsm]
    exact hkind
  | response code =>
    rw [hk] at hroom hkind
    have hreceive : v.world.receive cfg now msg =
        (if v.world.fsm.state = .inviting then
          (if 200 ≤ code ∧ code < 300 then v.world.adoptAnswer msg else v.world).emitEvent cfg
            (responseEvent code) code
        else v.world).feed cfg now (.rxResponse code) := by
      rw [receive, classifyAndExtract, hk]
    rw [hreceive]
    refine ownInv_response h hk (fun hq => hown ?_) hroom hkind
    simp [inCall, hq]
  | other =>
    have hreceive : v.world.receive cfg now msg = v.world := by
      rw [receive, classifyAndExtract, hk]
    rw [hreceive, Call.hear, hk]
    exact ownInv_same h (SameOwn.refl _)

/-! ## Runs -/

theorem ownInv_stepSip (hok : OwnSipOk cfg answers v.world v.call inp) : OwnInv cfg answers (v.stepSip cfg inp) := by
  unfold Watched.stepSip
  by_cases hbind : (!v.world.sipBound || decide (v.world.sipEpId = 0xFF)) = true
  · rw [if_pos hbind]
    refine ownInv_world h ?_
    unfold stepBind
    split_ifs
    · exact ⟨⟨rfl, rfl, rfl, rfl, rfl⟩, rfl, rfl, rfl⟩
    · split
      · split_ifs
        · exact ⟨⟨rfl, rfl, rfl, rfl, rfl⟩, rfl, rfl, rfl⟩
        · exact SameOwn.refl _
      · exact SameOwn.refl _
  rw [if_neg hbind]
  unfold OwnSipOk at hok
  cases hcmd : v.world.commandOf cfg inp with
  | some cmd =>
    rw [hcmd] at hok
    exact ownInv_commanded h hok
  | none =>
    rw [hcmd] at hok
    simp only
    by_cases ht : triggerTakes cfg v.world inp = true
    · obtain ⟨w, hstep, htaken⟩ := trigger_some ht
      rw [htaken]
      exact ownInv_triggered h (hok.1 ht) hstep
    · have hheard := hok.2 (eq_false_iff.mpr ht)
      rw [trigger_none (eq_false_iff.mpr ht)]
      have ht := ownInv_stepTimer inp.now h
      simp only
      unfold Watched.heard
      cases hd : (v.world.stepTimer cfg inp.now).datagramOf inp with
      | none => exact ht
      | some msg => exact ownInv_heard ht (hheard msg (by rw [hd]; rfl))

theorem ownInv_step (hok : OwnStepOk cfg answers v inp) : OwnInv cfg answers (v.step cfg inp) := by
  have hfacing : OwnInv cfg answers { v with world := v.world.facing inp } :=
    ownInv_world h ⟨⟨rfl, rfl, rfl, rfl, rfl⟩, rfl, rfl, rfl⟩
  have hstep := ownInv_stepSip hfacing hok
  refine ownInv_world hstep ?_
  exact ((sameOwn_sipFlush _).trans (sameOwn_flushRtpCtrl _)).trans (sameOwn_flushEvent cfg _ _)

end

theorem ownInv_init (cfg : SipConfig) (start : SipStart) : OwnInv cfg answers { world := start.world } :=
  ⟨⟨nofun, .nil, [], rfl, rfl⟩, ⟨nofun, nofun⟩⟩

/-- The step brings a datagram without the Call-ID of the call in progress. -/
def ForeignHeard (cfg : SipConfig) (v : Watched) (inp : SipInput) : Prop :=
  ∃ msg ∈ ((v.world.facing inp).stepTimer cfg inp.now).datagramOf inp,
    foreign ((v.world.facing inp).stepTimer cfg inp.now) v.call msg = true

theorem moduleStep_foreign (hok : OwnStepOk cfg answers v inp) (hforeign : ForeignHeard cfg v inp) :
    v.world.moduleStep cfg inp = v.world.moduleStep cfg { inp with frame := none } := by
  obtain ⟨msg, hmsg, hf⟩ := hforeign
  have hstep : (v.world.facing inp).stepSip cfg inp =
      (v.world.facing inp).stepSip cfg { inp with frame := none } := by
    unfold OwnStepOk OwnSipOk at hok
    generalize v.world.facing inp = w at hok hmsg hf ⊢
    unfold stepSip
    by_cases hbind : (!w.sipBound || decide (w.sipEpId = 0xFF)) = true
    · -- A datagram is not what binding waits for.
      rw [if_pos hbind, if_pos hbind]
      unfold stepBind
      unfold datagramOf at hmsg
      cases hframe : inp.frame with
      | none => rfl
      | some frame => cases frame <;> first | rfl | (rw [hframe] at hmsg; cases hmsg)
    rw [if_neg hbind, if_neg hbind]
    have hcommand : w.commandOf cfg { inp with frame := none } = w.commandOf cfg inp := rfl
    rw [hcommand]
    cases hcmd : w.commandOf cfg inp with
    | some cmd => rfl
    | none =>
      rw [hcmd] at hok
      simp only
      by_cases ht : triggerTakes cfg w inp = true
      · obtain ⟨u, -, htaken⟩ := trigger_some ht
        rw [htaken]
      have hheard := hok.2 (eq_false_iff.mpr ht) msg hmsg
      rw [HeardOk, if_pos hf] at hheard
      have hinbound : (w.stepTimer cfg inp.now).stepInbound cfg inp = w.stepTimer cfg inp.now := by
        rw [stepInbound, show (w.stepTimer cfg inp.now).datagramOf inp = some msg from hmsg]
        exact receive_inert hheard
      rw [hinbound]
      rfl
  unfold moduleStep
  rw [hstep]
  rfl

/-- In every run whose steps meet the condition: the module's facts are those of the call in progress; every message
has its Call-ID and our tag, and the other tag unless it is a `200 OK`; every `SET_ENDPOINT` names the endpoint of the
call started behind it; and a datagram of another call is as good as none. -/
theorem call_keeps_its_own (cfg : SipConfig) (answers : Bool) (start : SipStart) (inputs : List SipInput)
    (hal : (watchMachine cfg).Along (OwnStepOk cfg answers) { world := start.world } inputs) :
    let v := ((watchMachine cfg).run { world := start.world } inputs).1
    v.world = ((sipMachine cfg).run start.world inputs).1 ∧ KeepsOwn cfg answers v ∧
      (answers = false → List.Forall₂ (Carries cfg) v.world.built v.owners) ∧
      List.Forall₂ (fun b c => Carries cfg b c ↔ b.msg ≠ .ok ∧ (b.msg = .byeOk → c.remote = none))
        v.world.built v.owners ∧
      ∀ inp, OwnStepOk cfg answers v inp → ForeignHeard cfg v inp →
        v.world.moduleStep cfg inp = v.world.moduleStep cfg { inp with frame := none } := by
  intro v
  have hinv : OwnInv cfg answers v :=
    (watchMachine cfg).run_invariant (I := OwnInv cfg answers) (fun _ _ h hok => ownInv_step h hok)
      (ownInv_init cfg start) hal
  refine ⟨watchMachine_world cfg _ inputs, hinv.toKeepsOwn, ?_, hinv.written.imp fun _ _ h => carries_iff h,
    fun inp hok hf => moduleStep_foreign hok hf⟩
  rintro rfl
  exact hinv.written.imp fun _ _ h => h.carries

def ownAck : Bytes := ascii "ACK sip:a SIP/2.0\r\nCall-ID: c1\r\n"

def ownBye : Bytes := ascii "BYE sip:a SIP/2.0\r\nCall-ID: c1\r\n"

def otherAck : Bytes := ascii "ACK sip:a SIP/2.0\r\nCall-ID: c2\r\n"

def untilActive : List SipInput := binding ++ [hear 0 sampleInvite, hear 10 ownAck]

def calling : SipConfig := { answering with callCtrlIn := true, autoAnswer := false }

def pull (now : UInt64) : SipInput := { now := now, trigger := true, ctrlTaken := [true, true] }

def sampleOk : Bytes :=
  ascii "SIP/2.0 200 OK\r\nTo: <sip:b>;tag=00b2\r\nCall-ID: 5348@10.0.0.1\r\n\r\nm=audio 4000 RTP/AVP 0\r\n"

/-- A call that this end places and hangs up. -/
def placedRun : List SipInput := binding ++ [pull 0, hear 10 sampleOk, pull 20]

instance (cfg : SipConfig) (v : Watched) (inp : SipInput) : Decidable (ForeignHeard cfg v inp) :=
  inferInstanceAs (Decidable (∃ msg ∈ _, _))

def watched (cfg : SipConfig) (inputs : List SipInput) : Watched :=
  ((watchMachine cfg).run { world := sampleStart.world } inputs).1

theorem call_keeps_its_own_until_bye :
    (watched answering untilActive).world.moduleStep answering (hear 15 otherAck) =
        (watched answering untilActive).world.moduleStep answering { hear 15 otherAck with frame := none } ∧
      (watched answering (untilActive ++ [hear 20 ownBye])).owners =
        [⟨false, some (ascii "c1"), some (ascii "00a1"), some (0x0A000002, 4000)⟩,
          ⟨false, some (ascii "c1"), some (ascii "00a1"), some (0x0A000002, 4000)⟩] ∧
      KeepsOwn answering true (watched answering (untilActive ++ [hear 20 ownBye])) ∧
      (watched calling placedRun).owners =
        [⟨true, some (ascii "5348@10.0.0.1"), none, none⟩,
          ⟨true, some (ascii "5348@10.0.0.1"), some (ascii "00b2"), some (0x0A000002, 4000)⟩,
          ⟨true, some (ascii "5348@10.0.0.1"), some (ascii "00b2"), some (0x0A000002, 4000)⟩] ∧
      List.Forall₂ (Carries calling) (watched calling placedRun).world.built (watched calling placedRun).owners := by
  have hanswered : (watchMachine answering).Along (OwnStepOk answering true) { world := sampleStart.world }
      (untilActive ++ [hear 20 ownBye]) := by decide +kernel
  have hactive := (((watchMachine answering).along_append _ _ _ _).mp hanswered).1
  have hother : OwnStepOk answering true (watched answering untilActive) (hear 15 otherAck) ∧
      ForeignHeard answering (watched answering untilActive) (hear 15 otherAck) := by decide +kernel
  have hplaced : (watchMachine calling).Along (OwnStepOk calling false) { world := sampleStart.world } placedRun := by
    decide +kernel
  refine ⟨?_, by decide +kernel, ?_, by decide +kernel, ?_⟩
  · exact (call_keeps_its_own answering true sampleStart untilActive hactive).2.2.2.2 (hear 15 otherAck) hother.1 hother.2
  · exact (call_keeps_its_own answering true sampleStart (untilActive ++ [hear 20 ownBye]) hanswered).2.1
  · exact (call_keeps_its_own calling false sampleStart placedRun hplaced).2.2.1 rfl

def otherInvite : Bytes :=
  ascii "INVITE sip:a SIP/2.0\r\nFrom: <sip:x>;tag=0bad\r\nCall-ID: c2\r\n\r\nm=audio 6000 RTP/AVP 0\r\n"

def otherBye : Bytes := ascii "BYE sip:a SIP/2.0\r\nCall-ID: c2\r\n"

/-- Another call's `INVITE` takes over Call-ID, tag and endpoint, and another call's `BYE` ends the call; the first
`200 OK` already wrote another tag than the caller's. -/
theorem stray_invite_takes_over :
    let v := ((watchMachine answering).run { world := sampleStart.world } untilActive).1
    v.world.fsm.state = .active ∧ v.call.wire = some (ascii "c1") ∧
      (v.call.remote = some (ascii "00a1") ∧ fromTagText v.world.sipTxBuf = some (ascii "00a2")) ∧
      ForeignHeard answering v (hear 20 otherInvite) ∧
      (v.world.callId = ascii "c1" ∧ v.world.toTag = 0x00A2 ∧ v.world.peerRtpPort = 4000) ∧
      (v.world.moduleStep answering (hear 20 otherInvite)).callId = ascii "c2" ∧
      (v.world.moduleStep answering (hear 20 otherInvite)).toTag = 0x0BAE ∧
      (v.world.moduleStep answering (hear 20 otherInvite)).peerRtpPort = 6000 ∧
      ForeignHeard answering v (hear 20 otherBye) ∧
      (v.world.moduleStep answering (hear 20 otherBye)).fsm.state = .ready := by
  decide +kernel

end Wave.Sip
