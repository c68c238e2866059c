import Wave.Sip.MediaControl

/-! # Following a call by its events

`reports` has the events the transitions report, staged or not, and `begun` the calls. -/

namespace Wave.Sip

open Lib Common SipWorld

variable {cid : UInt32} {msg : Bytes}

variable {cfg : SipConfig} {w : SipWorld} {now : UInt64}
  {code : UInt16} {r : SipEventRecord} {state : SipState} {f : SipDialogFsm} {reports : List SipEventRecord} {begun : List UInt32}

def Going (cid : UInt32) (events : List SipEventRecord) : Prop :=
  ∀ r ∈ events, r.cid = cid ∧ r.event.isTerminal = false

def Ended (call : UInt32 × List SipEventRecord) : Prop :=
  ∃ before last, call.2 = before ++ [last] ∧ Going call.1 before ∧ last.cid = call.1 ∧
    last.event.isTerminal = true

/-- The reports are those of the calls that have begun, one after the other: all ended
but the one still going on. -/
def Followed (reports : List SipEventRecord) (begun : List UInt32) (ongoing : Option UInt32) : Prop :=
  ∃ (ended : List (UInt32 × List SipEventRecord)) (current : List SipEventRecord),
    reports = ended.flatMap (·.2) ++ current ∧ begun = ended.map (·.1) ++ ongoing.toList ∧
      (∀ call ∈ ended, Ended call) ∧
      match ongoing with
      | some cid => Going cid current
      | none => current = []

/-- A call is offered, placed, answered or established; a call this end has closed is
over for the application. -/
def inProgress (w : SipWorld) : Bool :=
  w.offerPending || w.fsm.state = .inviting || w.fsm.state = .waitAck || w.fsm.state = .active

def ongoing (w : SipWorld) : Option UInt32 := if inProgress w then some w.cid else none

structure CallsFollowed (w : SipWorld) : Prop where
  delivered : w.eventsSent ++ w.eventOwed.toList = w.reports
  followed : Followed w.reports w.begun (ongoing w)

theorem Followed.init : Followed [] [] none := ⟨[], [], rfl, rfl, nofun, rfl⟩

theorem Followed.begin (h : Followed reports begun none) (cid : UInt32) : Followed reports (begun ++ [cid]) (some cid) := by
  obtain ⟨ended, current, hreports, hbegun, hended, hcurrent⟩ := h
  subst hcurrent
  refine ⟨ended, [], hreports, ?_, hended, nofun⟩
  rw [hbegun]
  exact congrArg (· ++ [cid]) (append_nil _)

theorem Followed.report (h : Followed reports begun (some cid)) (hcid : r.cid = cid) (hr : r.event.isTerminal = false) : Followed (reports ++ [r]) begun (some cid) := by
  obtain ⟨ended, current, hreports, hbegun, hended, hcurrent⟩ := h
  refine ⟨ended, current ++ [r], ?_, hbegun, hended, ?_⟩
  · rw [hreports, append_assoc]
  · intro x hx
    rcases mem_append.mp hx with hx | hx
    · exact hcurrent x hx
    · rw [mem_singleton.mp hx]
      exact ⟨hcid, hr⟩

theorem Followed.finish (h : Followed reports begun (some cid)) (hcid : r.cid = cid) (hr : r.event.isTerminal = true) : Followed (reports ++ [r]) begun none := by
  obtain ⟨ended, current, hreports, hbegun, hended, hcurrent⟩ := h
  refine ⟨ended ++ [(cid, current ++ [r])], [], ?_, ?_, ?_, rfl⟩
  · rw [hreports, flatMap_append, append_assoc, append_nil]
    exact congrArg _ (append_nil _).symm
  · rw [hbegun, map_append]
    exact (append_nil _).symm
  · intro call hcall
    rcases mem_append.mp hcall with hcall | hcall
    · exact hended call hcall
    · rw [mem_singleton.mp hcall]
      exact ⟨current, r, rfl, hcurrent, hcid, hr⟩

def Reports (cfg : SipConfig) (w : SipWorld) (msg : Bytes) : Bool :=
  match kindOf msg with
  | .invite _ => cfg.commandIn && !w.offerPending && w.fsm.state = .ready
  | .ack => w.fsm.state = .waitAck
  | .bye => true
  | .response _ => w.fsm.state = .inviting
  | .other => false

def timesOut (w : SipWorld) (now : UInt64) : Bool :=
  w.timerDue now && decide (w.fsm.retransmitCount ≥ SIP_MAX_RETRANSMIT)

def EventsOk (cfg : SipConfig) (w : SipWorld) (inp : SipInput) : Prop :=
  match w.commandOf cfg inp with
  | some cmd => w.applies cmd.op = true
  | none =>
    if triggerTakes cfg w inp then w.offerPending = false ∧ w.fsm.state ≠ .active
    else
      (timesOut w inp.now = true → w.eventOwed = none ∧ w.fsm.state ≠ .byeSent) ∧
      ∀ msg ∈ (w.stepTimer cfg inp.now).datagramOf inp,
        Reports cfg (w.stepTimer cfg inp.now) msg = true →
          (w.stepTimer cfg inp.now).eventOwed = none ∧
            (kindOf msg = .bye → (w.stepTimer cfg inp.now).fsm.state = .active)

def EventsStepOk (cfg : SipConfig) (w : SipWorld) (inp : SipInput) : Prop :=
  EventsOk cfg (w.facing inp) inp

instance (cfg : SipConfig) (w : SipWorld) (inp : SipInput) : Decidable (EventsOk cfg w inp) :=
  match h : w.commandOf cfg inp with
  | some cmd => decidable_of_iff (w.applies cmd.op = true) (by rw [EventsOk, h])
  | none =>
    decidable_of_iff (if triggerTakes cfg w inp then w.offerPending = false ∧ w.fsm.state ≠ .active
      else (timesOut w inp.now = true → w.eventOwed = none ∧ w.fsm.state ≠ .byeSent) ∧
      ∀ msg ∈ (w.stepTimer cfg inp.now).datagramOf inp,
        Reports cfg (w.stepTimer cfg inp.now) msg = true →
          (w.stepTimer cfg inp.now).eventOwed = none ∧
            (kindOf msg = .bye → (w.stepTimer cfg inp.now).fsm.state = .active))
      (by rw [EventsOk, h])

instance (cfg : SipConfig) (w : SipWorld) (inp : SipInput) : Decidable (EventsStepOk cfg w inp) :=
  inferInstanceAs (Decidable (EventsOk cfg (w.facing inp) inp))

/-! ## Steps that report nothing -/

structure SameReports (w w' : SipWorld) : Prop where
  cid : w'.cid = w.cid
  offerPending : w'.offerPending = w.offerPending
  eventOwed : w'.eventOwed = w.eventOwed
  eventsSent : w'.eventsSent = w.eventsSent
  reports : w'.reports = w.reports
  begun : w'.begun = w.begun

theorem SameReports.refl (w : SipWorld) : SameReports w w := ⟨rfl, rfl, rfl, rfl, rfl, rfl⟩

theorem SameReports.trans {a b c : SipWorld} (h : SameReports a b) (h' : SameReports b c) :
    SameReports a c :=
  ⟨h'.cid.trans h.cid, h'.offerPending.trans h.offerPending, h'.eventOwed.trans h.eventOwed,
    h'.eventsSent.trans h.eventsSent, h'.reports.trans h.reports, h'.begun.trans h.begun⟩

theorem sameReports_stage (w : SipWorld) (bytes : Bytes) :
    SameReports w (w.stage bytes) ∧ (w.stage bytes).fsm = w.fsm := by
  unfold stage
  split_ifs <;> exact ⟨⟨rfl, rfl, rfl, rfl, rfl, rfl⟩, rfl⟩

theorem sameReports_build (cfg : SipConfig) (w : SipWorld) (msg : SipSend) :
    SameReports w (w.build cfg msg) ∧ (w.build cfg msg).fsm = w.fsm := by
  unfold build
  cases message (w.dialog cfg) msg with
  | none => exact ⟨SameReports.refl w, rfl⟩
  | some bytes =>
    obtain ⟨hs, hfsm⟩ := sameReports_stage w bytes
    exact ⟨⟨hs.cid, hs.offerPending, hs.eventOwed, hs.eventsSent, hs.reports, hs.begun⟩, hfsm⟩

theorem sameReports_buildRefusal (cfg : SipConfig) (w : SipWorld) (code : UInt16) :
    SameReports w (buildRefusal cfg w code) ∧ (buildRefusal cfg w code).fsm = w.fsm := by
  unfold buildRefusal
  exact sameReports_stage w _

theorem sameReports_sipFlush (w : SipWorld) : SameReports w w.sipFlush ∧ w.sipFlush.fsm = w.fsm := by
  unfold sipFlush
  split_ifs
  · exact ⟨SameReports.refl w, rfl⟩
  · split <;> exact ⟨⟨rfl, rfl, rfl, rfl, rfl, rfl⟩, rfl⟩

theorem sameReports_applySend (cfg : SipConfig) (w : SipWorld) (send : Option SipSend) :
    SameReports w (w.applySend cfg send) ∧ (w.applySend cfg send).fsm = w.fsm := by
  cases send with
  | none => exact ⟨SameReports.refl w, rfl⟩
  | some msg =>
    obtain ⟨hb, hfsm⟩ := sameReports_build cfg w msg
    have hp : SameReports w { w.build cfg msg with sipTxPending := true } :=
      ⟨hb.cid, hb.offerPending, hb.eventOwed, hb.eventsSent, hb.reports, hb.begun⟩
    obtain ⟨hf, hfsm'⟩ := sameReports_sipFlush { w.build cfg msg with sipTxPending := true }
    exact ⟨hp.trans hf, hfsm'.trans hfsm⟩

theorem sameReports_flushQueue (w : SipWorld) (queue : List CtrlCmd) :
    SameReports w (w.flushQueue queue) ∧ (w.flushQueue queue).fsm = w.fsm := by
  induction queue generalizing w with
  | nil => exact ⟨⟨rfl, rfl, rfl, rfl, rfl, rfl⟩, rfl⟩
  | cons cmd rest ih =>
    rw [flushQueue]
    split
    · rename_i answers _
      obtain ⟨hs, hfsm⟩ := ih { w with
        ctrlTaken := answers, ctrlSent := w.ctrlSent ++ [w.ctrlRecord cmd] }
      exact ⟨⟨hs.cid, hs.offerPending, hs.eventOwed, hs.eventsSent, hs.reports, hs.begun⟩, hfsm⟩
    · exact ⟨⟨rfl, rfl, rfl, rfl, rfl, rfl⟩, rfl⟩
    · exact ⟨⟨rfl, rfl, rfl, rfl, rfl, rfl⟩, rfl⟩

theorem sameReports_queueRtpCtrl (cfg : SipConfig) (w : SipWorld) (cmd : CtrlCmd) :
    SameReports w (w.queueRtpCtrl cfg cmd) ∧ (w.queueRtpCtrl cfg cmd).fsm = w.fsm := by
  unfold queueRtpCtrl
  by_cases hwired : (!cfg.rtpCtrlOut) = true
  · rw [if_pos hwired]
    exact ⟨SameReports.refl w, rfl⟩
  · rw [if_neg hwired]
    obtain ⟨hs, hfsm⟩ := sameReports_flushQueue { w with
      ctrlQueue := if w.ctrlQueue.length < CTRL_QUEUE then w.ctrlQueue ++ [cmd] else w.ctrlQueue
      asked := w.asked ++ [⟨cmd, w.peerRtpIp, w.peerRtpPort⟩] }
      (if w.ctrlQueue.length < CTRL_QUEUE then w.ctrlQueue ++ [cmd] else w.ctrlQueue)
    exact ⟨⟨hs.cid, hs.offerPending, hs.eventOwed, hs.eventsSent, hs.reports, hs.begun⟩, hfsm⟩

theorem sameReports_applyMedia (cfg : SipConfig) (w : SipWorld) (media : MediaCmd) :
    SameReports w (w.applyMedia cfg media) ∧ (w.applyMedia cfg media).fsm = w.fsm := by
  cases media with
  | none => exact ⟨SameReports.refl w, rfl⟩
  | stop => exact sameReports_queueRtpCtrl cfg w .stop
  | start =>
    obtain ⟨hs, hfsm⟩ := sameReports_queueRtpCtrl cfg w .setEndpoint
    obtain ⟨hs', hfsm'⟩ := sameReports_queueRtpCtrl cfg (w.queueRtpCtrl cfg .setEndpoint) .start
    exact ⟨hs.trans hs', hfsm'.trans hfsm⟩

theorem sameReports_apply (cfg : SipConfig) (w : SipWorld) (now : UInt64) (step : SipStep) :
    SameReports w (w.apply cfg now step) ∧ (w.apply cfg now step).fsm = w.fsm := by
  obtain ⟨hs, hfsm⟩ := sameReports_applySend cfg w step.send
  obtain ⟨hm, hfsm'⟩ := sameReports_applyMedia cfg (w.applySend cfg step.send) step.media
  have hboth := hs.trans hm
  unfold SipWorld.apply
  simp only
  split_ifs
  · exact ⟨⟨hboth.cid, hboth.offerPending, hboth.eventOwed, hboth.eventsSent, hboth.reports,
      hboth.begun⟩, hfsm'.trans hfsm⟩
  · exact ⟨hboth, hfsm'.trans hfsm⟩

theorem sameReports_feed (cfg : SipConfig) (w : SipWorld) (now : UInt64) (ev : SipEvent) :
    SameReports w (w.feed cfg now ev) ∧ (w.feed cfg now ev).fsm = (w.fsm.onEvent ev).1 := by
  obtain ⟨hs, hfsm⟩ := sameReports_apply cfg { w with fsm := (w.fsm.onEvent ev).1 } now
    (w.fsm.onEvent ev).2
  exact ⟨⟨hs.cid, hs.offerPending, hs.eventOwed, hs.eventsSent, hs.reports, hs.begun⟩, hfsm⟩

theorem ongoing_some (h : inProgress w = true) : ongoing w = some w.cid := if_pos h

theorem ongoing_none (h : inProgress w = false) : ongoing w = none := by
  rw [ongoing, h]
  rfl

theorem CallsFollowed.of_same {w w' : SipWorld} (h : CallsFollowed w) (hs : SameReports w w')
    (hp : inProgress w' = inProgress w) : CallsFollowed w' := by
  refine ⟨?_, ?_⟩
  · rw [hs.eventsSent, hs.eventOwed, hs.reports]
    exact h.delivered
  · rw [hs.reports, hs.begun, ongoing, hp, hs.cid]
    exact h.followed

structure Reported (w u : SipWorld) (r : SipEventRecord) : Prop where
  free : w.eventOwed = none
  eventOwed : u.eventOwed = some r
  eventsSent : u.eventsSent = w.eventsSent
  reports : u.reports = w.reports ++ [r]
  begun : u.begun = w.begun

theorem reported_emitEvent (event : SipEventKind) (code : UInt16)
    (hout : cfg.eventOut = true) (hfree : w.eventOwed = none) :
    Reported w (w.emitEvent cfg event code) (w.eventRecord event code) := by
  rw [emitEvent, if_neg (by rw [hout]; exact false_ne_true)]
  exact ⟨hfree, by rw [hfree]; rfl, rfl, rfl, rfl⟩

theorem Reported.behind {w u u' : SipWorld} (h : Reported u u' r) (hfree : w.eventOwed = none)
    (hs : SameReports w u) : Reported w u' r :=
  ⟨hfree, h.eventOwed, h.eventsSent.trans hs.eventsSent, h.reports.trans (congrArg (· ++ _) hs.reports),
    h.begun.trans hs.begun⟩

theorem Reported.of_same {w u u' : SipWorld} (h : Reported w u r) (hs : SameReports u u') : Reported w u' r :=
  ⟨h.free, hs.eventOwed.trans h.eventOwed, hs.eventsSent.trans h.eventsSent,
    hs.reports.trans h.reports, hs.begun.trans h.begun⟩

theorem emitEvent_frame (cfg : SipConfig) (w : SipWorld) (event : SipEventKind) (code : UInt16) :
    (w.emitEvent cfg event code).cid = w.cid ∧
      (w.emitEvent cfg event code).offerPending = w.offerPending ∧
      (w.emitEvent cfg event code).fsm = w.fsm := by
  unfold emitEvent
  split_ifs <;> exact ⟨rfl, rfl, rfl⟩

theorem Reported.delivered {w u : SipWorld} (hr : Reported w u r) (h : CallsFollowed w) : u.eventsSent ++ u.eventOwed.toList = u.reports := by
  have hsent : w.eventsSent = w.reports := by
    rw [← h.delivered, hr.free]
    exact (append_nil _).symm
  rw [hr.eventsSent, hr.eventOwed, hr.reports, hsent]
  rfl

theorem CallsFollowed.report {w u : SipWorld} (h : CallsFollowed w)
    (hr : Reported w u r) (hp : inProgress w = true) (hcid : r.cid = w.cid)
    (hterm : r.event.isTerminal = false) (hp' : inProgress u = true) (hcid' : u.cid = w.cid) :
    CallsFollowed u := by
  refine ⟨hr.delivered h, ?_⟩
  have hfollowed := h.followed
  rw [ongoing_some hp] at hfollowed
  rw [hr.reports, hr.begun, ongoing_some hp', hcid']
  exact hfollowed.report hcid hterm

theorem CallsFollowed.finish {w u : SipWorld} (h : CallsFollowed w)
    (hr : Reported w u r) (hp : inProgress w = true) (hcid : r.cid = w.cid)
    (hterm : r.event.isTerminal = true) (hp' : inProgress u = false) : CallsFollowed u := by
  refine ⟨hr.delivered h, ?_⟩
  have hfollowed := h.followed
  rw [ongoing_some hp] at hfollowed
  rw [hr.reports, hr.begun, ongoing_none hp']
  exact hfollowed.finish hcid hterm

theorem CallsFollowed.begin {w u : SipWorld} (h : CallsFollowed w) (hp : inProgress w = false)
    (cid : UInt32) (offer : Bool)
    (hs : SameReports { w.begins cid with offerPending := offer } u) (hp' : inProgress u = true) :
    CallsFollowed u := by
  refine ⟨?_, ?_⟩
  · rw [hs.eventsSent, hs.eventOwed, hs.reports]
    exact h.delivered
  · have hfollowed := h.followed
    rw [ongoing_none hp] at hfollowed
    rw [hs.reports, hs.begun, ongoing_some hp', hs.cid]
    exact hfollowed.begin cid

/-! ## One step -/

/-- An offer is held for an application only, and only while the dialog machine is
idle. -/
structure EventsInv (cfg : SipConfig) (w : SipWorld) : Prop extends CallsFollowed w where
  held : w.offerPending = true → cfg.commandIn = true ∧ w.fsm.state = .ready

theorem EventsInv.not_offered (h : EventsInv cfg w) (hq : w.fsm.state ≠ .ready) :
    w.offerPending = false :=
  eq_false_iff.mpr fun hoffer => hq (h.held hoffer).2

theorem inProgress_eq (w : SipWorld) {offer : Bool} (ho : w.offerPending = offer) (hq : w.fsm.state = state) :
    inProgress w =
      (offer || decide (state = .inviting) || decide (state = .waitAck) || decide (state = .active)) := by
  rw [inProgress, ho, hq]

theorem state_feed (w : SipWorld) {ev : SipEvent} (hq : w.fsm.state = state) :
    (w.feed cfg now ev).fsm.state = (SipDialogFsm.onEvent ⟨state, w.fsm.retransmitCount⟩ ev).1.state := by
  rw [(sameReports_feed cfg w now ev).2, ← hq]

theorem eventsInv_dial {w u : SipWorld} (h : EventsInv cfg w) (hq : w.fsm.state = .ready) (ho : w.offerPending = false)
    (hs : SameReports (w.begins cid) u) (hfsm : u.fsm = w.fsm) :
    EventsInv cfg (u.feed cfg now .localInvite) := by
  have hs' := hs.trans (sameReports_feed cfg u now .localInvite).1
  have ho' : (u.feed cfg now .localInvite).offerPending = false := hs'.offerPending.trans ho
  have hq' : (u.feed cfg now .localInvite).fsm.state = .inviting := state_feed u (hfsm ▸ hq)
  refine ⟨h.toCallsFollowed.begin (inProgress_eq w ho hq) cid w.offerPending hs' (inProgress_eq _ ho' hq'), ?_⟩
  intro hoffer
  rw [ho'] at hoffer
  cases hoffer

theorem eventsInv_accept {w u : SipWorld} (h : EventsInv cfg w)
    (ho : w.offerPending = true) (hs : SameReports { w with offerPending := false } u)
    (hfsm : u.fsm = w.fsm) : EventsInv cfg (u.feed cfg now (.rxInvite true)) := by
  have hq := (h.held ho).2
  have hs' := hs.trans (sameReports_feed cfg u now (.rxInvite true)).1
  have ho' : (u.feed cfg now (.rxInvite true)).offerPending = false := hs'.offerPending
  have hq' : (u.feed cfg now (.rxInvite true)).fsm.state = .waitAck := state_feed u (hfsm ▸ hq)
  have hfollowed := h.followed
  rw [ongoing_some (inProgress_eq w ho hq)] at hfollowed
  refine ⟨⟨?_, ?_⟩, ?_⟩
  · rw [hs'.eventsSent, hs'.eventOwed, hs'.reports]
    exact h.delivered
  · rw [hs'.reports, hs'.begun, ongoing_some (inProgress_eq _ ho' hq'), hs'.cid]
    exact hfollowed
  · intro hoffer
    rw [ho'] at hoffer
    cases hoffer

theorem SameReports.flushPending {w u : SipWorld} (h : SameReports w u) :
    SameReports w (sipFlush { u with sipTxPending := true }) ∧
      (sipFlush { u with sipTxPending := true }).fsm = u.fsm := by
  obtain ⟨hs, hfsm⟩ := sameReports_sipFlush { u with sipTxPending := true }
  refine ⟨SameReports.trans (b := { u with sipTxPending := true }) ?_ hs, hfsm⟩
  exact ⟨h.cid, h.offerPending, h.eventOwed, h.eventsSent, h.reports, h.begun⟩

theorem eventsInv_reject {w u : SipWorld}
    (hout : cfg.eventOut = true) (h : EventsInv cfg w) (hfree : w.eventOwed = none)
    (ho : w.offerPending = true) (hs : SameReports { w with offerPending := false } u)
    (hfsm : u.fsm = w.fsm) : EventsInv cfg { u.emitEvent cfg .declined code with cid := 0 } := by
  have hq := (h.held ho).2
  obtain ⟨-, hoe, hfe⟩ := emitEvent_frame cfg u .declined code
  have hr := reported_emitEvent .declined code hout (hs.eventOwed.trans hfree)
  have ho' : ({ u.emitEvent cfg .declined code with cid := 0 } : SipWorld).offerPending = false :=
    hoe.trans hs.offerPending
  have hq' : ({ u.emitEvent cfg .declined code with cid := 0 } : SipWorld).fsm.state = .ready := by
    show (u.emitEvent cfg .declined code).fsm.state = _
    rw [hfe, hfsm, hq]
  refine ⟨CallsFollowed.finish h.toCallsFollowed (r := u.eventRecord .declined code) ?_
    (inProgress_eq w ho hq) hs.cid rfl (inProgress_eq _ ho' hq'), fun _ => ⟨(h.held ho).1, hq'⟩⟩
  exact ⟨hfree, hr.eventOwed, hr.eventsSent.trans hs.eventsSent,
    hr.reports.trans (congrArg (· ++ _) hs.reports), hr.begun.trans hs.begun⟩

section

variable {w u u' : SipWorld} {event : SipEventKind} (hout : cfg.eventOut = true) (h : EventsInv cfg w)
  (hfree : w.eventOwed = none) (hp : inProgress w = true) (hq : w.fsm.state ≠ .ready) (hs : SameReports w u)
  (hs' : SameReports (u.emitEvent cfg event code) u')

include hout h hfree hq hs hs'

theorem reported_emitted : Reported w u' (u.eventRecord event code) ∧ u'.offerPending = false := by
  refine ⟨((reported_emitEvent event code hout (hs.eventOwed.trans hfree)).behind hfree hs).of_same hs', ?_⟩
  rw [hs'.offerPending, (emitEvent_frame cfg u event code).2.1, hs.offerPending, h.not_offered hq]

include hp

theorem eventsInv_ended (hterm : event.isTerminal = true)
    (hq' : u'.fsm.state = .ready ∨ u'.fsm.state = .byeSent) : EventsInv cfg u' := by
  obtain ⟨hr, ho'⟩ := reported_emitted hout h hfree hq hs hs'
  have hp' : inProgress u' = false := by
    rcases hq' with hq' | hq' <;> exact inProgress_eq _ ho' hq'
  exact ⟨CallsFollowed.finish h.toCallsFollowed hr hp hs.cid hterm hp', fun hoffer => by
    rw [ho'] at hoffer
    cases hoffer⟩

theorem eventsInv_reported (hterm : event.isTerminal = false)
    (hq' : u'.fsm.state = .inviting ∨ u'.fsm.state = .active) : EventsInv cfg u' := by
  obtain ⟨hr, ho'⟩ := reported_emitted hout h hfree hq hs hs'
  have hp' : inProgress u' = true := by
    rcases hq' with hq' | hq' <;> exact inProgress_eq _ ho' hq'
  refine ⟨CallsFollowed.report h.toCallsFollowed hr hp hs.cid hterm hp'
    (by rw [hs'.cid, (emitEvent_frame cfg u event code).1, hs.cid]), fun hoffer => ?_⟩
  rw [ho'] at hoffer
  cases hoffer

end

theorem EventsInv.forget (h : EventsInv cfg w) (hp : inProgress w = false) (cid : UInt32) :
    EventsInv cfg { w with cid := cid } := by
  refine ⟨⟨h.delivered, ?_⟩, h.held⟩
  have hfollowed := h.followed
  rw [ongoing_none hp] at hfollowed
  have hp' : inProgress { w with cid := cid } = false := hp
  rw [ongoing_none hp']
  exact hfollowed

theorem EventsInv.of_same {w w' : SipWorld} (h : EventsInv cfg w) (hs : SameReports w w')
    (hq : w'.fsm.state = w.fsm.state) : EventsInv cfg w' := by
  refine ⟨h.toCallsFollowed.of_same hs ?_, ?_⟩
  · rw [inProgress, inProgress, hs.offerPending, hq]
  · rw [hs.offerPending, hq]
    exact h.held

theorem inProgress_running (hq : w.fsm.state = state) (hstate : state = .inviting ∨ state = .waitAck ∨ state = .active) : inProgress w = true := by
  rw [inProgress_eq w rfl hq]
  rcases hstate with rfl | rfl | rfl <;> simp

theorem eventsInv_cancel (hout : cfg.eventOut = true)
    (h : EventsInv cfg w) (hfree : w.eventOwed = none) (hq : w.fsm.state = .inviting) :
    EventsInv cfg { mediaStop cfg { w.emitEvent cfg .localClosed 0 with fsm := {} } with cid := 0 } := by
  obtain ⟨hs, hfsm⟩ := sameReports_queueRtpCtrl cfg { w.emitEvent cfg .localClosed 0 with fsm := {} } .stop
  have hs' : SameReports (w.emitEvent cfg .localClosed 0)
      (mediaStop cfg { w.emitEvent cfg .localClosed 0 with fsm := {} }) :=
    ⟨hs.cid, hs.offerPending, hs.eventOwed, hs.eventsSent, hs.reports, hs.begun⟩
  have hq' : (mediaStop cfg { w.emitEvent cfg .localClosed 0 with fsm := {} }).fsm.state = .ready :=
    congrArg SipDialogFsm.state hfsm
  have hne : w.fsm.state ≠ .ready := by rw [hq]; exact SipState.noConfusion
  have hended := eventsInv_ended hout h hfree (inProgress_running hq (.inl rfl)) hne (SameReports.refl w)
    hs' rfl (.inl hq')
  have ho' : (mediaStop cfg { w.emitEvent cfg .localClosed 0 with fsm := {} }).offerPending = false := by
    rw [hs'.offerPending, (emitEvent_frame cfg w .localClosed 0).2.1]
    exact h.not_offered hne
  exact hended.forget (inProgress_eq _ ho' hq') 0

theorem eventsInv_hangup (hout : cfg.eventOut = true)
    (h : EventsInv cfg w) (hfree : w.eventOwed = none) (hq : w.fsm.state = .active) :
    EventsInv cfg (feed cfg (w.nextRequest.emitEvent cfg .localClosed 0) now .localBye) := by
  have hqe : (w.nextRequest.emitEvent cfg .localClosed 0).fsm.state = .active := by
    rw [(emitEvent_frame cfg w.nextRequest .localClosed 0).2.2]
    exact hq
  exact eventsInv_ended hout h hfree (inProgress_running hq (.inr (.inr rfl)))
    (by rw [hq]; exact SipState.noConfusion)
    (u := w.nextRequest) ⟨rfl, rfl, rfl, rfl, rfl, rfl⟩
    (sameReports_feed cfg _ now .localBye).1 rfl (.inr (state_feed _ hqe))

theorem eventsInv_handleCommand {cmd : SipCommand}
    (hout : cfg.eventOut = true) (h : EventsInv cfg w) (hfree : w.eventOwed = none)
    (happ : w.applies cmd.op = true) : EventsInv cfg (w.handleCommand cfg now cmd) := by
  unfold handleCommand
  rw [if_pos happ]
  cases hop : cmd.op <;> rw [hop] at happ
  case dial =>
    obtain ⟨hq, ho⟩ := and_eq_true_iff.mp happ
    exact eventsInv_dial h (of_decide_eq_true hq) (Bool.not_eq_true' _ ▸ ho)
      ⟨rfl, rfl, rfl, rfl, rfl, rfl⟩ rfl
  case accept =>
    refine eventsInv_accept h happ ?_ rfl
    exact ⟨rfl, rfl, rfl, rfl, rfl, rfl⟩
  case reject =>
    simp only
    generalize (if cmd.code = 0 then 603 else cmd.code) = code
    obtain ⟨hs, hfsm⟩ := sameReports_buildRefusal cfg { w with offerPending := false } code
    obtain ⟨hs', hfsm'⟩ := hs.flushPending
    exact eventsInv_reject hout h hfree happ hs' (hfsm'.trans hfsm)
  case hangup => exact eventsInv_hangup hout h hfree (of_decide_eq_true happ)
  case cancel => exact eventsInv_cancel hout h hfree (of_decide_eq_true happ)

theorem eventsInv_stepTrigger {w w' : SipWorld} (h : EventsInv cfg w)
    (ho : w.offerPending = false) (hq : w.fsm.state ≠ .active)
    (hstep : w.stepTrigger cfg now = some w') : EventsInv cfg w' := by
  unfold stepTrigger at hstep
  cases hstate : w.fsm.state <;> rw [hstate] at hstep
  case ready =>
    obtain rfl := Option.some.inj hstep
    exact eventsInv_dial h hstate ho ⟨rfl, rfl, rfl, rfl, rfl, rfl⟩ rfl
  case active => exact absurd hstate hq
  all_goals cases hstep

theorem onEvent_timeout (f : SipDialogFsm) (hf : f.state.retransmits = true) :
    f.onEvent .timeout = f.onTimeout := by
  obtain ⟨state, count⟩ := f
  cases state <;> first | rfl | cases hf

theorem retransmits_cases (h : state.retransmits = true) :
    state = .inviting ∨ state = .waitAck ∨ state = .byeSent := by
  cases state <;> simp_all [SipState.retransmits]

theorem eventsInv_stepTimer (hout : cfg.eventOut = true) (h : EventsInv cfg w)
    (hok : timesOut w now = true → w.eventOwed = none ∧ w.fsm.state ≠ .byeSent) :
    EventsInv cfg (w.stepTimer cfg now) := by
  unfold stepTimer
  by_cases hdue : w.timerDue now = true
  swap
  · rw [if_neg hdue]
    exact h
  rw [if_pos hdue]
  have hstate : w.fsm.state.retransmits = true := (and_eq_true_iff.mp hdue).1
  rw [onEvent_timeout w.fsm hstate, SipDialogFsm.onTimeout]
  by_cases hlimit : w.fsm.retransmitCount ≥ SIP_MAX_RETRANSMIT
  · -- The call is given up, and its end is reported.
    rw [if_pos hlimit]
    obtain ⟨hfree, hbye⟩ := hok (by rw [timesOut, hdue, decide_eq_true hlimit]; rfl)
    have hne : w.fsm.state ≠ .ready := fun hready => by rw [hready] at hstate; cases hstate
    have hp : inProgress w = true := by
      rcases retransmits_cases hstate with hq | hq | hq
      · exact inProgress_running hq (.inl rfl)
      · exact inProgress_running hq (.inr (.inl rfl))
      · exact absurd hq hbye
    simp only
    rw [if_pos ⟨trivial, hne.symm⟩]
    generalize hu : ({ w with fsm := { w.fsm with state := .ready } } : SipWorld) = u
    have hs : SameReports w u := by
      subst hu
      exact ⟨rfl, rfl, rfl, rfl, rfl, rfl⟩
    have hqu : u.fsm.state = .ready := by rw [← hu]
    obtain ⟨hs', hfsm⟩ := sameReports_apply cfg (u.emitEvent cfg .timeout 0) now {}
    refine eventsInv_ended hout h hfree hp hne hs hs' rfl (.inl ?_)
    rw [hfsm, (emitEvent_frame cfg u .timeout 0).2.2, hqu]
  · rw [if_neg hlimit]
    simp only
    rw [if_neg (by simp)]
    generalize hu : ({ w with
        fsm := { w.fsm with retransmitCount := w.fsm.retransmitCount + 1 } } : SipWorld) = u
    have hs : SameReports w u := by
      subst hu
      exact ⟨rfl, rfl, rfl, rfl, rfl, rfl⟩
    obtain ⟨hs', hfsm⟩ := sameReports_apply cfg u now { send := some .retransmit, resetTimer := true }
    exact h.of_same (hs.trans hs') (by rw [hfsm, ← hu])

theorem eventsInv_holdOffer {w u : SipWorld} (hcmd : cfg.commandIn = true) (hout : cfg.eventOut = true)
    (h : EventsInv cfg w) (hs : SameReports w u) (hfsm : u.fsm = w.fsm)
    (hfree : (!u.offerPending && decide (u.fsm.state = .ready)) = true → w.eventOwed = none) :
    EventsInv cfg (u.holdOffer cfg) := by
  unfold holdOffer
  by_cases hcond : (!u.offerPending && decide (u.fsm.state = .ready)) = true
  swap
  · rw [if_neg hcond]
    exact h.of_same hs (by rw [hfsm])
  rw [if_pos hcond]
  obtain ⟨ho, hq⟩ := and_eq_true_iff.mp hcond
  rw [Bool.not_eq_true'] at ho
  have hq : u.fsm.state = .ready := of_decide_eq_true hq
  have hu : EventsInv cfg u := h.of_same hs (by rw [hfsm])
  generalize hv : ({ u.begins (u.cidCounter + 1) with
      cidCounter := u.cidCounter + 1
      offerPending := true } : SipWorld) = v
  have hvo : v.offerPending = true := by rw [← hv]
  have hvq : v.fsm.state = .ready := by rw [← hv]; exact hq
  have hvf : v.eventOwed = none := by rw [← hv]; exact hs.eventOwed.trans (hfree hcond)
  have hvp : inProgress v = true := inProgress_eq v hvo hvq
  have hbegun : CallsFollowed v := by
    refine hu.toCallsFollowed.begin (inProgress_eq u ho hq) (u.cidCounter + 1) true ?_ hvp
    subst hv
    exact ⟨rfl, rfl, rfl, rfl, rfl, rfl⟩
  obtain ⟨hce, hoe, hfe⟩ := emitEvent_frame cfg v .offered 0
  have hq' : (v.emitEvent cfg .offered 0).fsm.state = .ready := by rw [hfe, hvq]
  exact ⟨hbegun.report (reported_emitEvent .offered 0 hout hvf) hvp rfl rfl
    (inProgress_eq _ (hoe.trans hvo) hq') hce, fun _ => ⟨hcmd, hq'⟩⟩

theorem sameReports_adoptAnswer (w : SipWorld) (msg : Bytes) :
    SameReports w (w.adoptAnswer msg) ∧ (w.adoptAnswer msg).fsm = w.fsm := by
  unfold adoptAnswer
  split <;> exact ⟨⟨rfl, rfl, rfl, rfl, rfl, rfl⟩, rfl⟩

theorem eventsInv_feed_idle {ev : SipEvent} (h : EventsInv cfg w) (hstate : (w.fsm.onEvent ev).1.state = w.fsm.state) :
    EventsInv cfg (w.feed cfg now ev) := by
  obtain ⟨hs, hfsm⟩ := sameReports_feed cfg w now ev
  exact h.of_same hs (by rw [hfsm, hstate])

theorem onEvent_rxAck_idle (h : f.state ≠ .waitAck) :
    (f.onEvent .rxAck).1.state = f.state := by
  obtain ⟨state, count⟩ := f
  cases state
  case waitAck => exact absurd rfl h
  all_goals rfl

theorem onEvent_rxInvite_idle {answer : Bool} (h : ¬(f.state = .ready ∧ answer = true)) : (f.onEvent (.rxInvite answer)).1.state = f.state := by
  obtain ⟨state, count⟩ := f
  cases state <;> cases answer
  case ready.true => exact absurd ⟨rfl, rfl⟩ h
  all_goals rfl

theorem eventsInv_answer (h : EventsInv cfg w) (ho : w.offerPending = false) :
    EventsInv cfg ((w.answerOffer cfg).feed cfg now (.rxInvite cfg.autoAnswer)) := by
  unfold answerOffer
  by_cases hcond : (decide (w.fsm.state = .ready) && cfg.autoAnswer) = true
  · rw [if_pos hcond]
    obtain ⟨hq, hauto⟩ := and_eq_true_iff.mp hcond
    have hq : w.fsm.state = .ready := of_decide_eq_true hq
    rw [hauto]
    have hs := (sameReports_feed cfg (w.begins w.cid) now (.rxInvite true)).1
    have ho' := hs.offerPending.trans ho
    have hq' : ((w.begins w.cid).feed cfg now (.rxInvite true)).fsm.state = .waitAck :=
      state_feed (w.begins w.cid) hq
    refine ⟨h.toCallsFollowed.begin (inProgress_eq w ho hq) w.cid w.offerPending hs
      (inProgress_eq _ ho' hq'), fun hoffer => ?_⟩
    rw [ho'] at hoffer
    cases hoffer
  · rw [if_neg hcond]
    refine eventsInv_feed_idle h (onEvent_rxInvite_idle ?_)
    rintro ⟨hq, hauto⟩
    exact hcond (by rw [hq, hauto]; rfl)

theorem eventsInv_ack (hout : cfg.eventOut = true)
    (h : EventsInv cfg w) (hfree : w.fsm.state = .waitAck → w.eventOwed = none) :
    EventsInv cfg ((if w.fsm.state = .waitAck then w.emitEvent cfg .established 200 else w).feed cfg now
      .rxAck) := by
  by_cases hq : w.fsm.state = .waitAck
  · rw [if_pos hq]
    have hqe : (w.emitEvent cfg .established 200).fsm.state = .waitAck := by
      rw [(emitEvent_frame cfg w .established 200).2.2, hq]
    exact eventsInv_reported hout h (hfree hq) (inProgress_running hq (.inr (.inl rfl)))
      (by rw [hq]; exact SipState.noConfusion) (SameReports.refl w)
      (sameReports_feed cfg _ now .rxAck).1 rfl (.inr (state_feed _ hqe))
  · rw [if_neg hq]
    exact eventsInv_feed_idle h (onEvent_rxAck_idle hq)

theorem eventsInv_bye (hout : cfg.eventOut = true)
    (h : EventsInv cfg w) (hfree : w.eventOwed = none) (hq : w.fsm.state = .active) :
    EventsInv cfg ((w.emitEvent cfg .remoteHangup 0).feed cfg now .rxBye) := by
  have hqe : (w.emitEvent cfg .remoteHangup 0).fsm.state = .active := by
    rw [(emitEvent_frame cfg w .remoteHangup 0).2.2, hq]
  exact eventsInv_ended hout h hfree (inProgress_running hq (.inr (.inr rfl)))
    (by rw [hq]; exact SipState.noConfusion) (SameReports.refl w)
    (sameReports_feed cfg _ now .rxBye).1 rfl (.inl (state_feed _ hqe))

theorem onEvent_rxResponse_idle (h : f.state ≠ .inviting) :
    (f.onEvent (.rxResponse code)).1.state = f.state ∨
      f.state = .byeSent ∧ (f.onEvent (.rxResponse code)).1.state = .ready := by
  obtain ⟨state, count⟩ := f
  cases state
  case inviting => exact absurd rfl h
  case byeSent =>
    by_cases hcode : code ≥ 200
    · exact .inr ⟨rfl, by simp only [SipDialogFsm.onEvent.eq_def, SipDialogFsm.onByeResponse, if_pos hcode]⟩
    · exact .inl (by simp only [SipDialogFsm.onEvent.eq_def, SipDialogFsm.onByeResponse, if_neg hcode])
  all_goals exact .inl rfl

theorem onEvent_rxResponse_inviting (h : f.state = .inviting) (hcode : 100 ≤ code) :
    ((responseEvent code).isTerminal = true → (f.onEvent (.rxResponse code)).1.state = .ready) ∧
      ((responseEvent code).isTerminal = false → (f.onEvent (.rxResponse code)).1.state = .inviting ∨
        (f.onEvent (.rxResponse code)).1.state = .active) := by
  obtain ⟨state, count⟩ := f
  obtain rfl : state = .inviting := h
  simp only [SipDialogFsm.onEvent.eq_def, SipDialogFsm.onInviteResponse, responseEvent]
  by_cases hprov : code < 200
  · simp [hprov, hcode, SipEventKind.isTerminal]
  have hlow : 200 ≤ code := UInt16.not_lt.mp hprov
  by_cases hok : code < 300
  · simp [hprov, hok, hlow, SipEventKind.isTerminal]
  · simp [hprov, hok, UInt16.not_lt.mp hok, SipEventKind.isTerminal]

theorem eventsInv_response (hcode : 100 ≤ code) (hout : cfg.eventOut = true) (h : EventsInv cfg w)
    (hfree : w.fsm.state = .inviting → w.eventOwed = none) :
    EventsInv cfg ((if w.fsm.state = .inviting then
        (if 200 ≤ code ∧ code < 300 then w.adoptAnswer msg else w).emitEvent cfg
          (responseEvent code) code
      else w).feed cfg now (.rxResponse code)) := by
  by_cases hq : w.fsm.state = .inviting
  · rw [if_pos hq]
    obtain ⟨u, hu⟩ : ∃ u, u = if 200 ≤ code ∧ code < 300 then w.adoptAnswer msg else w := ⟨_, rfl⟩
    have hs : SameReports w u ∧ u.fsm = w.fsm := by
      rw [hu]
      split_ifs
      · exact sameReports_adoptAnswer w msg
      · exact ⟨SameReports.refl w, rfl⟩
    rw [← hu]
    have hp := inProgress_running hq (.inl rfl)
    have hne : w.fsm.state ≠ .ready := by rw [hq]; exact SipState.noConfusion
    obtain ⟨hs', hfsm⟩ := sameReports_feed cfg (u.emitEvent cfg (responseEvent code) code) now
      (.rxResponse code)
    rw [(emitEvent_frame cfg u (responseEvent code) code).2.2, hs.2] at hfsm
    have hmove := onEvent_rxResponse_inviting hq hcode
    rw [← hfsm] at hmove
    cases hterm : (responseEvent code).isTerminal
    · exact eventsInv_reported hout h (hfree hq) hp hne hs.1 hs' hterm (hmove.2 hterm)
    · exact eventsInv_ended hout h (hfree hq) hp hne hs.1 hs' hterm (.inl (hmove.1 hterm))
  · rw [if_neg hq]
    rcases onEvent_rxResponse_idle hq with hsame | ⟨hbye, hready⟩
    · exact eventsInv_feed_idle h hsame
    · obtain ⟨hs, hfsm⟩ := sameReports_feed cfg w now (.rxResponse code)
      have ho : w.offerPending = false := h.not_offered (by rw [hbye]; exact SipState.noConfusion)
      have hready' : (w.feed cfg now (.rxResponse code)).fsm.state = .ready := by rw [hfsm, hready]
      refine ⟨h.toCallsFollowed.of_same hs ?_, fun hoffer => ?_⟩
      swap
      · rw [hs.offerPending, ho] at hoffer
        cases hoffer
      rw [inProgress_eq w ho hbye, inProgress_eq _ (hs.offerPending.trans ho) hready']
      rfl

theorem kindOf_response (h : kindOf msg = .response code) :
    100 ≤ code := by
  unfold kindOf at h
  split_ifs at h with _ _ _ hcode
  · split at h <;> cases h
  · cases h
    exact hcode

theorem eventsInv_receive (hout : cfg.eventOut = true) (h : EventsInv cfg w) (hok : Reports cfg w msg = true →
      w.eventOwed = none ∧ (kindOf msg = .bye → w.fsm.state = .active)) :
    EventsInv cfg (w.receive cfg now msg) := by
  unfold receive classifyAndExtract
  unfold Reports at hok
  cases hk : kindOf msg with
  | invite ep =>
    simp only [hk] at hok ⊢
    have hs : SameReports w (w.adoptOffer msg ep) := ⟨rfl, rfl, rfl, rfl, rfl, rfl⟩
    by_cases hcmd : cfg.commandIn = true
    · rw [if_pos hcmd]
      refine eventsInv_holdOffer hcmd hout h hs rfl fun hcond => (hok ?_).1
      rw [hcmd, Bool.true_and]
      exact hcond
    · rw [if_neg hcmd]
      refine eventsInv_answer (h.of_same hs rfl) ?_
      exact eq_false_iff.mpr fun hoffer => hcmd (h.held hoffer).1
  | ack =>
    simp only [hk] at hok ⊢
    exact eventsInv_ack hout h fun hq => (hok (decide_eq_true hq)).1
  | bye =>
    obtain ⟨hfree, hq⟩ := hok (by rw [hk])
    exact eventsInv_bye hout h hfree (hq hk)
  | response code =>
    simp only [hk] at hok ⊢
    exact eventsInv_response (kindOf_response hk) hout h fun hq => (hok (decide_eq_true hq)).1
  | other => exact h

theorem eventsInv_stepSip {inp : SipInput} (hout : cfg.eventOut = true) (h : EventsInv cfg w) (hok : EventsOk cfg w inp) :
    EventsInv cfg (w.stepSip cfg inp) := by
  unfold stepSip
  by_cases hbind : (!w.sipBound || decide (w.sipEpId = 0xFF)) = true
  · rw [if_pos hbind]
    unfold stepBind
    split_ifs
    · exact h.of_same ⟨rfl, rfl, rfl, rfl, rfl, rfl⟩ rfl
    · split
      · split_ifs
        · exact h.of_same ⟨rfl, rfl, rfl, rfl, rfl, rfl⟩ rfl
        · exact h
      · exact h
  rw [if_neg hbind]
  unfold EventsOk at hok
  cases hcmd : w.commandOf cfg inp with
  | some cmd =>
    rw [hcmd] at hok
    -- A command is read only when no event waits.
    have hfree : w.eventOwed = none := by
      unfold commandOf at hcmd
      split_ifs at hcmd with hread
      exact of_decide_eq_true (and_eq_true_iff.mp hread).2
    exact eventsInv_handleCommand hout h hfree hok
  | none =>
    rw [hcmd] at hok
    simp only
    by_cases ht : triggerTakes cfg w inp = true
    · rw [if_pos ht] at hok
      obtain ⟨w', hstep, htaken⟩ := trigger_some ht
      rw [htaken]
      exact eventsInv_stepTrigger h hok.1 hok.2 hstep
    · rw [if_neg ht] at hok
      rw [trigger_none (eq_false_iff.mpr ht)]
      have ht := eventsInv_stepTimer hout h hok.1
      simp only
      unfold stepInbound
      cases hd : (w.stepTimer cfg inp.now).datagramOf inp with
      | none => exact ht
      | some msg => exact eventsInv_receive hout ht (hok.2 msg (by rw [hd]; rfl))

theorem eventsInv_flushEvent (taken : Bool) (hout : cfg.eventOut = true) (h : EventsInv cfg w) :
    EventsInv cfg (w.flushEvent cfg taken) ∧
      (taken = true → (w.flushEvent cfg taken).eventsSent = (w.flushEvent cfg taken).reports) := by
  unfold flushEvent
  have hdelivered := h.delivered
  cases howed : w.eventOwed with
  | none =>
    refine ⟨h, fun _ => ?_⟩
    rw [howed, Option.toList_none, append_nil] at hdelivered
    exact hdelivered
  | some r =>
    rw [howed, Option.toList_some] at hdelivered
    cases taken with
    | false =>
      simp only [hout, Bool.and_false, false_eq_true, if_false]
      exact ⟨h, nofun⟩
    | true =>
      simp only [hout, Bool.and_self, if_true]
      refine ⟨⟨⟨?_, h.followed⟩, h.held⟩, fun _ => hdelivered⟩
      rw [Option.toList_none, append_nil]
      exact hdelivered

theorem eventsInv_step {inp : SipInput}
    (hout : cfg.eventOut = true) (h : EventsInv cfg w) (hok : EventsStepOk cfg w inp) :
    EventsInv cfg (w.moduleStep cfg inp) ∧
      (inp.eventTaken = true → (w.moduleStep cfg inp).eventsSent = (w.moduleStep cfg inp).reports) := by
  have hfacing : EventsInv cfg (w.facing inp) := h.of_same ⟨rfl, rfl, rfl, rfl, rfl, rfl⟩ rfl
  have hstep := eventsInv_stepSip hout hfacing hok
  obtain ⟨hs, hfsm⟩ := sameReports_sipFlush ((w.facing inp).stepSip cfg inp)
  obtain ⟨hs', hfsm'⟩ := sameReports_flushQueue ((w.facing inp).stepSip cfg inp).sipFlush
    ((w.facing inp).stepSip cfg inp).sipFlush.ctrlQueue
  have hflushed := hstep.of_same (hs.trans hs') (by rw [hfsm', hfsm])
  exact eventsInv_flushEvent inp.eventTaken hout hflushed

theorem eventsInv_init (cfg : SipConfig) (start : SipStart) : EventsInv cfg start.world :=
  ⟨⟨rfl, Followed.init⟩, nofun⟩

/-- In every run whose steps meet the condition, the reports are the calls in order, each with its ending last,
written or staged; a channel that takes events leaves none behind. -/
theorem calls_followed (cfg : SipConfig) (hout : cfg.eventOut = true) (start : SipStart)
    (inputs : List SipInput) (hal : (sipMachine cfg).Along (EventsStepOk cfg) start.world inputs) :
    CallsFollowed ((sipMachine cfg).run start.world inputs).1 ∧
      ∀ inp, EventsStepOk cfg ((sipMachine cfg).run start.world inputs).1 inp →
        inp.eventTaken = true →
          ((sipMachine cfg).run start.world (inputs ++ [inp])).1.eventsSent =
            ((sipMachine cfg).run start.world (inputs ++ [inp])).1.reports := by
  have hinv : EventsInv cfg ((sipMachine cfg).run start.world inputs).1 :=
    (sipMachine cfg).run_invariant (I := EventsInv cfg)
      (fun _ _ h hok => (eventsInv_step hout h hok).1) (eventsInv_init cfg start) hal
  refine ⟨hinv.toCallsFollowed, fun inp hok htaken => ?_⟩
  rw [Machine.run_concat]
  exact (eventsInv_step hout hinv hok).2 htaken

def driven : SipConfig := { answering with commandIn := true, eventOut := true, autoAnswer := false }

def ask (op : UInt8) (cid : UInt8) : SipInput := { command := some [op, cid], ctrlTaken := [true, true] }

def ackHeard : SipInput := hear 10 (ascii "ACK sip:a SIP/2.0\r\n")

def byeHeard : SipInput := hear 20 (ascii "BYE sip:a SIP/2.0\r\n")

/-- An offered call that is accepted, established while `event_out` refuses, and closed. -/
def drivenCall : List SipInput :=
  binding ++ [hear 0 sampleInvite, ask 0x91 1, { ackHeard with eventTaken := false }, {}, ask 0x93 1]

theorem calls_followed_driven_call :
    ((sipMachine driven).run sampleStart.world drivenCall).1.eventsSent =
        [⟨1, .offered, 0, 0x0A000002, 4000, 0⟩, ⟨1, .established, 200, 0x0A000002, 4000, 0⟩,
          ⟨1, .localClosed, 0, 0x0A000002, 4000, 0⟩] ∧
      CallsFollowed ((sipMachine driven).run sampleStart.world drivenCall).1 :=
  ⟨by decide +kernel, (calls_followed driven rfl sampleStart drivenCall (by decide +kernel)).1⟩

/-- The peer hangs up while the report that the call was established still waits. -/
def heldReport : List SipInput :=
  binding ++ [hear 0 sampleInvite, ask 0x91 1, { ackHeard with eventTaken := false },
    { byeHeard with eventTaken := false }, {}]

/-- The hang-up's report is lost; a `BYE` out of nowhere is reported as the end of a call there never was. -/
theorem hangup_report_lost :
    (((sipMachine driven).run sampleStart.world heldReport).1.eventsSent =
        [⟨1, .offered, 0, 0x0A000002, 4000, 0⟩, ⟨1, .established, 200, 0x0A000002, 4000, 0⟩] ∧
      ((sipMachine driven).run sampleStart.world heldReport).1.eventOwed = none ∧
      ((sipMachine driven).run sampleStart.world heldReport).1.fsm.state = .ready ∧
      ¬CallsFollowed ((sipMachine driven).run sampleStart.world heldReport).1) ∧
    ((sipMachine driven).run sampleStart.world (binding ++ [byeHeard])).1.eventsSent =
        [⟨0, .remoteHangup, 0, 0, 0, 0xFF⟩] ∧
      ¬CallsFollowed ((sipMachine driven).run sampleStart.world (binding ++ [byeHeard])).1 := by
  have hheld : ((sipMachine driven).run sampleStart.world heldReport).1.eventsSent =
        [⟨1, .offered, 0, 0x0A000002, 4000, 0⟩, ⟨1, .established, 200, 0x0A000002, 4000, 0⟩] ∧
      ((sipMachine driven).run sampleStart.world heldReport).1.eventOwed = none ∧
      ((sipMachine driven).run sampleStart.world heldReport).1.fsm.state = .ready ∧
      ((sipMachine driven).run sampleStart.world heldReport).1.reports.length = 3 := by
    decide +kernel
  have hstray : ((sipMachine driven).run sampleStart.world (binding ++ [byeHeard])).1.eventsSent =
        [⟨0, .remoteHangup, 0, 0, 0, 0xFF⟩] ∧
      ((sipMachine driven).run sampleStart.world (binding ++ [byeHeard])).1.reports =
        [⟨0, .remoteHangup, 0, 0, 0, 0xFF⟩] ∧
      ((sipMachine driven).run sampleStart.world (binding ++ [byeHeard])).1.begun = [] := by
    decide +kernel
  obtain ⟨hsent, howed, hready, hlength⟩ := hheld
  obtain ⟨hstray, hreports, hbegun⟩ := hstray
  refine ⟨⟨hsent, howed, hready, fun h => ?_⟩, hstray, fun h => ?_⟩
  · rw [← h.delivered, hsent, howed] at hlength
    cases hlength
  · obtain ⟨ended, current, hr, hb, -, hcurrent⟩ := h.followed
    rw [hbegun] at hb
    obtain ⟨hended, hongoing⟩ := append_eq_nil_iff.mp hb.symm
    obtain rfl := map_eq_nil_iff.mp hended
    rw [Option.toList_eq_nil_iff.mp hongoing] at hcurrent
    rw [hreports, show current = [] from hcurrent] at hr
    cases hr

end Wave.Sip
