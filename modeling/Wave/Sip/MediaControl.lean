import Wave.Sip.Module

/-! # Media commands follow the dialog

`asked` has the commands the transitions ask for (`media_ordered`). -/

namespace Wave.Sip

open Lib Common SipWorld

variable {inp : SipInput}

variable {cfg : SipConfig} {w : SipWorld} {now : UInt64} {ev : SipEvent}

def mediaGroup : List CtrlCmd := [.setEndpoint, .start, .stop]

def mediaGroups (n : Nat) : List CtrlCmd := (List.replicate n mediaGroup).flatten

def openGroup (cfg : SipConfig) (w : SipWorld) : List CtrlCmd :=
  if cfg.rtpCtrlOut && w.fsm.state.running then [CtrlCmd.setEndpoint, .start] else []

structure MediaOrdered (cfg : SipConfig) (w : SipWorld) : Prop where
  kept : w.ctrlSent.map (·.cmd) ++ w.ctrlQueue = w.asked.map (·.cmd)
  grouped : ∃ n, w.asked.map (·.cmd) = mediaGroups n ++ openGroup cfg w

/-- The queue takes what a command asks for. A fourth entry leaves room for another only once one was taken. -/
def Room (cfg : SipConfig) (w : SipWorld) (answers : List Bool) : MediaCmd → Prop
  | .none => True
  | .stop => cfg.rtpCtrlOut = true → w.ctrlQueue.length < CTRL_QUEUE
  | .start => cfg.rtpCtrlOut = true → w.ctrlQueue.length + 2 ≤ CTRL_QUEUE ∨
      w.ctrlQueue.length + 1 = CTRL_QUEUE ∧ answers.head? = some true

instance (cfg : SipConfig) (w : SipWorld) (answers : List Bool) (m : MediaCmd) :
    Decidable (Room cfg w answers m) :=
  match m with
  | .none => isTrue trivial
  | .stop | .start => inferInstanceAs (Decidable (_ → _))

def opEvent : SipOp → Option SipEvent
  | .dial => some .localInvite
  | .accept => some (.rxInvite true)
  | .hangup => some .localBye
  | .reject | .cancel => none

def eventOf (cfg : SipConfig) (msg : Bytes) : Option SipEvent :=
  match kindOf msg with
  | .invite _ => if cfg.commandIn then none else some (.rxInvite cfg.autoAnswer)
  | .ack => some .rxAck
  | .bye => some .rxBye
  | .response code => some (.rxResponse code)
  | .other => none

def triggerEvent : SipState → Option SipEvent
  | .ready => some .localInvite
  | .active => some .localBye
  | _ => none

/-- The step is the trigger's: neither the timer nor a datagram has part in it. -/
def triggerTakes (cfg : SipConfig) (w : SipWorld) (inp : SipInput) : Bool :=
  cfg.callCtrlIn && inp.trigger && (triggerEvent w.fsm.state).isSome

def AnswerAcked (w : SipWorld) (now : UInt64) : Prop :=
  w.timerDue now = true → w.fsm.state = .waitAck → w.fsm.retransmitCount < SIP_MAX_RETRANSMIT

def RoomOn (cfg : SipConfig) (w : SipWorld) (answers : List Bool) (ev : Option SipEvent) : Prop :=
  ∀ e ∈ ev, Room cfg w answers (w.fsm.onEvent e).2.media

instance (cfg : SipConfig) (w : SipWorld) (answers : List Bool) (ev : Option SipEvent) :
    Decidable (RoomOn cfg w answers ev) :=
  inferInstanceAs (Decidable (∀ e ∈ ev, _))

def MediaOk (cfg : SipConfig) (w : SipWorld) (inp : SipInput) : Prop :=
  match w.commandOf cfg inp with
  | some cmd => w.applies cmd.op = true →
      (cmd.op = .cancel → cfg.rtpCtrlOut = false) ∧ RoomOn cfg w w.ctrlTaken (opEvent cmd.op)
  | none =>
    if triggerTakes cfg w inp then RoomOn cfg w w.ctrlTaken (triggerEvent w.fsm.state)
    else
      AnswerAcked w inp.now ∧
      ∀ msg ∈ (w.stepTimer cfg inp.now).datagramOf inp,
        RoomOn cfg (w.stepTimer cfg inp.now) w.ctrlTaken (eventOf cfg msg)

def MediaStepOk (cfg : SipConfig) (w : SipWorld) (inp : SipInput) : Prop :=
  MediaOk cfg (w.facing inp) inp

instance (w : SipWorld) (now : UInt64) : Decidable (AnswerAcked w now) :=
  inferInstanceAs (Decidable (_ → _ → _))

instance (cfg : SipConfig) (w : SipWorld) (inp : SipInput) : Decidable (MediaOk cfg w inp) :=
  match h : w.commandOf cfg inp with
  | some cmd =>
    decidable_of_iff (w.applies cmd.op = true → (cmd.op = .cancel → cfg.rtpCtrlOut = false) ∧
      RoomOn cfg w w.ctrlTaken (opEvent cmd.op)) (by rw [MediaOk, h])
  | none =>
    decidable_of_iff (if triggerTakes cfg w inp then RoomOn cfg w w.ctrlTaken (triggerEvent w.fsm.state)
      else AnswerAcked w inp.now ∧ ∀ msg ∈ (w.stepTimer cfg inp.now).datagramOf inp,
        RoomOn cfg (w.stepTimer cfg inp.now) w.ctrlTaken (eventOf cfg msg)) (by rw [MediaOk, h])

instance (cfg : SipConfig) (w : SipWorld) (inp : SipInput) : Decidable (MediaStepOk cfg w inp) :=
  inferInstanceAs (Decidable (MediaOk cfg (w.facing inp) inp))

structure SameMedia (w w' : SipWorld) : Prop where
  fsm : w'.fsm = w.fsm
  ctrlQueue : w'.ctrlQueue = w.ctrlQueue
  ctrlSent : w'.ctrlSent = w.ctrlSent
  asked : w'.asked = w.asked
  ctrlTaken : w'.ctrlTaken = w.ctrlTaken

theorem SameMedia.refl (w : SipWorld) : SameMedia w w := ⟨rfl, rfl, rfl, rfl, rfl⟩

theorem SameMedia.trans {a b c : SipWorld} (h : SameMedia a b) (h' : SameMedia b c) :
    SameMedia a c :=
  ⟨h'.fsm.trans h.fsm, h'.ctrlQueue.trans h.ctrlQueue, h'.ctrlSent.trans h.ctrlSent,
    h'.asked.trans h.asked, h'.ctrlTaken.trans h.ctrlTaken⟩

theorem sameMedia_stage (w : SipWorld) (bytes : Bytes) : SameMedia w (w.stage bytes) := by
  unfold stage
  split_ifs <;> exact ⟨rfl, rfl, rfl, rfl, rfl⟩

theorem sameMedia_build (cfg : SipConfig) (w : SipWorld) (msg : SipSend) :
    SameMedia w (w.build cfg msg) := by
  unfold build
  cases message (w.dialog cfg) msg with
  | none => exact SameMedia.refl w
  | some bytes =>
    have hs := sameMedia_stage w bytes
    exact ⟨hs.fsm, hs.ctrlQueue, hs.ctrlSent, hs.asked, hs.ctrlTaken⟩

theorem sameMedia_sipFlush (w : SipWorld) : SameMedia w w.sipFlush := by
  unfold sipFlush
  split_ifs
  · exact SameMedia.refl w
  · split <;> exact ⟨rfl, rfl, rfl, rfl, rfl⟩

theorem sameMedia_applySend (cfg : SipConfig) (w : SipWorld) (send : Option SipSend) :
    SameMedia w (w.applySend cfg send) := by
  cases send with
  | none => exact SameMedia.refl w
  | some msg =>
    have hb := sameMedia_build cfg w msg
    have hp : SameMedia w { w.build cfg msg with sipTxPending := true } :=
      ⟨hb.fsm, hb.ctrlQueue, hb.ctrlSent, hb.asked, hb.ctrlTaken⟩
    exact hp.trans (sameMedia_sipFlush _)

theorem sameMedia_emitEvent (cfg : SipConfig) (w : SipWorld) (event : SipEventKind) (code : UInt16) :
    SameMedia w (w.emitEvent cfg event code) := by
  unfold emitEvent
  split_ifs <;> exact ⟨rfl, rfl, rfl, rfl, rfl⟩

theorem SameMedia.emit {w u : SipWorld} (h : SameMedia w u) (cfg : SipConfig)
    (event : SipEventKind) (code : UInt16) : SameMedia w (u.emitEvent cfg event code) :=
  h.trans (sameMedia_emitEvent cfg u event code)

theorem sameMedia_flushEvent (cfg : SipConfig) (w : SipWorld) (taken : Bool) :
    SameMedia w (w.flushEvent cfg taken) := by
  unfold flushEvent
  split
  · split_ifs <;> exact ⟨rfl, rfl, rfl, rfl, rfl⟩
  · exact SameMedia.refl w

theorem sameMedia_classify (cfg : SipConfig) (w : SipWorld) (msg : Bytes) :
    SameMedia w (classifyAndExtract cfg w msg).1 ∧
      (classifyAndExtract cfg w msg).2 = eventOf cfg msg := by
  unfold classifyAndExtract eventOf
  cases kindOf msg with
  | invite ep =>
    simp only
    split_ifs
    · refine ⟨?_, rfl⟩
      have hadopt : SameMedia w (w.adoptOffer msg ep) := ⟨rfl, rfl, rfl, rfl, rfl⟩
      unfold holdOffer
      split_ifs
      · refine SameMedia.emit ?_ cfg _ _
        exact ⟨rfl, rfl, rfl, rfl, rfl⟩
      · exact hadopt
    · refine ⟨?_, rfl⟩
      unfold answerOffer
      split_ifs <;> exact ⟨rfl, rfl, rfl, rfl, rfl⟩
  | ack =>
    refine ⟨?_, rfl⟩
    simp only
    split_ifs
    · exact sameMedia_emitEvent _ _ _ _
    · exact SameMedia.refl w
  | bye => exact ⟨sameMedia_emitEvent _ _ _ _, rfl⟩
  | response code =>
    refine ⟨?_, rfl⟩
    simp only
    split_ifs
    · refine SameMedia.emit ?_ cfg _ _
      unfold adoptAnswer
      split <;> exact ⟨rfl, rfl, rfl, rfl, rfl⟩
    · exact sameMedia_emitEvent _ _ _ _
    · exact SameMedia.refl w
  | other => exact ⟨SameMedia.refl w, rfl⟩

theorem flushQueue_spec (w : SipWorld) (queue : List CtrlCmd) :
    (w.flushQueue queue).ctrlSent.map (·.cmd) ++ (w.flushQueue queue).ctrlQueue =
        w.ctrlSent.map (·.cmd) ++ queue ∧
      (w.flushQueue queue).ctrlQueue.length ≤ queue.length ∧
      (w.flushQueue queue).asked = w.asked ∧ (w.flushQueue queue).fsm = w.fsm := by
  induction queue generalizing w with
  | nil => exact ⟨rfl, Nat.le_refl _, rfl, rfl⟩
  | cons cmd rest ih =>
    rw [flushQueue]
    split
    · rename_i answers _
      obtain ⟨hsent, hlen, hasked, hfsm⟩ := ih { w with
        ctrlTaken := answers, ctrlSent := w.ctrlSent ++ [w.ctrlRecord cmd] }
      have hcmd : (w.ctrlRecord cmd).cmd = cmd := by
        unfold ctrlRecord
        split_ifs <;> rfl
      refine ⟨?_, hlen.trans (Nat.le_succ _), hasked, hfsm⟩
      rw [hsent]
      show (w.ctrlSent ++ [w.ctrlRecord cmd]).map (·.cmd) ++ rest = _
      rw [map_append, map_singleton, hcmd, append_assoc]
      rfl
    · exact ⟨rfl, Nat.le_refl _, rfl, rfl⟩
    · exact ⟨rfl, Nat.le_refl _, rfl, rfl⟩

theorem flushQueue_shorter {queue : List CtrlCmd} (hq : queue ≠ []) (h : w.ctrlTaken.head? = some true) : (w.flushQueue queue).ctrlQueue.length < queue.length := by
  obtain ⟨cmd, rest, rfl⟩ := exists_cons_of_ne_nil hq
  rw [flushQueue]
  split
  · exact Nat.lt_succ_of_le (flushQueue_spec _ rest).2.1
  · rename_i answers htaken
    rw [htaken] at h
    cases h
  · rename_i htaken
    rw [htaken] at h
    cases h

theorem queueRtpCtrl_spec (cmd : CtrlCmd) (hwired : cfg.rtpCtrlOut = true) (hroom : w.ctrlQueue.length < CTRL_QUEUE)
    (h : w.ctrlSent.map (·.cmd) ++ w.ctrlQueue = w.asked.map (·.cmd)) :
    let w' := w.queueRtpCtrl cfg cmd
    w'.ctrlSent.map (·.cmd) ++ w'.ctrlQueue = w'.asked.map (·.cmd) ∧
      w'.asked.map (·.cmd) = w.asked.map (·.cmd) ++ [cmd] ∧ w'.fsm = w.fsm ∧
      w'.ctrlQueue.length ≤ w.ctrlQueue.length + 1 := by
  intro w'
  have hw' : w' = flushQueue { w with
      ctrlQueue := w.ctrlQueue ++ [cmd]
      asked := w.asked ++ [⟨cmd, w.peerRtpIp, w.peerRtpPort⟩] } (w.ctrlQueue ++ [cmd]) := by
    show w.queueRtpCtrl cfg cmd = _
    rw [queueRtpCtrl, hwired, if_neg (by decide), if_pos hroom]
    rfl
  obtain ⟨hsent, hlen, hasked, hfsm⟩ := flushQueue_spec { w with
      ctrlQueue := w.ctrlQueue ++ [cmd]
      asked := w.asked ++ [⟨cmd, w.peerRtpIp, w.peerRtpPort⟩] } (w.ctrlQueue ++ [cmd])
  rw [← hw'] at hsent hlen hasked hfsm
  have hmap : w'.asked.map (·.cmd) = w.asked.map (·.cmd) ++ [cmd] := by
    rw [hasked, map_append]
    rfl
  refine ⟨?_, hmap, hfsm, ?_⟩
  · rw [hsent, hmap, ← h, append_assoc]
  · rw [length_append] at hlen
    exact hlen

theorem queueRtpCtrl_unwired (h : cfg.rtpCtrlOut = false) (w : SipWorld) (cmd : CtrlCmd) : w.queueRtpCtrl cfg cmd = w := by
  rw [queueRtpCtrl, h, if_pos (by decide)]

theorem room_after_first (hwired : cfg.rtpCtrlOut = true) (hroom : Room cfg w w.ctrlTaken .start) :
    w.ctrlQueue.length < CTRL_QUEUE ∧
      (w.queueRtpCtrl cfg .setEndpoint).ctrlQueue.length < CTRL_QUEUE := by
  have hfirst : w.ctrlQueue.length < CTRL_QUEUE := by
    rcases hroom hwired with h | ⟨h, -⟩ <;> omega
  refine ⟨hfirst, ?_⟩
  have hflush : w.queueRtpCtrl cfg .setEndpoint = flushQueue { w with
      ctrlQueue := w.ctrlQueue ++ [CtrlCmd.setEndpoint]
      asked := w.asked ++ [⟨.setEndpoint, w.peerRtpIp, w.peerRtpPort⟩] }
      (w.ctrlQueue ++ [CtrlCmd.setEndpoint]) := by
    rw [queueRtpCtrl, hwired, if_neg (by decide), if_pos hfirst]
    rfl
  rw [hflush]
  rcases hroom hwired with h | ⟨h, htaken⟩
  · have hlen := (flushQueue_spec { w with
      ctrlQueue := w.ctrlQueue ++ [CtrlCmd.setEndpoint]
      asked := w.asked ++ [⟨.setEndpoint, w.peerRtpIp, w.peerRtpPort⟩] }
      (w.ctrlQueue ++ [CtrlCmd.setEndpoint])).2.1
    rw [length_append] at hlen
    exact Nat.lt_of_le_of_lt hlen h
  · -- The queue is full behind the first command, unless one of it is written.
    have hshort := flushQueue_shorter (w := { w with
        ctrlQueue := w.ctrlQueue ++ [CtrlCmd.setEndpoint]
        asked := w.asked ++ [⟨.setEndpoint, w.peerRtpIp, w.peerRtpPort⟩] })
      (append_ne_nil_of_right_ne_nil w.ctrlQueue (cons_ne_nil .setEndpoint [])) htaken
    rw [length_append] at hshort
    exact Nat.lt_of_lt_of_eq hshort h

theorem MediaOrdered.of_same {w w' : SipWorld} (h : MediaOrdered cfg w) (hs : SameMedia w w') : MediaOrdered cfg w' := by
  refine ⟨?_, ?_⟩
  · rw [hs.ctrlSent, hs.ctrlQueue, hs.asked]
    exact h.kept
  · rw [hs.asked, openGroup, hs.fsm]
    exact h.grouped

theorem mediaOrdered_flush (h : MediaOrdered cfg w) :
    MediaOrdered cfg w.flushRtpCtrl := by
  obtain ⟨hsent, -, hasked, hfsm⟩ := flushQueue_spec w w.ctrlQueue
  unfold flushRtpCtrl
  refine ⟨?_, ?_⟩
  · rw [hsent, hasked]
    exact h.kept
  · rw [hasked, openGroup, hfsm]
    exact h.grouped

theorem mediaOrdered_start {n : Nat} (hkept : w.ctrlSent.map (·.cmd) ++ w.ctrlQueue = w.asked.map (·.cmd))
    (hgroups : w.asked.map (·.cmd) = mediaGroups n) (hrun : w.fsm.state.running = true)
    (hroom : Room cfg w w.ctrlTaken .start) : MediaOrdered cfg (w.mediaStart cfg) := by
  unfold mediaStart
  cases hwired : cfg.rtpCtrlOut with
  | false =>
    rw [queueRtpCtrl_unwired hwired, queueRtpCtrl_unwired hwired]
    refine ⟨hkept, n, ?_⟩
    rw [openGroup, hwired, Bool.false_and, if_neg false_ne_true, append_nil]
    exact hgroups
  | true =>
    obtain ⟨hfirst, hsecond⟩ := room_after_first hwired hroom
    obtain ⟨hkept', hasked', hfsm', -⟩ := queueRtpCtrl_spec .setEndpoint hwired hfirst hkept
    obtain ⟨hkept'', hasked'', hfsm'', -⟩ := queueRtpCtrl_spec .start hwired hsecond hkept'
    refine ⟨hkept'', n, ?_⟩
    rw [hasked'', hasked', hgroups, openGroup, hfsm'', hfsm', hrun, hwired, append_assoc]
    rfl

theorem mediaGroups_succ (n : Nat) : mediaGroups (n + 1) = mediaGroups n ++ mediaGroup := by
  unfold mediaGroups
  rw [List.replicate_succ', flatten_append, List.flatten_singleton]

theorem mediaOrdered_stop {n : Nat} (hkept : w.ctrlSent.map (·.cmd) ++ w.ctrlQueue = w.asked.map (·.cmd))
    (hgroups : w.asked.map (·.cmd) =
      mediaGroups n ++ if cfg.rtpCtrlOut then [CtrlCmd.setEndpoint, .start] else [])
    (hrun : w.fsm.state.running = false) (hroom : Room cfg w w.ctrlTaken .stop) :
    MediaOrdered cfg (w.mediaStop cfg) := by
  unfold mediaStop
  cases hwired : cfg.rtpCtrlOut with
  | false =>
    rw [queueRtpCtrl_unwired hwired]
    refine ⟨hkept, n, ?_⟩
    rw [hgroups, openGroup, hwired, Bool.false_and]
  | true =>
    obtain ⟨hkept', hasked', hfsm', -⟩ := queueRtpCtrl_spec .stop hwired (hroom hwired) hkept
    refine ⟨hkept', n + 1, ?_⟩
    rw [hasked', hgroups, openGroup, hfsm', hrun, hwired, Bool.and_false,
      if_neg false_ne_true, append_nil, mediaGroups_succ, if_pos rfl, append_assoc]
    rfl

theorem mediaOrdered_applyMedia (h : MediaOrdered cfg w) (hroom : Room cfg w w.ctrlTaken (w.fsm.onEvent ev).2.media)
    (hack : w.fsm.state = .waitAck → w.fsm.gaveUp ev = false) {u : SipWorld}
    (hu : SameMedia { w with fsm := (w.fsm.onEvent ev).1 } u) :
    MediaOrdered cfg (u.applyMedia cfg (w.fsm.onEvent ev).2.media) := by
  have hmedia := onEvent_media w.fsm ev hack
  obtain ⟨n, hgroups⟩ := h.grouped
  have hkept : u.ctrlSent.map (·.cmd) ++ u.ctrlQueue = u.asked.map (·.cmd) := by
    rw [hu.ctrlSent, hu.ctrlQueue, hu.asked]
    exact h.kept
  have hask : u.asked = w.asked := hu.asked
  have hroom' : Room cfg u u.ctrlTaken (w.fsm.onEvent ev).2.media := by
    cases hm : (w.fsm.onEvent ev).2.media <;> rw [hm] at hroom
    · trivial
    · rw [Room, hu.ctrlQueue, hu.ctrlTaken]
      exact hroom
    · rw [Room, hu.ctrlQueue]
      exact hroom
  cases hm : (w.fsm.onEvent ev).2.media <;> rw [hm] at hmedia hroom'
  · refine ⟨hkept, n, ?_⟩
    show u.asked.map (·.cmd) = mediaGroups n ++ openGroup cfg u
    rw [hask, hgroups, openGroup, openGroup, hu.fsm]
    show _ = _ ++ if cfg.rtpCtrlOut && (w.fsm.onEvent ev).1.state.running then _ else _
    rw [hmedia]
  · refine mediaOrdered_start (n := n) hkept ?_ ?_ hroom'
    · rw [hask, hgroups, openGroup, hmedia.1, Bool.and_false]
      exact append_nil _
    · rw [hu.fsm]
      exact hmedia.2
  · refine mediaOrdered_stop (n := n) hkept ?_ ?_ hroom'
    · rw [hask, hgroups, openGroup, hmedia.1, Bool.and_true]
    · rw [hu.fsm]
      exact hmedia.2

theorem mediaOrdered_apply {w u : SipWorld}
    (h : MediaOrdered cfg w) (hroom : Room cfg w w.ctrlTaken (w.fsm.onEvent ev).2.media)
    (hack : w.fsm.state = .waitAck → w.fsm.gaveUp ev = false)
    (hu : SameMedia { w with fsm := (w.fsm.onEvent ev).1 } u) :
    MediaOrdered cfg (u.apply cfg now (w.fsm.onEvent ev).2) := by
  have hmedia := mediaOrdered_applyMedia h hroom hack
    (hu.trans (sameMedia_applySend cfg u (w.fsm.onEvent ev).2.send))
  unfold SipWorld.apply
  simp only
  split_ifs
  · exact hmedia.of_same ⟨rfl, rfl, rfl, rfl, rfl⟩
  · exact hmedia

theorem mediaOrdered_feed (h : MediaOrdered cfg w) (hroom : Room cfg w w.ctrlTaken (w.fsm.onEvent ev).2.media)
    (hack : w.fsm.state = .waitAck → w.fsm.gaveUp ev = false) :
    MediaOrdered cfg (w.feed cfg now ev) :=
  mediaOrdered_apply h hroom hack (SameMedia.refl _)

theorem gaveUp_of_ne {f : SipDialogFsm} (h : ev ≠ .timeout) : f.gaveUp ev = false := by
  rw [SipDialogFsm.gaveUp, decide_eq_false h, Bool.and_false, Bool.false_and]

theorem mediaOrdered_feed_same {w u : SipWorld} (h : MediaOrdered cfg w) (hs : SameMedia w u)
    (hroom : Room cfg w w.ctrlTaken (w.fsm.onEvent ev).2.media) (hev : ev ≠ .timeout) :
    MediaOrdered cfg (u.feed cfg now ev) := by
  refine mediaOrdered_feed (h.of_same hs) ?_ fun _ => gaveUp_of_ne hev
  rw [hs.fsm]
  cases hm : (w.fsm.onEvent ev).2.media <;> rw [hm] at hroom
  · trivial
  · rw [Room, hs.ctrlQueue, hs.ctrlTaken]
    exact hroom
  · rw [Room, hs.ctrlQueue]
    exact hroom

theorem SameMedia.flushPending {w u : SipWorld} (h : SameMedia w u) :
    SameMedia w (sipFlush { u with sipTxPending := true }) := by
  refine SameMedia.trans (b := { u with sipTxPending := true }) ?_ (sameMedia_sipFlush _)
  exact ⟨h.fsm, h.ctrlQueue, h.ctrlSent, h.asked, h.ctrlTaken⟩

theorem sameMedia_buildRefusal (cfg : SipConfig) (w : SipWorld) (code : UInt16) :
    SameMedia w (buildRefusal cfg w code) := sameMedia_stage w _

theorem sameMedia_reject (cfg : SipConfig) (w : SipWorld) (code : UInt16) :
    SameMedia w (sipFlush { buildRefusal cfg { w with offerPending := false } code with
      sipTxPending := true }) := by
  refine SameMedia.flushPending (SameMedia.trans (b := { w with offerPending := false }) ?_
    (sameMedia_buildRefusal cfg _ code))
  exact ⟨rfl, rfl, rfl, rfl, rfl⟩

theorem mediaOrdered_handleCommand {cmd : SipCommand} (h : MediaOrdered cfg w) (hok : w.applies cmd.op = true →
      (cmd.op = .cancel → cfg.rtpCtrlOut = false) ∧ RoomOn cfg w w.ctrlTaken (opEvent cmd.op)) :
    MediaOrdered cfg (w.handleCommand cfg now cmd) := by
  unfold handleCommand
  by_cases happ : w.applies cmd.op = true
  · obtain ⟨hcancel, hroom⟩ := hok happ
    rw [if_pos happ]
    cases hop : cmd.op <;> rw [hop] at hroom happ
    case dial =>
      exact mediaOrdered_feed_same h ⟨rfl, rfl, rfl, rfl, rfl⟩ (hroom _ rfl) SipEvent.noConfusion
    case accept =>
      exact mediaOrdered_feed_same h ⟨rfl, rfl, rfl, rfl, rfl⟩ (hroom _ rfl) SipEvent.noConfusion
    case reject =>
      have hs := (sameMedia_reject cfg w (if cmd.code = 0 then 603 else cmd.code)).emit cfg .declined
        (if cmd.code = 0 then 603 else cmd.code)
      exact h.of_same ⟨hs.fsm, hs.ctrlQueue, hs.ctrlSent, hs.asked, hs.ctrlTaken⟩
    case hangup =>
      refine mediaOrdered_feed_same h ?_ (hroom _ rfl) SipEvent.noConfusion
      refine SameMedia.emit (w := w) (u := w.nextRequest) ?_ cfg _ _
      exact ⟨rfl, rfl, rfl, rfl, rfl⟩
    case cancel =>
      -- Nothing is wired, so the stop goes nowhere; a call being placed runs no media.
      have hinv : w.fsm.state = .inviting := of_decide_eq_true happ
      have hs := sameMedia_emitEvent cfg w .localClosed 0
      simp only [mediaStop]
      rw [queueRtpCtrl_unwired (hcancel hop)]
      obtain ⟨n, hgroups⟩ := h.grouped
      refine ⟨?_, n, ?_⟩
      · show (w.emitEvent cfg .localClosed 0).ctrlSent.map (·.cmd) ++
          (w.emitEvent cfg .localClosed 0).ctrlQueue = _
        rw [hs.ctrlSent, hs.ctrlQueue]
        exact h.kept.trans (congrArg _ hs.asked.symm)
      · show (w.emitEvent cfg .localClosed 0).asked.map (·.cmd) = _
        rw [hs.asked, hgroups, openGroup, openGroup, hinv]
        rfl
  · rw [if_neg happ]
    have hs := SameMedia.emit (w := w) (u := { w with cid := cmd.cid }) ⟨rfl, rfl, rfl, rfl, rfl⟩ cfg
      .failed 0
    exact h.of_same ⟨hs.fsm, hs.ctrlQueue, hs.ctrlSent, hs.asked, hs.ctrlTaken⟩

theorem mediaOrdered_stepTrigger {w w' : SipWorld}
    (h : MediaOrdered cfg w) (hroom : RoomOn cfg w w.ctrlTaken (triggerEvent w.fsm.state))
    (hstep : w.stepTrigger cfg now = some w') : MediaOrdered cfg w' := by
  unfold stepTrigger at hstep
  cases hq : w.fsm.state <;> rw [hq] at hstep hroom
  case ready =>
    obtain rfl := Option.some.inj hstep
    exact mediaOrdered_feed_same h ⟨rfl, rfl, rfl, rfl, rfl⟩ (hroom _ rfl) SipEvent.noConfusion
  case active =>
    obtain rfl := Option.some.inj hstep
    exact mediaOrdered_feed_same h ⟨rfl, rfl, rfl, rfl, rfl⟩ (hroom _ rfl) SipEvent.noConfusion
  all_goals cases hstep

theorem onEvent_timeout_media (f : SipDialogFsm) : (f.onEvent .timeout).2.media = .none := by
  obtain ⟨state, count⟩ := f
  cases state <;> simp only [SipDialogFsm.onEvent.eq_def, SipDialogFsm.onTimeout] <;> split_ifs <;> rfl

theorem mediaOrdered_stepTimer (h : MediaOrdered cfg w) (hack : AnswerAcked w now) : MediaOrdered cfg (w.stepTimer cfg now) := by
  unfold stepTimer
  split_ifs with hdue
  · have hroom : Room cfg w w.ctrlTaken (w.fsm.onEvent .timeout).2.media := by
      rw [onEvent_timeout_media]
      trivial
    have hlimit : w.fsm.state = .waitAck → w.fsm.gaveUp .timeout = false := by
      intro hwait
      rw [SipDialogFsm.gaveUp, decide_eq_false (Nat.not_le.mpr (hack hdue hwait)), Bool.and_false]
    refine mediaOrdered_apply h hroom hlimit ?_
    split_ifs
    · exact sameMedia_emitEvent _ _ _ _
    · exact SameMedia.refl _
  · exact h

theorem stepTimer_ctrlTaken (cfg : SipConfig) (w : SipWorld) (now : UInt64) :
    (w.stepTimer cfg now).ctrlTaken = w.ctrlTaken := by
  unfold stepTimer
  split_ifs with hdue
  · have happly : ∀ u : SipWorld, (u.apply cfg now (w.fsm.onEvent .timeout).2).ctrlTaken = u.ctrlTaken := by
      intro u
      unfold SipWorld.apply
      rw [onEvent_timeout_media]
      simp only [applyMedia]
      split_ifs <;> exact (sameMedia_applySend cfg u _).ctrlTaken
    rw [happly]
    split_ifs
    · exact (sameMedia_emitEvent cfg _ _ _).ctrlTaken
    · rfl
  · rfl

theorem mediaOrdered_stepInbound (h : MediaOrdered cfg w)
    (hroom : ∀ msg ∈ w.datagramOf inp, RoomOn cfg w w.ctrlTaken (eventOf cfg msg)) :
    MediaOrdered cfg (w.stepInbound cfg inp) := by
  unfold stepInbound
  cases hd : w.datagramOf inp with
  | none => exact h
  | some msg =>
    have hmsg := hroom msg (by rw [hd]; rfl)
    obtain ⟨hs, hev⟩ := sameMedia_classify cfg w msg
    simp only [receive]
    cases hc : classifyAndExtract cfg w msg with
    | mk u ev =>
      rw [hc] at hs hev
      cases ev with
      | none => exact h.of_same hs
      | some ev =>
        rw [← hev] at hmsg
        refine mediaOrdered_feed_same h hs (hmsg ev rfl) ?_
        rintro rfl
        simp only [eventOf] at hev
        cases hk : kindOf msg <;> rw [hk] at hev <;> try cases hev
        simp only at hev
        split_ifs at hev
        cases hev

theorem trigger_some (h : triggerTakes cfg w inp = true) :
    ∃ w', w.stepTrigger cfg inp.now = some w' ∧
      (if cfg.callCtrlIn && inp.trigger then w.stepTrigger cfg inp.now else none) = some w' := by
  obtain ⟨hpulled, hstate⟩ := and_eq_true_iff.mp h
  rw [if_pos hpulled]
  unfold triggerEvent at hstate
  unfold stepTrigger
  cases hq : w.fsm.state <;> rw [hq] at hstate
  case ready | active => exact ⟨_, rfl, rfl⟩
  all_goals cases hstate

theorem trigger_none (h : triggerTakes cfg w inp = false) :
    (if cfg.callCtrlIn && inp.trigger then w.stepTrigger cfg inp.now else none) = none := by
  split_ifs with hpulled
  · rw [triggerTakes, hpulled, Bool.true_and] at h
    unfold triggerEvent at h
    unfold stepTrigger
    cases hq : w.fsm.state <;> rw [hq] at h
    case ready | active => cases h
  · rfl

theorem mediaOrdered_stepSip (h : MediaOrdered cfg w) (hok : MediaOk cfg w inp) : MediaOrdered cfg (w.stepSip cfg inp) := by
  unfold stepSip
  by_cases hbind : (!w.sipBound || decide (w.sipEpId = 0xFF)) = true
  · rw [if_pos hbind]
    refine h.of_same ?_
    unfold stepBind
    split_ifs
    · exact ⟨rfl, rfl, rfl, rfl, rfl⟩
    · split
      · split_ifs <;> exact ⟨rfl, rfl, rfl, rfl, rfl⟩
      · exact SameMedia.refl w
  rw [if_neg hbind]
  unfold MediaOk at hok
  cases hcmd : w.commandOf cfg inp with
  | some cmd =>
    rw [hcmd] at hok
    exact mediaOrdered_handleCommand h hok
  | none =>
    rw [hcmd] at hok
    simp only
    by_cases ht : triggerTakes cfg w inp = true
    · rw [if_pos ht] at hok
      obtain ⟨w', hstep, htaken⟩ := trigger_some ht
      rw [htaken]
      exact mediaOrdered_stepTrigger h hok hstep
    · rw [if_neg ht] at hok
      rw [trigger_none (eq_false_iff.mpr ht)]
      refine mediaOrdered_stepInbound (mediaOrdered_stepTimer h hok.1) ?_
      rw [stepTimer_ctrlTaken]
      exact hok.2

theorem mediaOrdered_step (h : MediaOrdered cfg w) (hok : MediaStepOk cfg w inp) :
    MediaOrdered cfg (w.moduleStep cfg inp) := by
  have hstep : MediaOrdered cfg ((w.facing inp).stepSip cfg inp) :=
    mediaOrdered_stepSip ⟨h.kept, h.grouped⟩ hok
  unfold moduleStep
  refine MediaOrdered.of_same ?_ (sameMedia_flushEvent cfg _ _)
  exact mediaOrdered_flush (hstep.of_same (sameMedia_sipFlush _))

theorem mediaOrdered_init (cfg : SipConfig) (start : SipStart) : MediaOrdered cfg start.world := by
  refine ⟨rfl, 0, ?_⟩
  have hidle : (cfg.rtpCtrlOut && (start.world).fsm.state.running) = false := Bool.and_false _
  rw [openGroup, hidle]
  rfl

/-- In every run whose steps meet the condition, the commands are whole groups, one open exactly while media runs, and
the records written and queued are these, in order. -/
theorem media_ordered (cfg : SipConfig) (start : SipStart) (inputs : List SipInput)
    (hal : (sipMachine cfg).Along (MediaStepOk cfg) start.world inputs) :
    MediaOrdered cfg ((sipMachine cfg).run start.world inputs).1 :=
  (sipMachine cfg).run_invariant (I := MediaOrdered cfg) (fun _ _ h hok => mediaOrdered_step h hok)
    (mediaOrdered_init cfg start) hal

def answering : SipConfig where
  commandIn := false
  callCtrlIn := false
  rtpCtrlOut := true
  eventOut := false
  localIp := 0x0A000001
  localSipPort := 5060
  fromTag := 0x5349
  autoAnswer := true

def sampleStart : SipStart where
  peerIp := 0x0A000002

def binding : List SipInput := [{}, { frame := some (.bound 1 5060) }]

def hear (now : UInt64) (msg : Bytes) : SipInput :=
  { now := now, frame := some (.rxFrom 1 msg), ctrlTaken := [true, true] }

def sampleInvite : Bytes :=
  ascii "INVITE sip:a SIP/2.0\r\nFrom: <sip:b>;tag=00a1\r\nCall-ID: c1\r\n\r\nm=audio 4000 RTP/AVP 0\r\n"

def wholeCall : List SipInput :=
  binding ++ [hear 0 sampleInvite, hear 10 (ascii "ACK sip:a SIP/2.0\r\n"),
    hear 20 (ascii "BYE sip:a SIP/2.0\r\n")]

theorem media_ordered_whole_call :
    ((sipMachine answering).run sampleStart.world wholeCall).1.ctrlSent =
        [⟨.setEndpoint, 0x0A000002, 4000⟩, ⟨.start, 0, 0⟩, ⟨.stop, 0, 0⟩] ∧
      MediaOrdered answering ((sipMachine answering).run sampleStart.world wholeCall).1 :=
  ⟨by decide +kernel, media_ordered answering sampleStart wholeCall (by decide +kernel)⟩

def unacknowledged : List SipInput :=
  binding ++ [hear 0 sampleInvite] ++
    [500, 1000, 1500, 2000, 2500, 3000, 3500, 4000].map fun t => { now := t }

theorem length_mediaGroups (n : Nat) : (mediaGroups n).length = 3 * n := by
  induction n with
  | zero => rfl
  | succ n ih =>
    rw [mediaGroups_succ, length_append, ih]
    rfl

/-- Media was started for it and is not stopped when the call is given up. -/
theorem unacknowledged_call_keeps_media :
    ((sipMachine answering).run sampleStart.world unacknowledged).1.fsm.state = .ready ∧
      ((sipMachine answering).run sampleStart.world unacknowledged).1.ctrlSent =
        [⟨.setEndpoint, 0x0A000002, 4000⟩, ⟨.start, 0, 0⟩] ∧
      ¬MediaOrdered answering ((sipMachine answering).run sampleStart.world unacknowledged).1 := by
  have hrun : ((sipMachine answering).run sampleStart.world unacknowledged).1.fsm.state = .ready ∧
      ((sipMachine answering).run sampleStart.world unacknowledged).1.ctrlSent =
        [⟨.setEndpoint, 0x0A000002, 4000⟩, ⟨.start, 0, 0⟩] ∧
      (((sipMachine answering).run sampleStart.world unacknowledged).1.asked.map (·.cmd)).length = 2 := by
    decide +kernel
  obtain ⟨hready, hsent, hasked⟩ := hrun
  refine ⟨hready, hsent, fun hordered => ?_⟩
  obtain ⟨n, hgroups⟩ := hordered.grouped
  rw [hgroups, length_append, length_mediaGroups, openGroup, hready] at hasked
  simp only [SipState.running, Bool.and_false, false_eq_true, if_false, length_nil] at hasked
  omega

end Wave.Sip
