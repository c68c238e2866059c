import Wave.Smtp.Conversation

/-! # A message is taken only after it was sent

A message counts as taken only when all of it was sent before the reply was read (`lockstep_run`). -/

namespace Wave.Smtp

open Lib Common SmtpWorld

variable {cfg : SmtpConfig} {w : SmtpWorld} {c : Course} {phase : SmtpPhase} {now : UInt64}

def authPart (cfg : SmtpConfig) : Bytes :=
  if cfg.authUser.val = [] then [] else authPlainLine cfg.authUser.val cfg.authPass.val

def mailPart (cfg : SmtpConfig) (mailFrom : Bytes) : Bytes :=
  ehloLine cfg.helo.val ++ authPart cfg ++ mailFromLine mailFrom

def envelope (cfg : SmtpConfig) (mailFrom rcptTo : Bytes) : Bytes :=
  mailPart cfg mailFrom ++ rcptToLine rcptTo ++ dataLine

/-- All of the conversation up to the end-of-data line was on the wire. -/
def SentWhole (cfg : SmtpConfig) (a : Acceptance) : Prop :=
  a.moreBody = false ∧ ∃ crlf : Bool, (crlf = true → endsCrlf a.message = true) ∧
    a.wire = envelope cfg a.mailFrom a.rcptTo ++ stuff true a.message ++ smtpBodyEnd crlf

structure Lockstep (cfg : SmtpConfig) (w : SmtpWorld) : Prop where
  /-- Nothing that was staged is replaced before it was sent. -/
  kept : w.staged = w.wire ++ w.req.drop w.reqSent
  accepted : ∀ a ∈ w.accepts, SentWhole cfg a

def OnTime (cfg : SmtpConfig) (w : SmtpWorld) (code : UInt16) : Prop :=
  match w.phase with
  | .ehlo => code = 250 → w.authPlan cfg ≠ .refuse → w.req.length ≤ w.reqSent ∧
      (w.authPlan cfg = .plain → plainEncodable cfg.authUser.val cfg.authPass.val = true)
  | .auth => code = 235 → w.req.length ≤ w.reqSent
  | .mailFrom | .rcptTo => code = 250 → w.req.length ≤ w.reqSent
  | .body => code = 250 → w.bodyTerminated = true ∧ w.req.length ≤ w.reqSent
  | _ => True

def DrainOk (cfg : SmtpConfig) (now : UInt64) : (fuel : Nat) → SmtpWorld → Prop
  | 0, _ => True
  | fuel + 1, w =>
    if w.phase = .done || w.phase = .failed then True
    else
      match smtpReplyLine w.acc with
      | none => True
      | some line =>
        (line.isFinal = true → OnTime cfg (w.takeLine line) line.code) ∧
          DrainOk cfg now fuel
            (if line.isFinal then (w.takeLine line).onReply cfg line.code now else w.takeLine line)

def FrameOk (cfg : SmtpConfig) (now : UInt64) (w : SmtpWorld) : SmtpFrame → Prop
  | .data conn bytes =>
    if w.phase = .disconnected || w.phase = .connecting || bytes = [] || conn ≠ w.connId then True
    else
      let w := { w with acc := w.acc ++ bytes.take (ACC_BUF - w.acc.length) }
      DrainOk cfg now (w.acc.length + 1) w
  | _ => True

def FramesOk (cfg : SmtpConfig) (now : UInt64) : List SmtpFrame → SmtpWorld → Prop
  | [], _ => True
  | frame :: rest, w => FrameOk cfg now w frame ∧ FramesOk cfg now rest (onFrame cfg now w frame)

def LockstepOk (cfg : SmtpConfig) (w : SmtpWorld) (inp : SmtpInput) : Prop :=
  FramesOk cfg inp.now inp.frames (((w.facing inp).pumpRequests cfg inp.records).stepDial inp)

instance (cfg : SmtpConfig) (w : SmtpWorld) (code : UInt16) : Decidable (OnTime cfg w code) :=
  match h : w.phase with
  | .ehlo => decidable_of_iff (code = 250 → w.authPlan cfg ≠ .refuse → w.req.length ≤ w.reqSent ∧
      (w.authPlan cfg = .plain → plainEncodable cfg.authUser.val cfg.authPass.val = true))
      (by rw [OnTime, h])
  | .auth => decidable_of_iff (code = 235 → w.req.length ≤ w.reqSent) (by rw [OnTime, h])
  | .mailFrom | .rcptTo => decidable_of_iff (code = 250 → w.req.length ≤ w.reqSent) (by rw [OnTime, h])
  | .body => decidable_of_iff (code = 250 → w.bodyTerminated = true ∧ w.req.length ≤ w.reqSent)
      (by rw [OnTime, h])
  | .disconnected | .connecting | .greet | .data | .quit | .done | .failed =>
    isTrue (by rw [OnTime, h]; trivial)

instance decidableDrainOk (cfg : SmtpConfig) (now : UInt64) :
    ∀ fuel w, Decidable (DrainOk cfg now fuel w)
  | 0, _ => isTrue trivial
  | fuel + 1, w =>
    if hover : (w.phase = .done || w.phase = .failed) = true then
      isTrue (by rw [DrainOk, if_pos hover]; trivial)
    else
      match hline : smtpReplyLine w.acc with
      | none => isTrue (by rw [DrainOk, if_neg hover, hline]; trivial)
      | some line =>
        have := decidableDrainOk cfg now fuel
          (if line.isFinal then (w.takeLine line).onReply cfg line.code now else w.takeLine line)
        decidable_of_iff ((line.isFinal = true → OnTime cfg (w.takeLine line) line.code) ∧
          DrainOk cfg now fuel
            (if line.isFinal then (w.takeLine line).onReply cfg line.code now else w.takeLine line))
          (by rw [DrainOk, if_neg hover, hline])

instance (cfg : SmtpConfig) (now : UInt64) (w : SmtpWorld) (frame : SmtpFrame) :
    Decidable (FrameOk cfg now w frame) :=
  match frame with
  | .data conn bytes =>
    inferInstanceAs (Decidable (if w.phase = .disconnected || w.phase = .connecting || bytes = [] ||
        conn ≠ w.connId then True
      else DrainOk cfg now (w.acc ++ bytes.take (ACC_BUF - w.acc.length)).length.succ
        { w with acc := w.acc ++ bytes.take (ACC_BUF - w.acc.length) }))
  | .connected _ _ | .closed _ | .error _ _ | .other => isTrue trivial

instance decidableFramesOk (cfg : SmtpConfig) (now : UInt64) :
    ∀ frames w, Decidable (FramesOk cfg now frames w)
  | [], _ => isTrue trivial
  | frame :: rest, w =>
    have := decidableFramesOk cfg now rest (onFrame cfg now w frame)
    inferInstanceAs (Decidable (FrameOk cfg now w frame ∧ _))

instance (cfg : SmtpConfig) (w : SmtpWorld) (inp : SmtpInput) : Decidable (LockstepOk cfg w inp) :=
  inferInstanceAs (Decidable (FramesOk _ _ _ _))

/-- What was staged of the message: all but the chunk in hand, and the end once there is
no more of it. -/
structure Streaming (cfg : SmtpConfig) (c : Script) (gone : Bytes) : Prop where
  message : c.message = gone ++ c.chunk
  atLineStart : c.atLineStart = lineStartAfter true gone
  endsCrlf : c.endsCrlf = true → endsCrlf gone = true
  staged : c.staged = envelope cfg c.mailFrom c.rcptTo ++ stuff true gone ++
    if c.bodyTerminated then smtpBodyEnd c.endsCrlf else []
  terminated : c.bodyTerminated = true → c.chunk = [] ∧ c.moreBody = false

def Talk (cfg : SmtpConfig) (c : Script) : Prop :=
  match c.phase with
  | .disconnected | .connecting | .greet => c.staged = [] ∧ Fresh c
  | .ehlo => c.staged = ehloLine cfg.helo.val ∧ Fresh c
  | .auth => c.staged = ehloLine cfg.helo.val ++ authPart cfg ∧ Fresh c
  | .mailFrom => c.staged = mailPart cfg c.mailFrom ∧ Fresh c
  | .rcptTo => c.staged = mailPart cfg c.mailFrom ++ rcptToLine c.rcptTo ∧ Fresh c
  | .data => c.staged = envelope cfg c.mailFrom c.rcptTo ∧ Fresh c
  | .body => ∃ gone, Streaming cfg c gone
  | .quit | .done | .failed => True

theorem Talk.of_phase {c : Script} (hp : c.phase = phase) (h : Talk cfg { c with phase := phase }) : Talk cfg c := by
  subst hp
  exact h

structure LockInv (cfg : SmtpConfig) (c : Course) : Prop where
  kept : c.staged = c.wire ++ c.req.drop c.reqSent
  sent : c.reqSent ≤ c.req.length
  accepted : ∀ a ∈ c.accepts, SentWhole cfg a
  mailFrom : c.mailFrom.length ≤ NAME_BUF
  rcptTo : c.rcptTo.length ≤ NAME_BUF
  idle : c.opActive = false → c.phase = .disconnected ∨ c.phase = .failed
  talk : Talk cfg c.toScript

theorem LockInv.lockstep (h : LockInv cfg (course w)) :
    Lockstep cfg w := ⟨h.kept, h.accepted⟩

theorem LockInv.staged_eq (h : LockInv cfg c) (hsent : c.req.length ≤ c.reqSent) : c.staged = c.wire := by
  rw [h.kept, drop_of_length_le hsent, append_nil]

theorem LockInv.stage {c c' : Course} {bytes : Bytes} (h : LockInv cfg c)
    (hsent : c.req.length ≤ c.reqSent) (hstaged : c'.staged = c.staged ++ bytes)
    (hwire : c'.wire = c.wire) (hreq : c'.req = bytes) (hreqSent : c'.reqSent = 0)
    (hmail : c'.mailFrom = c.mailFrom) (hrcpt : c'.rcptTo = c.rcptTo) (haccepts : c'.accepts = c.accepts)
    (hop : c'.opActive = true) (htalk : Talk cfg c'.toScript) : LockInv cfg c' := by
  refine ⟨?_, ?_, ?_, ?_, ?_, ?_, htalk⟩
  · rw [hstaged, hwire, hreq, hreqSent, h.staged_eq hsent, drop_zero]
  · rw [hreqSent]
    exact Nat.zero_le _
  · rw [haccepts]
    exact h.accepted
  · rw [hmail]
    exact h.mailFrom
  · rw [hrcpt]
    exact h.rcptTo
  · intro hidle
    rw [hop] at hidle
    cases hidle

theorem LockInv.move (h : LockInv cfg c) (hop : c.opActive = true) (htalk : Talk cfg { c.toScript with phase := phase }) :
    LockInv cfg { c with phase := phase } := by
  refine ⟨h.kept, h.sent, h.accepted, h.mailFrom, h.rcptTo, fun hidle => ?_, htalk⟩
  exact absurd (hop.symm.trans hidle) Bool.noConfusion

theorem LockInv.active (h : LockInv cfg c) (hd : c.phase ≠ .disconnected) (hf : c.phase ≠ .failed) : c.opActive = true := by
  by_contra hidle
  rcases h.idle (eq_false_iff.mpr hidle) with hp | hp
  · exact hd hp
  · exact hf hp

theorem LockInv.active_at (h : LockInv cfg (course w)) (hp : w.phase = phase) (hd : phase ≠ .disconnected)
    (hf : phase ≠ .failed) : w.opActive = true := by
  subst hp
  exact h.active hd hf

theorem LockInv.fail (h : LockInv cfg c) :
    LockInv cfg { c with phase := .failed } :=
  ⟨h.kept, h.sent, h.accepted, h.mailFrom, h.rcptTo, fun _ => .inr rfl, trivial⟩

theorem lockInv_send {code : UInt16} {cmd : SmtpCmd} {next : SmtpPhase} {bytes : Bytes} (h : LockInv cfg (course w)) (hop : w.opActive = true)
    (hsent : w.req.length ≤ w.reqSent) (hacc : smtpReplyAccepts w.phase code = false)
    (hreply : smtpOnReply w.phase code (w.authPlan cfg) = (cmd, next))
    (hcmd : SmtpWorld.commandFor cfg w cmd = some bytes) (hlen : bytes.length ≤ REQ_BUF)
    (htalk : Talk cfg { (course w).toScript with staged := w.staged ++ bytes, phase := next }) :
    LockInv cfg (course (w.onReply cfg code now)) := by
  have hfail : cmd ≠ .fail := by rintro rfl; cases hcmd
  have hcomplete : cmd ≠ .complete := by rintro rfl; cases hcmd
  rw [onReply_send hacc hreply hfail hcomplete]
  have hcmd' : SmtpWorld.commandFor cfg { w with phase := next } cmd = some bytes := by
    rw [← hcmd]
    cases cmd <;> rfl
  rw [stageCmd_spec now hcmd' hlen]
  exact h.stage hsent rfl rfl rfl rfl rfl rfl rfl hop htalk

theorem Talk.greet_sent (h : LockInv cfg c) (hstaged : c.staged = []) :
    c.req.length ≤ c.reqSent := by
  have hkept := h.kept
  rw [hstaged] at hkept
  exact drop_eq_nil_iff.mp (append_eq_nil_iff.mp hkept.symm).2

theorem mem_emitAccepted {reached : SmtpPhase} {a : Acceptance} (h : a ∈ (w.emitResult .accepted reached).accepts) : a ∈ w.accepts ∨ a = w.acceptance := by
  unfold emitResult at h
  by_cases hdone : w.resProduced = true
  · rw [if_pos hdone] at h
    exact .inl h
  · rw [if_neg hdone, if_pos rfl] at h
    rcases mem_append.mp h with h | h
    · exact .inl h
    · exact .inr (mem_singleton.mp h)

theorem lockInv_accept (h : LockInv cfg (course w))
    (hp : w.phase = .body) (hterm : w.bodyTerminated = true) (hsent : w.req.length ≤ w.reqSent) :
    LockInv cfg (course (w.onReply cfg 250 now)) := by
  obtain ⟨gone, hgone⟩ : ∃ gone, Streaming cfg (course w).toScript gone := by
    have htalk := h.talk
    unfold Talk at htalk
    rw [show (course w).toScript.phase = .body from hp] at htalk
    exact htalk
  obtain ⟨hchunk, hmore⟩ := hgone.terminated hterm
  have hwhole : SentWhole cfg w.acceptance := by
    refine ⟨hmore, w.endsCrlf, fun hcrlf => ?_, ?_⟩
    · have hmessage := hgone.message
      rw [hchunk, append_nil] at hmessage
      show endsCrlf w.message = true
      rw [show w.message = gone from hmessage]
      exact hgone.endsCrlf hcrlf
    · have hstaged := hgone.staged
      rw [show (course w).toScript.bodyTerminated = true from hterm, if_pos rfl] at hstaged
      have hmessage := hgone.message
      rw [hchunk, append_nil] at hmessage
      show w.wire = envelope cfg w.mailFrom w.rcptTo ++ stuff true w.message ++ smtpBodyEnd w.endsCrlf
      rw [show w.message = gone from hmessage]
      exact (h.staged_eq hsent).symm.trans hstaged
  have haccepts : ∀ a ∈ (w.emitResult .accepted .body).accepts, SentWhole cfg a := by
    intro a ha
    rcases mem_emitAccepted ha with ha | rfl
    · exact h.accepted a ha
    · exact hwhole
  rw [course_onAccept now hp]
  refine ⟨?_, Nat.zero_le _, haccepts, h.mailFrom, h.rcptTo, fun hidle => ?_, trivial⟩
  · show w.staged ++ quitLine = w.wire ++ quitLine.drop 0
    rw [show w.staged = w.wire from h.staged_eq hsent, drop_zero]
  · have hop := h.active_at hp SmtpPhase.noConfusion SmtpPhase.noConfusion
    exact absurd (hop.symm.trans hidle) Bool.noConfusion

theorem LockInv.talk_at (h : LockInv cfg (course w)) (hp : w.phase = phase) :
    Talk cfg { (course w).toScript with phase := phase } := by
  subst hp
  exact h.talk

theorem lockInv_onReply {code : UInt16} (h : LockInv cfg (course w)) (hok : OnTime cfg w code) :
    LockInv cfg (course (w.onReply cfg code now)) := by
  have hmail : (mailFromLine w.mailFrom).length ≤ REQ_BUF :=
    length_named h.mailFrom (by decide) (by decide)
  have hrcpt : (rcptToLine w.rcptTo).length ≤ REQ_BUF := length_named h.rcptTo (by decide) (by decide)
  obtain hreply | ⟨phase, auth, cmd, next, hp, hplan, hreply, hmoves⟩ := reply_cases cfg w code
  · -- Any reply but the one that is waited for ends the conversation.
    rw [onReply_fail hreply]
    exact h.fail
  have hop : w.opActive = true := h.active_at hp (by cases hmoves <;> nofun) (by cases hmoves <;> nofun)
  have htalk := h.talk_at hp
  rw [OnTime, hp] at hok
  cases hmoves with
  | greet =>
    obtain ⟨hstaged, hfresh⟩ := htalk
    have hehlo : (ehloLine cfg.helo.val).length ≤ REQ_BUF :=
      length_named cfg.helo.property (by decide) (by decide)
    refine lockInv_send h hop (Talk.greet_sent h hstaged) (by rw [hp]; rfl) hreply (smtpPut_of_le hehlo) hehlo
      ⟨?_, hfresh.next _ _⟩
    show w.staged ++ ehloLine cfg.helo.val = ehloLine cfg.helo.val
    rw [show w.staged = [] from hstaged, nil_append]
  | ehlo =>
    obtain ⟨hstaged, hfresh⟩ := htalk
    -- No credentials are configured.
    have huser : authPart cfg = [] := by
      unfold authPlan at hplan
      split_ifs at hplan with huser
      exact if_pos huser
    have hsent := (hok rfl (by rw [hplan]; exact SmtpAuthPlan.noConfusion)).1
    refine lockInv_send h hop hsent (by rw [hp]; rfl) hreply (smtpPut_of_le hmail) hmail ⟨?_, hfresh.next _ _⟩
    show w.staged ++ mailFromLine w.mailFrom = mailPart cfg w.mailFrom
    rw [show w.staged = _ from hstaged, mailPart, huser, append_nil]
  | login =>
    obtain ⟨hstaged, hfresh⟩ := htalk
    have huser : cfg.authUser.val ≠ [] := by
      intro huser
      rw [authPlan, if_pos huser] at hplan
      cases hplan
    obtain ⟨hsent, henc⟩ := hok rfl (by rw [hplan]; exact SmtpAuthPlan.noConfusion)
    have hauth := length_authPlainLine (henc hplan)
    have hcmd : SmtpWorld.commandFor cfg w .sendAuth =
        some (authPlainLine cfg.authUser.val cfg.authPass.val) := by
      rw [commandFor, smtpAuthPlain, if_pos (henc hplan), smtpPut_of_le hauth]
    refine lockInv_send h hop hsent (by rw [hp]; rfl) hreply hcmd hauth ⟨?_, hfresh.next _ _⟩
    show w.staged ++ authPlainLine cfg.authUser.val cfg.authPass.val = ehloLine cfg.helo.val ++ authPart cfg
    rw [show w.staged = _ from hstaged, authPart, if_neg huser]
  | auth =>
    obtain ⟨hstaged, hfresh⟩ := htalk
    refine lockInv_send h hop (hok rfl) (by rw [hp]; rfl) hreply (smtpPut_of_le hmail) hmail ⟨?_, hfresh.next _ _⟩
    show w.staged ++ mailFromLine w.mailFrom = mailPart cfg w.mailFrom
    rw [show w.staged = _ from hstaged, mailPart]
  | mailFrom =>
    obtain ⟨hstaged, hfresh⟩ := htalk
    refine lockInv_send h hop (hok rfl) (by rw [hp]; rfl) hreply (smtpPut_of_le hrcpt) hrcpt ⟨?_, hfresh.next _ _⟩
    show w.staged ++ rcptToLine w.rcptTo = mailPart cfg w.mailFrom ++ rcptToLine w.rcptTo
    rw [show w.staged = _ from hstaged]
    rfl
  | rcptTo =>
    obtain ⟨hstaged, hfresh⟩ := htalk
    have hdata : dataLine.length ≤ REQ_BUF := by decide
    refine lockInv_send h hop (hok rfl) (by rw [hp]; rfl) hreply (smtpPut_of_le hdata) hdata ⟨?_, hfresh.next _ _⟩
    show w.staged ++ dataLine = envelope cfg w.mailFrom w.rcptTo
    rw [show w.staged = _ from hstaged]
    rfl
  | data =>
    obtain ⟨hstaged, hfresh⟩ := htalk
    -- The message follows; nothing is staged for this reply.
    have hcourse : course (w.onReply cfg 354 now) = { course w with phase := .body } := by
      rw [onReply_send (by rw [hp]; rfl) hreply SmtpCmd.noConfusion SmtpCmd.noConfusion]
      rfl
    rw [hcourse]
    refine h.move hop ⟨[], hfresh.message, hfresh.atLineStart, fun hcrlf => ?_, ?_, fun hterm => ?_⟩
    · exact absurd (hcrlf.symm.trans hfresh.endsCrlf) Bool.noConfusion
    · show w.staged = envelope cfg w.mailFrom w.rcptTo ++ [] ++ if w.bodyTerminated then _ else []
      rw [show w.bodyTerminated = false from hfresh.bodyTerminated, if_neg false_ne_true,
        append_nil, append_nil]
      exact hstaged
    · exact absurd (hterm.symm.trans hfresh.bodyTerminated) Bool.noConfusion
  | body => exact lockInv_accept h hp (hok rfl).1 (hok rfl).2
  | quit =>
    have hcourse : course (w.onReply cfg 221 now) = { course w with phase := .done } := by
      rw [onReply, hp]
      exact course_emitStatus cfg _ _
    rw [hcourse]
    exact h.move hop trivial

theorem lockInv_drainReplies (fuel : Nat) (h : LockInv cfg (course w)) (hok : DrainOk cfg now fuel w) :
    LockInv cfg (course (w.drainReplies cfg now fuel)) := by
  induction fuel generalizing w with
  | zero => exact h
  | succ fuel ih =>
    rw [DrainOk] at hok
    rw [drainReplies]
    by_cases hover : (w.phase = .done || w.phase = .failed) = true
    · rw [if_pos hover]
      exact h
    · rw [if_neg hover] at hok ⊢
      cases hline : smtpReplyLine w.acc with
      | none => exact h
      | some line =>
        simp only [hline] at hok ⊢
        obtain ⟨hnow, hrest⟩ := hok
        have htaken : LockInv cfg (course (w.takeLine line)) := by
          rw [course_takeLine]
          exact h
        cases hfinal : line.isFinal with
        | true =>
          rw [hfinal, if_pos rfl] at hrest
          rw [if_pos rfl]
          exact ih (lockInv_onReply htaken (hnow hfinal)) hrest
        | false =>
          rw [hfinal, if_neg false_ne_true] at hrest
          rw [if_neg false_ne_true]
          exact ih htaken hrest

theorem Talk.more {c : Script} (h : Talk cfg c) (hmore : c.moreBody = true) (data : Bytes) (more : Bool) :
    Talk cfg { c with chunk := c.chunk ++ data, message := c.message ++ data, moreBody := more } := by
  have hfresh : Fresh c →
      Fresh { c with chunk := c.chunk ++ data, message := c.message ++ data, moreBody := more } :=
    fun h => ⟨congrArg (· ++ data) h.message, h.atLineStart, h.endsCrlf, h.bodyTerminated⟩
  unfold Talk at h ⊢
  simp only
  cases hp : c.phase <;> simp only [hp] at h ⊢
  case body =>
    obtain ⟨gone, hgone⟩ := h
    refine ⟨gone, ?_, hgone.atLineStart, hgone.endsCrlf, hgone.staged, fun hterm => ?_⟩
    · show c.message ++ data = gone ++ (c.chunk ++ data)
      rw [hgone.message, append_assoc]
    · exact absurd (hmore.symm.trans (hgone.terminated hterm).2) Bool.noConfusion
  all_goals exact ⟨h.1, (hfresh h.2).next _ _⟩

theorem lockInv_pumpBody (now : UInt64) (h : LockInv cfg (course w)) : LockInv cfg (course (w.pumpBody now)) := by
  obtain hpump | ⟨hp, hsent, hpump⟩ := course_pumpBody w now
  · rw [hpump]
    exact h
  have hop := h.active_at hp SmtpPhase.noConfusion SmtpPhase.noConfusion
  obtain ⟨gone, hgone⟩ := h.talk_at hp
  have hstaged := hgone.staged
  obtain ⟨hchunk, hmore, hterm, hpump⟩ | ⟨hchunk, hpump⟩ := hpump <;> rw [hpump]
  · -- The end-of-data line goes behind all of the message.
    rw [show (course w).toScript.bodyTerminated = false from hterm, if_neg false_ne_true,
      append_nil] at hstaged
    refine h.stage hsent rfl rfl rfl rfl rfl rfl rfl hop ?_
    refine .of_phase hp
      ⟨gone, hgone.message, hgone.atLineStart, hgone.endsCrlf, ?_, fun _ => ⟨hchunk, hmore⟩⟩
    show w.staged ++ smtpBodyEnd w.endsCrlf = _
    rw [show w.staged = _ from hstaged]
    rfl
  · have hterm : w.bodyTerminated = false := by
      by_contra hterm
      exact hchunk (hgone.terminated (Bool.not_eq_false _ |>.mp hterm)).1
    rw [show (course w).toScript.bodyTerminated = false from hterm, if_neg false_ne_true,
      append_nil] at hstaged
    refine h.stage hsent rfl rfl rfl rfl rfl rfl rfl hop ?_
    refine .of_phase hp ⟨gone ++ w.chunk, ?_, ?_, ?_, ?_, ?_⟩
    · exact hgone.message.trans (append_nil _).symm
    · show lineStartAfter w.atLineStart w.chunk = _
      rw [lineStartAfter_append, show w.atLineStart = _ from hgone.atLineStart]
    · exact endsCrlf_append gone
    · show w.staged ++ stuff w.atLineStart w.chunk =
        envelope cfg w.mailFrom w.rcptTo ++ stuff true (gone ++ w.chunk) ++
          if w.bodyTerminated then _ else []
      rw [hterm, if_neg false_ne_true, append_nil, stuff_append,
        show w.staged = _ from hstaged, show w.atLineStart = _ from hgone.atLineStart, append_assoc]
      rfl
    · exact fun h => absurd (h.symm.trans hterm) Bool.noConfusion

theorem lockInv_kept (cfg : SmtpConfig) : Kept cfg (FrameOk cfg) (LockInv cfg) where
  fail _ h := h.fail
  data now w conn bytes hok h := by
    rw [FrameOk] at hok
    rw [onData]
    by_cases hskip : (w.phase = .disconnected || w.phase = .connecting || bytes = [] || conn ≠ w.connId) = true
    · rw [if_pos hskip]
      exact h
    · rw [if_neg hskip] at hok ⊢
      exact lockInv_drainReplies _ h hok
  dial c hop hp h := by
    have htalk := h.talk
    rw [Talk, hp] at htalk
    exact h.move hop ⟨htalk.1, htalk.2.next _ _⟩
  connect c hp h := by
    have htalk := h.talk
    rw [Talk, hp] at htalk
    have hop := h.active (by rw [hp]; exact SmtpPhase.noConfusion) (by rw [hp]; exact SmtpPhase.noConfusion)
    exact h.move hop ⟨htalk.1, htalk.2.next _ _⟩
  head c mailFrom rcptTo body more hidle hmail hrcpt h := by
    refine ⟨h.kept, h.sent, h.accepted, hmail, hrcpt, (by rintro ⟨⟩), ?_⟩
    rcases h.idle hidle with hp | hp
    · -- Nothing was said yet.
      have htalk := h.talk
      rw [Talk, hp] at htalk
      exact .of_phase hp ⟨htalk.1, rfl, rfl, rfl, rfl⟩
    · exact .of_phase hp trivial
  more c data more hmore h :=
    ⟨h.kept, h.sent, h.accepted, h.mailFrom, h.rcptTo, h.idle, h.talk.more hmore data more⟩

theorem lockInv_stepReplies {inp : SmtpInput} (h : LockInv cfg (course w)) (hok : LockstepOk cfg w inp) : LockInv cfg (course (w.stepReplies cfg inp)) := by
  have hframes : ∀ (frames : List SmtpFrame) (v : SmtpWorld), FramesOk cfg inp.now frames v →
      LockInv cfg (course v) → LockInv cfg (course (frames.foldl (onFrame cfg inp.now) v)) := by
    intro frames
    induction frames with
    | nil => exact fun _ _ hv => hv
    | cons frame rest ih => exact fun v hfok hv => ih _ hfok.2 ((lockInv_kept cfg).onFrame hfok.1 hv)
  exact hframes _ _ hok ((lockInv_kept cfg).stepDial inp h)

theorem lockInv_idle (cfg : SmtpConfig) {accepts : List Acceptance} (h : ∀ a ∈ accepts, SentWhole cfg a) :
    LockInv cfg (idleCourse accepts) :=
  ⟨rfl, Nat.le_refl _, h, Nat.zero_le _, Nat.zero_le _, fun _ => .inl rfl, rfl, rfl, rfl, rfl, rfl⟩

theorem lockInv_moduleStep {inp : SmtpInput} (h : LockInv cfg (course w)) (hok : LockstepOk cfg w inp) :
    LockInv cfg (course (w.moduleStep cfg inp)) := by
  have hpumped := lockInv_pumpBody inp.now (lockInv_stepReplies h hok)
  obtain ⟨wire, reqSent, u, rfl, hsame, hle, hend⟩ := course_moduleStep cfg w inp
  have hsent : LockInv cfg { course ((w.stepReplies cfg inp).pumpBody inp.now) with
      wire := wire, reqSent := reqSent } :=
    ⟨hpumped.kept.trans hsame.symm, hle hpumped.sent, hpumped.accepted, hpumped.mailFrom, hpumped.rcptTo,
      hpumped.idle, hpumped.talk⟩
  rcases hend with hend | hend | hend <;> rw [hend]
  · exact hsent
  · exact hsent.fail
  · exact lockInv_idle cfg hpumped.accepted

theorem lockInv_start (cfg : SmtpConfig) (start : SmtpStart) : LockInv cfg (course start.world) := by
  exact ⟨rfl, Nat.le_refl _, nofun, length_take_le _ _, length_take_le _ _, fun _ => .inl rfl, rfl, rfl, rfl,
    rfl, rfl⟩

/-- In every run, what is staged leaves in order and whole, and a message is taken only after all of it was sent. -/
theorem lockstep_run (cfg : SmtpConfig) (start : SmtpStart) (inps : List SmtpInput)
    (hok : (smtpMachine cfg).Along (LockstepOk cfg) start.world inps) :
    Lockstep cfg ((smtpMachine cfg).run start.world inps).1 := by
  refine LockInv.lockstep ((smtpMachine cfg).run_invariant (I := fun w => LockInv cfg (course w)) ?_
    (lockInv_start cfg start) hok)
  intro w inp h hw
  exact lockInv_moduleStep h hw

def openConfig : SmtpConfig where
  requestIn := false
  responseOut := false
  statusOut := false
  helo := ⟨ascii "wave", by decide⟩
  authUser := ⟨[], by decide⟩
  authPass := ⟨[], by decide⟩
  channelConfidential := false
  tag := 7

def note : SmtpStart where
  mailFrom := ascii "a@b"
  rcptTo := ascii "c@d"
  body := ascii "hi\r\n.\r\n"

def hears (reply : Bytes) : SmtpInput where
  frames := [.data 1 reply]
  sendTaken := [true]

def promptServer : List SmtpInput :=
  [{}, { frames := [.connected 1 7] }, hears (ascii "220 hello\r\n"),
    hears (ascii "250-wave\r\n250 SIZE\r\n"), hears (ascii "250 ok\r\n"), hears (ascii "250 ok\r\n"),
    hears (ascii "354 go\r\n"), { sendTaken := [true] }, hears (ascii "250 queued\r\n")]

theorem lockstep_run_promptServer :
    (((smtpMachine openConfig).run note.world promptServer).1.accepts.map (·.wire) =
      [ascii "EHLO wave\r\nMAIL FROM:<a@b>\r\nRCPT TO:<c@d>\r\nDATA\r\nhi\r\n..\r\n.\r\n"]) ∧
    Lockstep openConfig ((smtpMachine openConfig).run note.world promptServer).1 :=
  ⟨by decide +kernel, lockstep_run openConfig note promptServer (by decide +kernel)⟩

def hastyServer : List SmtpInput :=
  [{}, { frames := [.connected 1 7, .data 1 (ascii
    "220 hello\r\n250 wave\r\n250 ok\r\n250 ok\r\n354 go\r\n250 queued\r\n")] }]

theorem not_lockstep_hastyServer :
    ¬ ∀ (cfg : SmtpConfig) (start : SmtpStart) (inps : List SmtpInput),
      Lockstep cfg ((smtpMachine cfg).run start.world inps).1 := by
  intro hall
  have hrun : ((smtpMachine openConfig).run note.world hastyServer).1.accepts.map (·.wire) = [[]] := by
    decide +kernel
  obtain ⟨a, ha⟩ : ∃ a, ((smtpMachine openConfig).run note.world hastyServer).1.accepts = [a] :=
    List.length_eq_one_iff.mp (by simpa using congrArg List.length hrun)
  have hwire : a.wire = [] := by
    rw [ha] at hrun
    simpa using hrun
  obtain ⟨-, crlf, -, hsent⟩ :=
    (hall openConfig note hastyServer).accepted a (by rw [ha]; exact mem_singleton_self a)
  have hehlo : ehloLine openConfig.helo.val ≠ [] := by decide
  rw [hwire, envelope, mailPart] at hsent
  simp [hehlo] at hsent

end Wave.Smtp
