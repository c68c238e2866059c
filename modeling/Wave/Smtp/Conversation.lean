import Wave.Smtp.Module

/-! # The course of a conversation

`course` is the state of the conversation; `Kept` lists what a step can do to it before anything is sent. -/

namespace Wave.Smtp

open Lib Common SmtpWorld

variable {now : UInt64}

variable {w : SmtpWorld} {code : UInt16}

structure Script where
  staged : Bytes
  mailFrom : Bytes
  rcptTo : Bytes
  chunk : Bytes
  message : Bytes
  atLineStart : Bool
  endsCrlf : Bool
  bodyTerminated : Bool
  moreBody : Bool
  phase : SmtpPhase

structure Course extends Script where
  wire : Bytes
  req : Bytes
  reqSent : Nat
  opActive : Bool
  accepts : List Acceptance

def course (w : SmtpWorld) : Course where
  staged := w.staged
  wire := w.wire
  req := w.req
  reqSent := w.reqSent
  mailFrom := w.mailFrom
  rcptTo := w.rcptTo
  chunk := w.chunk
  message := w.message
  atLineStart := w.atLineStart
  endsCrlf := w.endsCrlf
  bodyTerminated := w.bodyTerminated
  moreBody := w.moreBody
  phase := w.phase
  opActive := w.opActive
  accepts := w.accepts

structure Fresh (c : Script) : Prop where
  message : c.message = c.chunk
  atLineStart : c.atLineStart = true
  endsCrlf : c.endsCrlf = false
  bodyTerminated : c.bodyTerminated = false

theorem Fresh.next {c : Script} (h : Fresh c) (staged : Bytes) (phase : SmtpPhase) :
    Fresh { c with staged := staged, phase := phase } :=
  ⟨h.message, h.atLineStart, h.endsCrlf, h.bodyTerminated⟩

theorem course_emitStatus (cfg : SmtpConfig) (w : SmtpWorld) (text : Bytes) :
    course (w.emitStatus cfg text) = course w := by
  unfold emitStatus
  split_ifs <;> rfl

theorem course_closeConnection (w : SmtpWorld) : course w.closeConnection = course w := by
  unfold closeConnection
  split_ifs <;> rfl

theorem course_respond (w : SmtpWorld) : course w.respond.2 = course w := by
  unfold respond
  split <;> rfl

theorem course_composeCredit (w : SmtpWorld) : course w.composeCredit = course w := by
  unfold composeCredit
  split_ifs <;> rfl

theorem course_flushCtl (w : SmtpWorld) : course w.flushCtl.2 = course w := by
  unfold flushCtl
  have h := course_respond w
  split_ifs
  · rfl
  · split <;> (rename_i hr; rw [hr] at h; exact h)

theorem course_flushRefusal (w : SmtpWorld) : course w.flushRefusal.2 = course w := by
  unfold flushRefusal
  have h := course_respond w
  split_ifs
  · rfl
  · split <;> (rename_i hr; rw [hr] at h; exact h)

theorem course_flushOwed (w : SmtpWorld) : course w.flushOwed.2 = course w := by
  unfold flushOwed
  have h := course_flushCtl w.composeCredit
  rw [course_composeCredit] at h
  split <;> rename_i hr <;> rw [hr] at h
  · rw [course_flushRefusal]
    exact h
  · exact h

theorem course_refuse (w : SmtpWorld) (id : Nat) (code : Refusal) :
    course (w.refuse id code) = course w := by
  unfold refuse
  rw [course_flushOwed]
  rfl

theorem course_takeLine (w : SmtpWorld) (line : ReplyLine) : course (w.takeLine line) = course w := by
  unfold takeLine recordReply
  simp only
  split_ifs <;> rfl

theorem course_flushResult (cfg : SmtpConfig) (w : SmtpWorld) : course (w.flushResult cfg) = course w := by
  unfold flushResult
  simp only
  have h := course_respond w
  split_ifs
  all_goals first
    | rfl
    | (split <;> rename_i hr <;> rw [hr] at h <;> exact h)

theorem course_flushStatus (w : SmtpWorld) (taken : Bool) : course (w.flushStatus taken) = course w := by
  unfold flushStatus
  split_ifs <;> rfl

theorem course_stepQuiesce (w : SmtpWorld) : course w.stepQuiesce = course w := by
  unfold stepQuiesce
  split_ifs
  · exact course_closeConnection w
  · rfl

theorem course_emitResult {outcome : SmtpOutcome} (reached : SmtpPhase) (h : outcome ≠ .accepted) : course (w.emitResult outcome reached) = course w := by
  unfold emitResult
  by_cases hdone : w.resProduced = true
  · rw [if_pos hdone]
  · rw [if_neg hdone, if_neg h]
    rfl

theorem course_stageReq (w : SmtpWorld) {bytes : Bytes} (now : UInt64) (h : bytes.length ≤ REQ_BUF) :
    course (w.stageReq bytes now) =
      { course w with staged := w.staged ++ bytes, req := bytes, reqSent := 0 } := by
  unfold stageReq
  rw [take_of_length_le h]
  rfl

theorem length_named {head tail name : Bytes} (hname : name.length ≤ NAME_BUF)
    (hhead : head.length ≤ 32) (htail : tail.length ≤ 32) : (head ++ name ++ tail).length ≤ REQ_BUF := by
  have hroom : 32 + NAME_BUF + 32 ≤ REQ_BUF := by decide
  rw [length_append, length_append]
  omega

theorem length_authPlainLine {user pass : Bytes} (h : plainEncodable user pass = true) :
    (authPlainLine user pass).length ≤ REQ_BUF := by
  have hroom : 2 * SMTP_SASL_MAX + 64 ≤ REQ_BUF := by decide
  have hsasl : user.length + pass.length + 2 ≤ SMTP_SASL_MAX := by
    simp only [plainEncodable, and_eq_true, decide_eq_true_eq] at h
    exact h.2
  have hcode := length_smtpB64Encode (0 :: user ++ 0 :: pass)
  simp only [length_append, length_cons] at hcode
  rw [authPlainLine, length_append, length_append]
  have hhead : (ascii "AUTH PLAIN ").length = 11 := by decide
  have htail : (ascii "\r\n").length = 2 := by decide
  omega

inductive Moves : SmtpPhase → UInt16 → SmtpAuthPlan → SmtpCmd → SmtpPhase → Prop
  | greet {auth : SmtpAuthPlan} : Moves .greet 220 auth .sendEhlo .ehlo
  | ehlo : Moves .ehlo 250 .none .sendMailFrom .mailFrom
  | login : Moves .ehlo 250 .plain .sendAuth .auth
  | auth {auth : SmtpAuthPlan} : Moves .auth 235 auth .sendMailFrom .mailFrom
  | mailFrom {auth : SmtpAuthPlan} : Moves .mailFrom 250 auth .sendRcptTo .rcptTo
  | rcptTo {auth : SmtpAuthPlan} : Moves .rcptTo 250 auth .sendData .data
  | data {auth : SmtpAuthPlan} : Moves .data 354 auth .sendBody .body
  | body {auth : SmtpAuthPlan} : Moves .body 250 auth .sendQuit .quit
  | quit {auth : SmtpAuthPlan} : Moves .quit 221 auth .complete .done

theorem reply_cases (cfg : SmtpConfig) (w : SmtpWorld) (code : UInt16) :
    smtpOnReply w.phase code (w.authPlan cfg) = (.fail, .failed) ∨ ∃ phase auth cmd next,
      w.phase = phase ∧ w.authPlan cfg = auth ∧ smtpOnReply w.phase code (w.authPlan cfg) = (cmd, next) ∧
        Moves phase code auth cmd next := by
  generalize w.phase = phase
  generalize w.authPlan cfg = auth
  unfold smtpOnReply
  cases phase
  case ehlo =>
    by_cases hcode : code = 250
    · subst hcode
      cases auth with
      | none => exact .inr ⟨_, _, _, _, rfl, rfl, rfl, .ehlo⟩
      | plain => exact .inr ⟨_, _, _, _, rfl, rfl, rfl, .login⟩
      | refuse => exact .inl rfl
    · exact .inl (if_neg hcode)
  all_goals
    dsimp only
    try split_ifs with hcode
  all_goals first
    | exact .inl rfl
    | exact .inr ⟨_, _, _, _, rfl, rfl, rfl, by subst hcode; constructor⟩

theorem smtpReplyAccepts_iff {phase : SmtpPhase} :
    smtpReplyAccepts phase code = true ↔ phase = .body ∧ code = 250 := by
  simp [smtpReplyAccepts]

theorem onReply_fail {cfg : SmtpConfig} (hreply : smtpOnReply w.phase code (w.authPlan cfg) = (.fail, .failed)) :
    course (w.onReply cfg code now) = { course w with phase := .failed } := by
  have hacc : smtpReplyAccepts w.phase code = false := by
    refine eq_false_iff.mpr fun hacc => ?_
    obtain ⟨hp, rfl⟩ := smtpReplyAccepts_iff.mp hacc
    rw [hp] at hreply
    cases hreply
  have hclass : smtpClassifyCode code ≠ .accepted := by
    unfold smtpClassifyCode
    split_ifs <;> exact SmtpOutcome.noConfusion
  simp only [onReply, hacc, false_eq_true, if_false, hreply]
  by_cases hrefused : w.phase = .ehlo ∧ code = 250 ∧ w.authPlan cfg = .refuse
  · rw [if_pos hrefused, course_closeConnection, course_emitStatus,
      course_emitResult _ SmtpOutcome.noConfusion]
    rfl
  · rw [if_neg hrefused, course_closeConnection, course_emitStatus, course_emitResult _ hclass]
    rfl

theorem onReply_send {cfg : SmtpConfig} {cmd : SmtpCmd}
    {next : SmtpPhase} (hacc : smtpReplyAccepts w.phase code = false)
    (hreply : smtpOnReply w.phase code (w.authPlan cfg) = (cmd, next)) (hfail : cmd ≠ .fail)
    (hcomplete : cmd ≠ .complete) :
    w.onReply cfg code now = stageCmd cfg { w with phase := next } cmd now := by
  cases cmd
  case fail => exact absurd rfl hfail
  case complete => exact absurd rfl hcomplete
  all_goals simp only [onReply, hacc, false_eq_true, if_false, hreply]

theorem stageCmd_spec {cfg : SmtpConfig} {cmd : SmtpCmd} {bytes : Bytes} (now : UInt64)
    (hcmd : w.commandFor cfg cmd = some bytes) (hlen : bytes.length ≤ REQ_BUF) :
    course (w.stageCmd cfg cmd now) =
      { course w with staged := w.staged ++ bytes, req := bytes, reqSent := 0 } := by
  rw [stageCmd, hcmd]
  exact course_stageReq w now hlen

theorem course_emitAccepted (w : SmtpWorld) (reached : SmtpPhase) :
    course (w.emitResult .accepted reached) =
      { course w with accepts := (w.emitResult .accepted reached).accepts } := by
  unfold emitResult
  by_cases hdone : w.resProduced = true
  · rw [if_pos hdone]
    rfl
  · rw [if_neg hdone]
    rfl

def afterReply (cfg : SmtpConfig) (w : SmtpWorld) (code : UInt16) (now : UInt64) : SmtpWorld :=
  stageCmd cfg { w with phase := (smtpOnReply w.phase code (w.authPlan cfg)).2 }
    (smtpOnReply w.phase code (w.authPlan cfg)).1 now

theorem course_onAccept {cfg : SmtpConfig} (now : UInt64) (hp : w.phase = .body) :
    course (w.onReply cfg 250 now) =
      { course w with
        accepts := (w.emitResult .accepted .body).accepts
        phase := .quit
        staged := w.staged ++ quitLine
        req := quitLine
        reqSent := 0 } := by
  have hacc : smtpReplyAccepts w.phase 250 = true := by rw [hp]; rfl
  obtain ⟨u, hu⟩ : ∃ u, u = (w.emitResult .accepted .body).emitStatus cfg (ascii "smtp: delivered\n") := ⟨_, rfl⟩
  have hcu : course u = { course w with accepts := (w.emitResult .accepted .body).accepts } := by
    rw [hu, course_emitStatus, course_emitAccepted]
  rw [onReply]
  simp only [hacc, if_true]
  rw [hp, ← hu]
  simp only [smtpOnReply, if_true]
  rw [stageCmd_spec now rfl (by decide)]
  show ({ course u with
      phase := .quit, staged := (course u).staged ++ quitLine, req := quitLine, reqSent := 0 } : Course) = _
  rw [hcu]
  rfl

theorem course_onReply (cfg : SmtpConfig) (w : SmtpWorld) (code : UInt16) (now : UInt64) :
    ∃ accepts, course (w.onReply cfg code now) = { course (afterReply cfg w code now) with accepts := accepts } := by
  obtain hreply | ⟨phase, auth, cmd, next, hp, hplan, hreply, hmoves⟩ := reply_cases cfg w code
  · rw [onReply_fail hreply, afterReply, hreply]
    exact ⟨_, rfl⟩
  rw [afterReply, hreply]
  cases hmoves
  case body =>
    rw [course_onAccept now hp, stageCmd_spec now rfl (by decide)]
    exact ⟨_, rfl⟩
  case quit =>
    have hover : w.onReply cfg 221 now = emitStatus cfg { w with phase := .done } (ascii "smtp: delivered\n") := by
      rw [onReply, hp]
      rfl
    rw [hover, course_emitStatus]
    exact ⟨_, rfl⟩
  all_goals
    rw [onReply_send (by rw [hp]; rfl) hreply SmtpCmd.noConfusion SmtpCmd.noConfusion]
    exact ⟨_, rfl⟩

theorem course_afterReply (cfg : SmtpConfig) (w : SmtpWorld) (code : UInt16) (now : UInt64) :
    ∃ staged req reqSent, course (afterReply cfg w code now) =
      { course w with
        phase := (smtpOnReply w.phase code (w.authPlan cfg)).2
        staged := staged, req := req, reqSent := reqSent } := by
  rw [afterReply, stageCmd]
  split <;> exact ⟨_, _, _, rfl⟩

theorem phase_afterReply (cfg : SmtpConfig) (w : SmtpWorld) (code : UInt16) (now : UInt64) :
    (course (afterReply cfg w code now)).phase = (smtpOnReply w.phase code (w.authPlan cfg)).2 := by
  obtain ⟨staged, req, reqSent, hcourse⟩ := course_afterReply cfg w code now
  rw [hcourse]

theorem opActive_afterReply (cfg : SmtpConfig) (w : SmtpWorld) (code : UInt16) (now : UInt64)
    (h : w.opActive = false → w.phase = .disconnected ∨ w.phase = .failed) :
    (course (afterReply cfg w code now)).opActive = false →
      (course (afterReply cfg w code now)).phase = .disconnected ∨
        (course (afterReply cfg w code now)).phase = .failed := by
  obtain ⟨staged, req, reqSent, hcourse⟩ := course_afterReply cfg w code now
  intro hidle
  rw [phase_afterReply]
  rw [hcourse] at hidle
  rcases h hidle with hp | hp <;> exact .inr (by rw [hp]; rfl)

theorem course_pumpBody (w : SmtpWorld) (now : UInt64) : course (w.pumpBody now) = course w ∨
    w.phase = .body ∧ w.req.length ≤ w.reqSent ∧
      (w.chunk = [] ∧ w.moreBody = false ∧ w.bodyTerminated = false ∧ course (w.pumpBody now) = { course w with
          bodyTerminated := true
          staged := w.staged ++ smtpBodyEnd w.endsCrlf
          req := smtpBodyEnd w.endsCrlf
          reqSent := 0 } ∨
        w.chunk ≠ [] ∧ course (w.pumpBody now) = { course w with
          atLineStart := lineStartAfter w.atLineStart w.chunk
          endsCrlf := endsCrlf w.chunk
          chunk := []
          staged := w.staged ++ stuff w.atLineStart w.chunk
          req := stuff w.atLineStart w.chunk
          reqSent := 0 }) := by
  unfold pumpBody
  by_cases hskip : (w.phase ≠ .body || w.reqSent < w.req.length) = true
  · exact .inl (congrArg course (if_pos hskip))
  rw [if_neg hskip]
  obtain ⟨hp, hsent⟩ : w.phase = .body ∧ w.req.length ≤ w.reqSent := by
    simpa only [or_eq_true, decide_eq_true_eq, not_or, ne_eq, not_not, Nat.not_lt] using hskip
  by_cases hchunk : w.chunk = []
  · rw [if_neg (not_not.mpr hchunk)]
    by_cases hend : (!w.moreBody && !w.bodyTerminated) = true
    · rw [if_pos hend, course_stageReq _ now (by cases w.endsCrlf <;> decide)]
      obtain ⟨hmore, hterm⟩ : w.moreBody = false ∧ w.bodyTerminated = false := by simpa using hend
      exact .inr ⟨hp, hsent, .inl ⟨hchunk, hmore, hterm, rfl⟩⟩
    · exact .inl (congrArg course (if_neg hend))
  · rw [if_pos hchunk]
    cases hput : smtpBodyChunk REQ_BUF w.chunk w.atLineStart with
    | none => exact .inl rfl
    | some r =>
      obtain ⟨out, atLineStart⟩ := r
      obtain ⟨hlen, rfl, rfl⟩ := smtpBodyChunk_eq_some hput
      exact .inr ⟨hp, hsent, .inr ⟨hchunk, course_stageReq _ now hlen⟩⟩

structure Kept (cfg : SmtpConfig) (Ok : UInt64 → SmtpWorld → SmtpFrame → Prop) (K : Course → Prop) : Prop where
  fail : ∀ c, K c → K { c with phase := .failed }
  data : ∀ now w conn bytes, Ok now w (.data conn bytes) → K (course w) → K (course (w.onData cfg now conn bytes))
  dial : ∀ c, c.opActive = true → c.phase = .disconnected → K c → K { c with phase := .connecting }
  connect : ∀ c, c.phase = .connecting → K c → K { c with phase := .greet }
  head : ∀ c mailFrom rcptTo body more, c.opActive = false → mailFrom.length ≤ NAME_BUF → rcptTo.length ≤ NAME_BUF →
    K c → K { c with
      mailFrom := mailFrom, rcptTo := rcptTo, chunk := body, moreBody := more, atLineStart := true,
      endsCrlf := false, bodyTerminated := false, opActive := true, message := body }
  more : ∀ c data more, c.moreBody = true → K c →
    K { c with chunk := c.chunk ++ data, message := c.message ++ data, moreBody := more }

variable {cfg : SmtpConfig} {Ok : UInt64 → SmtpWorld → SmtpFrame → Prop} {K : Course → Prop}

theorem Kept.endAbandoned (h : Kept cfg Ok K) (hw : K (course w)) : K (course w.endAbandoned) := by
  have hcourse := course_closeConnection
    { w with abandoned := true, resOwed := false, resProduced := true, creditOwed := 0 }
  have hend : course w.endAbandoned = { course w with phase := .failed } := by
    rw [← show course _ = course w from hcourse]
    rfl
  rw [hend]
  exact h.fail _ hw

theorem Kept.takeRecord (h : Kept cfg Ok K) (record : SmtpRecord) (hw : K (course w)) :
    K (course (w.takeRecord cfg record)) := by
  cases record with
  | head id post plain mailFrom target body more respCredit =>
    rw [SmtpWorld.takeRecord]
    by_cases hlive : w.live id = true
    · rw [if_pos hlive]
      exact hw
    rw [if_neg hlive]
    by_cases hbusy : (w.draining || w.opActive) = true
    · rw [if_pos hbusy, course_refuse]
      exact hw
    rw [if_neg hbusy]
    by_cases hbad : (!post || !plain || mailFrom = [] || target = []) = true
    · rw [if_pos hbad, course_refuse]
      exact hw
    rw [if_neg hbad]
    by_cases hlarge : (mailFrom.length > NAME_BUF || target.length > NAME_BUF || body.length > CHUNK_BUF) = true
    · rw [if_pos hlarge, course_refuse]
      exact hw
    rw [if_neg hlarge]
    simp only [or_eq_true, decide_eq_true_eq, not_or, Nat.not_lt] at hlarge
    have hidle : w.opActive = false := by
      simp only [or_eq_true, not_or] at hbusy
      exact eq_false_iff.mpr hbusy.2
    exact h.head _ mailFrom target body more hidle hlarge.1.1 hlarge.1.2 hw
  | body id more data =>
    rw [SmtpWorld.takeRecord]
    by_cases hlive : w.live id = true
    · rw [if_pos hlive]
      by_cases hover : (!w.moreBody || data.length > w.creditOut) = true
      · rw [if_pos hover]
        exact h.endAbandoned hw
      · rw [if_neg hover]
        have hmore : w.moreBody = true := by
          simp only [or_eq_true, not_or, Bool.not_eq_true', Bool.not_eq_false] at hover
          exact hover.1
        exact h.more _ data more hmore hw
    · rw [if_neg hlive]
      exact hw
  | credit id bytes =>
    rw [SmtpWorld.takeRecord]
    split_ifs <;> exact hw
  | abort id =>
    rw [SmtpWorld.takeRecord]
    split_ifs
    · refine h.endAbandoned ?_
      rw [course_emitStatus]
      exact hw
    · exact hw
  | other => exact hw

theorem Kept.pumpLoop (h : Kept cfg Ok K) (fuel : Nat) {records : List SmtpRecord} (hw : K (course w)) : K (course (w.pumpLoop cfg fuel records)) := by
  induction fuel generalizing records w with
  | zero => exact hw
  | succ fuel ih =>
    rw [SmtpWorld.pumpLoop]
    have howed := course_flushOwed w
    cases hflush : w.flushOwed with
    | mk flushed u =>
      rw [hflush] at howed
      have hu : K (course u) := by
        rw [show course u = course w from howed]
        exact hw
      cases flushed with
      | false => exact hu
      | true =>
        cases records with
        | nil => exact hu
        | cons record rest => exact ih (h.takeRecord record hu)

theorem keeps_onData (h : ∀ w code now, K (course w) → K (course (w.onReply cfg code now))) (now : UInt64)
    (conn : UInt16) (bytes : Bytes) (hw : K (course w)) : K (course (w.onData cfg now conn bytes)) := by
  have hdrain : ∀ fuel (v : SmtpWorld), K (course v) → K (course (v.drainReplies cfg now fuel)) := by
    intro fuel
    induction fuel with
    | zero => exact fun _ hv => hv
    | succ fuel ih =>
      intro v hv
      rw [drainReplies]
      by_cases hover : (v.phase = .done || v.phase = .failed) = true
      · rw [if_pos hover]
        exact hv
      · rw [if_neg hover]
        cases smtpReplyLine v.acc with
        | none => exact hv
        | some line =>
          have htaken : K (course (v.takeLine line)) := by
            rw [course_takeLine]
            exact hv
          simp only
          split_ifs
          · exact ih _ (h _ _ _ htaken)
          · exact ih _ htaken
  rw [onData]
  split_ifs
  · exact hw
  · exact hdrain _ _ hw

theorem Kept.onFrame (h : Kept cfg Ok K) {frame : SmtpFrame} (hok : Ok now w frame) (hw : K (course w)) : K (course (onFrame cfg now w frame)) := by
  cases frame with
  | connected conn tag =>
    rw [SmtpWorld.onFrame]
    by_cases hmine : (w.phase = .connecting && tag = cfg.tag) = true
    · have hp : w.phase = .connecting := by
        simp only [and_eq_true, decide_eq_true_eq] at hmine
        exact hmine.1
      rw [if_pos hmine]
      exact h.connect _ hp hw
    · rw [if_neg hmine]
      exact hw
  | data conn bytes => exact h.data now w conn bytes hok hw
  | closed conn =>
    rw [SmtpWorld.onFrame, onClosed]
    split_ifs
    · exact hw
    · have hcourse := course_emitStatus cfg (emitResult { w with phase := .failed } .closed .failed)
        (ascii "smtp: connection closed\n")
      rw [course_emitResult _ SmtpOutcome.noConfusion] at hcourse
      show K (course (emitStatus cfg _ _))
      rw [hcourse]
      exact h.fail _ hw
  | error conn tag =>
    show K (course (w.onError cfg conn tag))
    unfold onError
    simp only
    generalize hout : (if (w.phase = .connecting && tag = some cfg.tag) = true then SmtpOutcome.connectFailed
      else .closed) = outcome
    have hne : outcome ≠ .accepted := by
      rw [← hout]
      split_ifs <;> exact SmtpOutcome.noConfusion
    split
    · rw [course_emitStatus, course_emitResult _ hne]
      exact h.fail _ hw
    · exact hw
  | other => exact hw

theorem Kept.stepDial (h : Kept cfg Ok K) (inp : SmtpInput) (hw : K (course w)) :
    K (course (((w.facing inp).pumpRequests cfg inp.records).stepDial inp)) := by
  have hpumped : K (course ((w.facing inp).pumpRequests cfg inp.records)) := by
    rw [pumpRequests]
    split_ifs
    · exact hw
    · exact h.pumpLoop 4 hw
  rw [SmtpWorld.stepDial]
  split_ifs with hdial
  · simp only [and_eq_true, decide_eq_true_eq] at hdial
    exact h.dial _ hdial.1.1.1 hdial.1.1.2 hpumped
  · exact hpumped

theorem Kept.stepReplies (h : Kept cfg (fun _ _ _ => True) K) (inp : SmtpInput) (hw : K (course w)) :
    K (course (w.stepReplies cfg inp)) := by
  have hframes : ∀ (frames : List SmtpFrame) (v : SmtpWorld), K (course v) →
      K (course (frames.foldl (SmtpWorld.onFrame cfg inp.now) v)) := by
    intro frames
    induction frames with
    | nil => exact fun _ hv => hv
    | cons frame rest ih => exact fun v hv => ih _ (h.onFrame trivial hv)
  exact hframes _ _ (h.stepDial inp hw)

theorem course_sendStaged (taken : List Bool) (w : SmtpWorld) :
    ∃ wire reqSent, wire ++ w.req.drop reqSent = w.wire ++ w.req.drop w.reqSent ∧
      (w.reqSent ≤ w.req.length → reqSent ≤ w.req.length) ∧
      course (sendStaged taken w) = { course w with wire := wire, reqSent := reqSent } := by
  induction taken generalizing w with
  | nil => exact ⟨_, _, rfl, id, rfl⟩
  | cons t rest ih =>
    cases t with
    | false => exact ⟨_, _, rfl, id, rfl⟩
    | true =>
      rw [sendStaged]
      by_cases hlt : w.reqSent < w.req.length
      · rw [if_pos hlt]
        obtain ⟨wire, reqSent, hsame, hle, hcourse⟩ := ih { w with
          wire := w.wire ++ (w.req.drop w.reqSent).take MAX_CHUNK
          reqSent := w.reqSent + min (w.req.length - w.reqSent) MAX_CHUNK }
        have hcut : (w.req.drop w.reqSent).drop (min (w.req.length - w.reqSent) MAX_CHUNK) =
            (w.req.drop w.reqSent).drop MAX_CHUNK := by
          rcases Nat.le_total (w.req.length - w.reqSent) MAX_CHUNK with hle | hle
          · rw [Nat.min_eq_left hle, drop_of_length_le, drop_of_length_le]
            · rw [length_drop]
              exact hle
            · rw [length_drop]
          · rw [Nat.min_eq_right hle]
        refine ⟨wire, reqSent, hsame.trans ?_, fun _ => hle ?_, hcourse⟩
        · show w.wire ++ (w.req.drop w.reqSent).take MAX_CHUNK ++
            w.req.drop (w.reqSent + min (w.req.length - w.reqSent) MAX_CHUNK) = _
          rw [← drop_drop, hcut, append_assoc, take_append_drop]
        · show w.reqSent + min (w.req.length - w.reqSent) MAX_CHUNK ≤ w.req.length
          omega
      · rw [if_neg hlt]
        exact ⟨_, _, rfl, id, rfl⟩

theorem course_stepTimeout (cfg : SmtpConfig) (w : SmtpWorld) (now : UInt64) :
    course (w.stepTimeout cfg now) = course w ∨
      course (w.stepTimeout cfg now) = { course w with phase := .failed } := by
  unfold stepTimeout
  generalize (if w.phase = .connecting then CONNECT_TIMEOUT_MS else REPLY_TIMEOUT_MS) = limit
  split
  · rw [course_emitStatus, course_emitResult _ SmtpOutcome.noConfusion]
    exact .inr rfl
  · exact .inl rfl

def idleCourse (accepts : List Acceptance) : Course where
  staged := []
  wire := []
  req := []
  reqSent := 0
  mailFrom := []
  rcptTo := []
  chunk := []
  message := []
  atLineStart := true
  endsCrlf := false
  bodyTerminated := false
  moreBody := false
  phase := .disconnected
  opActive := false
  accepts := accepts

theorem course_stepFinish (w : SmtpWorld) :
    course w.stepFinish = course w ∨ course w.stepFinish = idleCourse (course w).accepts := by
  unfold stepFinish finishOp
  split_ifs
  · exact .inl rfl
  · rw [← course_closeConnection w]
    exact .inr rfl
  · exact .inl rfl

theorem course_moduleStep (cfg : SmtpConfig) (w : SmtpWorld) (inp : SmtpInput) :
    ∃ wire reqSent, ∃ u : SmtpWorld, u = (w.stepReplies cfg inp).pumpBody inp.now ∧
      wire ++ u.req.drop reqSent = u.wire ++ u.req.drop u.reqSent ∧ (u.reqSent ≤ u.req.length → reqSent ≤ u.req.length) ∧
      (course (w.moduleStep cfg inp) = { course u with wire := wire, reqSent := reqSent } ∨
        course (w.moduleStep cfg inp) = { course u with wire := wire, reqSent := reqSent, phase := .failed } ∨
        course (w.moduleStep cfg inp) = idleCourse u.accepts) := by
  obtain ⟨u, hu⟩ : ∃ u, u = (w.stepReplies cfg inp).pumpBody inp.now := ⟨_, rfl⟩
  have hsend : ∃ wire reqSent, wire ++ u.req.drop reqSent = u.wire ++ u.req.drop u.reqSent ∧
      (u.reqSent ≤ u.req.length → reqSent ≤ u.req.length) ∧
      course (u.stepSend inp) = { course u with wire := wire, reqSent := reqSent } := by
    rw [stepSend]
    split_ifs
    · exact course_sendStaged inp.sendTaken u
    · exact ⟨_, _, rfl, id, rfl⟩
  obtain ⟨wire, reqSent, hsame, hle, hsent⟩ := hsend
  refine ⟨wire, reqSent, u, hu, hsame, hle, ?_⟩
  rw [moduleStep, course_stepQuiesce, ← hu]
  have hfinish := course_stepFinish
    ((((u.stepSend inp).stepTimeout cfg inp.now).flushResult cfg).flushStatus inp.statusTaken)
  rw [course_flushStatus, course_flushResult] at hfinish
  rcases course_stepTimeout cfg (u.stepSend inp) inp.now with htime | htime <;> rw [htime, hsent] at hfinish
  · exact hfinish.imp_right .inr
  · exact .inr hfinish

end Wave.Smtp
