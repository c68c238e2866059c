import Wave.Smtp.BodyText
import Wave.Common.Base64
import Wave.Lib.Lines

/-! # The commands as the server reads them

Names go into the commands as they come. -/

namespace Wave.Smtp

open Lib Common SmtpWorld

def Unbroken (l : Bytes) : Prop := ∀ b ∈ l, b ≠ 0x0D ∧ b ≠ 0x0A

instance (l : Bytes) : Decidable (Unbroken l) := inferInstanceAs (Decidable (∀ b ∈ l, _))

def OneLine (cmd : Bytes) : Prop := ∃ l, cmd = l ++ [0x0D, 0x0A] ∧ Unbroken l

/-- Where a path is read: an angle bracket in a quoted string does not close it. -/
inductive PathState where
  | plain
  | quoted
  | escaped
deriving DecidableEq

def PathState.next : PathState → UInt8 → PathState
  | .plain, b => if b = 0x22 then .quoted else .plain
  | .quoted, b => if b = 0x22 then .plain else if b = 0x5C then .escaped else .quoted
  | .escaped, _ => .quoted

def readPath : PathState → Bytes → Option (Bytes × Bytes)
  | _, [] => none
  | q, b :: rest =>
    if q = .plain ∧ b = 0x3E then some ([], rest) else (readPath (q.next b) rest).map fun r => (b :: r.1, r.2)

def Names (head path cmd : Bytes) : Prop :=
  ∃ rest, cmd = head ++ rest ∧ readPath .plain rest = some (path, [0x0D, 0x0A])

/-- A path that its own bracket closes. -/
def Enclosed : PathState → Bytes → Prop
  | q, [] => q = .plain
  | q, b :: rest => ¬(q = .plain ∧ b = 0x3E) ∧ Enclosed (q.next b) rest

/-- The command in hand is one line, and the address in it the submission's. -/
def CommandSound (w : SmtpWorld) : Prop :=
  match w.phase with
  | .ehlo | .auth => OneLine w.req
  | .mailFrom => OneLine w.req ∧ Names (ascii "MAIL FROM:<") w.mailFrom w.req
  | .rcptTo => OneLine w.req ∧ Names (ascii "RCPT TO:<") w.rcptTo w.req
  | _ => True

/-- The name in the command is fit for it. Credentials are encoded; those that cannot be leave the greeting in hand. -/
def CommandSafe (cfg : SmtpConfig) (w : SmtpWorld) : Prop :=
  match w.phase with
  | .ehlo => Unbroken cfg.helo.val
  | .auth => plainEncodable cfg.authUser.val cfg.authPass.val = true ∨ Unbroken cfg.helo.val
  | .mailFrom => Unbroken w.mailFrom ∧ Enclosed .plain w.mailFrom
  | .rcptTo => Unbroken w.rcptTo ∧ Enclosed .plain w.rcptTo
  | _ => True

def envelopeLines (cfg : SmtpConfig) (mailFrom rcptTo : Bytes) : List Bytes :=
  [ascii "EHLO " ++ cfg.helo.val] ++
    (if cfg.authUser.val = [] then [] else
      [ascii "AUTH PLAIN " ++ smtpB64Encode (0 :: cfg.authUser.val ++ 0 :: cfg.authPass.val)]) ++
    [ascii "MAIL FROM:<" ++ mailFrom ++ ascii ">", ascii "RCPT TO:<" ++ rcptTo ++ ascii ">", ascii "DATA"]

variable {cfg : SmtpConfig} {w : SmtpWorld} {code : UInt16} {now : UInt64}

theorem unbroken_append {a b : Bytes} : Unbroken (a ++ b) ↔ Unbroken a ∧ Unbroken b := forall_mem_append

theorem oneLine_iff (l : Bytes) : OneLine (l ++ ascii "\r\n") ↔ Unbroken l := by
  rw [show ascii "\r\n" = [0x0D, 0x0A] by decide]
  constructor
  · rintro ⟨l', hl, hunbroken⟩
    rwa [(List.append_inj' hl rfl).1]
  · exact fun h => ⟨l, rfl, h⟩

theorem readPath_iff (q : PathState) (path rest : Bytes) :
    readPath q (path ++ 0x3E :: rest) = some (path, rest) ↔ Enclosed q path := by
  induction path generalizing q with
  | nil =>
    rw [nil_append, readPath, Enclosed]
    by_cases hq : q = .plain
    · rw [if_pos ⟨hq, rfl⟩]
      exact iff_of_true rfl hq
    · rw [if_neg fun h => hq h.1]
      refine iff_of_false (fun h => ?_) hq
      obtain ⟨r, -, hr⟩ := map_eq_some_iff.mp h
      cases hr
  | cons b path ih =>
    rw [cons_append, readPath, Enclosed]
    by_cases hclose : q = .plain ∧ b = 0x3E
    · rw [if_pos hclose]
      exact iff_of_false (fun h => by cases h) fun h => h.1 hclose
    · rw [if_neg hclose, ← ih, and_iff_right hclose, map_eq_some_iff]
      constructor
      · rintro ⟨r, hr, heq⟩
        obtain ⟨hpath, rfl⟩ := Prod.mk.inj heq
        obtain ⟨-, rfl⟩ := List.cons.inj hpath
        exact hr
      · exact fun h => ⟨_, h, rfl⟩

theorem named_iff {head addr : Bytes} (hhead : Unbroken head) :
    (OneLine (head ++ addr ++ ascii ">\r\n") ∧ Names head addr (head ++ addr ++ ascii ">\r\n")) ↔
      Unbroken addr ∧ Enclosed .plain addr := by
  have hline : head ++ addr ++ ascii ">\r\n" = head ++ addr ++ ascii ">" ++ ascii "\r\n" := by
    rw [show ascii ">\r\n" = ascii ">" ++ ascii "\r\n" by decide, ← append_assoc]
  have hgt : Unbroken (ascii ">") := by
    rw [show ascii ">" = [0x3E] by decide]
    exact forall_mem_singleton.mpr (by decide)
  refine and_congr ?_ ?_
  · rw [hline, oneLine_iff, unbroken_append, unbroken_append]
    exact ⟨fun h => h.1.2, fun h => ⟨⟨hhead, h⟩, hgt⟩⟩
  · rw [show ascii ">\r\n" = 0x3E :: [0x0D, 0x0A] by decide, ← readPath_iff .plain addr [0x0D, 0x0A]]
    constructor
    · rintro ⟨rest, heq, hread⟩
      rw [append_assoc, List.append_cancel_left_eq] at heq
      rwa [heq]
    · exact fun h => ⟨_, append_assoc _ _ _, h⟩

theorem unbroken_encode (x : Bytes) : Unbroken (smtpB64Encode x) := by
  have hchar : ∀ n, base64Char n ≠ 0x0D ∧ base64Char n ≠ 0x0A := fun n => by
    have hkind := (symbol_kind (b64Value_base64Char n)).1
    simp only [isFiller, or_eq_false_iff, decide_eq_false_iff_not] at hkind
    exact hkind.1
  have hpad : (0x3D : UInt8) ≠ 0x0D ∧ (0x3D : UInt8) ≠ 0x0A := by decide
  induction x using smtpB64Encode.induct with
  | case1 => rintro _ ⟨⟩
  | case2 a => simp [smtpB64Encode, Unbroken, hchar]
  | case3 a b => simp [smtpB64Encode, Unbroken, hchar]
  | case4 a b c rest ih =>
    simp only [smtpB64Encode, Unbroken, forall_mem_cons]
    exact ⟨hchar _, hchar _, hchar _, hchar _, ih⟩

theorem unbroken_words : Unbroken (ascii "EHLO ") ∧ Unbroken (ascii "AUTH PLAIN ") ∧ Unbroken (ascii "MAIL FROM:<") ∧
    Unbroken (ascii "RCPT TO:<") ∧ Unbroken (ascii ">") ∧ Unbroken (ascii "DATA") := by decide +kernel

theorem unbroken_ehlo : OneLine (ehloLine cfg.helo.val) ↔ Unbroken cfg.helo.val := by
  rw [ehloLine, oneLine_iff, unbroken_append, and_iff_right unbroken_words.1]

theorem unbroken_auth (user pass : Bytes) :
    Unbroken (ascii "AUTH PLAIN " ++ smtpB64Encode (0 :: user ++ 0 :: pass)) :=
  unbroken_append.mpr ⟨unbroken_words.2.1, unbroken_encode _⟩

theorem split_envelope {mailFrom rcptTo : Bytes} (hhelo : Unbroken cfg.helo.val)
    (hmail : Unbroken mailFrom) (hrcpt : Unbroken rcptTo) :
    Lines.split 0x0D 0x0A (envelope cfg mailFrom rcptTo) = envelopeLines cfg mailFrom rcptTo ++ [[]] := by
  have hwhole : ∀ l, Unbroken l → Lines.Whole (0x0D : UInt8) 0x0A l := fun l hl hsep =>
    (hl 0x0D (hsep.subset mem_cons_self)).1 rfl
  obtain ⟨hehlo, -, hfrom, hto, hgt, hdata⟩ := unbroken_words
  have hlines : ∀ l ∈ envelopeLines cfg mailFrom rcptTo, Unbroken l := by
    simp only [envelopeLines, forall_mem_append, forall_mem_cons, unbroken_append]
    refine ⟨⟨⟨⟨hehlo, hhelo⟩, nofun⟩, ?_⟩, ⟨⟨hfrom, hmail⟩, hgt⟩, ⟨⟨hto, hrcpt⟩, hgt⟩, hdata, nofun⟩
    split_ifs
    · exact nofun
    · exact forall_mem_singleton.mpr (unbroken_auth _ _)
  rw [← Lines.split_lines (by decide) fun l hl => hwhole l (hlines l hl)]
  congr 1
  have hend : ascii ">\r\n" = ascii ">" ++ [0x0D, 0x0A] ∧ ascii "DATA\r\n" = ascii "DATA" ++ [0x0D, 0x0A] ∧
      ascii "\r\n" = [0x0D, 0x0A] := by decide
  rw [envelope, mailPart, authPart, ehloLine, mailFromLine, rcptToLine, dataLine, envelopeLines, hend.1, hend.2.1, hend.2.2]
  split_ifs <;> simp [authPlainLine, hend.2.2]

def spokenLine (cfg : SmtpConfig) (c : Script) : Option Bytes :=
  match c.phase with
  | .ehlo => some (ehloLine cfg.helo.val)
  | .auth =>
    if plainEncodable cfg.authUser.val cfg.authPass.val then
      some (authPlainLine cfg.authUser.val cfg.authPass.val)
    else some (ehloLine cfg.helo.val)
  | .mailFrom => some (mailFromLine c.mailFrom)
  | .rcptTo => some (rcptToLine c.rcptTo)
  | _ => none

structure Spoken (cfg : SmtpConfig) (c : Course) : Prop where
  idle : c.opActive = false → c.phase = .disconnected ∨ c.phase = .failed
  mailFrom : c.mailFrom.length ≤ NAME_BUF
  rcptTo : c.rcptTo.length ≤ NAME_BUF
  said : ∀ line, spokenLine cfg c.toScript = some line → c.req = line

theorem Spoken.silent {c c' : Course} (h : Spoken cfg c) (hmail : c'.mailFrom = c.mailFrom)
    (hrcpt : c'.rcptTo = c.rcptTo) (hidle : c'.opActive = false → c'.phase = .disconnected ∨ c'.phase = .failed)
    (hnone : spokenLine cfg c'.toScript = none) : Spoken cfg c' :=
  ⟨hidle, hmail ▸ h.mailFrom, hrcpt ▸ h.rcptTo, fun line hline => by rw [hnone] at hline; cases hline⟩

theorem Spoken.sends (h : Spoken cfg (course w))
    {cmd : SmtpCmd} {next : SmtpPhase} {bytes : Bytes}
    (hreply : smtpOnReply w.phase code (w.authPlan cfg) = (cmd, next))
    (hcmd : SmtpWorld.commandFor cfg { w with phase := next } cmd = some bytes) (hlen : bytes.length ≤ REQ_BUF)
    (hline : spokenLine cfg { (course w).toScript with phase := next, staged := w.staged ++ bytes } = some bytes) :
    Spoken cfg (course (afterReply cfg w code now)) := by
  have hidle := opActive_afterReply cfg w code now h.idle
  have hafter : afterReply cfg w code now = stageCmd cfg { w with phase := next } cmd now := by rw [afterReply, hreply]
  rw [hafter] at hidle ⊢
  rw [stageCmd_spec now hcmd hlen] at hidle ⊢
  exact ⟨hidle, h.mailFrom, h.rcptTo, fun line hsaid => Option.some.inj (hline.symm.trans hsaid)⟩

theorem Spoken.ends (h : Spoken cfg (course w))
    {cmd : SmtpCmd} {next : SmtpPhase} (hreply : smtpOnReply w.phase code (w.authPlan cfg) = (cmd, next))
    (hnone : ∀ c : Script, c.phase = next → spokenLine cfg c = none) : Spoken cfg (course (afterReply cfg w code now)) := by
  have hafter := hnone _ ((phase_afterReply cfg w code now).trans (congrArg Prod.snd hreply))
  have hidle := opActive_afterReply cfg w code now h.idle
  obtain ⟨staged, req, reqSent, hcourse⟩ := course_afterReply cfg w code now
  rw [hcourse] at hafter hidle ⊢
  exact h.silent rfl rfl hidle hafter

theorem spoken_afterReply (code : UInt16) (now : UInt64)
    (h : Spoken cfg (course w)) : Spoken cfg (course (afterReply cfg w code now)) := by
  have hmail : (mailFromLine w.mailFrom).length ≤ REQ_BUF := length_named h.mailFrom (by decide) (by decide)
  have hrcpt : (rcptToLine w.rcptTo).length ≤ REQ_BUF := length_named h.rcptTo (by decide) (by decide)
  have hehlo : (ehloLine cfg.helo.val).length ≤ REQ_BUF := length_named cfg.helo.property (by decide) (by decide)
  obtain hreply | ⟨phase, auth, cmd, next, hp, hplan, hreply, hmoves⟩ := reply_cases cfg w code
  · exact h.ends hreply fun c hc => by rw [spokenLine, hc]
  cases hmoves with
  | greet => exact h.sends hreply (smtpPut_of_le hehlo) hehlo rfl
  | ehlo => exact h.sends hreply (smtpPut_of_le hmail) hmail rfl
  | login =>
    by_cases henc : plainEncodable cfg.authUser.val cfg.authPass.val = true
    · refine h.sends hreply ?_ (length_authPlainLine henc) (if_pos henc)
      rw [commandFor, smtpAuthPlain, if_pos henc, smtpPut_of_le (length_authPlainLine henc)]
    · -- The greeting is still in hand.
      have hnone : SmtpWorld.commandFor cfg { w with phase := .auth } .sendAuth = none := by
        rw [commandFor, smtpAuthPlain, if_neg henc]
      have hafter : afterReply cfg w 250 now = { w with phase := .auth } := by
        rw [afterReply, hreply, stageCmd, hnone]
      have hidle := opActive_afterReply cfg w 250 now h.idle
      rw [hafter] at hidle ⊢
      refine ⟨hidle, h.mailFrom, h.rcptTo, fun line hline => ?_⟩
      have hsame : line = ehloLine cfg.helo.val :=
        (Option.some.inj ((if_neg henc).symm.trans hline)).symm
      rw [hsame]
      exact h.said _ (by rw [spokenLine, show (course w).phase = _ from hp])
  | auth => exact h.sends hreply (smtpPut_of_le hmail) hmail rfl
  | mailFrom => exact h.sends hreply (smtpPut_of_le hrcpt) hrcpt rfl
  | rcptTo | data | body | quit => exact h.ends hreply fun c hc => by rw [spokenLine, hc]

theorem spoken_kept (cfg : SmtpConfig) : Kept cfg (fun _ _ _ => True) (Spoken cfg) where
  fail c h := h.silent rfl rfl (fun _ => .inr rfl) rfl
  data now w conn bytes _ h := keeps_onData (fun w code now h => by
    obtain ⟨accepts, hreply⟩ := course_onReply cfg w code now
    rw [hreply]
    have hafter := spoken_afterReply code now h
    exact ⟨hafter.idle, hafter.mailFrom, hafter.rcptTo, hafter.said⟩) now conn bytes h
  dial c hop hp h := h.silent rfl rfl (fun hidle => absurd (hop.symm.trans hidle) Bool.noConfusion) rfl
  connect c hp h := h.silent rfl rfl (fun hidle => by
    rcases h.idle hidle with hother | hother <;> exact absurd (hp.symm.trans hother) SmtpPhase.noConfusion) rfl
  head c mailFrom rcptTo body more hidle hmail hrcpt h := by
    refine ⟨nofun, hmail, hrcpt, fun line hline => ?_⟩
    rcases h.idle hidle with hp | hp <;> simp [spokenLine, hp] at hline
  more c data more hmore h := ⟨h.idle, h.mailFrom, h.rcptTo, h.said⟩

theorem spoken_pumpBody {u : SmtpWorld} (now : UInt64) (h : Spoken cfg (course u)) :
    Spoken cfg (course (u.pumpBody now)) := by
  obtain hpump | ⟨hp, -, hpump⟩ := course_pumpBody u now
  · rw [hpump]
    exact h
  have hsilent : ∀ c : Course, c.phase = .body → spokenLine cfg c.toScript = none := fun c hc => by rw [spokenLine, hc]
  obtain ⟨-, -, -, hpump⟩ | ⟨-, hpump⟩ := hpump <;> rw [hpump]
  · exact h.silent rfl rfl h.idle (hsilent _ hp)
  · exact h.silent rfl rfl h.idle (hsilent _ hp)

theorem spoken_moduleStep (inp : SmtpInput) (h : Spoken cfg (course w)) :
    Spoken cfg (course (w.moduleStep cfg inp)) := by
  have hpumped := spoken_pumpBody inp.now ((spoken_kept cfg).stepReplies inp h)
  obtain ⟨wire, reqSent, u, rfl, -, -, hend⟩ := course_moduleStep cfg w inp
  rcases hend with hend | hend | hend <;> rw [hend]
  · exact ⟨hpumped.idle, hpumped.mailFrom, hpumped.rcptTo, hpumped.said⟩
  · exact hpumped.silent rfl rfl (fun _ => .inr rfl) rfl
  · exact ⟨fun _ => .inl rfl, Nat.zero_le _, Nat.zero_le _, nofun⟩

theorem commandSound_iff (h : Spoken cfg (course w)) :
    CommandSound w ↔ CommandSafe cfg w := by
  have hsaid : ∀ line, spokenLine cfg (course w).toScript = some line → w.req = line := h.said
  obtain ⟨-, -, hfrom, hto, -⟩ := unbroken_words
  rw [CommandSound, CommandSafe]
  cases hp : w.phase <;> try exact Iff.rfl
  all_goals rw [spokenLine, show (course w).phase = _ from hp] at hsaid
  case ehlo => rw [hsaid _ rfl, unbroken_ehlo]
  case auth =>
    by_cases henc : plainEncodable cfg.authUser.val cfg.authPass.val = true
    · rw [hsaid _ (if_pos henc), authPlainLine, oneLine_iff]
      exact iff_of_true (unbroken_auth _ _) (.inl henc)
    · rw [hsaid _ (if_neg henc), unbroken_ehlo, or_iff_right henc]
  case mailFrom =>
    rw [hsaid _ rfl]
    exact named_iff hfrom
  case rcptTo =>
    rw [hsaid _ rfl]
    exact named_iff hto

/-- The command in hand is one line that names what was submitted just when the name in it is fit for it; then a
server reads each command of the envelope once. -/
theorem commandSound_run (cfg : SmtpConfig) (start : SmtpStart) (inps : List SmtpInput) :
    (CommandSound ((smtpMachine cfg).run start.world inps).1 ↔
      CommandSafe cfg ((smtpMachine cfg).run start.world inps).1) ∧
    ∀ mailFrom rcptTo, Unbroken cfg.helo.val → Unbroken mailFrom → Unbroken rcptTo →
      Lines.split 0x0D 0x0A (envelope cfg mailFrom rcptTo) = envelopeLines cfg mailFrom rcptTo ++ [[]] := by
  refine ⟨commandSound_iff ((smtpMachine cfg).run_invariant (P := fun _ _ => True)
    (I := fun w => Spoken cfg (course w)) (fun w inp h _ => spoken_moduleStep inp h) ?_
    ((smtpMachine cfg).along_of_forall (fun _ _ => trivial) _ _)), fun mailFrom rcptTo => split_envelope⟩
  exact ⟨fun _ => .inl rfl, length_take_le _ _, length_take_le _ _, nofun⟩

def twoRecipients : List SmtpInput :=
  [{ records := [.head 1 true true (ascii "a@b") (ascii "c@d>\r\nRCPT TO:<e@f") [] false 100] },
    { frames := [.connected 1 7] }, hears (ascii "220 hello\r\n"), hears (ascii "250 wave\r\n"),
    hears (ascii "250 ok\r\n")]

/-- A recipient with a line end in it is a second recipient. -/
theorem not_commandSound_twoRecipients :
    ¬∀ (cfg : SmtpConfig) (start : SmtpStart) (inps : List SmtpInput) (w : SmtpWorld),
      ((smtpMachine cfg).run start.world inps).1 = w → CommandSound w := by
  intro hall
  obtain ⟨w, hw⟩ : ∃ w, w = ((smtpMachine exchangeConfig).run ({} : SmtpStart).world twoRecipients).1 := ⟨_, rfl⟩
  have hend : (w.phase, w.req) = (.rcptTo, ascii "RCPT TO:<c@d>\r\nRCPT TO:<e@f>" ++ ascii "\r\n") := by
    rw [hw]
    decide +kernel
  have hsound := hall exchangeConfig {} twoRecipients w hw.symm
  simp only [Prod.mk.injEq] at hend
  obtain ⟨hp, hreq⟩ := hend
  rw [CommandSound, show w.phase = _ from hp] at hsound
  have hline := hsound.1
  rw [show w.req = _ from hreq, oneLine_iff] at hline
  exact absurd hline (by decide +kernel)

end Wave.Smtp
