import Wave.Smtp.Lockstep

/-! # The message as the server reads it

A piece that is the second half of a line end decides alone that the text does not end a line. -/

namespace Wave.Smtp

open Lib Common SmtpWorld

/-- `smtp_body`: a message in one piece. -/
def smtpBody (room : Nat) (body : Bytes) : Option Bytes :=
  (smtpPut room (stuff true body)).bind fun out =>
    smtpPut room ((if endsCrlf out then out else out ++ [0x0D, 0x0A]) ++ [0x2E, 0x0D, 0x0A])

def dotted (line : Bytes) : Bytes := if line.head? = some 0x2E then 0x2E :: line else line

def undotted (line : Bytes) : Bytes := if line.head? = some 0x2E then line.tail else line

def wholeLines (m : Bytes) : Bytes := if endsCrlf m then m else m ++ [0x0D, 0x0A]

structure Transparent (m sent : Bytes) : Prop where
  text : sent = stuff true (wholeLines m) ++ [0x2E, 0x0D, 0x0A]
  ends : endsCrlf (stuff true (wholeLines m)) = true
  lines : (stuff true (wholeLines m)).splitOn 0x0A = ((wholeLines m).splitOn 0x0A).map dotted
  /-- A dot stands alone on the last line only. -/
  once : ∀ a b, 0x0D :: 0x0A :: sent = a ++ (0x0D :: 0x0A :: 0x2E :: 0x0D :: 0x0A :: b) → b = []
  back : [0x0A].intercalate (((stuff true (wholeLines m)).splitOn 0x0A).map undotted) = wholeLines m

theorem undotted_dotted (line : Bytes) : undotted (dotted line) = line := by
  unfold dotted
  split_ifs with h
  · rfl
  · exact if_neg h

theorem stuff_lf (s : Bool) (l : Bytes) : stuff s (0x0A :: l) = 0x0A :: stuff true l := by
  cases s <;> rfl

theorem stuff_plain {s : Bool} {b : UInt8} (hlf : b ≠ 0x0A) (hdot : s = true → b ≠ 0x2E) (l : Bytes) :
    stuff s (b :: l) = b :: stuff false l := by
  rw [stuff, if_neg, decide_eq_false hlf]
  simpa using hdot

theorem getLast?_stuff (s : Bool) (l : Bytes) : (stuff s l).getLast? = l.getLast? := by
  rcases List.eq_nil_or_concat' l with rfl | ⟨l, b, rfl⟩
  · rfl
  · rw [stuff_append, stuff, List.getLast?_concat]
    split_ifs <;> rw [List.getLast?_append] <;> rfl

theorem endsCrlf_concat (l : Bytes) (b : UInt8) :
    endsCrlf (l ++ [b]) = true ↔ b = 0x0A ∧ l.getLast? = some 0x0D := by
  rw [endsCrlf, show ascii "\r\n" = [0x0D] ++ [0x0A] by decide, List.isSuffixOf_iff_suffix]
  constructor
  · rintro ⟨p, hp⟩
    rw [← append_assoc] at hp
    obtain ⟨rfl, hb⟩ := List.append_inj' hp rfl
    exact ⟨(List.singleton_inj.mp hb).symm, List.getLast?_concat⟩
  · rintro ⟨rfl, hlast⟩
    obtain ⟨p, rfl⟩ := List.getLast?_eq_some_iff.mp hlast
    exact ⟨p, (append_assoc _ _ _).symm⟩

theorem endsCrlf_stuff (s : Bool) (l : Bytes) : endsCrlf (stuff s l) = endsCrlf l := by
  rcases List.eq_nil_or_concat' l with rfl | ⟨l, b, rfl⟩
  · rfl
  · rw [Bool.eq_iff_iff, stuff_append, stuff, endsCrlf_concat]
    split_ifs with hdot
    · have hb : b = 0x2E := (by simpa using hdot : _ ∧ b = 0x2E).2
      rw [show 0x2E :: b :: stuff false [] = [0x2E] ++ [b] from rfl, ← append_assoc, endsCrlf_concat, hb]
      simp
    · rw [show b :: stuff (b = 0x0A) [] = [b] from rfl, endsCrlf_concat, getLast?_stuff]

theorem endsCrlf_wholeLines (m : Bytes) : endsCrlf (wholeLines m) = true := by
  unfold wholeLines
  split_ifs with h
  · exact h
  · rw [show ([0x0D, 0x0A] : Bytes) = [0x0D] ++ [0x0A] from rfl, ← append_assoc, endsCrlf_concat]
    exact ⟨rfl, List.getLast?_concat⟩

theorem stuff_wholeLines (m : Bytes) :
    stuff true (wholeLines m) = if endsCrlf m then stuff true m else stuff true m ++ [0x0D, 0x0A] := by
  unfold wholeLines
  split_ifs
  · rfl
  · rw [stuff_append, stuff_plain (by decide) (fun _ => by decide), stuff_lf]
    rfl

theorem smtpBody_eq (room : Nat) (m : Bytes) :
    smtpBody room m = smtpPut room (stuff true (wholeLines m) ++ [0x2E, 0x0D, 0x0A]) := by
  rw [smtpBody, stuff_wholeLines]
  unfold smtpPut
  by_cases hroom : (stuff true m).length ≤ room
  · rw [if_pos hroom, bind_some, endsCrlf_stuff]
  · rw [if_neg hroom, Option.bind_none, if_neg]
    split_ifs <;> simp only [length_append] <;> omega

theorem splitOn_stuff (l : Bytes) :
    ∃ first rest, l.splitOn 0x0A = first :: rest ∧ (stuff false l).splitOn 0x0A = first :: rest.map dotted ∧
      (stuff true l).splitOn 0x0A = dotted first :: rest.map dotted := by
  induction l with
  | nil => exact ⟨[], [], rfl, rfl, rfl⟩
  | cons b l ih =>
    obtain ⟨first, rest, hl, hfalse, htrue⟩ := ih
    by_cases hlf : b = 0x0A
    · subst hlf
      have hcut : ∀ x : Bytes, (0x0A :: x).splitOn 0x0A = [] :: x.splitOn 0x0A := fun x => by
        rw [List.splitOn_cons_eq_if_modifyHead, if_pos (beq_self_eq_true _)]
      refine ⟨[], first :: rest, ?_, ?_, ?_⟩
      · rw [hcut, hl]
      · rw [stuff_lf, hcut, htrue]
        rfl
      · rw [stuff_lf, hcut, htrue]
        rfl
    · have hcons : ∀ (c : UInt8) (x : Bytes), c ≠ 0x0A →
          (c :: x).splitOn 0x0A = (x.splitOn 0x0A).modifyHead (c :: ·) := fun c x hc => by
        rw [List.splitOn_cons_eq_if_modifyHead, if_neg (by simpa using hc)]
      refine ⟨b :: first, rest, ?_, ?_, ?_⟩
      · rw [hcons b _ hlf, hl]
        rfl
      · rw [stuff_plain (s := false) hlf nofun, hcons b _ hlf, hfalse]
        rfl
      · by_cases hdot : b = 0x2E
        · subst hdot
          rw [show stuff true (0x2E :: l) = 0x2E :: 0x2E :: stuff false l from rfl, hcons _ _ hlf, hcons _ _ hlf, hfalse]
          rfl
        · rw [stuff_plain hlf fun _ => hdot, hcons b _ hlf, hfalse, dotted, if_neg (by simpa using hdot)]
          rfl

theorem dot_of_stuff {s : Bool} {l a c : Bytes} (h : stuff s l = a ++ 0x0A :: 0x2E :: c) : c.head? = some 0x2E := by
  induction l generalizing s a with
  | nil => simp [stuff] at h
  | cons b l ih =>
    rw [stuff] at h
    split_ifs at h with hdot
    · rcases a with _ | ⟨x, _ | ⟨y, a⟩⟩
      · cases h
      · rw [(List.cons.inj (List.cons.inj h).2).1] at hdot
        simp at hdot
      · exact ih (List.cons.inj (List.cons.inj h).2).2
    · rcases a with _ | ⟨x, a⟩
      · obtain ⟨rfl, hline⟩ := List.cons.inj h
        obtain _ | ⟨d, l⟩ := l
        · cases hline
        · rw [decide_eq_true rfl, stuff] at hline
          split_ifs at hline with hdot
          · obtain rfl := (List.cons.inj hline).2
            exact congrArg some (by simpa using hdot)
          · obtain ⟨rfl, -⟩ := List.cons.inj hline
            simp at hdot
      · exact ih (List.cons.inj h).2

theorem transparent_stuff (m : Bytes) : Transparent m (stuff true (wholeLines m) ++ [0x2E, 0x0D, 0x0A]) where
  text := rfl
  ends := by rw [endsCrlf_stuff, endsCrlf_wholeLines]
  lines := by
    obtain ⟨first, rest, hl, -, htrue⟩ := splitOn_stuff (wholeLines m)
    rw [htrue, hl]
    rfl
  once a b h := by
    have hwhole : stuff true (0x0D :: 0x0A :: wholeLines m) = 0x0D :: 0x0A :: stuff true (wholeLines m) := by
      rw [stuff_plain (by decide) fun _ => by decide, stuff_lf]
    rw [← cons_append, ← cons_append, ← hwhole] at h
    -- The lone dot is the one behind the text: in the text each has another behind it.
    rcases append_eq_append_iff.mp h with ⟨a', rfl, hrest⟩ | ⟨c, hc, hrest⟩
    · match a', hrest with
      | [], hrest => cases hrest
      | [_], hrest => cases hrest
      | [_, _], hrest => cases hrest
      | _ :: _ :: _ :: a', hrest => simp at hrest
    · match c, hrest with
      | [], hrest => cases hrest
      | [_], hrest => cases hrest
      | [_, _], hrest =>
        simp only [cons_append, nil_append, List.cons.injEq, true_and] at hrest
        exact hrest.2.2
      | [_, _, _], hrest => simp at hrest
      | p :: q :: r :: d :: c, hrest =>
        obtain ⟨-, rfl, rfl, rfl, -⟩ : p = 0x0D ∧ q = 0x0A ∧ r = 0x2E ∧ d = 0x0D ∧ _ := by
          simpa [eq_comm] using hrest
        have hdot := @dot_of_stuff true _ (a ++ [p]) (0x0D :: c) (hc.trans (by simp))
        cases hdot
  back := by
    obtain ⟨first, rest, hl, -, htrue⟩ := splitOn_stuff (wholeLines m)
    have hback : ((stuff true (wholeLines m)).splitOn 0x0A).map undotted = (wholeLines m).splitOn 0x0A := by
      rw [htrue, hl, map_cons, undotted_dotted, map_map,
        show undotted ∘ dotted = id from funext undotted_dotted, List.map_id]
    rw [hback, List.intercalate_splitOn]

structure Trail where
  before : Bytes := []
  pieces : List Bytes := []

def noteStep (cfg : SmtpConfig) (w : SmtpWorld) (t : Trail) (inp : SmtpInput) : Trail :=
  let u := w.stepReplies cfg inp
  let t := if w.phase = .body then t else { before := u.wire ++ u.req.drop u.reqSent }
  if u.chunk ≠ [] ∧ (u.pumpBody inp.now).chunk = [] then { t with pieces := t.pieces ++ [u.chunk] } else t

def trailMachine (cfg : SmtpConfig) : Machine (SmtpWorld × Trail) SmtpInput Unit where
  step s inp := ((s.1.moduleStep cfg inp, noteStep cfg s.1 s.2 inp), [])

def CutEnd (pieces : List Bytes) : Prop :=
  ∃ front, pieces = front ++ [[0x0A]] ∧ front.flatten.getLast? = some 0x0D

/-- What was sent since the message began is the message as it must be read. -/
def SentExactly (w : SmtpWorld) (t : Trail) : Prop :=
  ∃ sent, (∀ room, sent.length ≤ room → smtpBody room w.message = some sent) ∧ w.wire = t.before ++ sent ∧
    Transparent w.message sent

/-- A message that is being sent: a part of it, and once its end is sent all of it. -/
def BodySent (w : SmtpWorld) (t : Trail) : Prop :=
  w.phase = .body →
    w.message = t.pieces.flatten ++ w.chunk ∧
    (w.bodyTerminated = false → w.wire ++ w.req.drop w.reqSent = t.before ++ stuff true t.pieces.flatten) ∧
    (w.bodyTerminated = true → w.chunk = [] ∧ w.moreBody = false ∧
      (w.req.length ≤ w.reqSent → (SentExactly w t ↔ ¬CutEnd t.pieces)))

structure Carried (t : Trail) (c : Course) : Prop where
  message : c.message = t.pieces.flatten ++ c.chunk
  pieces : ∀ p ∈ t.pieces, p ≠ []
  atLineStart : c.atLineStart = lineStartAfter true t.pieces.flatten
  endsCrlf : c.endsCrlf = endsCrlf (t.pieces.getLast?.getD [])
  sent : c.wire ++ c.req.drop c.reqSent =
    t.before ++ stuff true t.pieces.flatten ++ if c.bodyTerminated then smtpBodyEnd c.endsCrlf else []
  terminated : c.bodyTerminated = true → c.chunk = [] ∧ c.moreBody = false

variable {cfg : SmtpConfig} {w : SmtpWorld} {t : Trail} {code : UInt16}

theorem endsCrlf_of_last {pieces : List Bytes} (h : endsCrlf (pieces.getLast?.getD []) = true) :
    endsCrlf pieces.flatten = true := by
  rcases List.eq_nil_or_concat' pieces with rfl | ⟨front, last, rfl⟩
  · exact h
  · rw [List.getLast?_concat, getD_some] at h
    rw [List.flatten_concat]
    exact endsCrlf_append _ h

theorem cutEnd_iff {pieces : List Bytes} (h : ∀ p ∈ pieces, p ≠ []) :
    CutEnd pieces ↔ endsCrlf pieces.flatten = true ∧ endsCrlf (pieces.getLast?.getD []) = false := by
  rcases List.eq_nil_or_concat' pieces with rfl | ⟨front, last, rfl⟩
  · exact ⟨fun ⟨front, hnil, _⟩ => by simp at hnil, fun ⟨hends, _⟩ => nomatch hends⟩
  obtain ⟨l, b, rfl⟩ := (List.eq_nil_or_concat' last).resolve_left (h _ (by simp))
  rw [List.flatten_concat, ← append_assoc, endsCrlf_concat, List.getLast?_concat, getD_some,
    ← not_eq_true, endsCrlf_concat]
  constructor
  · rintro ⟨front', hlast, hcr⟩
    obtain ⟨rfl, hb⟩ := List.append_inj' hlast rfl
    obtain ⟨rfl, rfl⟩ : l = [] ∧ b = 0x0A := by
      cases l <;> simp at hb
      exact ⟨rfl, hb⟩
    exact ⟨⟨rfl, by rw [append_nil]; exact hcr⟩, fun hends => nomatch hends.2⟩
  · rintro ⟨⟨rfl, hcr⟩, hends⟩
    rcases List.eq_nil_or_concat' l with rfl | ⟨l, c, rfl⟩
    · exact ⟨front, rfl, by rwa [append_nil] at hcr⟩
    · rw [← append_assoc, List.getLast?_concat] at hcr
      exact absurd ⟨rfl, by rw [List.getLast?_concat, hcr]⟩ hends

theorem bodySent_of_carried (h : Carried t (course w)) : BodySent w t := by
  intro _
  refine ⟨h.message, fun hterm => ?_, fun hterm => ⟨(h.terminated hterm).1, (h.terminated hterm).2, fun hall => ?_⟩⟩
  · have hsent := h.sent
    rwa [show (course w).bodyTerminated = false from hterm, if_neg false_ne_true, append_nil] at hsent
  have hmessage : w.message = t.pieces.flatten := by
    have hmessage := h.message
    rwa [(h.terminated hterm).1, append_nil] at hmessage
  have hwire : w.wire = t.before ++ (stuff true w.message ++ smtpBodyEnd w.endsCrlf) := by
    have hsent := h.sent
    rwa [show (course w).bodyTerminated = true from hterm, if_pos rfl,
      show (course w).req.drop (course w).reqSent = [] from drop_of_length_le hall, append_nil,
      append_assoc, ← hmessage] at hsent
  have hend : smtpBodyEnd w.endsCrlf = (if w.endsCrlf then [] else [0x0D, 0x0A]) ++ [0x2E, 0x0D, 0x0A] := by
    rw [smtpBodyEnd, show ascii "\r\n" = [0x0D, 0x0A] by decide, show ascii ".\r\n" = [0x2E, 0x0D, 0x0A] by decide]
  rw [cutEnd_iff h.pieces, ← hmessage, ← show w.endsCrlf = _ from h.endsCrlf]
  have hiff : SentExactly w t ↔ w.wire = t.before ++ (stuff true (wholeLines w.message) ++ [0x2E, 0x0D, 0x0A]) := by
    constructor
    · rintro ⟨sent, -, hsent, htext⟩
      rw [hsent, htext.text]
    · intro hsent
      exact ⟨_, fun room hroom => (smtpBody_eq room _).trans (smtpPut_of_le hroom), hsent, transparent_stuff _⟩
  rw [hiff, hwire, List.append_cancel_left_eq, stuff_wholeLines, hend, ← append_assoc, List.append_cancel_right_eq]
  have hflag : w.endsCrlf = true → endsCrlf w.message = true := fun hflag => by
    rw [hmessage]
    exact endsCrlf_of_last (h.endsCrlf.symm.trans hflag)
  cases hm : endsCrlf w.message <;> cases hf : w.endsCrlf <;> simp
  exact absurd (hflag hf) (by rw [hm]; exact false_ne_true)

def beforeBody : SmtpPhase → Bool
  | .body | .quit | .done | .failed => false
  | _ => true

theorem beforeBody_of_reply {next : SmtpPhase}
    (hreply : (smtpOnReply w.phase code (w.authPlan cfg)).2 = next) (h : beforeBody next = true ∨ next = .body) :
    beforeBody w.phase = true := by
  obtain hfail | ⟨phase, auth, cmd, after, hp, -, hmove, hmoves⟩ := reply_cases cfg w code
  · rw [hfail] at hreply
    subst hreply
    simp [beforeBody] at h
  · rw [hmove] at hreply
    subst hreply
    rw [hp]
    cases hmoves <;> first | rfl | simp [beforeBody] at h

theorem Fresh.reply (h : Fresh (course w).toScript) (code : UInt16)
    (now : UInt64) : Fresh (course (afterReply cfg w code now)).toScript := by
  obtain ⟨staged, req, reqSent, hcourse⟩ := course_afterReply cfg w code now
  rw [hcourse]
  exact h.next _ _

structure Awaited (c : Course) : Prop where
  idle : c.opActive = false → c.phase = .disconnected ∨ c.phase = .failed
  fresh : beforeBody c.phase = true ∨ c.phase = .body → Fresh c.toScript

structure Underway (t : Trail) (c : Course) : Prop where
  idle : c.opActive = false → c.phase = .disconnected ∨ c.phase = .failed
  asked : beforeBody c.phase = false
  carried : c.phase = .body → Carried t c

theorem awaited_kept (cfg : SmtpConfig) : Kept cfg (fun _ _ _ => True) Awaited where
  fail c h := ⟨fun _ => .inr rfl, fun hp => by simp [beforeBody] at hp⟩
  data now w conn bytes _ h := keeps_onData (fun w code now h => by
    obtain ⟨accepts, hreply⟩ := course_onReply cfg w code now
    rw [hreply]
    refine ⟨opActive_afterReply cfg w code now h.idle, fun hp => ?_⟩
    rw [phase_afterReply] at hp
    exact (h.fresh (.inl (beforeBody_of_reply rfl hp))).reply code now) now conn bytes h
  dial c hop hp h :=
    ⟨fun hidle => absurd (hop.symm.trans hidle) Bool.noConfusion, fun _ => (h.fresh (.inl (by rw [hp]; rfl))).next _ _⟩
  connect c hp h := by
    have hfresh := h.fresh (.inl (by rw [hp]; rfl))
    refine ⟨fun hidle => ?_, fun _ => hfresh.next _ _⟩
    rcases h.idle hidle with hother | hother <;> exact absurd (hp.symm.trans hother) SmtpPhase.noConfusion
  head c mailFrom rcptTo body more _ _ _ h := ⟨nofun, fun _ => ⟨rfl, rfl, rfl, rfl⟩⟩
  more c data more _ h :=
    ⟨h.idle, fun hp => ⟨congrArg (· ++ data) (h.fresh hp).message, (h.fresh hp).atLineStart, (h.fresh hp).endsCrlf,
      (h.fresh hp).bodyTerminated⟩⟩

theorem underway_kept (cfg : SmtpConfig) (t : Trail) : Kept cfg (fun _ _ _ => True) (Underway t) where
  fail c h := ⟨fun _ => .inr rfl, rfl, nofun⟩
  data now w conn bytes _ h := keeps_onData (fun w code now h => by
    obtain ⟨accepts, hreply⟩ := course_onReply cfg w code now
    have hover : ¬(beforeBody (smtpOnReply w.phase code (w.authPlan cfg)).2 = true ∨
        (smtpOnReply w.phase code (w.authPlan cfg)).2 = .body) := fun hp =>
      absurd (h.asked.symm.trans (beforeBody_of_reply rfl hp)) Bool.noConfusion
    rw [← phase_afterReply cfg w code now] at hover
    rw [hreply]
    exact ⟨opActive_afterReply cfg w code now h.idle, eq_false_iff.mpr (not_or.mp hover).1,
      fun hp => absurd hp (not_or.mp hover).2⟩) now conn bytes h
  dial c _ hp h := by
    have hasked := h.asked
    rw [hp] at hasked
    cases hasked
  connect c hp h := by
    have hasked := h.asked
    rw [hp] at hasked
    cases hasked
  head c mailFrom rcptTo body more hidle _ _ h := by
    refine ⟨nofun, h.asked, fun hp => ?_⟩
    rcases h.idle hidle with hother | hother <;> exact absurd (hother.symm.trans hp) SmtpPhase.noConfusion
  more c data more hmore h := by
    refine ⟨h.idle, h.asked, fun hp => ?_⟩
    have hc := h.carried hp
    refine ⟨?_, hc.pieces, hc.atLineStart, hc.endsCrlf, hc.sent, fun hterm => ?_⟩
    · rw [hc.message, append_assoc]
    · exact absurd (hmore.symm.trans (hc.terminated hterm).2) Bool.noConfusion

structure Told (t : Trail) (c : Course) : Prop where
  idle : c.opActive = false → c.phase = .disconnected ∨ c.phase = .failed
  fresh : beforeBody c.phase = true → Fresh c.toScript
  carried : c.phase = .body → Carried t c

theorem told_stepReplies (inp : SmtpInput) (h : Told t (course w)) :
    Told (if w.phase = .body then t
      else { before := (w.stepReplies cfg inp).wire ++ (w.stepReplies cfg inp).req.drop (w.stepReplies cfg inp).reqSent })
      (course (w.stepReplies cfg inp)) := by
  by_cases hbody : w.phase = .body
  · rw [if_pos hbody]
    have hunder : Underway t (course w) := ⟨h.idle, by rw [show (course w).phase = _ from hbody]; rfl, h.carried⟩
    have hu := (underway_kept cfg t).stepReplies inp hunder
    exact ⟨hu.idle, fun hp => absurd (hu.asked.symm.trans hp) Bool.noConfusion, hu.carried⟩
  · rw [if_neg hbody]
    have hawait : Awaited (course w) := ⟨h.idle, fun hp => h.fresh (hp.resolve_right hbody)⟩
    have hu := (awaited_kept cfg).stepReplies inp hawait
    refine ⟨hu.idle, fun hp => hu.fresh (.inl hp), fun hp => ?_⟩
    have hfresh := hu.fresh (.inr hp)
    refine ⟨hfresh.message, nofun, hfresh.atLineStart, hfresh.endsCrlf, ?_, fun hterm => ?_⟩
    · rw [hfresh.bodyTerminated, if_neg false_ne_true, append_nil]
      exact (append_nil _).symm
    · exact absurd (hterm.symm.trans hfresh.bodyTerminated) Bool.noConfusion

theorem told_pumpBody {u : SmtpWorld} (now : UInt64) (h : Told t (course u)) :
    Told (if u.chunk ≠ [] ∧ (u.pumpBody now).chunk = [] then { t with pieces := t.pieces ++ [u.chunk] } else t)
      (course (u.pumpBody now)) := by
  obtain hpump | ⟨hp, hall, hpump⟩ := course_pumpBody u now
  · rw [if_neg fun hnot => hnot.1 ((congrArg (·.chunk) hpump).symm.trans hnot.2), hpump]
    exact h
  have hnever : ∀ c : Course, c.phase = u.phase → beforeBody c.phase = true → Fresh c.toScript := fun c hc hnot => by
    rw [hc, hp] at hnot
    cases hnot
  have hc := h.carried hp
  have hsent := hc.sent
  rw [show (course u).req.drop (course u).reqSent = [] from drop_of_length_le hall, append_nil] at hsent
  obtain ⟨hchunk, hmore, hterm, hpump⟩ | ⟨hchunk, hpump⟩ := hpump
  · rw [if_neg fun hnot => hnot.1 hchunk, hpump]
    rw [show (course u).bodyTerminated = false from hterm, if_neg false_ne_true, append_nil] at hsent
    refine ⟨h.idle, hnever _ rfl, fun _ =>
      ⟨hc.message, hc.pieces, hc.atLineStart, hc.endsCrlf, ?_, fun _ => ⟨hchunk, hmore⟩⟩⟩
    show u.wire ++ smtpBodyEnd u.endsCrlf = _
    rw [show u.wire = _ from hsent]
    rfl
  · have hterm : u.bodyTerminated = false := by
      by_contra hterm
      exact hchunk (hc.terminated (Bool.not_eq_false _ |>.mp hterm)).1
    rw [show (course u).bodyTerminated = false from hterm, if_neg false_ne_true, append_nil] at hsent
    rw [if_pos ⟨hchunk, congrArg (·.chunk) hpump⟩, hpump]
    refine ⟨h.idle, hnever _ rfl, fun _ => ⟨?_, ?_, ?_, ?_, ?_, ?_⟩⟩
    · rw [List.flatten_concat, append_nil]
      exact hc.message
    · exact forall_mem_append.mpr ⟨hc.pieces, forall_mem_singleton.mpr hchunk⟩
    · show lineStartAfter u.atLineStart u.chunk = _
      rw [List.flatten_concat, lineStartAfter_append, show u.atLineStart = _ from hc.atLineStart]
    · show Common.endsCrlf u.chunk = _
      rw [List.getLast?_concat, getD_some]
    · show u.wire ++ (stuff u.atLineStart u.chunk).drop 0 =
        t.before ++ stuff true (t.pieces ++ [u.chunk]).flatten ++ if u.bodyTerminated then _ else []
      rw [hterm, if_neg false_ne_true, append_nil, drop_zero, List.flatten_concat, stuff_append,
        show u.wire = _ from hsent, show u.atLineStart = _ from hc.atLineStart, append_assoc]
    · exact fun hnot => absurd (hnot.symm.trans hterm) Bool.noConfusion

theorem told_moduleStep (inp : SmtpInput) (h : Told t (course w)) :
    Told (noteStep cfg w t inp) (course (w.moduleStep cfg inp)) := by
  have hpumped := told_pumpBody inp.now (@told_stepReplies cfg w t inp h)
  rw [noteStep]
  obtain ⟨wire, reqSent, u, rfl, hsame, -, hend⟩ := course_moduleStep cfg w inp
  rcases hend with hend | hend | hend <;> rw [hend]
  · refine ⟨hpumped.idle, hpumped.fresh, fun hp => ?_⟩
    have hc := hpumped.carried hp
    exact ⟨hc.message, hc.pieces, hc.atLineStart, hc.endsCrlf, hsame.trans hc.sent, hc.terminated⟩
  · exact ⟨fun _ => .inr rfl, nofun, nofun⟩
  · exact ⟨fun _ => .inl rfl, fun _ => ⟨rfl, rfl, rfl, rfl⟩, nofun⟩

theorem trailMachine_run (cfg : SmtpConfig) (w : SmtpWorld) (t : Trail) (inps : List SmtpInput) :
    ((trailMachine cfg).run (w, t) inps).1.1 = ((smtpMachine cfg).run w inps).1 := by
  induction inps generalizing w t with
  | nil => rfl
  | cons inp inps ih => exact ih _ _

/-- What is sent of a message is what `smtp_body` makes of it, in the end just when its last line end was not cut
before its second half, the last piece. -/
theorem bodySent_run (cfg : SmtpConfig) (start : SmtpStart) (inps : List SmtpInput) :
    ((trailMachine cfg).run (start.world, {}) inps).1.1 = ((smtpMachine cfg).run start.world inps).1 ∧
      BodySent ((trailMachine cfg).run (start.world, {}) inps).1.1 ((trailMachine cfg).run (start.world, {}) inps).1.2 := by
  refine ⟨trailMachine_run cfg _ _ inps, fun hp => ?_⟩
  have hstart : Told {} (course start.world) := ⟨fun _ => .inl rfl, fun _ => ⟨rfl, rfl, rfl, rfl⟩, nofun⟩
  have htold := @Machine.run_invariant _ _ _ (trailMachine cfg) (fun _ _ => True) (fun s => Told s.2 (course s.1))
    (fun s inp h _ => told_moduleStep inp h) (start.world, {}) inps hstart
    ((trailMachine cfg).along_of_forall (fun _ _ => trivial) _ _)
  exact bodySent_of_carried (htold.carried hp) hp

def exchangeConfig : SmtpConfig := { openConfig with requestIn := true, responseOut := true }

def inTwoRecords : List SmtpInput :=
  [{ records := [.head 1 true true (ascii "a@b") (ascii "c@d") (ascii "hi\r") true 100] },
    { frames := [.connected 1 7], respTaken := [true] }, hears (ascii "220 hello\r\n"), hears (ascii "250 wave\r\n"),
    hears (ascii "250 ok\r\n"), hears (ascii "250 ok\r\n"), hears (ascii "354 go\r\n"),
    { records := [.body 1 false [0x0A]], respTaken := [true], sendTaken := [true] }, { sendTaken := [true] }]

/-- A line end that came in two records is sent twice. -/
theorem not_sentExactly_inTwoRecords :
    ¬∀ (cfg : SmtpConfig) (start : SmtpStart) (inps : List SmtpInput) (w : SmtpWorld) (t : Trail),
      ((trailMachine cfg).run (start.world, {}) inps).1 = (w, t) → w.phase = .body → w.bodyTerminated = true →
        w.req.length ≤ w.reqSent → SentExactly w t := by
  intro hall
  have hend : (fun s : SmtpWorld × Trail => (s.1.phase, s.1.bodyTerminated, decide (s.1.req.length ≤ s.1.reqSent),
      s.1.message, s.1.wire.drop s.2.before.length))
        ((trailMachine exchangeConfig).run (({} : SmtpStart).world, {}) inTwoRecords).1 =
      (.body, true, true, ascii "hi\r\n", ascii "hi\r\n\r\n.\r\n") := by decide +kernel
  generalize hs : ((trailMachine exchangeConfig).run (({} : SmtpStart).world, {}) inTwoRecords).1 = s at hend
  simp only [Prod.mk.injEq, decide_eq_true_eq] at hend
  obtain ⟨hp, hterm, hall', hmessage, hwire⟩ := hend
  obtain ⟨sent, hbody, hsent, -⟩ := hall exchangeConfig {} inTwoRecords s.1 s.2 hs hp hterm hall'
  have hwhole := hbody (sent.length + 100) (Nat.le_add_right _ _)
  rw [hsent, drop_left] at hwire
  rw [hmessage, hwire] at hwhole
  exact absurd hwhole (by decide +kernel)

end Wave.Smtp
