import Wave.Http.H1Machine
import Mathlib.Data.List.TakeWhile

/-! # The head a request is judged by

`RecvRequest` parses the line and the head in different steps; `RequestTrack` has the client's bytes besides. -/

namespace Wave.Http

open Lib

variable {env : H1Env} {w : RequestTrack} {c : H1Conn} {pos : Nat} {inp : H1Input} {stream : Bytes}

def requestLineOf (stream : Bytes) : Bytes :=
  match findPat crlf stream with
  | some e => stream.take e
  | none => stream

def methodToken (stream : Bytes) : Bytes := firstToken (requestLineOf stream)

def afterMethod (stream : Bytes) : Bytes :=
  (requestLineOf stream).drop ((methodToken stream).length + 1)

def targetToken (stream : Bytes) : Bytes := firstToken (afterMethod stream)

def wholeHead (stream : Bytes) : Option Bytes :=
  (findPat blankLine stream).map fun pos => stream.take (pos + 4)

theorem crlf_ne_nil : crlf ≠ [] := cons_ne_nil _ _

theorem firstToken_append {l : Bytes} (h : SP ∈ l) (more : Bytes) :
    firstToken (l ++ more) = firstToken l := by
  induction l with
  | nil => cases h
  | cons b l ih =>
    by_cases hb : b = SP
    · subst hb; rfl
    · have hmem : SP ∈ l := by
        rcases mem_cons.mp h with h | h
        · exact absurd h.symm hb
        · exact h
      have hne : (b != SP) = true := by simpa using hb
      have hcons : ∀ m, firstToken (b :: m) = b :: firstToken m := fun m =>
        takeWhile_cons_of_pos (p := (· != SP)) hne
      rw [cons_append, hcons, hcons, ih hmem]

theorem firstToken_take {l : Bytes} {n : Nat} (h : SP ∈ l.take n) :
    firstToken (l.take n) = firstToken l := by
  conv_rhs => rw [← take_append_drop n l]
  exact (firstToken_append h _).symm

theorem firstToken_length_le (l : Bytes) : (firstToken l).length ≤ l.length :=
  (List.takeWhile_prefix _).length_le

theorem mem_of_firstToken_lt {l : Bytes} (h : (firstToken l).length < l.length) : SP ∈ l := by
  by_contra hno
  have hall : firstToken l = l := by
    refine List.takeWhile_eq_self_iff.mpr ?_
    intro b hb
    simp only [bne_iff_ne, ne_eq]
    rintro rfl
    exact hno hb
  rw [hall] at h
  exact Nat.lt_irrefl _ h

theorem take_firstToken (l : Bytes) : l.take (firstToken l).length = firstToken l :=
  (List.prefix_iff_eq_take.mp (List.takeWhile_prefix _)).symm

theorem requestLineOf_eq {e : Nat} (h : findPat crlf stream = some e) :
    requestLineOf stream = stream.take e := by
  rw [requestLineOf, h]

theorem requestLineOf_append {e : Nat} (h : findPat crlf stream = some e) (more : Bytes) : requestLineOf (stream ++ more) = requestLineOf stream := by
  have hle := findPat_le h
  rw [requestLineOf_eq h, requestLineOf_eq (findPat_append h more),
    take_append_of_le_length (by omega)]

theorem requestLineOf_take {e n : Nat} (h : findPat crlf stream = some e) (hn : e + 2 ≤ n) : requestLineOf (stream.take n) = requestLineOf stream := by
  rw [requestLineOf_eq h, requestLineOf_eq (findPat_take crlf_ne_nil h hn), take_take,
    Nat.min_eq_left (by omega)]

theorem targetToken_congr {a b : Bytes} (h : requestLineOf a = requestLineOf b) :
    methodToken a = methodToken b ∧ targetToken a = targetToken b := by
  unfold targetToken afterMethod methodToken
  rw [h]
  exact ⟨rfl, rfl⟩

/-! ## What the request line gave -/

def TwoSpaces (stream : Bytes) : Prop := SP ∈ afterMethod stream

instance (stream : Bytes) : Decidable (TwoSpaces stream) :=
  inferInstanceAs (Decidable (SP ∈ afterMethod stream))

/-- What the slot keeps of the request line is what the line says, and the target
lies in front of the line's end. -/
structure LineKept (env : H1Env) (c : H1Conn) (stream : Bytes) : Prop where
  line : ∃ e, findPat crlf stream = some e ∧ c.reqTargetAt + c.reqTargetLen ≤ e
  method : c.reqMethod = env.sdk.methodFromToken (methodToken stream)
  target : (stream.drop c.reqTargetAt).take c.reqTargetLen = targetToken stream
  path : c.reqPath = (targetToken stream).take env.profile.maxPath

theorem LineKept.append (h : LineKept env c stream) (more : Bytes) : LineKept env c (stream ++ more) := by
  obtain ⟨e, he, hin⟩ := h.line
  have hle := findPat_le he
  obtain ⟨hm, ht⟩ := targetToken_congr (requestLineOf_append he more)
  refine ⟨⟨e, findPat_append he more, hin⟩, ?_, ?_, ?_⟩
  · rw [hm]; exact h.method
  · have hlen : c.reqTargetLen ≤ (stream.drop c.reqTargetAt).length := by
      rw [length_drop]; omega
    rw [ht, drop_append_of_le_length (by omega), take_append_of_le_length hlen]
    exact h.target
  · rw [ht]; exact h.path

theorem LineKept.take (h : LineKept env c stream) (hpos : findPat blankLine stream = some pos) :
    LineKept env c (stream.take (pos + 4)) := by
  obtain ⟨e, he, hin⟩ := h.line
  have htwice : findPat (crlf ++ crlf) stream = some pos := hpos
  obtain ⟨e', he', hle⟩ := findPat_le_of_longer crlf_ne_nil htwice
  obtain rfl : e' = e := Option.some.inj (he'.symm.trans he)
  have hcut : e' + crlf.length ≤ pos + 4 := by
    show e' + 2 ≤ pos + 4
    omega
  obtain ⟨hm, ht⟩ := targetToken_congr (requestLineOf_take he hcut)
  refine ⟨⟨e', findPat_take crlf_ne_nil he hcut, hin⟩, ?_, ?_, ?_⟩
  · rw [hm]; exact h.method
  · rw [ht, drop_take, take_take, Nat.min_eq_left (by omega)]
    exact h.target
  · rw [ht]; exact h.path

theorem parseRequestLine_eq {sdk : SdkHttp} {buf : Bytes} {line : RequestLine} {e : Nat}
    (h : parseRequestLine sdk buf = some line) (he : findPat crlf buf = some e)
    (htwo : TwoSpaces buf) :
    line.method = sdk.methodFromToken (methodToken buf) ∧
      line.targetAt = (methodToken buf).length + 1 ∧
      line.targetLen = (targetToken buf).length := by
  have hline := requestLineOf_eq he
  -- The line's second space implies its first.
  have hfirst : SP ∈ buf.take e := by
    have hlen : (methodToken buf).length < (requestLineOf buf).length := by
      have hpos := List.length_pos_of_mem htwo
      unfold afterMethod at hpos
      rw [length_drop] at hpos
      omega
    rw [← hline]
    exact mem_of_firstToken_lt hlen
  have htoken : methodToken buf = firstToken buf := by
    unfold methodToken
    rw [hline]
    exact firstToken_take hfirst
  have htarget : targetToken buf = firstToken (buf.drop ((firstToken buf).length + 1)) := by
    have hafter : afterMethod buf =
        (buf.drop ((firstToken buf).length + 1)).take (e - ((firstToken buf).length + 1)) := by
      unfold afterMethod
      rw [hline, htoken, drop_take]
    unfold TwoSpaces at htwo
    rw [targetToken, hafter]
    rw [hafter] at htwo
    exact firstToken_take htwo
  unfold parseRequestLine at h
  split_ifs at h with hshort
  simp only at h
  generalize hm : (firstToken (buf.take (min (MAX_METHOD_SCAN + 1) buf.length))) = token at h
  split_ifs at h with hend hslash
  push Not at hend
  -- The bounded scan stopped at a space, so it is the whole method token.
  have hscan : token = firstToken buf := by
    rw [← hm]
    refine firstToken_take (mem_of_firstToken_lt ?_)
    rw [hm, length_take]
    omega
  obtain rfl := Option.some.inj h
  rw [hscan] at hend ⊢
  refine ⟨?_, ?_, ?_⟩
  · rw [htoken]
    show sdk.methodFromToken (buf.take (firstToken buf).length) = _
    rw [take_firstToken]
  · rw [htoken]
  · rw [htarget]

theorem adoptLine_kept {line : RequestLine}
    (h : readRequestLine env c.recvBuf = .read line) (htwo : TwoSpaces c.recvBuf) :
    LineKept env (c.adoptLine env.profile line) c.recvBuf := by
  unfold readRequestLine at h
  cases he : findPat crlf c.recvBuf with
  | none => rw [he] at h; simp only at h; split_ifs at h
  | some e =>
    rw [he] at h
    simp only at h
    cases hp : parseRequestLine env.sdk c.recvBuf with
    | none => rw [hp] at h; cases h
    | some parsed =>
      rw [hp] at h
      simp only at h
      split_ifs at h with hnone
      obtain rfl : parsed = line := LineOutcome.read.inj h
      obtain ⟨hm, hat, hlen⟩ := parseRequestLine_eq hp he htwo
      have hline := requestLineOf_eq he
      have hle : e ≤ c.recvBuf.length := Nat.le_of_add_right_le (findPat_le he)
      have hafter : (afterMethod c.recvBuf).length = e - ((methodToken c.recvBuf).length + 1) := by
        unfold afterMethod
        rw [length_drop, hline, length_take, Nat.min_eq_left hle]
      have hshort := firstToken_length_le (afterMethod c.recvBuf)
      have hpos := List.length_pos_of_mem htwo
      have htarget : (c.recvBuf.drop parsed.targetAt).take parsed.targetLen
          = targetToken c.recvBuf := by
        rw [hat, hlen]
        have hcut : afterMethod c.recvBuf = (c.recvBuf.drop ((methodToken c.recvBuf).length + 1)).take
            (e - ((methodToken c.recvBuf).length + 1)) := by
          unfold afterMethod
          rw [hline, drop_take]
        calc (c.recvBuf.drop ((methodToken c.recvBuf).length + 1)).take (targetToken c.recvBuf).length
            = (afterMethod c.recvBuf).take (targetToken c.recvBuf).length := by
              rw [hcut, take_take]
              congr 1
              unfold targetToken
              omega
          _ = targetToken c.recvBuf := take_firstToken _
      refine ⟨⟨e, he, ?_⟩, hm, htarget, ?_⟩
      · show parsed.targetAt + parsed.targetLen ≤ e
        rw [hat, hlen]
        unfold targetToken
        omega
      · show ((c.recvBuf.drop parsed.targetAt).take parsed.targetLen).take _ = _
        rw [htarget]

def PlanAdopted (c : H1Conn) : BodyPlan → Prop
  | .read decoder declared continueFirst =>
    c.bodyPending = true ∧ c.body.decoder = decoder ∧ c.bodyDeclared = declared.getD U64_MAX ∧
      c.bodyContinueWanted = continueFirst
  | .none => c.bodyPending = false ∧ c.bodyDeclared = 0 ∧ c.bodyContinueWanted = false
  | _ => False

def PlanDone (c : H1Conn) : BodyPlan → Prop
  | .read _ declared _ => c.bodyPending = false ∧ c.bodyDeclared = declared.getD U64_MAX
  | _ => False

def PlanUnderway (c : H1Conn) : BodyPlan → Prop
  | .read _ declared _ => c.bodyDeclared = declared.getD U64_MAX
  | _ => False

/-- Everything the dispatch decides on is what `head` says. -/
structure DecidesOn (env : H1Env) (w : RequestTrack) (head : Bytes) : Prop where
  bytes : w.conn.recvBuf.take w.conn.headerEndOff = head
  method : w.conn.reqMethod = env.sdk.methodFromToken (methodToken head)
  target : w.conn.target = targetToken head
  path : w.conn.reqPath = (targetToken head).take env.profile.maxPath
  host : hostRefused w.conn = (h1Host head).isNone
  keepalive : w.conn.keepalive = requestKeepsAlive head
  framing : if w.drained then PlanDone w.conn (planBody w.conn.reqMethod head)
    else PlanAdopted w.conn (planBody w.conn.reqMethod head)

def JudgedWhole (env : H1Env) (w : RequestTrack) : Prop :=
  w.conn.phase = .dispatchRoute → ∃ head, wholeHead w.request = some head ∧ DecidesOn env w head

/-- The head under way has outgrown the buffer: as many bytes as it holds have
come, with no blank line among them. -/
def Outgrown (env : H1Env) (w : RequestTrack) : Prop :=
  w.conn.phase = .recvRequest ∧ env.profile.recvBufSize ≤ w.request.length ∧
    wholeHead (w.request.take env.profile.recvBufSize) = none

def Refused (p : Profile) (c : H1Conn) : Prop :=
  c.phase = .drainSend ∧ c.keepalive = false ∧
    ∃ r : Refusal, c.sendBuf = writeErrorResponse p.sendBufSize r.code r.text

def Closing (c : H1Conn) : Prop :=
  (c.phase = .drainSend ∧ c.keepalive = false) ∨ c.phase = .closeConn ∨ c.phase = .init

def LineAccepted (env : H1Env) (c : H1Conn) : Prop :=
  c.recvParsed = true ∨ ∃ line, readRequestLine env c.recvBuf = .read line

/-- An accepted line has both its spaces, and none meets a full buffer without a blank line. -/
def ReadOk (env : H1Env) (c : H1Conn) : Prop :=
  ((∃ line, readRequestLine env c.recvBuf = .read line) → c.recvParsed = false →
    TwoSpaces c.recvBuf) ∧
  (LineAccepted env c → findPat blankLine c.recvBuf = none →
    c.recvBuf.length < env.profile.recvBufSize)

instance (env : H1Env) (buf : Bytes) : Decidable (∃ line, readRequestLine env buf = .read line) :=
  match readRequestLine env buf with
  | .read line => isTrue ⟨line, rfl⟩
  | .refused _ => isFalse nofun
  | .wait => isFalse nofun

instance (env : H1Env) (c : H1Conn) : Decidable (LineAccepted env c) :=
  inferInstanceAs (Decidable (_ ∨ _))

instance (env : H1Env) (c : H1Conn) : Decidable (ReadOk env c) :=
  inferInstanceAs (Decidable (_ ∧ _))

/-- A step that reads a request finds `ReadOk`. -/
def H1StepOk (env : H1Env) (w : H1World) : H1Event → Prop
  | .step inp =>
    w.conn.phase = .recvRequest → w.conn.peerClosed = false → inp.expired = false →
      ReadOk env w.conn
  | _ => True

instance (env : H1Env) (w : H1World) (e : H1Event) : Decidable (H1StepOk env w e) :=
  match e with
  | .step _ => inferInstanceAs (Decidable (_ → _ → _ → ReadOk env w.conn))
  | .arrive _ | .demux => isTrue trivial

/-- In `RecvRequest` the buffer is all of the request that has come. -/
structure Reading (env : H1Env) (w : RequestTrack) : Prop where
  buf : w.conn.recvBuf = w.request
  fits : w.conn.recvBuf.length ≤ env.profile.recvBufSize
  taken : w.taken = 0
  drained : w.drained = false
  line : w.conn.recvParsed = true → LineKept env w.conn w.request

/-- Behind `RecvRequest` the buffer is the whole head, with what follows the body
bytes read so far. -/
structure Held (env : H1Env) (w : RequestTrack) (pos : Nat) : Prop where
  blank : findPat blankLine w.request = some pos
  off : w.conn.headerEndOff = pos + 4
  come : pos + 4 + w.taken ≤ w.request.length
  buf : w.conn.recvBuf = w.request.take (pos + 4) ++ w.request.drop (pos + 4 + w.taken)
  fits : w.conn.recvBuf.length ≤ env.profile.recvBufSize
  line : LineKept env w.conn w.request

structure Weighed (w : RequestTrack) (pos : Nat) : Prop where
  keepalive : w.conn.keepalive = requestKeepsAlive (w.request.take (pos + 4))
  framing : if w.drained then PlanDone w.conn (planBody w.conn.reqMethod (w.request.take (pos + 4)))
    else PlanAdopted w.conn (planBody w.conn.reqMethod (w.request.take (pos + 4)))
  fresh : w.drained = false → w.taken = 0

structure Dropping (w : RequestTrack) (pos : Nat) : Prop where
  keepalive : w.conn.keepalive = requestKeepsAlive (w.request.take (pos + 4))
  framing : PlanUnderway w.conn (planBody w.conn.reqMethod (w.request.take (pos + 4)))

def PhaseInv (env : H1Env) (w : RequestTrack) : Prop :=
  match w.conn.phase with
  | .recvRequest => Reading env w
  | .dispatchRoute => ∃ pos, Held env w pos ∧ Weighed w pos
  | .recvBody => ∃ pos, Held env w pos ∧ Dropping w pos
  | .drainSend => w.conn.keepalive = true → ∃ pos, Held env w pos
  | phase => phase.answers = true → ∃ pos, Held env w pos

structure H1Inv (env : H1Env) (w : RequestTrack) : Prop where
  started : w.start ≤ w.arrived.length
  phase : PhaseInv env w

theorem phaseInv_of_gone (h : w.conn.phase = .closeConn ∨ w.conn.phase = .init ∨ w.conn.phase.handedOver = true) :
    PhaseInv env w := by
  unfold PhaseInv
  rcases h with h | h | h
  · rw [h]; intro hans; cases hans
  · rw [h]; intro hans; cases hans
  · cases hp : w.conn.phase <;> rw [hp] at h <;>
      first | exact absurd h false_ne_true | exact fun hans => absurd hans false_ne_true

theorem phaseInv_dispatchRoute (hp : w.conn.phase = .dispatchRoute) :
    PhaseInv env w ↔ ∃ pos, Held env w pos ∧ Weighed w pos := by
  unfold PhaseInv
  rw [hp]

theorem phaseInv_recvBody (hp : w.conn.phase = .recvBody) :
    PhaseInv env w ↔ ∃ pos, Held env w pos ∧ Dropping w pos := by
  unfold PhaseInv
  rw [hp]

theorem phaseInv_recvRequest (hp : w.conn.phase = .recvRequest) :
    PhaseInv env w ↔ Reading env w := by
  unfold PhaseInv
  rw [hp]

theorem phaseInv_drainSend (hp : w.conn.phase = .drainSend) :
    PhaseInv env w ↔ (w.conn.keepalive = true → ∃ pos, Held env w pos) := by
  unfold PhaseInv
  rw [hp]

theorem phaseInv_answers (hp : w.conn.phase.answers = true) :
    PhaseInv env w ↔ ∃ pos, Held env w pos := by
  unfold PhaseInv
  cases hq : w.conn.phase <;> rw [hq] at hp <;>
    first | exact absurd hp false_ne_true | exact ⟨fun h => h rfl, fun h _ => h⟩

theorem advance_of_ne (h : c.phase ≠ .recvRequest) :
    w.advance c = { w with
      conn := c
      taken := w.taken + (w.conn.recvBuf.length - c.recvBuf.length)
      drained := w.drained || decide (w.conn.phase = .recvBody ∧ c.phase = .dispatchRoute) } := by
  unfold RequestTrack.advance
  rw [if_neg fun hc => h hc.1]

theorem advance_conn (w : RequestTrack) (c : H1Conn) : (w.advance c).conn = c := by
  unfold RequestTrack.advance
  split_ifs <;> rfl

theorem advance_request_of_ne (h : c.phase ≠ .recvRequest) :
    (w.advance c).request = w.request := by
  rw [advance_of_ne h]
  rfl

theorem advance_same (hp : c.phase = w.conn.phase) (hb : c.recvBuf = w.conn.recvBuf) : w.advance c = { w with conn := c } := by
  have hback : ¬(c.phase = .recvRequest ∧ w.conn.phase ≠ .recvRequest) := by
    rintro ⟨h, h'⟩
    exact h' (hp ▸ h)
  have hdone : ¬(w.conn.phase = .recvBody ∧ c.phase = .dispatchRoute) := by
    rintro ⟨h, h'⟩
    rw [hp, h] at h'
    cases h'
  unfold RequestTrack.advance
  rw [if_neg hback, hb, Nat.sub_self, decide_eq_false hdone, Bool.or_false]
  rfl

theorem inv_gone (h : H1Inv env w) (hc : c.phase = .closeConn ∨ c.phase = .init ∨ c.phase.handedOver = true) :
    H1Inv env (w.advance c) := by
  have hne : c.phase ≠ .recvRequest := by
    intro heq
    rw [heq] at hc
    rcases hc with hc | hc | hc <;> cases hc
  refine ⟨?_, phaseInv_of_gone ?_⟩
  · rw [advance_of_ne hne]; exact h.started
  · rw [advance_conn]; exact hc

theorem inv_closing (h : H1Inv env w) (hp : c.phase = .drainSend) (hk : c.keepalive = false) : H1Inv env (w.advance c) := by
  have hne : c.phase ≠ .recvRequest := by rw [hp]; exact Phase.noConfusion
  refine ⟨?_, (phaseInv_drainSend (by rw [advance_conn]; exact hp)).mpr ?_⟩
  · rw [advance_of_ne hne]; exact h.started
  · rw [advance_conn, hk]
    intro hkeep
    cases hkeep

/-! ### Steps on a held head -/

def SameLine (c c' : H1Conn) : Prop :=
  c'.reqMethod = c.reqMethod ∧ c'.reqPath = c.reqPath ∧ c'.reqTargetAt = c.reqTargetAt ∧
    c'.reqTargetLen = c.reqTargetLen

theorem SameLine.refl (c : H1Conn) : SameLine c c := ⟨rfl, rfl, rfl, rfl⟩

theorem LineKept.of_sameLine {c c' : H1Conn} (h : LineKept env c stream) (hs : SameLine c c') : LineKept env c' stream := by
  obtain ⟨hm, hp, ha, hl⟩ := hs
  refine ⟨?_, hm.trans h.method, ?_, hp.trans h.path⟩
  · rw [ha, hl]; exact h.line
  · rw [ha, hl]; exact h.target

theorem Held.pending_eq (h : Held env w pos) :
    w.conn.pending = w.request.drop (pos + 4 + w.taken) := by
  have hlen : (w.request.take (pos + 4)).length = pos + 4 := by
    rw [length_take]
    exact Nat.min_eq_left (Nat.le_of_add_right_le h.come)
  unfold H1Conn.pending
  rw [h.off, h.buf]
  exact List.drop_left' hlen

theorem Held.head_eq (h : Held env w pos) :
    w.conn.recvBuf.take w.conn.headerEndOff = w.request.take (pos + 4) := by
  have hlen : (w.request.take (pos + 4)).length = pos + 4 := by
    rw [length_take]
    exact Nat.min_eq_left (Nat.le_of_add_right_le h.come)
  rw [h.off, h.buf]
  exact List.take_left' hlen

theorem Held.move {pos n : Nat} (h : Held env w pos)
    (hn : n ≤ w.conn.pending.length) (hbuf : c.recvBuf = (w.conn.withPending (w.conn.pending.drop n)).recvBuf)
    (hoff : c.headerEndOff = w.conn.headerEndOff) (hline : SameLine w.conn c)
    (hp : c.phase ≠ .recvRequest) : Held env (w.advance c) pos := by
  have hpend := h.pending_eq
  have hplen : w.conn.pending.length = w.request.length - (pos + 4 + w.taken) := by
    rw [hpend, length_drop]
  have hnew : c.recvBuf = w.request.take (pos + 4) ++ w.request.drop (pos + 4 + w.taken + n) := by
    rw [hbuf]
    show w.conn.recvBuf.take w.conn.headerEndOff ++ w.conn.pending.drop n = _
    rw [h.head_eq, hpend, drop_drop]
  have hcome := h.come
  have htaken : w.taken + (w.conn.recvBuf.length - c.recvBuf.length) = w.taken + n := by
    rw [hnew, h.buf, length_append, length_append, length_drop, length_drop]
    omega
  have hshorter : c.recvBuf.length ≤ w.conn.recvBuf.length := by
    rw [hnew, h.buf, length_append, length_append, length_drop, length_drop]
    omega
  rw [advance_of_ne hp, htaken]
  refine ⟨h.blank, hoff.trans h.off, ?_, ?_, hshorter.trans h.fits, h.line.of_sameLine hline⟩
  · show pos + 4 + (w.taken + n) ≤ w.request.length
    omega
  · show c.recvBuf = w.request.take (pos + 4) ++ w.request.drop (pos + 4 + (w.taken + n))
    rw [hnew, Nat.add_assoc (pos + 4)]

theorem Held.keep (h : Held env w pos) (hbuf : c.recvBuf = w.conn.recvBuf) (hoff : c.headerEndOff = w.conn.headerEndOff)
    (hline : SameLine w.conn c) (hp : c.phase ≠ .recvRequest) : Held env (w.advance c) pos := by
  refine h.move (n := 0) (Nat.zero_le _) ?_ hoff hline hp
  rw [hbuf]
  exact (take_append_drop _ _).symm

theorem inv_finish (h : H1Inv env w)
    (hp : w.conn.phase ≠ .recvRequest) (hheld : w.conn.keepalive = true → ∃ pos, Held env w pos) :
    H1Inv env (w.advance (finishResponse w.conn)) := by
  unfold finishResponse
  split_ifs with hk
  · obtain ⟨pos, hh⟩ := hheld hk
    have hcome := hh.come
    have hreq : w.request.length = w.arrived.length - w.start := length_drop
    have hstart := h.started
    unfold RequestTrack.advance
    rw [if_pos ⟨rfl, hp⟩]
    have hnext : w.arrived.drop (w.start + w.conn.headerEndOff + w.taken)
        = w.request.drop (pos + 4 + w.taken) := by
      rw [hh.off, RequestTrack.request, drop_drop, Nat.add_assoc]
    refine ⟨?_, ?_⟩
    · show w.start + w.conn.headerEndOff + w.taken ≤ w.arrived.length
      rw [hh.off]
      omega
    · refine ⟨?_, ?_, rfl, rfl, fun hparsed => by cases hparsed⟩
      · show w.conn.recvBuf.drop w.conn.headerEndOff
          = w.arrived.drop (w.start + w.conn.headerEndOff + w.taken)
        rw [hnext]
        exact hh.pending_eq
      · have hfits := hh.fits
        show (w.conn.recvBuf.drop w.conn.headerEndOff).length ≤ env.profile.recvBufSize
        rw [length_drop]
        omega
  · exact inv_gone h (.inl rfl)

theorem inv_unchanged (h : H1Inv env w) :
    H1Inv env (w.advance w.conn) := by
  rw [advance_same rfl rfl]
  exact h

theorem inv_taken (n : Nat) (h : H1Inv env w) (hh : Held env w pos) (hp : c.phase.answers = true)
    (hbuf : c.recvBuf = (w.conn.withPending (w.conn.pending.drop n)).recvBuf)
    (hoff : c.headerEndOff = w.conn.headerEndOff) (hline : SameLine w.conn c) :
    H1Inv env (w.advance c) := by
  have hne : c.phase ≠ .recvRequest := by
    intro heq
    rw [heq] at hp
    cases hp
  have hn : w.conn.pending.drop n = w.conn.pending.drop (min n w.conn.pending.length) := by
    rcases Nat.le_total n w.conn.pending.length with hle | hle
    · rw [Nat.min_eq_left hle]
    · rw [Nat.min_eq_right hle, drop_length, drop_eq_nil_of_le hle]
  rw [hn] at hbuf
  refine ⟨?_, (phaseInv_answers (by rw [advance_conn]; exact hp)).mpr
    ⟨pos, hh.move (Nat.min_le_right n _) hbuf hoff hline hne⟩⟩
  rw [advance_of_ne hne]
  exact h.started

theorem inv_serve {act : HandlerAct} (h : H1Inv env w) (hh : Held env w pos) (hne : w.conn.phase ≠ .recvRequest) :
    H1Inv env (w.advance (w.conn.serve act)) := by
  cases act with
  | wait => exact inv_unchanged h
  | proxy => exact inv_unchanged h
  | upgrade staged => exact inv_unchanged h
  | awaitAdmit => exact inv_unchanged h
  | take n =>
    simp only [H1Conn.serve]
    split_ifs with happ
    · exact inv_taken n h hh (by rw [H1Conn.withPending, happ]; rfl) rfl rfl (SameLine.refl _)
    · exact inv_unchanged h
  | answer next staged keep =>
    simp only [H1Conn.serve]
    split_ifs with hnext
    · rw [or_eq_true, decide_eq_true_eq] at hnext
      have hcne : next ≠ .recvRequest := by
        rintro rfl
        rcases hnext with hnext | hnext <;> cases hnext
      have hheld := hh.keep (c := { w.conn with
        phase := next, sendBuf := staged, sendOffset := 0, keepalive := w.conn.keepalive && keep })
        rfl rfl (SameLine.refl _) hcne
      refine ⟨?_, ?_⟩
      · rw [advance_of_ne hcne]; exact h.started
      · rcases hnext with hnext | hnext
        · exact (phaseInv_answers (by rw [advance_conn]; exact hnext)).mpr ⟨pos, hheld⟩
        · exact (phaseInv_drainSend (by rw [advance_conn]; exact hnext)).mpr fun _ => ⟨pos, hheld⟩
    · exact inv_unchanged h
  | close => exact inv_gone h (.inl rfl)
  | finish => exact inv_finish h hne fun _ => ⟨pos, hh⟩

theorem inv_dispatchTo {handler : Handler} {act : HandlerAct} (h : H1Inv env w) (hh : Held env w pos)
    (hp : w.conn.phase = .dispatchRoute) :
    H1Inv env (w.advance (w.conn.dispatchTo handler act)) := by
  have hne : w.conn.phase ≠ .recvRequest := by rw [hp]; exact Phase.noConfusion
  cases act with
  | take n =>
    simp only [H1Conn.dispatchTo]
    split_ifs
    · exact inv_taken n h hh rfl rfl rfl (SameLine.refl _)
    · exact inv_unchanged h
  | proxy =>
    simp only [H1Conn.dispatchTo]
    split_ifs
    · exact inv_gone h (.inr (.inr rfl))
    · exact inv_unchanged h
  | upgrade staged =>
    simp only [H1Conn.dispatchTo]
    split_ifs
    · exact inv_gone h (.inr (.inr rfl))
    · exact inv_gone h (.inr (.inr rfl))
    · exact inv_unchanged h
  | awaitAdmit =>
    simp only [H1Conn.dispatchTo]
    split_ifs
    · exact inv_gone h (.inr (.inr rfl))
    · exact inv_unchanged h
  | wait => exact inv_serve h hh hne
  | answer next staged keep => exact inv_serve h hh hne
  | close => exact inv_serve h hh hne
  | finish => exact inv_serve h hh hne

structure SameRead (c c' : H1Conn) : Prop where
  phase : c'.phase = c.phase
  recvBuf : c'.recvBuf = c.recvBuf
  recvParsed : c'.recvParsed = c.recvParsed
  headerEndOff : c'.headerEndOff = c.headerEndOff
  line : SameLine c c'
  keepalive : c'.keepalive = c.keepalive
  bodyPending : c'.bodyPending = c.bodyPending
  bodyDeclared : c'.bodyDeclared = c.bodyDeclared
  bodyContinueWanted : c'.bodyContinueWanted = c.bodyContinueWanted
  decoder : c'.body.decoder = c.body.decoder

theorem Held.of_same (h : Held env w pos) (hs : SameRead w.conn c) : Held env { w with conn := c } pos :=
  ⟨h.blank, hs.headerEndOff.trans h.off, h.come, hs.recvBuf.trans h.buf,
    (congrArg List.length hs.recvBuf).trans_le h.fits, h.line.of_sameLine hs.line⟩

theorem PlanUnderway.of_declared {c c' : H1Conn} {plan : BodyPlan} (h : PlanUnderway c plan)
    (hd : c'.bodyDeclared = c.bodyDeclared) : PlanUnderway c' plan := by
  cases plan with
  | read decoder declared continueFirst => exact hd.trans h
  | none => exact h
  | invalid => exact h
  | lengthRequired => exact h

theorem framing_of_same {c c' : H1Conn} {drained : Bool} {plan : BodyPlan} (hs : SameRead c c')
    (h : if drained then PlanDone c plan else PlanAdopted c plan) :
    if drained then PlanDone c' plan else PlanAdopted c' plan := by
  cases plan <;>
    simpa only [PlanDone, PlanAdopted, hs.bodyPending, hs.bodyDeclared, hs.bodyContinueWanted,
      hs.decoder] using h

theorem Weighed.of_same (h : Weighed w pos) (hs : SameRead w.conn c) : Weighed { w with conn := c } pos := by
  refine ⟨hs.keepalive.trans h.keepalive, ?_, h.fresh⟩
  show if w.drained then PlanDone c (planBody c.reqMethod _) else PlanAdopted c (planBody c.reqMethod _)
  rw [hs.line.1]
  exact framing_of_same hs h.framing

theorem inv_same (h : H1Inv env w) (hs : SameRead w.conn c) : H1Inv env { w with conn := c } := by
  refine ⟨h.started, ?_⟩
  have hphase := h.phase
  cases hp : w.conn.phase
  case recvRequest =>
    have hr := (phaseInv_recvRequest hp).mp hphase
    refine (phaseInv_recvRequest (hs.phase.trans hp)).mpr
      ⟨hs.recvBuf.trans hr.buf, ?_, hr.taken, hr.drained, fun hl => ?_⟩
    · exact (congrArg List.length hs.recvBuf).trans_le hr.fits
    · exact (hr.line (hs.recvParsed.symm.trans hl)).of_sameLine hs.line
  case dispatchRoute =>
    obtain ⟨pos, hh, hw⟩ := (phaseInv_dispatchRoute hp).mp hphase
    exact (phaseInv_dispatchRoute (hs.phase.trans hp)).mpr ⟨pos, hh.of_same hs, hw.of_same hs⟩
  case recvBody =>
    obtain ⟨pos, hh, hd⟩ := (phaseInv_recvBody hp).mp hphase
    refine (phaseInv_recvBody (hs.phase.trans hp)).mpr
      ⟨pos, hh.of_same hs, hs.keepalive.trans hd.keepalive, ?_⟩
    show PlanUnderway c (planBody c.reqMethod _)
    rw [hs.line.1]
    exact hd.framing.of_declared hs.bodyDeclared
  case drainSend =>
    refine (phaseInv_drainSend (hs.phase.trans hp)).mpr fun hk => ?_
    obtain ⟨pos, hh⟩ := (phaseInv_drainSend hp).mp hphase (hs.keepalive.symm.trans hk)
    exact ⟨pos, hh.of_same hs⟩
  case appExchange | sendHeaders | sendBody | fetchContent | cacheStream | awaitFsStat | fsList =>
    have hans : w.conn.phase.answers = true := by rw [hp]; rfl
    obtain ⟨pos, hh⟩ := (phaseInv_answers hans).mp hphase
    exact (phaseInv_answers ((congrArg Phase.answers hs.phase).trans hans)).mpr
      ⟨pos, hh.of_same hs⟩
  all_goals
    unfold PhaseInv
    rw [hs.phase, hp]
    exact fun hans => absurd hans false_ne_true

/-! ### Dispatch and body -/

theorem inv_refuse {r : Refusal} (h : H1Inv env w) :
    H1Inv env (w.advance (refuse env.profile c r)) := inv_closing h rfl rfl

theorem inv_beginDiscard {pos limit : Nat} (h : H1Inv env w)
    (hh : Held env w pos) (hw : Weighed w pos) (hpend : w.conn.bodyPending = true) :
    H1Inv env (w.advance (beginDiscard env.profile w.conn limit)) := by
  have hphase : (beginDiscard env.profile w.conn limit).phase = .recvBody := by
    unfold beginDiscard
    simp only
    split_ifs <;> rfl
  have hne : (beginDiscard env.profile w.conn limit).phase ≠ .recvRequest := by
    rw [hphase]; exact Phase.noConfusion
  -- Only the fields of the reader and the staged interim response change.
  have hkept : (beginDiscard env.profile w.conn limit).recvBuf = w.conn.recvBuf ∧
      (beginDiscard env.profile w.conn limit).headerEndOff = w.conn.headerEndOff ∧
      SameLine w.conn (beginDiscard env.profile w.conn limit) ∧
      (beginDiscard env.profile w.conn limit).keepalive = w.conn.keepalive ∧
      (beginDiscard env.profile w.conn limit).bodyDeclared = w.conn.bodyDeclared := by
    unfold beginDiscard
    simp only
    split_ifs <;> exact ⟨rfl, rfl, SameLine.refl _, rfl, rfl⟩
  obtain ⟨hbuf, hoff, hline, hkeep, hdecl⟩ := hkept
  refine ⟨?_, ?_⟩
  · rw [advance_of_ne hne]; exact h.started
  · refine (phaseInv_recvBody (by rw [advance_conn, hphase])).mpr
      ⟨pos, hh.keep hbuf hoff hline hne, ?_, ?_⟩
    · rw [advance_conn, advance_request_of_ne hne, hkeep]
      exact hw.keepalive
    · have hf := hw.framing
      rw [advance_conn, advance_request_of_ne hne, hline.1]
      split_ifs at hf
      · cases hplan : planBody w.conn.reqMethod (w.request.take (pos + 4)) <;> rw [hplan] at hf
        case read => exact absurd (hf.1.symm.trans hpend) false_ne_true
        all_goals exact hf.elim
      · cases hplan : planBody w.conn.reqMethod (w.request.take (pos + 4)) <;> rw [hplan] at hf
        case none => exact absurd (hf.1.symm.trans hpend) false_ne_true
        case read => exact hdecl.trans hf.2.2.1
        all_goals exact hf.elim

theorem inv_dispatchMatched {handler : Handler}
    {pos limit : Nat} (h : H1Inv env w) (hp : w.conn.phase = .dispatchRoute) (hh : Held env w pos)
    (hw : Weighed w pos) :
    H1Inv env (w.advance (dispatchMatched env inp w.conn handler limit)) := by
  unfold dispatchMatched
  split_ifs with hpend hlong
  · exact inv_beginDiscard h hh hw (and_eq_true_iff.mp hpend).1
  · exact inv_refuse h
  · exact inv_dispatchTo h hh hp

theorem inv_dispatchRouted (h : H1Inv env w) (hp : w.conn.phase = .dispatchRoute) (hh : Held env w pos)
    (hw : Weighed w pos) : H1Inv env (w.advance (dispatchRouted env inp w.conn)) := by
  unfold dispatchRouted
  simp only
  split_ifs
  · exact inv_refuse h
  · cases (matchRoutePath env.routes w.conn.target).bind fun i => env.routes[i]? with
    | none =>
      simp only [dispatchUnmatched]
      cases inp.dynRoute with
      | backend idx => exact inv_gone h (.inr (.inr rfl))
      | noBackend => exact inv_closing h rfl rfl
      | unmatched =>
        simp only
        split_ifs with hpend
        · exact inv_beginDiscard h hh hw hpend
        · exact inv_refuse h
    | some route =>
      -- Noting the match in the slot touches nothing the head is kept in.
      have hs : SameRead w.conn
          { w.conn with matchedRoute := matchRoutePath env.routes w.conn.target } :=
        ⟨rfl, rfl, rfl, rfl, SameLine.refl _, rfl, rfl, rfl, rfl, rfl⟩
      exact inv_dispatchMatched (inv_same h hs) hp (hh.of_same hs) (hw.of_same hs)

theorem inv_dispatch (h : H1Inv env w) (hp : w.conn.phase = .dispatchRoute) :
    H1Inv env (w.advance (stepDispatchRoute env inp w.conn)) := by
  obtain ⟨pos, hh, hw⟩ := (phaseInv_dispatchRoute hp).mp h.phase
  have hne : w.conn.phase ≠ .recvRequest := by rw [hp]; exact Phase.noConfusion
  unfold stepDispatchRoute
  split_ifs
  · exact inv_refuse h
  · exact inv_serve h hh hne
  · exact inv_closing h rfl rfl
  · exact inv_dispatchRouted h hp hh hw

theorem inv_discardBody (h : H1Inv env w) (hp : w.conn.phase = .recvBody) : H1Inv env (w.advance (discardBody env.profile w.conn)) := by
  obtain ⟨pos, hh, hd⟩ := (phaseInv_recvBody hp).mp h.phase
  obtain ⟨n, hn, hrest⟩ :=
    discard_drop w.conn.headerEndOff env.profile.recvBufSize w.conn.body w.conn.pending
  unfold discardBody
  simp only
  rw [hrest]
  generalize (discard w.conn.headerEndOff env.profile.recvBufSize w.conn.body w.conn.pending).1 = r
  generalize (discard w.conn.headerEndOff env.profile.recvBufSize w.conn.body w.conn.pending).2.2
    = outcome
  -- A pass that is not through leaves the slot where it is, or closes it.
  have hstay : H1Inv env (w.advance
      (if w.conn.peerClosed then
        { w.conn.withPending (w.conn.pending.drop n) with body := r, phase := .closeConn }
      else { w.conn.withPending (w.conn.pending.drop n) with body := r })) := by
    split_ifs
    · exact inv_gone h (.inl rfl)
    · have hne : ({ w.conn.withPending (w.conn.pending.drop n) with body := r } : H1Conn).phase
          ≠ .recvRequest := by
        show w.conn.phase ≠ _
        rw [hp]; exact Phase.noConfusion
      refine ⟨?_, ?_⟩
      · rw [advance_of_ne hne]; exact h.started
      · refine (phaseInv_recvBody (by rw [advance_conn]; exact hp)).mpr
          ⟨pos, hh.move hn rfl rfl (SameLine.refl _) hne, ?_, ?_⟩
        · rw [advance_conn, advance_request_of_ne hne]; exact hd.keepalive
        · rw [advance_conn, advance_request_of_ne hne]
          show PlanUnderway _ (planBody w.conn.reqMethod (w.request.take (pos + 4)))
          exact hd.framing.of_declared rfl
  cases outcome with
  | done =>
    simp only
    have hne : ({ w.conn.withPending (w.conn.pending.drop n) with
        body := r, bodyPending := false, phase := .dispatchRoute } : H1Conn).phase
        ≠ .recvRequest := Phase.noConfusion
    have hdrained : (w.advance { w.conn.withPending (w.conn.pending.drop n) with
        body := r, bodyPending := false, phase := .dispatchRoute }).drained = true := by
      rw [advance_of_ne hne]
      show (w.drained || decide (w.conn.phase = .recvBody ∧ _)) = true
      rw [hp]
      exact Bool.or_true _
    refine ⟨?_, ?_⟩
    · rw [advance_of_ne hne]; exact h.started
    · refine (phaseInv_dispatchRoute (by rw [advance_conn])).mpr
        ⟨pos, hh.move hn rfl rfl (SameLine.refl _) hne, ?_, ?_,
          fun hf => absurd (hf.symm.trans hdrained) false_ne_true⟩
      · rw [advance_conn, advance_request_of_ne hne]; exact hd.keepalive
      · have hf := hd.framing
        rw [hdrained, if_pos rfl, advance_conn, advance_request_of_ne hne]
        show PlanDone _ (planBody w.conn.reqMethod (w.request.take (pos + 4)))
        cases hplan : planBody w.conn.reqMethod (w.request.take (pos + 4)) <;> rw [hplan] at hf
        case read => exact ⟨rfl, hf⟩
        all_goals exact hf.elim
  | progress => exact hstay
  | wait => exact hstay
  | bad => exact inv_refuse h
  | tooLarge => exact inv_refuse h

theorem inv_sent (sendBuf : Bytes) (sendOffset : Nat) (cont : Bool) (h : H1Inv env w) : H1Inv env { w with
      conn := { w.conn with sendBuf := sendBuf, sendOffset := sendOffset, bodyContinue := cont } } :=
  inv_same h ⟨rfl, rfl, rfl, rfl, SameLine.refl _, rfl, rfl, rfl, rfl, rfl⟩

theorem inv_flush {sent : Nat} (h : H1Inv env w) :
    H1Inv env (w.advance (w.conn.flush sent).1) := by
  rw [advance_same (c := (w.conn.flush sent).1) rfl rfl]
  exact inv_sent _ _ w.conn.bodyContinue h

theorem inv_recvBody (h : H1Inv env w) (hp : w.conn.phase = .recvBody) :
    H1Inv env (w.advance (stepRecvBody env.profile inp w.conn).1) := by
  unfold stepRecvBody
  split_ifs
  · exact inv_discardBody (inv_sent [] 0 false h) hp
  · exact inv_flush h
  · exact inv_discardBody h hp

theorem inv_drainSend (h : H1Inv env w) (hp : w.conn.phase = .drainSend) : H1Inv env (w.advance (stepDrainSend inp w.conn).1) := by
  unfold stepDrainSend
  split_ifs
  · refine inv_finish h ?_ ((phaseInv_drainSend hp).mp h.phase)
    rw [hp]; exact Phase.noConfusion
  · exact inv_flush h

/-! ### Reading a request -/

theorem inv_readHead (h : H1Inv env w) (hp : w.conn.phase = .recvRequest) (hr : Reading env w)
    (hline : LineKept env w.conn w.request)
    (hroom : findPat blankLine w.conn.recvBuf = none →
      w.conn.recvBuf.length < env.profile.recvBufSize) :
    H1Inv env (w.advance (readHead env w.conn)) := by
  unfold readHead
  cases hpos : findPat blankLine w.conn.recvBuf with
  | none =>
    simp only
    rw [if_neg (Nat.not_le.mpr (hroom hpos)), advance_same rfl rfl]
    exact h
  | some pos =>
    simp only
    -- A plan that is no refusal takes the request to its dispatch.
    have hgo : ∀ plan, planBody w.conn.reqMethod (w.conn.recvBuf.take (pos + 4)) = plan →
        plan ≠ .invalid → plan ≠ .lengthRequired →
        H1Inv env (w.advance { w.conn.adoptPlan plan with
          keepalive := requestKeepsAlive (w.conn.recvBuf.take (pos + 4))
          headerEndOff := pos + 4
          phase := .dispatchRoute }) := by
      intro plan hplan hinv hlen
      have hfields : (w.conn.adoptPlan plan).recvBuf = w.conn.recvBuf ∧
          SameLine w.conn (w.conn.adoptPlan plan) ∧ PlanAdopted (w.conn.adoptPlan plan) plan := by
        cases plan with
        | read decoder declared continueFirst =>
          exact ⟨rfl, SameLine.refl _, rfl, rfl, rfl, rfl⟩
        | none => exact ⟨rfl, SameLine.refl _, rfl, rfl, rfl⟩
        | invalid => exact absurd rfl hinv
        | lengthRequired => exact absurd rfl hlen
      obtain ⟨hbuf, hsame, hadopt⟩ := hfields
      have hle := findPat_le hpos
      rw [hr.buf] at hpos hle hbuf hplan
      have hcome : pos + 4 ≤ w.request.length := hle
      have hne : ({ w.conn.adoptPlan plan with
          keepalive := requestKeepsAlive (w.conn.recvBuf.take (pos + 4))
          headerEndOff := pos + 4
          phase := .dispatchRoute } : H1Conn).phase ≠ .recvRequest := Phase.noConfusion
      have hzero : w.taken + (w.conn.recvBuf.length - (w.conn.adoptPlan plan).recvBuf.length) = 0 := by
        rw [hbuf, hr.buf, hr.taken, Nat.sub_self]
      have hund : (w.drained || decide (w.conn.phase = .recvBody ∧ Phase.dispatchRoute = .dispatchRoute))
          = false := by
        rw [hr.drained, hp]
        rfl
      rw [advance_of_ne hne]
      refine ⟨h.started, ?_⟩
      rw [phaseInv_dispatchRoute rfl]
      refine ⟨pos, ⟨hpos, rfl, ?_, ?_, ?_, ?_⟩, ?_, ?_, fun _ => hzero⟩
      · show pos + 4 + (w.taken + (w.conn.recvBuf.length - (w.conn.adoptPlan plan).recvBuf.length))
          ≤ w.request.length
        rw [hzero]
        exact hcome
      · show (w.conn.adoptPlan plan).recvBuf = w.request.take (pos + 4) ++ w.request.drop
          (pos + 4 + (w.taken + (w.conn.recvBuf.length - (w.conn.adoptPlan plan).recvBuf.length)))
        rw [hzero, hbuf]
        exact (take_append_drop _ _).symm
      · show (w.conn.adoptPlan plan).recvBuf.length ≤ _
        rw [hbuf, ← hr.buf]
        exact hr.fits
      · exact hline.of_sameLine hsame
      · show requestKeepsAlive (w.conn.recvBuf.take (pos + 4)) = _
        rw [hr.buf]
        rfl
      · show if (w.drained || decide (w.conn.phase = .recvBody ∧ _)) = true then _
          else PlanAdopted _ (planBody (w.conn.adoptPlan plan).reqMethod (w.request.take (pos + 4)))
        rw [hund, if_neg false_ne_true, hsame.1, hplan]
        cases plan <;> exact hadopt
    cases hplan : planBody w.conn.reqMethod (w.conn.recvBuf.take (pos + 4)) with
    | none => exact hgo _ hplan nofun nofun
    | read decoder declared continueFirst => exact hgo _ hplan nofun nofun
    | invalid => exact inv_closing h rfl rfl
    | lengthRequired => exact inv_closing h rfl rfl

theorem inv_recvRequest (h : H1Inv env w) (hp : w.conn.phase = .recvRequest) (hok : ReadOk env w.conn) :
    H1Inv env (w.advance (stepRecvRequest env inp w.conn)) := by
  obtain ⟨htwo, hfull⟩ := hok
  have hr := (phaseInv_recvRequest hp).mp h.phase
  have hsame := inv_unchanged h
  unfold stepRecvRequest
  by_cases hempty : w.conn.recvBuf = []
  · rw [if_pos hempty]
    split_ifs
    · exact inv_gone h (.inl rfl)
    · exact hsame
  rw [if_neg hempty]
  split_ifs with hshort hpreface hheap hparsed
  · exact hsame
  · exact inv_gone h (.inr (.inr rfl))
  · exact inv_gone h (.inl rfl)
  · exact inv_readHead h hp hr (hr.line hparsed) (hfull (.inl hparsed))
  · cases hread : readRequestLine env w.conn.recvBuf with
    | refused r => exact inv_refuse h
    | wait => exact hsame
    | read line =>
      have hkept : LineKept env (w.conn.adoptLine env.profile line) w.request := by
        rw [← hr.buf]
        exact adoptLine_kept hread (htwo ⟨line, hread⟩ (eq_false_iff.mpr hparsed))
      have hr' : Reading env { w with conn := w.conn.adoptLine env.profile line } :=
        ⟨hr.buf, hr.fits, hr.taken, hr.drained, fun _ => hkept⟩
      have h' : H1Inv env { w with conn := w.conn.adoptLine env.profile line } :=
        ⟨h.started, (phaseInv_recvRequest (by exact hp)).mpr hr'⟩
      exact inv_readHead (w := { w with conn := w.conn.adoptLine env.profile line }) h' hp hr' hkept
        (hfull (.inr ⟨line, hread⟩))

/-! ### Every event -/

theorem inv_data {frame : Bytes} (h : H1Inv env w) (hroom : w.conn.hasRoom env.profile frame.length = true) :
    H1Inv env { w with
      conn := { w.conn with recvBuf := w.conn.recvBuf ++ frame }, arrived := w.arrived ++ frame } := by
  have hreq : (w.arrived ++ frame).drop w.start = w.request ++ frame :=
    drop_append_of_le_length h.started
  have hfits : (w.conn.recvBuf ++ frame).length ≤ env.profile.recvBufSize := by
    rw [length_append]
    exact of_decide_eq_true hroom
  have hhead : ∀ n, n ≤ w.request.length →
      ((w.arrived ++ frame).drop w.start).take n = w.request.take n := by
    intro n hn
    rw [hreq, take_append_of_le_length hn]
  have hheld : ∀ pos, Held env w pos → Held env { w with
      conn := { w.conn with recvBuf := w.conn.recvBuf ++ frame }, arrived := w.arrived ++ frame } pos := by
    intro pos hh
    have hcome := hh.come
    have hkept : LineKept env { w.conn with recvBuf := w.conn.recvBuf ++ frame } (w.request ++ frame) :=
      (hh.line.append frame).of_sameLine (SameLine.refl _)
    refine ⟨?_, hh.off, ?_, ?_, hfits, ?_⟩
    · show findPat blankLine ((w.arrived ++ frame).drop w.start) = some pos
      rw [hreq]
      exact findPat_append hh.blank frame
    · show pos + 4 + w.taken ≤ ((w.arrived ++ frame).drop w.start).length
      rw [hreq, length_append]
      omega
    · show w.conn.recvBuf ++ frame = ((w.arrived ++ frame).drop w.start).take (pos + 4) ++
        ((w.arrived ++ frame).drop w.start).drop (pos + 4 + w.taken)
      rw [hhead _ (Nat.le_of_add_right_le hcome), hreq, drop_append_of_le_length hcome,
        ← append_assoc, ← hh.buf]
    · show LineKept env _ ((w.arrived ++ frame).drop w.start)
      rw [hreq]
      exact hkept
  refine ⟨?_, ?_⟩
  · show w.start ≤ (w.arrived ++ frame).length
    rw [length_append]
    exact Nat.le_add_right_of_le h.started
  have hphase := h.phase
  unfold PhaseInv at hphase ⊢
  show match w.conn.phase with
    | .recvRequest => _ | .dispatchRoute => _ | .recvBody => _ | .drainSend => _ | _ => _
  cases hp : w.conn.phase <;> rw [hp] at hphase
  case recvRequest =>
    refine ⟨?_, hfits, hphase.taken, hphase.drained, fun hl => ?_⟩
    · show w.conn.recvBuf ++ frame = (w.arrived ++ frame).drop w.start
      rw [hreq, hphase.buf]
    · show LineKept env _ ((w.arrived ++ frame).drop w.start)
      rw [hreq]
      exact ((hphase.line hl).append frame).of_sameLine (SameLine.refl _)
  case dispatchRoute =>
    obtain ⟨pos, hh, hw⟩ := hphase
    have hcut := hhead _ (Nat.le_of_add_right_le hh.come)
    refine ⟨pos, hheld pos hh, ?_, ?_, hw.fresh⟩
    · show w.conn.keepalive = requestKeepsAlive (((w.arrived ++ frame).drop w.start).take (pos + 4))
      rw [hcut]
      exact hw.keepalive
    · have hf := hw.framing
      show if w.drained then PlanDone _ (planBody w.conn.reqMethod
          (((w.arrived ++ frame).drop w.start).take (pos + 4)))
        else PlanAdopted _ (planBody w.conn.reqMethod
          (((w.arrived ++ frame).drop w.start).take (pos + 4)))
      rw [hcut]
      cases hplan : planBody w.conn.reqMethod (w.request.take (pos + 4)) <;> rw [hplan] at hf <;>
        exact hf
  case recvBody =>
    obtain ⟨pos, hh, hd⟩ := hphase
    have hcut := hhead _ (Nat.le_of_add_right_le hh.come)
    refine ⟨pos, hheld pos hh, ?_, ?_⟩
    · show w.conn.keepalive = requestKeepsAlive (((w.arrived ++ frame).drop w.start).take (pos + 4))
      rw [hcut]
      exact hd.keepalive
    · show PlanUnderway _ (planBody w.conn.reqMethod
        (((w.arrived ++ frame).drop w.start).take (pos + 4)))
      rw [hcut]
      exact hd.framing.of_declared rfl
  all_goals
    intro hk
    obtain ⟨pos, hh⟩ := hphase hk
    exact ⟨pos, hheld pos hh⟩

def Leaves (c : H1Conn) : Prop :=
  (c.phase = .closeConn ∨ c.phase = .init ∨ c.phase.handedOver = true) ∨
    c.phase = .drainSend ∧ c.keepalive = false

theorem inv_leaves (h : H1Inv env w) (hc : Leaves c) : H1Inv env (w.advance c) := by
  rcases hc with hc | ⟨hp, hk⟩
  · exact inv_gone h hc
  · exact inv_closing h hp hk

theorem leaves_onConnectFailed (p : Profile) (c : H1Conn) (nextBackend : Bool) :
    Leaves (c.onConnectFailed p nextBackend) := by
  unfold H1Conn.onConnectFailed
  split_ifs
  · exact .inl (.inr (.inr rfl))
  · exact .inr ⟨rfl, rfl⟩

theorem leaves_of_handedOver (h : c.phase.handedOver = true) : Leaves c :=
  .inl (.inr (.inr h))

theorem wsFlush_phase (c : H1Conn) (sent : Nat) : (c.wsFlush sent).1.phase = c.phase := by
  unfold H1Conn.wsFlush
  simp only
  split_ifs <;> rfl

theorem wsTakeFrame_phase (p : Profile) (taken : Bool) (c : H1Conn) (h : Common.WsHeader) :
    (c.wsTakeFrame p taken h).1.phase = c.phase ∨ (c.wsTakeFrame p taken h).1.phase = .wsClose := by
  unfold H1Conn.wsTakeFrame
  split
  · exact .inr rfl
  split
  · exact .inl rfl
  split
  · exact .inl rfl
  split
  · split
    · split <;> exact .inl rfl
    · exact .inl rfl
  · exact .inr rfl

theorem wsProcessInbound_phase (p : Profile) (taken : Bool) (c : H1Conn) :
    (c.wsProcessInbound p taken).1.phase = c.phase ∨
      (c.wsProcessInbound p taken).1.phase = .wsClose := by
  unfold H1Conn.wsProcessInbound
  cases parseFrame c.recvBuf with
  | invalid => exact .inr rfl
  | incomplete => exact .inl rfl
  | ok h =>
    simp only
    split
    · exact .inr rfl
    split
    · exact .inl rfl
    split
    · exact .inr rfl
    · exact wsTakeFrame_phase p taken c h

theorem wsFill_phase (c : H1Conn) (frame : Option Bytes) : (c.wsFill frame).1.phase = c.phase := by
  cases frame with
  | none => rfl
  | some frame =>
    simp only [H1Conn.wsFill]
    split_ifs <;> rfl

theorem wsRound_phase (p : Profile) (r : WsRound) (c : H1Conn) :
    (c.wsRound p r).1.phase = c.phase ∨ (c.wsRound p r).1.phase = .wsClose := by
  have hphase : ((c.wsFlush r.sent).1.wsFill r.fanIn).1.phase = c.phase := by
    rw [wsFill_phase, wsFlush_phase]
  simp only [H1Conn.wsRound, H1Conn.wsReceive]
  split_ifs
  · rw [← hphase]
    exact wsProcessInbound_phase p r.outTaken _
  · exact .inl hphase

theorem leaves_wsLoop (p : Profile) (rs : List WsRound) (c : H1Conn)
    (h : c.phase.handedOver = true) : Leaves (c.wsLoop p rs).1 := by
  induction rs generalizing c with
  | nil => exact leaves_of_handedOver h
  | cons r rs ih =>
    have hround : (c.wsRound p r).1.phase.handedOver = true := by
      rcases wsRound_phase p r c with hr | hr
      · rw [hr]; exact h
      · rw [hr]; rfl
    rw [H1Conn.wsLoop]
    simp only
    split_ifs
    · exact ih _ hround
    · exact leaves_of_handedOver hround

theorem leaves_stepWsActive (p : Profile) (inp : H1Input) (h : c.phase.handedOver = true) : Leaves (c.stepWsActive p inp).1 := by
  unfold H1Conn.stepWsActive
  by_cases hpeer : c.peerClosed = true
  · rw [if_pos hpeer]
    exact .inl (.inl rfl)
  rw [if_neg hpeer]
  cases inp.wsTurn with
  | close code => exact leaves_of_handedOver rfl
  | ping =>
    refine leaves_of_handedOver ?_
    simp only
    split_ifs
    · exact h
    · exact h
  | flushOnly sent =>
    refine leaves_of_handedOver ?_
    simp only
    rw [wsFlush_phase]
    exact h
  | rounds rs => exact leaves_wsLoop p _ c h

theorem relay_phase (inp : H1Input) (c : H1Conn) :
    (c.proxyRelayStep inp).1.phase = c.phase ∨ (c.proxyRelayStep inp).1.phase = .closeConn := by
  have hup : (c.relayUp inp.sentBackend).1.phase = c.phase := by
    unfold H1Conn.relayUp
    simp only
    split_ifs <;> rfl
  have hdown : ((c.relayUp inp.sentBackend).1.relayDown inp.sent).1.phase = c.phase := by
    rw [← hup]
    unfold H1Conn.relayDown
    simp only
    split_ifs <;> rfl
  unfold H1Conn.proxyRelayStep
  simp only
  split_ifs
  · exact .inr rfl
  · exact .inl hdown

theorem leaves_stepPhase (h : c.phase.handedOver = true) : Leaves (stepPhase env inp c).1 := by
  have hrelay : Leaves (c.proxyRelayStep inp).1 := by
    rcases relay_phase inp c with hr | hr
    · exact leaves_of_handedOver (hr ▸ h)
    · exact .inl (.inl hr)
  unfold stepPhase
  cases hp : c.phase <;> rw [hp] at h <;> try exact absurd h false_ne_true
  case proxyConnect =>
    simp only [H1Conn.stepProxyConnect]
    split_ifs
    · exact leaves_of_handedOver rfl
    · exact leaves_of_handedOver (by rw [hp]; rfl)
  case proxyWaitConnect =>
    simp only [H1Conn.stepProxyWaitConnect]
    split_ifs
    · exact leaves_onConnectFailed _ _ _
    · exact leaves_of_handedOver rfl
    · exact leaves_onConnectFailed _ _ _
    · exact leaves_of_handedOver (by rw [hp]; rfl)
  case proxySendRequest =>
    simp only [H1Conn.stepProxySendRequest]
    split_ifs
    · exact leaves_onConnectFailed _ _ _
    · exact leaves_of_handedOver rfl
    · exact leaves_of_handedOver (by show c.phase.handedOver = true; rw [hp]; rfl)
  case proxyRelayHeaders => exact hrelay
  case proxyRelayBody => exact hrelay
  case wsAwaitAdmit =>
    simp only [H1Conn.stepWsAwaitAdmit]
    cases inp.admission with
    | none => exact leaves_of_handedOver (by rw [hp]; rfl)
    | some answer =>
      obtain ⟨granted, staged⟩ := answer
      cases granted
      · exact .inr ⟨rfl, rfl⟩
      · exact leaves_of_handedOver rfl
  case wsHandshake =>
    simp only [H1Conn.stepWsHandshake]
    split_ifs
    · exact leaves_of_handedOver rfl
    · exact leaves_of_handedOver (by show c.phase.handedOver = true; rw [hp]; rfl)
  case wsActive => exact leaves_stepWsActive env.profile inp (by rw [hp]; rfl)
  case wsClose =>
    simp only [H1Conn.stepWsClose]
    split_ifs
    · exact .inl (.inl rfl)
    · exact leaves_of_handedOver (by show c.phase.handedOver = true; rw [hp]; rfl)
  case h2Active =>
    cases inp.act <;>
      first | exact .inl (.inl rfl) | exact leaves_of_handedOver (by show c.phase.handedOver = true; rw [hp]; rfl)
  case h3Tunnel => exact leaves_of_handedOver (by rw [hp]; rfl)

theorem inv_stepPhase (h : H1Inv env w) (hok : w.conn.phase = .recvRequest → ReadOk env w.conn) :
    H1Inv env (w.advance (stepPhase env inp w.conn).1) := by
  by_cases hover : w.conn.phase.handedOver = true
  · exact inv_leaves h (leaves_stepPhase hover)
  unfold stepPhase
  cases hp : w.conn.phase
  case recvRequest => exact inv_recvRequest h hp (hok hp)
  case dispatchRoute => exact inv_dispatch h hp
  case recvBody => exact inv_recvBody h hp
  case drainSend => exact inv_drainSend h hp
  case closeConn => exact inv_gone h (.inr (.inl rfl))
  case init | binding | waitBound | waitAccept | error => exact inv_unchanged h
  case appExchange | sendHeaders | sendBody | fetchContent | cacheStream | awaitFsStat | fsList =>
    have hans : w.conn.phase.answers = true := by rw [hp]; rfl
    obtain ⟨pos, hh⟩ := (phaseInv_answers hans).mp h.phase
    exact inv_serve h hh (by rw [hp]; exact Phase.noConfusion)
  all_goals exact absurd (by rw [hp]; rfl) hover

theorem SameRead.refl (c : H1Conn) : SameRead c c :=
  ⟨rfl, rfl, rfl, rfl, SameLine.refl _, rfl, rfl, rfl, rfl, rfl⟩

theorem demux_cases {p : Profile} {c c' : H1Conn} {m : NetIn} (h : demuxInbound p c m = some c') :
    (∃ frame, m.clientBytes c = frame ∧ c.hasRoom p frame.length = true ∧
      c' = { c with recvBuf := c.recvBuf ++ frame }) ∨
    (m.clientBytes c = [] ∧ SameRead c c') := by
  have hsame : SameRead c c := SameRead.refl c
  cases m with
  | data frame =>
    simp only [demuxInbound] at h
    split_ifs at h with hacc hroom
    · obtain rfl := Option.some.inj h
      rw [Bool.not_eq_true'] at hacc
      exact .inr ⟨by rw [NetIn.clientBytes, hacc]; rfl, hsame⟩
    · obtain rfl := Option.some.inj h
      rw [Bool.not_eq_true', Bool.not_eq_false] at hacc
      exact .inl ⟨frame, by rw [NetIn.clientBytes, hacc]; rfl, hroom, rfl⟩
  | closed =>
    obtain rfl := Option.some.inj h
    exact .inr ⟨rfl, ⟨rfl, rfl, rfl, rfl, SameLine.refl _, rfl, rfl, rfl, rfl, rfl⟩⟩
  | connected conn =>
    obtain rfl := Option.some.inj h
    refine .inr ⟨rfl, ?_⟩
    split_ifs <;> exact ⟨rfl, rfl, rfl, rfl, SameLine.refl _, rfl, rfl, rfl, rfl, rfl⟩
  | connectError =>
    obtain rfl := Option.some.inj h
    refine .inr ⟨rfl, ?_⟩
    split_ifs <;> exact ⟨rfl, rfl, rfl, rfl, SameLine.refl _, rfl, rfl, rfl, rfl, rfl⟩
  | backendData frame =>
    simp only [demuxInbound] at h
    split_ifs at h
    · obtain rfl := Option.some.inj h
      exact .inr ⟨rfl, hsame⟩
    · obtain rfl := Option.some.inj h
      exact .inr ⟨rfl, ⟨rfl, rfl, rfl, rfl, SameLine.refl _, rfl, rfl, rfl, rfl, rfl⟩⟩
  | backendClosed =>
    obtain rfl := Option.some.inj h
    refine .inr ⟨rfl, ?_⟩
    split_ifs <;> exact ⟨rfl, rfl, rfl, rfl, SameLine.refl _, rfl, rfl, rfl, rfl, rfl⟩

theorem inv_demux {m : NetIn} (h : H1Inv env w) (hm : demuxInbound env.profile w.conn m = some c) :
    H1Inv env { w with conn := c, arrived := w.arrived ++ m.clientBytes w.conn } := by
  rcases demux_cases hm with ⟨frame, hframe, hroom, rfl⟩ | ⟨hnone, hs⟩
  · rw [hframe]
    exact inv_data h hroom
  · rw [hnone, append_nil]
    exact inv_same h hs

theorem inv_step {w : H1World} {e : H1Event} (h : H1Inv env w.toRequestTrack) (hok : H1StepOk env w e) : H1Inv env (h1Step env w e).1.toRequestTrack := by
  cases e with
  | arrive m => exact h
  | demux =>
    unfold h1Step
    cases hq : w.netIn with
    | nil => exact h
    | cons m rest =>
      simp only
      cases hm : demuxInbound env.profile w.conn m with
      | none => exact h
      | some c => exact inv_demux h hm
  | step inp =>
    show H1Inv env (w.toRequestTrack.advance (stepActiveSlot env inp w.conn).1)
    unfold stepActiveSlot
    split_ifs with hpeer hlate
    · exact inv_gone h (.inr (.inl rfl))
    · exact inv_gone h (.inl rfl)
    · refine inv_stepPhase h fun hp => hok hp ?_ ?_
      · rw [hp] at hpeer
        simpa [Phase.closesWithPeer] using hpeer
      · rw [hp] at hlate
        simpa [Phase.hasDeadline] using hlate

theorem inv_init (env : H1Env) : H1Inv env {} :=
  ⟨Nat.zero_le _, rfl, Nat.zero_le _, rfl, rfl, nofun⟩

theorem inv_run {evs : List H1Event} (hal : (h1Machine env).Along (H1StepOk env) {} evs) :
    H1Inv env ((h1Machine env).run {} evs).1.toRequestTrack :=
  (h1Machine env).run_invariant (I := fun w => H1Inv env w.toRequestTrack)
    (fun _ _ h hok => inv_step h hok) (inv_init env) hal

/-! ## What follows -/

theorem judgedWhole_of_inv (h : H1Inv env w) : JudgedWhole env w := by
  intro hp
  obtain ⟨pos, hh, hw⟩ := (phaseInv_dispatchRoute hp).mp h.phase
  have hline := hh.line.take hh.blank
  obtain ⟨e, he, hin⟩ := hline.line
  have hle := findPat_le he
  refine ⟨w.request.take (pos + 4), by rw [wholeHead, hh.blank]; rfl, hh.head_eq, hline.method, ?_,
    hline.path, ?_, hw.keepalive, hw.framing⟩
  · rw [← hline.target, H1Conn.target]
    conv_lhs => rw [hh.buf]
    rw [drop_append_of_le_length (by omega), take_append_of_le_length]
    rw [length_drop]
    omega
  · rw [hostRefused, hh.head_eq]

theorem demux_phase {p : Profile} {c c' : H1Conn} {m : NetIn} (h : demuxInbound p c m = some c') :
    c'.phase = c.phase ∧ c'.keepalive = c.keepalive := by
  rcases demux_cases h with ⟨frame, -, -, rfl⟩ | ⟨-, hs⟩
  · exact ⟨rfl, rfl⟩
  · exact ⟨hs.phase, hs.keepalive⟩

theorem closing_step {w : H1World} {e : H1Event} (h : Closing w.conn) :
    Closing (h1Step env w e).1.conn := by
  cases e with
  | arrive m => exact h
  | demux =>
    unfold h1Step
    cases hq : w.netIn with
    | nil => exact h
    | cons m rest =>
      simp only
      cases hm : demuxInbound env.profile w.conn m with
      | none => exact h
      | some c =>
        obtain ⟨hp, hk⟩ := demux_phase hm
        show Closing c
        unfold Closing
        rw [hp, hk]
        exact h
  | step inp =>
    show Closing (w.toRequestTrack.advance (stepActiveSlot env inp w.conn).1).conn
    rw [advance_conn]
    unfold stepActiveSlot
    split_ifs
    · exact .inr (.inr rfl)
    · exact .inr (.inl rfl)
    · unfold stepPhase
      rcases h with ⟨hp, hk⟩ | hp | hp
      · rw [hp]
        simp only [onClient, stepDrainSend]
        split_ifs
        · exact .inr (.inl (by rw [finishResponse, if_neg (by rw [hk]; exact false_ne_true)]))
        · exact .inl ⟨hp, hk⟩
      · rw [hp]
        exact .inr (.inr rfl)
      · rw [hp]
        exact .inr (.inr hp)

theorem closing_run {w : H1World} {evs : List H1Event} (h : Closing w.conn) :
    Closing ((h1Machine env).run w evs).1.conn :=
  (h1Machine env).run_invariant (P := fun _ _ => True) (I := fun w => Closing w.conn)
    (fun _ _ hc _ => closing_step hc) h ((h1Machine env).along_of_forall (fun _ _ => trivial) _ _)

theorem findPat_of_preface {buf : Bytes} (h : PREFACE.isPrefixOf buf = true) :
    findPat blankLine buf = some 14 := by
  obtain ⟨rest, rfl⟩ := isPrefixOf_iff_prefix.mp h
  exact findPat_append (by decide) rest

theorem outgrown_refused {w : H1World} (h : H1Inv env w.toRequestTrack) (hok : H1StepOk env w (.step inp))
    (hout : Outgrown env w.toRequestTrack) (hclosed : w.conn.peerClosed = false)
    (hexp : inp.expired = false) : Refused env.profile (h1Step env w (.step inp)).1.conn := by
  obtain ⟨hp, hlen, hnone⟩ := hout
  obtain ⟨-, hfull⟩ := hok hp hclosed hexp
  have hr := (phaseInv_recvRequest hp).mp h.phase
  have hfits := hr.fits
  have hblank : findPat blankLine w.conn.recvBuf = none := by
    rw [hr.buf] at hfits ⊢
    rwa [wholeHead, take_of_length_le hfits, Option.map_eq_none_iff] at hnone
  rw [← hr.buf] at hlen
  have hbig : PREFACE.length ≤ w.conn.recvBuf.length :=
    Nat.le_trans (by decide : PREFACE.length ≤ 64) (env.profile.recvBufSize_ge.trans hlen)
  have hnew : ¬LineAccepted env w.conn := fun hacc =>
    absurd (hfull hacc hblank) (Nat.not_lt.mpr hlen)
  have hparsed : w.conn.recvParsed = false := eq_false_iff.mpr fun hyes => hnew (.inl hyes)
  show Refused env.profile (w.toRequestTrack.advance (stepActiveSlot env inp w.conn).1).conn
  rw [advance_conn]
  have hphase : stepActiveSlot env inp w.conn = (stepRecvRequest env inp w.conn, []) := by
    unfold stepActiveSlot
    rw [hclosed, hexp, Bool.false_and, Bool.false_and, if_neg false_ne_true,
      if_neg false_ne_true, stepPhase, hp]
  rw [hphase]
  unfold stepRecvRequest
  rw [if_neg (by intro hnil; rw [hnil] at hbig; exact absurd hbig (by decide))]
  split_ifs with hshort hpreface hheap hyes
  · simp only [and_eq_true, decide_eq_true_eq] at hshort
    exact absurd hshort.2 (Nat.not_lt.mpr hbig)
  · rw [findPat_of_preface (and_eq_true_iff.mp hpreface).2] at hblank
    cases hblank
  · rw [findPat_of_preface (and_eq_true_iff.mp hpreface).2] at hblank
    cases hblank
  · rw [hparsed] at hyes
    cases hyes
  · cases hread : readRequestLine env w.conn.recvBuf with
    | refused r => exact ⟨rfl, rfl, r, rfl⟩
    | read line => exact absurd (.inr ⟨line, hread⟩) hnew
    | wait =>
      unfold readRequestLine at hread
      cases he : findPat crlf w.conn.recvBuf with
      | none =>
        rw [he] at hread
        simp only at hread
        rw [if_pos hlen] at hread
        cases hread
      | some e =>
        rw [he] at hread
        simp only at hread
        cases hparse : parseRequestLine env.sdk w.conn.recvBuf with
        | none => rw [hparse] at hread; cases hread
        | some line =>
          rw [hparse] at hread
          simp only at hread
          split_ifs at hread

/-- In every run whose steps meet the condition, a dispatched request is judged by its whole head, and one that
outgrew the buffer is answered with an error. -/
theorem dispatch_on_whole_head (env : H1Env) (evs : List H1Event)
    (hal : (h1Machine env).Along (H1StepOk env) {} evs) :
    let w := ((h1Machine env).run {} evs).1
    JudgedWhole env w.toRequestTrack ∧
      ∀ inp, H1StepOk env w (.step inp) → Outgrown env w.toRequestTrack → w.conn.peerClosed = false →
        inp.expired = false →
        Refused env.profile (h1Step env w (.step inp)).1.conn ∧
          ∀ more, Closing ((h1Machine env).run (h1Step env w (.step inp)).1 more).1.conn := by
  intro w
  have hinv : H1Inv env w.toRequestTrack := inv_run hal
  refine ⟨judgedWhole_of_inv hinv, fun inp hok hout hclosed hexp => ?_⟩
  have href := outgrown_refused hinv hok hout hclosed hexp
  exact ⟨href, fun more => closing_run (.inl ⟨href.1, href.2.1⟩)⟩

def sampleSdk : SdkHttp where
  methodFromToken token :=
    if token = ascii "GET" then .get
    else if token = ascii "HEAD" then .head
    else if token = ascii "POST" then .post
    else if token = ascii "PUT" then .put
    else if token = ascii "PATCH" then .patch
    else if token = ascii "DELETE" then .delete
    else if token = ascii "OPTIONS" then .options
    else if token = ascii "CONNECT" then .connect
    else .none

def sampleEnv : H1Env where
  profile := smallProfile
  sdk := sampleSdk

def twoFrames : List H1Event :=
  [.arrive (.data (ascii "GET /a HT")), .demux, .step {},
    .arrive (.data (ascii "TP/1.1\r\nHost: a\r\n\r\n")), .demux, .step {}]

theorem dispatch_on_whole_head_two_frames :
    ((h1Machine sampleEnv).run {} twoFrames).1.conn.phase = .dispatchRoute ∧
      JudgedWhole sampleEnv ((h1Machine sampleEnv).run {} twoFrames).1.toRequestTrack := by
  refine ⟨by decide +kernel, (dispatch_on_whole_head sampleEnv twoFrames ?_).1⟩
  decide +kernel

def longHead : List H1Event :=
  [.arrive (.data (ascii "GET / HTTP/1.1\r\nHost: a\r\nX: " ++ List.replicate 2020 0x61)), .demux,
    .step {}, .arrive (.data (ascii "\r\nHost: b\r\n\r\n")), .demux, .step {}]

/-- The request is dispatched on its last bytes: its request line and its first
`Host` are gone. -/
theorem long_head_dispatched_on_tail :
    ((h1Machine sampleEnv).run {} longHead).1.conn.phase = .dispatchRoute ∧
      ((h1Machine sampleEnv).run {} longHead).1.conn.recvBuf = ascii "aaa\r\nHost: b\r\n\r\n" ∧
      ¬JudgedWhole sampleEnv ((h1Machine sampleEnv).run {} longHead).1.toRequestTrack := by
  have hrun : ((h1Machine sampleEnv).run {} longHead).1.conn.phase = .dispatchRoute ∧
      ((h1Machine sampleEnv).run {} longHead).1.conn.recvBuf = ascii "aaa\r\nHost: b\r\n\r\n" ∧
      wholeHead ((h1Machine sampleEnv).run {} longHead).1.request
        ≠ some (((h1Machine sampleEnv).run {} longHead).1.conn.recvBuf.take
          ((h1Machine sampleEnv).run {} longHead).1.conn.headerEndOff) := by
    decide +kernel
  refine ⟨hrun.1, hrun.2.1, fun hjudged => ?_⟩
  obtain ⟨head, hwhole, hdec⟩ := hjudged hrun.1
  rw [← hdec.bytes] at hwhole
  exact hrun.2.2 hwhole

end Wave.Http
