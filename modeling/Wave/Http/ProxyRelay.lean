import Wave.Http.RequestHead

/-! # What a relay puts through

The backend gets the head with one line added and then the client's bytes; the client gets the backend's. -/

namespace Wave.Http

open Lib

variable {env : H1Env} {w : H1World} {c : H1Conn} {inp : H1Input} {head : Bytes} {rest : List NetIn} {phase : Phase}

def headPlan (env : H1Env) (head : Bytes) : BodyPlan :=
  planBody (env.sdk.methodFromToken (methodToken head)) head

/-- The bytes lie within the body the plan frames: the decoder takes them, and has
none left when it is done. -/
def BodyPlan.Spans : BodyPlan → Bytes → Prop
  | .read decoder _ _, bytes =>
    (decoder.decode bytes bytes.length).2.bad = false ∧
      ((decoder.decode bytes bytes.length).1.done = true →
        (decoder.decode bytes bytes.length).2.consumed = bytes.length)
  | _, bytes => bytes = []

instance (plan : BodyPlan) (bytes : Bytes) : Decidable (plan.Spans bytes) :=
  match plan with
  | .read _ _ _ => inferInstanceAs (Decidable (_ ∧ _))
  | .none | .invalid | .lengthRequired => inferInstanceAs (Decidable (bytes = []))

/-- The backend got a beginning of one request, and the client a beginning of what the backend sent. -/
structure Delivered (env : H1Env) (w : H1World) : Prop where
  backend : w.toBackend = [] ∨ ∃ head body, wholeHead w.request = some head ∧
    head ++ body <+: w.request ∧ (headPlan env head).Spans body ∧
    w.toBackend <+: forwardHead head env.clientIp ++ body
  client : w.toClient <+: w.fromBackend

def H1Conn.owed (c : H1Conn) : Bytes :=
  match c.phase with
  | .proxySendRequest => c.unsent ++ c.recvBuf
  | _ => c.recvBuf.drop c.proxyCreqOff

def Phase.carriesRequest : Phase → Bool
  | .proxySendRequest | .proxyRelayHeaders | .proxyRelayBody => true
  | _ => false

/-- What was sent and what is owed are the forwarded head and all that came behind it, and likewise towards the
client. -/
def NothingLost (env : H1Env) (w : H1World) : Prop :=
  (w.conn.phase.carriesRequest = true → ∃ head, wholeHead w.request = some head ∧
    w.toBackend ++ w.conn.owed = forwardHead head env.clientIp ++ w.request.drop head.length) ∧
  (isProxyRelayPhase w.conn.phase = true → w.toClient ++ w.conn.unsent = w.fromBackend)

/-- A tick of the relay, with all it offers taken, delivers all that has come. -/
def DeliversAll (env : H1Env) (w : H1World) : Prop :=
  ∀ inp : H1Input, isProxyRelayPhase w.conn.phase = true → w.conn.peerClosed = false →
    inp.expired = false → w.conn.recvBuf.length ≤ inp.sentBackend →
    w.conn.sendBuf.length ≤ inp.sent →
    (∃ head, wholeHead w.request = some head ∧ (h1Step env w (.step inp)).1.toBackend =
      forwardHead head env.clientIp ++ w.request.drop head.length) ∧
    (h1Step env w (.step inp)).1.toClient = w.fromBackend

def routedTo (env : H1Env) (target : Bytes) : Option Handler :=
  ((matchRoutePath env.routes target).bind fun i => env.routes[i]?).map (·.handler)

def DynRoute.takes : DynRoute → Bool
  | .backend _ => true
  | _ => false

/-- No dropped body goes to a backend, the forwarded head fits `send_buf`, and no relay tick finds bytes behind the
body. -/
def RelayStepOk (env : H1Env) (w : H1World) : H1Event → Prop
  | .step inp =>
    H1StepOk env w (.step inp) ∧
    (w.conn.phase = .dispatchRoute → w.drained = true → routedTo env w.conn.target = none →
      inp.dynRoute.takes = false) ∧
    (w.conn.phase = .proxyWaitConnect → w.conn.proxyConnected = true → ∀ head,
      wholeHead w.request = some head →
      (forwardHead head env.clientIp).length ≤ env.profile.sendBufSize) ∧
    (isProxyRelayPhase w.conn.phase = true → ∀ head, wholeHead w.request = some head →
      (headPlan env head).Spans (w.request.drop head.length))
  | _ => True

instance (env : H1Env) (w : H1World) (e : H1Event) : Decidable (RelayStepOk env w e) :=
  match e with
  | .step inp =>
    have : Decidable (∀ head, wholeHead w.request = some head →
        (forwardHead head env.clientIp).length ≤ env.profile.sendBufSize) :=
      inferInstanceAs (Decidable (∀ head ∈ wholeHead w.request, _ ≤ _))
    have : Decidable (∀ head, wholeHead w.request = some head →
        (headPlan env head).Spans (w.request.drop head.length)) :=
      inferInstanceAs (Decidable (∀ head ∈ wholeHead w.request, (headPlan env head).Spans _))
    inferInstanceAs (Decidable (H1StepOk env w (.step inp) ∧ _ ∧ _ ∧ _))
  | .arrive _ | .demux => isTrue trivial

theorem wholeHead_eq_some {stream head : Bytes} (h : wholeHead stream = some head) :
    ∃ pos, findPat blankLine stream = some pos ∧ head = stream.take (pos + 4) ∧
      head.length = pos + 4 := by
  obtain ⟨pos, hpos, rfl⟩ := map_eq_some_iff.mp h
  refine ⟨pos, hpos, rfl, ?_⟩
  rw [length_take]
  exact Nat.min_eq_left (findPat_le hpos)

theorem wholeHead_append {stream head : Bytes} (h : wholeHead stream = some head) (more : Bytes) :
    wholeHead (stream ++ more) = some head := by
  obtain ⟨pos, hpos, rfl, -⟩ := wholeHead_eq_some h
  have hle : pos + 4 ≤ stream.length := findPat_le hpos
  rw [wholeHead, findPat_append hpos more, map_some, take_append_of_le_length hle]

theorem wholeHead_split {stream head : Bytes} (h : wholeHead stream = some head) :
    head ++ stream.drop head.length = stream := by
  obtain ⟨pos, -, heq, hlen⟩ := wholeHead_eq_some h
  rw [hlen, heq, take_append_drop]

theorem wholeHead_drop_append {stream head : Bytes} (h : wholeHead stream = some head)
    (more : Bytes) : (stream ++ more).drop head.length = stream.drop head.length ++ more := by
  obtain ⟨pos, hpos, -, hlen⟩ := wholeHead_eq_some h
  rw [hlen]
  exact drop_append_of_le_length (findPat_le hpos)

theorem spans_nil (plan : BodyPlan) : plan.Spans [] := by
  cases plan with
  | read decoder declared continueFirst =>
    have hle := decode_consumed_le decoder [] 0
    refine ⟨?_, fun _ => Nat.le_zero.mp hle⟩
    obtain ⟨chunked, state, remaining, done⟩ := decoder
    cases state <;> cases done <;> cases chunked <;> by_cases hz : remaining = 0 <;>
      simp [BodyDecoder.decode, BodyDecoder.rounds, decodeLoop, BodyDecoder.advance, hz,
        parseChunkHeader, chunkSize, findPat, Decoded.after]
  | none => rfl
  | invalid => rfl
  | lengthRequired => rfl

/-! ## Phases outside the relay -/

def Phase.proxies : Phase → Bool
  | .proxyConnect | .proxyWaitConnect | .proxySendRequest | .proxyRelayHeaders
  | .proxyRelayBody => true
  | _ => false

def Phase.plain (phase : Phase) : Bool := !phase.proxies && phase ≠ .recvBody

theorem plain_of_answers (h : phase.answers = true) : phase.plain = true := by
  cases phase <;> first | exact absurd h false_ne_true | rfl

theorem proxies_of_plain (h : phase.plain = true) : phase.proxies = false := by
  rw [Phase.plain, and_eq_true, Bool.not_eq_true'] at h
  exact h.1

theorem ne_recvBody_of_plain (h : phase.plain = true) : phase ≠ .recvBody := by
  rw [Phase.plain, and_eq_true, decide_eq_true_eq] at h
  exact h.2

theorem plain_finish (c : H1Conn) : (finishResponse c).phase.plain = true := by
  unfold finishResponse
  split_ifs <;> rfl

theorem plain_serve {act : HandlerAct} (h : c.phase.plain = true) :
    (c.serve act).phase.plain = true := by
  cases act with
  | take n =>
    simp only [H1Conn.serve]
    split_ifs <;> exact h
  | answer next staged keep =>
    simp only [H1Conn.serve]
    split_ifs with hnext
    · rw [or_eq_true, decide_eq_true_eq] at hnext
      rcases hnext with hnext | rfl
      · exact plain_of_answers hnext
      · rfl
    · exact h
  | close => rfl
  | finish => exact plain_finish c
  | wait | proxy | upgrade staged | awaitAdmit => exact h

theorem plain_readHead (h : c.phase.plain = true) :
    (readHead env c).phase.plain = true := by
  unfold readHead
  cases findPat blankLine c.recvBuf with
  | none =>
    simp only
    split_ifs <;> exact h
  | some pos =>
    simp only
    cases planBody c.reqMethod (c.recvBuf.take (pos + 4)) <;> rfl

theorem plain_recvRequest (h : c.phase.plain = true) :
    (stepRecvRequest env inp c).phase.plain = true := by
  unfold stepRecvRequest
  by_cases hnil : c.recvBuf = []
  · rw [if_pos hnil]
    split_ifs
    · rfl
    · exact h
  rw [if_neg hnil]
  split_ifs
  · exact h
  · rfl
  · rfl
  · exact plain_readHead h
  · cases readRequestLine env c.recvBuf with
    | refused r => rfl
    | wait => exact h
    | read line => exact plain_readHead h

theorem plain_wsLoop (p : Profile) (rs : List WsRound) (h : c.phase.plain = true) :
    (c.wsLoop p rs).1.phase.plain = true := by
  induction rs generalizing c with
  | nil => exact h
  | cons r rs ih =>
    have hround : (c.wsRound p r).1.phase.plain = true := by
      rcases wsRound_phase p r c with hr | hr
      · rw [hr]; exact h
      · rw [hr]; rfl
    rw [H1Conn.wsLoop]
    simp only
    split_ifs
    · exact ih hround
    · exact hround

theorem wsLoop_toBackend (p : Profile) (rs : List WsRound) (c : H1Conn) :
    (c.wsLoop p rs).2.flatMap H1Out.toBackend = [] := by
  induction rs generalizing c with
  | nil => rfl
  | cons r rs ih =>
    rw [H1Conn.wsLoop]
    simp only
    split_ifs
    · exact ih _
    · rfl

theorem plain_stepWsActive (p : Profile) (inp : H1Input) (h : c.phase.plain = true) :
    (c.stepWsActive p inp).1.phase.plain = true ∧
      (c.stepWsActive p inp).2.flatMap H1Out.toBackend = [] := by
  unfold H1Conn.stepWsActive
  by_cases hpeer : c.peerClosed = true
  · rw [if_pos hpeer]
    exact ⟨rfl, rfl⟩
  rw [if_neg hpeer]
  cases inp.wsTurn with
  | close code => exact ⟨rfl, rfl⟩
  | ping =>
    refine ⟨?_, rfl⟩
    simp only
    split_ifs <;> exact h
  | flushOnly sent => exact ⟨by simp only; rw [wsFlush_phase]; exact h, rfl⟩
  | rounds rs => exact ⟨plain_wsLoop p _ h, wsLoop_toBackend p _ c⟩

/-- A step from `c` that starts neither a relay nor a body and writes nothing to a
backend. -/
structure Outside (c : H1Conn) (r : H1Conn × List H1Out) : Prop where
  proxies : r.1.phase.proxies = false
  body : r.1.phase = .recvBody → c.phase = .recvBody
  quiet : r.2.flatMap H1Out.toBackend = []

theorem Outside.of_plain {r : H1Conn × List H1Out} (h : r.1.phase.plain = true)
    (hout : r.2.flatMap H1Out.toBackend = []) : Outside c r :=
  ⟨proxies_of_plain h, fun hbody => absurd hbody (ne_recvBody_of_plain h), hout⟩

theorem discardBody_proxies {p : Profile} (h : c.phase = .recvBody) :
    (discardBody p c).phase.proxies = false := by
  unfold discardBody
  simp only
  split
  · rfl
  · split_ifs
    · rfl
    · exact (congrArg Phase.proxies h).trans rfl
  · split_ifs
    · rfl
    · exact (congrArg Phase.proxies h).trans rfl
  · rfl
  · rfl

theorem stepPhase_outside (env : H1Env) (inp : H1Input) (hp : c.phase.proxies = false) (hd : c.phase ≠ .dispatchRoute) :
    Outside c (stepPhase env inp c) := by
  unfold stepPhase
  cases hq : c.phase <;> rw [hq] at hp
  case dispatchRoute => exact absurd hq hd
  case recvBody =>
    refine ⟨?_, fun _ => hq, rfl⟩
    simp only [onClient, stepRecvBody]
    split_ifs
    · exact discardBody_proxies hq
    · exact (congrArg Phase.proxies hq).trans rfl
    · exact discardBody_proxies hq
  case recvRequest => exact Outside.of_plain (plain_recvRequest (by rw [hq]; rfl)) rfl
  case drainSend =>
    refine Outside.of_plain ?_ rfl
    simp only [onClient, stepDrainSend]
    split_ifs
    · exact plain_finish c
    · exact (congrArg Phase.plain hq).trans rfl
  case closeConn => exact Outside.of_plain rfl rfl
  case wsAwaitAdmit =>
    refine Outside.of_plain ?_ rfl
    simp only [H1Conn.stepWsAwaitAdmit]
    cases inp.admission with
    | none => exact (congrArg Phase.plain hq).trans rfl
    | some answer =>
      obtain ⟨granted, staged⟩ := answer
      cases granted <;> rfl
  case wsHandshake =>
    simp only [H1Conn.stepWsHandshake]
    split_ifs
    · exact Outside.of_plain rfl rfl
    · exact Outside.of_plain ((congrArg Phase.plain hq).trans rfl) rfl
  case wsActive =>
    obtain ⟨hphase, hout⟩ := plain_stepWsActive env.profile inp (c := c) (by rw [hq]; rfl)
    exact Outside.of_plain hphase hout
  case wsClose =>
    simp only [H1Conn.stepWsClose]
    split_ifs
    · exact Outside.of_plain rfl rfl
    · exact Outside.of_plain ((congrArg Phase.plain hq).trans rfl) rfl
  case h2Active =>
    refine Outside.of_plain ?_ rfl
    cases inp.act <;> first | rfl | exact (congrArg Phase.plain hq).trans rfl
  case appExchange | sendHeaders | sendBody | fetchContent | cacheStream | awaitFsStat | fsList =>
    exact Outside.of_plain (plain_serve (by rw [hq]; rfl)) rfl
  case init | binding | waitBound | waitAccept | h3Tunnel | error =>
    exact Outside.of_plain ((congrArg Phase.plain hq).trans rfl) rfl
  all_goals exact absurd hp.symm false_ne_true

theorem dispatchTo_cases (handler : Handler) (act : HandlerAct) (h : c.phase.plain = true) :
    (handler = .proxy ∧ c.dispatchTo handler act = c.beginProxy none) ∨
      (c.dispatchTo handler act).phase.plain = true := by
  cases act with
  | take n =>
    simp only [H1Conn.dispatchTo]
    split_ifs
    · exact .inr rfl
    · exact .inr h
  | proxy =>
    simp only [H1Conn.dispatchTo]
    split_ifs with hproxy
    · exact .inl ⟨hproxy, rfl⟩
    · exact .inr h
  | upgrade staged =>
    simp only [H1Conn.dispatchTo]
    split_ifs
    · exact .inr rfl
    · exact .inr rfl
    · exact .inr h
  | awaitAdmit =>
    simp only [H1Conn.dispatchTo]
    split_ifs
    · exact .inr rfl
    · exact .inr h
  | wait => exact .inr (plain_serve h)
  | answer next staged keep => exact .inr (plain_serve h)
  | close => exact .inr (plain_serve h)
  | finish => exact .inr (plain_serve h)

theorem beginDiscard_phase (p : Profile) (c : H1Conn) (limit : Nat) :
    (beginDiscard p c limit).phase = .recvBody := by
  unfold beginDiscard
  simp only
  split_ifs <;> rfl

/-- A dispatch starts a relay with the buffer as it is; a body is dropped only off the proxy routes. -/
theorem dispatch_cases (env : H1Env) (inp : H1Input) (h : c.phase.plain = true) :
    ((stepDispatchRoute env inp c).phase = .proxyConnect ∧
      (stepDispatchRoute env inp c).recvBuf = c.recvBuf ∧
      (stepDispatchRoute env inp c).headerEndOff = c.headerEndOff ∧
      (stepDispatchRoute env inp c).proxyConnected = false ∧
      (routedTo env c.target = some .proxy ∨
        routedTo env c.target = none ∧ inp.dynRoute.takes = true)) ∨
    ((stepDispatchRoute env inp c).phase = .recvBody ∧ routedTo env c.target ≠ some .proxy) ∨
    (stepDispatchRoute env inp c).phase.plain = true := by
  unfold stepDispatchRoute
  split
  · exact .inr (.inr rfl)
  split
  · exact .inr (.inr (plain_serve h))
  split
  · exact .inr (.inr rfl)
  unfold dispatchRouted
  simp only
  split
  · exact .inr (.inr rfl)
  cases hroute : (matchRoutePath env.routes c.target).bind fun i => env.routes[i]? with
  | none =>
    have hnone : routedTo env c.target = none := by rw [routedTo, hroute]; rfl
    simp only [dispatchUnmatched]
    cases hdyn : inp.dynRoute with
    | backend idx => exact .inl ⟨rfl, rfl, rfl, rfl, .inr ⟨hnone, rfl⟩⟩
    | noBackend => exact .inr (.inr rfl)
    | unmatched =>
      simp only
      split
      · exact .inr (.inl ⟨beginDiscard_phase _ _ _, by rw [hnone]; rintro ⟨⟩⟩)
      · exact .inr (.inr rfl)
  | some route =>
    have hsome : routedTo env c.target = some route.handler := by rw [routedTo, hroute]; rfl
    simp only [dispatchMatched]
    split
    · rename_i hdrop
      refine .inr (.inl ⟨beginDiscard_phase _ _ _, ?_⟩)
      rw [hsome]
      intro hproxy
      have hne := (of_decide_eq_true (and_eq_true_iff.mp hdrop).2).2
      exact hne (Option.some.inj hproxy)
    split
    · exact .inr (.inr rfl)
    rcases dispatchTo_cases (c := { c with matchedRoute := matchRoutePath env.routes c.target })
      route.handler inp.act h with ⟨hproxy, hto⟩ | hplain
    · rw [hto]
      exact .inl ⟨rfl, rfl, rfl, rfl, .inl (by rw [hsome, hproxy])⟩
    · exact .inr (.inr hplain)

/-- What a tick of the relay did to the slot, with what it sent up and down. -/
structure Ticked (c c' : H1Conn) (up down : Bytes) : Prop where
  window : up ++ c'.recvBuf.drop c'.proxyCreqOff = c.recvBuf.drop c.proxyCreqOff
  reach : c'.proxyCreqOff ≤ c'.recvBuf.length
  staged : down ++ c'.unsent = c.unsent
  flushed : c'.sendOffset ≤ c'.sendBuf.length

theorem take_append_drop_min {l : Bytes} {off n : Nat} :
    (l.drop off).take n ++ l.drop (off + min n (l.drop off).length) = l.drop off := by
  have hcut : (l.drop off).drop (min n (l.drop off).length) = (l.drop off).drop n := by
    rcases Nat.le_total n (l.drop off).length with h | h
    · rw [Nat.min_eq_left h]
    · rw [Nat.min_eq_right h, drop_length, drop_eq_nil_of_le h]
  rw [← drop_drop, hcut]
  exact take_append_drop n _

theorem relayUp_spec (sent : Nat) (h : c.proxyCreqOff ≤ c.recvBuf.length) :
    (c.relayUp sent).2 ++ (c.relayUp sent).1.recvBuf.drop (c.relayUp sent).1.proxyCreqOff =
        c.recvBuf.drop c.proxyCreqOff ∧
      (c.relayUp sent).1.proxyCreqOff ≤ (c.relayUp sent).1.recvBuf.length := by
  have hsplit : (c.recvBuf.drop c.proxyCreqOff).take sent ++
      c.recvBuf.drop (c.proxyCreqOff + min sent (c.recvBuf.drop c.proxyCreqOff).length)
      = c.recvBuf.drop c.proxyCreqOff := take_append_drop_min
  have hlen : (c.recvBuf.drop c.proxyCreqOff).length = c.recvBuf.length - c.proxyCreqOff :=
    length_drop
  unfold H1Conn.relayUp
  simp only
  split_ifs with hback hend
  · exact ⟨rfl, h⟩
  · rw [drop_eq_nil_of_le hend.2] at hsplit
    exact ⟨hsplit, Nat.le_refl _⟩
  · refine ⟨hsplit, ?_⟩
    show c.proxyCreqOff + min sent (c.recvBuf.drop c.proxyCreqOff).length ≤ c.recvBuf.length
    omega

theorem relayUp_keeps (c : H1Conn) (sent : Nat) :
    (c.relayUp sent).1.sendBuf = c.sendBuf ∧ (c.relayUp sent).1.sendOffset = c.sendOffset ∧
      (c.relayUp sent).1.backendConnId = c.backendConnId := by
  unfold H1Conn.relayUp
  simp only
  split_ifs <;> exact ⟨rfl, rfl, rfl⟩

theorem relayDown_spec (sent : Nat) (h : c.sendOffset ≤ c.sendBuf.length) :
    (c.relayDown sent).2 ++ (c.relayDown sent).1.unsent = c.unsent ∧
      (c.relayDown sent).1.sendOffset ≤ (c.relayDown sent).1.sendBuf.length := by
  have hsplit : c.unsent.take sent ++ c.sendBuf.drop (c.sendOffset + min sent c.unsent.length)
      = c.unsent := take_append_drop_min
  have hlen : c.unsent.length = c.sendBuf.length - c.sendOffset := length_drop
  unfold H1Conn.relayDown
  simp only
  split_ifs with hend
  · rw [drop_eq_nil_of_le hend.2] at hsplit
    exact ⟨hsplit, Nat.le_refl _⟩
  · refine ⟨hsplit, ?_⟩
    show c.sendOffset + min sent c.unsent.length ≤ c.sendBuf.length
    omega

theorem relayDown_keeps (c : H1Conn) (sent : Nat) :
    (c.relayDown sent).1.recvBuf = c.recvBuf ∧
      (c.relayDown sent).1.proxyCreqOff = c.proxyCreqOff ∧
      (c.relayDown sent).1.backendConnId = c.backendConnId := by
  unfold H1Conn.relayDown
  simp only
  split_ifs <;> exact ⟨rfl, rfl, rfl⟩

theorem proxyRelayStep_spec (inp : H1Input) (hreach : c.proxyCreqOff ≤ c.recvBuf.length)
    (hflushed : c.sendOffset ≤ c.sendBuf.length) :
    Ticked c (c.proxyRelayStep inp).1 (c.relayUp inp.sentBackend).2
        ((c.relayUp inp.sentBackend).1.relayDown inp.sent).2 ∧
      (c.proxyRelayStep inp).1.backendConnId = c.backendConnId := by
  obtain ⟨hwindow, hreach'⟩ := relayUp_spec inp.sentBackend hreach
  obtain ⟨hsend, hoff, hback⟩ := relayUp_keeps c inp.sentBackend
  have hunsent : (c.relayUp inp.sentBackend).1.unsent = c.unsent := by
    rw [H1Conn.unsent, hsend, hoff]
    rfl
  rw [← hsend, ← hoff] at hflushed
  obtain ⟨hstaged, hflushed'⟩ := relayDown_spec inp.sent hflushed
  obtain ⟨hrecv, hcreq, hback'⟩ := relayDown_keeps (c.relayUp inp.sentBackend).1 inp.sent
  rw [← hrecv, ← hcreq] at hwindow hreach'
  rw [hunsent] at hstaged
  rw [hback] at hback'
  unfold H1Conn.proxyRelayStep
  simp only
  split_ifs
  · exact ⟨⟨hwindow, hreach', hstaged, hflushed'⟩, hback'⟩
  · exact ⟨⟨hwindow, hreach', hstaged, hflushed'⟩, hback'⟩

/-! ## The invariant -/

structure Idle (w : H1World) : Prop where
  toBackend : w.toBackend = []
  toClient : w.toClient = []
  fromBackend : w.fromBackend = []

structure Dialling (w : H1World) (head : Bytes) : Prop extends Idle w where
  whole : wholeHead w.request = some head
  off : w.conn.headerEndOff = head.length
  buf : w.conn.recvBuf = w.request
  linked : w.conn.proxyConnected = true → w.conn.backendConnId.isSome = true

structure Sending (env : H1Env) (w : H1World) (head : Bytes) : Prop where
  whole : wholeHead w.request = some head
  staged : w.conn.sendBuf = forwardHead head env.clientIp
  sent : w.toBackend = w.conn.sendBuf.take w.conn.sendOffset
  buf : w.conn.recvBuf = w.request.drop head.length
  creqOff : w.conn.proxyCreqOff = 0
  backend : w.conn.backendConnId.isSome = true
  toClient : w.toClient = []
  fromBackend : w.fromBackend = []

structure Relaying (env : H1Env) (w : H1World) (head : Bytes) : Prop where
  whole : wholeHead w.request = some head
  delivered : Delivered env w
  up : w.toBackend ++ w.conn.recvBuf.drop w.conn.proxyCreqOff =
    forwardHead head env.clientIp ++ w.request.drop head.length
  reach : w.conn.proxyCreqOff ≤ w.conn.recvBuf.length
  down : w.toClient ++ w.conn.unsent = w.fromBackend
  flushed : w.conn.sendOffset ≤ w.conn.sendBuf.length
  backend : w.conn.backendConnId.isSome = true

def RelayStage (env : H1Env) (w : H1World) : Prop :=
  match w.conn.phase with
  | .proxyConnect | .proxyWaitConnect => ∃ head, Dialling w head
  | .proxySendRequest => ∃ head, Sending env w head
  | .proxyRelayHeaders | .proxyRelayBody => ∃ head, Relaying env w head
  | .closeConn | .init => Delivered env w
  | _ => Idle w

def Unproxied (env : H1Env) (w : RequestTrack) : Prop :=
  ∃ head, wholeHead w.request = some head ∧ routedTo env (targetToken head) ≠ some .proxy

structure RelayInv (env : H1Env) (w : H1World) : Prop where
  h1 : H1Inv env w.toRequestTrack
  unproxied : w.conn.phase = .recvBody ∨ w.drained = true → Unproxied env w.toRequestTrack
  stage : RelayStage env w

theorem Idle.delivered (h : Idle w) : Delivered env w :=
  ⟨.inl h.toBackend, by rw [h.toClient]; exact nil_prefix⟩

theorem Sending.delivered (h : Sending env w head) :
    Delivered env w := by
  refine ⟨.inr ⟨head, [], h.whole, ?_, spans_nil _, ?_⟩, by rw [h.toClient]; exact nil_prefix⟩
  · rw [append_nil]
    exact ⟨_, wholeHead_split h.whole⟩
  · rw [h.sent, h.staged, append_nil]
    exact take_prefix _ _

theorem RelayStage.delivered (h : RelayStage env w) :
    Delivered env w := by
  unfold RelayStage at h
  split at h
  · obtain ⟨head, hd⟩ := h
    exact hd.toIdle.delivered
  · obtain ⟨head, hd⟩ := h
    exact hd.toIdle.delivered
  · obtain ⟨head, hs⟩ := h
    exact hs.delivered
  · obtain ⟨head, hr⟩ := h
    exact hr.delivered
  · obtain ⟨head, hr⟩ := h
    exact hr.delivered
  · exact h
  · exact h
  · exact h.delivered

theorem phase_kinds (phase : Phase) :
    phase.dials = true ∨ phase = .proxySendRequest ∨ isProxyRelayPhase phase = true ∨
      (phase = .closeConn ∨ phase = .init) ∨ (phase.proxies = false ∧ phase.relayedTo = false) := by
  cases phase <;> decide

theorem stage_dials (hp : w.conn.phase.dials = true) :
    RelayStage env w ↔ ∃ head, Dialling w head := by
  unfold RelayStage
  cases hq : w.conn.phase <;> rw [hq] at hp <;> exact absurd hp false_ne_true

theorem stage_sends (hp : w.conn.phase = .proxySendRequest) :
    RelayStage env w ↔ ∃ head, Sending env w head := by
  unfold RelayStage
  rw [hp]

theorem stage_relays (hp : isProxyRelayPhase w.conn.phase = true) :
    RelayStage env w ↔ ∃ head, Relaying env w head := by
  unfold RelayStage
  cases hq : w.conn.phase <;> rw [hq] at hp <;> exact absurd hp false_ne_true

theorem stage_over (hp : w.conn.phase = .closeConn ∨ w.conn.phase = .init) :
    RelayStage env w ↔ Delivered env w := by
  unfold RelayStage
  rcases hp with hp | hp <;> rw [hp]

theorem stage_idle (hp : w.conn.phase.proxies = false) (hr : w.conn.phase.relayedTo = false) : RelayStage env w ↔ Idle w := by
  unfold RelayStage
  cases hq : w.conn.phase <;> rw [hq] at hp hr <;>
    first | exact absurd hp.symm false_ne_true | exact absurd hr.symm false_ne_true

theorem stage_of_idle (hp : w.conn.phase.proxies = false) (h : Idle w) : RelayStage env w := by
  cases hr : w.conn.phase.relayedTo with
  | false => exact (stage_idle hp hr).mpr h
  | true =>
    refine (stage_over ?_).mpr h.delivered
    cases hq : w.conn.phase <;> rw [hq] at hp hr <;>
      first
        | exact absurd hr false_ne_true
        | exact absurd hp.symm false_ne_true
        | exact .inl rfl
        | exact .inr rfl

/-! ### Steps -/

theorem stepped_conn (w : H1World) (r : H1Conn × List H1Out) : (w.stepped r).conn = r.1 :=
  advance_conn _ _

theorem stepped_request {r : H1Conn × List H1Out} (h : r.1.phase ≠ .recvRequest) :
    (w.stepped r).request = w.request := advance_request_of_ne h

theorem Idle.stepped {r : H1Conn × List H1Out} (h : Idle w)
    (hr : w.conn.phase.relayedTo = false) (hq : r.2.flatMap H1Out.toBackend = []) :
    Idle (w.stepped r) := by
  refine ⟨?_, ?_, h.fromBackend⟩
  · show w.toBackend ++ _ = []
    rw [h.toBackend, hq]
    rfl
  · show (if w.conn.phase.relayedTo then _ else _) = _
    rw [hr]
    rfl

theorem stage_ended (h : RelayStage env w) (hc : c.phase = .closeConn ∨ c.phase = .init) : RelayStage env (w.stepped (c, [])) := by
  have hne : c.phase ≠ .recvRequest := by
    intro heq
    rw [heq] at hc
    rcases hc with hc | hc <;> cases hc
  refine (stage_over (by rw [stepped_conn]; exact hc)).mpr ?_
  obtain ⟨hback, hclient⟩ := h.delivered
  refine ⟨?_, ?_⟩
  · rw [stepped_request hne]
    show w.toBackend ++ [] = [] ∨ ∃ head body, _ ∧ _ ∧ _ ∧ w.toBackend ++ [] <+: _
    rw [append_nil]
    exact hback
  · show (if w.conn.phase.relayedTo then w.toClient ++ [] else []) <+: w.fromBackend
    rw [append_nil]
    split_ifs
    · exact hclient
    · exact nil_prefix

theorem Dialling.stepped (h : Dialling w head) (hr : w.conn.phase.relayedTo = false) (hbuf : c.recvBuf = w.conn.recvBuf)
    (hoff : c.headerEndOff = w.conn.headerEndOff)
    (hlink : c.proxyConnected = true → c.backendConnId.isSome = true) (hc : c.phase.dials = true) :
    Dialling (w.stepped (c, [])) head := by
  have hne : c.phase ≠ .recvRequest := by
    intro heq
    rw [heq] at hc
    cases hc
  refine ⟨h.toIdle.stepped hr rfl, ?_, ?_, ?_, ?_⟩
  · rw [stepped_request hne]
    exact h.whole
  · rw [stepped_conn, hoff]
    exact h.off
  · rw [stepped_conn, stepped_request hne, hbuf]
    exact h.buf
  · rw [stepped_conn]
    exact hlink

theorem stage_connectFailed {nextBackend : Bool} (h : Dialling w head) (hr : w.conn.phase.relayedTo = false) :
    RelayStage env (w.stepped (w.conn.onConnectFailed env.profile nextBackend, [])) := by
  unfold H1Conn.onConnectFailed
  split_ifs
  · refine (stage_dials (by rw [stepped_conn]; rfl)).mpr ⟨head, ?_⟩
    exact h.stepped hr rfl rfl nofun rfl
  · refine stage_of_idle (by rw [stepped_conn]; rfl) ?_
    exact h.toIdle.stepped hr rfl

theorem stage_connected (h : Dialling w head)
    (hr : w.conn.phase.relayedTo = false) (hconn : w.conn.backendConnId.isSome = true)
    (hfits : (forwardHead head env.clientIp).length ≤ env.profile.sendBufSize) :
    RelayStage env (w.stepped
      ({ w.conn.proxyBuildForwardHead env with phase := .proxySendRequest }, [])) := by
  obtain ⟨pos, -, heq, hlen⟩ := wholeHead_eq_some h.whole
  have hcut : w.conn.recvBuf.take w.conn.headerEndOff = head := by
    rw [h.buf, h.off, hlen, heq]
  refine (stage_sends (by rw [stepped_conn])).mpr ⟨head, ?_⟩
  have hbuilt : (w.conn.proxyBuildForwardHead env).sendBuf = forwardHead head env.clientIp ∧
      (w.conn.proxyBuildForwardHead env).sendOffset = 0 ∧
      (w.conn.proxyBuildForwardHead env).recvBuf = w.request.drop head.length ∧
      (w.conn.proxyBuildForwardHead env).proxyCreqOff = 0 ∧
      (w.conn.proxyBuildForwardHead env).backendConnId = w.conn.backendConnId := by
    unfold H1Conn.proxyBuildForwardHead
    rw [if_neg (by rw [h.off, hlen]; omega), hcut, take_of_length_le hfits]
    exact ⟨rfl, rfl, by rw [h.buf, h.off], rfl, rfl⟩
  obtain ⟨hstaged, hoff, hbuf, hcreq, hback⟩ := hbuilt
  have hidle := h.toIdle.stepped (r := ({ w.conn.proxyBuildForwardHead env with
    phase := .proxySendRequest }, [])) hr rfl
  refine ⟨?_, ?_, ?_, ?_, ?_, ?_, hidle.toClient, hidle.fromBackend⟩
  · rw [stepped_request Phase.noConfusion]
    exact h.whole
  · rw [stepped_conn]
    exact hstaged
  · rw [stepped_conn, hidle.toBackend]
    show [] = List.take (w.conn.proxyBuildForwardHead env).sendOffset _
    rw [hoff]
    rfl
  · rw [stepped_conn, stepped_request Phase.noConfusion]
    exact hbuf
  · rw [stepped_conn]
    exact hcreq
  · rw [stepped_conn]
    exact (congrArg Option.isSome hback).trans hconn

theorem stage_send (h : Sending env w head) (hp : w.conn.phase = .proxySendRequest) :
    RelayStage env (w.stepped (w.conn.stepProxySendRequest env.profile inp)) := by
  have hr : w.conn.phase.relayedTo = false := by rw [hp]; rfl
  have hsome : ¬w.conn.backendConnId.isNone = true := by
    rw [isNone_iff_eq_none]
    intro hnone
    have hback := h.backend
    rw [hnone] at hback
    cases hback
  unfold H1Conn.stepProxySendRequest
  rw [if_neg hsome]
  split_ifs with hdone
  · -- The whole head is out, so the relay starts with nothing staged.
    have hall : w.toBackend = forwardHead head env.clientIp := by
      rw [h.sent, ← h.staged, take_of_length_le]
      rw [H1Conn.unsent, drop_eq_nil_iff] at hdone
      exact hdone
    refine (stage_relays (by rw [stepped_conn]; rfl)).mpr ⟨head, ?_⟩
    have hwhole : wholeHead (w.stepped ({ w.conn with
        sendBuf := [], sendOffset := 0, phase := .proxyRelayBody }, [])).request = some head := by
      rw [stepped_request Phase.noConfusion]
      exact h.whole
    have hback : (w.stepped ({ w.conn with
        sendBuf := [], sendOffset := 0, phase := .proxyRelayBody }, [])).toBackend
          = forwardHead head env.clientIp := by
      show w.toBackend ++ [] = _
      rw [append_nil, hall]
    have hclient : (w.stepped ({ w.conn with
        sendBuf := [], sendOffset := 0, phase := .proxyRelayBody }, [])).toClient = [] := by
      show (if w.conn.phase.relayedTo then _ else _) = _
      rw [hr]
      rfl
    refine ⟨hwhole, ⟨.inr ⟨head, [], hwhole, ?_, spans_nil _, ?_⟩, ?_⟩, ?_, ?_, ?_, ?_, ?_⟩
    · rw [append_nil]
      exact ⟨_, wholeHead_split hwhole⟩
    · exact ⟨[], by rw [hback, append_nil]⟩
    · rw [hclient]
      exact nil_prefix
    · rw [hback, stepped_conn, stepped_request Phase.noConfusion]
      show _ ++ w.conn.recvBuf.drop w.conn.proxyCreqOff = _
      rw [h.creqOff, drop_zero, h.buf]
    · rw [stepped_conn]
      show w.conn.proxyCreqOff ≤ _
      rw [h.creqOff]
      exact Nat.zero_le _
    · rw [hclient, stepped_conn]
      exact h.fromBackend.symm
    · rw [stepped_conn]
      exact Nat.le_refl _
    · rw [stepped_conn]
      exact h.backend
  · have hne : (w.conn.flush inp.sentBackend).1.phase ≠ .recvRequest := by
      show w.conn.phase ≠ _
      rw [hp]
      exact Phase.noConfusion
    refine (stage_sends (by rw [stepped_conn]; exact hp)).mpr ⟨head, ?_, ?_, ?_, ?_, ?_, ?_, ?_, ?_⟩
    · rw [stepped_request hne]
      exact h.whole
    · rw [stepped_conn]
      exact h.staged
    · rw [stepped_conn]
      show w.toBackend ++ (w.conn.unsent.take inp.sentBackend ++ []) =
        w.conn.sendBuf.take (w.conn.sendOffset + min inp.sentBackend w.conn.unsent.length)
      rw [append_nil, h.sent, List.take_add, H1Conn.unsent, ← List.take_eq_take_min]
    · rw [stepped_conn, stepped_request hne]
      exact h.buf
    · rw [stepped_conn]
      exact h.creqOff
    · rw [stepped_conn]
      exact h.backend
    · show (if w.conn.phase.relayedTo then _ else _) = _
      rw [hr]
      rfl
    · exact h.fromBackend

theorem stage_waitConnect (h : Dialling w head) (hp : w.conn.phase = .proxyWaitConnect)
    (hfits : w.conn.proxyConnected = true →
      (forwardHead head env.clientIp).length ≤ env.profile.sendBufSize) :
    RelayStage env (w.stepped (w.conn.stepProxyWaitConnect env inp, [])) := by
  have hr : w.conn.phase.relayedTo = false := by rw [hp]; rfl
  unfold H1Conn.stepProxyWaitConnect
  split_ifs with hfailed hconn
  · exact stage_connectFailed h hr
  · exact stage_connected h hr (h.linked hconn) (hfits hconn)
  · exact stage_connectFailed h hr
  · refine (stage_dials (by rw [stepped_conn, hp]; rfl)).mpr ⟨head, ?_⟩
    exact h.stepped hr rfl rfl h.linked (by rw [hp]; rfl)

theorem stage_connect (h : Dialling w head) (hp : w.conn.phase = .proxyConnect) :
    RelayStage env (w.stepped (w.conn.stepProxyConnect inp, [])) := by
  have hr : w.conn.phase.relayedTo = false := by rw [hp]; rfl
  unfold H1Conn.stepProxyConnect
  split_ifs
  · refine (stage_dials (by rw [stepped_conn]; rfl)).mpr ⟨head, ?_⟩
    exact h.stepped hr rfl rfl h.linked rfl
  · refine (stage_dials (by rw [stepped_conn, hp]; rfl)).mpr ⟨head, ?_⟩
    exact h.stepped hr rfl rfl h.linked (by rw [hp]; rfl)

theorem stage_relay (h : Relaying env w head) (hp : isProxyRelayPhase w.conn.phase = true)
    (hspan : (headPlan env head).Spans (w.request.drop head.length)) :
    RelayStage env (w.stepped (w.conn.proxyRelayStep inp)) := by
  obtain ⟨⟨hwindow, hreach, hstaged, hflushed⟩, hback⟩ := proxyRelayStep_spec inp h.reach h.flushed
  have hphase := relay_phase inp w.conn
  have hto : w.conn.phase.relayedTo = true := by rw [Phase.relayedTo, hp]; rfl
  have hne : (w.conn.proxyRelayStep inp).1.phase ≠ .recvRequest := by
    intro heq
    rcases hphase with hr | hr
    · rw [heq] at hr
      rw [← hr] at hp
      cases hp
    · rw [heq] at hr
      cases hr
  have hreq := stepped_request (w := w) hne
  have hsent : (w.stepped (w.conn.proxyRelayStep inp)).toBackend
      = w.toBackend ++ (w.conn.relayUp inp.sentBackend).2 := by
    show w.toBackend ++ ((w.conn.relayUp inp.sentBackend).2 ++ ([] ++ [])) = _
    rw [append_nil, append_nil]
  have hclient : (w.stepped (w.conn.proxyRelayStep inp)).toClient
      = w.toClient ++ ((w.conn.relayUp inp.sentBackend).1.relayDown inp.sent).2 := by
    show (if w.conn.phase.relayedTo then w.toClient ++ ([] ++
      (((w.conn.relayUp inp.sentBackend).1.relayDown inp.sent).2 ++ [])) else []) = _
    rw [if_pos hto, nil_append, append_nil]
  -- All that is sent up lies in front of what is still in the window.
  have hup : (w.stepped (w.conn.proxyRelayStep inp)).toBackend ++
      (w.conn.proxyRelayStep inp).1.recvBuf.drop (w.conn.proxyRelayStep inp).1.proxyCreqOff
      = forwardHead head env.clientIp ++ w.request.drop head.length := by
    rw [hsent, append_assoc, hwindow, h.up]
  have hdown : (w.stepped (w.conn.proxyRelayStep inp)).toClient ++
      (w.conn.proxyRelayStep inp).1.unsent = w.fromBackend := by
    rw [hclient, append_assoc, hstaged, h.down]
  have hdelivered : Delivered env (w.stepped (w.conn.proxyRelayStep inp)) := by
    refine ⟨.inr ⟨head, w.request.drop head.length, ?_, ?_, hspan, ?_⟩, ?_⟩
    · rw [hreq]
      exact h.whole
    · exact ⟨[], by rw [hreq, wholeHead_split h.whole, append_nil]⟩
    · exact ⟨_, hup⟩
    · exact ⟨_, hdown⟩
  rcases hphase with hr | hr
  · refine (stage_relays (by rw [stepped_conn, hr]; exact hp)).mpr
      ⟨head, ?_, hdelivered, ?_, ?_, ?_, ?_, ?_⟩
    · rw [hreq]
      exact h.whole
    · rw [stepped_conn, hreq]
      exact hup
    · rw [stepped_conn]
      exact hreach
    · rw [stepped_conn]
      exact hdown
    · rw [stepped_conn]
      exact hflushed
    · rw [stepped_conn, hback]
      exact h.backend
  · exact (stage_over (by rw [stepped_conn]; exact .inl hr)).mpr hdelivered

theorem Held.buf_eq {w : RequestTrack} {pos : Nat} (h : Held env w pos) (ht : w.taken = 0) : w.conn.recvBuf = w.request := by
  rw [h.buf, ht, Nat.add_zero, take_append_drop]

theorem target_of_inv {w : RequestTrack} (h : H1Inv env w) (hp : w.conn.phase = .dispatchRoute) :
    ∃ head, wholeHead w.request = some head ∧ w.conn.target = targetToken head ∧
      w.conn.headerEndOff = head.length ∧ (w.drained = false → w.conn.recvBuf = w.request) := by
  obtain ⟨head, hwhole, hdec⟩ := judgedWhole_of_inv h hp
  obtain ⟨pos, hheld, hweighed⟩ := (phaseInv_dispatchRoute hp).mp h.phase
  obtain ⟨pos', hpos', -, hlen⟩ := wholeHead_eq_some hwhole
  obtain rfl : pos' = pos := Option.some.inj (hpos'.symm.trans hheld.blank)
  exact ⟨head, hwhole, hdec.target, hheld.off.trans hlen.symm,
    fun hd => hheld.buf_eq (hweighed.fresh hd)⟩

theorem unproxied_stepped {r : H1Conn × List H1Out} (h : RelayInv env w)
    (hbody : r.1.phase = .recvBody → w.conn.phase = .recvBody ∨ Unproxied env w.toRequestTrack)
    (hnew : (w.stepped r).conn.phase = .recvBody ∨ (w.stepped r).drained = true) :
    Unproxied env (w.stepped r).toRequestTrack := by
  rw [stepped_conn] at hnew
  by_cases hback : r.1.phase = .recvRequest ∧ w.conn.phase ≠ .recvRequest
  · -- The next request starts with nothing dropped.
    have hfresh : (w.stepped r).drained = false := by
      show (w.toRequestTrack.advance r.1).drained = false
      rw [RequestTrack.advance, if_pos hback]
    rcases hnew with hnew | hnew
    · rw [hback.1] at hnew
      cases hnew
    · rw [hfresh] at hnew
      cases hnew
  · have hsame : (w.stepped r).request = w.request := by
      show (w.toRequestTrack.advance r.1).request = w.request
      rw [RequestTrack.advance, if_neg hback]
      rfl
    have hold : Unproxied env w.toRequestTrack := by
      rcases hnew with hnew | hnew
      · rcases hbody hnew with hold | hold
        · exact h.unproxied (.inl hold)
        · exact hold
      · have hdrained : (w.drained || decide (w.conn.phase = .recvBody ∧ r.1.phase = .dispatchRoute))
            = true := by
          rw [← hnew]
          show _ = (w.toRequestTrack.advance r.1).drained
          rw [RequestTrack.advance, if_neg hback]
        rcases Bool.or_eq_true_iff.mp hdrained with hd | hd
        · exact h.unproxied (.inr hd)
        · exact h.unproxied (.inl (of_decide_eq_true hd).1)
    unfold Unproxied at hold ⊢
    rw [hsame]
    exact hold

theorem relay_dispatch (h : RelayInv env w) (hp : w.conn.phase = .dispatchRoute)
    (hdyn : w.drained = true → routedTo env w.conn.target = none → inp.dynRoute.takes = false) :
    RelayStage env (w.stepped (stepDispatchRoute env inp w.conn, [])) ∧
      ((stepDispatchRoute env inp w.conn).phase = .recvBody → Unproxied env w.toRequestTrack) := by
  obtain ⟨head, hwhole, htarget, hoff, hbuf⟩ := target_of_inv h.h1 hp
  have hr : w.conn.phase.relayedTo = false := by rw [hp]; rfl
  have hidle : Idle w := (stage_idle (by rw [hp]; rfl) hr).mp h.stage
  rcases dispatch_cases env inp (c := w.conn) (by rw [hp]; rfl) with
    ⟨hphase, hrecv, hend, hconn, hroute⟩ | ⟨hphase, hroute⟩ | hplain
  · -- Only a request whose body is all here is given to a backend.
    have hfresh : w.drained = false := by
      by_contra hd
      rw [Bool.not_eq_false] at hd
      rcases hroute with hroute | ⟨hnone, htakes⟩
      · obtain ⟨head', hwhole', hne⟩ := h.unproxied (.inr hd)
        obtain rfl : head' = head := Option.some.inj (hwhole'.symm.trans hwhole)
        rw [← htarget] at hne
        exact hne hroute
      · rw [hdyn hd hnone] at htakes
        cases htakes
    have hlink : (stepDispatchRoute env inp w.conn).proxyConnected = true →
        (stepDispatchRoute env inp w.conn).backendConnId.isSome = true := by
      rw [hconn]
      exact nofun
    refine ⟨(stage_dials (by rw [stepped_conn, hphase]; rfl)).mpr
      ⟨head, hidle.stepped hr rfl, ?_, ?_, ?_, ?_⟩, fun hbody => ?_⟩
    · rw [stepped_request (by rw [hphase]; exact Phase.noConfusion)]
      exact hwhole
    · rw [stepped_conn, hend]
      exact hoff
    · rw [stepped_conn, stepped_request (by rw [hphase]; exact Phase.noConfusion), hrecv]
      exact hbuf hfresh
    · rw [stepped_conn]
      exact hlink
    · rw [hphase] at hbody
      cases hbody
  · refine ⟨stage_of_idle (by rw [stepped_conn, hphase]; rfl) (hidle.stepped hr rfl), fun _ => ?_⟩
    rw [htarget] at hroute
    exact ⟨head, hwhole, hroute⟩
  · refine ⟨stage_of_idle ?_ (hidle.stepped hr rfl), fun hbody => ?_⟩
    · rw [stepped_conn]
      exact proxies_of_plain hplain
    · exact absurd hbody (ne_recvBody_of_plain hplain)

/-! ### Messages -/

theorem demux_relay_cases {p : Profile} {c c' : H1Conn} {m : NetIn}
    (h : demuxInbound p c m = some c') :
    (∃ frame, m.clientBytes c = frame ∧ m.backendBytes c = [] ∧
      c' = { c with recvBuf := c.recvBuf ++ frame }) ∨
    (∃ frame, m.clientBytes c = [] ∧ m.backendBytes c = frame ∧
      isProxyRelayPhase c.phase = true ∧ c' = { c with sendBuf := c.sendBuf ++ frame }) ∨
    (m.clientBytes c = [] ∧ m.backendBytes c = [] ∧ c'.phase = c.phase ∧ c'.recvBuf = c.recvBuf ∧
      c'.headerEndOff = c.headerEndOff ∧ c'.sendBuf = c.sendBuf ∧ c'.sendOffset = c.sendOffset ∧
      c'.proxyCreqOff = c.proxyCreqOff ∧
      (c'.backendConnId = c.backendConnId ∧ c'.proxyConnected = c.proxyConnected ∨
        c'.backendConnId.isSome = true)) := by
  cases m with
  | data frame =>
    simp only [demuxInbound] at h
    split_ifs at h with hacc hroom
    · obtain rfl := Option.some.inj h
      rw [Bool.not_eq_true'] at hacc
      refine .inr (.inr ⟨?_, rfl, rfl, rfl, rfl, rfl, rfl, rfl, .inl ⟨rfl, rfl⟩⟩)
      rw [NetIn.clientBytes, hacc]
      rfl
    · obtain rfl := Option.some.inj h
      rw [Bool.not_eq_true', Bool.not_eq_false] at hacc
      refine .inl ⟨frame, ?_, rfl, rfl⟩
      rw [NetIn.clientBytes, hacc]
      rfl
  | closed =>
    obtain rfl := Option.some.inj h
    exact .inr (.inr ⟨rfl, rfl, rfl, rfl, rfl, rfl, rfl, rfl, .inl ⟨rfl, rfl⟩⟩)
  | connected conn =>
    obtain rfl := Option.some.inj h
    refine .inr (.inr ⟨rfl, rfl, ?_⟩)
    split_ifs
    · exact ⟨rfl, rfl, rfl, rfl, rfl, rfl, .inr rfl⟩
    · exact ⟨rfl, rfl, rfl, rfl, rfl, rfl, .inl ⟨rfl, rfl⟩⟩
  | connectError =>
    obtain rfl := Option.some.inj h
    refine .inr (.inr ⟨rfl, rfl, ?_⟩)
    split_ifs
    · exact ⟨rfl, rfl, rfl, rfl, rfl, rfl, .inl ⟨rfl, rfl⟩⟩
    · exact ⟨rfl, rfl, rfl, rfl, rfl, rfl, .inl ⟨rfl, rfl⟩⟩
  | backendData frame =>
    simp only [demuxInbound] at h
    split_ifs at h with hnone hstage
    · obtain rfl := Option.some.inj h
      refine .inr (.inr ⟨rfl, ?_, rfl, rfl, rfl, rfl, rfl, rfl, .inl ⟨rfl, rfl⟩⟩)
      rw [isNone_iff_eq_none] at hnone
      rw [NetIn.backendBytes, hnone]
      rfl
    · obtain rfl := Option.some.inj h
      refine .inr (.inl ⟨frame, rfl, ?_, (and_eq_true_iff.mp hstage).1, rfl⟩)
      rw [not_eq_true, Option.isNone_eq_false_iff] at hnone
      rw [NetIn.backendBytes, if_pos hnone]
  | backendClosed =>
    obtain rfl := Option.some.inj h
    refine .inr (.inr ⟨rfl, rfl, ?_⟩)
    split_ifs
    · exact ⟨rfl, rfl, rfl, rfl, rfl, rfl, .inl ⟨rfl, rfl⟩⟩
    · exact ⟨rfl, rfl, rfl, rfl, rfl, rfl, .inl ⟨rfl, rfl⟩⟩

/-- The world after a message: `c` is the slot, with the bytes the message brought. -/
def H1World.heard (w : H1World) (c : H1Conn) (rest : List NetIn) (client backend : Bytes) : H1World :=
  { w with
    conn := c
    netIn := rest
    arrived := w.arrived ++ client
    fromBackend := w.fromBackend ++ backend }

theorem heard_request (h : H1Inv env w.toRequestTrack) (c : H1Conn) (rest : List NetIn) (client backend : Bytes) :
    (w.heard c rest client backend).request = w.request ++ client :=
  drop_append_of_le_length h.started

theorem Delivered.heard {client backend : Bytes} (h : Delivered env w) (h1 : H1Inv env w.toRequestTrack) :
    Delivered env (w.heard c rest client backend) := by
  obtain ⟨hback, hclient⟩ := h
  refine ⟨?_, hclient.trans (prefix_append _ _)⟩
  rcases hback with hback | ⟨head, body, hwhole, hpre, hspan, hsent⟩
  · exact .inl hback
  · refine .inr ⟨head, body, ?_, ?_, hspan, hsent⟩
    · rw [heard_request h1]
      exact wholeHead_append hwhole client
    · rw [heard_request h1]
      exact hpre.trans (prefix_append _ _)

theorem Idle.heard {client : Bytes} (h : Idle w) :
    Idle (w.heard c rest client []) :=
  ⟨h.toBackend, h.toClient, (append_nil _).trans h.fromBackend⟩

theorem stage_client {frame : Bytes} (h1 : H1Inv env w.toRequestTrack) (h : RelayStage env w) :
    RelayStage env (w.heard { w.conn with recvBuf := w.conn.recvBuf ++ frame } rest frame []) := by
  have hreq := heard_request h1 { w.conn with recvBuf := w.conn.recvBuf ++ frame } rest frame []
  rcases phase_kinds w.conn.phase with hp | hp | hp | hp | ⟨hp, hr⟩
  · obtain ⟨head, hd⟩ := (stage_dials hp).mp h
    refine (stage_dials (by exact hp)).mpr ⟨head, hd.toIdle.heard, ?_, hd.off, ?_, hd.linked⟩
    · rw [hreq]
      exact wholeHead_append hd.whole frame
    · rw [hreq, ← hd.buf]
      rfl
  · obtain ⟨head, hs⟩ := (stage_sends hp).mp h
    refine (stage_sends (by exact hp)).mpr ⟨head, ?_, hs.staged, hs.sent, ?_, hs.creqOff, hs.backend,
      hs.toClient, (append_nil _).trans hs.fromBackend⟩
    · rw [hreq]
      exact wholeHead_append hs.whole frame
    · rw [hreq, wholeHead_drop_append hs.whole, ← hs.buf]
      rfl
  · obtain ⟨head, hr⟩ := (stage_relays hp).mp h
    refine (stage_relays (by exact hp)).mpr
      ⟨head, ?_, hr.delivered.heard h1, ?_, ?_, hr.down.trans (append_nil _).symm, hr.flushed,
        hr.backend⟩
    · rw [hreq]
      exact wholeHead_append hr.whole frame
    · rw [hreq, wholeHead_drop_append hr.whole, ← append_assoc, ← hr.up, append_assoc]
      exact congrArg (w.toBackend ++ ·) (drop_append_of_le_length hr.reach)
    · show w.conn.proxyCreqOff ≤ (w.conn.recvBuf ++ frame).length
      rw [length_append]
      exact Nat.le_add_right_of_le hr.reach
  · exact (stage_over (by exact hp)).mpr (((stage_over hp).mp h).heard h1)
  · exact (stage_idle (by exact hp) (by exact hr)).mpr ((stage_idle hp hr).mp h).heard

theorem stage_backend {frame : Bytes} (h1 : H1Inv env w.toRequestTrack) (hp : isProxyRelayPhase w.conn.phase = true)
    (h : RelayStage env w) :
    RelayStage env (w.heard { w.conn with sendBuf := w.conn.sendBuf ++ frame } rest [] frame) := by
  have hreq := heard_request h1 { w.conn with sendBuf := w.conn.sendBuf ++ frame } rest [] frame
  rw [append_nil] at hreq
  obtain ⟨head, hr⟩ := (stage_relays hp).mp h
  refine (stage_relays (by exact hp)).mpr
    ⟨head, ?_, hr.delivered.heard h1, ?_, hr.reach, ?_, ?_, hr.backend⟩
  · rw [hreq]
    exact hr.whole
  · rw [hreq]
    exact hr.up
  · show w.toClient ++ (w.conn.sendBuf ++ frame).drop w.conn.sendOffset = w.fromBackend ++ frame
    rw [drop_append_of_le_length hr.flushed, ← append_assoc, ← hr.down]
    rfl
  · show w.conn.sendOffset ≤ (w.conn.sendBuf ++ frame).length
    rw [length_append]
    exact Nat.le_add_right_of_le hr.flushed

theorem stage_other (rest : List NetIn)
    (h1 : H1Inv env w.toRequestTrack) (h : RelayStage env w) (hphase : c.phase = w.conn.phase)
    (hrecv : c.recvBuf = w.conn.recvBuf) (hoff : c.headerEndOff = w.conn.headerEndOff)
    (hsend : c.sendBuf = w.conn.sendBuf) (hsent : c.sendOffset = w.conn.sendOffset)
    (hcreq : c.proxyCreqOff = w.conn.proxyCreqOff)
    (hback : c.backendConnId = w.conn.backendConnId ∧ c.proxyConnected = w.conn.proxyConnected ∨
      c.backendConnId.isSome = true) : RelayStage env (w.heard c rest [] []) := by
  have hreq := heard_request h1 c rest [] []
  rw [append_nil] at hreq
  have hfrom : (w.heard c rest [] []).fromBackend = w.fromBackend := append_nil _
  have hlive : w.conn.backendConnId.isSome = true → c.backendConnId.isSome = true := by
    rcases hback with ⟨hback, -⟩ | hback
    · rw [hback]
      exact id
    · exact fun _ => hback
  rcases phase_kinds w.conn.phase with hp | hp | hp | hp | ⟨hp, hr⟩
  · obtain ⟨head, hd⟩ := (stage_dials hp).mp h
    refine (stage_dials (by rw [← hphase] at hp; exact hp)).mpr
      ⟨head, hd.toIdle.heard, hreq ▸ hd.whole, hoff.trans hd.off, ?_, fun hconn => ?_⟩
    · rw [hreq, ← hd.buf]
      exact hrecv
    · rcases hback with ⟨-, hsame⟩ | hback
      · exact hlive (hd.linked (hsame.symm.trans hconn))
      · exact hback
  · obtain ⟨head, hs⟩ := (stage_sends hp).mp h
    refine (stage_sends (by rw [← hphase] at hp; exact hp)).mpr
      ⟨head, hreq ▸ hs.whole, hsend.trans hs.staged, ?_, ?_, hcreq.trans hs.creqOff,
        hlive hs.backend, hs.toClient, hfrom.trans hs.fromBackend⟩
    · show w.toBackend = c.sendBuf.take c.sendOffset
      rw [hsend, hsent]
      exact hs.sent
    · rw [hreq, ← hs.buf]
      exact hrecv
  · obtain ⟨head, hr⟩ := (stage_relays hp).mp h
    refine (stage_relays (by rw [← hphase] at hp; exact hp)).mpr
      ⟨head, hreq ▸ hr.whole, hr.delivered.heard h1, ?_, ?_, ?_, ?_, hlive hr.backend⟩
    · rw [hreq]
      show w.toBackend ++ c.recvBuf.drop c.proxyCreqOff = _
      rw [hrecv, hcreq]
      exact hr.up
    · show c.proxyCreqOff ≤ c.recvBuf.length
      rw [hrecv, hcreq]
      exact hr.reach
    · rw [hfrom]
      show w.toClient ++ c.sendBuf.drop c.sendOffset = _
      rw [hsend, hsent]
      exact hr.down
    · show c.sendOffset ≤ c.sendBuf.length
      rw [hsend, hsent]
      exact hr.flushed
  · rw [← hphase] at hp
    exact (stage_over (by exact hp)).mpr (h.delivered.heard h1)
  · have hidle := (stage_idle hp hr).mp h
    rw [← hphase] at hp hr
    exact (stage_idle (by exact hp) (by exact hr)).mpr hidle.heard

theorem unproxied_heard {client backend : Bytes} (h : RelayInv env w) (hphase : c.phase = w.conn.phase)
    (hnew : c.phase = .recvBody ∨ w.drained = true) :
    Unproxied env (w.heard c rest client backend).toRequestTrack := by
  rw [hphase] at hnew
  obtain ⟨head, hwhole, hroute⟩ := h.unproxied hnew
  refine ⟨head, ?_, hroute⟩
  rw [heard_request h.h1]
  exact wholeHead_append hwhole client

theorem relayInv_demux {m : NetIn} (h : RelayInv env w) (hm : demuxInbound env.profile w.conn m = some c) :
    RelayInv env (w.heard c rest (m.clientBytes w.conn) (m.backendBytes w.conn)) := by
  obtain ⟨hphase, -⟩ := demux_phase hm
  refine ⟨inv_demux h.h1 hm, unproxied_heard h hphase, ?_⟩
  rcases demux_relay_cases hm with ⟨frame, hcb, hbb, rfl⟩ | ⟨frame, hcb, hbb, hrelay, rfl⟩ |
    ⟨hcb, hbb, hphase', hrecv, hoff, hsend, hsent, hcreq, hback⟩
  · rw [hcb, hbb]
    exact stage_client h.h1 h.stage
  · rw [hcb, hbb]
    exact stage_backend h.h1 hrelay h.stage
  · rw [hcb, hbb]
    exact stage_other rest h.h1 h.stage hphase' hrecv hoff hsend hsent hcreq hback

/-! ### Every event -/

theorem handedOver_of_proxies (h : phase.proxies = true) :
    phase.handedOver = true := by
  cases phase <;> first | exact absurd h false_ne_true | rfl

theorem proxies_ne_recvBody (h : c.phase.proxies = true) : (stepPhase env inp c).1.phase ≠ .recvBody := by
  intro hbody
  have hleaves : Leaves (stepPhase env inp c).1 := leaves_stepPhase (handedOver_of_proxies h)
  rw [Leaves, hbody] at hleaves
  rcases hleaves with (hc | hc | hc) | ⟨hc, -⟩ <;> cases hc

theorem relay_stepPhase (h : RelayInv env w) (hok : RelayStepOk env w (.step inp)) :
    RelayStage env (w.stepped (stepPhase env inp w.conn)) ∧
      ((stepPhase env inp w.conn).1.phase = .recvBody →
        w.conn.phase = .recvBody ∨ Unproxied env w.toRequestTrack) := by
  obtain ⟨-, hdyn, hfits, hspan⟩ := hok
  -- In the relay no body is dropped.
  have hrelay : w.conn.phase.proxies = true → (stepPhase env inp w.conn).1.phase = .recvBody →
      w.conn.phase = .recvBody ∨ Unproxied env w.toRequestTrack :=
    fun hp hbody => absurd hbody (proxies_ne_recvBody hp)
  cases hp : w.conn.phase
  case dispatchRoute =>
    have hstep : stepPhase env inp w.conn = (stepDispatchRoute env inp w.conn, []) := by
      rw [stepPhase, hp]
    obtain ⟨hstage, hbody⟩ := relay_dispatch h hp (hdyn hp)
    rw [hstep]
    exact ⟨hstage, fun hnew => .inr (hbody hnew)⟩
  case proxyConnect =>
    have hstep : stepPhase env inp w.conn = (w.conn.stepProxyConnect inp, []) := by
      rw [stepPhase, hp]
    obtain ⟨head, hd⟩ := (stage_dials (by rw [hp]; rfl)).mp h.stage
    refine ⟨?_, hp ▸ hrelay (by rw [hp]; rfl)⟩
    rw [hstep]
    exact stage_connect hd hp
  case proxyWaitConnect =>
    have hstep : stepPhase env inp w.conn = (w.conn.stepProxyWaitConnect env inp, []) := by
      rw [stepPhase, hp]
    obtain ⟨head, hd⟩ := (stage_dials (by rw [hp]; rfl)).mp h.stage
    refine ⟨?_, hp ▸ hrelay (by rw [hp]; rfl)⟩
    rw [hstep]
    exact stage_waitConnect hd hp fun hconn => hfits hp hconn head hd.whole
  case proxySendRequest =>
    have hstep : stepPhase env inp w.conn = w.conn.stepProxySendRequest env.profile inp := by
      rw [stepPhase, hp]
    obtain ⟨head, hs⟩ := (stage_sends hp).mp h.stage
    refine ⟨?_, hp ▸ hrelay (by rw [hp]; rfl)⟩
    rw [hstep]
    exact stage_send hs hp
  case proxyRelayHeaders | proxyRelayBody =>
    have hstep : stepPhase env inp w.conn = w.conn.proxyRelayStep inp := by
      rw [stepPhase, hp]
    have hon : isProxyRelayPhase w.conn.phase = true := by rw [hp]; rfl
    obtain ⟨head, hr⟩ := (stage_relays hon).mp h.stage
    refine ⟨?_, hp ▸ hrelay (by rw [hp]; rfl)⟩
    rw [hstep]
    exact stage_relay hr hon (hspan hon head hr.whole)
  case closeConn =>
    have hstep : stepPhase env inp w.conn = (H1Conn.released, []) := by rw [stepPhase, hp]
    rw [hstep]
    exact ⟨stage_ended h.stage (.inr rfl), (by rintro ⟨⟩)⟩
  case init =>
    have hstep : stepPhase env inp w.conn = (w.conn, []) := by rw [stepPhase, hp]
    rw [hstep]
    refine ⟨stage_ended h.stage (.inr hp), fun hbody => ?_⟩
    rw [hp] at hbody
    cases hbody
  all_goals
    have hno : w.conn.phase.proxies = false := by rw [hp]; rfl
    have hr : w.conn.phase.relayedTo = false := by rw [hp]; rfl
    obtain ⟨hphase, hbody, hquiet⟩ := stepPhase_outside env inp hno
      (by rw [hp]; exact Phase.noConfusion)
    have hidle := ((stage_idle hno hr).mp h.stage).stepped hr hquiet
    rw [hp] at hbody
    exact ⟨stage_of_idle (by rw [stepped_conn]; exact hphase) hidle, fun hnew => .inl (hbody hnew)⟩

theorem relayInv_step {e : H1Event} (h : RelayInv env w) (hok : RelayStepOk env w e) : RelayInv env (h1Step env w e).1 := by
  cases e with
  | arrive m =>
    have hstage := stage_other (w.netIn ++ [m]) h.h1 h.stage rfl rfl rfl rfl rfl rfl
      (.inl ⟨rfl, rfl⟩)
    simp only [H1World.heard, append_nil] at hstage
    exact ⟨h.h1, h.unproxied, hstage⟩
  | demux =>
    unfold h1Step
    cases hq : w.netIn with
    | nil => exact h
    | cons m rest =>
      simp only
      cases hm : demuxInbound env.profile w.conn m with
      | none => exact h
      | some c => exact relayInv_demux h hm
  | step inp =>
    have hstep : RelayStage env (w.stepped (stepActiveSlot env inp w.conn)) ∧
        ((stepActiveSlot env inp w.conn).1.phase = .recvBody →
          w.conn.phase = .recvBody ∨ Unproxied env w.toRequestTrack) := by
      unfold stepActiveSlot
      split_ifs
      · exact ⟨stage_ended h.stage (.inr rfl), nofun⟩
      · exact ⟨stage_ended h.stage (.inl rfl), nofun⟩
      · exact relay_stepPhase h hok
    obtain ⟨hstage, hbody⟩ := hstep
    exact ⟨inv_step h.h1 hok.1, unproxied_stepped h hbody, hstage⟩

theorem relayInv_init (env : H1Env) : RelayInv env {} := by
  refine ⟨inv_init env, fun hbody => ?_, rfl, rfl, rfl⟩
  rcases hbody with hbody | hbody <;> cases hbody

theorem relayInv_run {evs : List H1Event} (hal : (h1Machine env).Along (RelayStepOk env) {} evs) :
    RelayInv env ((h1Machine env).run {} evs).1 :=
  (h1Machine env).run_invariant (I := RelayInv env) (fun _ _ h hok => relayInv_step h hok)
    (relayInv_init env) hal

/-! ## What follows -/

theorem nothingLost_of_inv (h : RelayInv env w) : NothingLost env w := by
  refine ⟨fun hp => ?_, fun hp => ?_⟩
  · cases hq : w.conn.phase <;> rw [hq] at hp <;> try exact absurd hp false_ne_true
    case proxySendRequest =>
      obtain ⟨head, hs⟩ := (stage_sends hq).mp h.stage
      refine ⟨head, hs.whole, ?_⟩
      rw [H1Conn.owed, hq, hs.sent, H1Conn.unsent, hs.buf, ← append_assoc,
        take_append_drop, hs.staged]
    case proxyRelayHeaders | proxyRelayBody =>
      obtain ⟨head, hr⟩ := (stage_relays (by rw [hq]; rfl)).mp h.stage
      refine ⟨head, hr.whole, ?_⟩
      rw [H1Conn.owed, hq]
      exact hr.up
  · obtain ⟨head, hr⟩ := (stage_relays hp).mp h.stage
    exact hr.down

theorem deliversAll_of_inv (h : RelayInv env w) : DeliversAll env w := by
  intro inp hp hclosed hexp hup hdown
  obtain ⟨head, hr⟩ := (stage_relays hp).mp h.stage
  have hto : w.conn.phase.relayedTo = true := by rw [Phase.relayedTo, hp]; rfl
  have hstep : stepActiveSlot env inp w.conn = w.conn.proxyRelayStep inp := by
    unfold stepActiveSlot
    rw [hclosed, hexp, Bool.false_and, Bool.false_and, if_neg false_ne_true,
      if_neg false_ne_true, stepPhase]
    cases hq : w.conn.phase <;> rw [hq] at hp <;> exact absurd hp false_ne_true
  have hsome : ¬w.conn.backendConnId.isNone = true := by
    rw [isNone_iff_eq_none]
    intro hnone
    have hback := hr.backend
    rw [hnone] at hback
    cases hback
  have hwindow : (w.conn.relayUp inp.sentBackend).2 = w.conn.recvBuf.drop w.conn.proxyCreqOff := by
    have hlen : (w.conn.recvBuf.drop w.conn.proxyCreqOff).length ≤ inp.sentBackend := by
      rw [length_drop]
      omega
    unfold H1Conn.relayUp
    simp only
    rw [if_neg hsome]
    split_ifs <;> exact take_of_length_le hlen
  obtain ⟨hsend, hoff, -⟩ := relayUp_keeps w.conn inp.sentBackend
  have hstaged : ((w.conn.relayUp inp.sentBackend).1.relayDown inp.sent).2 = w.conn.unsent := by
    have hunsent : (w.conn.relayUp inp.sentBackend).1.unsent = w.conn.unsent := by
      rw [H1Conn.unsent, hsend, hoff]
      rfl
    have hlen : w.conn.unsent.length ≤ inp.sent := by
      rw [H1Conn.unsent, length_drop]
      omega
    unfold H1Conn.relayDown
    simp only
    rw [hunsent]
    split_ifs <;> exact take_of_length_le hlen
  refine ⟨⟨head, hr.whole, ?_⟩, ?_⟩
  · show w.toBackend ++ (stepActiveSlot env inp w.conn).2.flatMap H1Out.toBackend = _
    rw [hstep]
    show w.toBackend ++ ((w.conn.relayUp inp.sentBackend).2 ++ ([] ++ [])) = _
    rw [append_nil, append_nil, hwindow]
    exact hr.up
  · show (if w.conn.phase.relayedTo then
      w.toClient ++ (stepActiveSlot env inp w.conn).2.flatMap H1Out.toClient else []) = _
    rw [if_pos hto, hstep]
    show w.toClient ++ ([] ++ (((w.conn.relayUp inp.sentBackend).1.relayDown inp.sent).2 ++ [])) = _
    rw [nil_append, append_nil, hstaged]
    exact hr.down

/-- In every run whose steps meet the condition, the backend is given one request and the client the backend's bytes;
no byte is lost or held back in either direction. -/
theorem relay_one_request (env : H1Env) (evs : List H1Event)
    (hal : (h1Machine env).Along (RelayStepOk env) {} evs) :
    let w := ((h1Machine env).run {} evs).1
    Delivered env w ∧ NothingLost env w ∧ DeliversAll env w := by
  intro w
  have hinv : RelayInv env w := relayInv_run hal
  exact ⟨hinv.stage.delivered, nothingLost_of_inv hinv, deliversAll_of_inv hinv⟩

def proxyEnv : H1Env :=
  { sampleEnv with routes := [{ path := ascii "/a", handler := .proxy }] }

/-- A client's bytes in one frame, relayed as far as one tick of the relay. -/
def relayed (request : Bytes) : List H1Event :=
  [.arrive (.data request), .demux, .step {}, .step { act := .proxy }, .step {},
    .arrive (.connected 7), .demux, .step {}, .step { sentBackend := 100 },
    .step { sentBackend := 100 }, .step {}, .step { sentBackend := 2000 },
    .arrive (.backendData (ascii "HTTP/1.1 200 OK\r\n\r\n")), .demux, .step { sent := 2000 }]

def postRequest : Bytes :=
  ascii "POST /a HTTP/1.1\r\nHost: a\r\nContent-Length: 2\r\n\r\nhi"

theorem relay_one_request_post :
    ((h1Machine proxyEnv).run {} (relayed postRequest)).1.toBackend =
        ascii ("POST /a HTTP/1.1\r\nHost: a\r\nContent-Length: 2\r\n" ++
          "X-Forwarded-For: 0.0.0.0\r\n\r\nhi") ∧
      Delivered proxyEnv ((h1Machine proxyEnv).run {} (relayed postRequest)).1 :=
  ⟨by decide +kernel, (relay_one_request proxyEnv (relayed postRequest) (by decide +kernel)).1⟩

def pipelinedRequests : Bytes :=
  ascii "GET /a HTTP/1.1\r\nHost: a\r\n\r\nGET /b HTTP/1.1\r\nHost: b\r\n\r\n"

/-- It reaches the first one's backend, unrouted. -/
theorem pipelined_request_relayed :
    ((h1Machine proxyEnv).run {} (relayed pipelinedRequests)).1.toBackend =
        ascii ("GET /a HTTP/1.1\r\nHost: a\r\nX-Forwarded-For: 0.0.0.0\r\n\r\n" ++
          "GET /b HTTP/1.1\r\nHost: b\r\n\r\n") ∧
      ¬Delivered proxyEnv ((h1Machine proxyEnv).run {} (relayed pipelinedRequests)).1 := by
  have hrun : ((h1Machine proxyEnv).run {} (relayed pipelinedRequests)).1.toBackend =
        ascii ("GET /a HTTP/1.1\r\nHost: a\r\nX-Forwarded-For: 0.0.0.0\r\n\r\n" ++
          "GET /b HTTP/1.1\r\nHost: b\r\n\r\n") ∧
      wholeHead ((h1Machine proxyEnv).run {} (relayed pipelinedRequests)).1.request =
        some (ascii "GET /a HTTP/1.1\r\nHost: a\r\n\r\n") ∧
      headPlan proxyEnv (ascii "GET /a HTTP/1.1\r\nHost: a\r\n\r\n") = .none := by
    decide +kernel
  obtain ⟨hsent, hwhole, hplan⟩ := hrun
  refine ⟨hsent, fun hdel => ?_⟩
  rcases hdel.backend with hnil | ⟨head, body, hhead, -, hspan, hpre⟩
  · rw [hsent] at hnil
    exact absurd hnil (by decide)
  · obtain rfl := Option.some.inj (hwhole.symm.trans hhead)
    rw [hplan] at hspan
    obtain rfl : body = [] := hspan
    rw [hsent] at hpre
    exact absurd hpre.length_le (by decide +kernel)

end Wave.Http
