import Wave.Lib.Machine
import Wave.Lib.Table
import Mathlib.Data.List.Infix

/-! # Aborts towards the application (`http/server/app.rs`, `h2.rs`)

`request_out` may be full: aborts then wait in a queue, and no HEAD is sent while one waits. -/

namespace Wave.Http.Aborts

open Lib

variable {log : List Entry} {s : AbortServer} {L : Layout} {p : Nat}

inductive AbortReason where
  | peerGone
  | draining
  | undeliverable
  | creditOverrun
  | stalled
  | tooLarge
  | malformed
deriving DecidableEq

structure Abort where
  head : Nat
  reason : AbortReason
deriving DecidableEq

structure Ex where
  head : Nat
  reqDone : Bool
  respDone : Bool := false

def Ex.finished (x : Ex) : Bool := x.reqDone && x.respDone

inductive Ending where
  /-- `h1_step` and `finish_app_stream`: the response has gone out whole. -/
  | delivered
  /-- The application's ABORT: `h1_fail` and `fail_app_stream` without a reason. -/
  | applicationAbort
  /-- The application's LINK DOWN: `fail_all`. -/
  | linkDown
  /-- `admit` found a violation. -/
  | violation
  /-- `h1_compose` and `compose_app_frames`: the response head does not fit. -/
  | undeliverable
  /-- `h1_compose`: the body passes the length its head declared. -/
  | lengthOverrun
  | stalled
  /-- `h1_forward`: the peer went before the request body was whole. -/
  | bodyPeerGone
  | bodyMalformed
  /-- `h1_forward` and `refuse_body`. -/
  | bodyTooLarge
  /-- `reset_app_stream`. -/
  | flowControl
  | resetByPeer
  /-- `on_slot_release` and `on_conn_release`. -/
  | released (reason : AbortReason)
deriving DecidableEq

def Ending.reason (unfinished : Bool) : Ending → Option AbortReason
  | .delivered => none
  | .applicationAbort => none
  | .linkDown => none
  | .violation => some .creditOverrun
  | .undeliverable => some .undeliverable
  | .lengthOverrun => some .creditOverrun
  | .stalled => some .stalled
  | .bodyPeerGone => some .peerGone
  | .bodyMalformed => some .malformed
  | .bodyTooLarge => some .tooLarge
  | .flowControl => some .malformed
  | .resetByPeer => if unfinished then some .peerGone else none
  | .released r => if unfinished then some r else none

/-- What must hold of an exchange, on HTTP/1 or HTTP/2, for an ending to be reached. -/
def Ending.can (h1 : Bool) (x : Ex) : Ending → Bool
  | .delivered => x.respDone
  | .applicationAbort => true
  | .linkDown => !x.respDone
  | .violation => true
  | .undeliverable => true
  | .lengthOverrun => h1
  | .stalled => !x.respDone
  | .bodyPeerGone => h1 && !x.reqDone
  | .bodyMalformed => h1 && !x.reqDone
  | .bodyTooLarge => !h1 || !x.reqDone
  | .flowControl => !h1
  | .resetByPeer => !h1
  | .released _ => true

/-- `MAX_CONCURRENT_CONNS`, `MAX_STREAMS` and the h3 stream table. -/
structure Layout where
  conns : Nat
  maxStreams : Nat
  h3 : Nat

/-- Places for h1 and h2 exchanges: a connection's own, then one for each of its streams. -/
def Layout.places (L : Layout) : Nat := L.conns * (1 + L.maxStreams)

/-- `ABORT_QUEUE`, which is `MAX_EXCHANGES`. -/
def Layout.abortQueue (L : Layout) : Nat := L.conns + L.conns * L.maxStreams + L.h3

def Layout.isH1 (L : Layout) (p : Nat) : Bool := p % (1 + L.maxStreams) = 0

/-- An abort that waits, and how many exchanges were open when it was queued. -/
structure Waiting where
  abort : Abort
  openThen : Nat

structure AbortServer where
  exchanges : List (Option Ex)
  queue : List Waiting := []
  heads : Nat := 0

/-- What is seen of a run: records written, and what led to them. -/
inductive Entry where
  | head (n : Nat)
  | raised (a : Abort)
  | abort (a : Abort)
  | ended (n : Nat) (cause : Ending) (unfinished : Bool)
deriving DecidableEq

namespace AbortServer

def init (L : Layout) : AbortServer where
  exchanges := List.replicate L.places none

def ex (s : AbortServer) (p : Nat) : Option Ex := s.exchanges.getD p none

def waiting (s : AbortServer) : List Abort := s.queue.map (·.abort)

def openCount (s : AbortServer) : Nat := (s.exchanges.map fun x => if x.isSome then 1 else 0).sum

/-- `abort`; `accepts` is what `request_out` says to the writes to come. -/
def abort (L : Layout) (s : AbortServer) (a : Abort) (accepts : List Bool) :
    AbortServer × List Entry × List Bool :=
  if s.queue = [] then
    if accepts.headD false then (s, [.raised a, .abort a], accepts.tail)
    else if s.queue.length < L.abortQueue then
      ({ s with queue := [⟨a, s.openCount⟩] }, [.raised a], accepts.tail)
    else (s, [.raised a], accepts.tail)
  else if s.queue.length < L.abortQueue then ({ s with queue := s.queue ++ [⟨a, s.openCount⟩] }, [.raised a], accepts)
  else (s, [.raised a], accepts)

/-- `flush_aborts`: the aborts that still wait, and those written. -/
def flush : List Waiting → List Bool → List Waiting × List Entry × List Bool
  | [], accepts => ([], [], accepts)
  | w :: queue, accepts =>
    if accepts.headD false then
      let r := flush queue accepts.tail
      (r.1, .abort w.abort :: r.2.1, r.2.2)
    else (w :: queue, [], accepts.tail)

def flushAborts (s : AbortServer) (accepts : List Bool) : AbortServer × List Entry × List Bool :=
  let r := flush s.queue accepts
  ({ s with queue := r.1 }, r.2)

/-- `send_head`, for the free place of an exchange. -/
def sendHead (s : AbortServer) (p : Nat) (hasBody : Bool) (accepts : List Bool) : AbortServer × List Entry :=
  match s.exchanges[p]? with
  | some none =>
    let (s, log, accepts) := s.flushAborts accepts
    if s.queue = [] ∧ accepts.headD false = true then
      ({ s with
        exchanges := s.exchanges.set p (some { head := s.heads, reqDone := !hasBody })
        heads := s.heads + 1 }, log ++ [Entry.head s.heads])
    else (s, log)
  | _ => (s, [])

/-- An open exchange is ended, and the application told if the ending says so. -/
def endAt (L : Layout) (s : AbortServer) (p : Nat) (cause : Ending) (accepts : List Bool) :
    AbortServer × List Entry × List Bool :=
  match s.ex p with
  | none => (s, [], accepts)
  | some x =>
    if cause.can (L.isH1 p) x then
      let (s, log, accepts) :=
        match cause.reason !x.finished with
        | none => (s, [], accepts)
        | some r => s.abort L { head := x.head, reason := r } accepts
      ({ s with exchanges := s.exchanges.set p none }, log ++ [Entry.ended x.head cause !x.finished], accepts)
    else (s, [], accepts)

def endAll (L : Layout) (cause : Ending) : List Nat → AbortServer → List Bool → AbortServer × List Entry
  | [], s, _ => (s, [])
  | p :: ps, s, accepts =>
    let r := s.endAt L p cause accepts
    let rest := endAll L cause ps r.1 r.2.2
    (rest.1, r.2.1 ++ rest.2)

end AbortServer

inductive AbortEvent where
  /-- `h1_begin` and `emit_app_request`. -/
  | sendHead (p : Nat) (hasBody : Bool) (accepts : List Bool)
  | reqDone (p : Nat)
  | respDone (p : Nat)
  | ends (p : Nat) (cause : Ending) (accepts : List Bool)
  | linkDown
  /-- `slot_release_buffers` of a connection. -/
  | release (i : Nat) (reason : AbortReason) (accepts : List Bool)
  /-- `drain_responses` begins. -/
  | flush (accepts : List Bool)

def abortStep (L : Layout) (s : AbortServer) : AbortEvent → AbortServer × List Entry
  | .sendHead p hasBody accepts => s.sendHead p hasBody accepts
  | .reqDone p =>
    match s.ex p with
    | some x => ({ s with exchanges := s.exchanges.set p (some { x with reqDone := true }) }, [])
    | none => (s, [])
  | .respDone p =>
    match s.ex p with
    | some x => ({ s with exchanges := s.exchanges.set p (some { x with respDone := true }) }, [])
    | none => (s, [])
  | .ends p cause accepts => ((s.endAt L p cause accepts).1, (s.endAt L p cause accepts).2.1)
  | .linkDown => s.endAll L .linkDown (List.range L.places) []
  | .release i reason accepts =>
    s.endAll L (.released reason) (List.range' (i * (1 + L.maxStreams)) (1 + L.maxStreams)) accepts
  | .flush accepts => ((s.flushAborts accepts).1, (s.flushAborts accepts).2.1)

def abortMachine (L : Layout) : Machine AbortServer AbortEvent Entry where
  step := abortStep L

def raisedOf (log : List Entry) : List Abort :=
  log.filterMap fun
    | .raised a => some a
    | _ => none

def written (log : List Entry) : List Abort :=
  log.filterMap fun
    | .abort a => some a
    | _ => none

def raisedCount (log : List Entry) (n : Nat) : Nat := (raisedOf log).countP (·.head = n)

def HeadsAfterAborts (log : List Entry) : Prop :=
  ∀ pre n, pre ++ [Entry.head n] <+: log → written pre = raisedOf pre

@[simp] theorem raisedOf_append (l m : List Entry) : raisedOf (l ++ m) = raisedOf l ++ raisedOf m :=
  List.filterMap_append

@[simp] theorem written_append (l m : List Entry) : written (l ++ m) = written l ++ written m :=
  List.filterMap_append

@[simp] theorem raisedCount_append (l m : List Entry) (n : Nat) :
    raisedCount (l ++ m) n = raisedCount l n + raisedCount m n := by
  simp [raisedCount]

theorem HeadsAfterAborts.concat (h : HeadsAfterAborts log) {e : Entry}
    (he : ∀ n, e = .head n → written log = raisedOf log) : HeadsAfterAborts (log ++ [e]) := by
  intro pre n hpre
  rcases List.prefix_concat_iff.mp hpre with heq | hpre
  · obtain ⟨rfl, hhead⟩ := List.append_inj' heq rfl
    exact he n (List.singleton_inj.mp hhead).symm
  · exact h pre n hpre

theorem HeadsAfterAborts.append {log more : List Entry} (h : HeadsAfterAborts log)
    (hmore : ∀ n, .head n ∉ more) : HeadsAfterAborts (log ++ more) := by
  induction more generalizing log with
  | nil => simpa using h
  | cons e more ih =>
    rw [List.append_cons]
    refine ih (h.concat fun n he => ?_) fun n hn => hmore n (List.mem_cons_of_mem _ hn)
    exact absurd (he ▸ List.mem_cons_self) (hmore n)

/-- An exchange has been told of once or not at all, as its ending says. -/
def ToldOnce (log : List Entry) : Prop :=
  ∀ n cause unfinished, .ended n cause unfinished ∈ log →
    raisedCount log n = if (cause.reason unfinished).isSome then 1 else 0

def Untold (log : List Entry) (n : Nat) : Prop :=
  raisedCount log n = 0 ∧ ∀ cause unfinished, .ended n cause unfinished ∉ log

def Bounded (L : Layout) (openNow : Nat) (queue : List Waiting) : Prop :=
  ∀ pre w post, queue = pre ++ w :: post → post.length + 1 + openNow ≤ w.openThen ∧ w.openThen ≤ L.places

theorem Bounded.nil (L : Layout) (openNow : Nat) : Bounded L openNow [] := fun pre w post h => by
  cases pre <;> cases h

theorem Bounded.mono {k m : Nat} {queue : List Waiting} (h : Bounded L m queue) (hle : k ≤ m) : Bounded L k queue := by
  intro pre w post hq
  have := h pre w post hq
  omega

theorem Bounded.suffix {k : Nat} {queue rest : List Waiting} (h : Bounded L k queue) (hs : rest <:+ queue) :
    Bounded L k rest := by
  obtain ⟨front, rfl⟩ := hs
  intro pre w post hq
  exact h (front ++ pre) w post (by rw [hq, List.append_assoc])

theorem Bounded.concat {k : Nat} {queue : List Waiting} (h : Bounded L (k + 1) queue) {w : Waiting}
    (hw : k + 1 ≤ w.openThen ∧ w.openThen ≤ L.places) : Bounded L k (queue ++ [w]) := by
  intro pre v post hq
  rcases List.eq_nil_or_concat post with rfl | ⟨front, b, rfl⟩
  · obtain ⟨-, hv⟩ := List.append_inj' hq rfl
    obtain rfl := List.singleton_inj.mp hv
    rw [List.length_nil]
    omega
  · have hsplit : queue ++ [w] = (pre ++ v :: front) ++ [b] := by
      rw [hq, List.concat_eq_append, List.append_assoc, List.cons_append]
    obtain ⟨hfront, -⟩ := List.append_inj' hsplit rfl
    have := h pre v front hfront
    rw [List.length_concat]
    omega

structure AbortInv (L : Layout) (s : AbortServer) (log : List Entry) : Prop where
  size : s.exchanges.length = L.places
  order : written log ++ s.waiting = raisedOf log
  heads : HeadsAfterAborts log
  /-- An abort and those behind it were open when it was queued, and are not any more. -/
  bound : Bounded L s.openCount s.queue
  apart : ∀ p q x y, s.ex p = some x → s.ex q = some y → x.head = y.head → p = q
  known : ∀ p x, s.ex p = some x → x.head < s.heads
  untold : ∀ p x, s.ex p = some x → Untold log x.head
  unused : ∀ n, s.heads ≤ n → Untold log n
  told : ToldOnce log
  /-- No exchange is forgotten without an ending. -/
  accounted : ∀ n < s.heads, (∃ p x, s.ex p = some x ∧ x.head = n) ∨ ∃ cause unfinished, .ended n cause unfinished ∈ log

theorem abortInv_init (L : Layout) : AbortInv L (.init L) [] := by
  have hnone : ∀ p, (AbortServer.init L).ex p = none := by
    intro p
    simp only [AbortServer.init, AbortServer.ex, List.getD_eq_getElem?_getD, List.getElem?_replicate]
    split_ifs <;> rfl
  refine ⟨by simp [AbortServer.init], rfl, fun pre n h => ?_, Bounded.nil L _, ?_, ?_, ?_,
    fun n _ => ⟨rfl, nofun⟩, nofun, nofun⟩
  · simp at h
  · intro p q x y hx
    rw [hnone] at hx
    cases hx
  · intro p x hx
    rw [hnone] at hx
    cases hx
  · intro p x hx
    rw [hnone] at hx
    cases hx

theorem openCount_le (s : AbortServer) : s.openCount ≤ s.exchanges.length := by
  unfold AbortServer.openCount
  induction s.exchanges with
  | nil => exact Nat.le_refl 0
  | cons x xs ih =>
    simp only [List.map_cons, List.sum_cons, List.length_cons]
    split_ifs <;> omega

theorem Untold.append {log more : List Entry} {n : Nat} (h : Untold log n) (hcount : raisedCount more n = 0)
    (hended : ∀ cause unfinished, .ended n cause unfinished ∉ more) : Untold (log ++ more) n :=
  ⟨by rw [raisedCount_append, h.1, hcount], fun c u hmem =>
    (List.mem_append.mp hmem).elim (h.2 c u) (hended c u)⟩

theorem ToldOnce.append {log more : List Entry} (h : ToldOnce log) (hmore : ∀ n, Untold more n) :
    ToldOnce (log ++ more) := by
  intro n c u hmem
  rcases List.mem_append.mp hmem with hmem | hmem
  · rw [raisedCount_append, (hmore n).1, Nat.add_zero]
    exact h n c u hmem
  · exact absurd hmem ((hmore n).2 c u)

theorem flush_spec (queue : List Waiting) (accepts : List Bool) :
    written (AbortServer.flush queue accepts).2.1 ++ (AbortServer.flush queue accepts).1.map (·.abort) =
        queue.map (·.abort) ∧
      (AbortServer.flush queue accepts).1 <:+ queue ∧ raisedOf (AbortServer.flush queue accepts).2.1 = [] ∧
      ∀ e ∈ (AbortServer.flush queue accepts).2.1, ∃ a, e = .abort a := by
  induction queue generalizing accepts with
  | nil => exact ⟨rfl, List.suffix_rfl, rfl, nofun⟩
  | cons w queue ih =>
    rw [AbortServer.flush]
    split_ifs
    · obtain ⟨hqueue, hsuffix, hraised, hall⟩ := ih accepts.tail
      refine ⟨?_, hsuffix.trans (List.suffix_cons w queue), hraised, ?_⟩
      · change w.abort :: (written _ ++ _) = _
        rw [hqueue, List.map_cons]
      · intro e he
        rcases List.mem_cons.mp he with rfl | he
        · exact ⟨w.abort, rfl⟩
        · exact hall e he
    · exact ⟨rfl, List.suffix_rfl, rfl, nofun⟩

theorem untold_aborts {more : List Entry} (hraised : raisedOf more = []) (hall : ∀ e ∈ more, ∃ a, e = .abort a)
    (n : Nat) : Untold more n := by
  refine ⟨by rw [raisedCount, hraised]; rfl, fun c u hmem => ?_⟩
  obtain ⟨a, ha⟩ := hall _ hmem
  cases ha

theorem AbortInv.flushed (h : AbortInv L s log) (accepts : List Bool) : AbortInv L (s.flushAborts accepts).1 (log ++ (s.flushAborts accepts).2.1) := by
  obtain ⟨hqueue, hsuffix, hraised, hall⟩ := flush_spec s.queue accepts
  have hun := untold_aborts hraised hall
  refine ⟨h.size, ?_, ?_, h.bound.suffix hsuffix, h.apart, h.known,
    fun p x hx => (h.untold p x hx).append (hun _).1 (hun _).2,
    fun n hn => (h.unused n hn).append (hun _).1 (hun _).2, h.told.append hun, fun n hn => ?_⟩
  · change written (log ++ _) ++ (AbortServer.flush s.queue accepts).1.map (·.abort) = _
    rw [written_append, raisedOf_append, List.append_assoc]
    change written log ++ (written (AbortServer.flush s.queue accepts).2.1 ++ _) =
      raisedOf log ++ raisedOf (AbortServer.flush s.queue accepts).2.1
    rw [hqueue, hraised, List.append_nil]
    exact h.order
  · refine h.heads.append fun n hn => ?_
    obtain ⟨a, ha⟩ := hall _ hn
    cases ha
  · exact (h.accounted n hn).imp_right fun ⟨c, u, hmem⟩ => ⟨c, u, List.mem_append_left _ hmem⟩

/-! ## The places -/

theorem ex_set (s : AbortServer) (p q : Nat) (x : Option Ex) :
    (q = p ∧ (s.exchanges.set p x).getD q none = x) ∨ (s.exchanges.set p x).getD q none = s.ex q :=
  Table.getD_set_cases s.exchanges p q x none

theorem openCount_set (s : AbortServer) (hp : p < s.exchanges.length) (x : Option Ex) :
    ((s.exchanges.set p x).map fun y => if y.isSome then 1 else 0).sum + (if (s.ex p).isSome then 1 else 0) =
      s.openCount + if x.isSome then 1 else 0 :=
  Table.sum_map_set (fun y : Option Ex => if y.isSome then 1 else 0) x none hp

theorem lt_of_ex {x : Ex} (h : s.ex p = some x) : p < s.exchanges.length := by
  refine Table.lt_of_getD_ne (d := none) ?_
  change s.ex p ≠ none
  simp [h]

theorem AbortInv.marked (h : AbortInv L s log) {x y : Ex} (hx : s.ex p = some x) (hhead : y.head = x.head) :
    AbortInv L { s with exchanges := s.exchanges.set p (some y) } log := by
  have hread : ∀ q z, ({ s with exchanges := s.exchanges.set p (some y) } : AbortServer).ex q = some z →
      ∃ z', s.ex q = some z' ∧ z.head = z'.head := by
    intro q z hz
    rcases ex_set s p q (some y) with ⟨rfl, heq⟩ | heq
    · rw [AbortServer.ex, heq] at hz
      cases hz
      exact ⟨x, hx, hhead⟩
    · rw [AbortServer.ex, heq] at hz
      exact ⟨z, hz, rfl⟩
  have hcount : ({ s with exchanges := s.exchanges.set p (some y) } : AbortServer).openCount = s.openCount := by
    have := openCount_set s (lt_of_ex hx) (some y)
    rw [hx] at this
    simpa [AbortServer.openCount] using this
  refine ⟨by simp [h.size], h.order, h.heads, h.bound.mono (Nat.le_of_eq hcount), ?_, ?_, ?_, h.unused, h.told,
    fun n hn => ?_⟩
  · intro q r a b ha hb hab
    obtain ⟨a', ha', hah⟩ := hread q a ha
    obtain ⟨b', hb', hbh⟩ := hread r b hb
    exact h.apart q r a' b' ha' hb' (by omega)
  · intro q a ha
    obtain ⟨a', ha', hah⟩ := hread q a ha
    rw [hah]
    exact h.known q a' ha'
  · intro q a ha
    obtain ⟨a', ha', hah⟩ := hread q a ha
    rw [hah]
    exact h.untold q a' ha'
  · refine (h.accounted n hn).imp_left fun ⟨q, z, hz, hzn⟩ => ?_
    by_cases hq : q = p
    · rw [hq, hx] at hz
      cases hz
      exact ⟨p, y, Table.getD_set_self (lt_of_ex hx), hhead.trans hzn⟩
    · exact ⟨q, z, (Table.getD_set_ne hq).trans hz, hzn⟩

theorem AbortInv.opened (h : AbortInv L s log)
    (hp : s.exchanges[p]? = some none) (hempty : s.queue = []) (hasBody : Bool) :
    AbortInv L { s with
      exchanges := s.exchanges.set p (some { head := s.heads, reqDone := !hasBody })
      heads := s.heads + 1 } (log ++ [Entry.head s.heads]) := by
  have hread : ∀ q z, (s.exchanges.set p (some { head := s.heads, reqDone := !hasBody })).getD q none = some z →
      (q = p ∧ z.head = s.heads) ∨ s.ex q = some z := by
    intro q z hz
    rcases ex_set s p q (some { head := s.heads, reqDone := !hasBody }) with ⟨rfl, heq⟩ | heq
    · rw [heq] at hz
      cases hz
      exact .inl ⟨rfl, rfl⟩
    · rw [heq] at hz
      exact .inr hz
  have hun : ∀ n, Untold [.head s.heads] n := fun n => ⟨rfl, by simp⟩
  refine ⟨by simp [h.size], ?_, h.heads.concat fun n _ => ?_, hempty ▸ Bounded.nil L _, ?_, ?_, ?_, ?_, h.told.append hun, fun n hn => ?_⟩
  · have horder := h.order
    simpa [written, raisedOf, AbortServer.waiting] using horder
  · have horder := h.order
    rwa [AbortServer.waiting, hempty, List.map_nil, List.append_nil] at horder
  · intro q r a b ha hb hab
    rcases hread q a ha with ⟨hq, hah⟩ | ha'
    · rcases hread r b hb with ⟨hr, -⟩ | hb'
      · rw [hq, hr]
      · have := h.known r b hb'
        omega
    · rcases hread r b hb with ⟨-, hbh⟩ | hb'
      · have := h.known q a ha'
        omega
      · exact h.apart q r a b ha' hb' hab
  · intro q a ha
    rcases hread q a ha with ⟨-, hah⟩ | ha
    · exact hah ▸ Nat.lt_succ_self _
    · exact Nat.lt_succ_of_lt (h.known q a ha)
  · intro q a ha
    rcases hread q a ha with ⟨-, hah⟩ | ha
    · rw [hah]
      exact (h.unused _ (Nat.le_refl _)).append (hun _).1 (hun _).2
    · exact (h.untold q a ha).append (hun _).1 (hun _).2
  · intro n hn
    exact (h.unused n (Nat.le_of_succ_le hn)).append (hun n).1 (hun n).2
  · rcases Nat.lt_succ_iff_lt_or_eq.mp hn with hlt | heq
    · rcases h.accounted n hlt with ⟨q, z, hz, hzn⟩ | ⟨c, u, hmem⟩
      · have hq : q ≠ p := by
          intro heq
          rw [heq, AbortServer.ex, List.getD_eq_getElem?_getD, hp] at hz
          cases hz
        exact .inl ⟨q, z, (Table.getD_set_ne hq).trans hz, hzn⟩
      · exact .inr ⟨c, u, List.mem_append_left _ hmem⟩
    · exact .inl ⟨p, _, Table.getD_set_self (List.getElem?_eq_some_iff.mp hp).1, heq.symm⟩

/-! ## Ending an exchange -/

theorem places_le_abortQueue (L : Layout) : L.places ≤ L.abortQueue := by
  rw [Layout.places, Layout.abortQueue, Nat.mul_add, Nat.mul_one]
  omega

section

variable (h : AbortInv L s log)

include h

theorem AbortInv.aborted {x : Ex} (hx : s.ex p = some x) (a : Abort) (accepts : List Bool) :
    ∃ queue more, (s.abort L a accepts).1 = { s with queue := queue } ∧
      (s.abort L a accepts).2.1 = .raised a :: more ∧ (more = [] ∨ more = [.abort a]) ∧
      written more ++ queue.map (·.abort) = s.waiting ++ [a] ∧ Bounded L (s.openCount - 1) queue := by
  have hopen : 1 ≤ s.openCount := by
    have := openCount_set s (lt_of_ex hx) none
    rw [hx] at this
    simp at this
    omega
  have hplaces : s.openCount ≤ L.places := h.size ▸ openCount_le s
  have hcap := places_le_abortQueue L
  have hbound : Bounded L (s.openCount - 1 + 1) s.queue := h.bound.mono (by omega)
  have hqueued : Bounded L (s.openCount - 1) (s.queue ++ [⟨a, s.openCount⟩]) :=
    hbound.concat ⟨Nat.le_of_eq (Nat.sub_add_cancel hopen), hplaces⟩
  unfold AbortServer.abort AbortServer.waiting
  cases hqueue : s.queue with
  | nil =>
    rw [hqueue, List.nil_append] at hqueued
    by_cases haccept : accepts.headD false = true
    · exact ⟨[], [.abort a], by rw [if_pos rfl, if_pos haccept, ← hqueue], by rw [if_pos rfl, if_pos haccept], .inr rfl,
        rfl, Bounded.nil L _⟩
    · rw [if_pos rfl, if_neg haccept, if_pos (show [].length < L.abortQueue by rw [List.length_nil]; omega)]
      exact ⟨[⟨a, s.openCount⟩], [], rfl, rfl, .inl rfl, rfl, hqueued⟩
  | cons w rest =>
    have hfirst := h.bound [] w rest hqueue
    rw [if_neg (List.cons_ne_nil w rest), if_pos (by rw [List.length_cons]; omega)]
    exact ⟨w :: rest ++ [⟨a, s.openCount⟩], [], rfl, rfl, .inl rfl, by simp [written], hqueue ▸ hqueued⟩

theorem AbortInv.freed {x : Ex} (hx : s.ex p = some x) {queue : List Waiting} (more : List Entry) {cause : Ending} {unfinished : Bool}
    (horder : written more ++ queue.map (·.abort) = s.waiting ++ raisedOf more) (hheads : ∀ n, .head n ∉ more)
    (hbound : Bounded L (s.openCount - 1) queue)
    (hended : ∀ n c u, .ended n c u ∉ more) (hother : ∀ n, n ≠ x.head → raisedCount more n = 0)
    (hown : raisedCount more x.head = if (cause.reason unfinished).isSome then 1 else 0) :
    AbortInv L { s with exchanges := s.exchanges.set p none, queue := queue }
      (log ++ (more ++ [Entry.ended x.head cause unfinished])) := by
  have hread : ∀ q z, (s.exchanges.set p none).getD q none = some z → q ≠ p ∧ s.ex q = some z := by
    intro q z hz
    by_cases hq : q = p
    · rw [hq, Table.getD_set_self (lt_of_ex hx)] at hz
      cases hz
    · rw [Table.getD_set_ne hq] at hz
      exact ⟨hq, hz⟩
  have hun : ∀ n, n ≠ x.head → Untold (more ++ [Entry.ended x.head cause unfinished]) n := by
    intro n hn
    refine ⟨by rw [raisedCount_append, hother n hn]; rfl, fun c u hmem => ?_⟩
    rcases List.mem_append.mp hmem with hmem | hmem
    · exact hended n c u hmem
    · simp only [List.mem_singleton, Entry.ended.injEq] at hmem
      exact hn hmem.1
  refine ⟨by simp [h.size], ?_, ?_, hbound.mono ?_, ?_, ?_, ?_, ?_, ?_, fun n hn => ?_⟩
  · have hbefore := h.order
    simp only [written_append, raisedOf_append, List.append_assoc]
    rw [AbortServer.waiting]
    rw [show written [Entry.ended x.head cause unfinished] = [] from rfl,
      show raisedOf [Entry.ended x.head cause unfinished] = [] from rfl, List.nil_append, List.append_nil,
      horder, ← List.append_assoc, hbefore]
  · refine h.heads.append fun n hn => ?_
    rcases List.mem_append.mp hn with hn | hn
    · exact hheads n hn
    · simp at hn
  · have hcount := openCount_set s (lt_of_ex hx) none
    rw [hx] at hcount
    simp only [Option.isSome_some, if_true, Option.isSome_none, Bool.false_eq_true, if_false] at hcount
    change ((s.exchanges.set p none).map fun y => if y.isSome then 1 else 0).sum ≤ _
    omega
  · intro q r a b ha hb hab
    exact h.apart q r a b (hread q a ha).2 (hread r b hb).2 hab
  · intro q a ha
    exact h.known q a (hread q a ha).2
  · intro q a ha
    obtain ⟨hq, ha'⟩ := hread q a ha
    have hne : a.head ≠ x.head := fun heq => hq (h.apart q p a x ha' hx heq)
    exact (h.untold q a ha').append (hun _ hne).1 (hun _ hne).2
  · intro n hn
    have hne : n ≠ x.head := Nat.ne_of_gt (Nat.lt_of_lt_of_le (h.known p x hx) hn)
    exact (h.unused n hn).append (hun n hne).1 (hun n hne).2
  · intro n c u hmem
    by_cases hn : n = x.head
    · subst hn
      obtain ⟨hzero, hnot⟩ := h.untold p x hx
      rcases List.mem_append.mp hmem with hmem | hmem
      · exact absurd hmem (hnot c u)
      · rcases List.mem_append.mp hmem with hmem | hmem
        · exact absurd hmem (hended _ c u)
        · simp only [List.mem_singleton, Entry.ended.injEq, true_and] at hmem
          obtain ⟨rfl, rfl⟩ := hmem
          rw [raisedCount_append, raisedCount_append, hzero, hown]
          simp [raisedCount, raisedOf]
    · rcases List.mem_append.mp hmem with hmem | hmem
      · rw [raisedCount_append, (hun n hn).1, Nat.add_zero]
        exact h.told n c u hmem
      · exact absurd hmem ((hun n hn).2 c u)
  · rcases h.accounted n hn with ⟨q, z, hz, hzn⟩ | ⟨c, u, hmem⟩
    · by_cases hq : q = p
      · rw [hq, hx] at hz
        cases hz
        exact .inr ⟨cause, unfinished, by simp [hzn]⟩
      · exact .inl ⟨q, z, (Table.getD_set_ne hq).trans hz, hzn⟩
    · exact .inr ⟨c, u, List.mem_append_left _ hmem⟩

theorem AbortInv.endedAt (p : Nat) (cause : Ending) (accepts : List Bool) :
    AbortInv L (s.endAt L p cause accepts).1 (log ++ (s.endAt L p cause accepts).2.1) := by
  unfold AbortServer.endAt
  cases hx : s.ex p with
  | none => simpa using h
  | some x =>
    by_cases hcan : cause.can (L.isH1 p) x = true
    swap
    · simpa [hcan] using h
    simp only [hcan, if_true]
    cases hreason : cause.reason !x.finished with
    | none =>
      dsimp only
      refine h.freed hx [] (by simp [written, raisedOf, AbortServer.waiting]) nofun (h.bound.mono (Nat.sub_le _ 1))
        nofun (fun _ _ => rfl) ?_
      simp [hreason, raisedCount, raisedOf]
    | some r =>
      obtain ⟨queue, more, hstate, hlog, hmore, hqueue, hbound⟩ :=
        h.aborted hx { head := x.head, reason := r } accepts
      simp only [hstate, hlog]
      have hraised : raisedOf (.raised { head := x.head, reason := r } :: more) = [{ head := x.head, reason := r }] := by
        rcases hmore with rfl | rfl <;> rfl
      refine h.freed hx _ ?_ ?_ hbound ?_ ?_ ?_
      · rw [hraised]
        exact hqueue
      · rcases hmore with rfl | rfl <;> simp
      · rcases hmore with rfl | rfl <;> simp
      · intro n hn
        rw [raisedCount, hraised]
        simp [Ne.symm hn]
      · rw [raisedCount, hraised, hreason]
        simp

theorem AbortInv.endedAll (cause : Ending) (places : List Nat) (accepts : List Bool) :
    AbortInv L (s.endAll L cause places accepts).1 (log ++ (s.endAll L cause places accepts).2) := by
  induction places generalizing s log accepts with
  | nil => simpa [AbortServer.endAll] using h
  | cons p places ih =>
    have hstep := ih (h.endedAt p cause accepts) (s.endAt L p cause accepts).2.2
    simpa [AbortServer.endAll] using hstep

theorem AbortInv.headSent (p : Nat) (hasBody : Bool) (accepts : List Bool) :
    AbortInv L (s.sendHead p hasBody accepts).1 (log ++ (s.sendHead p hasBody accepts).2) := by
  unfold AbortServer.sendHead
  split
  · rename_i hfree
    have hflush := h.flushed accepts
    dsimp only
    split_ifs with hsend
    · have hopened := hflush.opened (show (s.flushAborts accepts).1.exchanges[p]? = some none from hfree) hsend.1 hasBody
      rwa [List.append_assoc] at hopened
    · exact hflush
  · simpa using h

theorem AbortInv.stepped (e : AbortEvent) :
    AbortInv L (abortStep L s e).1 (log ++ (abortStep L s e).2) := by
  cases e with
  | sendHead p hasBody accepts => exact h.headSent p hasBody accepts
  | reqDone p =>
    cases hx : s.ex p with
    | none => simpa [abortStep, hx] using h
    | some x => simpa [abortStep, hx] using h.marked hx (show { x with reqDone := true }.head = x.head from rfl)
  | respDone p =>
    cases hx : s.ex p with
    | none => simpa [abortStep, hx] using h
    | some x => simpa [abortStep, hx] using h.marked hx (show { x with respDone := true }.head = x.head from rfl)
  | ends p cause accepts => exact h.endedAt p cause accepts
  | linkDown => exact h.endedAll .linkDown _ []
  | release i reason accepts => exact h.endedAll (.released reason) _ accepts
  | flush accepts => exact h.flushed accepts

end

/-- The endings the application knows of without an ABORT: its response went out whole, or it gave the exchange up
itself. -/
def Ending.known : Ending → Bool
  | .delivered => true
  | .applicationAbort => true
  | .linkDown => true
  | _ => false

theorem reason_isSome {cause : Ending} (h : cause.known = false) : (cause.reason true).isSome = true := by
  cases cause <;> first | rfl | cases h

theorem reason_of_known {cause : Ending} (h : cause.known = true) (unfinished : Bool) :
    cause.reason unfinished = none := by
  cases cause <;> first | rfl | cases h

theorem AbortInv.raisedCount_le (h : AbortInv L s log) (n : Nat) :
    raisedCount log n ≤ 1 := by
  by_cases hn : n < s.heads
  · rcases h.accounted n hn with ⟨p, x, hx, rfl⟩ | ⟨cause, unfinished, hmem⟩
    · rw [(h.untold p x hx).1]
      exact Nat.zero_le 1
    · rw [h.told n cause unfinished hmem]
      split_ifs <;> omega
  · rw [(h.unused n (Nat.le_of_not_lt hn)).1]
    exact Nat.zero_le 1

/-- In every run: a HEAD that was sent belongs to an open exchange or to one that was ended. One ended unfinished is
told so by exactly one ABORT, unless the application knows; aborts go in order and none is dropped; no HEAD is sent
while one waits, and no more wait than exchanges were open when the first of them was queued. -/
theorem aborts_told_once (L : Layout) (es : List AbortEvent) :
    let s := ((abortMachine L).run (.init L) es).1
    let log := ((abortMachine L).run (.init L) es).2
    (∀ n < s.heads, (∃ p x, s.ex p = some x ∧ x.head = n) ∨
        ∃ cause unfinished, .ended n cause unfinished ∈ log) ∧
      (∀ n cause, .ended n cause true ∈ log → raisedCount log n = if cause.known then 0 else 1) ∧
      (∀ n, raisedCount log n ≤ 1) ∧ written log ++ s.waiting = raisedOf log ∧ HeadsAfterAborts log ∧
      (∀ first ∈ s.queue.head?, s.queue.length ≤ first.openThen) ∧ s.queue.length ≤ L.abortQueue := by
  have h : AbortInv L ((abortMachine L).run (.init L) es).1 ((abortMachine L).run (.init L) es).2 := by
    have hrun := (abortMachine L).run_log_invariant (P := fun _ _ => True) (I := AbortInv L) (l := [])
      (fun s l e hinv _ => hinv.stepped e) (abortInv_init L)
      ((abortMachine L).along_of_forall (fun _ _ => trivial) _ es)
    rwa [List.nil_append] at hrun
  generalize ((abortMachine L).run (.init L) es).1 = s at h
  refine ⟨h.accounted, fun n cause hmem => ?_, h.raisedCount_le, h.order, h.heads, fun first hfirst => ?_, ?_⟩
  · rw [h.told n cause true hmem]
    cases hknown : cause.known with
    | true => simp [reason_of_known hknown]
    | false => simp [reason_isSome hknown]
  · obtain ⟨rest, hqueue⟩ := List.head?_eq_some_iff.mp hfirst
    have := h.bound [] first rest hqueue
    rw [hqueue, List.length_cons]
    omega
  · have hplaces := places_le_abortQueue L
    cases hqueue : s.queue with
    | nil => exact Nat.zero_le _
    | cons first rest =>
      have := h.bound [] first rest hqueue
      rw [List.length_cons]
      omega

/-- A response goes out whole before the request's body has ended: the exchange is over, and the application is not
told. -/
theorem response_before_request_untold :
    ∃ es : List AbortEvent,
      .ended 0 .delivered true ∈ ((abortMachine ⟨1, 0, 0⟩).run (.init ⟨1, 0, 0⟩) es).2 ∧
        raisedOf ((abortMachine ⟨1, 0, 0⟩).run (.init ⟨1, 0, 0⟩) es).2 = [] :=
  ⟨[.sendHead 0 true [true], .respDone 0, .ends 0 .delivered []], by decide, by decide⟩

end Wave.Http.Aborts
