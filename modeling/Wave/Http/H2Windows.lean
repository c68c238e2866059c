import Mathlib.Algebra.BigOperators.Group.List.Basic
import Wave.Http.H2Conn

/-! # The peer's flow-control windows (`http/server/h2.rs`)

Most steps leave both windows alone: `Calm` says so once, and is closed under composition. -/

namespace Wave.Http.H2

open Lib
open BodyCache (rendered)

variable {t : Site} {c c' d : H2State} {i j id n : Nat} {s : StreamSlot}

/-! ## What the peer allowed and what went out -/

namespace Ev

def sent : Ev → Int
  | .out (.data _ n _ _) => n
  | _ => 0

def sentOn (id : Nat) : Ev → Int
  | .out (.data k n _ _) => if k = id then n else 0
  | _ => 0

def creditOn (id : Nat) : Ev → Int
  | .credit k n => if k = id then n else 0
  | _ => 0

def initial (v : Int) : Ev → Int
  | .initialWindow w => w
  | _ => v

end Ev

def sent (h : List Ev) : Int := (h.map Ev.sent).sum

def sentOn (id : Nat) (h : List Ev) : Int := (h.map (Ev.sentOn id)).sum

/-- The WINDOW_UPDATE deltas of a stream, or of the connection when `id` is 0. -/
def creditOn (id : Nat) (h : List Ev) : Int := (h.map (Ev.creditOn id)).sum

def initialOf (h : List Ev) : Int := h.foldl Ev.initial 65535

/-- Every DATA frame that carries bytes was within both windows when it was staged. -/
def Within (h : List Ev) : Prop :=
  ∀ l id n fin piece, l ++ [Ev.out (.data id n fin piece)] <+: h → 0 < n →
    sent l + n ≤ 65535 + creditOn 0 l ∧ sentOn id l + n ≤ initialOf l + creditOn id l

section sums
variable (h : List Ev) (e : Ev)

@[simp] theorem sent_concat : sent (h ++ [e]) = sent h + e.sent := by simp [sent]

@[simp] theorem sentOn_concat : sentOn id (h ++ [e]) = sentOn id h + e.sentOn id := by simp [sentOn]

@[simp] theorem creditOn_concat : creditOn id (h ++ [e]) = creditOn id h + e.creditOn id := by simp [creditOn]

@[simp] theorem initialOf_concat : initialOf (h ++ [e]) = e.initial (initialOf h) := by simp [initialOf]

end sums

theorem within_concat {h : List Ev} {e : Ev} (hw : Within h)
    (he : ∀ id n fin piece, e = .out (.data id n fin piece) → 0 < n →
      sent h + n ≤ 65535 + creditOn 0 h ∧ sentOn id h + n ≤ initialOf h + creditOn id h) :
    Within (h ++ [e]) := by
  intro l id n fin piece hl hn
  rcases List.prefix_concat_iff.mp hl with heq | hpre
  · obtain ⟨rfl, hlast⟩ := List.append_inj' heq rfl
    exact he id n fin piece (List.cons.inj hlast).1.symm hn
  · exact hw l id n fin piece hpre hn

def Ev.Plain : Ev → Prop
  | .out (.data _ n _ _) => n = 0
  | .initialWindow _ | .credit _ _ => False
  | _ => True

theorem Ev.Plain.zero {e : Ev} (h : e.Plain) :
    e.sent = 0 ∧ (∀ id, e.sentOn id = 0 ∧ e.creditOn id = 0) ∧ ∀ v, e.initial v = v := by
  match e, h with
  | .out (.data _ _ _ _), rfl => simp [Ev.sent, Ev.sentOn, Ev.creditOn, Ev.initial]
  | .out (.control _), _ | .out (.windowUpdate _), _ | .out (.headers _ _ _), _ | .out (.rstStream _ _), _
  | .opened _, _ | .peerReset _, _ | .passed _ _, _ => exact ⟨rfl, fun _ => ⟨rfl, rfl⟩, fun _ => rfl⟩

theorem within_plain {h es : List Ev} (hw : Within h) (hes : ∀ e ∈ es, e.Plain) : Within (h ++ es) := by
  induction es generalizing h with
  | nil => simpa using hw
  | cons e es ih =>
    rw [append_cons]
    refine ih (within_concat hw ?_) fun e' he' => hes e' (mem_cons_of_mem e he')
    rintro id n fin piece rfl hn
    exact absurd (hes _ mem_cons_self) (Nat.ne_of_gt hn)

theorem sums_plain {h es : List Ev} (hes : ∀ e ∈ es, e.Plain) :
    sent (h ++ es) = sent h ∧ (∀ id, sentOn id (h ++ es) = sentOn id h ∧ creditOn id (h ++ es) = creditOn id h) ∧
      initialOf (h ++ es) = initialOf h := by
  induction es generalizing h with
  | nil => simp
  | cons e es ih =>
    obtain ⟨h1, h2, h3⟩ := ih (h := h ++ [e]) fun e' he' => hes e' (mem_cons_of_mem e he')
    obtain ⟨p1, p2, p3⟩ := (hes e mem_cons_self).zero
    rw [append_cons]
    refine ⟨?_, fun id => ⟨?_, ?_⟩, ?_⟩
    · rw [h1, sent_concat, p1, add_zero]
    · rw [(h2 id).1, sentOn_concat, (p2 id).1, add_zero]
    · rw [(h2 id).2, creditOn_concat, (p2 id).2, add_zero]
    · rw [h3, initialOf_concat, p3]

structure Metered (c : H2State) : Prop extends Tidy c where
  conn : c.sendWindow ≤ 65535 + creditOn 0 c.history - sent c.history
  conn_nonneg : 0 ≤ c.sendWindow
  stream : ∀ i, (c.slot i).id ≠ 0 →
    (c.slot i).sendWindow ≤
      initialOf c.history + creditOn (c.slot i).id c.history - sentOn (c.slot i).id c.history
  /-- No SETTINGS can take a stream's window past the lower end of its type. -/
  floor : ∀ i, (c.slot i).id ≠ 0 → c.peerInitialWindowSize - I32_MAX ≤ (c.slot i).sendWindow
  initial : initialOf c.history = c.peerInitialWindowSize
  initial_le : 0 ≤ c.peerInitialWindowSize ∧ c.peerInitialWindowSize ≤ I32_MAX
  unsent : c.closing = false → ∀ id, c.lastStreamId < id → sentOn id c.history = 0
  within : Within c.history

theorem creditOn_nonneg (id : Nat) (h : List Ev) : 0 ≤ creditOn id h := by
  induction h with
  | nil => exact le_rfl
  | cons e h ih =>
    have he : 0 ≤ e.creditOn id := by
      unfold Ev.creditOn
      split
      · split_ifs <;> omega
      · exact le_rfl
    change 0 ≤ e.creditOn id + creditOn id h
    omega

/-! ## Steps that leave the windows alone -/

structure SameStream (s s' : StreamSlot) : Prop where
  id : s'.id = s.id
  window : s'.sendWindow = s.sendWindow
  idle : s'.state = .idle ↔ s.state = .idle

structure Calm (c c' : H2State) : Prop where
  history : ∃ es, c'.history = c.history ++ es ∧ ∀ e ∈ es, e.Plain
  window : c'.sendWindow = c.sendWindow
  initial : c'.peerInitialWindowSize = c.peerInitialWindowSize
  last : c'.lastStreamId = c.lastStreamId
  closing : c'.closing = false → c.closing = false
  slots : ∀ i, Vacant (c'.slot i) ∨ SameStream (c.slot i) (c'.slot i)

theorem SameStream.refl (s : StreamSlot) : SameStream s s := ⟨rfl, rfl, .rfl⟩

theorem Calm.trans (h : Calm c c') (h' : Calm c' d) : Calm c d := by
  obtain ⟨es, hes, hp⟩ := h.history
  obtain ⟨es', hes', hp'⟩ := h'.history
  refine ⟨⟨es ++ es', by rw [hes', hes, append_assoc], ?_⟩, h'.window.trans h.window, h'.initial.trans h.initial,
    h'.last.trans h.last, h.closing ∘ h'.closing, fun i => ?_⟩
  · intro e he
    exact (mem_append.mp he).elim (hp e) (hp' e)
  · rcases h'.slots i with hv | hs'
    · exact .inl hv
    · rcases h.slots i with hv | hs
      · exact .inl ⟨hs'.id.trans hv.1, hs'.idle.mpr hv.2⟩
      · exact .inr ⟨hs'.id.trans hs.id, hs'.window.trans hs.window, hs'.idle.trans hs.idle⟩

theorem Tidy.calm (h : Tidy c) (hc : Calm c c') : Tidy c' := by
  refine ⟨fun i => ?_, fun i j hi hij => ?_, fun hcl i => ?_⟩
  · rcases hc.slots i with hv | hs
    · simp [hv.1, hv.2]
    · rw [hs.idle, hs.id]
      exact h.vacant i
  · rcases hc.slots i with hv | hs
    · exact absurd hv.1 hi
    rcases hc.slots j with hv | hs'
    · exact absurd (hij.trans hv.1) hi
    rw [hs.id] at hi hij
    rw [hs'.id] at hij
    exact h.distinct i j hi hij
  · rw [hc.last]
    rcases hc.slots i with hv | hs
    · rw [hv.1]
      exact Nat.zero_le _
    · rw [hs.id]
      exact h.known (hc.closing hcl) i

theorem Metered.calm (h : Metered c) (hc : Calm c c') : Metered c' := by
  obtain ⟨es, hes, hp⟩ := hc.history
  obtain ⟨s1, s2, s3⟩ := sums_plain (h := c.history) hp
  refine ⟨h.toTidy.calm hc, ?_, ?_, fun i hi => ?_, fun i hi => ?_, ?_, ?_, fun hcl id hid => ?_, ?_⟩
  · rw [hc.window, hes, s1, (s2 0).2]
    exact h.conn
  · rw [hc.window]
    exact h.conn_nonneg
  · rcases hc.slots i with hv | hs
    · exact absurd hv.1 hi
    rw [hs.id] at hi ⊢
    rw [hs.window, hes, s3, (s2 _).1, (s2 _).2]
    exact h.stream i hi
  · rcases hc.slots i with hv | hs
    · exact absurd hv.1 hi
    rw [hs.id] at hi
    rw [hs.window, hc.initial]
    exact h.floor i hi
  · rw [hes, s3, hc.initial]
    exact h.initial
  · rw [hc.initial]
    exact h.initial_le
  · rw [hes, (s2 id).1]
    exact h.unsent (hc.closing hcl) id (hc.last ▸ hid)
  · rw [hes]
    exact within_plain h.within hp

open H2State

theorem Calm.of_slots (hh : c'.history = c.history) (hw : c'.sendWindow = c.sendWindow)
    (hi : c'.peerInitialWindowSize = c.peerInitialWindowSize) (hl : c'.lastStreamId = c.lastStreamId)
    (hc : c'.closing = c.closing) (hs : ∀ i, Vacant (c'.slot i) ∨ SameStream (c.slot i) (c'.slot i)) : Calm c c' :=
  ⟨⟨[], by simp [hh], nofun⟩, hw, hi, hl, fun h => hc ▸ h, hs⟩

theorem Calm.refl (c : H2State) : Calm c c :=
  .of_slots rfl rfl rfl rfl rfl fun _ => .inr (.refl _)

theorem calm_setSlot (h : Vacant s ∨ SameStream (c.slot i) s) : Calm c (c.setSlot i s) := by
  refine .of_slots rfl rfl rfl rfl rfl ?_
  exact slot_setSlot_forall (P := fun j s => Vacant s ∨ SameStream (c.slot j) s) h fun _ => .inr (.refl _)

theorem calm_freeSlot : Calm c (c.freeSlot i) := calm_setSlot (.inl ⟨rfl, rfl⟩)

theorem calm_put (hs : c.staged = []) {fs : List OutFrame} (hf : ∀ f ∈ fs, (Ev.out f).Plain) : Calm c (c.put fs) := by
  refine ⟨⟨fs.map Ev.out, history_put hs fs, fun e he => ?_⟩, rfl, rfl, rfl, id, fun _ => .inr (.refl _)⟩
  obtain ⟨f, hfm, rfl⟩ := mem_map.mp he
  exact hf f hfm

theorem calm_note (hs : c.staged = []) {e : Ev} (he : e.Plain) : Calm c (c.note e) :=
  ⟨⟨[e], history_note hs e, fun _ he' => mem_singleton.mp he' ▸ he⟩, rfl, rfl, rfl, id, fun _ => .inr (.refl _)⟩

theorem calm_appendRst (t : Site) (c : H2State) (id code : Nat) : Calm c (c.appendRst t id code) := by
  unfold appendRst
  split_ifs
  · exact ⟨⟨[.out (.rstStream id code)], by simp [history], fun e he => mem_singleton.mp he ▸ trivial⟩, rfl, rfl,
      rfl, fun h => h, fun _ => .inr (.refl _)⟩
  · exact .refl c

theorem calm_queueGoaway (hs : c.staged = []) : Calm c c.queueGoaway := by
  have h : Calm c (c.put [.control 8]) := calm_put hs (by simp [Ev.Plain])
  exact ⟨h.history, h.window, h.initial, h.last, nofun, h.slots⟩

theorem calm_emitResponse (t : Site) (hs : c.staged = []) (id : Nat) : Calm c (c.emitResponse t id 0) := by
  unfold emitResponse
  dsimp only
  split_ifs <;> exact calm_put hs (by simp [Ev.Plain])

theorem calm_answer (t : Site) (hs : c.staged = []) (i : Nat) : Calm c (c.answer t i 0) :=
  (calm_emitResponse t hs _).trans calm_freeSlot

theorem calm_resetStream (t : Site) (c : H2State) (i code : Nat) : Calm c (c.resetStream t i code) :=
  (calm_appendRst ..).trans calm_freeSlot

theorem calm_failAppStream (t : Site) (h : (c.slot i).headersSent = true ∨ c.sendLen ≠ 0) :
    Calm c (c.failAppStream t i) := by
  have hno : (!(c.slot i).headersSent && decide (c.sendLen = 0)) = false := by
    rcases h with h | h <;> simp [h]
  unfold failAppStream
  rw [hno]
  exact calm_resetStream t c i _

theorem calm_endTunnel (c : H2State) : Calm c c.endTunnel := by
  have h : Calm c ((c.slotForId c.wsStreamId).elim c c.freeSlot) := by
    cases c.slotForId c.wsStreamId with
    | none => exact .refl c
    | some i => exact calm_freeSlot
  exact ⟨h.history, h.window, h.initial, h.last, h.closing, h.slots⟩

/-! ## Answers the windows are not asked about -/

def TunnelTurn.len : TunnelTurn → Nat
  | .quiet => 0
  | .frame n | .close n => n

def Request.charged (c : H2State) (endStream : Bool) (r : Request) : Bool :=
  r.malformed ||
    match r.websocket with
    | some (.refused n) => endStream || c.wsActive || n = 0
    | some .tunnel => true
    | none => r.dispatchable

def FileOpen.len : FileOpen → Nat
  | .refused n => n
  | _ => 0

def Emit.taken : Emit → Bool
  | .refused _ => false
  | _ => true

def Dispatch.charged (t : Site) (d : Dispatch) : Bool :=
  match d.matched with
  | none => false
  | some r =>
    match t.handler r with
    | .static | .template => !d.tooLong
    | .file => !d.tooLong && d.file.len = 0
    | .app => d.emit.taken
    | _ => false

def Record.headFits (t : Site) : Record → Bool
  | .head _ _ _ frame => frame.any (· ≤ t.sendBufSize)
  | .body _ _ => true

def InFrame.charged (t : Site) (c : H2State) : InFrame → Bool
  | .headers id endHeaders endStream (.request r) =>
    id % 2 = 0 || !endHeaders || id ≤ c.lastStreamId || (c.allocSlot t id).isNone || r.charged c endStream
  | .data id len badPadding _ _ turn =>
    (c.slotForId id).all fun i =>
      let s := c.slot i
      if s.state = .wsActive then turn.len = 0
      else
        badPadding || len = 0 || s.bodyTotal + len ≤ s.bodyLimit || (s.state = .app && s.app.isOpen && s.headersSent)
  | _ => true

/-- DATA payload is written by `step_sending_body` and `compose_app_frames` only, and by the first for its own stream.
-/
def Charged (t : Site) (c : H2State) : Op → Bool
  | .frame f => !c.ready || f.charged t c
  | .dispatch i d => !(c.ready && (c.slot i).state = .pending) || d.charged t
  | .fetch res => !c.idle || res ≠ .error || c.fetchingSlot = none
  | .resume _ => !c.ready || c.captured.all fun p => !(0 < c.avail p.slot) || c.slotForId p.id = some p.slot
  | .timeout i => !(c.idle && (c.slot i).state = .app) || (c.slot i).headersSent
  | .compose i =>
    !(c.idle && (c.slot i).state = .app) || (c.slot i).headersSent || (c.slot i).queue.all (Record.headFits t)
  | .record i r =>
    !(c.attached && (c.slot i).state = .app) || !r.fails (c.slot i) || (c.slot i).headersSent || c.sendLen ≠ 0
  | .fail i =>
    !(c.attached && (c.slot i).state = .app && !(c.slot i).app.respDone) || (c.slot i).headersSent || c.sendLen ≠ 0
  | .tunnel turn => !(c.idle && c.wsActive) || turn.len = 0
  | .envelope n _ => !(c.idle && c.wsFrag = none) || n = 0
  | .fragment n => !(c.idle && c.wsActive) || c.wsFrag = none || n = 0
  | _ => true

theorem calm_wsTurn (hs : c.staged = []) {turn : TunnelTurn} (h : turn.len = 0) : Calm c (c.wsTurn turn) := by
  cases turn with
  | quiet => exact .refl c
  | frame n =>
    obtain rfl : n = 0 := h
    exact calm_put hs (by simp [Ev.Plain])
  | close n =>
    obtain rfl : n = 0 := h
    exact (calm_put hs (by simp [Ev.Plain])).trans (calm_endTunnel _)

theorem calm_setBusy (hb : (c.slot i).state ≠ .idle) (hs : s.state ≠ .idle)
    (hid : s.id = (c.slot i).id) (hw : s.sendWindow = (c.slot i).sendWindow) : Calm c (c.setSlot i s) :=
  calm_setSlot (.inr ⟨hid, hw, iff_of_false hs hb⟩)

theorem calm_placeRequest (t : Site) (hs : c.staged = []) (hb : (c.slot i).state ≠ .idle) (endStream : Bool)
    {r : Request} (h : r.charged c endStream = true) : Calm c (c.placeRequest t i endStream r) := by
  unfold placeRequest
  dsimp only
  generalize hc2 : (c.note (.opened (c.slot i).id)).setSlot i
    { (c.note (.opened (c.slot i).id)).slot i with endStreamIn := endStream, sendsBody := r.sendsBody } = c2
  have h2 : Calm c c2 := hc2 ▸ (calm_note hs (e := .opened (c.slot i).id) trivial).trans (calm_setSlot (.inr ⟨rfl, rfl, .rfl⟩))
  have hs2 : c2.staged = [] := hc2 ▸ hs
  have hw2 : c2.wsActive = c.wsActive := hc2 ▸ rfl
  have hslot : c2.slot i = { c.slot i with endStreamIn := endStream, sendsBody := r.sendsBody } :=
    hc2 ▸ slot_setSlot_self (c := c.note _) hb _
  have hb2 : (c2.slot i).state ≠ .idle := hslot ▸ hb
  unfold Request.charged at h
  by_cases hm : r.malformed = true
  · rw [if_pos hm]
    exact (h2.trans (calm_put hs2 (by simp [Ev.Plain]))).trans calm_freeSlot
  rw [if_neg hm]
  cases hws : r.websocket with
  | none =>
    have hd : r.dispatchable = true := by simpa [hm, hws] using h
    dsimp only
    rw [if_neg (by simp [hd])]
    refine h2.trans (calm_setBusy hb2 ?_ ?_ ?_) <;> split_ifs <;> first | exact hb2 | rfl | nofun
  | some route =>
    dsimp only
    by_cases hbusy : (endStream || c2.wsActive) = true
    · rw [if_pos hbusy]
      exact (h2.trans (calm_put hs2 (by simp [Ev.Plain]))).trans calm_freeSlot
    rw [if_neg hbusy]
    cases route with
    | tunnel =>
      have h3 : Calm c ((c2.put [.headers (c.slot i).id 5 false]).setSlot i { c2.slot i with state := .wsActive }) :=
        (h2.trans (calm_put hs2 (by simp [Ev.Plain]))).trans (calm_setBusy hb2 nofun rfl rfl)
      exact ⟨h3.history, h3.window, h3.initial, h3.last, h3.closing, h3.slots⟩
    | refused n =>
      have hn : n = 0 := by
        rw [hw2] at hbusy
        simp only [not_eq_true] at hm hbusy
        rw [hws] at h
        simpa [hm, hbusy] using h
      subst hn
      exact h2.trans (calm_answer t hs2 i)

theorem calm_handleBody (t : Site) (hs : c.staged = []) (hb : (c.slot i).state ≠ .idle) {len : Nat}
    (badPadding endStream held : Bool)
    (h : (badPadding || len = 0 || (c.slot i).bodyTotal + len ≤ (c.slot i).bodyLimit ||
      ((c.slot i).state = .app && (c.slot i).app.isOpen && (c.slot i).headersSent)) = true) :
    Calm c (c.handleBody t i len badPadding endStream held) := by
  unfold handleBody
  by_cases hp : badPadding = true
  · rw [if_pos hp]
    exact calm_queueGoaway hs
  rw [if_neg hp]
  generalize hs1 : { c.slot i with bodyTotal := (c.slot i).bodyTotal + len } = s1
  dsimp only
  have hb1 : s1.state ≠ .idle := hs1 ▸ hb
  have h1 : Calm c (c.setSlot i s1) := calm_setBusy hb hb1 (hs1 ▸ rfl) (hs1 ▸ rfl)
  have hslot : (c.setSlot i s1).slot i = s1 := slot_setSlot_self hb s1
  have hover : 0 < len ∧ s1.bodyLimit < s1.bodyTotal → (s1.state = .app && s1.app.isOpen && s1.headersSent) = true := by
    intro hover
    subst hs1
    simp only [or_eq_true, decide_eq_true_eq, hp] at h
    rcases h with ((h | h) | h) | h
    · exact absurd h nofun
    · exact absurd hover.1 (by omega)
    · exact absurd hover.2 (Nat.not_lt.mpr h)
    · exact h
  refine h1.trans ?_
  split_ifs with hov hheld hend hopen
  · unfold refuseBody
    rw [hslot]
    dsimp only
    rw [if_pos (hover hov)]
    exact calm_resetStream t _ i _
  · exact calm_resetStream t _ i _
  · exact calm_setBusy (by rwa [hslot]) nofun (by rw [hslot]) (by rw [hslot])
  · exact calm_setBusy (by rwa [hslot]) hb1 (by rw [hslot]) (by rw [hslot])
  · exact .refl _

theorem calm_handleData (t : Site) (hs : c.staged = []) {len : Nat} {badPadding endStream held : Bool}
    {turn : TunnelTurn} (h : InFrame.charged t c (.data id len badPadding endStream held turn) = true) :
    Calm c (c.handleData t id len badPadding endStream held turn) := by
  unfold handleData
  by_cases h0 : id = 0
  · rw [if_pos h0]
    exact calm_queueGoaway hs
  rw [if_neg h0]
  cases hfor : c.slotForId id with
  | none =>
    dsimp only
    split_ifs
    · exact .refl c
    · exact calm_put hs (by simp [Ev.Plain])
  | some i =>
    have hb := (slotForId_some hfor).2.1
    simp only [InFrame.charged, hfor, Option.all_some] at h
    dsimp only
    split_ifs at h ⊢ with hws
    · exact calm_wsTurn hs (of_decide_eq_true h)
    · exact calm_handleBody t hs hb badPadding endStream held h

theorem calm_handleRstStream (hs : c.staged = []) (id : Nat) : Calm c (c.handleRstStream id) := by
  unfold handleRstStream
  dsimp only
  have h1 : Calm c (c.note (.peerReset id)) := calm_note hs trivial
  cases (c.note (.peerReset id)).slotForId id with
  | none => exact h1
  | some i =>
    simp only [Option.elim_some]
    split_ifs
    · exact h1.trans (calm_endTunnel _)
    · exact h1.trans calm_freeSlot

theorem calm_armSlot (hb : (c.slot i).state ≠ .idle) (hd : Handler) (fileIndex : Int) (r : Nat) :
    Calm c (c.armSlot i hd fileIndex r) := calm_setBusy hb nofun rfl rfl

theorem calm_dispatchRequest (t : Site) (hs : c.staged = []) (hb : (c.slot i).state ≠ .idle) {d : Dispatch}
    (h : d.charged t = true) : Calm c (c.dispatchRequest t i d) := by
  unfold Dispatch.charged at h
  unfold dispatchRequest
  cases hm : d.matched with
  | none => simp [hm] at h
  | some r =>
    rw [hm] at h
    dsimp only at h ⊢
    have hlong : ¬ (t.handler r ≠ .app ∧ d.tooLong = true) := by
      rintro ⟨hne, hl⟩
      cases hh : t.handler r <;> simp_all
    rw [if_neg hlong]
    cases hh : t.handler r with
    | static | template =>
      dsimp only
      split_ifs
      · cases d.lookup with
        | hit | noSource => exact calm_armSlot hb _ _ _
        | pending | busy => exact calm_setBusy hb nofun rfl rfl
      · exact calm_armSlot hb _ _ _
    | file =>
      dsimp only
      cases hf : d.file with
      | listing => exact calm_armSlot hb _ _ _
      | opened index => exact calm_armSlot hb _ _ _
      | refused n =>
        simp only [hh, hf, FileOpen.len, and_eq_true, decide_eq_true_eq] at h
        obtain rfl : n = 0 := h.2
        exact calm_answer t hs i
    | app =>
      dsimp only
      cases he : d.emit with
      | sent moreBody => exact calm_setBusy hb nofun rfl rfl
      | full => exact .refl c
      | refused r => simp [hh, he, Emit.taken] at h
    | _ => simp [hh] at h

/-! ## Steps that move a window -/

theorem Metered.place (h : Metered c) (hcl : c.closing = false) (hid : c.lastStreamId < id)
    (hh : c'.history = c.history) (hw : c'.sendWindow = c.sendWindow)
    (hp : c'.peerInitialWindowSize = c.peerInitialWindowSize) (hl : c'.closing = false → c'.lastStreamId = id)
    (hi : (c'.slot i).id = id ∧ (c'.slot i).state ≠ .idle ∧ (c'.slot i).sendWindow = c.peerInitialWindowSize)
    (ho : ∀ j, j ≠ i → c'.slot j = c.slot j) : Metered c' := by
  have hne : id ≠ 0 := by omega
  have hfresh : ∀ j, j ≠ i → (c'.slot j).id ≠ id := by
    intro j hj heq
    have := h.known hcl j
    rw [ho j hj] at heq
    omega
  have hdef := h.initial_le
  refine ⟨⟨fun j => ?_, fun j k hj hjk => ?_, fun hcl' j => ?_⟩, ?_, ?_, fun j hj => ?_, fun j hj => ?_, ?_, ?_,
    fun hcl' k hk => ?_, ?_⟩
  · by_cases hj : j = i
    · subst hj
      exact iff_of_false hi.2.1 (hi.1 ▸ hne)
    · rw [ho j hj]
      exact h.vacant j
  · by_cases hji : j = i
    · subst hji
      by_contra hkj
      exact hfresh k (Ne.symm hkj) (hjk.symm.trans hi.1)
    · by_cases hki : k = i
      · subst hki
        exact absurd (hjk.trans hi.1) (hfresh j hji)
      · rw [ho j hji] at hj hjk
        rw [ho k hki] at hjk
        exact h.distinct j k hj hjk
  · rw [hl hcl']
    by_cases hj : j = i
    · subst hj
      exact hi.1.le
    · rw [ho j hj]
      exact (h.known hcl j).trans hid.le
  · rw [hw, hh]
    exact h.conn
  · rw [hw]
    exact h.conn_nonneg
  · rw [hh]
    by_cases hji : j = i
    · subst hji
      rw [hi.1, hi.2.2, h.unsent hcl id hid, h.initial]
      have := creditOn_nonneg id c.history
      omega
    · rw [ho j hji] at hj ⊢
      exact h.stream j hj
  · rw [hp]
    by_cases hji : j = i
    · subst hji
      rw [hi.2.2]
      unfold I32_MAX
      omega
    · rw [ho j hji] at hj ⊢
      exact h.floor j hj
  · rw [hh, hp]
    exact h.initial
  · rw [hp]
    exact h.initial_le
  · rw [hh]
    exact h.unsent hcl k (hid.trans (hl hcl' ▸ hk))
  · rw [hh]
    exact h.within

/-- How a slot may follow an event that takes the peer's initial window from `p` to `p'`. -/
structure Follows (p p' : Int) (e : Ev) (s s' : StreamSlot) : Prop where
  id : s'.id = s.id
  idle : s'.state = .idle ↔ s.state = .idle
  window : s.id ≠ 0 → s'.sendWindow ≤ s.sendWindow + (p' - p) + e.creditOn s.id - e.sentOn s.id
  floor : s.id ≠ 0 → p' - I32_MAX ≤ s'.sendWindow

/-- One event that counts, with every window within what it adds and takes. -/
theorem Metered.move {e : Ev} (h : Metered c) (hh : c'.history = c.history ++ [e])
    (hl : c'.lastStreamId = c.lastStreamId) (hcl : c'.closing = c.closing)
    (hp : c'.peerInitialWindowSize = e.initial c.peerInitialWindowSize)
    (hple : 0 ≤ c'.peerInitialWindowSize ∧ c'.peerInitialWindowSize ≤ I32_MAX)
    (hw : c'.sendWindow ≤ c.sendWindow + e.creditOn 0 - e.sent) (hw0 : 0 ≤ c'.sendWindow)
    (hslots : ∀ j, Vacant (c'.slot j) ∨
      Follows c.peerInitialWindowSize c'.peerInitialWindowSize e (c.slot j) (c'.slot j))
    (hun : c.closing = false → ∀ id, c.lastStreamId < id → e.sentOn id = 0)
    (hwithin : ∀ id n fin piece, e = .out (.data id n fin piece) → 0 < n →
      sent c.history + n ≤ 65535 + creditOn 0 c.history ∧
        sentOn id c.history + n ≤ initialOf c.history + creditOn id c.history) : Metered c' := by
  refine ⟨⟨fun j => ?_, fun j k hj hjk => ?_, fun hc j => ?_⟩, ?_, hw0, fun j hj => ?_, fun j hj => ?_, ?_, hple,
    fun hc k hk => ?_, ?_⟩
  · rcases hslots j with hv | hf
    · simp [hv.1, hv.2]
    · rw [hf.idle, hf.id]
      exact h.vacant j
  · rcases hslots j with hv | hf
    · exact absurd hv.1 hj
    rcases hslots k with hv | hf'
    · exact absurd (hjk.trans hv.1) hj
    rw [hf.id] at hj hjk
    rw [hf'.id] at hjk
    exact h.distinct j k hj hjk
  · rw [hl]
    rcases hslots j with hv | hf
    · rw [hv.1]
      exact Nat.zero_le _
    · rw [hf.id]
      exact h.known (hcl ▸ hc) j
  · rw [hh, creditOn_concat, sent_concat]
    have := h.conn
    omega
  · rcases hslots j with hv | hf
    · exact absurd hv.1 hj
    rw [hf.id] at hj ⊢
    rw [hh, initialOf_concat, creditOn_concat, sentOn_concat, h.initial, ← hp]
    have h1 := hf.window hj
    have h2 := h.stream j hj
    rw [h.initial] at h2
    omega
  · rcases hslots j with hv | hf
    · exact absurd hv.1 hj
    · exact hf.floor (hf.id ▸ hj)
  · rw [hh, initialOf_concat, h.initial, hp]
  · rw [hh, sentOn_concat, h.unsent (hcl ▸ hc) k (hl ▸ hk), hun (hcl ▸ hc) k (hl ▸ hk), add_zero]
  · rw [hh]
    exact within_concat h.within hwithin

theorem follows_settings {p : Int} {v : Nat} (hv : (v : Int) ≤ I32_MAX) (hf : s.id ≠ 0 → p - I32_MAX ≤ s.sendWindow) :
    Follows p v (.initialWindow v) s { s with sendWindow := clamp32 (s.sendWindow + (v - p)) } := by
  refine ⟨rfl, .rfl, fun hne => ?_, fun hne => ?_⟩
  all_goals
    have := hf hne
    unfold clamp32 I32_MIN I32_MAX at *
    simp only [Ev.creditOn, Ev.sentOn]
    omega

theorem follows_credit {p : Int} (hp : p ≤ I32_MAX)
    (hf : s.id ≠ 0 → p - I32_MAX ≤ s.sendWindow) (hid : s.id = id) (h0 : 0 ≤ p) :
    Follows p p (.credit id n) s { s with sendWindow := clamp32 (s.sendWindow + n) } := by
  refine ⟨rfl, .rfl, fun hne => ?_, fun hne => ?_⟩
  all_goals
    have := hf hne
    unfold clamp32 I32_MIN I32_MAX at *
    simp only [Ev.creditOn, Ev.sentOn, hid, if_true]
    omega

theorem Metered.applyInitialWindowSize (h : Metered c) (hs : c.staged = []) {v : Nat} (hv : ¬ 0x7FFFFFFF < v) :
    Metered (c.applyInitialWindowSize v) := by
  have hv' : 0 ≤ (v : Int) ∧ (v : Int) ≤ I32_MAX := by
    unfold I32_MAX
    omega
  have hconn : c.sendWindow ≤ c.sendWindow + Ev.creditOn 0 (.initialWindow v) - Ev.sent (.initialWindow v) := by
    simp [Ev.creditOn, Ev.sent]
  unfold H2State.applyInitialWindowSize
  dsimp only
  split_ifs with hd
  · refine h.move (e := .initialWindow v) (history_note hs _) rfl rfl rfl hv' hconn h.conn_nonneg
      (fun j => .inr ⟨rfl, .rfl, fun _ => ?_, fun hne => ?_⟩) (fun _ _ _ => rfl) nofun
    · change (c.slot j).sendWindow ≤ (c.slot j).sendWindow + (v - c.peerInitialWindowSize) + 0 - 0
      omega
    · have hf := h.floor j hne
      change (v : Int) - I32_MAX ≤ (c.slot j).sendWindow
      omega
  · refine h.move (e := .initialWindow v) (history_note hs _) rfl rfl rfl hv' hconn h.conn_nonneg
      (fun j => .inr ?_) (fun _ _ _ => rfl) nofun
    have hslot : ∀ f : StreamSlot → StreamSlot, f {} = {} → (c.slots.map f).getD j {} = f (c.slot j) := by
      intro f hf
      have := List.getD_map (d := ({} : StreamSlot)) (n := j) (l := c.slots) f
      rwa [hf] at this
    change Follows _ v _ _ (List.getD (c.slots.map _) j {})
    rw [hslot _ rfl]
    split_ifs with hbusy
    · exact follows_settings hv'.2 (h.floor j)
    · refine ⟨rfl, .rfl, fun hne => ?_, fun hne => ?_⟩
      all_goals exact absurd ⟨hne, fun hidle => hne ((h.vacant j).mp hidle)⟩ hbusy

theorem Metered.applySettings (h : Metered c) (hs : c.staged = []) (values : List Nat) :
    Metered (c.applySettings values) := by
  induction values generalizing c with
  | nil => exact h.calm (calm_put hs (by simp [Ev.Plain]))
  | cons v vs ih =>
    unfold H2State.applySettings
    split_ifs with hv
    · exact h.calm (calm_queueGoaway hs)
    · refine ih (h.applyInitialWindowSize hs hv) ?_
      unfold H2State.applyInitialWindowSize
      dsimp only
      split_ifs <;> exact hs

theorem Metered.handleWindowUpdate (h : Metered c) (hs : c.staged = []) (id delta : Nat) :
    Metered (c.handleWindowUpdate id delta) := by
  unfold H2State.handleWindowUpdate
  generalize delta % 2147483648 = n
  dsimp only
  by_cases h0 : n = 0
  · rw [if_pos h0]
    exact h.calm (calm_queueGoaway hs)
  rw [if_neg h0]
  have hinit := h.initial_le
  have hw0 := h.conn_nonneg
  have hkeep : ∀ j, Vacant (c.slot j) ∨
      Follows c.peerInitialWindowSize c.peerInitialWindowSize (.credit id n) (c.slot j) (c.slot j) := by
    refine fun j => .inr ⟨rfl, .rfl, fun _ => ?_, h.floor j⟩
    simp only [Ev.creditOn, Ev.sentOn]
    split_ifs <;> omega
  by_cases hid : id = 0
  · subst hid
    rw [if_pos rfl]
    refine h.move (e := .credit 0 n) (history_note hs _) rfl rfl rfl hinit ?_ ?_ hkeep (fun _ _ _ => rfl) (by rintro _ _ _ _ ⟨⟩)
    all_goals
      simp only [H2State.note, Ev.creditOn, Ev.sent, if_true, clamp32, I32_MIN, I32_MAX]
      omega
  rw [if_neg hid]
  have hconn : c.sendWindow ≤ c.sendWindow + Ev.creditOn 0 (.credit id n) - Ev.sent (.credit id n) := by
    simp [Ev.creditOn, Ev.sent, hid]
  have hh := history_note hs (.credit id n)
  cases hfor : (c.note (.credit id n)).slotForId id with
  | none => exact h.move hh rfl rfl rfl hinit hconn hw0 hkeep (fun _ _ _ => rfl) (by rintro _ _ _ _ ⟨⟩)
  | some i =>
    have hi : (c.slot i).id = id := (slotForId_some hfor).1
    refine h.move hh rfl rfl rfl hinit hconn hw0 ?_ (fun _ _ _ => rfl) (by rintro _ _ _ _ ⟨⟩)
    exact slot_setSlot_forall (P := fun j s => Vacant s ∨ Follows _ _ _ (c.slot j) s)
      (.inr (follows_credit hinit.2 (h.floor i) hi hinit.1)) hkeep

/-! ## The two emitters that charge -/

theorem Metered.charge {fin : Bool} {piece : Piece} (h : Metered c) (hcl : c.closing = false)
    (hid : (c.slot i).id ≠ 0) (hn : 0 < n → (n : Int) ≤ (c.slot i).sendWindow)
    (hh : c'.history = c.history ++ [Ev.out (.data (c.slot i).id n fin piece)])
    (hl : c'.lastStreamId = c.lastStreamId) (hc : c'.closing = c.closing)
    (hp : c'.peerInitialWindowSize = c.peerInitialWindowSize)
    (hw : c'.sendWindow ≤ c.sendWindow - n) (hw0 : 0 ≤ c'.sendWindow)
    (hi : Vacant (c'.slot i) ∨ (c'.slot i).id = (c.slot i).id ∧ (c'.slot i).state ≠ .idle ∧
      (c'.slot i).sendWindow ≤ (c.slot i).sendWindow - n ∧
      c.peerInitialWindowSize - I32_MAX ≤ (c'.slot i).sendWindow)
    (ho : ∀ j, j ≠ i → Vacant (c'.slot j) ∨ SameStream (c.slot j) (c'.slot j)) : Metered c' := by
  have hinit := h.initial_le
  have hbusy : (c.slot i).state ≠ .idle := fun hidle => hid ((h.vacant i).mp hidle)
  refine h.move hh hl hc hp (hp ▸ hinit) ?_ hw0 (fun j => ?_) (fun _ k hk => ?_) ?_
  · simp only [Ev.creditOn, Ev.sent]
    omega
  · rw [hp]
    by_cases hj : j = i
    · subst hj
      refine hi.imp_right fun ⟨h1, h2, h3, h4⟩ => ⟨h1, iff_of_false h2 hbusy, fun _ => ?_, fun _ => h4⟩
      simp only [Ev.creditOn, Ev.sentOn, if_true]
      omega
    · refine (ho j hj).imp_right fun hsame => ⟨hsame.id, hsame.idle, fun hne => ?_, fun hne => ?_⟩
      · have hnot : (c.slot i).id ≠ (c.slot j).id := fun heq => hj (h.distinct j i hne heq.symm)
        simp [hsame.window, Ev.creditOn, Ev.sentOn, hnot]
      · exact hsame.window ▸ h.floor j hne
  · have hk' := h.known hcl i
    simp only [Ev.sentOn]
    rw [if_neg (by omega)]
  · intro id m fin' piece' heq hm
    cases heq
    have h1 := h.conn
    have h2 := h.stream i hid
    have h3 := hn hm
    omega

theorem Metered.chargeSlot {fin : Bool} {piece : Piece} (h : Metered c) (hs : c.staged = [])
    (hcl : c.closing = false) (hid : (c.slot i).id ≠ 0)
    (hn : (n : Int) ≤ c.sendWindow ∧ (n : Int) ≤ (c.slot i).sendWindow)
    (hi : Vacant s ∨ s.id = (c.slot i).id ∧ s.state ≠ .idle ∧
      s.sendWindow = clamp32 ((c.slot i).sendWindow - n) ∧ 0 < n) :
    Metered ({ c.put [.data (c.slot i).id n fin piece] with sendWindow := clamp32 (c.sendWindow - n) }.setSlot i s) := by
  obtain ⟨d, hd⟩ : ∃ d, d = { c.put [.data (c.slot i).id n fin piece] with
    sendWindow := clamp32 (c.sendWindow - n) } := ⟨_, rfl⟩
  rw [← hd]
  have hbusy : (c.slot i).state ≠ .idle := fun hidle => hid ((h.vacant i).mp hidle)
  have hslot : ∀ j, d.slot j = c.slot j := hd ▸ fun _ => rfl
  have hinit := h.initial_le
  have hw : d.sendWindow = clamp32 (c.sendWindow - n) := hd ▸ rfl
  have hself : (d.setSlot i s).slot i = s := slot_setSlot_self (hslot i ▸ hbusy) s
  have hh : (d.setSlot i s).history = c.history ++ [Ev.out (.data (c.slot i).id n fin piece)] :=
    (congrArg (fun x => (x.setSlot i s).history) hd).trans (history_put hs _)
  have hrest : d.lastStreamId = c.lastStreamId ∧ d.closing = c.closing ∧
      d.peerInitialWindowSize = c.peerInitialWindowSize := hd ▸ ⟨rfl, rfl, rfl⟩
  have hwin : d.sendWindow ≤ c.sendWindow - n ∧ 0 ≤ d.sendWindow := by
    rw [hw]
    unfold clamp32 I32_MIN I32_MAX
    omega
  refine h.charge hcl hid (fun _ => hn.2) hh hrest.1 hrest.2.1 hrest.2.2 hwin.1 hwin.2 ?_ fun j hj => .inr ?_
  · rw [hself]
    refine hi.imp_right fun ⟨h1, h2, h3, hpos⟩ => ⟨h1, h2, ?_⟩
    rw [h3]
    unfold clamp32 I32_MIN I32_MAX at *
    omega
  · rw [slot_setSlot_ne hj, hslot]
    exact .refl _

theorem Metered.emitChunk {p : Captured} (h : Metered c) (hs : c.staged = []) (hcl : c.closing = false)
    (hfor : (c.slot p.slot).id = p.id ∧ p.id ≠ 0) (ha : 0 < c.avail p.slot) (r : Rendered) :
    Metered (c.emitChunk t p (c.avail p.slot) r) := by
  have hid : (c.slot p.slot).id ≠ 0 := hfor.1 ▸ hfor.2
  have hbusy : (c.slot p.slot).state ≠ .idle := fun hidle => hid ((h.vacant _).mp hidle)
  unfold H2State.emitChunk
  dsimp only
  generalize hn : min r.len (min (t.sendBufSize - FRAME_HEADER_LEN) (c.avail p.slot).toNat) = n
  generalize (if rendered p.bodyHandler = true then r.pos else p.tmplPos) = pos
  generalize (if rendered p.bodyHandler = true then _ else _) = piece
  generalize hs1 : { c.slot p.slot with tmplPos := pos } = s1
  have h1 : Metered (c.setSlot p.slot s1) :=
    h.calm (calm_setBusy hbusy (hs1 ▸ hbusy) (hs1 ▸ rfl) (hs1 ▸ rfl))
  have hslot : (c.setSlot p.slot s1).slot p.slot = s1 := slot_setSlot_self hbusy s1
  have hid1 : s1.id = p.id := hs1 ▸ hfor.1
  have hle : (n : Int) ≤ c.sendWindow ∧ (n : Int) ≤ s1.sendWindow := by
    rw [show s1.sendWindow = (c.slot p.slot).sendWindow from hs1 ▸ rfl]
    unfold H2State.avail at hn ha
    omega
  have hb1 : s1.state ≠ .idle := hs1 ▸ hbusy
  generalize hc1 : c.setSlot p.slot s1 = c1 at h1 hslot
  by_cases hz : n = 0 ∧ r.more = true
  · rw [if_pos hz]
    exact h1.calm (calm_note (hc1 ▸ hs) trivial)
  rw [if_neg hz]
  subst hslot
  have hs1' : c1.staged = [] := hc1 ▸ hs
  have hcl1 : c1.closing = false := hc1 ▸ hcl
  have hle1 : (n : Int) ≤ c1.sendWindow ∧ (n : Int) ≤ (c1.slot p.slot).sendWindow := ⟨hc1 ▸ hle.1, hle.2⟩
  rw [← hid1] at hfor ⊢
  split_ifs with hm
  · have hpos : 0 < n := Nat.pos_of_ne_zero fun h0 => hz ⟨h0, hm⟩
    exact h1.chargeSlot hs1' hcl1 hfor.2 hle1 (.inr ⟨rfl, hb1, rfl, hpos⟩)
  · exact h1.chargeSlot hs1' hcl1 hfor.2 hle1 (.inl ⟨rfl, rfl⟩)

/-- The connection as `compose_app_frames` would leave it if it stopped here. -/
def Composed.into (x : Composed) (c : H2State) (i : Nat) : H2State :=
  { c.setSlot i x.slot with sendWindow := x.window, staged := x.frames }

structure Composing (c : H2State) (i : Nat) (x : Composed) : Prop where
  metered : Metered (x.into c i)
  id : x.slot.id = (c.slot i).id
  state : x.slot.state = (c.slot i).state

section compose
variable {x y : Composed} {rec : Record} {rest : List Record}

theorem history_into (fs : List OutFrame) (h : y.frames = x.frames ++ fs) :
    (y.into c i).history = (x.into c i).history ++ fs.map Ev.out := by
  simp [Composed.into, history, setSlot, h]

theorem slot_into (hb : (c.slot i).state ≠ .idle) (x : Composed) : (x.into c i).slot i = x.slot :=
  slot_setSlot_self hb x.slot

theorem slot_into_ne (hj : j ≠ i) (x : Composed) : (x.into c i).slot j = c.slot j :=
  slot_setSlot_ne hj x.slot

section

variable (hb : (c.slot i).state ≠ .idle)

include hb

theorem Composing.calm (h : Composing c i x) (fs : List OutFrame)
    (hf : y.frames = x.frames ++ fs) (hp : ∀ f ∈ fs, (Ev.out f).Plain) (hw : y.window = x.window)
    (hid : y.slot.id = x.slot.id) (hst : y.slot.state = x.slot.state) (hsw : y.slot.sendWindow = x.slot.sendWindow) :
    Composing c i y := by
  refine ⟨h.metered.calm ⟨⟨fs.map Ev.out, history_into fs hf, fun e he => ?_⟩, hw, rfl, rfl, fun hc => hc, fun j => .inr ?_⟩,
    hid.trans h.id, hst.trans h.state⟩
  · obtain ⟨f, hfm, rfl⟩ := mem_map.mp he
    exact hp f hfm
  · by_cases hj : j = i
    · subst hj
      rw [slot_into hb, slot_into hb]
      exact ⟨hid, hsw, by rw [hst]⟩
    · rw [slot_into_ne hj, slot_into_ne hj]
      exact .refl _

theorem composing_composeHead (h : Composing c i x) (rec : Record) :
    Composing c i (composeHead t x rec) := by
  cases rec with
  | body more len => exact h
  | head status more body frame =>
    unfold composeHead
    split_ifs with hd
    · exact h
    dsimp only
    cases frame with
    | none => exact h.calm hb [] (by simp) nofun rfl rfl rfl rfl
    | some n =>
      dsimp only
      split_ifs
      · exact h.calm hb _ rfl (by simp [Ev.Plain]) rfl rfl rfl rfl
      · exact h.calm hb [] (by simp) nofun rfl rfl rfl rfl

theorem composing_composeBody (hcl : c.closing = false) (h : Composing c i x)
    (rec : Record) (rest : List Record) : Composing c i (composeBody t x rec rest).1 := by
  rcases composeBody_spec t x rec rest with heq | ⟨n, fs, -, hn, -, hfs, heq⟩
  · rw [heq]
    exact h
  rw [heq]
  have hslot : (x.advance rec rest n fs).slot.id = x.slot.id ∧ (x.advance rec rest n fs).slot.state = x.slot.state ∧
      (x.advance rec rest n fs).slot.sendWindow =
        x.slot.sendWindow - (if x.slot.respCarries = true then (n : Int) else 0) := by
    unfold Composed.advance
    dsimp only
    split_ifs <;> exact ⟨rfl, rfl, rfl⟩
  have hwin : (x.advance rec rest n fs).window = x.window - (if x.slot.respCarries = true then (n : Int) else 0) := rfl
  cases hfs with
  | bare hc =>
    rw [if_neg (by simp [hc]), sub_zero] at hslot hwin
    exact h.calm hb _ rfl (by simp [Ev.Plain]) hwin hslot.1 hslot.2.1 hslot.2.2
  | idle hc =>
    have h0 : (if x.slot.respCarries = true then (n : Int) else 0) = 0 := by
      split_ifs with hcar
      · simp [(hc hcar).1]
      · rfl
    rw [h0, sub_zero] at hslot hwin
    exact h.calm hb [] rfl nofun hwin hslot.1 hslot.2.1 hslot.2.2
  | @framed fin hc =>
    rw [if_pos hc] at hslot hwin
    have hx := slot_into hb x
    have hbusy : x.slot.state ≠ .idle := h.state ▸ hb
    have hid : ((x.into c i).slot i).id ≠ 0 := by
      rw [hx]
      exact fun h0 => hbusy (hx ▸ (h.metered.vacant i).mpr (hx ▸ h0))
    have hfloor := h.metered.floor i hid
    have hinit := h.metered.initial_le
    have hw0 : 0 ≤ x.window := h.metered.conn_nonneg
    have hnn := hn hc
    rw [hx] at hid hfloor
    have hh : ((x.advance rec rest n [.data x.slot.id n fin .whole]).into c i).history =
        (x.into c i).history ++ [Ev.out (.data ((x.into c i).slot i).id n fin .whole)] := by
      rw [hx]
      exact history_into [_] rfl
    refine ⟨h.metered.charge hcl (hx ▸ hid) ?_ hh rfl rfl rfl hwin.le ?_ (.inr ?_) fun j hj => .inr ?_,
      hslot.1.trans h.id, hslot.2.1.trans h.state⟩
    · rw [hx]
      exact fun hpos => (hnn hpos).2
    · change 0 ≤ x.window - _
      rw [if_pos hc]
      omega
    · rw [slot_into hb, hx]
      refine ⟨hslot.1, hslot.2.1 ▸ hbusy, hslot.2.2.le, ?_⟩
      rw [hslot.2.2]
      unfold I32_MAX at *
      omega
    · rw [slot_into_ne hj, slot_into_ne hj]
      exact .refl _

theorem composing_composeLoop (hcl : c.closing = false) (q : List Record)
    (h : Composing c i x) : Composing c i (composeLoop t q x) := by
  induction q generalizing x with
  | nil => exact h
  | cons rec rest ih =>
    unfold composeLoop
    dsimp only
    have h1 : Composing c i (composeHead t x rec) := composing_composeHead hb h rec
    have h2 := composing_composeBody (t := t) hb hcl h1 rec rest
    split_ifs
    · exact h1
    · exact h2
    · exact ih h2

end

def Composed.Begun (x : Composed) : Prop := x.slot.headersSent = true ∨ x.used ≠ 0

theorem begun_composeHead (h : x.Begun) (rec : Record) : (composeHead t x rec).Begun := by
  cases rec with
  | body more len => exact h
  | head status more body frame =>
    unfold composeHead
    split_ifs
    · exact h
    cases frame with
    | none => exact h
    | some n =>
      dsimp only
      split_ifs
      · exact .inl rfl
      · exact h

theorem failed_composeHead (hf : (composeHead t x rec).failed = true) (h0 : x.failed = false)
    (hfit : rec.headFits t = true) : x.Begun := by
  cases rec with
  | body more len => exact absurd hf (by simp [composeHead, h0])
  | head status more body frame =>
    unfold composeHead at hf
    split_ifs at hf
    · exact absurd hf (by simp [h0])
    cases frame with
    | none => simp [Record.headFits] at hfit
    | some n =>
      dsimp only at hf
      split_ifs at hf with hroom
      · exact absurd hf (by simp [h0])
      · refine .inr fun hnil => hroom ?_
        simpa [hnil, Record.headFits] using hfit

theorem begun_composeBody (rec : Record) (rest : List Record) :
    (composeBody t x rec rest).1.failed = x.failed ∧ (x.Begun → (composeBody t x rec rest).1.Begun) := by
  rcases composeBody_spec t x rec rest with heq | ⟨n, fs, -, -, -, -, heq⟩
  · rw [heq]
    exact ⟨rfl, id⟩
  · rw [heq]
    refine ⟨rfl, Or.imp (fun h => ?_) fun h => ?_⟩
    · unfold Composed.advance
      dsimp only
      split_ifs <;> exact h
    · have hused : (x.advance rec rest n fs).used = x.used + (fs.map OutFrame.size).sum := by
        simp [Composed.used, Composed.advance]
      dsimp only
      omega

/-- Once the HEADERS are out, or when every one fits, the loop does not fail with nothing framed. -/
theorem failed_composeLoop (q : List Record) (hf : (composeLoop t q x).failed = true) (h0 : x.failed = false)
    (h : x.Begun ∨ q.all (Record.headFits t) = true) : (composeLoop t q x).Begun := by
  induction q generalizing x with
  | nil => simp [composeLoop, h0] at hf
  | cons rec rest ih =>
    have hfits : ¬ x.Begun → rec.headFits t = true ∧ rest.all (Record.headFits t) = true := by
      intro hx
      simpa using h.resolve_left hx
    obtain ⟨hbf, hbb⟩ := begun_composeBody (t := t) (x := composeHead t x rec) rec rest
    unfold composeLoop at hf ⊢
    dsimp only at hf ⊢
    split_ifs at hf ⊢ with hstop hbody
    · by_cases hx : x.Begun
      · exact begun_composeHead hx rec
      · exact absurd (failed_composeHead hf h0 (hfits hx).1) hx
    · rw [hbf] at hf
      exact absurd (.inr hf) hstop
    · refine ih hf (hbf.trans (by simpa using fun hh => hstop (.inr hh))) ?_
      by_cases hx : x.Begun
      · exact .inl (hbb (begun_composeHead hx rec))
      · exact .inr (hfits hx).2

end compose

theorem Metered.composeAppFrames (h : Metered c) (hs : c.staged = []) (hcl : c.closing = false)
    (hb : (c.slot i).state ≠ .idle)
    (hfit : ((c.slot i).headersSent || (c.slot i).queue.all (Record.headFits t)) = true) :
    Metered (c.composeAppFrames t i) := by
  obtain ⟨x, hx⟩ : ∃ x, x = composeLoop t (c.slot i).queue { frames := [], slot := c.slot i, window := c.sendWindow } :=
    ⟨_, rfl⟩
  have h0 : Composing c i { frames := [], slot := c.slot i, window := c.sendWindow } := by
    refine ⟨h.calm (.of_slots ?_ rfl rfl rfl rfl ?_), rfl, rfl⟩
    · simp [Composed.into, history, setSlot, hs]
    · exact slot_setSlot_forall (P := fun j s => Vacant s ∨ SameStream (c.slot j) s) (.inr (.refl _))
        fun _ => .inr (.refl _)
  have hcomp : Composing c i x := hx ▸ composing_composeLoop hb hcl _ h0
  have hslot := slot_into hb x
  unfold H2State.composeAppFrames
  rw [← hx]
  change Metered (if x.failed = true then (x.into c i).failAppStream t i
    else if x.finished = true then
      (if x.slot.app.reqDone = true then x.into c i else (x.into c i).appendRst t x.slot.id ERR_NO_ERROR).freeSlot i
    else x.into c i)
  split_ifs with hfail hfin hdone
  · refine hcomp.metered.calm (calm_failAppStream t ?_)
    rw [hslot]
    rw [or_eq_true] at hfit
    have hbegun := failed_composeLoop _ (hx ▸ hfail) rfl (hfit.imp_left Or.inl)
    rw [← hx] at hbegun
    exact hbegun
  · exact hcomp.metered.calm calm_freeSlot
  · exact hcomp.metered.calm ((calm_appendRst ..).trans calm_freeSlot)
  · exact hcomp.metered

/-! ## Every step and every run -/

theorem Metered.handleHeaders (h : Metered c) (hs : c.staged = []) (hcl : c.closing = false)
    {endHeaders endStream : Bool} {block : HeaderBlock}
    (hc : InFrame.charged t c (.headers id endHeaders endStream block) = true) :
    Metered (c.handleHeaders t id endHeaders endStream block) := by
  unfold H2State.handleHeaders
  split_ifs with hbad
  · exact h.calm (calm_queueGoaway hs)
  rw [not_or, not_or] at hbad
  obtain ⟨hodd, heh, hlast⟩ := hbad
  cases ha : c.allocSlot t id with
  | none => exact h.calm (calm_put hs (by simp [Ev.Plain]))
  | some r =>
    obtain ⟨i, d⟩ := r
    obtain ⟨hlt, hidle, rfl⟩ := allocSlot_some ha
    generalize hs1 : { c.slot i with
      id := id, state := .open, headersSent := false, endStreamIn := false,
      sendWindow := c.peerInitialWindowSize } = s1
    have hself : (c.setSlot i s1).slot i = s1 := Table.getD_set_self hlt
    dsimp only
    have hopen : Metered { c.setSlot i s1 with lastStreamId := id } := by
      refine h.place hcl (Nat.lt_of_not_le hlast) rfl rfl rfl (fun _ => rfl) (i := i) ?_ fun j hj => slot_setSlot_ne hj s1
      change ((c.setSlot i s1).slot i).id = id ∧ ((c.setSlot i s1).slot i).state ≠ .idle ∧
        ((c.setSlot i s1).slot i).sendWindow = c.peerInitialWindowSize
      rw [hself, ← hs1]
      exact ⟨rfl, nofun, rfl⟩
    cases block with
    | badExtent =>
      -- `last_stream_id` is behind the slot here, on a connection that is over
      have hover : Metered { c.setSlot i s1 with closing := true } :=
        ⟨⟨hopen.vacant, hopen.distinct, nofun⟩, hopen.conn, hopen.conn_nonneg, hopen.stream, hopen.floor, hopen.initial,
          hopen.initial_le, nofun, hopen.within⟩
      exact hover.calm (calm_queueGoaway hs)
    | undecodable => exact hopen.calm (calm_freeSlot.trans (calm_queueGoaway hs))
    | request r =>
      have hs' : ({ c.setSlot i s1 with lastStreamId := id } : H2State).staged = [] := hs
      refine hopen.calm (calm_placeRequest t hs' ?_ endStream ?_)
      · change ((c.setSlot i s1).slot i).state ≠ .idle
        rw [hself, ← hs1]
        nofun
      · simp only [InFrame.charged, ha, or_eq_true, decide_eq_true_eq, Option.isNone_some] at hc
        rcases hc with (((h1 | h1) | h1) | h1) | h1
        · exact absurd h1 hodd
        · exact absurd h1 heh
        · exact absurd h1 hlast
        · cases h1
        · exact h1

theorem Metered.processFrame (h : Metered c) (hs : c.staged = []) (hcl : c.closing = false) {f : InFrame}
    (hc : f.charged t c = true) : Metered (c.processFrame t f) := by
  cases f with
  | settings values => exact h.applySettings hs values
  | settingsAck | ignored => exact h
  | ping => exact h.calm (calm_put hs (by simp [Ev.Plain]))
  | headers id endHeaders endStream block => exact h.handleHeaders hs hcl hc
  | data id len badPadding endStream held turn => exact h.calm (calm_handleData t hs hc)
  | windowUpdate id delta => exact h.handleWindowUpdate hs id delta
  | rstStream id => exact h.calm (calm_handleRstStream hs id)
  | broken => exact h.calm (calm_queueGoaway hs)

theorem Metered.when {b : Bool} (h : Metered c) (hd : b = true → Metered d) : Metered (H2State.when b c d) := by
  unfold H2State.when
  split_ifs with hb
  · exact hd hb
  · exact h

theorem Metered.step (h : Metered c) {op : Op} (hc : Charged t c op = true) : Metered (c.step t op) := by
  cases op with
  | flush =>
    refine h.calm (.of_slots ?_ rfl rfl rfl rfl fun _ => .inr (.refl _))
    simp [H2State.step, history]
  | frame f =>
    refine h.when fun hr => ?_
    obtain ⟨hs, hcl⟩ := staged_of_ready hr
    exact h.processFrame hs hcl (by simpa [Charged, hr] using hc)
  | dispatch i d =>
    refine h.when fun hr => ?_
    simp only [Charged, hr, Bool.not_true, Bool.false_or] at hc
    rw [and_eq_true, decide_eq_true_eq] at hr
    exact h.calm (calm_dispatchRequest t (staged_of_ready hr.1).1 (by simp [hr.2]) hc)
  | fetch res =>
    refine h.when fun hr => ?_
    have hs := (staged_of_ready (ready_of_idle hr)).1
    simp only [Charged, hr, Bool.not_true, Bool.false_or] at hc
    unfold H2State.driveCacheFetch
    cases hf : c.fetchingSlot with
    | none => exact h
    | some i =>
      have hb : (c.slot i).state ≠ .idle := by simp [fetchingSlot_some hf]
      simp only [Option.elim_some]
      split
      · exact h.calm (calm_armSlot hb _ _ _)
      · simp [hf] at hc
      · exact h
  | sendBody i r =>
    refine h.when fun hr => ?_
    rw [and_eq_true, decide_eq_true_eq] at hr
    obtain ⟨hs, hcl⟩ := staged_of_ready (ready_of_idle hr.1)
    have hb : (c.slot i).state ≠ .idle := by simp [hr.2]
    unfold H2State.stepSendingBody
    dsimp only
    split_ifs with hsent hopen
    · exact h.calm ((calm_put hs (by simp [Ev.Plain])).trans (calm_setBusy hb hb rfl rfl))
    · exact h.emitChunk hs hcl ⟨rfl, fun h0 => hb ((h.vacant i).mpr h0)⟩ hopen r
    · exact h.calm (.of_slots rfl rfl rfl rfl rfl fun _ => .inr (.refl _))
  | resume r =>
    refine h.when fun hr => ?_
    obtain ⟨hs, hcl⟩ := staged_of_ready hr
    simp only [Charged, hr, Bool.not_true, Bool.false_or] at hc
    unfold H2State.resumeSendingBody
    cases hp : c.captured with
    | none => exact h
    | some p =>
      have h1 : Metered { c with captured := none } :=
        h.calm (.of_slots rfl rfl rfl rfl rfl fun _ => .inr (.refl _))
      simp only [Option.elim_some]
      split_ifs with hopen
      · have hopen' : 0 < c.avail p.slot := hopen
        have hfor : c.slotForId p.id = some p.slot := by simpa [hp, hopen'] using hc
        exact h1.emitChunk hs hcl ⟨(slotForId_some hfor).1, (slotForId_some hfor).2.2⟩ hopen r
      · exact h1
  | abandon => exact h.calm (.of_slots rfl rfl rfl rfl rfl fun _ => .inr (.refl _))
  | refill i =>
    cases i with
    | none => exact h.when fun hr => h.calm (calm_put (staged_of_ready (ready_of_idle hr)).1 (by simp [Ev.Plain]))
    | some i =>
      refine h.when fun hr => ?_
      rw [and_eq_true] at hr
      exact h.calm (calm_put (staged_of_ready (ready_of_idle hr.1)).1 (by simp [Ev.Plain]))
  | forward i =>
    refine h.when fun hr => ?_
    rw [and_eq_true, decide_eq_true_eq] at hr
    have hb : (c.slot i).state ≠ .idle := by simp [hr.2]
    exact h.calm (calm_setBusy hb hb rfl rfl)
  | timeout i =>
    refine h.when fun hr => ?_
    simp only [Charged, hr, Bool.not_true, Bool.false_or] at hc
    unfold H2State.appTimeout
    rw [if_pos hc]
    exact h.calm (calm_resetStream t c i _)
  | compose i =>
    refine h.when fun hr => ?_
    simp only [Charged, hr, Bool.not_true, Bool.false_or] at hc
    rw [and_eq_true, decide_eq_true_eq] at hr
    obtain ⟨hs, hcl⟩ := staged_of_ready (ready_of_idle hr.1)
    exact h.composeAppFrames hs hcl (by simp [hr.2]) hc
  | record i r =>
    refine h.when fun hr => ?_
    simp only [Charged, hr, Bool.not_true, Bool.false_or] at hc
    rw [and_eq_true, decide_eq_true_eq] at hr
    have hb : (c.slot i).state ≠ .idle := by simp [hr.2]
    unfold H2State.appRecord
    dsimp only
    split_ifs with hfail
    · exact h.calm (calm_failAppStream t (by simpa [hfail] using hc))
    · cases r with
      | response rec fits => exact h.calm (calm_setBusy hb hb rfl rfl)
      | abort | other => exact h
  | fail i =>
    refine h.when fun hr => ?_
    simp only [Charged, hr, Bool.not_true, Bool.false_or] at hc
    exact h.calm (calm_failAppStream t (by simpa using hc))
  | tunnel turn =>
    refine h.when fun hr => ?_
    simp only [Charged, hr, Bool.not_true, Bool.false_or] at hc
    rw [and_eq_true] at hr
    exact h.calm (calm_wsTurn (staged_of_ready (ready_of_idle hr.1)).1 (of_decide_eq_true hc))
  | envelope n left =>
    refine h.when fun hr => ?_
    simp only [Charged, hr, Bool.not_true, Bool.false_or] at hc
    rw [and_eq_true] at hr
    have h1 : Calm c (c.wsQueueFrameFin n c.wsStreamId) :=
      calm_put (staged_of_ready (ready_of_idle hr.1)).1 (by simpa [Ev.Plain] using hc)
    exact h.calm ⟨h1.history, h1.window, h1.initial, h1.last, h1.closing, h1.slots⟩
  | fragment n =>
    refine h.when fun hr => ?_
    simp only [Charged, hr, Bool.not_true, Bool.false_or] at hc
    rw [and_eq_true] at hr
    cases hf : c.wsFrag with
    | none => exact h
    | some frag =>
      have hn : n = 0 := by simpa [hf] using hc
      have h1 : Calm c (c.wsQueueFrameFin n frag.2) :=
        calm_put (staged_of_ready (ready_of_idle hr.1)).1 (by simpa [Ev.Plain] using hn)
      exact h.calm ⟨h1.history, h1.window, h1.initial, h1.last, h1.closing, h1.slots⟩
  | goaway => exact h.when fun hr => h.calm (calm_queueGoaway (staged_of_ready (ready_of_idle hr)).1)

theorem metered_init : Metered {} := by
  have hslot : ∀ i, ({} : H2State).slot i = {} := by
    intro i
    simp only [H2State.slot, List.getD_eq_getElem?_getD, List.getElem?_replicate]
    split_ifs <;> rfl
  refine ⟨⟨fun i => ?_, fun i j hi => ?_, fun _ i => ?_⟩, by decide, by decide, fun i hi => ?_, fun i hi => ?_, by decide,
    by decide, fun _ _ _ => rfl, fun l id n fin piece hl => ?_⟩
  · simp [hslot]
  · simp [hslot] at hi
  · simp [hslot]
  · simp [hslot] at hi
  · simp [hslot] at hi
  · have := List.prefix_nil.mp hl
    simp at this

/-- In every run in which only the two emitters that charge the windows write DATA payload, each for its own stream,
every DATA frame is within both. -/
theorem data_within_windows (t : Site) (ops : List Op)
    (h : (machine t).Along (fun c op => Charged t c op = true) {} ops) : Within ((machine t).run {} ops).1.history := by
  have hrun : Metered ((machine t).run {} ops).1 :=
    (machine t).run_invariant (I := Metered) (fun _ _ hs hc => hs.step hc) metered_init h
  exact hrun.within

def shrunkWindow : List Op :=
  [.frame (.settings [20]), .flush, .frame (.headers 1 true true (.request {})), .dispatch 0 { matched := some 0 },
    .sendBody 0 ⟨0, true, 0⟩, .flush, .sendBody 0 ⟨100, true, 20⟩, .flush, .frame (.settings [5]), .flush,
    .sendBody 0 ⟨100, true, 35⟩, .frame (.windowUpdate 1 30), .resume ⟨100, true, 35⟩]

theorem data_within_windows_shrunkWindow :
    (machine exampleSite).Along (fun c op => Charged exampleSite c op = true) {} shrunkWindow ∧
      sentOn 1 ((machine exampleSite).run {} shrunkWindow).1.history = 35 ∧
      Within ((machine exampleSite).run {} shrunkWindow).1.history :=
  have h : (machine exampleSite).Along (fun c op => Charged exampleSite c op = true) {} shrunkWindow := by
    decide +kernel
  ⟨h, by decide +kernel, data_within_windows _ _ h⟩

/-- The ten bytes of a 404 go out on a stream whose window is 0. -/
theorem data_past_window_notFound :
    ¬ ∀ (t : Site) (ops : List Op), Within ((machine t).run {} ops).1.history := by
  intro h
  have hw := h exampleSite [.frame (.settings [0]), .flush, .frame (.headers 1 true true (.request {})),
    .dispatch 0 { matched := none }] [.initialWindow 0, .out (.control 0), .opened 1, .out (.headers 1 (cannedBlock 10) false)]
    1 10 true .whole (by decide +kernel) (by decide)
  revert hw
  decide +kernel

end Wave.Http.H2
