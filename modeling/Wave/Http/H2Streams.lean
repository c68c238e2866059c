import Wave.Http.H2Conn

/-! # What goes out for one stream (`http/server/h2.rs`)

`Life` is a stream as the peer sees it, and ties every slot to its stream. An operation touches one slot. -/

namespace Wave.Http.H2

open Lib
open BodyCache (rendered)

variable {s : StreamSlot}

/-! ## The life of a stream -/

def Ev.about : Ev → Option Nat
  | .out (.control _) | .initialWindow _ | .credit _ _ => none
  | .out (.windowUpdate id) | .out (.headers id _ _) | .out (.data id _ _ _) | .out (.rstStream id _) => some id
  | .opened id | .peerReset id | .passed id _ => some id

inductive Life where
  | fresh
  | waiting
  /-- The head is out, and of a route's body the part before the cursor. -/
  | body (cursor : Option (Nat × Nat))
  | ended
  | gone
deriving DecidableEq

def Piece.follows (id : Nat) (cursor : Option (Nat × Nat)) : Piece → Option (Option (Nat × Nat))
  | .rendered route lo hi =>
    if cursor = none ∧ lo = 0 ∨ cursor = some (route, lo) then some (some (route, hi)) else none
  | .tunnel stream => if cursor = none ∧ stream = id then some none else none
  | .whole => if cursor = none then some none else none

/-- What an event about the stream makes of it; `none` when it may not be. -/
def Life.next (id : Nat) : Life → Ev → Option Life
  | .fresh, .opened _ => some .waiting
  | .fresh, .out (.rstStream _ _) => some .gone
  | .waiting, .out (.windowUpdate _) => some .waiting
  | .waiting, .out (.headers _ _ fin) => some (if fin then .ended else .body none)
  | .waiting, .out (.rstStream _ _) => some .gone
  | .body cursor, .out (.windowUpdate _) => some (.body cursor)
  | .body cursor, .out (.data _ _ fin piece) =>
    (piece.follows id cursor).map fun cursor => if fin then .ended else .body cursor
  | .body cursor, .passed _ piece => (piece.follows id cursor).map .body
  | .body _, .out (.headers _ _ fin) => if fin then some .ended else none
  | .body _, .out (.rstStream _ _) => some .gone
  | .ended, .out (.rstStream _ code) => if code = ERR_NO_ERROR then some .gone else none
  | _, .peerReset _ => some .gone
  | _, _ => none

def Life.step (id : Nat) (l : Life) (e : Ev) : Option Life :=
  if e.about = some id then l.next id e else some l

def life (id : Nat) (h : List Ev) : Option Life := h.foldlM (Life.step id) .fresh

def Life.due : Life → Bool
  | .waiting | .body _ => true
  | _ => false

/-- Every stream gets its response and nothing else, and those that wait for theirs are in a slot. -/
def Proper (c : H2State) : Prop :=
  (∀ id, (life id c.history).isSome = true) ∧
    (c.closing = false → ∀ id l, life id c.history = some l → l.due = true →
      ∃ i, (c.slot i).id = id ∧ (c.slot i).state ≠ .idle)

def H2State.untouched (c : H2State) (id : Nat) : Bool := c.history.all fun e => e.about ≠ some id

/-- No stream comes up twice, no body is past its limit under way, a stalled body is its own stream's, a failed
exchange has room for RST_STREAM, and a worker's messages find their tunnel. -/
def Orderly (t : Site) (c : H2State) : Op → Bool
  | .frame (.headers id endHeaders _ _) =>
    !c.ready || id % 2 = 0 || !endHeaders || id ≤ c.lastStreamId || c.untouched id
  | .frame (.data id len badPadding _ _ _) =>
    !c.ready || id = 0 ||
      match c.slotForId id with
      | none => id ≤ c.lastStreamId || c.untouched id
      | some i =>
        let s := c.slot i
        s.state = .wsActive || badPadding || len = 0 || s.bodyTotal + len ≤ s.bodyLimit ||
          !(s.state = .sending && s.headersSent)
  | .resume _ => !c.ready || c.captured.all fun p => !(0 < c.avail p.slot) || c.slotForId p.id = some p.slot
  | .record i r =>
    !(c.attached && (c.slot i).state = .app) || !r.fails (c.slot i) || c.sendLen + RST_LEN ≤ t.sendBufSize
  | .fail i =>
    !(c.attached && (c.slot i).state = .app && !(c.slot i).app.respDone) || c.sendLen + RST_LEN ≤ t.sendBufSize
  | .envelope _ _ => !(c.idle && c.wsFrag = none) || c.wsActive
  | .fragment _ => !(c.idle && c.wsActive) || c.wsFrag.all fun frag => frag.2 = c.wsStreamId
  | _ => true

variable {t : Site} {c c' d : H2State} {i j id n : Nat} {es : List Ev} {l l' : Life}

theorem life_append (id : Nat) (h es : List Ev) :
    life id (h ++ es) = (life id h).bind fun l => es.foldlM (Life.step id) l := by
  simp [life, List.foldlM_append]

theorem foldlM_other (h : ∀ e ∈ es, e.about ≠ some id) : es.foldlM (Life.step id) l = some l := by
  induction es with
  | nil => rfl
  | cons e es ih =>
    have he : Life.step id l e = some l := by simp [Life.step, h e mem_cons_self]
    rw [foldlM_cons, he]
    exact ih fun e' he' => h e' (mem_cons_of_mem e he')

theorem life_other (hh : c'.history = c.history ++ es) (h : ∀ e ∈ es, e.about ≠ some id) :
    life id c'.history = life id c.history := by
  rw [hh, life_append]
  cases life id c.history with
  | none => rfl
  | some l => exact foldlM_other h

theorem life_fresh (h : c.untouched id = true) : life id c.history = some .fresh := by
  refine foldlM_other fun e he => ?_
  simpa using all_eq_true.mp h e he

def CursorOk (s : StreamSlot) (cursor : Option (Nat × Nat)) : Prop :=
  if rendered s.bodyHandler then cursor = none ∧ s.tmplPos = 0 ∨ cursor = some (s.matchedRoute.getD 0, s.tmplPos)
  else cursor = none

def Shows (s : StreamSlot) (l : Life) : Prop :=
  match s.state with
  | .idle => True
  | .open | .pending => l = .waiting ∧ s.headersSent = false
  | .fetching => l = .waiting
  | .sending =>
    if s.headersSent then ∃ cursor, l = .body cursor ∧ CursorOk s cursor else l = .waiting ∧ s.tmplPos = 0
  | .wsActive => l = .body none
  | .app => l = if s.headersSent then .body none else .waiting

def Bodies (q : List Record) : Prop := ∀ rec ∈ q, rec.isHead = false

def QueueOk (s : StreamSlot) : Prop :=
  if s.state = .app then
    s.app.isOpen = true ∧
      if s.headersSent then
        s.app.respHead = true ∧ (s.frontHeadDone = true ∧ s.queue ≠ [] ∧ Bodies s.queue.tail ∨
          s.frontHeadDone = false ∧ Bodies s.queue)
      else
        s.frontHeadDone = false ∧ (s.app.respHead = false ∧ s.queue = [] ∨
          s.app.respHead = true ∧ ∃ front rest, s.queue = front :: rest ∧ front.isHead = true ∧ Bodies rest)
  else s.queue = [] ∧ s.frontHeadDone = false

structure Core (c : H2State) : Prop extends Tidy c where
  legal : ∀ id, (life id c.history).isSome = true
  live : ∀ i, (c.slot i).state ≠ .idle → c.closing = false ∨ (c.slot i).state = .app →
    ∃ l, life (c.slot i).id c.history = some l ∧ Shows (c.slot i) l
  held : c.closing = false → ∀ id l, life id c.history = some l → l.due = true →
    ∃ i, (c.slot i).id = id ∧ (c.slot i).state ≠ .idle
  queue : ∀ i, QueueOk (c.slot i)

structure WsOk (c : H2State) : Prop where
  slot : ∀ i, (c.slot i).state = .wsActive → c.wsActive = true ∧ (c.slot i).id = c.wsStreamId
  active : c.wsActive = true → ∃ i, (c.slot i).state = .wsActive

structure Kept (p : Captured) (s : StreamSlot) : Prop where
  state : s.state = .sending
  sent : s.headersSent = true
  handler : s.bodyHandler = p.bodyHandler
  route : s.matchedRoute = p.matchedRoute
  pos : s.tmplPos = p.tmplPos

structure CaptOk (c : H2State) : Prop where
  known : ∀ p ∈ c.captured, p.id ≠ 0 ∧ (c.closing = false → p.id ≤ c.lastStreamId)
  kept : ∀ p ∈ c.captured, (c.slot p.slot).id = p.id → Kept p (c.slot p.slot)

structure Inv (c : H2State) : Prop where
  core : Core c
  ws : WsOk c
  capt : CaptOk c

def StreamSlot.bare (s : StreamSlot) : StreamSlot := { s with sendWindow := 0 }

structure Quiet (c c' : H2State) : Prop where
  history : ∃ es, c'.history = c.history ++ es ∧ ∀ e ∈ es, e.about = none
  slots : ∀ i, (c'.slot i).bare = (c.slot i).bare
  last : c'.lastStreamId = c.lastStreamId
  closing : c'.closing = false → c.closing = false
  ws : c'.wsActive = c.wsActive ∧ c'.wsStreamId = c.wsStreamId
  captured : c'.captured = none ∨ c'.captured = c.captured

theorem Quiet.slotId (h : Quiet c c') (i : Nat) : (c'.slot i).id = (c.slot i).id := by
  change (c'.slot i).bare.id = _
  rw [h.slots i]
  rfl

theorem Quiet.slotState (h : Quiet c c') (i : Nat) : (c'.slot i).state = (c.slot i).state := by
  change (c'.slot i).bare.state = _
  rw [h.slots i]
  rfl

theorem Quiet.shows (h : Quiet c c') (hs : Shows (c.slot i) l) : Shows (c'.slot i) l := by
  change Shows (c'.slot i).bare l
  rw [h.slots i]
  exact hs

theorem Quiet.queueOk (h : Quiet c c') (hq : QueueOk (c.slot i)) : QueueOk (c'.slot i) := by
  change QueueOk (c'.slot i).bare
  rw [h.slots i]
  exact hq

theorem Quiet.kept {p : Captured} (h : Quiet c c') (hk : Kept p (c.slot i)) : Kept p (c'.slot i) := by
  have hk' : Kept p (c'.slot i).bare := by
    rw [h.slots i]
    exact ⟨hk.state, hk.sent, hk.handler, hk.route, hk.pos⟩
  exact ⟨hk'.state, hk'.sent, hk'.handler, hk'.route, hk'.pos⟩

theorem Quiet.life (h : Quiet c c') (id : Nat) : life id c'.history = life id c.history := by
  obtain ⟨es, hes, hno⟩ := h.history
  exact life_other hes fun e he => by simp [hno e he]

open H2State

theorem quiet_put (hs : c.staged = []) (n : Nat) : Quiet c (c.put [.control n]) :=
  ⟨⟨[.out (.control n)], history_put hs _, by simp [Ev.about]⟩, fun _ => rfl, rfl, fun h => h, ⟨rfl, rfl⟩, .inr rfl⟩

theorem quiet_queueGoaway (hs : c.staged = []) : Quiet c c.queueGoaway := by
  have h := quiet_put hs 8
  exact ⟨h.history, h.slots, h.last, nofun, h.ws, h.captured⟩

theorem Core.quiet (h : Core c) (hq : Quiet c c') : Core c' := by
  refine ⟨⟨fun i => ?_, fun i j hi hij => ?_, fun hc i => ?_⟩, fun id => ?_, fun i hi hlive => ?_, fun hc id l hl hdue => ?_,
    fun i => hq.queueOk (h.queue i)⟩
  · rw [hq.slotState, hq.slotId]
    exact h.vacant i
  · rw [hq.slotId] at hi hij
    rw [hq.slotId] at hij
    exact h.distinct i j hi hij
  · rw [hq.slotId, hq.last]
    exact h.known (hq.closing hc) i
  · rw [hq.life]
    exact h.legal id
  · rw [hq.slotState] at hi hlive
    obtain ⟨l, hl, hs⟩ := h.live i hi (hlive.imp_left hq.closing)
    exact ⟨l, by rw [hq.slotId, hq.life]; exact hl, hq.shows hs⟩
  · rw [hq.life] at hl
    obtain ⟨i, hi, hb⟩ := h.held (hq.closing hc) id l hl hdue
    exact ⟨i, (hq.slotId i).trans hi, by rwa [hq.slotState]⟩

theorem Inv.quiet (h : Inv c) (hq : Quiet c c') : Inv c' := by
  refine ⟨h.core.quiet hq, ⟨fun i hi => ?_, fun ha => ?_⟩, ⟨fun p hp => ?_, fun p hp hid => ?_⟩⟩
  · rw [hq.slotState] at hi
    rw [hq.ws.1, hq.ws.2, hq.slotId]
    exact h.ws.slot i hi
  · rw [hq.ws.1] at ha
    obtain ⟨i, hi⟩ := h.ws.active ha
    exact ⟨i, (hq.slotState i).trans hi⟩
  all_goals
    have hp' : p ∈ c.captured := by
      rcases hq.captured with hn | heq
      · rw [hn] at hp
        cases hp
      · exact heq ▸ hp
  · rw [hq.last]
    exact ⟨(h.capt.known p hp').1, fun hc => (h.capt.known p hp').2 (hq.closing hc)⟩
  · exact hq.kept (h.capt.kept p hp' (hq.slotId p.slot ▸ hid))

/-! ## Steps that are about the stream in one slot -/

structure Touch (c c' : H2State) (i : Nat) (es : List Ev) : Prop where
  history : c'.history = c.history ++ es
  others : ∀ j, j ≠ i → c'.slot j = c.slot j
  last : c'.lastStreamId = c.lastStreamId
  closing : c'.closing = c.closing
  ws : c'.wsActive = c.wsActive ∧ c'.wsStreamId = c.wsStreamId
  captured : c'.captured = c.captured

theorem Touch.trans {es' : List Ev} (h : Touch c c' i es) (h' : Touch c' d i es') : Touch c d i (es ++ es') :=
  ⟨by rw [h'.history, h.history, append_assoc], fun j hj => (h'.others j hj).trans (h.others j hj),
    h'.last.trans h.last, h'.closing.trans h.closing, ⟨h'.ws.1.trans h.ws.1, h'.ws.2.trans h.ws.2⟩,
    h'.captured.trans h.captured⟩

theorem touch_put (hs : c.staged = []) (fs : List OutFrame) (i : Nat) : Touch c (c.put fs) i (fs.map Ev.out) :=
  ⟨history_put hs fs, fun _ _ => rfl, rfl, rfl, ⟨rfl, rfl⟩, rfl⟩

theorem touch_putWindow (hs : c.staged = []) (fs : List OutFrame) (w : Int) (i : Nat) :
    Touch c { c.put fs with sendWindow := w } i (fs.map Ev.out) :=
  ⟨history_put hs fs, fun _ _ => rfl, rfl, rfl, ⟨rfl, rfl⟩, rfl⟩

theorem touch_note (hs : c.staged = []) (e : Ev) (i : Nat) : Touch c (c.note e) i [e] :=
  ⟨history_note hs e, fun _ _ => rfl, rfl, rfl, ⟨rfl, rfl⟩, rfl⟩

theorem touch_setSlot (c : H2State) (i : Nat) (s : StreamSlot) : Touch c (c.setSlot i s) i [] :=
  ⟨by simp [history, setSlot], fun _ hj => slot_setSlot_ne hj s, rfl, rfl, ⟨rfl, rfl⟩, rfl⟩

theorem touch_freeSlot (c : H2State) (i : Nat) : Touch c (c.freeSlot i) i [] := touch_setSlot c i _

theorem touch_appendRst (h : c.sendLen + RST_LEN ≤ t.sendBufSize) (id code i : Nat) :
    Touch c (c.appendRst t id code) i [.out (.rstStream id code)] := by
  unfold appendRst
  rw [if_pos h]
  exact ⟨by simp [history], fun _ _ => rfl, rfl, rfl, ⟨rfl, rfl⟩, rfl⟩

structure Goes (s s' : StreamSlot) (l : Life) : Prop where
  id : s'.id = s.id
  busy : s'.state ≠ .idle
  shows : Shows s' l

theorem Core.touch {z : Life} (h : Core c) (ht : Touch c c' i es) (hb : (c.slot i).state ≠ .idle)
    (habout : ∀ e ∈ es, e.about = some (c.slot i).id) (hl : life (c.slot i).id c.history = some l)
    (hl' : es.foldlM (Life.step (c.slot i).id) l = some z)
    (hslot : Vacant (c'.slot i) ∧ z.due = false ∨ Goes (c.slot i) (c'.slot i) z) (hq : QueueOk (c'.slot i)) :
    Core c' := by
  have hlife : life (c.slot i).id c'.history = some z := by
    rw [ht.history, life_append, hl]
    exact hl'
  have hother : ∀ id, id ≠ (c.slot i).id → life id c'.history = life id c.history := fun id hid =>
    life_other ht.history fun e he heq => hid (Option.some.inj (heq.symm.trans (habout e he)))
  have hne : (c.slot i).id ≠ 0 := fun h0 => hb ((h.vacant i).mpr h0)
  refine ⟨⟨fun j => ?_, fun j k hj hjk => ?_, fun hc j => ?_⟩, fun id => ?_, fun j hj hlive => ?_,
    fun hc id m hm hdue => ?_, fun j => ?_⟩
  · by_cases hj : j = i
    · subst hj
      rcases hslot with ⟨hv, -⟩ | hg
      · simp [hv.1, hv.2]
      · exact iff_of_false hg.busy (hg.id ▸ hne)
    · rw [ht.others j hj]
      exact h.vacant j
  · have hid : ∀ m, (c'.slot m).id ≠ 0 → (c'.slot m).id = (c.slot m).id := by
      intro m hm
      by_cases hmi : m = i
      · subst hmi
        rcases hslot with ⟨hv, -⟩ | hg
        · exact absurd hv.1 hm
        · exact hg.id
      · rw [ht.others m hmi]
    have hk : (c'.slot k).id ≠ 0 := hjk ▸ hj
    rw [hid k hk, hid j hj] at hjk
    exact h.distinct j k (hid j hj ▸ hj) hjk
  · rw [ht.last]
    by_cases hj : j = i
    · subst hj
      rcases hslot with ⟨hv, -⟩ | hg
      · rw [hv.1]
        exact Nat.zero_le _
      · rw [hg.id]
        exact h.known (ht.closing ▸ hc) j
    · rw [ht.others j hj]
      exact h.known (ht.closing ▸ hc) j
  · by_cases hid : id = (c.slot i).id
    · rw [hid, hlife]
      rfl
    · rw [hother id hid]
      exact h.legal id
  · by_cases hji : j = i
    · subst hji
      rcases hslot with ⟨hv, -⟩ | hg
      · exact absurd hv.2 hj
      · exact ⟨z, by rw [hg.id]; exact hlife, hg.shows⟩
    · rw [ht.others j hji] at hj hlive ⊢
      rw [ht.closing] at hlive
      obtain ⟨m, hm, hs⟩ := h.live j hj hlive
      refine ⟨m, ?_, hs⟩
      rw [hother]
      · exact hm
      · intro heq
        exact hji (h.distinct j i (heq ▸ hne) heq)
  · by_cases hid : id = (c.slot i).id
    · rw [hid, hlife] at hm
      cases hm
      rcases hslot with ⟨-, hno⟩ | hg
      · rw [hno] at hdue
        cases hdue
      · exact ⟨i, hg.id.trans hid.symm, hg.busy⟩
    · rw [hother id hid] at hm
      obtain ⟨j, hj, hbj⟩ := h.held (ht.closing ▸ hc) id m hm hdue
      have hji : j ≠ i := by
        rintro rfl
        exact hid hj.symm
      exact ⟨j, by rwa [ht.others j hji], by rwa [ht.others j hji]⟩
  · by_cases hj : j = i
    · subst hj
      exact hq
    · rw [ht.others j hj]
      exact h.queue j

theorem Inv.touch {z : Life} (h : Inv c) (ht : Touch c c' i es) (hb : (c.slot i).state ≠ .idle)
    (habout : ∀ e ∈ es, e.about = some (c.slot i).id) (hl : life (c.slot i).id c.history = some l)
    (hl' : es.foldlM (Life.step (c.slot i).id) l = some z)
    (hslot : Vacant (c'.slot i) ∧ z.due = false ∨ Goes (c.slot i) (c'.slot i) z) (hq : QueueOk (c'.slot i))
    (hws : (c.slot i).state ≠ .wsActive) (hws' : (c'.slot i).state ≠ .wsActive)
    (hcapt : ∀ p ∈ c.captured, Kept p (c.slot i) → Vacant (c'.slot i) ∨ Kept p (c'.slot i)) : Inv c' := by
  refine ⟨h.core.touch ht hb habout hl hl' hslot hq, ⟨fun j hj => ?_, fun ha => ?_⟩, ⟨fun p hp => ?_, fun p hp hid => ?_⟩⟩
  · have hji : j ≠ i := by
      rintro rfl
      exact hws' hj
    rw [ht.others j hji] at hj ⊢
    rw [ht.ws.1, ht.ws.2]
    exact h.ws.slot j hj
  · rw [ht.ws.1] at ha
    obtain ⟨j, hj⟩ := h.ws.active ha
    have hji : j ≠ i := by
      rintro rfl
      exact hws hj
    exact ⟨j, by rwa [ht.others j hji]⟩
  · rw [ht.captured] at hp
    rw [ht.closing, ht.last]
    exact h.capt.known p hp
  · rw [ht.captured] at hp
    by_cases hpi : p.slot = i
    · subst hpi
      have hold : (c.slot p.slot).id = p.id := by
        rcases hslot with ⟨hv, -⟩ | hg
        · exact absurd (hid.symm.trans hv.1) (h.capt.known p hp).1
        · exact hg.id.symm.trans hid
      rcases hcapt p hp (h.capt.kept p hp hold) with hv | hk
      · exact absurd (hid.symm.trans hv.1) (h.capt.known p hp).1
      · exact hk
    · rw [ht.others p.slot hpi] at hid ⊢
      exact h.capt.kept p hp hid

theorem Inv.stray {e : Ev} (h : Inv c) (ht : Touch c c' 0 [e]) (hslots : ∀ j, c'.slot j = c.slot j)
    (hno : c.slotForId id = none) (habout : e.about = some id)
    (hl : ∀ l, life id c.history = some l → ∃ l', l.next id e = some l' ∧ l'.due = false) : Inv c' := by
  have hid : ∀ j, (c.slot j).state ≠ .idle → (c.slot j).id ≠ id := by
    intro j hb hj
    have := h.core.toTidy.slotForId hb
    rw [hj, hno] at this
    cases this
  have hother : ∀ k, k ≠ id → life k c'.history = life k c.history := fun k hk =>
    life_other ht.history fun e' he' => by
      rw [mem_singleton.mp he', habout]
      exact fun heq => hk (Option.some.inj heq).symm
  obtain ⟨l, hlife⟩ := isSome_iff_exists.mp (h.core.legal id)
  obtain ⟨l', hl', hdue'⟩ := hl l hlife
  have hlife' : life id c'.history = some l' := by
    rw [ht.history, life_append, hlife]
    simp [Life.step, habout, hl']
  refine ⟨⟨⟨fun j => ?_, fun j k => ?_, fun hc j => ?_⟩, fun k => ?_, fun j hj hlive => ?_, fun hc k m hm hdue => ?_,
    fun j => ?_⟩, ⟨fun j hj => ?_, fun ha => ?_⟩, ⟨fun p hp => ?_, fun p hp => ?_⟩⟩
  · rw [hslots]
    exact h.core.vacant j
  · rw [hslots, hslots]
    exact h.core.distinct j k
  · rw [hslots, ht.last]
    exact h.core.known (ht.closing ▸ hc) j
  · by_cases hk : k = id
    · rw [hk, hlife']
      rfl
    · rw [hother k hk]
      exact h.core.legal k
  · rw [hslots] at hj hlive ⊢
    rw [ht.closing] at hlive
    rw [hother _ (hid j hj)]
    exact h.core.live j hj hlive
  · by_cases hk : k = id
    · rw [hk, hlife'] at hm
      cases hm
      rw [hdue'] at hdue
      cases hdue
    · rw [hother k hk] at hm
      obtain ⟨j, hj⟩ := h.core.held (ht.closing ▸ hc) k m hm hdue
      exact ⟨j, by rwa [hslots]⟩
  · rw [hslots]
    exact h.core.queue j
  · rw [hslots] at hj ⊢
    rw [ht.ws.1, ht.ws.2]
    exact h.ws.slot j hj
  · rw [ht.ws.1] at ha
    obtain ⟨j, hj⟩ := h.ws.active ha
    exact ⟨j, by rwa [hslots]⟩
  · rw [ht.closing, ht.last]
    exact h.capt.known p (ht.captured ▸ hp)
  · rw [hslots]
    exact h.capt.kept p (ht.captured ▸ hp)

/-! ## Streams that end -/

/-- Frames that end the stream in slot `i`, with the slot still to be freed. -/
def Ends (c c' : H2State) (i : Nat) (l : Life) : Prop :=
  ∃ es l', Touch c c' i es ∧ c'.slots = c.slots ∧ (∀ e ∈ es, e.about = some (c.slot i).id) ∧
    es.foldlM (Life.step (c.slot i).id) l = some l' ∧ l'.due = false

theorem queueOk_freeSlot (hb : (c.slot i).state ≠ .idle) :
    Vacant ((c.freeSlot i).slot i) ∧ QueueOk ((c.freeSlot i).slot i) := by
  unfold freeSlot
  rw [slot_setSlot_self hb]
  exact ⟨⟨rfl, rfl⟩, rfl, rfl⟩

theorem Inv.free (h : Inv c) (he : Ends c c' i l) (hb : (c.slot i).state ≠ .idle)
    (hl : life (c.slot i).id c.history = some l) (hws : (c.slot i).state ≠ .wsActive) : Inv (c'.freeSlot i) := by
  obtain ⟨es, l', ht, hsl, habout, hl', hno⟩ := he
  have hslot : c'.slot i = c.slot i := by
    unfold slot
    rw [hsl]
  obtain ⟨hv, hq⟩ := queueOk_freeSlot (c := c') (hslot ▸ hb)
  have ht' : Touch c (c'.freeSlot i) i es := by simpa using ht.trans (touch_freeSlot c' i)
  exact h.touch ht' hb habout hl hl' (.inl ⟨hv, hno⟩) hq hws (by simp [hv.2]) fun _ _ _ => .inl hv

theorem ends_rst (hs : c.staged = []) (code : Nat) (hl : l.due = true) :
    Ends c (c.put [.rstStream (c.slot i).id code]) i l := by
  refine ⟨_, .gone, touch_put hs _ i, rfl, by simp [Ev.about], ?_, rfl⟩
  cases l <;> simp [Life.due] at hl <;> simp [Life.step, Ev.about, Life.next]

theorem ends_appendRst (code : Nat) (hroom : c.sendLen + RST_LEN ≤ t.sendBufSize) (hl : l.due = true) :
    Ends c (c.appendRst t (c.slot i).id code) i l := by
  refine ⟨_, .gone, touch_appendRst hroom _ code i, ?_, by simp [Ev.about], ?_, rfl⟩
  · unfold appendRst
    rw [if_pos hroom]
  · cases l <;> simp [Life.due] at hl <;> simp [Life.step, Ev.about, Life.next]

theorem ends_emitResponse (hs : c.staged = []) (n : Nat) : Ends c (c.emitResponse t (c.slot i).id n) i .waiting := by
  unfold emitResponse
  dsimp only
  split_ifs
  · exact ends_rst hs _ rfl
  · exact ⟨_, .ended, touch_put hs _ i, rfl, by simp [Ev.about],
      by simp [Life.step, Ev.about, Life.next, Piece.follows], rfl⟩

theorem Inv.answer (h : Inv c) (hs : c.staged = []) (hb : (c.slot i).state ≠ .idle)
    (hl : life (c.slot i).id c.history = some .waiting) (hws : (c.slot i).state ≠ .wsActive) (n : Nat) :
    Inv (c.answer t i n) := h.free (ends_emitResponse hs n) hb hl hws

theorem Inv.answerGrpc (h : Inv c) (hs : c.staged = []) (hb : (c.slot i).state ≠ .idle)
    (hl : life (c.slot i).id c.history = some .waiting) (hws : (c.slot i).state ≠ .wsActive) : Inv (c.answerGrpc i) := by
  refine h.free ⟨_, .ended, touch_put hs _ i, rfl, by simp [Ev.about], ?_, rfl⟩ hb hl hws
  simp [Life.step, Ev.about, Life.next, Piece.follows]

theorem canned_fits (t : Site) (hn : n < 64) :
    ¬ t.sendBufSize < FRAME_HEADER_LEN + cannedBlock n + FRAME_HEADER_LEN + n := by
  have hblock : ∀ m < 64, cannedBlock m ≤ 24 := by decide
  have := hblock n hn
  have := t.sendBufSize_ge
  unfold FRAME_HEADER_LEN
  omega

theorem ends_refused (hs : c.staged = []) (hn : n < 64) :
    Ends c ((c.emitResponse t (c.slot i).id n).appendRst t (c.slot i).id ERR_NO_ERROR) i .waiting := by
  have hemit : c.emitResponse t (c.slot i).id n =
      c.put [.headers (c.slot i).id (cannedBlock n) false, .data (c.slot i).id n true .whole] :=
    if_neg (canned_fits t hn)
  by_cases hroom : (c.emitResponse t (c.slot i).id n).sendLen + RST_LEN ≤ t.sendBufSize
  · have hrst := touch_appendRst hroom (c.slot i).id ERR_NO_ERROR i
    rw [hemit] at hrst ⊢
    refine ⟨_, .gone, (touch_put hs _ i).trans hrst, ?_, by simp [Ev.about], ?_, rfl⟩
    · unfold appendRst
      split_ifs <;> rfl
    · simp [Life.step, Ev.about, Life.next, Piece.follows]
  · have hsame : (c.emitResponse t (c.slot i).id n).appendRst t (c.slot i).id ERR_NO_ERROR =
        c.emitResponse t (c.slot i).id n := if_neg hroom
    rw [hsame]
    exact ends_emitResponse hs n

theorem Inv.refuseStream (h : Inv c) (hs : c.staged = []) (hb : (c.slot i).state ≠ .idle)
    (hl : life (c.slot i).id c.history = some .waiting) (hws : (c.slot i).state ≠ .wsActive) (hn : n < 64) :
    Inv (c.refuseStream t i n) := by
  unfold H2State.refuseStream
  dsimp only
  split_ifs with hes
  · exact h.free (ends_emitResponse hs n) hb hl hws
  · exact h.free (ends_refused hs hn) hb hl hws

theorem Inv.resetStream (h : Inv c) (hroom : c.sendLen + RST_LEN ≤ t.sendBufSize) (hb : (c.slot i).state ≠ .idle)
    (hl : life (c.slot i).id c.history = some l) (hdue : l.due = true) (hws : (c.slot i).state ≠ .wsActive)
    (code : Nat) : Inv (c.resetStream t i code) := h.free (ends_appendRst code hroom hdue) hb hl hws

theorem room_of_empty (t : Site) (hs : c.staged = []) : c.sendLen + RST_LEN ≤ t.sendBufSize := by
  have := t.sendBufSize_ge
  simp only [sendLen, hs, map_nil, List.sum_nil, RST_LEN]
  omega

theorem staged_of_sendLen (h : c.sendLen = 0) : c.staged = [] := by
  cases hst : c.staged with
  | nil => rfl
  | cons f fs =>
    have hpos : 0 < f.size := by cases f <;> simp [OutFrame.size, FRAME_HEADER_LEN, RST_LEN]
    simp only [sendLen, hst, map_cons, List.sum_cons] at h
    omega

theorem Core.live_app (h : Core c) (ha : (c.slot i).state = .app) :
    ∃ l, life (c.slot i).id c.history = some l ∧ l.due = true ∧ ((c.slot i).headersSent = false → l = .waiting) := by
  obtain ⟨l, hl, hs⟩ := h.live i (by simp [ha]) (.inr ha)
  simp only [Shows, ha] at hs
  refine ⟨l, hl, ?_, fun hno => by simpa [hno] using hs⟩
  rw [hs]
  split_ifs <;> rfl

theorem Inv.failAppStream (h : Inv c) (hroom : c.sendLen + RST_LEN ≤ t.sendBufSize) (ha : (c.slot i).state = .app) :
    Inv (c.failAppStream t i) := by
  obtain ⟨l, hl, hdue, hwait⟩ := h.core.live_app ha
  unfold H2State.failAppStream
  split_ifs with hfirst
  · rw [and_eq_true, decide_eq_true_eq] at hfirst
    rw [hwait (by simpa using hfirst.1)] at hl
    exact h.refuseStream (staged_of_sendLen hfirst.2) (by simp [ha]) hl (by simp [ha]) (by decide)
  · exact h.resetStream hroom (by simp [ha]) hl hdue (by simp [ha]) _

/-! ## Frames of the peer -/

theorem Inv.setSlot (h : Inv c) (hb : (c.slot i).state ≠ .idle)
    (hl : life (c.slot i).id c.history = some l) (hg : Goes (c.slot i) s l) (hq : QueueOk s)
    (hws : (c.slot i).state ≠ .wsActive) (hws' : s.state ≠ .wsActive)
    (hcapt : ∀ p ∈ c.captured, Kept p (c.slot i) → Kept p s) : Inv (c.setSlot i s) := by
  have hslot := slot_setSlot_self hb s
  refine h.touch (touch_setSlot c i s) hb nofun hl rfl (.inr ?_) ?_ hws ?_ fun p hp hk => .inr ?_
  all_goals rw [hslot]
  · exact hg
  · exact hq
  · exact hws'
  · exact hcapt p hp hk

theorem waiting_of_shows (hs : Shows s l) (hq : QueueOk s) (hb : s.state ≠ .idle)
    (hws : s.state ≠ .wsActive) (hsend : ¬ (s.state = .sending ∧ s.headersSent = true))
    (happ : ¬ (s.state = .app ∧ s.app.isOpen = true ∧ s.headersSent = true)) : l = .waiting := by
  unfold Shows at hs
  cases hst : s.state with
  | idle => exact absurd hst hb
  | wsActive => exact absurd hst hws
  | «open» | pending =>
    rw [hst] at hs
    exact hs.1
  | fetching =>
    rw [hst] at hs
    exact hs
  | sending =>
    rw [hst] at hs
    dsimp only at hs
    rw [if_neg fun hsent => hsend ⟨hst, hsent⟩] at hs
    exact hs.1
  | app =>
    rw [hst] at hs
    unfold QueueOk at hq
    rw [if_pos hst] at hq
    dsimp only at hs
    rwa [if_neg fun hsent => happ ⟨hst, hq.1, hsent⟩] at hs

theorem due_of_shows (hs : Shows s l) (hb : s.state ≠ .idle) : l.due = true := by
  unfold Shows at hs
  cases hst : s.state with
  | idle => exact absurd hst hb
  | «open» | pending =>
    rw [hst] at hs
    rw [hs.1]
    rfl
  | wsActive | fetching =>
    rw [hst] at hs
    rw [hs]
    rfl
  | sending =>
    rw [hst] at hs
    dsimp only at hs
    split_ifs at hs
    · obtain ⟨cursor, rfl, -⟩ := hs
      rfl
    · rw [hs.1]
      rfl
  | app =>
    rw [hst] at hs
    dsimp only at hs
    rw [hs]
    split_ifs <;> rfl

section

variable (h : Inv c)

include h

theorem Inv.refuseBody (hs : c.staged = []) (hcl : c.closing = false) (hb : (c.slot i).state ≠ .idle)
    (hws : (c.slot i).state ≠ .wsActive) (hsend : ¬ ((c.slot i).state = .sending ∧ (c.slot i).headersSent = true)) :
    Inv (c.refuseBody t i) := by
  obtain ⟨l, hl, hshow⟩ := h.core.live i hb (.inl hcl)
  unfold H2State.refuseBody
  dsimp only
  split_ifs with happ
  · exact h.resetStream (room_of_empty t hs) hb hl (due_of_shows hshow hb) hws _
  · have hw := waiting_of_shows hshow (h.core.queue i) hb hws hsend (by simpa [and_assoc] using happ)
    exact h.refuseStream hs hb (hw ▸ hl) hws (by decide)

theorem Inv.handleBody (hs : c.staged = []) (hcl : c.closing = false) (hb : (c.slot i).state ≠ .idle)
    (hws : (c.slot i).state ≠ .wsActive) {len : Nat} {badPadding : Bool} (endStream held : Bool)
    (hok : (badPadding || len = 0 || (c.slot i).bodyTotal + len ≤ (c.slot i).bodyLimit ||
      !((c.slot i).state = .sending && (c.slot i).headersSent)) = true) :
    Inv (c.handleBody t i len badPadding endStream held) := by
  obtain ⟨l, hl, hshow⟩ := h.core.live i hb (.inl hcl)
  have hq := h.core.queue i
  unfold H2State.handleBody
  by_cases hp : badPadding = true
  · rw [if_pos hp]
    exact h.quiet (quiet_queueGoaway hs)
  rw [if_neg hp]
  generalize hs1 : { c.slot i with bodyTotal := (c.slot i).bodyTotal + len } = s1
  have hst : s1.state = (c.slot i).state := hs1 ▸ rfl
  have h1 : Inv (c.setSlot i s1) :=
    h.setSlot hb hl ⟨hs1 ▸ rfl, hst ▸ hb, hs1 ▸ hshow⟩ (hs1 ▸ hq) hws (hst ▸ hws)
      fun p _ hk => hs1 ▸ ⟨hk.state, hk.sent, hk.handler, hk.route, hk.pos⟩
  have hslot : (c.setSlot i s1).slot i = s1 := slot_setSlot_self hb s1
  have hb1 : ((c.setSlot i s1).slot i).state ≠ .idle := by rwa [hslot, hst]
  have hws1 : ((c.setSlot i s1).slot i).state ≠ .wsActive := by rwa [hslot, hst]
  obtain ⟨l1, hl1, hshow1⟩ := h1.core.live i hb1 (.inl hcl)
  have hq1 := h1.core.queue i
  dsimp only
  split_ifs with hover hheld hend hopen
  · refine h1.refuseBody hs hcl hb1 hws1 ?_
    rw [hslot]
    rintro ⟨hsend, hsent⟩
    subst hs1
    simp only [or_eq_true, decide_eq_true_eq, hp, Bool.not_eq_true', Bool.and_eq_false_iff] at hok
    rcases hok with ((hok | hok) | hok) | hok | hok
    · exact absurd hok nofun
    · exact absurd hover.1 (by omega)
    · exact absurd hover.2 (Nat.not_lt.mpr hok)
    · exact absurd hsend (by simpa using hok)
    · exact absurd hsent (by simpa using hok)
  · exact h1.resetStream (room_of_empty t hs) hb1 hl1 (due_of_shows hshow1 hb1) hws1 _
  · rw [hslot] at hshow1 hq1
    simp only [Shows, hopen] at hshow1
    refine h1.setSlot hb1 hl1 ⟨?_, nofun, hshow1⟩ ?_ hws1 nofun fun p _ hk => ?_
    · rw [hslot]
    · simpa [QueueOk, hopen] using hq1
    · rw [hslot] at hk
      exact absurd (hk.state.symm.trans hopen) nofun
  · rw [hslot] at hshow1 hq1
    refine h1.setSlot hb1 hl1 ⟨?_, hst ▸ hb, hshow1⟩ hq1 hws1 (hst ▸ hws) fun p _ hk => ?_
    · rw [hslot]
    · rw [hslot] at hk
      exact ⟨hk.state, hk.sent, hk.handler, hk.route, hk.pos⟩
  · exact h1

/-! ## Tunnels -/

theorem Inv.tunnel (hcl : c.closing = false) (ha : c.wsActive = true) :
    ∃ i, (c.slot i).state = .wsActive ∧ (c.slot i).id = c.wsStreamId ∧ c.slotForId c.wsStreamId = some i ∧
      life c.wsStreamId c.history = some (.body none) := by
  obtain ⟨i, hi⟩ := h.ws.active ha
  have hid := (h.ws.slot i hi).2
  obtain ⟨l, hl, hs⟩ := h.core.live i (by simp [hi]) (.inl hcl)
  simp only [Shows, hi] at hs
  exact ⟨i, hi, hid, hid ▸ h.core.toTidy.slotForId (by simp [hi]), by rw [← hid, hl, hs]⟩

theorem Inv.wsFrame (hs : c.staged = []) (hcl : c.closing = false) (ha : c.wsActive = true) (n : Nat) :
    Inv (c.queueWsFrame n false) := by
  obtain ⟨i, hi, hid, -, hl⟩ := h.tunnel hcl ha
  have hb : (c.slot i).state ≠ .idle := by simp [hi]
  obtain ⟨l, hl', hshow⟩ := h.core.live i hb (.inl hcl)
  have hstep : [Ev.out (.data c.wsStreamId n false (.tunnel c.wsStreamId))].foldlM (Life.step (c.slot i).id) l = some l := by
    rw [hid, hl] at hl'
    cases hl'
    simp [Life.step, Ev.about, Life.next, Piece.follows, hid]
  have hcore : Core (c.queueWsFrame n false) :=
    h.core.touch (touch_put hs _ i) hb (by simp [Ev.about, hid]) hl' hstep (.inr ⟨rfl, hb, hshow⟩) (h.core.queue i)
  exact ⟨hcore, ⟨h.ws.slot, h.ws.active⟩, ⟨h.capt.known, h.capt.kept⟩⟩

theorem Inv.closeTunnel (hcl : c.closing = false) (ha : c.wsActive = true)
    (he : ∀ i, (c.slot i).id = c.wsStreamId → Ends c c' i (.body none)) : Inv c'.endTunnel := by
  obtain ⟨i, hi, hid, hfor, hl⟩ := h.tunnel hcl ha
  obtain ⟨es, l', ht, hsl, habout, hl', hno⟩ := he i hid
  have hb : (c.slot i).state ≠ .idle := by simp [hi]
  have hslot : ∀ j, c'.slot j = c.slot j := fun j => by
    unfold slot
    rw [hsl]
  have hend : c'.endTunnel = { c'.freeSlot i with wsActive := false, wsStreamId := 0 } := by
    have hfor' : c'.slotForId c'.wsStreamId = some i := by
      rw [ht.ws.2, ← hfor]
      unfold slotForId
      rw [hsl]
    unfold H2State.endTunnel
    rw [hfor']
    rfl
  obtain ⟨hv, hq⟩ := queueOk_freeSlot (c := c') (hslot i ▸ hb)
  have ht' : Touch c (c'.freeSlot i) i es := by simpa using ht.trans (touch_freeSlot c' i)
  have hcore := h.core.touch ht' hb habout (hid ▸ hl) hl' (.inl ⟨hv, hno⟩) hq
  rw [hend]
  refine ⟨⟨⟨hcore.vacant, hcore.distinct, hcore.known⟩, hcore.legal, hcore.live, hcore.held, hcore.queue⟩,
    ⟨fun j hj => ?_, nofun⟩, ⟨fun p hp => ?_, fun p hp hpid => ?_⟩⟩
  · exfalso
    change ((c'.freeSlot i).slot j).state = .wsActive at hj
    by_cases hji : j = i
    · subst hji
      rw [hv.2] at hj
      cases hj
    · rw [ht'.others j hji] at hj
      refine hji (h.core.distinct j i ?_ ((h.ws.slot j hj).2.trans hid.symm))
      exact fun h0 => absurd ((h.core.vacant j).mpr h0) (by simp [hj])
  · have hp' : p ∈ c.captured := ht'.captured ▸ hp
    change p.id ≠ 0 ∧ ((c'.freeSlot i).closing = false → p.id ≤ (c'.freeSlot i).lastStreamId)
    rw [ht'.closing, ht'.last]
    exact h.capt.known p hp'
  · have hp' : p ∈ c.captured := ht'.captured ▸ hp
    change ((c'.freeSlot i).slot p.slot).id = p.id at hpid
    change Kept p ((c'.freeSlot i).slot p.slot)
    by_cases hpi : p.slot = i
    · rw [hpi, hv.1] at hpid
      exact absurd hpid.symm (h.capt.known p hp').1
    · rw [ht'.others _ hpi] at hpid ⊢
      exact h.capt.kept p hp' hpid

theorem Inv.wsTurn (hs : c.staged = []) (hcl : c.closing = false) (ha : c.wsActive = true)
    (turn : TunnelTurn) : Inv (c.wsTurn turn) := by
  cases turn with
  | quiet => exact h
  | frame n => exact h.wsFrame hs hcl ha n
  | close n =>
    refine h.closeTunnel hcl ha fun i hid => ⟨_, .ended, touch_put hs _ i, rfl, by simp [Ev.about, hid], ?_, rfl⟩
    simp [Life.step, Ev.about, Life.next, Piece.follows, hid]

theorem Inv.handleRstStream (hs : c.staged = []) (hcl : c.closing = false) (id : Nat) :
    Inv (c.handleRstStream id) := by
  have hfor : (c.note (.peerReset id)).slotForId id = c.slotForId id := rfl
  unfold H2State.handleRstStream
  dsimp only
  rw [hfor]
  cases hsl : c.slotForId id with
  | none =>
    refine h.stray (touch_note hs _ 0) (fun _ => rfl) hsl rfl fun l _ => ⟨.gone, ?_, rfl⟩
    cases l <;> rfl
  | some i =>
    obtain ⟨hid, hb, hne⟩ := slotForId_some hsl
    obtain ⟨l, hl, hshow⟩ := h.core.live i hb (.inl hcl)
    have hreset : ∀ l, Ends c (c.note (.peerReset id)) i l := by
      intro l
      refine ⟨_, .gone, touch_note hs _ i, rfl, by simp [Ev.about, hid], ?_, rfl⟩
      cases l <;> simp [Life.step, Ev.about, Life.next, hid]
    simp only [Option.elim_some]
    split_ifs with hws
    · have hws' : (c.slot i).state = .wsActive := hws
      obtain ⟨ha, hwid⟩ := h.ws.slot i hws'
      refine h.closeTunnel hcl ha fun j hj => ?_
      obtain rfl : i = j := h.core.distinct i j (hid ▸ hne) (hwid.trans hj.symm)
      exact hreset _
    · exact h.free (hreset l) hb hl hws

theorem Inv.handleData (hs : c.staged = []) (hcl : c.closing = false) {len : Nat} {badPadding : Bool}
    (endStream held : Bool) (turn : TunnelTurn)
    (hok : id ≠ 0 → match c.slotForId id with
      | none => (decide (id ≤ c.lastStreamId) || c.untouched id) = true
      | some i => (decide ((c.slot i).state = .wsActive) || badPadding || len = 0 ||
          (c.slot i).bodyTotal + len ≤ (c.slot i).bodyLimit ||
          !((c.slot i).state = .sending && (c.slot i).headersSent)) = true) :
    Inv (c.handleData t id len badPadding endStream held turn) := by
  unfold H2State.handleData
  by_cases h0 : id = 0
  · rw [if_pos h0]
    exact h.quiet (quiet_queueGoaway hs)
  rw [if_neg h0]
  have hok := hok h0
  cases hsl : c.slotForId id with
  | none =>
    rw [hsl] at hok
    dsimp only at hok ⊢
    split_ifs with hle
    · exact h
    · refine h.stray (touch_put hs _ 0) (fun _ => rfl) hsl rfl fun l hl => ?_
      rw [life_fresh (by simpa [hle] using hok)] at hl
      cases hl
      exact ⟨.gone, rfl, rfl⟩
  | some i =>
    rw [hsl] at hok
    dsimp only at hok ⊢
    obtain ⟨-, hb, -⟩ := slotForId_some hsl
    split_ifs with hws
    · exact h.wsTurn hs hcl (h.ws.slot i hws).1 turn
    · exact h.handleBody hs hcl hb hws endStream held (by simpa [hws] using hok)

/-! ## New streams -/

theorem Inv.place (hcl : c.closing = false) (hid : c.lastStreamId < id)
    (hfresh : life id c.history = some .fresh) (hidle : (c.slot i).state = .idle)
    (hh : c'.history = c.history ++ [Ev.opened id]) (hothers : ∀ j, j ≠ i → c'.slot j = c.slot j)
    (hslot : (c'.slot i).id = id ∧ (c'.slot i).state = .open ∧ (c'.slot i).headersSent = false)
    (hq : QueueOk (c'.slot i)) (hlast : c'.lastStreamId = id)
    (hws : c'.wsActive = c.wsActive ∧ c'.wsStreamId = c.wsStreamId) (hcapt : c'.captured = c.captured) : Inv c' := by
  have hne : id ≠ 0 := by omega
  have hlife : life id c'.history = some .waiting := by
    rw [hh, life_append, hfresh]
    simp [Life.step, Ev.about, Life.next]
  have hother : ∀ k, k ≠ id → life k c'.history = life k c.history := fun k hk =>
    life_other hh fun e he => by
      rw [mem_singleton.mp he]
      exact fun heq => hk (Option.some.inj heq).symm
  have hnew : ∀ j, j ≠ i → (c'.slot j).id ≠ id := by
    intro j hj heq
    have := h.core.known hcl j
    rw [hothers j hj] at heq
    omega
  refine ⟨⟨⟨fun j => ?_, fun j k hj hjk => ?_, fun _ j => ?_⟩, fun k => ?_, fun j hj hlive => ?_, fun _ k m hm hdue => ?_,
    fun j => ?_⟩, ⟨fun j hj => ?_, fun ha => ?_⟩, ⟨fun p hp => ?_, fun p hp hpid => ?_⟩⟩
  · by_cases hj : j = i
    · subst hj
      exact iff_of_false (by simp [hslot.2.1]) (hslot.1 ▸ hne)
    · rw [hothers j hj]
      exact h.core.vacant j
  · by_cases hji : j = i
    · by_contra hjk'
      subst hji
      exact hnew k (Ne.symm hjk') (hjk.symm.trans hslot.1)
    · by_cases hki : k = i
      · subst hki
        exact absurd (hjk.trans hslot.1) (hnew j hji)
      · rw [hothers j hji] at hj hjk
        rw [hothers k hki] at hjk
        exact h.core.distinct j k hj hjk
  · rw [hlast]
    by_cases hj : j = i
    · subst hj
      exact hslot.1.le
    · rw [hothers j hj]
      exact (h.core.known hcl j).trans hid.le
  · by_cases hk : k = id
    · rw [hk, hlife]
      rfl
    · rw [hother k hk]
      exact h.core.legal k
  · by_cases hji : j = i
    · subst hji
      refine ⟨.waiting, hslot.1 ▸ hlife, ?_⟩
      simp [Shows, hslot.2.1, hslot.2.2]
    · have hk := hnew j hji
      rw [hothers j hji] at hj hlive hk ⊢
      rw [hother _ hk]
      exact h.core.live j hj (.inl hcl)
  · by_cases hk : k = id
    · exact ⟨i, hslot.1.trans hk.symm, by simp [hslot.2.1]⟩
    · rw [hother k hk] at hm
      obtain ⟨j, hj, hb⟩ := h.core.held hcl k m hm hdue
      have hji : j ≠ i := by
        rintro rfl
        exact hb hidle
      exact ⟨j, by rwa [hothers j hji], by rwa [hothers j hji]⟩
  · by_cases hj : j = i
    · exact hj ▸ hq
    · rw [hothers j hj]
      exact h.core.queue j
  · have hji : j ≠ i := by
      rintro rfl
      rw [hslot.2.1] at hj
      cases hj
    rw [hothers j hji] at hj ⊢
    rw [hws.1, hws.2]
    exact h.ws.slot j hj
  · rw [hws.1] at ha
    obtain ⟨j, hj⟩ := h.ws.active ha
    have hji : j ≠ i := by
      rintro rfl
      rw [hidle] at hj
      cases hj
    exact ⟨j, by rwa [hothers j hji]⟩
  · rw [hcapt] at hp
    have hk := h.capt.known p hp
    exact ⟨hk.1, fun _ => hlast ▸ (hk.2 hcl).trans hid.le⟩
  · rw [hcapt] at hp
    have hk := h.capt.known p hp
    by_cases hpi : p.slot = i
    · rw [hpi, hslot.1] at hpid
      have := hk.2 hcl
      omega
    · rw [hothers _ hpi] at hpid ⊢
      exact h.capt.kept p hp hpid

theorem Inv.openTunnel (hs : c.staged = []) (ha : c.wsActive = false) (ho : (c.slot i).state = .open)
    (hl : life (c.slot i).id c.history = some .waiting) :
    Inv { (c.put [.headers (c.slot i).id 5 false]).setSlot i { c.slot i with state := .wsActive } with
      wsActive := true, wsStreamId := (c.slot i).id } := by
  have hb : (c.slot i).state ≠ .idle := by simp [ho]
  obtain ⟨c1, hc1⟩ : ∃ c1, c1 = (c.put [.headers (c.slot i).id 5 false]).setSlot i { c.slot i with state := .wsActive } :=
    ⟨_, rfl⟩
  have ht : Touch c c1 i [.out (.headers (c.slot i).id 5 false)] :=
    hc1 ▸ (touch_put hs _ i).trans (touch_setSlot _ i _)
  have hslot : c1.slot i = { c.slot i with state := .wsActive } :=
    hc1 ▸ slot_setSlot_self (c := c.put _) hb _
  have hq : QueueOk (c1.slot i) := by
    have := h.core.queue i
    rw [hslot]
    simpa [QueueOk, ho] using this
  have hcore : Core c1 := by
    refine h.core.touch ht hb (by simp [Ev.about]) hl (z := .body none) ?_ (.inr ?_) hq
    · simp [Life.step, Ev.about, Life.next]
    · rw [hslot]
      exact ⟨rfl, nofun, rfl⟩
  rw [← hc1]
  refine ⟨⟨⟨hcore.vacant, hcore.distinct, hcore.known⟩, hcore.legal, hcore.live, hcore.held, hcore.queue⟩,
    ⟨fun j hj => ⟨rfl, ?_⟩, fun _ => ⟨i, ?_⟩⟩, ⟨fun p hp => ?_, fun p hp hpid => ?_⟩⟩
  · change (c1.slot j).state = .wsActive at hj
    change (c1.slot j).id = (c.slot i).id
    by_cases hji : j = i
    · rw [hji, hslot]
    · rw [ht.others j hji] at hj
      exact absurd (h.ws.slot j hj).1 (by simp [ha])
  · change (c1.slot i).state = .wsActive
    rw [hslot]
  · have hp' : p ∈ c.captured := ht.captured ▸ hp
    change p.id ≠ 0 ∧ (c1.closing = false → p.id ≤ c1.lastStreamId)
    rw [ht.closing, ht.last]
    exact h.capt.known p hp'
  · have hp' : p ∈ c.captured := ht.captured ▸ hp
    change (c1.slot p.slot).id = p.id at hpid
    change Kept p (c1.slot p.slot)
    by_cases hpi : p.slot = i
    · rw [hpi, hslot] at hpid
      have hk := h.capt.kept p hp' (hpi ▸ hpid)
      rw [hpi] at hk
      exact absurd (hk.state.symm.trans ho) nofun
    · rw [ht.others _ hpi] at hpid ⊢
      exact h.capt.kept p hp' hpid

theorem Inv.placeRequest (hcl : c.closing = false) (hd : d.staged = [])
    (hid : c.lastStreamId < id) (hfresh : life id c.history = some .fresh) (hidle : (c.slot i).state = .idle)
    (hh : d.history = c.history) (hothers : ∀ j, j ≠ i → d.slot j = c.slot j)
    (hslot : (d.slot i).id = id ∧ (d.slot i).state = .open ∧ (d.slot i).headersSent = false)
    (hq : QueueOk (d.slot i)) (hlast : d.lastStreamId = id)
    (hws : d.wsActive = c.wsActive ∧ d.wsStreamId = c.wsStreamId) (hcapt : d.captured = c.captured)
    (hcl' : d.closing = false) (endStream : Bool) (r : Request) : Inv (d.placeRequest t i endStream r) := by
  have hbd : (d.slot i).state ≠ .idle := by simp [hslot.2.1]
  unfold H2State.placeRequest
  dsimp only
  generalize hc2 : (d.note (.opened (d.slot i).id)).setSlot i
    { (d.note (.opened (d.slot i).id)).slot i with endStreamIn := endStream, sendsBody := r.sendsBody } = c2
  have hslot2 : c2.slot i = { d.slot i with endStreamIn := endStream, sendsBody := r.sendsBody } :=
    hc2 ▸ slot_setSlot_self (c := d.note _) hbd _
  have ht : Touch d c2 i [.opened (d.slot i).id] := by
    have := (touch_note hd (.opened (d.slot i).id) i).trans (touch_setSlot (d.note (.opened (d.slot i).id)) i
      { d.slot i with endStreamIn := endStream, sendsBody := r.sendsBody })
    exact hc2 ▸ this
  have h2 : Inv c2 := by
    refine h.place hcl hid hfresh hidle ?_ (fun j hj => (ht.others j hj).trans (hothers j hj)) ?_ ?_
      (ht.last.trans hlast) ⟨ht.ws.1.trans hws.1, ht.ws.2.trans hws.2⟩ (ht.captured.trans hcapt)
    · rw [ht.history, hh, hslot.1]
    · rw [hslot2]
      exact hslot
    · rw [hslot2]
      exact hq
  have hs2 : c2.staged = [] := hc2 ▸ hd
  have hcl2 : c2.closing = false := ht.closing.trans hcl'
  have ho2 : (c2.slot i).state = .open := by
    rw [hslot2]
    exact hslot.2.1
  have hb2 : (c2.slot i).state ≠ .idle := by simp [ho2]
  have hws2 : (c2.slot i).state ≠ .wsActive := by simp [ho2]
  have hid2 : (d.slot i).id = (c2.slot i).id := by rw [hslot2]
  obtain ⟨l, hl, hshow⟩ := h2.core.live i hb2 (.inl hcl2)
  obtain ⟨rfl, hsent2⟩ : l = .waiting ∧ (c2.slot i).headersSent = false := by simpa [Shows, ho2] using hshow
  rw [hid2]
  by_cases hm : r.malformed = true
  · rw [if_pos hm]
    exact h2.free (ends_rst hs2 _ rfl) hb2 hl hws2
  rw [if_neg hm]
  cases r.websocket with
  | some route =>
    dsimp only
    by_cases hbusy : (endStream || c2.wsActive) = true
    · rw [if_pos hbusy]
      exact h2.free (ends_rst hs2 _ rfl) hb2 hl hws2
    rw [if_neg hbusy]
    have ha : c2.wsActive = false := by
      rw [not_eq_true, or_eq_false_iff] at hbusy
      exact hbusy.2
    cases route with
    | refused n => exact h2.answer hs2 hb2 hl hws2 n
    | tunnel => exact h2.openTunnel hs2 ha ho2 hl
  | none =>
    dsimp only
    split_ifs with hdis hpend
    · exact h2.answer hs2 hb2 hl hws2 25
    all_goals
      have hq2 : (c2.slot i).queue = [] ∧ (c2.slot i).frontHeadDone = false := by
        simpa [QueueOk, ho2] using h2.core.queue i
    · refine h2.setSlot hb2 hl ⟨rfl, nofun, rfl, hsent2⟩ hq2 hws2 nofun fun p _ hk => ?_
      exact absurd (hk.state.symm.trans ho2) nofun
    · refine h2.setSlot hb2 hl ⟨rfl, hb2, hshow⟩ (h2.core.queue i) hws2 hws2 fun p _ hk => ?_
      exact absurd (hk.state.symm.trans ho2) nofun

theorem Inv.giveUp (hcl : c.closing = false) (hidle : (c.slot i).state = .idle)
    (hh : c'.history = c.history) (hothers : ∀ j, j ≠ i → c'.slot j = c.slot j)
    (hslot : Vacant (c'.slot i) ∨ (c'.slot i).state = .open ∧ c.lastStreamId < (c'.slot i).id) (hq : QueueOk (c'.slot i))
    (hws : c'.wsActive = c.wsActive ∧ c'.wsStreamId = c.wsStreamId) (hcapt : c'.captured = c.captured)
    (hcl' : c'.closing = true) : Inv c' := by
  have hnew : ∀ k, k ≤ c.lastStreamId → k ≠ 0 → (c'.slot i).id ≠ k := by
    intro k hk hk0 heq
    rcases hslot with hv | ⟨-, hlt⟩
    · exact hk0 (heq.symm.trans hv.1)
    · omega
  have hopen : (c'.slot i).state ≠ .app ∧ (c'.slot i).state ≠ .wsActive := by
    rcases hslot with hv | ⟨ho, -⟩
    · simp [hv.2]
    · simp [ho]
  have hno : c'.closing ≠ false := by simp [hcl']
  refine ⟨⟨⟨fun j => ?_, fun j k hj hjk => ?_, fun hc => absurd hc hno⟩, fun k => ?_, fun j hj hlive => ?_,
    fun hc => absurd hc hno, fun j => ?_⟩, ⟨fun j hj => ?_, fun ha => ?_⟩, ⟨fun p hp => ?_, fun p hp hpid => ?_⟩⟩
  · by_cases hj : j = i
    · subst hj
      rcases hslot with hv | ⟨ho, hlt⟩
      · simp [hv.1, hv.2]
      · exact iff_of_false (by simp [ho]) (by omega)
    · rw [hothers j hj]
      exact h.core.vacant j
  · by_cases hji : j = i
    · by_cases hki : k = i
      · rw [hji, hki]
      · have hk := h.core.known hcl k
        rw [hothers k hki] at hjk
        subst hji
        exact absurd hjk (hnew _ hk (hjk ▸ hj))
    · by_cases hki : k = i
      · have hk := h.core.known hcl j
        rw [hothers j hji] at hj hjk
        subst hki
        exact absurd hjk.symm (hnew _ hk hj)
      · rw [hothers j hji] at hj hjk
        rw [hothers k hki] at hjk
        exact h.core.distinct j k hj hjk
  · rw [hh]
    exact h.core.legal k
  · have hji : j ≠ i := by
      rintro rfl
      exact hopen.1 (hlive.resolve_left hno)
    rw [hothers j hji] at hj ⊢
    rw [hh]
    exact h.core.live j hj (.inl hcl)
  · by_cases hj : j = i
    · exact hj ▸ hq
    · rw [hothers j hj]
      exact h.core.queue j
  · have hji : j ≠ i := by
      rintro rfl
      exact hopen.2 hj
    rw [hothers j hji] at hj ⊢
    rw [hws.1, hws.2]
    exact h.ws.slot j hj
  · rw [hws.1] at ha
    obtain ⟨j, hj⟩ := h.ws.active ha
    have hji : j ≠ i := by
      rintro rfl
      rw [hidle] at hj
      cases hj
    exact ⟨j, by rwa [hothers j hji]⟩
  · rw [hcapt] at hp
    exact ⟨(h.capt.known p hp).1, fun hc => absurd hc hno⟩
  · rw [hcapt] at hp
    have hk := h.capt.known p hp
    by_cases hpi : p.slot = i
    · rw [hpi] at hpid
      exact absurd hpid (hnew _ (hk.2 hcl) hk.1)
    · rw [hothers _ hpi] at hpid ⊢
      exact h.capt.kept p hp hpid

theorem Inv.handleHeaders (hs : c.staged = []) (hcl : c.closing = false) {endHeaders : Bool}
    (endStream : Bool) (block : HeaderBlock)
    (hok : (decide (id % 2 = 0) || !endHeaders || id ≤ c.lastStreamId || c.untouched id) = true) :
    Inv (c.handleHeaders t id endHeaders endStream block) := by
  unfold H2State.handleHeaders
  by_cases hbad : id % 2 = 0 ∨ (!endHeaders) = true ∨ id ≤ c.lastStreamId
  · rw [if_pos hbad]
    exact h.quiet (quiet_queueGoaway hs)
  rw [if_neg hbad]
  rw [not_or, not_or] at hbad
  obtain ⟨hodd, heh, hlast⟩ := hbad
  have hfresh : life id c.history = some .fresh := by
    refine life_fresh ?_
    simpa [hodd, heh, hlast] using hok
  have hlt : c.lastStreamId < id := Nat.lt_of_not_le hlast
  cases ha : c.allocSlot t id with
  | none =>
    refine h.stray (touch_put hs _ 0) (fun _ => rfl) ?_ rfl fun l hl => ?_
    · cases hf : c.slotForId id with
      | none => rfl
      | some j =>
        have := h.core.known hcl j
        rw [(slotForId_some hf).1] at this
        omega
    · rw [hfresh] at hl
      cases hl
      exact ⟨.gone, rfl, rfl⟩
  | some r =>
    obtain ⟨i, d⟩ := r
    obtain ⟨hi, hidle, hd⟩ := allocSlot_some ha
    have hq : QueueOk { c.slot i with
        id := id, state := .open, headersSent := false, endStreamIn := false,
        sendWindow := c.peerInitialWindowSize } := by
      simpa [QueueOk, hidle] using h.core.queue i
    obtain ⟨s1, hs1⟩ : ∃ s1, s1 = { c.slot i with
      id := id, state := .open, headersSent := false, endStreamIn := false,
      sendWindow := c.peerInitialWindowSize } := ⟨_, rfl⟩
    rw [← hs1] at hd hq
    have hs1' : s1.id = id ∧ s1.state = .open ∧ s1.headersSent = false := hs1 ▸ ⟨rfl, rfl, rfl⟩
    have hself : d.slot i = s1 := hd ▸ Table.getD_set_self hi
    have hothers : ∀ j, j ≠ i → d.slot j = c.slot j := hd ▸ fun j hj => slot_setSlot_ne hj s1
    have hrest : d.history = c.history ∧ d.staged = [] ∧ d.closing = false ∧
        (d.wsActive = c.wsActive ∧ d.wsStreamId = c.wsStreamId) ∧ d.captured = c.captured :=
      hd ▸ ⟨rfl, hs, hcl, ⟨rfl, rfl⟩, rfl⟩
    obtain ⟨hh, hds, hdcl, hws, hcapt⟩ := hrest
    cases block with
    | badExtent =>
      have hover : Inv { d with closing := true } :=
        h.giveUp hcl hidle hh hothers (.inr (by rw [← hself] at hs1'; exact ⟨hs1'.2.1, hs1'.1 ▸ hlt⟩)) (hself ▸ hq) hws hcapt rfl
      exact hover.quiet (quiet_queueGoaway hds)
    | undecodable =>
      have hb : (d.slot i).state ≠ .idle := by simp [hself, hs1'.2.1]
      obtain ⟨hv, hqv⟩ := queueOk_freeSlot (c := { d with lastStreamId := id }) hb
      have hover : Inv { ({ d with lastStreamId := id } : H2State).freeSlot i with closing := true } :=
        h.giveUp hcl hidle hh (fun j hj => (slot_setSlot_ne hj _).trans (hothers j hj)) (.inl hv) hqv hws hcapt rfl
      exact hover.quiet (quiet_queueGoaway hds)
    | request r =>
      have hds' : ({ d with lastStreamId := id } : H2State).staged = [] := hds
      exact h.placeRequest hcl hds' hlt hfresh hidle hh hothers (hself ▸ hs1') (hself ▸ hq) rfl hws hcapt hdcl endStream r

end

theorem Quiet.trans (h : Quiet c c') (h' : Quiet c' d) : Quiet c d := by
  obtain ⟨es, hes, hno⟩ := h.history
  obtain ⟨es', hes', hno'⟩ := h'.history
  refine ⟨⟨es ++ es', by rw [hes', hes, append_assoc], fun e he => ?_⟩, fun i => (h'.slots i).trans (h.slots i),
    h'.last.trans h.last, h.closing ∘ h'.closing, ⟨h'.ws.1.trans h.ws.1, h'.ws.2.trans h.ws.2⟩, ?_⟩
  · exact (mem_append.mp he).elim (hno e) (hno' e)
  · rcases h'.captured with hn | heq
    · exact .inl hn
    · rw [heq]
      exact h.captured

theorem quiet_applyInitialWindowSize (hs : c.staged = []) (v : Nat) : Quiet c (c.applyInitialWindowSize v) := by
  have hh : (c.note (.initialWindow v)).history = c.history ++ [Ev.initialWindow v] := history_note hs _
  unfold applyInitialWindowSize
  dsimp only
  split_ifs
  · exact ⟨⟨_, hh, by simp [Ev.about]⟩, fun _ => rfl, rfl, fun h => h, ⟨rfl, rfl⟩, .inr rfl⟩
  · refine ⟨⟨_, hh, by simp [Ev.about]⟩, fun j => ?_, rfl, fun h => h, ⟨rfl, rfl⟩, .inr rfl⟩
    have hslot : ∀ f : StreamSlot → StreamSlot, f {} = {} → (c.slots.map f).getD j {} = f (c.slot j) := by
      intro f hf
      have := List.getD_map (d := ({} : StreamSlot)) (n := j) (l := c.slots) f
      rwa [hf] at this
    change StreamSlot.bare (List.getD (c.slots.map _) j {}) = _
    rw [hslot _ rfl]
    split_ifs <;> rfl

theorem quiet_applySettings (hs : c.staged = []) (values : List Nat) : Quiet c (c.applySettings values) := by
  induction values generalizing c with
  | nil => exact quiet_put hs 0
  | cons v vs ih =>
    unfold applySettings
    split_ifs
    · exact quiet_queueGoaway hs
    · refine (quiet_applyInitialWindowSize hs v).trans (ih ?_)
      unfold applyInitialWindowSize
      dsimp only
      split_ifs <;> exact hs

theorem quiet_handleWindowUpdate (hs : c.staged = []) (id delta : Nat) : Quiet c (c.handleWindowUpdate id delta) := by
  unfold handleWindowUpdate
  generalize delta % 2147483648 = n
  dsimp only
  by_cases h0 : n = 0
  · rw [if_pos h0]
    exact quiet_queueGoaway hs
  rw [if_neg h0]
  have hh : (c.note (.credit id n)).history = c.history ++ [Ev.credit id n] := history_note hs _
  by_cases hid : id = 0
  · rw [if_pos hid]
    exact ⟨⟨_, hh, by simp [Ev.about]⟩, fun _ => rfl, rfl, fun h => h, ⟨rfl, rfl⟩, .inr rfl⟩
  rw [if_neg hid]
  cases (c.note (.credit id n)).slotForId id with
  | none => exact ⟨⟨_, hh, by simp [Ev.about]⟩, fun _ => rfl, rfl, fun h => h, ⟨rfl, rfl⟩, .inr rfl⟩
  | some i =>
    refine ⟨⟨_, hh, by simp [Ev.about]⟩, ?_, rfl, fun h => h, ⟨rfl, rfl⟩, .inr rfl⟩
    exact slot_setSlot_forall (P := fun j s => s.bare = (c.slot j).bare) rfl fun _ => rfl

theorem Inv.processFrame (h : Inv c) (hr : c.ready = true) {f : InFrame} (hok : Orderly t c (.frame f) = true) :
    Inv (c.processFrame t f) := by
  obtain ⟨hs, hcl⟩ := staged_of_ready hr
  cases f with
  | settings values => exact h.quiet (quiet_applySettings hs values)
  | settingsAck | ignored => exact h
  | ping => exact h.quiet (quiet_put hs 8)
  | headers id endHeaders endStream block =>
    exact h.handleHeaders hs hcl endStream block (by simpa [Orderly, hr] using hok)
  | data id len badPadding endStream held turn =>
    refine h.handleData hs hcl endStream held turn fun h0 => ?_
    simp only [Orderly, hr, Bool.not_true, Bool.false_or, h0, decide_false] at hok
    split
    · rename_i hsl
      rwa [hsl] at hok
    · rename_i i hsl
      rwa [hsl] at hok
  | windowUpdate id delta => exact h.quiet (quiet_handleWindowUpdate hs id delta)
  | rstStream id => exact h.handleRstStream hs hcl id
  | broken => exact h.quiet (quiet_queueGoaway hs)

theorem Inv.armSlot (h : Inv c) (hb : (c.slot i).state ≠ .idle) (hl : life (c.slot i).id c.history = some .waiting)
    (hq : (c.slot i).queue = [] ∧ (c.slot i).frontHeadDone = false) (hws : (c.slot i).state ≠ .wsActive)
    (hsend : (c.slot i).state ≠ .sending) (hd : Handler) (fileIndex : Int) (r : Nat) :
    Inv (c.armSlot i hd fileIndex r) :=
  h.setSlot hb hl ⟨rfl, nofun, rfl, rfl⟩ hq hws nofun fun _ _ hk => absurd hk.state hsend

theorem Inv.dispatchRequest (h : Inv c) (hs : c.staged = []) (hcl : c.closing = false)
    (hp : (c.slot i).state = .pending) (d : Dispatch) : Inv (c.dispatchRequest t i d) := by
  have hb : (c.slot i).state ≠ .idle := by simp [hp]
  have hws : (c.slot i).state ≠ .wsActive := by simp [hp]
  have hsend : (c.slot i).state ≠ .sending := by simp [hp]
  obtain ⟨l, hl, hshow⟩ := h.core.live i hb (.inl hcl)
  obtain ⟨rfl, hsent⟩ : l = .waiting ∧ (c.slot i).headersSent = false := by simpa [Shows, hp] using hshow
  have hq : (c.slot i).queue = [] ∧ (c.slot i).frontHeadDone = false := by
    simpa [QueueOk, hp] using h.core.queue i
  unfold H2State.dispatchRequest
  cases d.matched with
  | none => exact h.answer hs hb hl hws 10
  | some r =>
    dsimp only
    by_cases hlong : t.handler r ≠ .app ∧ d.tooLong = true
    · rw [if_pos hlong]
      exact h.answer hs hb hl hws 13
    rw [if_neg hlong]
    cases t.handler r with
    | static | template =>
      dsimp only
      split_ifs
      · cases d.lookup with
        | hit | noSource => exact h.armSlot hb hl hq hws hsend _ _ _
        | pending | busy =>
          exact h.setSlot hb hl ⟨rfl, nofun, rfl⟩ hq hws nofun fun _ _ hk => absurd hk.state hsend
      · exact h.armSlot hb hl hq hws hsend _ _ _
    | file =>
      dsimp only
      cases d.file with
      | listing | opened index => exact h.armSlot hb hl hq hws hsend _ _ _
      | refused n => exact h.answer hs hb hl hws n
    | app =>
      dsimp only
      cases d.emit with
      | full => exact h
      | refused r =>
        refine h.refuseStream hs hb hl hws ?_
        cases r <;> decide
      | sent moreBody =>
        refine h.setSlot hb hl ⟨rfl, nofun, ?_⟩ ?_ hws nofun fun _ _ hk => absurd hk.state hsend
        · simp [Shows, hsent]
        · simp [QueueOk, hsent, hq]
    | grpc => exact h.answerGrpc hs hb hl hws
    | _ => exact h.answer hs hb hl hws 26

theorem Inv.driveCacheFetch (h : Inv c) (hs : c.staged = []) (hcl : c.closing = false) (res : BodyCache.CacheStepResult) :
    Inv (c.driveCacheFetch t res) := by
  unfold H2State.driveCacheFetch
  cases hf : c.fetchingSlot with
  | none => exact h
  | some i =>
    have hst := fetchingSlot_some hf
    have hb : (c.slot i).state ≠ .idle := by simp [hst]
    obtain ⟨l, hl, hshow⟩ := h.core.live i hb (.inl hcl)
    obtain rfl : l = .waiting := by simpa [Shows, hst] using hshow
    have hq : (c.slot i).queue = [] ∧ (c.slot i).frontHeadDone = false := by
      simpa [QueueOk, hst] using h.core.queue i
    simp only [Option.elim_some]
    split
    · exact h.armSlot hb hl hq (by simp [hst]) (by simp [hst]) _ _ _
    · exact h.answer hs hb hl (by simp [hst]) 19
    · exact h

/-! ## Bodies -/

theorem follows_chunk {cursor : Option (Nat × Nat)} (hc : CursorOk s cursor) (id pos : Nat) :
    ∃ cursor', Piece.follows id cursor (if rendered s.bodyHandler = true then
        .rendered (s.matchedRoute.getD 0) s.tmplPos (if rendered s.bodyHandler = true then pos else s.tmplPos)
        else .whole) = some cursor' ∧
      CursorOk { s with tmplPos := if rendered s.bodyHandler = true then pos else s.tmplPos } cursor' := by
  unfold CursorOk at hc
  split_ifs at hc ⊢ with hr
  · refine ⟨some (s.matchedRoute.getD 0, pos), ?_, ?_⟩
    · rcases hc with ⟨rfl, h0⟩ | rfl
      · simp [Piece.follows, h0]
      · simp [Piece.follows]
    · simp [CursorOk, hr]
  · subst hc
    exact ⟨none, by simp [Piece.follows], by simp [CursorOk, hr]⟩

theorem Inv.emitChunk {p : Captured} (h : Inv c) (hs : c.staged = []) (hcl : c.closing = false)
    (hcap : c.captured = none) (hk : Kept p (c.slot p.slot)) (hid : (c.slot p.slot).id = p.id) (avail : Int)
    (r : Rendered) : Inv (c.emitChunk t p avail r) := by
  have hb : (c.slot p.slot).state ≠ .idle := by simp [hk.state]
  have hws : (c.slot p.slot).state ≠ .wsActive := by simp [hk.state]
  obtain ⟨l, hl, hshow⟩ := h.core.live p.slot hb (.inl hcl)
  obtain ⟨cursor, rfl, hcur⟩ : ∃ cursor, l = .body cursor ∧ CursorOk (c.slot p.slot) cursor := by
    simpa [Shows, hk.state, hk.sent] using hshow
  obtain ⟨cursor', hfol, hcur'⟩ := follows_chunk hcur (c.slot p.slot).id r.pos
  unfold H2State.emitChunk
  dsimp only
  rw [← hk.handler, ← hk.route, ← hk.pos]
  generalize min r.len (min (t.sendBufSize - FRAME_HEADER_LEN) avail.toNat) = n
  generalize (if rendered (c.slot p.slot).bodyHandler = true then r.pos else (c.slot p.slot).tmplPos) = pos at hfol hcur' ⊢
  generalize (if rendered (c.slot p.slot).bodyHandler = true then _ else _) = piece at hfol ⊢
  generalize hs1 : { c.slot p.slot with tmplPos := pos } = s1 at hcur' ⊢
  have hself : (c.setSlot p.slot s1).slot p.slot = s1 := slot_setSlot_self hb s1
  have h1 : s1.id = (c.slot p.slot).id ∧ s1.state = .sending ∧ s1.headersSent = true ∧ QueueOk s1 :=
    hs1 ▸ ⟨rfl, hk.state, hk.sent, h.core.queue p.slot⟩
  have hshows : ∀ w, Shows { s1 with sendWindow := w } (.body cursor') := by
    intro w
    have : ∃ cursor, Life.body cursor' = .body cursor ∧ CursorOk { s1 with sendWindow := w } cursor := ⟨cursor', rfl, hcur'⟩
    simpa only [Shows, h1.2.1, h1.2.2.1, if_true] using this
  have hno : ∀ p' ∈ c.captured, ∀ (s : StreamSlot), Kept p' (c.slot p.slot) → Vacant s ∨ Kept p' s := by
    rw [hcap]
    nofun
  rw [← hid]
  have ht1 := touch_setSlot c p.slot s1
  generalize hc1 : c.setSlot p.slot s1 = c1 at hself ht1 ⊢
  have hs1' : c1.staged = [] := hc1 ▸ hs
  have hb1 : (c1.slot p.slot).state ≠ .idle := by simp [hself, h1.2.1]
  by_cases hz : n = 0 ∧ r.more = true
  · rw [if_pos hz]
    refine h.touch (ht1.trans (touch_note hs1' _ p.slot)) hb (by simp [Ev.about]) hl (z := .body cursor') ?_ (.inr ?_) ?_
      hws ?_ fun p' hp' hk' => hno p' hp' _ hk'
    · simp [Life.step, Ev.about, Life.next, hfol]
    · exact ⟨hself ▸ h1.1, hb1, hself ▸ hshows s1.sendWindow⟩
    · exact hself ▸ h1.2.2.2
    · change (c1.slot p.slot).state ≠ _
      simp [hself, h1.2.1]
  rw [if_neg hz]
  have ht2 := ht1.trans (touch_putWindow hs1' [.data (c.slot p.slot).id n (!r.more) piece] (clamp32 (c1.sendWindow - n)) p.slot)
  have hsl2 : ({ c1.put [.data (c.slot p.slot).id n (!r.more) piece] with
    sendWindow := clamp32 (c1.sendWindow - n) } : H2State).slot p.slot = s1 := hself
  generalize ({ c1.put [.data (c.slot p.slot).id n (!r.more) piece] with
    sendWindow := clamp32 (c1.sendWindow - n) } : H2State) = c2 at ht2 hsl2 ⊢
  have hb2 : (c2.slot p.slot).state ≠ .idle := by simp [hsl2, h1.2.1]
  cases hm : r.more with
  | true =>
    rw [if_pos rfl]
    have hsl3 := slot_setSlot_self hb2
      { c2.slot p.slot with sendWindow := clamp32 ((c2.slot p.slot).sendWindow - n) }
    refine h.touch (ht2.trans (touch_setSlot c2 p.slot _)) hb (by simp [Ev.about]) hl (z := .body cursor') ?_ (.inr ?_) ?_ hws ?_
      fun p' hp' hk' => hno p' hp' _ hk'
    · simp [Life.step, Ev.about, Life.next, hfol, hm]
    · rw [hsl3, hsl2]
      exact ⟨h1.1, by simp [h1.2.1], hshows _⟩
    · rw [hsl3, hsl2]
      exact h1.2.2.2
    · rw [hsl3]
      simp [hsl2, h1.2.1]
  | false =>
    rw [if_neg nofun]
    obtain ⟨hv, hq⟩ := queueOk_freeSlot hb2
    refine h.touch (ht2.trans (touch_freeSlot c2 p.slot)) hb (by simp [Ev.about]) hl (z := .ended) ?_ (.inl ⟨hv, rfl⟩) hq hws
      (by simp [hv.2]) fun p' hp' hk' => hno p' hp' _ hk'
    simp [Life.step, Ev.about, Life.next, hfol, hm]

theorem Inv.stepSendingBody (h : Inv c) (hs : c.staged = []) (hcl : c.closing = false) (hcap : c.captured = none)
    (hst : (c.slot i).state = .sending) (r : Rendered) : Inv (c.stepSendingBody t i r) := by
  have hb : (c.slot i).state ≠ .idle := by simp [hst]
  have hws : (c.slot i).state ≠ .wsActive := by simp [hst]
  unfold H2State.stepSendingBody
  dsimp only
  split_ifs with hsent hopen
  · obtain ⟨l, hl, hshow⟩ := h.core.live i hb (.inl hcl)
    have hsent' : (c.slot i).headersSent = false := by simpa using hsent
    obtain ⟨rfl, hpos⟩ : l = .waiting ∧ (c.slot i).tmplPos = 0 := by simpa [Shows, hst, hsent'] using hshow
    have hslot := slot_setSlot_self (c := c.put [.headers (c.slot i).id (slotBlock (c.slot i).bodyHandler
      (c.slot i).fileIndex) false]) hb { c.slot i with headersSent := true }
    refine h.touch ((touch_put hs _ i).trans (touch_setSlot _ i _)) hb (by simp [Ev.about]) hl (z := .body none) ?_
      (.inr ?_) ?_ hws ?_ (by rw [hcap]; nofun)
    · simp [Life.step, Ev.about, Life.next]
    · rw [hslot]
      refine ⟨rfl, hb, ?_⟩
      have : ∃ cursor, Life.body none = .body cursor ∧ CursorOk { c.slot i with headersSent := true } cursor := by
        refine ⟨none, rfl, ?_⟩
        unfold CursorOk
        split_ifs
        · exact .inl ⟨rfl, hpos⟩
        · rfl
      simpa only [Shows, hst, if_true] using this
    · rw [hslot]
      have := h.core.queue i
      simpa [QueueOk, hst] using this
    · rw [hslot]
      exact hws
  · refine h.emitChunk hs hcl hcap ⟨hst, ?_, rfl, rfl, rfl⟩ rfl _ r
    simpa using hsent
  · have hsent' : (c.slot i).headersSent = true := by simpa using hsent
    have hne : (c.slot i).id ≠ 0 := fun h0 => hb ((h.core.vacant i).mpr h0)
    refine ⟨⟨⟨h.core.vacant, h.core.distinct, h.core.known⟩, h.core.legal, h.core.live, h.core.held, h.core.queue⟩,
      ⟨h.ws.slot, h.ws.active⟩, ⟨fun p hp => ?_, fun p hp _ => ?_⟩⟩
    · cases hp
      exact ⟨hne, fun _ => h.core.known hcl i⟩
    · cases hp
      exact ⟨hst, hsent', rfl, rfl, rfl⟩

theorem Inv.resumeSendingBody (h : Inv c) (hs : c.staged = []) (hcl : c.closing = false)
    (hok : ∀ p ∈ c.captured, 0 < c.avail p.slot → c.slotForId p.id = some p.slot) (r : Rendered) :
    Inv (c.resumeSendingBody t r) := by
  unfold H2State.resumeSendingBody
  cases hp : c.captured with
  | none => exact h
  | some p =>
    have h1 : Inv { c with captured := none } :=
      h.quiet ⟨⟨[], by simp [history], nofun⟩, fun _ => rfl, rfl, fun hc => hc, ⟨rfl, rfl⟩, .inl rfl⟩
    simp only [Option.elim_some]
    split_ifs with hopen
    · have hid := (slotForId_some (hok p hp hopen)).1
      exact h1.emitChunk hs hcl rfl (h.capt.kept p hp hid) hid _ r
    · exact h1

/-! ## Application streams -/

section compose
variable {l₀ : Life} {x y : Composed} {rec : Record} {rest : List Record}

structure Framed (id : Nat) (l₀ : Life) (x : Composed) (l : Life) : Prop where
  about : ∀ f ∈ x.frames, (Ev.out f).about = some id
  life : (x.frames.map Ev.out).foldlM (Life.step id) l₀ = some l
  id : x.slot.id = id
  state : x.slot.state = .app

structure Running (id : Nat) (l₀ : Life) (x : Composed) : Prop where
  framed : Framed id l₀ x (if x.slot.headersSent = true then .body none else .waiting)
  queue : QueueOk x.slot
  first : x.slot.headersSent = false → x.frames = []
  going : x.failed = false ∧ x.finished = false

inductive Stopped (id : Nat) (l₀ : Life) (x : Composed) : Prop
  | failed : x.failed = true → Framed id l₀ x .waiting → x.frames = [] → x.slot.headersSent = false →
    QueueOk x.slot → Stopped id l₀ x
  | finished : x.failed = false → x.finished = true → Framed id l₀ x .ended → Stopped id l₀ x
  | running : Running id l₀ x → Stopped id l₀ x

theorem Framed.concat {f : OutFrame} (h : Framed id l₀ x l) (hf : y.frames = x.frames ++ [f])
    (hid : y.slot.id = x.slot.id) (hst : y.slot.state = x.slot.state) (hab : (Ev.out f).about = some id)
    (hl : l.next id (.out f) = some l') : Framed id l₀ y l' := by
  refine ⟨fun g hg => ?_, ?_, hid.trans h.id, hst.trans h.state⟩
  · rw [hf] at hg
    rcases mem_append.mp hg with hg | hg
    · exact h.about g hg
    · rw [mem_singleton.mp hg]
      exact hab
  · rw [hf, map_append, List.foldlM_append, h.life]
    simp [Life.step, hab, hl]

theorem Framed.same (h : Framed id l₀ x l) (hf : y.frames = x.frames) (hid : y.slot.id = x.slot.id)
    (hst : y.slot.state = x.slot.state) : Framed id l₀ y l :=
  ⟨hf ▸ h.about, hf ▸ h.life, hid.trans h.id, hst.trans h.state⟩

theorem QueueOk.front (hq : QueueOk s) (ha : s.state = .app) (hcons : s.queue = rec :: rest) :
    s.app.isOpen = true ∧ s.app.respHead = true ∧ Bodies rest ∧
      (s.headersSent = false → rec.isHead = true ∧ s.frontHeadDone = false) ∧
      (s.headersSent = true → rec.isHead = true → s.frontHeadDone = true) := by
  unfold QueueOk at hq
  rw [if_pos ha, hcons] at hq
  obtain ⟨hopen, hq⟩ := hq
  split_ifs at hq with hsent
  · obtain ⟨hresp, hq⟩ := hq
    refine ⟨hopen, hresp, ?_, by simp [hsent], fun _ hhead => ?_⟩
    · rcases hq with ⟨-, -, hrest⟩ | ⟨-, hall⟩
      · exact hrest
      · exact fun r hr => hall r (mem_cons_of_mem rec hr)
    · rcases hq with ⟨hdone, -, -⟩ | ⟨-, hall⟩
      · exact hdone
      · exact absurd hhead (by simp [hall rec mem_cons_self])
  · obtain ⟨hdone, hq⟩ := hq
    rcases hq with ⟨-, hnil⟩ | ⟨hresp, front, rest', heq, hhead, hrest⟩
    · cases hnil
    · cases heq
      exact ⟨hopen, hresp, hrest, fun _ => ⟨hhead, hdone⟩, fun h => absurd h hsent⟩

theorem queueOk_sent (ha : s.state = .app) (ho : s.app.isOpen = true) (hs : s.headersSent = true)
    (hr : s.app.respHead = true) (hq : s.frontHeadDone = true ∧ s.queue ≠ [] ∧ Bodies s.queue.tail ∨
      s.frontHeadDone = false ∧ Bodies s.queue) : QueueOk s := by
  unfold QueueOk
  rw [if_pos ha, if_pos hs]
  exact ⟨ho, hr, hq⟩

structure HeadOut (id : Nat) (l₀ : Life) (x : Composed) (rec : Record) (rest : List Record) : Prop where
  run : Running id l₀ x
  sent : x.slot.headersSent = true
  queue : x.slot.queue = rec :: rest

theorem composeHead_spec (h : Running id l₀ x) (hcons : x.slot.queue = rec :: rest) :
    HeadOut id l₀ (composeHead t x rec) rec rest ∨
      (((composeHead t x rec).finished = true ∨ (composeHead t x rec).failed = true) ∧
        Stopped id l₀ (composeHead t x rec)) := by
  obtain ⟨hopen, hresp, hrest, hwait, hout⟩ := h.queue.front h.framed.state hcons
  cases rec with
  | body more len =>
    have hsent : x.slot.headersSent = true := by
      by_contra hno
      exact absurd (hwait (by simpa using hno)).1 nofun
    exact .inl ⟨h, hsent, hcons⟩
  | head status more body frame =>
    unfold composeHead
    split_ifs with hd
    · refine .inl ⟨h, ?_, hcons⟩
      by_contra hno
      exact absurd hd (by simp [(hwait (by simpa using hno)).2])
    have hsent : x.slot.headersSent = false := by
      by_contra hno
      exact hd (hout (by simpa using hno) rfl)
    have hfr := h.framed
    rw [if_neg (by simp [hsent])] at hfr
    dsimp only
    cases frame with
    | none =>
      refine .inr ⟨.inr rfl, .failed rfl (hfr.same rfl rfl rfl) (h.first hsent) hsent ?_⟩
      exact h.queue
    | some n =>
      dsimp only
      split_ifs with hroom
      · generalize hend : (!more && (!statusAllowsBody status x.slot.sendsBody || body == 0)) = endHere
        cases endHere with
        | true =>
          refine .inr ⟨.inl rfl, .finished h.going.1 rfl (hfr.concat rfl rfl rfl ?_ ?_)⟩
          · simp [Ev.about, h.framed.id]
          · simp [Life.next]
        | false =>
          refine .inl ⟨⟨hfr.concat rfl rfl rfl ?_ ?_, ?_, nofun, h.going.1, rfl⟩, rfl, hcons⟩
          · simp [Ev.about, h.framed.id]
          · simp [Life.next]
          · refine queueOk_sent h.framed.state hopen rfl hresp (.inl ⟨rfl, ?_, ?_⟩)
            · simp [hcons]
            · simpa [hcons] using hrest
      · refine .inr ⟨.inr rfl, .failed rfl (hfr.same rfl rfl rfl) (h.first hsent) hsent ?_⟩
        exact h.queue

theorem composeBody_stops (h : HeadOut id l₀ x rec rest) :
    Stopped id l₀ (composeBody t x rec rest).1 ∧
      ((composeBody t x rec rest).2 = false →
        Running id l₀ (composeBody t x rec rest).1 ∧ (composeBody t x rec rest).1.slot.queue = rest) := by
  obtain ⟨hopen, hresp, hrest, -, -⟩ := h.run.queue.front h.run.framed.state h.queue
  have hfr := h.run.framed
  rw [if_pos h.sent] at hfr
  rcases composeBody_spec t x rec rest with heq | ⟨n, fs, -, -, -, hfs, heq⟩
  · rw [heq]
    exact ⟨.running h.run, nofun⟩
  rw [heq]
  dsimp only
  have hslot : (x.advance rec rest n fs).slot.id = x.slot.id ∧ (x.advance rec rest n fs).slot.state = x.slot.state ∧
      (x.advance rec rest n fs).slot.headersSent = true ∧ QueueOk (x.advance rec rest n fs).slot ∧
      (n = rec.bodyLen - x.slot.frontTaken → (x.advance rec rest n fs).slot.queue = rest) := by
    unfold Composed.advance
    generalize (if x.slot.respCarries = true then (n : Int) else 0) = charge
    dsimp only
    split_ifs with hn
    · exact ⟨rfl, rfl, h.sent, queueOk_sent h.run.framed.state hopen h.sent hresp (.inr ⟨rfl, hrest⟩), fun _ => rfl⟩
    · exact ⟨rfl, rfl, h.sent, h.run.queue, fun h => absurd h hn⟩
  obtain ⟨hid, hst, hsent, hq, hqueue⟩ := hslot
  have hfin : (x.advance rec rest n fs).finished = decide (n = rec.bodyLen - x.slot.frontTaken ∧ rec.ends = true) := rfl
  -- the frames of this record, and whether they end the stream
  have hframed : Framed id l₀ (x.advance rec rest n fs)
      (if n = rec.bodyLen - x.slot.frontTaken ∧ rec.ends = true then .ended else .body none) := by
    cases hfs with
    | framed hc hpos hiff =>
      refine hfr.concat rfl hid hst (by simp [Ev.about, h.run.framed.id]) ?_
      simp [Life.next, Piece.follows, hiff]
    | bare hc hended _ =>
      refine hfr.concat rfl hid hst (by simp [Ev.about, h.run.framed.id]) ?_
      simp [Life.next, Piece.follows, hended]
    | idle _ hno =>
      have hgoes : ¬ (n = rec.bodyLen - x.slot.frontTaken ∧ rec.ends = true) := fun he =>
        absurd h.sent (by simp [hno he])
      rw [if_neg hgoes]
      exact hfr.same (by simp [Composed.advance]) hid hst
  have hfailed : (x.advance rec rest n fs).failed = false := h.run.going.1
  by_cases hended : n = rec.bodyLen - x.slot.frontTaken ∧ rec.ends = true
  · rw [if_pos hended] at hframed
    exact ⟨.finished hfailed (hfin.trans (decide_eq_true hended)) hframed, by simp [hended]⟩
  · rw [if_neg hended] at hframed
    have hrun : Running id l₀ (x.advance rec rest n fs) :=
      ⟨by rwa [if_pos hsent], hq, by simp [hsent], hfailed, by rw [hfin]; exact decide_eq_false hended⟩
    refine ⟨.running hrun, fun hgo => ⟨hrun, hqueue ?_⟩⟩
    have := of_decide_eq_false hgo
    rw [not_or, not_not] at this
    exact this.2

theorem composeLoop_stops (q : List Record) (h : Running id l₀ x) (hq : x.slot.queue = q) :
    Stopped id l₀ (composeLoop t q x) := by
  induction q generalizing x with
  | nil => exact .running h
  | cons rec rest ih =>
    unfold composeLoop
    dsimp only
    rcases composeHead_spec (t := t) h hq with hout | ⟨hstop, hs⟩
    · rw [if_neg (by simp [hout.run.going.1, hout.run.going.2])]
      obtain ⟨hs, hgo⟩ := composeBody_stops (t := t) hout
      split_ifs with hstop
      · exact hs
      · obtain ⟨hrun, hqueue⟩ := hgo (by simpa using hstop)
        exact ih hrun hqueue
    · rw [if_pos hstop]
      exact hs

end compose

theorem Inv.composeAppFrames (h : Inv c) (hs : c.staged = []) (hcap : c.captured = none)
    (ha : (c.slot i).state = .app) : Inv (c.composeAppFrames t i) := by
  have hb : (c.slot i).state ≠ .idle := by simp [ha]
  have hws : (c.slot i).state ≠ .wsActive := by simp [ha]
  obtain ⟨l, hl, hshow⟩ := h.core.live i hb (.inr ha)
  have hl₀ : l = if (c.slot i).headersSent = true then .body none else .waiting := by simpa only [Shows, ha] using hshow
  have hno : ∀ p ∈ c.captured, ∀ (s : StreamSlot), Kept p (c.slot i) → Vacant s ∨ Kept p s := by
    rw [hcap]
    rintro _ ⟨⟩
  have hrun : Running (c.slot i).id l { frames := [], slot := c.slot i, window := c.sendWindow } :=
    ⟨⟨(by rintro _ ⟨⟩), by rw [← hl₀]; rfl, rfl, ha⟩, h.core.queue i, fun _ => rfl, rfl, rfl⟩
  have hstop := composeLoop_stops (t := t) (c.slot i).queue hrun rfl
  unfold H2State.composeAppFrames
  dsimp only
  generalize composeLoop t (c.slot i).queue { frames := [], slot := c.slot i, window := c.sendWindow } = x at hstop ⊢
  have ht : Touch c { c.setSlot i x.slot with sendWindow := x.window, staged := x.frames } i (x.frames.map Ev.out) :=
    ⟨by simp [history, H2State.setSlot, hs], fun j hj => slot_setSlot_ne hj x.slot, rfl, rfl, ⟨rfl, rfl⟩, rfl⟩
  have hslot : ({ c.setSlot i x.slot with sendWindow := x.window, staged := x.frames } : H2State).slot i = x.slot :=
    slot_setSlot_self hb x.slot
  have hstaged : ({ c.setSlot i x.slot with sendWindow := x.window, staged := x.frames } : H2State).staged = x.frames := rfl
  generalize ({ c.setSlot i x.slot with sendWindow := x.window, staged := x.frames } : H2State) = c1 at ht hslot hstaged ⊢
  have hgoes : ∀ l', Framed (c.slot i).id l x l' → Shows x.slot l' → QueueOk x.slot → Inv c1 := by
    intro l' hf hsh hq
    refine h.touch ht hb ?_ hl hf.life (.inr ?_) (hslot ▸ hq) hws ?_ fun p hp hk => hno p hp _ hk
    · intro e he
      obtain ⟨f, hfm, rfl⟩ := mem_map.mp he
      exact hf.about f hfm
    · rw [hslot]
      exact ⟨hf.id, by simp [hf.state], hsh⟩
    · rw [hslot, hf.state]
      rintro ⟨⟩
  cases hstop with
  | failed hfail hf hnil hsent hq =>
    rw [if_pos hfail]
    have h1 : Inv c1 := hgoes _ hf (by simp [Shows, hf.state, hsent]) hq
    exact h1.failAppStream (room_of_empty t (hstaged.trans hnil)) (by rw [hslot, hf.state])
  | finished hfail hfin hf =>
    rw [if_neg (by simp [hfail]), if_pos hfin]
    have hb1 : (c1.slot i).state ≠ .idle := by simp [hslot, hf.state]
    have habout : ∀ e ∈ x.frames.map Ev.out, e.about = some (c.slot i).id := by
      intro e he
      obtain ⟨f, hfm, rfl⟩ := mem_map.mp he
      exact hf.about f hfm
    have hplain : Inv (c1.freeSlot i) := by
      obtain ⟨hv, hq⟩ := queueOk_freeSlot hb1
      exact h.touch (by simpa using ht.trans (touch_freeSlot c1 i)) hb habout hl hf.life (.inl ⟨hv, rfl⟩) hq hws
        (by simp [hv.2]) fun p hp hk => hno p hp _ hk
    split_ifs
    · exact hplain
    by_cases hroom : c1.sendLen + RST_LEN ≤ t.sendBufSize
    · have ht2 := ht.trans (touch_appendRst hroom x.slot.id ERR_NO_ERROR i)
      have hsl2 : (c1.appendRst t x.slot.id ERR_NO_ERROR).slot i = c1.slot i := by
        unfold appendRst
        rw [if_pos hroom]
        rfl
      obtain ⟨hv, hq⟩ := queueOk_freeSlot (c := c1.appendRst t x.slot.id ERR_NO_ERROR) (hsl2 ▸ hb1)
      refine h.touch (by simpa using ht2.trans (touch_freeSlot _ i)) hb ?_ hl (z := .gone) ?_ (.inl ⟨hv, rfl⟩) hq hws
        (by simp [hv.2]) fun p hp hk => hno p hp _ hk
      · intro e he
        rcases mem_append.mp he with he | he
        · exact habout e he
        · rw [mem_singleton.mp he, hf.id]
          rfl
      · rw [List.foldlM_append, hf.life]
        simp [Life.step, Ev.about, Life.next, hf.id]
    · rw [show c1.appendRst t x.slot.id ERR_NO_ERROR = c1 from if_neg hroom]
      exact hplain
  | running hr =>
    rw [if_neg (by simp [hr.going.1]), if_neg (by simp [hr.going.2])]
    refine hgoes _ hr.framed ?_ hr.queue
    simp [Shows, hr.framed.state]

theorem Bodies.concat {q : List Record} {rec : Record} (h : Bodies q) (hr : rec.isHead = false) : Bodies (q ++ [rec]) := by
  intro r hm
  rcases mem_append.mp hm with hm | hm
  · exact h r hm
  · rw [mem_singleton.mp hm]
    exact hr

theorem queueOk_append {rec : Record} (hq : QueueOk s) (ha : s.state = .app)
    (hr : rec.isHead = !s.app.respHead) (done : Bool) :
    QueueOk { s with queue := s.queue ++ [rec], app := { s.app with respHead := true, respDone := done } } := by
  unfold QueueOk at hq ⊢
  dsimp only
  rw [if_pos ha] at hq ⊢
  obtain ⟨ho, hq⟩ := hq
  refine ⟨ho, ?_⟩
  split_ifs at hq ⊢ with hsent
  · obtain ⟨hresp, hq⟩ := hq
    have hbody : rec.isHead = false := by simpa [hresp] using hr
    refine ⟨rfl, hq.imp (fun ⟨hd, hne, ht⟩ => ⟨hd, by simp, ?_⟩) fun ⟨hd, hall⟩ => ⟨hd, hall.concat hbody⟩⟩
    rw [List.tail_append_of_ne_nil hne]
    exact ht.concat hbody
  · obtain ⟨hd, hq⟩ := hq
    refine ⟨hd, .inr ⟨rfl, ?_⟩⟩
    rcases hq with ⟨hresp, hnil⟩ | ⟨hresp, front, rest, heq, hhead, hrest⟩
    · exact ⟨rec, [], by simp [hnil], by simpa [hresp] using hr, nofun⟩
    · exact ⟨front, rest ++ [rec], by simp [heq], hhead, hrest.concat (by simpa [hresp] using hr)⟩

theorem Inv.appRecord (h : Inv c) (hcap : c.captured = none) (ha : (c.slot i).state = .app) {r : AppRecord}
    (hroom : r.fails (c.slot i) = true → c.sendLen + RST_LEN ≤ t.sendBufSize) : Inv (c.appRecord t i r) := by
  have hb : (c.slot i).state ≠ .idle := by simp [ha]
  have hws : (c.slot i).state ≠ .wsActive := by simp [ha]
  unfold H2State.appRecord
  dsimp only
  split_ifs with hfail
  · exact h.failAppStream (hroom hfail) ha
  cases r with
  | abort | other => exact h
  | response rec fits =>
    obtain ⟨l, hl, hshow⟩ := h.core.live i hb (.inr ha)
    refine h.setSlot hb hl ⟨rfl, hb, hshow⟩ (queueOk_append (h.core.queue i) ha ?_ _) hws hws (by rw [hcap]; nofun)
    simp only [AppRecord.fails, not_eq_true, or_eq_false_iff] at hfail
    cases hh : rec.isHead with
    | true => simpa [hh] using hfail.1
    | false => simpa [hh] using (by simpa [hh] using hfail.1 : _ ∧ _).1

theorem Inv.appTimeout (h : Inv c) (hs : c.staged = []) (ha : (c.slot i).state = .app) : Inv (c.appTimeout t i) := by
  obtain ⟨l, hl, hdue, hwait⟩ := h.core.live_app ha
  unfold H2State.appTimeout
  split_ifs with hsent
  · exact h.resetStream (room_of_empty t hs) (by simp [ha]) hl hdue (by simp [ha]) _
  · exact h.refuseStream hs (by simp [ha]) (hwait (by simpa using hsent) ▸ hl) (by simp [ha]) (by decide)

/-! ## Every step and every run -/

theorem Inv.when {b : Bool} (h : Inv c) (hd : b = true → Inv d) : Inv (H2State.when b c d) := by
  unfold H2State.when
  split_ifs with hb
  · exact hd hb
  · exact h

theorem Inv.windowUpdate (h : Inv c) (hs : c.staged = []) (hcl : c.closing = false) (hb : (c.slot i).state ≠ .idle) :
    Inv (c.put [.windowUpdate (c.slot i).id]) := by
  obtain ⟨l, hl, hshow⟩ := h.core.live i hb (.inl hcl)
  have hdue := due_of_shows hshow hb
  have hstep : [Ev.out (.windowUpdate (c.slot i).id)].foldlM (Life.step (c.slot i).id) l = some l := by
    cases l <;> simp [Life.due] at hdue <;> simp [Life.step, Ev.about, Life.next]
  have hcore : Core (c.put [.windowUpdate (c.slot i).id]) :=
    h.core.touch (touch_put hs _ i) hb (by simp [Ev.about]) hl hstep (.inr ⟨rfl, hb, hshow⟩) (h.core.queue i)
  exact ⟨hcore, ⟨h.ws.slot, h.ws.active⟩, ⟨h.capt.known, h.capt.kept⟩⟩

theorem captured_of_idle (h : c.idle = true) : c.captured = none := by
  rw [idle, and_eq_true, decide_eq_true_eq] at h
  exact h.2

theorem captured_of_attached (h : c.attached = true) : c.captured = none := by
  rw [attached, and_eq_true, decide_eq_true_eq] at h
  exact h.2

theorem Inv.step (h : Inv c) {op : Op} (hok : Orderly t c op = true) : Inv (c.step t op) := by
  cases op with
  | flush =>
    refine h.quiet ⟨⟨[], ?_, (by rintro _ ⟨⟩)⟩, fun _ => rfl, rfl, fun hc => hc, ⟨rfl, rfl⟩, .inr rfl⟩
    simp [H2State.step, history]
  | frame f => exact h.when fun hr => h.processFrame hr hok
  | dispatch i d =>
    refine h.when fun hr => ?_
    rw [and_eq_true, decide_eq_true_eq] at hr
    obtain ⟨hs, hcl⟩ := staged_of_ready hr.1
    exact h.dispatchRequest hs hcl hr.2 d
  | fetch res =>
    refine h.when fun hr => ?_
    obtain ⟨hs, hcl⟩ := staged_of_ready (ready_of_idle hr)
    exact h.driveCacheFetch hs hcl res
  | sendBody i r =>
    refine h.when fun hr => ?_
    rw [and_eq_true, decide_eq_true_eq] at hr
    obtain ⟨hs, hcl⟩ := staged_of_ready (ready_of_idle hr.1)
    exact h.stepSendingBody hs hcl (captured_of_idle hr.1) hr.2 r
  | resume r =>
    refine h.when fun hr => ?_
    obtain ⟨hs, hcl⟩ := staged_of_ready hr
    refine h.resumeSendingBody hs hcl (fun p hp hopen => ?_) r
    have hp' : c.captured = some p := hp
    simpa [Orderly, hr, hp', hopen] using hok
  | abandon => exact h.quiet ⟨⟨[], by simp [H2State.step, history], (by rintro _ ⟨⟩)⟩, fun _ => rfl, rfl, fun hc => hc, ⟨rfl, rfl⟩, .inl rfl⟩
  | refill i =>
    cases i with
    | none => exact h.when fun hr => h.quiet (quiet_put (staged_of_ready (ready_of_idle hr)).1 4)
    | some i =>
      refine h.when fun hr => ?_
      rw [and_eq_true, decide_eq_true_eq] at hr
      obtain ⟨hs, hcl⟩ := staged_of_ready (ready_of_idle hr.1)
      exact h.windowUpdate hs hcl hr.2
  | forward i =>
    refine h.when fun hr => ?_
    rw [and_eq_true, decide_eq_true_eq] at hr
    have hb : (c.slot i).state ≠ .idle := by simp [hr.2]
    have hws : (c.slot i).state ≠ .wsActive := by simp [hr.2]
    obtain ⟨l, hl, hshow⟩ := h.core.live i hb (.inr hr.2)
    refine h.setSlot hb hl ⟨rfl, hb, hshow⟩ (h.core.queue i) hws hws ?_
    rw [captured_of_idle hr.1]
    rintro _ ⟨⟩
  | timeout i =>
    refine h.when fun hr => ?_
    rw [and_eq_true, decide_eq_true_eq] at hr
    exact h.appTimeout (staged_of_ready (ready_of_idle hr.1)).1 hr.2
  | compose i =>
    refine h.when fun hr => ?_
    rw [and_eq_true, decide_eq_true_eq] at hr
    exact h.composeAppFrames (staged_of_ready (ready_of_idle hr.1)).1 (captured_of_idle hr.1) hr.2
  | record i r =>
    refine h.when fun hr => ?_
    simp only [Orderly, hr, Bool.not_true, Bool.false_or] at hok
    rw [and_eq_true, decide_eq_true_eq] at hr
    exact h.appRecord (captured_of_attached hr.1) hr.2 fun hf => by simpa [hf] using hok
  | fail i =>
    refine h.when fun hr => ?_
    simp only [Orderly, hr, Bool.not_true, Bool.false_or] at hok
    rw [and_eq_true, and_eq_true, decide_eq_true_eq] at hr
    exact h.failAppStream (of_decide_eq_true hok) hr.1.2
  | tunnel turn =>
    refine h.when fun hr => ?_
    rw [and_eq_true] at hr
    obtain ⟨hs, hcl⟩ := staged_of_ready (ready_of_idle hr.1)
    exact h.wsTurn hs hcl hr.2 turn
  | envelope n left =>
    refine h.when fun hr => ?_
    simp only [Orderly, hr, Bool.not_true, Bool.false_or] at hok
    rw [and_eq_true] at hr
    obtain ⟨hs, hcl⟩ := staged_of_ready (ready_of_idle hr.1)
    have h1 := h.wsFrame hs hcl hok n
    exact h1.quiet ⟨⟨[], by simp [history, wsQueueFrameFin, queueWsFrame], (by rintro _ ⟨⟩)⟩, fun _ => rfl, rfl, fun hc => hc,
      ⟨rfl, rfl⟩, .inr rfl⟩
  | fragment n =>
    refine h.when fun hr => ?_
    simp only [Orderly, hr, Bool.not_true, Bool.false_or] at hok
    rw [and_eq_true] at hr
    obtain ⟨hs, hcl⟩ := staged_of_ready (ready_of_idle hr.1)
    have h1 := h.wsFrame hs hcl hr.2 n
    cases hf : c.wsFrag with
    | none => exact h
    | some frag =>
      obtain ⟨left, stream⟩ := frag
      obtain rfl : stream = c.wsStreamId := by simpa [hf] using hok
      exact h1.quiet ⟨⟨[], by simp [history, wsQueueFrameFin, queueWsFrame], (by rintro _ ⟨⟩)⟩, fun _ => rfl, rfl, fun hc => hc,
        ⟨rfl, rfl⟩, .inr rfl⟩
  | goaway => exact h.when fun hr => h.quiet (quiet_queueGoaway (staged_of_ready (ready_of_idle hr)).1)

theorem inv_init : Inv {} := by
  have hslot : ∀ i, ({} : H2State).slot i = {} := by
    intro i
    simp only [H2State.slot, List.getD_eq_getElem?_getD, List.getElem?_replicate]
    split_ifs <;> rfl
  refine ⟨⟨⟨fun i => ?_, fun i j hi => ?_, fun _ i => ?_⟩, fun _ => rfl, fun i hi => ?_, fun _ id l hl hdue => ?_, fun i => ?_⟩,
    ⟨fun i hi => ?_, by rintro ⟨⟩⟩, ⟨by rintro _ ⟨⟩, by rintro _ ⟨⟩⟩⟩
  · simp [hslot]
  · simp [hslot] at hi
  · simp [hslot]
  · simp [hslot] at hi
  · cases hl
    cases hdue
  · rw [hslot]
    exact ⟨rfl, rfl⟩
  · simp [hslot] at hi

/-- In every run whose steps are all orderly, every stream gets its response and nothing else, and
none that waits for one loses its slot. -/
theorem streams_proper (t : Site) (ops : List Op)
    (h : (machine t).Along (fun c op => Orderly t c op = true) {} ops) : Proper ((machine t).run {} ops).1 := by
  have hrun : Inv ((machine t).run {} ops).1 :=
    (machine t).run_invariant (I := Inv) (fun _ _ hs hc => hs.step hc) inv_init h
  exact ⟨hrun.core.legal, hrun.core.held⟩

def stalledThenReset : List Op :=
  [.frame (.settings [20]), .flush, .frame (.headers 1 true true (.request {})), .dispatch 0 { matched := some 0 },
    .sendBody 0 ⟨0, true, 0⟩, .flush, .sendBody 0 ⟨20, true, 20⟩, .flush, .sendBody 0 ⟨20, true, 40⟩,
    .frame (.rstStream 1), .frame (.headers 3 true true (.request {}))]

theorem streams_proper_stalledThenReset :
    (machine exampleSite).Along (fun c op => Orderly exampleSite c op = true) {}
        (stalledThenReset ++ [Op.abandon, .dispatch 0 { matched := some 0 }, .sendBody 0 ⟨0, true, 0⟩, .flush, .sendBody 0 ⟨20, true, 20⟩]) ∧
      life 3 ((machine exampleSite).run {} (stalledThenReset ++
        [Op.abandon, .dispatch 0 { matched := some 0 }, .sendBody 0 ⟨0, true, 0⟩, .flush, .sendBody 0 ⟨20, true, 20⟩])).1.history =
          some (.body (some (0, 20))) ∧
      Proper ((machine exampleSite).run {} (stalledThenReset ++
        [Op.abandon, .dispatch 0 { matched := some 0 }, .sendBody 0 ⟨0, true, 0⟩, .flush, .sendBody 0 ⟨20, true, 20⟩])).1 :=
  have h : (machine exampleSite).Along (fun c op => Orderly exampleSite c op = true) {}
      (stalledThenReset ++ [Op.abandon, .dispatch 0 { matched := some 0 }, .sendBody 0 ⟨0, true, 0⟩, .flush, .sendBody 0 ⟨20, true, 20⟩]) := by
    decide +kernel
  ⟨h, by decide +kernel, streams_proper _ _ h⟩

/-- The stall comes back with the window of the slot's new stream and ends the body of the one that was reset. -/
theorem streams_improper_stalledThenReset :
    ¬ ∀ (t : Site) (ops : List Op), Proper ((machine t).run {} ops).1 := by
  intro h
  have hlegal := (h exampleSite (stalledThenReset ++ [Op.resume ⟨20, false, 40⟩])).1 1
  revert hlegal
  decide +kernel

end Wave.Http.H2
