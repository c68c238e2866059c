import Wave.Http.SessionHolders
import Mathlib.Data.List.Infix

/-! # What a finished swap has moved

`maybe_start_swap` drains only ACTIVE sessions and skips refused DRAINs; `check_swap_done` asks neither. -/

namespace Wave.Http.Anchor

open Lib SessionAnchor

def quietSwap : List Entry → Option (Worker × Worker × List (Nat × SessionId))
  | [] => none
  | .swapStarted src dst on :: _ => some (src, dst, on)
  | .wrote _ _ _ _ :: l => quietSwap l
  | _ :: _ => none

def MovedAll (slots : List SessionSlot) (src dst : Worker) (on : List (Nat × SessionId)) : Prop :=
  (∀ s ∈ slots, s.phase ≠ .none → s.worker ≠ some src) ∧
    ∀ p ∈ on, (slots.getD p.1 {}).sessionId = p.2 ∧ (slots.getD p.1 {}).phase = .active ∧
      (slots.getD p.1 {}).worker = some dst

instance (slots : List SessionSlot) (src dst : Worker) (on : List (Nat × SessionId)) :
    Decidable (MovedAll slots src dst on) :=
  inferInstanceAs (Decidable (_ ∧ _))

/-- Every swap the log shows as done without a refusal or a close has moved all. -/
def SwapsMove (log : List Entry) : Prop :=
  ∀ slots l src dst on, .swapDone slots :: l <:+ log → quietSwap l = some (src, dst, on) →
    MovedAll slots src dst on

/-- A swap is to start, and has somewhere to go. -/
def SwapStarts (C : Setup) (a : SessionAnchor) : Prop :=
  C.anchored = true ∧ a.swapActive = false ∧ swapDue C a = true ∧ C.hasStandby = true

instance (C : Setup) (a : SessionAnchor) : Decidable (SwapStarts C a) := inferInstanceAs (Decidable (_ ∧ _))

def StartsActive (C : Setup) (a : SessionAnchor) : Turn → Prop
  | .startSwap _ => SwapStarts C a → ∀ s ∈ a.slots, s.phase ≠ .none → s.worker = some a.activeW → s.phase = .active
  | _ => True

instance (C : Setup) (a : SessionAnchor) : (t : Turn) → Decidable (StartsActive C a t)
  | .startSwap _ =>
    inferInstanceAs (Decidable (SwapStarts C a →
      ∀ s ∈ a.slots, s.phase ≠ .none → s.worker = some a.activeW → s.phase = .active))
  | .wsOpen _ _ | .slotClose _ | .forwarded _ _ | .relayed _ _ | .trigger _ | .attachPending | .ctrl _ _ _
  | .deadlines _ => isTrue trivial

def Inside (src : Worker) (s : SessionSlot) : Prop :=
  s.phase ≠ .none → s.worker = some src → s.phase.swapping = true

/-- A session that was there at the start is inside the swap or has been moved. -/
def Going (dst : Worker) (s : SessionSlot) : Prop :=
  s.phase.swapping = true ∨ (s.phase = .active ∧ s.worker = some dst)

structure QuietInv (a : SessionAnchor) (src dst : Worker) (on : List (Nat × SessionId)) : Prop where
  active : a.swapActive = true
  standby : a.swapTo = dst
  newcomers : a.activeW = dst
  ne : src ≠ dst
  inside : ∀ i, Inside src (a.slot i)
  going : ∀ p ∈ on, (a.slot p.1).sessionId = p.2 ∧ Going dst (a.slot p.1)

structure SwapInv (a : SessionAnchor) : Prop where
  moves : SwapsMove a.log
  quiet : ∀ src dst on, quietSwap a.log = some (src, dst, on) → QuietInv a src dst on

section Swap

variable {C : Setup} {a b : SessionAnchor} {i : Nat} {x : SessionSlot}

theorem SwapsMove.cons {l : List Entry} {e : Entry} (h : SwapsMove l) (he : ∀ slots, e ≠ .swapDone slots) :
    SwapsMove (e :: l) := by
  intro slots l' src dst on hsuf hq
  rcases List.suffix_cons_iff.mp hsuf with heq | hsuf
  · exact absurd (List.cons.inj heq).1.symm (he slots)
  · exact h slots l' src dst on hsuf hq

structure Quiet (l l' : List Entry) : Prop where
  swap : quietSwap l' = quietSwap l
  moves : SwapsMove l → SwapsMove l'

theorem Quiet.refl (l : List Entry) : Quiet l l := ⟨rfl, id⟩

theorem scWrite_quiet (C : Setup) (a : SessionAnchor) (w : Option Worker) (msg : Msg) (sid : SessionId)
    (epoch : UInt32) : Quiet a.log (scWrite C a w msg sid epoch).1.log := by
  rcases scWrite_cases C a w msg sid epoch with ⟨v, -, he⟩ | ⟨n, he⟩
  · rw [he]
    exact ⟨rfl, fun h => h.cons (by simp)⟩
  · rw [he]
    exact .refl _

structure Untouched (a b : SessionAnchor) : Prop where
  slots : b.slots = a.slots
  swapTo : b.swapTo = a.swapTo
  swapActive : b.swapActive = a.swapActive
  activeW : b.activeW = a.activeW
  log : Quiet a.log b.log

theorem scWrite_untouched (C : Setup) (a : SessionAnchor) (w : Option Worker) (msg : Msg) (sid : SessionId)
    (epoch : UInt32) : Untouched a (scWrite C a w msg sid epoch).1 := by
  have hq := scWrite_quiet C a w msg sid epoch
  rcases scWrite_cases C a w msg sid epoch with ⟨v, -, he⟩ | ⟨n, he⟩
  all_goals
    rw [he] at hq ⊢
    exact ⟨rfl, rfl, rfl, rfl, hq⟩

theorem sendDetach_untouched_if (C : Setup) (a : SessionAnchor) (w : Option Worker) (slot : SessionSlot)
    (p : Bool) : Untouched a (if p then sendDetach C a w slot else a) := by
  cases p with
  | false => exact ⟨rfl, rfl, rfl, rfl, .refl _⟩
  | true => exact scWrite_untouched C a w .detach slot.sessionId slot.epoch

theorem SwapInv.move (h : SwapInv a) (hslots : b.slots = a.slots.set i x) (hto : b.swapTo = a.swapTo)
    (hact : b.swapActive = a.swapActive) (hnew : b.activeW = a.activeW) (hlog : Quiet a.log b.log)
    (hin : ∀ src dst on, QuietInv a src dst on → Inside src x)
    (hgo : ∀ src dst on, QuietInv a src dst on → Going dst (a.slot i) →
      x.sessionId = (a.slot i).sessionId ∧ Going dst x) : SwapInv b := by
  have hslot : ∀ j, b.slot j = (a.setSlot i x).slot j := by
    intro j
    unfold SessionAnchor.slot
    rw [hslots]
    rfl
  refine ⟨hlog.moves h.moves, ?_⟩
  intro src dst on hq
  rw [hlog.swap] at hq
  have ha := h.quiet src dst on hq
  refine ⟨hact.trans ha.active, hto.trans ha.standby, hnew.trans ha.newcomers, ha.ne, ?_, ?_⟩
  · intro j
    rw [hslot]
    rcases slot_setSlot_cases a i j x with ⟨-, hj⟩ | hj
    · rw [hj]
      exact hin src dst on ha
    · rw [hj]
      exact ha.inside j
  · intro p hp
    obtain ⟨hsid, hgoing⟩ := ha.going p hp
    rw [hslot]
    rcases slot_setSlot_cases a i p.1 x with ⟨hpi, hj⟩ | hj
    · rw [hj]
      rw [hpi] at hsid hgoing
      obtain ⟨hxs, hxg⟩ := hgo src dst on ha hgoing
      exact ⟨hxs.trans hsid, hxg⟩
    · rw [hj]
      exact ⟨hsid, hgoing⟩

theorem SwapInv.congr (h : SwapInv a) (hb : Untouched a b) : SwapInv b := by
  have hslot : ∀ j, b.slot j = a.slot j := by
    intro j
    unfold SessionAnchor.slot
    rw [hb.slots]
  refine ⟨hb.log.moves h.moves, ?_⟩
  intro src dst on hq
  rw [hb.log.swap] at hq
  have ha := h.quiet src dst on hq
  refine ⟨hb.swapActive.trans ha.active, hb.swapTo.trans ha.standby, hb.activeW.trans ha.newcomers, ha.ne, ?_, ?_⟩
  · intro j
    rw [hslot]
    exact ha.inside j
  · intro p hp
    rw [hslot]
    exact ha.going p hp

theorem swapInv_of_loud (hmoves : SwapsMove a.log) (hloud : quietSwap a.log = none) : SwapInv a :=
  ⟨hmoves, fun _ _ _ hq => by rw [hloud] at hq; cases hq⟩

theorem QuietInv.movedAll {src dst : Worker} {on : List (Nat × SessionId)} (h : QuietInv a src dst on)
    (hnone : a.slots.any (·.phase.swapping) = false) : MovedAll a.slots src dst on := by
  constructor
  · intro s hs hphase hw
    obtain ⟨j, hj, hjs⟩ := mem_iff_getElem.mp hs
    have hslot : a.slot j = s := by
      unfold SessionAnchor.slot
      rw [List.getD_eq_getElem _ _ hj, hjs]
    have hin := h.inside j
    rw [hslot] at hin
    have hno := any_swapping_eq_false hnone j
    rw [hslot, hin hphase hw] at hno
    cases hno
  · intro p hp
    obtain ⟨hsid, hgo⟩ := h.going p hp
    rcases hgo with hgo | ⟨hact, hw⟩
    · rw [any_swapping_eq_false hnone p.1] at hgo
      cases hgo
    · exact ⟨hsid, hact, hw⟩

section

variable (h : SwapInv a)

include h

theorem SwapInv.check : SwapInv (checkSwapDone a) := by
  unfold checkSwapDone
  split
  · exact h
  · split
    · exact h
    next hany =>
      refine swapInv_of_loud ?_ rfl
      intro slots l src dst on hsuf hq
      rcases List.suffix_cons_iff.mp hsuf with heq | hsuf
      · obtain ⟨he, rfl⟩ := List.cons.inj heq
        cases he
        exact (h.quiet src dst on hq).movedAll (by simpa using hany)
      · exact h.moves slots l src dst on hsuf hq

theorem SwapInv.refuse (now : UInt64) (i : Nat) : SwapInv (refuseSession C now a i) := by
  unfold refuseSession
  dsimp only
  have hd := sendDetach_untouched_if C a (some a.swapTo) (a.slot i) (a.slot i).phase.exported
  revert hd
  generalize (if (a.slot i).phase.exported = true then sendDetach C a (some a.swapTo) (a.slot i) else a) = b
  intro hd
  refine SwapInv.check (SwapInv.congr (swapInv_of_loud ?_ rfl) (scWrite_untouched C _ _ _ _ _))
  exact (hd.log.moves h.moves).cons (by simp)

theorem SwapInv.close (i : Nat) : SwapInv (onSlotClose C a i) := by
  unfold onSlotClose
  dsimp only
  split
  · exact h
  · have hd := sendDetach_untouched_if C a (a.slot i).worker (a.slot i) (a.slot i).phase.attached
    revert hd
    generalize (if (a.slot i).phase.attached = true then sendDetach C a (a.slot i).worker (a.slot i) else a) = b
    intro hd
    have hd' := sendDetach_untouched_if C b (some b.swapTo) (a.slot i) (a.slot i).phase.exported
    revert hd'
    generalize (if (a.slot i).phase.exported = true then sendDetach C b (some b.swapTo) (a.slot i) else b) = c
    intro hd'
    refine SwapInv.check (swapInv_of_loud ?_ rfl)
    exact (hd'.log.moves (hd.log.moves h.moves)).cons (by simp)

/-- A slot changes its phase only: inside the swap it stays inside; outside it was neither ACTIVE nor on the old
worker. -/
theorem SwapInv.rephase (hsid : x.sessionId = (a.slot i).sessionId)
    (hw : x.worker = (a.slot i).worker)
    (hp : x.phase = (a.slot i).phase ∨ x.phase.swapping = true ∨
      ((a.slot i).phase ≠ .none ∧ (a.slot i).phase.swapping = false ∧ (a.slot i).phase ≠ .active)) :
    SwapInv (a.setSlot i x) := by
  refine h.move (i := i) rfl rfl rfl rfl (.refl _) ?_ ?_
  · intro src dst on ha hne hxw
    rw [hw] at hxw
    rcases hp with hp | hp | ⟨hnn, hns, -⟩
    · rw [hp] at hne ⊢
      exact ha.inside i hne hxw
    · exact hp
    · rw [ha.inside i hnn hxw] at hns
      cases hns
  · intro src dst on ha hgo
    refine ⟨hsid, ?_⟩
    rcases hp with hp | hp | ⟨-, hns, hna⟩
    · unfold Going
      rwa [hp, hw]
    · exact .inl hp
    · rcases hgo with hgo | hgo
      · rw [hns] at hgo
        cases hgo
      · exact absurd hgo.1 hna

theorem SwapInv.tryAttach
    (hp : (a.slot i).phase = .attachPending ∨ (a.slot i).worker = none) : SwapInv (tryAttach C a i) := by
  unfold Anchor.tryAttach
  dsimp only
  have hu := scWrite_untouched C a (a.slot i).worker .attach (a.slot i).sessionId (a.slot i).epoch
  rcases scWrite_cases C a (a.slot i).worker .attach (a.slot i).sessionId (a.slot i).epoch with
    ⟨v, hv, he⟩ | ⟨n, he⟩
  · rw [he] at hu ⊢
    have hpend : (a.slot i).phase = .attachPending := by
      rcases hp with hp | hp
      · exact hp
      · rw [hv] at hp
        cases hp
    refine (h.congr hu).rephase rfl rfl (.inr (.inr ?_))
    change (a.slot i).phase ≠ .none ∧ (a.slot i).phase.swapping = false ∧ (a.slot i).phase ≠ .active
    rw [hpend]
    decide
  · rw [he] at hu ⊢
    exact h.congr hu

theorem SwapInv.wsOpen (hp : (a.slot i).phase = .none) (conn : UInt32) :
    SwapInv (onWsOpen C a i conn) := by
  unfold onWsOpen
  split
  · dsimp only
    set x : SessionSlot :=
      { phase := .attachPending, sessionId := mintSessionId C.anchorId conn a.genNext, epoch := 1,
        worker := some a.activeW } with hx
    have hopened : SwapInv (({ a with genNext := a.genNext + 1 } : SessionAnchor).setSlot i x) := by
      refine h.move (i := i) (x := x) rfl rfl rfl rfl (.refl _) ?_ ?_
      · intro src dst on ha _ hw
        rw [hx, ha.newcomers] at hw
        exact absurd (Option.some.inj hw).symm ha.ne
      · rintro src dst on - (hgo | hgo)
        · rw [hp] at hgo
          cases hgo
        · rw [hp] at hgo
          cases hgo.1
    refine hopened.tryAttach ?_
    by_cases hlt : i < a.slots.length
    · exact .inl (by rw [slot_setSlot_self (by exact hlt)])
    · refine .inr ?_
      by_contra hw
      exact hlt (by simpa [SessionAnchor.setSlot] using lt_of_worker hw)
  · exact h

theorem SwapInv.deadlines (now : UInt64) : SwapInv (enforceDeadlines C now a) := by
  unfold enforceDeadlines
  refine List.foldlRecOn _ _ (motive := SwapInv) ?_ fun b hb i _ => ?_
  · split
    · refine SwapInv.check (List.foldlRecOn _ _ (motive := SwapInv) h fun b hb i _ => ?_)
      unfold refuseLate
      split
      · exact hb.refuse now i
      · exact hb
    · exact h
  · unfold failLate
    dsimp only
    split
    next hback => exact hb.rephase rfl rfl (.inr (.inr (by rw [hback.1]; decide)))
    · exact hb

theorem SwapInv.attachPending : SwapInv (attachPending C a) := by
  refine List.foldlRecOn _ _ (motive := SwapInv) h fun b hb i _ => ?_
  split
  next hp => exact hb.tryAttach (.inl hp)
  · exact hb

theorem SwapInv.relayed (now : UInt64) (w : Option Worker) (msg : Msg) (epoch : UInt32)
    (hx : x.phase.swapping = true) (hsid : x.sessionId = (a.slot i).sessionId)
    (hw : x.worker = (a.slot i).worker) :
    SwapInv (if (scWrite C a w msg (a.slot i).sessionId epoch).2 = true then
      (scWrite C a w msg (a.slot i).sessionId epoch).1.setSlot i x
      else refuseSession C now (scWrite C a w msg (a.slot i).sessionId epoch).1 i) := by
  have hu := scWrite_untouched C a w msg (a.slot i).sessionId epoch
  have hslot : (scWrite C a w msg (a.slot i).sessionId epoch).1.slot i = a.slot i :=
    congrArg (fun slots => slots.getD i {}) hu.slots
  split
  · exact (h.congr hu).rephase (hsid.trans (by rw [hslot])) (hw.trans (by rw [hslot])) (.inr (.inl hx))
  · exact (h.congr hu).refuse now i

theorem SwapInv.dispatch (now : UInt64) (w : Worker) (f : CtrlFrame) (i : Nat) :
    SwapInv (dispatchAt C now a w f i) := by
  unfold dispatchAt
  dsimp only
  cases f.msg with
  | attached =>
    cases f.statusOk with
    | none => exact h
    | some ok =>
      dsimp only
      split
      next hwait => exact h.rephase rfl rfl (.inr (.inr (by rw [hwait.1]; decide)))
      · exact h
  | exportBegin =>
    dsimp only
    split
    · split
      · exact h.relayed now _ _ _ rfl rfl rfl
      · exact h.refuse now i
    · exact h
  | exportChunk | exportEnd =>
    dsimp only
    split
    · split
      · exact h.congr (scWrite_untouched C _ _ _ _ _)
      · exact (h.congr (scWrite_untouched C _ _ _ _ _)).refuse now i
    · exact h
  | importBegin =>
    dsimp only
    split
    · exact h.refuse now i
    · exact h
  | importEnd =>
    cases f.statusOk with
    | none => exact h
    | some ok =>
      dsimp only
      split
      · split
        · exact h.relayed now _ _ _ rfl rfl rfl
        · exact h.refuse now i
      · exact h
  | resumed =>
    dsimp only
    split
    · refine SwapInv.check (SwapInv.congr ?_ (scWrite_untouched C _ _ _ _ _))
      refine h.move (i := i) rfl rfl rfl rfl (.refl _) ?_ ?_
      · intro src dst on ha _ hw
        rw [ha.standby] at hw
        exact absurd (Option.some.inj hw).symm ha.ne
      · intro src dst on ha _
        exact ⟨rfl, .inr ⟨rfl, by rw [ha.standby]⟩⟩
    · split
      next hback => exact h.rephase rfl rfl (.inr (.inr (by rw [hback.1]; decide)))
      · exact h
  | error =>
    dsimp only
    split
    · exact h.refuse now i
    · split
      next hback => exact h.rephase rfl rfl (.inr (.inr (by rw [hback.1]; decide)))
      · exact h
  | attach => exact h
  | drain => exact h
  | detach => exact h
  | resume => exact h
  | drained => exact h
  | detached => exact h
  | other => exact h

end

end Swap

section Start

variable {C : Setup} {a : SessionAnchor}

section

variable (now : UInt64) (src : Worker) (s : SessionSlot)

def drained : SessionSlot :=
  if s.phase = .active ∧ s.worker = some src then { s with phase := .drainWait, holdStartMs := now } else s

theorem drained_drained :
    drained now src (drained now src s) = drained now src s := by
  by_cases h : s.phase = .active ∧ s.worker = some src
  · simp [drained, h]
  · simp [drained, h]

theorem drained_worker :
    (drained now src s).worker = s.worker := by
  unfold drained
  split <;> rfl

end

theorem drained_phase_none (now : UInt64) (src : Worker) {s : SessionSlot} (h : s.phase = .none) :
    (drained now src s).phase = .none := by
  unfold drained
  rw [if_neg (by rw [h]; simp), h]

structure Drains (now : UInt64) (src : Worker) (a b : SessionAnchor) (l : List Nat) : Prop where
  slot : ∀ j, b.slot j = if j ∈ l then drained now src (a.slot j) else a.slot j
  swapTo : b.swapTo = a.swapTo
  swapActive : b.swapActive = a.swapActive
  activeW : b.activeW = a.activeW
  log : Quiet a.log b.log

theorem drainSlot_drains (hroom : ∀ n w, C.accepts n w .drain = true) (now : UInt64) (src : Worker)
    (r : SessionAnchor × Nat) (i : Nat) : Drains now src r.1 (drainSlot C now src r i).1 [i] := by
  unfold drainSlot
  dsimp only
  split
  next hact =>
    have hlt : i < r.1.slots.length := lt_of_phase (by rw [hact.1]; decide)
    simp only [scWrite, hroom, if_true]
    refine ⟨?_, rfl, rfl, rfl, ⟨rfl, fun h => h.cons (by simp)⟩⟩
    intro j
    by_cases hj : j = i
    · subst hj
      rw [if_pos (by simp), slot_setSlot_self (by exact hlt), drained, if_pos hact]
    · rw [if_neg (by simpa using hj), slot_setSlot_ne hj]
      rfl
  next hact =>
    refine ⟨?_, rfl, rfl, rfl, .refl _⟩
    intro j
    by_cases hj : j = i
    · subst hj
      rw [if_pos (by simp), drained, if_neg hact]
    · rw [if_neg (by simpa using hj)]

theorem Drains.trans {now : UInt64} {src : Worker} {b c : SessionAnchor} {l l' : List Nat}
    (h : Drains now src a b l) (h' : Drains now src b c l') : Drains now src a c (l ++ l') := by
  refine ⟨?_, h'.swapTo.trans h.swapTo, h'.swapActive.trans h.swapActive, h'.activeW.trans h.activeW,
    ⟨h'.log.swap.trans h.log.swap, fun hm => h'.log.moves (h.log.moves hm)⟩⟩
  intro j
  rw [h'.slot, h.slot]
  by_cases hj : j ∈ l <;> by_cases hj' : j ∈ l'
  · simp [hj, hj', drained_drained]
  · simp [hj, hj']
  · simp [hj, hj']
  · simp [hj, hj']

section

variable (hroom : ∀ n w, C.accepts n w .drain = true)

include hroom

theorem foldl_drains (now : UInt64) (src : Worker)
    (r : SessionAnchor × Nat) (l : List Nat) : Drains now src r.1 (l.foldl (drainSlot C now src) r).1 l := by
  induction l generalizing r with
  | nil => exact ⟨by simp, rfl, rfl, rfl, .refl _⟩
  | cons i l ih => exact (drainSlot_drains hroom now src r i).trans (ih _)

theorem quietInv_drainAll (now : UInt64)
    (hact : ∀ s ∈ a.slots, s.phase ≠ .none → s.worker = some a.activeW → s.phase = .active) :
    QuietInv (drainAll C now a.activeW (openSwap C now a)).1 a.activeW (!a.activeW)
      (a.sessionsOn a.activeW) := by
  have hd := foldl_drains hroom now a.activeW (openSwap C now a, 0) (List.range a.slots.length)
  change Drains now a.activeW (openSwap C now a) (drainAll C now a.activeW (openSwap C now a)).1 _ at hd
  have hin : ∀ j, (a.slot j).phase ≠ .none → (a.slot j).worker = some a.activeW →
      (drainAll C now a.activeW (openSwap C now a)).1.slot j =
        { a.slot j with phase := .drainWait, holdStartMs := now } := by
    intro j hne hw
    have hlt := lt_of_phase hne
    have hmem : a.slot j ∈ a.slots := by
      unfold SessionAnchor.slot
      rw [List.getD_eq_getElem _ _ hlt]
      exact getElem_mem hlt
    rw [hd.slot, if_pos (mem_range.mpr hlt)]
    exact if_pos ⟨hact _ hmem hne hw, hw⟩
  refine ⟨hd.swapActive, hd.swapTo, hd.activeW, by simp, ?_, ?_⟩
  · intro j hne hw
    have hsame : (a.slot j).phase ≠ .none ∧ (a.slot j).worker = some a.activeW := by
      rw [hd.slot] at hne hw
      split at hne
      next hmem =>
        rw [if_pos hmem, drained_worker] at hw
        exact ⟨fun h => hne (drained_phase_none now a.activeW h), hw⟩
      next hmem =>
        rw [if_neg hmem] at hw
        exact ⟨hne, hw⟩
    rw [hin j hsame.1 hsame.2]
    rfl
  · intro p hp
    obtain ⟨j, hj, rfl⟩ := mem_map.mp hp
    obtain ⟨-, hj⟩ := mem_filter.mp hj
    have hj : (a.slot j).phase ≠ .none ∧ (a.slot j).worker = some a.activeW := by simpa using hj
    dsimp only
    rw [hin j hj.1 hj.2]
    exact ⟨rfl, .inl rfl⟩

theorem SwapInv.startSwap (h : SwapInv a) (now : UInt64)
    (hwired : C.anchored = true) (hact : StartsActive C a (.startSwap now)) : SwapInv (maybeStartSwap C now a) := by
  unfold maybeStartSwap
  split
  · exact h
  next hidle =>
    split
    next hdue =>
      split
      next hstandby =>
        have hin := hact ⟨hwired, by simpa using hidle, hdue, hstandby⟩
        have hd := foldl_drains hroom now a.activeW (openSwap C now a, 0) (List.range a.slots.length)
        change Drains now a.activeW (openSwap C now a) (drainAll C now a.activeW (openSwap C now a)).1 _ at hd
        have hdrain : SwapInv (drainAll C now a.activeW (openSwap C now a)).1 := by
          refine ⟨hd.log.moves (h.moves.cons (by simp)), ?_⟩
          intro src dst on hq
          rw [hd.log.swap] at hq
          cases hq
          exact quietInv_drainAll hroom now hin
        dsimp only
        split
        · exact hdrain.check
        · exact hdrain
      · exact h.congr ⟨rfl, rfl, rfl, rfl, .refl _⟩
    · exact h

theorem SwapInv.turn (h : SwapInv a) (t : Turn)
    (hact : StartsActive C a t) : SwapInv (turn C a t) := by
  cases t with
  | wsOpen idx conn =>
    unfold Anchor.turn
    dsimp only
    split
    next hp => exact h.wsOpen hp conn
    · exact h
  | slotClose idx => exact h.close idx
  | forwarded idx total =>
    unfold Anchor.turn noteForwarded
    dsimp only
    split
    · exact h
    · have hset : SwapInv (a.setSlot idx { a.slot idx with forwarded := (a.slot idx).forwarded + total }) :=
        h.rephase rfl rfl (.inl rfl)
      exact hset.congr ⟨rfl, rfl, rfl, rfl, .refl _⟩
  | relayed idx total =>
    unfold Anchor.turn noteRelayed
    dsimp only
    split
    · exact h
    · exact h.rephase rfl rfl (.inl rfl)
  | trigger desired =>
    unfold Anchor.turn pumpTriggerTable
    dsimp only
    split
    · split
      · exact h.congr ⟨rfl, rfl, rfl, rfl, .refl _⟩
      · exact h
    · exact h
  | attachPending =>
    unfold Anchor.turn
    dsimp only
    split
    · exact h.attachPending
    · exact h
  | ctrl now w f =>
    unfold Anchor.turn dispatchCtrl
    dsimp only
    split
    · split
      · exact h.dispatch now w f _
      · exact h
    · exact h
  | deadlines now =>
    unfold Anchor.turn
    dsimp only
    split
    · exact h.deadlines now
    · exact h
  | startSwap now =>
    unfold Anchor.turn
    dsimp only
    split
    next hwired => exact h.startSwap hroom now hwired hact
    · exact h

end

end Start

theorem swapInv_init (conns : Nat) : SwapInv (init conns) := by
  refine swapInv_of_loud ?_ rfl
  intro slots l src dst on hsuf
  cases List.suffix_nil.mp hsuf

/-- In every run in which each DRAIN finds room and a swap starts with all sessions ACTIVE, a swap that is done, with
none refused or closed, has each session ACTIVE on the new worker. -/
theorem swap_moves_all (C : Setup) (hroom : ∀ n w, C.accepts n w .drain = true) (conns : Nat) (turns : List Turn)
    (hstart : (machine C).Along (StartsActive C) (init conns) turns) :
    SwapsMove ((machine C).run (init conns) turns).1.log :=
  ((machine C).run_invariant (P := StartsActive C) (fun _ t h ht => h.turn hroom t ht) (swapInv_init conns)
    hstart).moves

def movedOnce : List Turn :=
  let sid := mintSessionId [] 7 0
  [.wsOpen 0 7, .startSwap 0, .ctrl 0 false { msg := .attached, sessionId := sid, statusOk := some true }, .trigger true,
    .startSwap 0, .ctrl 1 false { msg := .exportBegin, sessionId := sid, epoch := 1, cursors := some (0, 0) },
    .ctrl 1 true { msg := .importEnd, sessionId := sid, statusOk := some true },
    .ctrl 2 true { msg := .resumed, sessionId := sid, epoch := 2 }]

theorem swap_moves_all_movedOnce :
    quietSwap ((machine (twoWorkers fun _ => false)).run (init 1) movedOnce).1.log.tail =
        some (false, true, [(0, mintSessionId [] 7 0)]) ∧
      SwapsMove ((machine (twoWorkers fun _ => false)).run (init 1) movedOnce).1.log :=
  ⟨by decide, swap_moves_all (twoWorkers fun _ => false) (fun _ _ => rfl) 1 movedOnce (by decide)⟩

/-- A session that was still attaching when the swap started: the swap is done at once and it stays on the old
worker. -/
theorem swap_leaves_attaching :
    ¬ SwapsMove ((machine (twoWorkers fun _ => false)).run (init 1) [.wsOpen 0 7, .trigger true, .startSwap 0]).1.log := by
  intro h
  have hmoved := h _ _ false true _ (List.suffix_refl _) rfl
  exact absurd hmoved (by decide)

end Wave.Http.Anchor
