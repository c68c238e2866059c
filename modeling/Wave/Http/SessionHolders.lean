import Wave.Http.SessionAnchor

/-! # Which worker holds a session

No caller of `send_detach` reads its answer: one refused DETACH leaves a session behind. -/

namespace Wave.Http.Anchor

open Lib SessionAnchor

/-- The worker was given the session by ATTACH or EXPORT_BEGIN, and no DETACH followed. -/
def holds (w : Worker) (sid : SessionId) : List Entry → Bool
  | [] => false
  | .wrote w' .attach sid' _ :: l => if w' = w ∧ sid' = sid then true else holds w sid l
  | .wrote w' .exportBegin sid' _ :: l => if w' = w ∧ sid' = sid then true else holds w sid l
  | .wrote w' .detach sid' _ :: l => if w' = w ∧ sid' = sid then false else holds w sid l
  | _ :: l => holds w sid l

/-- The slot names the worker: as `sc_worker` once ATTACH was written, or as `swap_to` once the export was relayed. -/
def Names (swapTo : Worker) (w : Worker) (sid : SessionId) (s : SessionSlot) : Prop :=
  s.phase.attached = true ∧ s.sessionId = sid ∧ (s.worker = some w ∨ (s.phase.exported = true ∧ swapTo = w))

instance (swapTo w : Worker) (sid : SessionId) (s : SessionSlot) : Decidable (Names swapTo w sid s) :=
  inferInstanceAs (Decidable (_ ∧ _ ∧ _))

def Accounted (a : SessionAnchor) : Prop :=
  ∀ w sid, holds w sid a.log = true → ∃ idx, Names a.swapTo w sid (a.slot idx)

def Settled (a : SessionAnchor) : Prop := a.swapActive = false → ∀ i, (a.slot i).phase.swapping = false

section Frame

variable {C : Setup} {a : SessionAnchor} {w : Option Worker} {msg : Msg} {sid : SessionId} {epoch : UInt32}

theorem slot_setSlot_cases (a : SessionAnchor) (i j : Nat) (x : SessionSlot) :
    (j = i ∧ (a.setSlot i x).slot j = x) ∨ (a.setSlot i x).slot j = a.slot j :=
  Table.getD_set_cases a.slots i j x {}

theorem slot_setSlot_ne {i j : Nat} {x : SessionSlot} (h : j ≠ i) : (a.setSlot i x).slot j = a.slot j :=
  Table.getD_set_ne h

theorem slot_setSlot_self {i : Nat} {x : SessionSlot} (h : i < a.slots.length) : (a.setSlot i x).slot i = x :=
  Table.getD_set_self h

theorem lt_of_phase {i : Nat} (h : (a.slot i).phase ≠ .none) : i < a.slots.length :=
  Table.lt_of_getD_ne (d := {}) fun he => h (by unfold SessionAnchor.slot; rw [he])

theorem phase_ne_none_of_attached {p : SessionPhase} (h : p.attached = true) : p ≠ .none := by
  rintro rfl
  cases h

theorem lt_of_worker {i : Nat} (h : (a.slot i).worker ≠ none) : i < a.slots.length :=
  Table.lt_of_getD_ne (d := {}) fun he => h (by unfold SessionAnchor.slot; rw [he])

theorem scWrite_cases (C : Setup) (a : SessionAnchor) (w : Option Worker) (msg : Msg) (sid : SessionId)
    (epoch : UInt32) :
    (∃ w', w = some w' ∧ scWrite C a w msg sid epoch =
      ({ a with writes := a.writes + 1, log := .wrote w' msg sid epoch :: a.log }, true)) ∨
    (∃ n, scWrite C a w msg sid epoch = ({ a with writes := n }, false)) := by
  cases w with
  | none => exact .inr ⟨a.writes, rfl⟩
  | some w' =>
    by_cases h : C.accepts a.writes w' msg = true
    · exact .inl ⟨w', rfl, by simp [scWrite, h]⟩
    · exact .inr ⟨a.writes + 1, by simp [scWrite, h]⟩

end Frame


structure HoldInv (a : SessionAnchor) : Prop where
  accounted : Accounted a
  settled : Settled a

section Holders

variable {C : Setup} {a b : SessionAnchor} {i : Nat} {x : SessionSlot}

theorem HoldInv.swapActive_of_swapping (h : HoldInv a) (hs : (a.slot i).phase.swapping = true) :
    a.swapActive = true := by
  by_contra hno
  rw [h.settled (by simpa using hno) i] at hs
  cases hs

/-- One slot was set and the log grew: new holders must be named, and who was named stays named unless detached. -/
theorem HoldInv.move (h : HoldInv a) (hslots : b.slots = a.slots.set i x) (hto : b.swapTo = a.swapTo)
    (hact : b.swapActive = a.swapActive) (hswap : x.phase.swapping = true → a.swapActive = true)
    (hnew : ∀ w sid, holds w sid b.log = true →
      holds w sid a.log = true ∨ (i < a.slots.length ∧ Names a.swapTo w sid x))
    (hkeep : ∀ w sid, holds w sid b.log = true → Names a.swapTo w sid (a.slot i) → Names a.swapTo w sid x) :
    HoldInv b := by
  have hslot : ∀ j, b.slot j = (a.setSlot i x).slot j := by
    intro j
    unfold SessionAnchor.slot
    rw [hslots]
    rfl
  constructor
  · intro w sid hw
    rw [hto]
    rcases hnew w sid hw with ha | ⟨hlt, hx⟩
    · obtain ⟨j, hj⟩ := h.accounted w sid ha
      by_cases hji : j = i
      · subst hji
        refine ⟨j, ?_⟩
        rw [hslot, slot_setSlot_self (lt_of_phase (phase_ne_none_of_attached hj.1))]
        exact hkeep w sid hw hj
      · refine ⟨j, ?_⟩
        rwa [hslot, slot_setSlot_ne hji]
    · refine ⟨i, ?_⟩
      rwa [hslot, slot_setSlot_self hlt]
  · intro hb j
    rw [hact] at hb
    rw [hslot]
    rcases slot_setSlot_cases a i j x with ⟨-, hj⟩ | hj
    · rw [hj]
      by_contra hx
      rw [hswap (by simpa using hx)] at hb
      cases hb
    · rw [hj]
      exact h.settled hb j

theorem HoldInv.congr (h : HoldInv a) (hslots : b.slots = a.slots) (hto : b.swapTo = a.swapTo)
    (hact : b.swapActive = a.swapActive)
    (hlog : ∀ w sid, holds w sid b.log = true → holds w sid a.log = true) : HoldInv b := by
  have hslot : ∀ j, b.slot j = a.slot j := by
    intro j
    unfold SessionAnchor.slot
    rw [hslots]
  constructor
  · intro w sid hw
    obtain ⟨j, hj⟩ := h.accounted w sid (hlog w sid hw)
    exact ⟨j, by rw [hto, hslot]; exact hj⟩
  · intro hb j
    rw [hslot]
    exact h.settled (hact ▸ hb) j

theorem any_swapping_eq_false (h : a.slots.any (·.phase.swapping) = false) (j : Nat) :
    (a.slot j).phase.swapping = false := by
  by_cases hj : j < a.slots.length
  · have hmem : a.slot j ∈ a.slots := by
      unfold SessionAnchor.slot
      rw [List.getD_eq_getElem _ _ hj]
      exact getElem_mem hj
    simpa using any_eq_false.mp h _ hmem
  · unfold SessionAnchor.slot
    rw [List.getD_eq_default _ _ (Nat.le_of_not_lt hj)]
    rfl

theorem HoldInv.check (h : HoldInv a) : HoldInv (checkSwapDone a) := by
  unfold checkSwapDone
  split
  · exact h
  · split
    · exact h
    next hany =>
      exact ⟨fun w sid hw => h.accounted w sid hw, fun _ j => any_swapping_eq_false (by simpa using hany) j⟩

theorem HoldInv.write {msg : Msg} (h : HoldInv a) (w : Option Worker) (sid : SessionId) (epoch : UInt32)
    (hmsg : ∀ v s e l w' sid', holds w' sid' (.wrote v msg s e :: l) = holds w' sid' l) :
    HoldInv (scWrite C a w msg sid epoch).1 := by
  rcases scWrite_cases C a w msg sid epoch with ⟨v, -, he⟩ | ⟨n, he⟩
  · rw [he]
    exact h.congr rfl rfl rfl fun w sid hw => by rwa [hmsg] at hw
  · rw [he]
    exact h.congr rfl rfl rfl fun w sid hw => hw

theorem HoldInv.tryAttach (h : HoldInv a)
    (hp : (a.slot i).phase = .attachPending ∨ (a.slot i).worker = none) : HoldInv (tryAttach C a i) := by
  unfold Anchor.tryAttach
  dsimp only
  rcases scWrite_cases C a (a.slot i).worker .attach (a.slot i).sessionId (a.slot i).epoch with
    ⟨v, hv, he⟩ | ⟨n, he⟩
  · rw [he]
    have hpend : (a.slot i).phase = .attachPending := by
      rcases hp with hp | hp
      · exact hp
      · rw [hv] at hp
        cases hp
    have hlt : i < a.slots.length := lt_of_worker (by rw [hv]; simp)
    refine h.move (i := i) (x := { a.slot i with phase := .attachWait }) rfl rfl rfl (by intro hx; cases hx) ?_ ?_
    · intro w sid hw
      by_cases hvw : v = w ∧ (a.slot i).sessionId = sid
      · exact .inr ⟨hlt, rfl, hvw.2, .inl (by rw [← hvw.1]; exact hv)⟩
      · exact .inl (by simpa [holds, SessionAnchor.setSlot, hvw] using hw)
    · rintro w sid - ⟨hatt, -⟩
      rw [hpend] at hatt
      cases hatt
  · rw [he]
    exact h.congr rfl rfl rfl fun w sid hw => hw

theorem HoldInv.wsOpen (h : HoldInv a) (hp : (a.slot i).phase = .none) (conn : UInt32) :
    HoldInv (onWsOpen C a i conn) := by
  unfold onWsOpen
  split
  · dsimp only
    set x : SessionSlot :=
      { phase := .attachPending, sessionId := mintSessionId C.anchorId conn a.genNext, epoch := 1,
        worker := some a.activeW } with hx
    have hopened : HoldInv (({ a with genNext := a.genNext + 1 } : SessionAnchor).setSlot i x) := by
      refine h.move (i := i) (x := x) rfl rfl rfl (by intro hs; cases hs) (fun w sid hw => .inl hw) ?_
      rintro w sid - ⟨hatt, -⟩
      exact absurd hp (phase_ne_none_of_attached hatt)
    refine hopened.tryAttach ?_
    by_cases hlt : i < a.slots.length
    · exact .inl (by rw [slot_setSlot_self (by exact hlt)])
    · refine .inr ?_
      by_contra hw
      exact hlt (by simpa [SessionAnchor.setSlot] using lt_of_worker hw)
  · exact h

end Holders

section Detach

variable {C : Setup} {a : SessionAnchor} {i : Nat}

theorem holds_detach {w v : Worker} {sid s : SessionId} {e : UInt32} {l : List Entry}
    (h : holds w sid (.wrote v .detach s e :: l) = true) : holds w sid l = true ∧ ¬ (v = w ∧ s = sid) := by
  unfold holds at h
  split at h
  · cases h
  next hne => exact ⟨h, hne⟩

theorem sendDetach_some (hdet : ∀ n w, C.accepts n w .detach = true) (a : SessionAnchor) (w : Worker)
    (slot : SessionSlot) :
    sendDetach C a (some w) slot =
      { a with writes := a.writes + 1, log := .wrote w .detach slot.sessionId slot.epoch :: a.log } := by
  simp [sendDetach, scWrite, hdet]

/-- From `a` to `b` the session was taken from `w`: the slots are left, and nobody was given anything. -/
structure Detached (a b : SessionAnchor) (w : Option Worker) (sid : SessionId) : Prop where
  slots : b.slots = a.slots
  swapTo : b.swapTo = a.swapTo
  swapActive : b.swapActive = a.swapActive
  old : ∀ v s, holds v s b.log = true → holds v s a.log = true
  gone : ∀ v, w = some v → holds v sid b.log = false

theorem detached_sendDetach_if (hdet : ∀ n w, C.accepts n w .detach = true) (a : SessionAnchor)
    (w : Option Worker) (slot : SessionSlot) (p : Bool) :
    Detached a (if p then sendDetach C a w slot else a) (if p then w else none) slot.sessionId := by
  cases p with
  | false => exact ⟨rfl, rfl, rfl, fun _ _ h => h, by simp⟩
  | true =>
    cases w with
    | none => exact ⟨rfl, rfl, rfl, fun _ _ h => h, by simp⟩
    | some w =>
      simp only [if_true]
      rw [sendDetach_some hdet]
      refine ⟨rfl, rfl, rfl, fun v s hv => (holds_detach hv).1, ?_⟩
      intro v hv
      cases hv
      simp [holds]

theorem HoldInv.refuse (hdet : ∀ n w, C.accepts n w .detach = true) (h : HoldInv a) (now : UInt64) (i : Nat) :
    HoldInv (refuseSession C now a i) := by
  unfold refuseSession
  dsimp only
  refine HoldInv.check (HoldInv.write ?_ _ _ _ fun _ _ _ _ _ _ => rfl)
  have hd := detached_sendDetach_if hdet a (some a.swapTo) (a.slot i) (a.slot i).phase.exported
  revert hd
  generalize (if (a.slot i).phase.exported = true then sendDetach C a (some a.swapTo) (a.slot i) else a) = b
  intro hd
  refine h.move (i := i) (by simp only [SessionAnchor.setSlot, SessionAnchor.note, hd.slots]; rfl) hd.swapTo
    hd.swapActive (by intro hs; cases hs) (fun w sid hw => .inl (hd.old w sid hw)) ?_
  rintro w sid hw ⟨-, hsid, hown | ⟨hexp, hto⟩⟩
  · exact ⟨rfl, hsid, .inl hown⟩
  · have hno := hd.gone w (by rw [if_pos hexp, hto])
    rw [hsid] at hno
    exact absurd hw (by simpa [SessionAnchor.setSlot, SessionAnchor.note, holds] using hno)

theorem HoldInv.close (hdet : ∀ n w, C.accepts n w .detach = true) (h : HoldInv a) (i : Nat) :
    HoldInv (onSlotClose C a i) := by
  unfold onSlotClose
  dsimp only
  split
  · exact h
  next hphase =>
    refine HoldInv.check ?_
    have hd := detached_sendDetach_if hdet a (a.slot i).worker (a.slot i) (a.slot i).phase.attached
    revert hd
    generalize (if (a.slot i).phase.attached = true then sendDetach C a (a.slot i).worker (a.slot i) else a) = b
    intro hd
    have hd' := detached_sendDetach_if hdet b (some b.swapTo) (a.slot i) (a.slot i).phase.exported
    revert hd'
    generalize (if (a.slot i).phase.exported = true then sendDetach C b (some b.swapTo) (a.slot i) else b) = c
    intro hd'
    refine h.move (i := i) (by simp only [SessionAnchor.setSlot, SessionAnchor.note, hd'.slots, hd.slots]; rfl)
      (hd'.swapTo.trans hd.swapTo) (hd'.swapActive.trans hd.swapActive) (by intro hs; cases hs)
      (fun w sid hw => .inl (hd.old w sid (hd'.old w sid hw))) ?_
    -- Whoever the slot named has been detached, so he no longer holds.
    rintro w sid hw ⟨hatt, hsid, hown | ⟨hexp, hto⟩⟩
    · have hno := hd.gone w (by rw [if_pos hatt, hown])
      rw [hsid] at hno
      exact absurd (hd'.old w sid hw) (by simpa using hno)
    · have hno := hd'.gone w (by rw [if_pos hexp, hd.swapTo, hto])
      rw [hsid] at hno
      exact absurd hw (by simpa [SessionAnchor.setSlot, SessionAnchor.note, holds] using hno)

theorem HoldInv.rephase (h : HoldInv a) {x : SessionSlot} (hsid : x.sessionId = (a.slot i).sessionId)
    (hw : x.worker = (a.slot i).worker) (hatt : (a.slot i).phase.attached = true → x.phase.attached = true)
    (hexp : (a.slot i).phase.exported = true → x.phase.exported = true)
    (hswap : x.phase.swapping = true → a.swapActive = true) : HoldInv (a.setSlot i x) := by
  refine h.move (i := i) rfl rfl rfl hswap (fun w sid hh => .inl hh) ?_
  rintro w sid - ⟨ha, hs, hown | ⟨he, hto⟩⟩
  · exact ⟨hatt ha, hsid.trans hs, .inl (hw.trans hown)⟩
  · exact ⟨hatt ha, hsid.trans hs, .inr ⟨hexp he, hto⟩⟩

theorem HoldInv.drainSlot {r : SessionAnchor × Nat} (now : UInt64) (src : Worker)
    (h : HoldInv r.1 ∧ r.1.swapActive = true) (i : Nat) :
    HoldInv (drainSlot C now src r i).1 ∧ (drainSlot C now src r i).1.swapActive = true := by
  unfold Anchor.drainSlot
  dsimp only
  split
  next hact =>
    have hwrite : HoldInv (scWrite C r.1 (some src) .drain (r.1.slot i).sessionId (r.1.slot i).epoch).1 :=
      h.1.write _ _ _ fun _ _ _ _ _ _ => rfl
    rcases scWrite_cases C r.1 (some src) .drain (r.1.slot i).sessionId (r.1.slot i).epoch with
      ⟨v, -, he⟩ | ⟨n, he⟩
    · rw [he] at hwrite ⊢
      refine ⟨hwrite.rephase rfl rfl (fun _ => rfl) ?_ (fun _ => h.2), h.2⟩
      intro hexp
      change (r.1.slot i).phase.exported = true at hexp
      rw [hact.1] at hexp
      cases hexp
    · rw [he] at hwrite ⊢
      exact ⟨hwrite, h.2⟩
  · exact h

theorem HoldInv.opened (h : HoldInv a) (hidle : a.swapActive = false) (now : UInt64) :
    HoldInv (openSwap C now a) := by
  constructor
  · intro w sid hw
    obtain ⟨j, hatt, hsid, hown | ⟨hexp, -⟩⟩ := h.accounted w sid hw
    · exact ⟨j, hatt, hsid, .inl hown⟩
    · have hno := h.settled hidle j
      cases hp : (a.slot j).phase <;> simp_all [SessionPhase.exported, SessionPhase.swapping]
  · intro hact
    cases hact

theorem HoldInv.startSwap (h : HoldInv a) (now : UInt64) : HoldInv (maybeStartSwap C now a) := by
  unfold maybeStartSwap
  split
  · exact h
  next hidle =>
    split
    · split
      · have hdrain : HoldInv (drainAll C now a.activeW (openSwap C now a)).1 ∧
            (drainAll C now a.activeW (openSwap C now a)).1.swapActive = true :=
          List.foldlRecOn _ _ (motive := fun r : SessionAnchor × Nat => HoldInv r.1 ∧ r.1.swapActive = true)
            ⟨h.opened (by simpa using hidle) now, rfl⟩ fun r hr i _ => HoldInv.drainSlot now a.activeW hr i
        dsimp only
        split
        · exact hdrain.1.check
        · exact hdrain.1
      · exact h.congr rfl rfl rfl fun w sid hw => hw
    · exact h

theorem HoldInv.failLate (h : HoldInv a) (now : UInt64) (i : Nat) : HoldInv (failLate C now a i) := by
  unfold Anchor.failLate
  dsimp only
  split
  next hback =>
    refine h.rephase rfl rfl (fun _ => rfl) ?_ (by intro hs; cases hs)
    intro hexp
    rw [hback.1] at hexp
    cases hexp
  · exact h

theorem HoldInv.deadlines (hdet : ∀ n w, C.accepts n w .detach = true) (h : HoldInv a) (now : UInt64) :
    HoldInv (enforceDeadlines C now a) := by
  unfold enforceDeadlines
  refine List.foldlRecOn _ _ (motive := HoldInv) ?_ fun b hb i _ => hb.failLate now i
  split
  · refine HoldInv.check (List.foldlRecOn _ _ (motive := HoldInv) h fun b hb i _ => ?_)
    unfold refuseLate
    split
    · exact hb.refuse hdet now i
    · exact hb
  · exact h

theorem HoldInv.attachPending (h : HoldInv a) : HoldInv (attachPending C a) := by
  refine List.foldlRecOn _ _ (motive := HoldInv) h fun b hb i _ => ?_
  split
  next hp => exact hb.tryAttach (.inl hp)
  · exact hb

section

variable (hdet : ∀ n w, C.accepts n w .detach = true) (h : HoldInv a)

include hdet h

/-- The export is relayed: the standby is given the session and the slot names it. -/
theorem HoldInv.exportBegin (now : UInt64)
    (hp : (a.slot i).phase = .drainWait) (hact : a.swapActive = true) (epoch : UInt32) :
    HoldInv (if (scWrite C a (some a.swapTo) .exportBegin (a.slot i).sessionId epoch).2 = true then
      (scWrite C a (some a.swapTo) .exportBegin (a.slot i).sessionId epoch).1.setSlot i
        { a.slot i with phase := .importWait }
      else refuseSession C now (scWrite C a (some a.swapTo) .exportBegin (a.slot i).sessionId epoch).1 i) := by
  rcases scWrite_cases C a (some a.swapTo) .exportBegin (a.slot i).sessionId epoch with ⟨v, hv, he⟩ | ⟨n, he⟩
  · rw [he, if_pos rfl]
    cases hv
    have hlt : i < a.slots.length := lt_of_phase (by rw [hp]; simp)
    refine h.move (i := i) (x := { a.slot i with phase := .importWait }) rfl rfl rfl (fun _ => hact) ?_ ?_
    · intro w sid hw
      by_cases hvw : a.swapTo = w ∧ (a.slot i).sessionId = sid
      · exact .inr ⟨hlt, rfl, hvw.2, .inr ⟨rfl, hvw.1⟩⟩
      · exact .inl (by simpa [holds, SessionAnchor.setSlot, hvw] using hw)
    · rintro w sid - ⟨-, hsid, hown | ⟨hexp, -⟩⟩
      · exact ⟨rfl, hsid, .inl hown⟩
      · rw [hp] at hexp
        cases hexp
  · have hsame : HoldInv { a with writes := n } := h.congr rfl rfl rfl fun w sid hw => hw
    rw [he, if_neg (by simp)]
    exact hsame.refuse hdet now i

theorem HoldInv.importEnd (now : UInt64)
    (hp : (a.slot i).phase = .importWait) :
    HoldInv (if (scWrite C a (some a.swapTo) .resume (a.slot i).sessionId ((a.slot i).epoch + 1)).2 = true then
      (scWrite C a (some a.swapTo) .resume (a.slot i).sessionId ((a.slot i).epoch + 1)).1.setSlot i
        { a.slot i with phase := .resumeWait }
      else refuseSession C now
        (scWrite C a (some a.swapTo) .resume (a.slot i).sessionId ((a.slot i).epoch + 1)).1 i) := by
  have hact : a.swapActive = true := h.swapActive_of_swapping (i := i) (by rw [hp]; rfl)
  have hwrite : HoldInv (scWrite C a (some a.swapTo) .resume (a.slot i).sessionId ((a.slot i).epoch + 1)).1 :=
    h.write _ _ _ fun _ _ _ _ _ _ => rfl
  rcases scWrite_cases C a (some a.swapTo) .resume (a.slot i).sessionId ((a.slot i).epoch + 1) with
    ⟨v, -, he⟩ | ⟨n, he⟩
  · rw [he] at hwrite ⊢
    rw [if_pos rfl]
    exact hwrite.rephase rfl rfl (fun _ => rfl) (fun _ => rfl) fun _ => hact
  · rw [he] at hwrite ⊢
    rw [if_neg (by simp)]
    exact hwrite.refuse hdet now i

theorem HoldInv.resumed (epoch : UInt32) :
    HoldInv (checkSwapDone (sendDetach C
      (a.setSlot i { a.slot i with epoch := epoch, worker := some a.swapTo, phase := .active, holdStartMs := 0 })
      (a.slot i).worker
      { a.slot i with epoch := epoch, worker := some a.swapTo, phase := .active, holdStartMs := 0 })) := by
  set x : SessionSlot :=
    { a.slot i with epoch := epoch, worker := some a.swapTo, phase := .active, holdStartMs := 0 } with hx
  have hd := detached_sendDetach_if hdet (a.setSlot i x) (a.slot i).worker x true
  simp only [if_true] at hd
  refine HoldInv.check (h.move (i := i) (x := x) hd.slots hd.swapTo hd.swapActive (by intro hs; cases hs)
    (fun w sid hw => .inl (hd.old w sid hw)) ?_)
  rintro w sid hw ⟨-, hsid, hown | ⟨-, hto⟩⟩
  · have hno := hd.gone w hown
    change holds w (a.slot i).sessionId _ = false at hno
    rw [hsid] at hno
    exact absurd hw (by simpa using hno)
  · exact ⟨rfl, hsid, .inl (by rw [hx, hto])⟩

theorem HoldInv.dispatch (now : UInt64)
    (w : Worker) (f : CtrlFrame) (i : Nat) : HoldInv (dispatchAt C now a w f i) := by
  unfold dispatchAt
  dsimp only
  cases f.msg with
  | attached =>
    cases f.statusOk with
    | none => exact h
    | some ok =>
      dsimp only
      split
      next hwait =>
        cases ok <;>
          exact h.rephase rfl rfl (fun _ => rfl) (by rw [hwait.1]; intro he; cases he) (by intro hs; cases hs)
      · exact h
  | exportBegin =>
    dsimp only
    split
    next hdrain =>
      split
      · exact h.exportBegin hdet now hdrain.1 hdrain.2.2 f.epoch
      · exact h.refuse hdet now i
    · exact h
  | exportChunk | exportEnd =>
    dsimp only
    split
    · split
      · exact h.write _ _ _ fun _ _ _ _ _ _ => rfl
      · exact (h.write _ _ _ fun _ _ _ _ _ _ => rfl).refuse hdet now i
    · exact h
  | importBegin =>
    dsimp only
    split
    · exact h.refuse hdet now i
    · exact h
  | importEnd =>
    cases f.statusOk with
    | none => exact h
    | some ok =>
      dsimp only
      split
      next himport =>
        split
        · exact h.importEnd hdet now himport.1
        · exact h.refuse hdet now i
      · exact h
  | resumed =>
    dsimp only
    split
    · exact h.resumed hdet f.epoch
    · split
      next hback => exact h.rephase rfl rfl (fun _ => rfl) (by rw [hback.1]; intro he; cases he) (by intro hs; cases hs)
      · exact h
  | error =>
    dsimp only
    split
    · exact h.refuse hdet now i
    · split
      next hback => exact h.rephase rfl rfl (fun _ => rfl) (by rw [hback.1]; intro he; cases he) (by intro hs; cases hs)
      · exact h
  | attach => exact h
  | drain => exact h
  | detach => exact h
  | resume => exact h
  | drained => exact h
  | detached => exact h
  | other => exact h

theorem HoldInv.turn (t : Turn) :
    HoldInv (turn C a t) := by
  cases t with
  | wsOpen idx conn =>
    unfold Anchor.turn
    dsimp only
    split
    next hp => exact h.wsOpen hp conn
    · exact h
  | slotClose idx => exact h.close hdet idx
  | forwarded idx total =>
    unfold Anchor.turn noteForwarded
    dsimp only
    split
    · exact h
    · have hset : HoldInv (a.setSlot idx { a.slot idx with forwarded := (a.slot idx).forwarded + total }) :=
        h.rephase rfl rfl id id fun hs => h.swapActive_of_swapping hs
      exact hset.congr rfl rfl rfl fun w sid hw => hw
  | relayed idx total =>
    unfold Anchor.turn noteRelayed
    dsimp only
    split
    · exact h
    · exact h.rephase rfl rfl id id fun hs => h.swapActive_of_swapping hs
  | trigger desired =>
    unfold Anchor.turn pumpTriggerTable
    dsimp only
    split
    · split
      · exact h.congr rfl rfl rfl fun w sid hw => hw
      · exact h
    · exact h
  | attachPending =>
    unfold Anchor.turn
    dsimp only
    split
    · exact h.attachPending
    · exact h
  | ctrl now w f =>
    unfold Anchor.turn dispatchCtrl
    dsimp only
    split
    · split
      · exact h.dispatch hdet now w f _
      · exact h
    · exact h
  | deadlines now =>
    unfold Anchor.turn
    dsimp only
    split
    · exact h.deadlines hdet now
    · exact h
  | startSwap now =>
    unfold Anchor.turn
    dsimp only
    split
    · exact h.startSwap now
    · exact h

end

end Detach

theorem holdInv_init (conns : Nat) : HoldInv (init conns) := by
  constructor
  · intro w sid hw
    cases hw
  · intro _ i
    have hi : (init conns).slot i = {} := by
      simp [init, SessionAnchor.slot, List.getD_eq_getElem?_getD, List.getElem?_replicate]
      split <;> rfl
    rw [hi]
    rfl

/-- In every run in which each DETACH finds room, a worker that was given a session, and not detached since, is named
by the session's slot. -/
theorem holders_named (C : Setup) (hdet : ∀ n w, C.accepts n w .detach = true) (conns : Nat) (turns : List Turn)
    (w : Worker) (sid : SessionId) (hw : holds w sid ((machine C).run (init conns) turns).1.log = true) :
    ∃ idx, Names ((machine C).run (init conns) turns).1.swapTo w sid
      (((machine C).run (init conns) turns).1.slot idx) :=
  ((machine C).run_invariant (P := fun _ _ => True) (fun _ t h _ => h.turn hdet t) (holdInv_init conns)
    ((machine C).along_of_forall (fun _ _ => trivial) _ _)).accounted w sid hw

/-- Two workers, every write accepted but the ones `refuses` names. -/
def twoWorkers (refuses : Msg → Bool) : Setup where
  anchored := true
  hasStandby := true
  anchorId := []
  drainMs := 500
  handoffAfterFrames := 0
  cursorsAdmit c fwd rel := c = (fwd, rel)
  accepts _ _ m := !refuses m

/-- Two sessions: the second is closed, the first is on its way to the other worker. -/
def oneExported : List Turn :=
  let sid := mintSessionId [] 7 0
  [.wsOpen 0 7, .ctrl 0 false { msg := .attached, sessionId := sid, statusOk := some true }, .wsOpen 1 8, .slotClose 1,
    .trigger true, .startSwap 0, .ctrl 1 false { msg := .exportBegin, sessionId := sid, epoch := 1, cursors := some (0, 0) }]

theorem holders_named_exported :
    let a := ((machine (twoWorkers fun _ => false)).run (init 2) oneExported).1
    (∃ idx, Names true false (mintSessionId [] 7 0) (a.slot idx)) ∧
      (∃ idx, Names true true (mintSessionId [] 7 0) (a.slot idx)) ∧ holds false (mintSessionId [] 8 1) a.log = false := by
  intro a
  have hswap : a.swapTo = true := by decide
  rw [← hswap]
  refine ⟨?_, ?_, by decide⟩
  · exact holders_named (twoWorkers fun _ => false) (fun _ _ => rfl) 2 oneExported false (mintSessionId [] 7 0) (by decide)
  · exact holders_named (twoWorkers fun _ => false) (fun _ _ => rfl) 2 oneExported true (mintSessionId [] 7 0) (by decide)

/-- A DETACH refused when the connection closes: the worker keeps the session and no slot names it. -/
theorem holder_unnamed_after_refused_detach :
    holds false (mintSessionId [] 7 0)
        ((machine (twoWorkers (· = .detach))).run (init 1) [.wsOpen 0 7, .slotClose 0]).1.log = true ∧
      ∀ s ∈ ((machine (twoWorkers (· = .detach))).run (init 1) [.wsOpen 0 7, .slotClose 0]).1.slots,
        s.phase = .none := by
  decide

end Wave.Http.Anchor
