import Wave.Common.WsSessionSteps

/-! # What a session worker keeps of its sessions -/

namespace Wave.Common

open Lib

namespace ReplyQueue

variable {q : ReplyQueue} {p r : WswPending}

theorem mem_owe (h : p ∈ (q.owe r).entries) : p ∈ q.entries ∨ p = r := by
  unfold owe at h
  split at h
  · exact (mem_append.mp h).imp_right mem_singleton.mp
  · exact (mem_append.mp h).imp List.mem_of_mem_tail mem_singleton.mp

theorem mem_pop (h : p ∈ q.pop.entries) : p ∈ q.entries := List.mem_of_mem_tail h

theorem mem_replaceHead (h : p ∈ (q.replaceHead r).entries) : p ∈ q.entries ∨ p = r := by
  unfold replaceHead at h
  split at h
  · exact (mem_cons.mp h).symm.imp_left List.mem_of_mem_tail
  · exact mem_owe h

theorem head_some (h : q.head = some p) : ∃ rest, q.entries = p :: rest := List.head?_eq_some_iff.mp h

theorem head_none (h : q.head = none) : q.entries = [] := List.head?_eq_none_iff.mp h

end ReplyQueue

variable {sdk : HandoffSdk} {B : Nat}

/-- A `DETACHED` is the only reply owed, by a free slot; an import stands at its own epoch, and once accepted its
`IMPORT_BEGIN` says so. -/
structure SlotInv (s : WswSession sdk B) : Prop where
  gone : .detached ∈ s.pending.entries → s.phase = .free ∧ s.pending.entries = [.detached]
  epoch : s.phase = .importing ∨ s.phase = .imported → s.epoch = s.importEpoch
  accepted : s.phase ≠ .free → s.phase ≠ .importing → .importBegin ∈ s.pending.entries → s.importStatus = sdk.HANDOFF_OK

namespace SlotInv

variable {s : WswSession sdk B}

theorem new : SlotInv (WswSession.new sdk B) := ⟨nofun, nofun, fun h => absurd rfl h⟩

theorem not_gone (h : SlotInv s) (hphase : s.phase ≠ .free) : .detached ∉ s.pending.entries :=
  fun hd => hphase (h.gone hd).1

theorem serve (h : SlotInv s) {s' : WswSession sdk B} (hphase : s.phase ≠ .free) (himp : s.phase ≠ .importing)
    (hphase' : s'.phase ≠ .importing ∧ s'.phase ≠ .imported) (hstatus : s'.importStatus = s.importStatus)
    (howed : ∀ p ∈ s'.pending.entries, p ∈ s.pending.entries ∨ (p ≠ .detached ∧ p ≠ .importBegin)) : SlotInv s' := by
  refine ⟨fun hd => ?_, fun hi => ?_, fun _ _ hb => ?_⟩
  · exact (howed _ hd).elim (fun hd => absurd hd (h.not_gone hphase)) fun hd => absurd rfl hd.1
  · exact hi.elim (fun hi => absurd hi hphase'.1) fun hi => absurd hi hphase'.2
  · rw [hstatus]
    exact (howed _ hb).elim (h.accepted hphase himp) fun hb => absurd rfl hb.2

theorem keep (h : SlotInv s) {s' : WswSession sdk B} (hphase' : s'.phase = s.phase) (hepoch : s'.epoch = s.epoch)
    (himport : s'.importEpoch = s.importEpoch) (hstatus : s'.importStatus = s.importStatus)
    (hgone : .detached ∈ s'.pending.entries → s'.pending.entries = s.pending.entries)
    (howed : ∀ p ∈ s'.pending.entries, p ∈ s.pending.entries ∨ p ≠ .importBegin) : SlotInv s' := by
  refine ⟨fun hd => ?_, ?_, fun hf hi hb => ?_⟩
  · have hsame := hgone hd
    rw [hsame, hphase']
    exact h.gone (hsame ▸ hd)
  · rw [hphase', hepoch, himport]
    exact h.epoch
  · rw [hstatus]
    rw [hphase'] at hf hi
    exact (howed _ hb).elim (h.accepted hf hi) fun hb => absurd rfl hb

theorem free {s' : WswSession sdk B} (hphase' : s'.phase = .free) (hgone : .detached ∉ s'.pending.entries) :
    SlotInv s' :=
  ⟨fun hd => absurd hd hgone, fun hi => by rw [hphase'] at hi; exact hi.elim nofun nofun, fun hf => absurd hphase' hf⟩

theorem chunkBy (h : SlotInv s) (hphase : s.phase = .importing) (payload : Bytes) : SlotInv (s.chunkBy payload) := by
  unfold WswSession.chunkBy
  dsimp only
  split
  · exact h.keep rfl rfl rfl rfl (fun _ => rfl) fun p hp => .inl hp
  · refine .free rfl fun hd => ?_
    rcases ReplyQueue.mem_owe hd with hd | hd
    · exact h.not_gone (by rw [hphase]; exact nofun) hd
    · cases hd

theorem endBy (h : SlotInv s) (hphase : s.phase = .importing) (payload : Bytes) : SlotInv (s.endBy payload) := by
  have hgone : .detached ∉ (s.pending.owe .importEnd).entries := by
    intro hd
    rcases ReplyQueue.mem_owe hd with hd | hd
    · exact h.not_gone (by rw [hphase]; exact nofun) hd
    · cases hd
  unfold WswSession.endBy
  dsimp only
  split
  next hok => exact ⟨fun hd => absurd hd hgone, fun _ => h.epoch (.inl hphase), fun _ _ _ => hok⟩
  · exact .free rfl hgone

theorem resumeBy (h : SlotInv s) (hphase : s.phase ≠ .free) (epoch : UInt32) : SlotInv (s.resumeBy epoch) := by
  have howed : ∀ (r : WswPending), r ≠ .detached → r ≠ .importBegin → ∀ p ∈ (s.pending.owe r).entries,
      p ∈ s.pending.entries ∨ (p ≠ .detached ∧ p ≠ .importBegin) := by
    intro r hr hr' p hp
    refine (ReplyQueue.mem_owe hp).imp_right ?_
    rintro rfl
    exact ⟨hr, hr'⟩
  unfold WswSession.resumeBy
  split
  next hfresh =>
    exact h.serve hphase (by rw [hfresh.1]; exact nofun) ⟨nofun, nofun⟩ rfl (howed .resumed nofun nofun)
  · split
    next hback =>
      refine h.serve hphase ?_ ⟨nofun, nofun⟩ rfl (howed .resumed nofun nofun)
      rcases hback.1 with hp | hp | hp <;> rw [hp] <;> exact nofun
    · refine h.keep rfl rfl rfl rfl (fun hd => ?_) fun p hp => (howed .error nofun nofun p hp).imp_right And.right
      rcases howed .error nofun nofun _ hd with hd | hd
      · exact absurd hd (h.not_gone hphase)
      · exact absurd rfl hd.1

theorem render (h : SlotInv s) (chunk : Nat) : SlotInv (s.render chunk).1 := by
  -- A reply that is popped or replaced was not the last one.
  have hpop : ∀ {p : WswPending}, s.pending.head = some p → p ≠ .detached → SlotInv s.pop := by
    intro p hp hne
    refine h.keep rfl rfl rfl rfl (fun hd => ?_) fun _ hp => .inl (ReplyQueue.mem_pop hp)
    obtain ⟨rest, hrest⟩ := ReplyQueue.head_some hp
    have hall := (h.gone (ReplyQueue.mem_pop hd)).2
    rw [hrest, List.cons.injEq] at hall
    exact absurd hall.1 hne
  have hreplace : ∀ {p : WswPending} (r : WswPending), s.pending.head = some p → p ≠ .detached → r ≠ .detached →
      r ≠ .importBegin → ∀ e : sdk.Export, SlotInv ({ s with handoffExport := e }.replaceHead r) := by
    intro p r hp hne hr hr' e
    refine h.keep rfl rfl rfl rfl (fun hd => ?_) fun _ hp =>
      (ReplyQueue.mem_replaceHead hp).imp_right fun heq => by rw [heq]; exact hr'
    rcases ReplyQueue.mem_replaceHead hd with hd | hd
    · obtain ⟨rest, hrest⟩ := ReplyQueue.head_some hp
      have hall := (h.gone hd).2
      rw [hrest, List.cons.injEq] at hall
      exact absurd hall.1 hne
    · exact absurd hd.symm hr
  unfold WswSession.render
  dsimp only
  split
  · exact h
  next hp => exact hpop hp nofun
  next hp => exact hreplace .exportBegin hp nofun nofun nofun s.handoffExport
  next hp =>
    refine hreplace _ hp nofun ?_ ?_ s.handoffExport
    all_goals split <;> exact nofun
  next hp =>
    split
    next off len _ =>
      dsimp only
      split
      · exact hreplace .exportEnd hp nofun nofun nofun _
      · exact h.keep rfl rfl rfl rfl (fun _ => rfl) fun _ hp => .inl hp
    · exact hreplace .exportEnd hp nofun nofun nofun s.handoffExport
  next hp => exact hpop hp nofun
  next hp =>
    have hpopped := hpop hp nofun
    by_cases hstatus : s.importStatus ≠ sdk.HANDOFF_OK
    · refine .free (if_pos hstatus) fun hd => ?_
      obtain ⟨rest, hrest⟩ := ReplyQueue.head_some hp
      have hall := (h.gone (ReplyQueue.mem_pop hd)).2
      rw [hrest, List.cons.injEq] at hall
      exact absurd hall.1 nofun
    · rw [if_neg hstatus]
      exact hpopped
  next hp => exact hpop hp nofun
  next hp => exact hpop hp nofun
  · exact .new
  next hp => exact hpop hp nofun

end SlotInv

structure SameSession (s s' : WswSession sdk B) : Prop where
  sessionId : s'.sessionId = s.sessionId
  epoch : s'.epoch = s.epoch
  cursors : s'.inConsumed = s.inConsumed ∧ s'.outProduced = s.outProduced
  exported : s'.blob = s.blob ∧ s'.blobLen = s.blobLen

namespace WswSession

variable {s : WswSession sdk B} (chunk : Nat)

theorem render_detached (h : s.pending.head = some .detached) : (s.render chunk).1 = .new sdk B := by
  unfold render
  rw [h]

theorem render_same (h : s.pending.head ≠ some .detached) : SameSession s (s.render chunk).1 := by
  unfold render
  dsimp only
  split
  case h_10 hd => exact absurd hd h
  case h_5 =>
    split
    · dsimp only
      split <;> exact ⟨rfl, rfl, ⟨rfl, rfl⟩, rfl, rfl⟩
    · exact ⟨rfl, rfl, ⟨rfl, rfl⟩, rfl, rfl⟩
  all_goals exact ⟨rfl, rfl, ⟨rfl, rfl⟩, rfl, rfl⟩

theorem render_phase (h : s.pending.head ≠ some .detached) :
    (s.render chunk).1.phase = s.phase ∨
      ((s.pending.head = some .importBegin ∧ s.importStatus ≠ sdk.HANDOFF_OK) ∧ (s.render chunk).1.phase = .free) := by
  unfold render
  dsimp only
  split
  case h_10 hd => exact absurd hd h
  case h_5 =>
    left
    split
    · dsimp only
      split <;> rfl
    · rfl
  case h_7 hp =>
    by_cases hstatus : s.importStatus ≠ sdk.HANDOFF_OK
    · exact .inr ⟨⟨hp, hstatus⟩, if_pos hstatus⟩
    · exact .inl (if_neg hstatus)
  all_goals exact .inl rfl

end WswSession

namespace WsSessionWorker

variable {w : WsSessionWorker sdk B} {op : WswOp B} {i : Nat} {s : WswSession sdk B} {outs : List WswOut}

theorem Moves.slotInv (hm : Moves w i op s outs) (h : SlotInv (w.session i)) : SlotInv s := by
  cases hm with
  | stay => exact h
  | attach => exact ⟨nofun, nofun, nofun⟩
  | begin =>
    exact ⟨fun hd => absurd (mem_singleton.mp hd) nofun, fun _ => rfl, fun _ himp => absurd rfl himp⟩
  | drain _ _ hphase =>
    exact h.serve (by rw [hphase]; exact nofun) (by rw [hphase]; exact nofun) ⟨nofun, nofun⟩ rfl fun p hp => .inl hp
  | detach => exact ⟨fun _ => ⟨rfl, rfl⟩, fun hi => hi.elim nofun nofun, fun hf => absurd rfl hf⟩
  | chunk _ _ hphase => exact h.chunkBy hphase _
  | finish _ _ hphase => exact h.endBy hphase _
  | resume _ hsid => exact h.resumeBy (sessionForId_some hsid).2.1 _
  | idle hphase =>
    exact h.serve (by rw [hphase]; exact nofun) (by rw [hphase]; exact nofun) ⟨nofun, nofun⟩ rfl fun p hp => .inl hp
  | commit _ hphase =>
    refine h.serve (by rw [hphase]; exact nofun) (by rw [hphase]; exact nofun) ⟨nofun, nofun⟩ rfl fun p hp => ?_
    refine (ReplyQueue.mem_owe hp).imp_right ?_
    rintro rfl
    exact ⟨nofun, nofun⟩
  | render => exact h.render w.chunk
  | inbound => exact h.keep rfl rfl rfl rfl (fun _ => rfl) fun _ hp => .inl hp
  | outbound => exact h.keep rfl rfl rfl rfl (fun _ => rfl) fun _ hp => .inl hp
  | messageOpen => exact h.keep rfl rfl rfl rfl (fun _ => rfl) fun _ hp => .inl hp

structure HeldInv (w : WsSessionWorker sdk B) : Prop where
  slots : ∀ i, SlotInv (w.session i)
  distinct : ∀ i j, (w.session i).phase ≠ .free → (w.session j).phase ≠ .free →
    (w.session i).sessionId = (w.session j).sessionId → i = j

theorem heldInv_new (n : Nat) (workerId : Bytes) (chunk : Nat) : HeldInv (new sdk B n workerId chunk) := by
  have hnew : ∀ i, (new sdk B n workerId chunk).session i = .new sdk B := by
    intro i
    unfold session new
    rw [List.getD_eq_getElem?_getD, List.getElem?_replicate]
    split <;> rfl
  exact ⟨fun i => hnew i ▸ .new, fun i j hi => absurd (congrArg WswSession.phase (hnew i)) hi⟩

/-- A slot that is held after a step was held before it by the same session, or was taken for a new one. -/
theorem Moves.held (hm : Moves w i op s outs) (hphase : s.phase ≠ .free) :
    (s.sessionId = (w.session i).sessionId ∧ (w.session i).phase ≠ .free) ∨
      ∃ msg payload, op = .ctrl msg payload ∧ WSW_HDR ≤ payload.length ∧ w.sessionForId payload = none ∧
        w.freeSlot = some i ∧ s.sessionId = payload.take SESSION_ID_BYTES := by
  cases hm with
  | stay => exact .inl ⟨rfl, hphase⟩
  | attach _ hlen hnew hslot => exact .inr ⟨_, _, rfl, hlen, hnew, hslot, rfl⟩
  | begin _ hlen hnew hslot => exact .inr ⟨_, _, rfl, hlen, hnew, hslot, rfl⟩
  | drain _ _ hp => exact .inl ⟨rfl, by rw [hp]; exact nofun⟩
  | detach => exact absurd rfl hphase
  | chunk _ _ hp =>
    refine .inl ⟨?_, by rw [hp]; exact nofun⟩
    unfold WswSession.chunkBy
    dsimp only
    split <;> rfl
  | finish _ _ hp =>
    refine .inl ⟨?_, by rw [hp]; exact nofun⟩
    unfold WswSession.endBy
    dsimp only
    split <;> rfl
  | resume _ hsid =>
    refine .inl ⟨?_, (sessionForId_some hsid).2.1⟩
    unfold WswSession.resumeBy
    split
    · rfl
    · split <;> rfl
  | idle hp => exact .inl ⟨rfl, by rw [hp]; exact nofun⟩
  | commit _ hp => exact .inl ⟨rfl, by rw [hp]; exact nofun⟩
  | render =>
    by_cases hd : (w.session i).pending.head = some .detached
    · rw [WswSession.render_detached w.chunk hd] at hphase
      exact absurd rfl hphase
    · refine .inl ⟨(WswSession.render_same w.chunk hd).sessionId, fun hfree => hphase ?_⟩
      exact (WswSession.render_phase w.chunk hd).elim (·.trans hfree) (·.2)
  | inbound => exact .inl ⟨rfl, hphase⟩
  | outbound => exact .inl ⟨rfl, hphase⟩
  | messageOpen => exact .inl ⟨rfl, hphase⟩

theorem HeldInv.step (h : HeldInv w) (op : WswOp B) : HeldInv (w.step op).1 := by
  refine ⟨fun i => (step_moves w op i).slotInv (h.slots i), fun i j hi hj hsid => ?_⟩
  rcases (step_moves w op i).held hi with ⟨hsi, hpi⟩ | ⟨msg, payload, rfl, hlen, hnew, hsloti, hsi⟩
  · rcases (step_moves w op j).held hj with ⟨hsj, hpj⟩ | ⟨msg, payload, rfl, hlen, hnew, hslotj, hsj⟩
    · exact h.distinct i j hpi hpj (hsi.symm.trans (hsid.trans hsj))
    · exact absurd (hsi.symm.trans (hsid.trans hsj)) (sessionForId_none hnew hlen hpi)
  · rcases (step_moves w _ j).held hj with ⟨hsj, hpj⟩ | ⟨msg', payload', -, -, -, hslotj, hsj⟩
    · exact absurd (hsj.symm.trans (hsid.symm.trans hsi)) (sessionForId_none hnew hlen hpj)
    · exact Option.some.inj (hsloti.symm.trans hslotj)

theorem HeldInv.run (h : HeldInv w) (ops : List (WswOp B)) : HeldInv ((machine sdk B).run w ops).1 :=
  (machine sdk B).run_invariant (P := fun _ _ => True) (I := HeldInv) (fun _ op hw _ => hw.step op) h
    ((machine sdk B).along_of_forall (fun _ _ => trivial) w ops)

theorem taken_owes_nothing {msg : UInt8} {payload : Bytes}
    (hcmd : sdk.command msg = .attach ∨ sdk.command msg = .exportBegin) (howes : (w.session i).pending.entries ≠ []) :
    (w.handleCtrl msg payload).1.session i = w.session i := by
  have hslot : w.freeSlot ≠ some i := fun h => howes (ReplyQueue.head_none (freeSlot_some h).2.2)
  generalize hs : (w.handleCtrl msg payload).1.session i = s
  have hm := handleCtrl_moves w msg payload i
  rw [hs] at hm
  generalize hout : outsOf i [.event (w.handleCtrl msg payload).2] = outs at hm
  cases hm with
  | stay => rfl
  | attach _ _ _ h => exact absurd h hslot
  | begin _ _ _ h => exact absurd h hslot
  | drain h | detach h | chunk h | finish h | resume h =>
    rw [h] at hcmd
    exact hcmd.elim nofun nofun

def Resumes (w : WsSessionWorker sdk B) (i : Nat) (op : WswOp B) (epoch : UInt32) : Prop :=
  ∃ msg payload, op = .ctrl msg payload ∧ sdk.command msg = .resume ∧ w.sessionForId payload = some i ∧
    (w.session i).phase = .imported ∧ epoch = u32At payload 16 ∧ (w.session i).importEpoch < epoch

/-- The epoch of a session changes when a `RESUME` above the imported one completes its import. -/
theorem Moves.epoch (hm : Moves w i op s outs) (h : SlotInv (w.session i)) (hphase : (w.session i).phase ≠ .free) :
    s.epoch = (w.session i).epoch ∨ ((w.session i).epoch < s.epoch ∧ Resumes w i op s.epoch) := by
  cases hm with
  | stay | drain | detach | idle | commit | inbound | outbound | messageOpen => exact .inl rfl
  | attach _ _ _ hslot | begin _ _ _ hslot => exact absurd (freeSlot_some hslot).2.1 hphase
  | chunk =>
    left
    unfold WswSession.chunkBy
    dsimp only
    split <;> rfl
  | finish =>
    left
    unfold WswSession.endBy
    dsimp only
    split <;> rfl
  | resume hcmd hsid =>
    unfold WswSession.resumeBy
    split
    next hfresh =>
      right
      refine ⟨?_, _, _, rfl, hcmd, hsid, hfresh.1, rfl, hfresh.2⟩
      rw [h.epoch (.inr hfresh.1)]
      exact hfresh.2
    · left
      split <;> rfl
  | render =>
    refine .inl (WswSession.render_same w.chunk fun hd => ?_).epoch
    obtain ⟨rest, hrest⟩ := ReplyQueue.head_some hd
    exact h.not_gone hphase (hrest ▸ mem_cons_self)

theorem epoch_mono (h : HeldInv w) {ops : List (WswOp B)}
    (hheld : (machine sdk B).Along (fun w _ => (w.session i).phase ≠ .free) w ops) :
    (w.session i).epoch ≤ (((machine sdk B).run w ops).1.session i).epoch := by
  induction ops generalizing w with
  | nil => exact UInt32.le_refl _
  | cons op ops ih =>
    obtain ⟨hphase, hrest⟩ := hheld
    have hstep := ih (h.step op) hrest
    rcases (step_moves w op i).epoch (h.slots i) hphase with heq | ⟨hlt, -⟩
    · exact heq ▸ hstep
    · exact UInt32.le_trans (UInt32.le_of_lt hlt) hstep

/-- A `DETACH` of slot `i`, or a `RESUME` that returns it. -/
def EndsHold (w : WsSessionWorker sdk B) (i : Nat) (op : WswOp B) : Prop :=
  ∃ msg payload, op = .ctrl msg payload ∧ w.sessionForId payload = some i ∧
    (sdk.command msg = .detach ∨ (sdk.command msg = .resume ∧ u32At payload 16 = (w.session i).epoch))

def reportedIn (i : Nat) : List (WswOp B) → UInt64
  | [] => 0
  | .onInbound j len :: ops => (if j = i then UInt64.ofNat len else 0) + reportedIn i ops
  | _ :: ops => reportedIn i ops

def reportedOut (i : Nat) : List (WswOp B) → UInt64
  | [] => 0
  | .onOutbound j len :: ops => (if j = i then UInt64.ofNat len else 0) + reportedOut i ops
  | _ :: ops => reportedOut i ops

theorem Moves.drained (hm : Moves w i op s outs) (h : SlotInv (w.session i)) (hphase : (w.session i).phase = .drained)
    (hhold : ¬ EndsHold w i op) : s.phase = .drained := by
  have hne : ∀ {p : WswPhase}, p ≠ .drained → (w.session i).phase ≠ p := fun hp heq => hp (heq.symm.trans hphase)
  cases hm with
  | stay | inbound | outbound | messageOpen => exact hphase
  | attach _ _ _ hslot | begin _ _ _ hslot => exact absurd (freeSlot_some hslot).2.1 (hne nofun)
  | drain _ _ hp | chunk _ _ hp | finish _ _ hp | idle hp | commit _ hp => exact absurd hp (hne nofun)
  | detach hcmd hsid => exact absurd ⟨_, _, rfl, hsid, .inl hcmd⟩ hhold
  | resume hcmd hsid =>
    unfold WswSession.resumeBy
    rw [if_neg fun hfresh => hne (p := .imported) nofun hfresh.1, if_neg]
    · exact hphase
    · exact fun hback => hhold ⟨_, _, rfl, hsid, .inr ⟨hcmd, hback.2⟩⟩
  | render =>
    have hd : (w.session i).pending.head ≠ some .detached := by
      intro hd
      obtain ⟨rest, hrest⟩ := ReplyQueue.head_some hd
      exact h.not_gone (hne nofun) (hrest ▸ mem_cons_self)
    refine (WswSession.render_phase w.chunk hd).elim (·.trans hphase) fun hbad => ?_
    obtain ⟨rest, hrest⟩ := ReplyQueue.head_some hbad.1.1
    exact absurd (h.accepted (hne nofun) (hne nofun) (hrest ▸ mem_cons_self)) hbad.1.2

theorem Moves.cursors (hm : Moves w i op s outs) (h : SlotInv (w.session i)) (hphase : (w.session i).phase ≠ .free)
    (hin : ∀ len, op ≠ .onInbound i len) (hout : ∀ len, op ≠ .onOutbound i len) :
    s.inConsumed = (w.session i).inConsumed ∧ s.outProduced = (w.session i).outProduced := by
  cases hm with
  | stay | drain | detach | idle | commit | messageOpen => exact ⟨rfl, rfl⟩
  | attach _ _ _ hslot | begin _ _ _ hslot => exact absurd (freeSlot_some hslot).2.1 hphase
  | chunk =>
    unfold WswSession.chunkBy
    dsimp only
    split <;> exact ⟨rfl, rfl⟩
  | finish =>
    unfold WswSession.endBy
    dsimp only
    split <;> exact ⟨rfl, rfl⟩
  | resume =>
    unfold WswSession.resumeBy
    split
    · exact ⟨rfl, rfl⟩
    · split <;> exact ⟨rfl, rfl⟩
  | render =>
    refine (WswSession.render_same w.chunk fun hd => ?_).cursors
    obtain ⟨rest, hrest⟩ := ReplyQueue.head_some hd
    exact h.not_gone hphase (hrest ▸ mem_cons_self)
  | inbound => exact absurd rfl (hin _)
  | outbound => exact absurd rfl (hout _)

theorem step_cursors (h : SlotInv (w.session i)) (hphase : (w.session i).phase ≠ .free) (op : WswOp B) :
    ((w.step op).1.session i).inConsumed = (w.session i).inConsumed + reportedIn i [op] ∧
      ((w.step op).1.session i).outProduced = (w.session i).outProduced + reportedOut i [op] := by
  have hlt := lt_of_held hphase
  have hkeep := (step_moves w op i).cursors h hphase
  cases op with
  | onInbound j len =>
    by_cases hj : j = i
    · subst hj
      have hself : (w.step (.onInbound j len)).1.session j = _ := session_setSession_self hlt _
      rw [hself]
      simp [reportedIn, reportedOut]
    · simpa [reportedIn, reportedOut, hj] using hkeep (by simp [hj]) nofun
  | onOutbound j len =>
    by_cases hj : j = i
    · subst hj
      have hself : (w.step (.onOutbound j len)).1.session j = _ := session_setSession_self hlt _
      rw [hself]
      simp [reportedIn, reportedOut]
    · simpa [reportedIn, reportedOut, hj] using hkeep nofun (by simp [hj])
  | ctrl | dataIdle | commit | nextOut | setMessageOpen =>
    simpa [reportedIn, reportedOut] using hkeep nofun nofun

theorem reportedIn_cons (i : Nat) (op : WswOp B) (ops : List (WswOp B)) :
    reportedIn i (op :: ops) = reportedIn i [op] + reportedIn i ops := by
  cases op <;> simp [reportedIn]

theorem reportedOut_cons (i : Nat) (op : WswOp B) (ops : List (WswOp B)) :
    reportedOut i (op :: ops) = reportedOut i [op] + reportedOut i ops := by
  cases op <;> simp [reportedOut]

/-- Until it is returned or let go, a drained session stays one, and its cursors change by what is reported. -/
theorem drained_run (h : HeldInv w) (hphase : (w.session i).phase = .drained) {ops : List (WswOp B)}
    (hhold : (machine sdk B).Along (fun w op => ¬ EndsHold w i op) w ops) :
    let s := ((machine sdk B).run w ops).1.session i
    s.phase = .drained ∧ s.inConsumed = (w.session i).inConsumed + reportedIn i ops ∧
      s.outProduced = (w.session i).outProduced + reportedOut i ops := by
  induction ops generalizing w with
  | nil => exact ⟨hphase, (UInt64.add_zero _).symm, (UInt64.add_zero _).symm⟩
  | cons op ops ih =>
    obtain ⟨hhere, hrest⟩ := hhold
    have hdrained := (step_moves w op i).drained (h.slots i) hphase hhere
    obtain ⟨hin, hout⟩ := step_cursors (h.slots i) (by rw [hphase]; exact nofun) op
    obtain ⟨hp, hins, houts⟩ := ih (h.step op) hdrained hrest
    refine ⟨hp, ?_, ?_⟩
    · rw [reportedIn_cons, ← UInt64.add_assoc, ← hin]
      exact hins
    · rw [reportedOut_cons, ← UInt64.add_assoc, ← hout]
      exact houts

theorem sent_render {outLen : Nat} {f : WswFrame} (h : .sent i f ∈ (w.step (.nextOut outLen)).2) :
    ((w.session i).render w.chunk).2 = some f ∧
      (w.step (.nextOut outLen)).1.session i = ((w.session i).render w.chunk).1 := by
  have hm := step_moves w (.nextOut outLen) i
  have hmem : WswOut.sent i f ∈ outsOf i (w.step (.nextOut outLen)).2 :=
    mem_filter.mpr ⟨h, decide_eq_true rfl⟩
  generalize outsOf i (w.step (.nextOut outLen)).2 = outs at hm hmem
  generalize (w.step (.nextOut outLen)).1.session i = s at hm
  cases hm with
  | stay => cases hmem
  | render =>
    obtain ⟨g, hg, heq⟩ := mem_map.mp hmem
    cases heq
    exact ⟨Option.mem_toList.mp hg, rfl⟩

theorem render_exportBegin {s : WswSession sdk B} {chunk total : Nat} {cursors : UInt64 × UInt64} {f : WswFrame}
    (h : (s.render chunk).2 = some f) (hbody : f.body = .exportBegin total cursors) :
    total = s.blobLen ∧ cursors = (s.inConsumed, s.outProduced) := by
  unfold WswSession.render at h
  dsimp only at h
  split at h
  case h_5 =>
    split at h
    · cases h
      cases hbody
    · cases h
  all_goals first
    | cases h
      cases hbody
      exact ⟨rfl, rfl⟩
    | cases h
      cases hbody
    | cases h

theorem mayConsume_iff : w.mayConsume i = true →
    i < w.sessions.length ∧ ((w.session i).phase = .active ∨ (w.session i).phase = .draining) := by
  unfold mayConsume
  rw [and_eq_true, or_eq_true, decide_eq_true_eq, decide_eq_true_eq, decide_eq_true_eq]
  exact id

/-- In every run: ids of held sessions are distinct; a slot that owes its last reply is not taken; an epoch changes
only with a `RESUME` above it; only active and draining sessions consume; a committed one does not. -/
theorem sessions_held (sdk : HandoffSdk) (B n : Nat) (workerId : Bytes) (chunk : Nat) (ops : List (WswOp B)) :
    let w := ((machine sdk B).run (new sdk B n workerId chunk) ops).1
    (∀ i j, (w.session i).phase ≠ .free → (w.session j).phase ≠ .free →
      (w.session i).sessionId = (w.session j).sessionId → i = j) ∧
    (∀ i msg payload, sdk.command msg = .attach ∨ sdk.command msg = .exportBegin →
      .detached ∈ (w.session i).pending.entries ∨ .importEnd ∈ (w.session i).pending.entries →
      (w.handleCtrl msg payload).1.session i = w.session i) ∧
    (∀ i op, (w.session i).phase ≠ .free → ((w.step op).1.session i).epoch = (w.session i).epoch ∨
      ((w.session i).epoch < ((w.step op).1.session i).epoch ∧ Resumes w i op ((w.step op).1.session i).epoch)) ∧
    (∀ i more, (machine sdk B).Along (fun w _ => (w.session i).phase ≠ .free) w more →
      (w.session i).epoch ≤ (((machine sdk B).run w more).1.session i).epoch) ∧
    (∀ i, w.mayConsume i = true → (w.session i).phase = .active ∨ (w.session i).phase = .draining) ∧
    ∀ i blob len more, (w.session i).phase = .exporting →
      let c := (w.step (.commit i blob len)).1
      (machine sdk B).Along (fun w op => ¬ EndsHold w i op) c more →
      let later := ((machine sdk B).run c more).1
      later.mayConsume i = false ∧
        ∀ outLen f total cursors, .sent i f ∈ (later.step (.nextOut outLen)).2 → f.body = .exportBegin total cursors →
          cursors = ((w.session i).inConsumed + reportedIn i more, (w.session i).outProduced + reportedOut i more) := by
  intro w
  have hw : HeldInv w := (heldInv_new n workerId chunk).run ops
  refine ⟨hw.distinct, fun i msg payload hcmd howes => taken_owes_nothing hcmd ?_,
    fun i op hphase => (step_moves w op i).epoch (hw.slots i) hphase, fun i more hheld => epoch_mono hw hheld,
    fun i h => (mayConsume_iff h).2, ?_⟩
  · rcases howes with h | h <;> exact List.ne_nil_of_mem h
  · intro i blob len more hphase c hhold later
    have hc : HeldInv c := hw.step _
    obtain ⟨hin, hout⟩ := step_cursors (hw.slots i) (by rw [hphase]; exact nofun) (.commit i blob len)
    have hdrained : (c.session i).phase = .drained := by
      have hlt := lt_of_held (i := i) (by rw [hphase]; exact nofun)
      change ((w.commit i blob len).session i).phase = .drained
      rw [commit_exporting hphase, session_setSession_self hlt]
      rfl
    obtain ⟨hp, hins, houts⟩ := drained_run hc hdrained hhold
    refine ⟨?_, fun outLen f total cursors hsent hbody => ?_⟩
    · rw [eq_false_iff]
      intro h
      rcases (mayConsume_iff h).2 with h | h <;> rw [hp] at h <;> cases h
    · have hcursors := (render_exportBegin (sent_render hsent).1 hbody).2
      rw [hcursors, hins, houts, hin, hout]
      simp [reportedIn, reportedOut]

def askedWorker : WsSessionWorker sampleSdk 2 :=
  ((machine sampleSdk 2).run (new sampleSdk 2 1 [] 1)
    [.ctrl 1 (List.replicate 37 0), .ctrl 2 (List.replicate 20 0), .dataIdle]).1

/-- What the module reports between the commit and `EXPORT_BEGIN` is in the cursors. -/
theorem cursors_move_after_commit :
    (askedWorker.session 0).phase = .exporting ∧
      ((askedWorker.session 0).inConsumed, (askedWorker.session 0).outProduced) = (0, 0) ∧
      ((machine sampleSdk 2).run askedWorker
        [.commit 0 ⟨[1, 2], rfl⟩ 2, .onOutbound 0 5, .nextOut 64, .nextOut 64, .nextOut 64]).2 =
        [.sent 0 ⟨List.replicate 16 0, 0, .attached 0⟩, .sent 0 ⟨List.replicate 16 0, 0, .drained⟩,
          .sent 0 ⟨List.replicate 16 0, 0, .exportBegin 2 (0, 5)⟩] := by
  decide +kernel

theorem sessions_held_sample :
    let c := (askedWorker.step (.commit 0 ⟨[1, 2], rfl⟩ 2)).1
    let later := ((machine sampleSdk 2).run c [.nextOut 64, .nextOut 64]).1
    later.mayConsume 0 = false ∧ ∀ outLen f total cursors,
      .sent 0 f ∈ (later.step (.nextOut outLen)).2 → f.body = .exportBegin total cursors → cursors = (0, 0) := by
  obtain ⟨-, -, -, -, -, hcommit⟩ := sessions_held sampleSdk 2 1 [] 1
    [.ctrl 1 (List.replicate 37 0), .ctrl 2 (List.replicate 20 0), .dataIdle]
  refine hcommit 0 ⟨[1, 2], rfl⟩ 2 [.nextOut 64, .nextOut 64] (by decide +kernel) ⟨?_, ?_, trivial⟩
  · rintro ⟨msg, payload, h, -⟩
    cases h
  · rintro ⟨msg, payload, h, -⟩
    cases h

end WsSessionWorker

end Wave.Common
