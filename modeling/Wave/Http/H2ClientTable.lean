import Wave.Http.H2Client

/-! # The HTTP/2 client's table of streams

What the steps that neither read nor open do to the table. -/

namespace Wave.Http.H2Client

open Lib Http.H2Wire

def Rec.key : Rec → Option Nat
  | .head _ k _ _ _ | .body _ k _ _ | .refuse _ k _ | .abort _ k _ => some k
  | .other => none

def Rec.exchange : Rec → Option Nat
  | .head id _ _ _ _ | .body id _ _ _ | .refuse id _ _ | .abort id _ _ => some id
  | .other => none

def Rec.bytes : Rec → Bytes
  | .body _ _ bytes _ => bytes
  | _ => []

def Rec.last : Rec → Bool
  | .head _ _ _ more _ | .body _ _ _ more => !more
  | _ => false

def recsOf (key : Nat) (recs : List Rec) : List Rec := recs.filter fun r => r.key = some key

def bodyOf (key : Nat) (recs : List Rec) : Bytes := (recsOf key recs).flatMap Rec.bytes

def EndsOnce (recs : List Rec) : Prop :=
  ∃ pre r, recs = pre ++ [r] ∧ r.last = true ∧ ∀ x ∈ pre, x.last = false

/-- Each open stream is the one of its opening, and only one that was dropped owes a record. -/
structure TableInv (c : Client) : Prop where
  opened : ∀ i, (c.slot i).state = .opened →
    ∃ o ∈ c.openings, o.key = (c.slot i).key ∧ o.sid = (c.slot i).sid ∧ o.id = (c.slot i).id
  unique : ∀ i j, (c.slot i).state = .opened → (c.slot j).state = .opened → (c.slot i).key = (c.slot j).key → i = j
  owed : ∀ i, (c.slot i).owed ≠ .nothing → (c.slot i).owed ≠ .endBody ∧
    ∃ cause, ((c.slot i).key, cause) ∈ c.dropped
  openings : ∀ k o, c.openings[k]? = some o → o.key = k ∧ o.sid = 2 * k + 1 ∧ o.start ≤ c.begun
  nextSid : c.nextSid = 2 * c.openings.length + 1
  placed : ∀ r ∈ c.outbox.placed, ∀ k, r.key = some k → k < c.openings.length
  dropped : ∀ x ∈ c.dropped, x.1 < c.openings.length
  live : ∀ i, (c.slot i).state = .opened → ∀ cause, ((c.slot i).key, cause) ∉ c.dropped
  taken : ∀ i, (c.slot i).state ≠ .free → ∃ o ∈ c.openings, o.key = (c.slot i).key ∧ o.id = (c.slot i).id
  exchange : ∀ r ∈ c.outbox.placed, ∀ o ∈ c.openings, r.key = some o.key → r.exchange = some o.id

theorem TableInv.opening_inj {c : Client} (h : TableInv c) {o o' : Opening} (ho : o ∈ c.openings)
    (ho' : o' ∈ c.openings) (hk : o.key = o'.key) : o = o' := by
  obtain ⟨k, hlt, hget⟩ := mem_iff_getElem.mp ho
  obtain ⟨k', hlt', hget'⟩ := mem_iff_getElem.mp ho'
  have h1 := (h.openings k o (by rw [List.getElem?_eq_getElem hlt, hget])).1
  have h2 := (h.openings k' o' (by rw [List.getElem?_eq_getElem hlt', hget'])).1
  have hkk : k = k' := by omega
  subst hkk
  rw [← hget, hget']

theorem TableInv.key_lt {c : Client} (h : TableInv c) {i : Nat} (hi : (c.slot i).state = .opened) :
    (c.slot i).key < c.openings.length := by
  obtain ⟨o, ho, hk, _, _⟩ := h.opened i hi
  obtain ⟨k, hlt, hget⟩ := mem_iff_getElem.mp ho
  have hok := (h.openings k o (by rw [List.getElem?_eq_getElem hlt, hget])).1
  omega

/-- A step that neither reads nor opens: streams may leave, dropped, and those that were dropped may be answered. -/
structure Keeps (c c' : Client) : Prop where
  table : TableInv c'
  reading : (c'.rxInData, c'.rxEnd, c'.rxSid, c'.rxLeft, c'.rxPad, c'.recvBuf, c'.begun) =
    (c.rxInData, c.rxEnd, c.rxSid, c.rxLeft, c.rxPad, c.recvBuf, c.begun)
  openings : c'.openings = c.openings
  up : c.phase ≠ .idle → c'.phase ≠ .idle
  placed : ∃ new, c'.outbox.placed = c.outbox.placed ++ new ∧
    ∀ r ∈ new, ∀ k, r.key = some k → r.bytes = [] ∧ r.last = false ∧ ∃ cause, (k, cause) ∈ c'.dropped
  stays : ∀ i, (c'.slot i).state = .opened → (c.slot i).state = .opened ∧ (c'.slot i).key = (c.slot i).key ∧
    (c'.slot i).sid = (c.slot i).sid ∧ (c'.slot i).id = (c.slot i).id
  leaves : ∀ i, (c.slot i).state = .opened →
    (c'.slot i).state = .opened ∨ ∃ cause, ((c.slot i).key, cause) ∈ c'.dropped
  dropped : ∃ more, c'.dropped = c.dropped ++ more ∧
    ∀ x ∈ more, x.2 ≠ .violation ∧ ∃ i, (c.slot i).state = .opened ∧ (c.slot i).key = x.1

section Keeps

variable {c c' c'' : Client} {i j : Nat}

/-- Two streams that differ in windows and resets only. -/
structure Same (t t' : Stream) : Prop where
  state : t'.state = t.state
  key : t'.key = t.key
  sid : t'.sid = t.sid
  id : t'.id = t.id
  owed : t'.owed = t.owed

theorem Same.refl (t : Stream) : Same t t := ⟨rfl, rfl, rfl, rfl, rfl⟩

theorem Keeps.of_same (h : TableInv c) (hsame : ∀ i, Same (c.slot i) (c'.slot i))
    (hread : (c'.rxInData, c'.rxEnd, c'.rxSid, c'.rxLeft, c'.rxPad, c'.recvBuf, c'.begun) =
      (c.rxInData, c.rxEnd, c.rxSid, c.rxLeft, c.rxPad, c.recvBuf, c.begun))
    (hopen : c'.openings = c.openings) (hnext : c'.nextSid = c.nextSid) (hup : c.phase ≠ .idle → c'.phase ≠ .idle)
    (hplaced : c'.outbox.placed = c.outbox.placed) (hdrop : c'.dropped = c.dropped) : Keeps c c' := by
  have hbegun : c'.begun = c.begun := congrArg (·.2.2.2.2.2.2) hread
  refine ⟨⟨?_, ?_, ?_, ?_, ?_, ?_, ?_, ?_, ?_, ?_⟩, hread, hopen, hup,
    ⟨[], by rw [hplaced, append_nil], by simp⟩, ?_, ?_,
    ⟨[], by rw [hdrop, append_nil], by simp⟩⟩
  · intro i hi
    have hs := hsame i
    rw [hs.state] at hi
    rw [hopen, hs.key, hs.sid, hs.id]
    exact h.opened i hi
  · intro i j hi hj hk
    rw [(hsame i).state] at hi
    rw [(hsame j).state] at hj
    rw [(hsame i).key, (hsame j).key] at hk
    exact h.unique i j hi hj hk
  · intro i hi
    rw [(hsame i).owed] at hi ⊢
    rw [(hsame i).key, hdrop]
    exact h.owed i hi
  · rw [hopen, hbegun]
    exact h.openings
  · rw [hnext, hopen]
    exact h.nextSid
  · rw [hplaced, hopen]
    exact h.placed
  · rw [hdrop, hopen]
    exact h.dropped
  · intro i hi
    rw [(hsame i).state] at hi
    rw [(hsame i).key, hdrop]
    exact h.live i hi
  · intro i hi
    rw [(hsame i).state] at hi
    rw [hopen, (hsame i).key, (hsame i).id]
    exact h.taken i hi
  · rw [hplaced, hopen]
    exact h.exchange
  · intro i hi
    have hs := hsame i
    rw [hs.state] at hi
    exact ⟨hi, hs.key, hs.sid, hs.id⟩
  · intro i hi
    left
    rw [(hsame i).state]
    exact hi

theorem Keeps.refl (h : TableInv c) : Keeps c c :=
  Keeps.of_same h (fun _ => Same.refl _) rfl rfl rfl id rfl rfl

theorem Keeps.trans (h : Keeps c c') (h' : Keeps c' c'') : Keeps c c'' := by
  obtain ⟨new, hnew, hnewq⟩ := h.placed
  obtain ⟨new', hnew', hnewq'⟩ := h'.placed
  obtain ⟨more, hmore, hmoreq⟩ := h.dropped
  obtain ⟨more', hmore', hmoreq'⟩ := h'.dropped
  have hsub : ∀ x ∈ c'.dropped, x ∈ c''.dropped := by
    intro x hx
    rw [hmore']
    exact mem_append_left _ hx
  refine ⟨h'.table, h'.reading.trans h.reading, h'.openings.trans h.openings, fun hup => h'.up (h.up hup),
    ⟨new ++ new', ?_, ?_⟩, ?_, ?_, ⟨more ++ more', ?_, ?_⟩⟩
  · rw [hnew', hnew, append_assoc]
  · intro r hr k hk
    obtain hr | hr := mem_append.mp hr
    · obtain ⟨hb, hl, cause, hc⟩ := hnewq r hr k hk
      exact ⟨hb, hl, cause, hsub _ hc⟩
    · exact hnewq' r hr k hk
  · intro i hi
    obtain ⟨h1, h2, h3, h4⟩ := h'.stays i hi
    obtain ⟨g1, g2, g3, g4⟩ := h.stays i h1
    exact ⟨g1, h2.trans g2, h3.trans g3, h4.trans g4⟩
  · intro i hi
    obtain hl | ⟨cause, hc⟩ := h.leaves i hi
    · obtain hl' | ⟨cause, hc⟩ := h'.leaves i hl
      · exact Or.inl hl'
      · rw [(h.stays i hl).2.1] at hc
        exact Or.inr ⟨cause, hc⟩
    · exact Or.inr ⟨cause, hsub _ hc⟩
  · rw [hmore', hmore, append_assoc]
  · intro x hx
    obtain hx | hx := mem_append.mp hx
    · exact hmoreq x hx
    · obtain ⟨hv, i, hi, hk⟩ := hmoreq' x hx
      obtain ⟨g1, g2, _, _⟩ := h.stays i hi
      exact ⟨hv, i, g1, g2.symm.trans hk⟩

theorem same_setSlot {t : Stream} (h : Same (c.slot i) t) (j : Nat) : Same (c.slot j) ((c.setSlot i t).slot j) := by
  by_cases hij : j = i
  · subst hij
    by_cases hlt : j < c.streams.length
    · rw [slot_setSlot_self hlt]
      exact h
    · have hout : (c.setSlot j t).slot j = c.slot j := by
        unfold Client.setSlot
        rw [set_eq_of_length_le (by omega)]
      rw [hout]
      exact Same.refl _
  · rw [slot_setSlot_ne hij]
    exact Same.refl _

theorem takeOff_slot_self (hi : i < c.streams.length) (owe : Owed) (rst : Option ErrCode) :
    ((c.takeOff i owe rst).slot i).state = .done ∧ ((c.takeOff i owe rst).slot i).key = (c.slot i).key ∧
      ((c.takeOff i owe rst).slot i).owed = owe ∧ ((c.takeOff i owe rst).slot i).id = (c.slot i).id := by
  have hslot : (c.takeOff i owe rst).slot i =
      { (if (c.slot i).sid ≠ 0 then
          { c.slot i with rst := rst.elim (c.slot i).rst fun e => some ((c.slot i).sid, e) } else c.slot i) with
        sid := 0, state := .done, owed := owe } := slot_setSlot_self hi _
  rw [hslot]
  refine ⟨rfl, ?_, rfl, ?_⟩
  · dsimp only
    split <;> rfl
  · dsimp only
    split <;> rfl

theorem takeOff_slot_ne (hij : j ≠ i) (owe : Owed) (rst : Option ErrCode) :
    (c.takeOff i owe rst).slot j = c.slot j :=
  slot_setSlot_ne hij _

theorem Keeps.detach (h : TableInv c) (hi : (c.slot i).state = .opened) {owe : Owed} (rst : Option ErrCode)
    {cause : Cause} (howe : owe ≠ .endBody) (hcause : cause ≠ .violation) : Keeps c (c.detach i owe rst cause) := by
  have hlt := lt_of_opened hi
  have hself : ((c.detach i owe rst cause).slot i).state = .done ∧
      ((c.detach i owe rst cause).slot i).key = (c.slot i).key ∧ ((c.detach i owe rst cause).slot i).owed = owe ∧
      ((c.detach i owe rst cause).slot i).id = (c.slot i).id :=
    takeOff_slot_self hlt owe rst
  have hne : ∀ j, j ≠ i → (c.detach i owe rst cause).slot j = c.slot j := fun j hj => takeOff_slot_ne hj owe rst
  have hdrop : (c.detach i owe rst cause).dropped = c.dropped ++ [((c.slot i).key, cause)] := rfl
  have hopen : ∀ j, ((c.detach i owe rst cause).slot j).state = .opened → j ≠ i := by
    intro j hj hij
    rw [hij, hself.1] at hj
    cases hj
  refine ⟨⟨?_, ?_, ?_, h.openings, h.nextSid, h.placed, ?_, ?_, ?_, h.exchange⟩, rfl, rfl, id,
    ⟨[], (append_nil _).symm, by simp⟩, ?_, ?_, ⟨[((c.slot i).key, cause)], hdrop, ?_⟩⟩
  · intro j hj
    have hs := hne j (hopen j hj)
    rw [hs] at hj ⊢
    exact h.opened j hj
  · intro j k hj hk hjk
    have hs := hne j (hopen j hj)
    have hs' := hne k (hopen k hk)
    rw [hs] at hj hjk
    rw [hs'] at hk hjk
    exact h.unique j k hj hk hjk
  · intro j hj
    by_cases hij : j = i
    · subst hij
      rw [hself.2.2.1, hself.2.1, hdrop]
      exact ⟨howe, cause, mem_append_right _ (mem_singleton.mpr rfl)⟩
    · rw [hne j hij] at hj ⊢
      obtain ⟨h1, cause', h2⟩ := h.owed j hj
      rw [hdrop]
      exact ⟨h1, cause', mem_append_left _ h2⟩
  · intro x hx
    rw [hdrop] at hx
    obtain hx | hx := mem_append.mp hx
    · exact h.dropped x hx
    · rw [mem_singleton] at hx
      subst hx
      exact h.key_lt hi
  · intro j hj cause' hc
    have hij := hopen j hj
    rw [hne j hij] at hj hc
    rw [hdrop] at hc
    obtain hc | hc := mem_append.mp hc
    · exact h.live j hj cause' hc
    · rw [mem_singleton, Prod.mk.injEq] at hc
      exact hij (h.unique j i hj hi hc.1)
  · intro j hj
    by_cases hij : j = i
    · rw [hij, hself.2.1, hself.2.2.2]
      exact h.taken i (by rw [hi]; nofun)
    · rw [hne j hij] at hj ⊢
      exact h.taken j hj
  · intro j hj
    have hs := hne j (hopen j hj)
    rw [hs] at hj ⊢
    exact ⟨hj, rfl, rfl, rfl⟩
  · intro j hj
    by_cases hij : j = i
    · subst hij
      right
      rw [hdrop]
      exact ⟨cause, mem_append_right _ (mem_singleton.mpr rfl)⟩
    · left
      rw [hne j hij]
      exact hj
  · intro x hx
    rw [mem_singleton] at hx
    subst hx
    exact ⟨hcause, i, hi, rfl⟩

theorem refusalFor_ne (t : Stream) (raised : Nat) : Client.refusalFor t raised ≠ .endBody := by
  unfold Client.refusalFor
  split <;> nofun

theorem findOpen_opened {id : Nat} (h : c.findOpen id = some i) : (c.slot i).state = .opened := by
  obtain ⟨hi, hp, _⟩ := List.findIdx?_eq_some_iff_getElem.mp h
  have hslot : c.slot i = c.streams[i] := List.getD_eq_getElem _ _ hi
  rw [hslot]
  simp only [decide_eq_true_eq] at hp
  exact hp.1

@[simp] theorem flush_placed (b : Outbox) (ok : Bool) : (b.flush ok).placed = b.placed := by
  unfold Outbox.flush
  split
  · rfl
  next r hr =>
    split
    · simp [Outbox.placed, hr]
    · rfl

theorem place_placed {b b' : Outbox} {r : Rec} {ch : Chan} (h : b.place r ch = some b') :
    b'.placed = b.placed ++ [r] := by
  unfold Outbox.place at h
  dsimp only at h
  split at h
  · cases h
  next hnone =>
    have hb : (b.flush ch.flush).sent = b.placed := by
      rw [← flush_placed b ch.flush]
      simp [Outbox.placed, hnone]
    cases h
    split
    · simp [Outbox.placed, hnone, hb]
    · simp [Outbox.placed, hb]

theorem place_other (b : Outbox) (ch : Chan) :
    ∃ new, ((b.place .other ch).getD b).placed = b.placed ++ new ∧ ∀ r ∈ new, r = .other := by
  cases h : b.place .other ch with
  | none => exact ⟨[], by simp, by simp⟩
  | some b' => exact ⟨[.other], place_placed h, by simp⟩

section

variable (h : TableInv c)

include h

theorem Keeps.credit (id n : Nat) : Keeps c (c.credit id n) := by
  unfold Client.credit
  split
  · exact Keeps.refl h
  next i hi =>
    refine Keeps.of_same h (same_setSlot ⟨rfl, rfl, rfl, rfl, rfl⟩) rfl rfl rfl (fun hup => hup) rfl rfl

theorem Keeps.abort (id : Nat) : Keeps c (c.abort id) := by
  unfold Client.abort
  split
  · exact Keeps.refl h
  next i hi => exact Keeps.detach h (findOpen_opened hi) _ (by rintro ⟨⟩) (by rintro ⟨⟩)

theorem Keeps.deadline (i : Nat) : Keeps c (c.deadline i) := by
  unfold Client.deadline
  dsimp only
  split
  next hi => exact Keeps.detach h hi _ (by split <;> nofun) (by nofun)
  · exact Keeps.refl h

theorem Keeps.queueRst (i : Nat) : Keeps c (c.queueRst i) := by
  unfold Client.queueRst
  split
  · exact Keeps.refl h
  · exact Keeps.of_same h (same_setSlot ⟨rfl, rfl, rfl, rfl, rfl⟩) rfl rfl rfl (fun hup => hup) rfl rfl

theorem Keeps.refillConn : Keeps c c.refillConn := by
  unfold Client.refillConn
  split
  · exact Keeps.of_same h (fun _ => Same.refl _) rfl rfl rfl (fun hup => hup) rfl rfl
  · exact Keeps.refl h

theorem Keeps.openWindow (i : Nat) : Keeps c (c.openWindow i) := by
  unfold Client.openWindow
  dsimp only
  split
  · split
    · exact Keeps.refl h
    · exact Keeps.of_same h (same_setSlot ⟨rfl, rfl, rfl, rfl, rfl⟩) rfl rfl rfl (fun hup => hup) rfl rfl
  · exact Keeps.refl h

theorem Keeps.sendBody (room : Nat) : Keeps c (c.sendBody room) := by
  unfold Client.sendBody
  split
  · exact Keeps.refl h
  · dsimp only
    split
    · exact Keeps.of_same h (fun _ => Same.refl _) rfl rfl rfl (fun hup => hup) rfl rfl
    · split
      · exact Keeps.refl h
      · exact Keeps.of_same h (same_setSlot ⟨rfl, rfl, rfl, rfl, rfl⟩) rfl rfl rfl (fun hup => hup) rfl rfl

theorem Keeps.answer (hi : (c.slot i).state = .done) {t : Stream} {b : Outbox} {new : List Rec}
    (ht : t.state ≠ .opened ∧ t.owed = .nothing)
    (htaken : t.state ≠ .free → t.key = (c.slot i).key ∧ t.id = (c.slot i).id)
    (hb : b.placed = c.outbox.placed ++ new)
    (hnew : ∀ r ∈ new, ∀ k, r.key = some k → r.bytes = [] ∧ r.last = false ∧ ∃ cause, (k, cause) ∈ c.dropped)
    (hid : ∀ r ∈ new, r.key = some (c.slot i).key ∧ r.exchange = some (c.slot i).id) :
    Keeps c (({ c with outbox := b }).setSlot i t) := by
  have hlt : i < c.streams.length := by
    by_contra hge
    unfold Client.slot at hi
    rw [List.getD_eq_default _ _ (by omega)] at hi
    cases hi
  have hself : (({ c with outbox := b }).setSlot i t).slot i = t := slot_setSlot_self hlt t
  have hne : ∀ j, j ≠ i → (({ c with outbox := b }).setSlot i t).slot j = c.slot j := fun j hj => slot_setSlot_ne hj t
  have hopen : ∀ j, ((({ c with outbox := b }).setSlot i t).slot j).state = .opened → j ≠ i := by
    intro j hj hij
    rw [hij, hself] at hj
    exact ht.1 hj
  have htake := h.taken i (by rw [hi]; nofun)
  refine ⟨⟨?_, ?_, ?_, h.openings, h.nextSid, ?_, h.dropped, ?_, ?_, ?_⟩, rfl, rfl, id, ⟨new, hb, hnew⟩, ?_, ?_,
    ⟨[], (append_nil _).symm, by simp⟩⟩
  · intro j hj
    have hs := hne j (hopen j hj)
    rw [hs] at hj ⊢
    exact h.opened j hj
  · intro j k hj hk hjk
    have hs := hne j (hopen j hj)
    have hs' := hne k (hopen k hk)
    rw [hs] at hj hjk
    rw [hs'] at hk hjk
    exact h.unique j k hj hk hjk
  · intro j hj
    by_cases hij : j = i
    · rw [hij, hself] at hj
      exact absurd ht.2 hj
    · rw [hne j hij] at hj ⊢
      exact h.owed j hj
  · intro r hr k hk
    obtain hr | hr := mem_append.mp (hb ▸ hr : r ∈ c.outbox.placed ++ new)
    · exact h.placed r hr k hk
    · obtain ⟨_, _, cause, hc⟩ := hnew r hr k hk
      exact h.dropped _ hc
  · intro j hj
    have hs := hne j (hopen j hj)
    rw [hs] at hj ⊢
    exact h.live j hj
  · intro j hj
    by_cases hij : j = i
    · rw [hij, hself] at hj
      obtain ⟨o, ho, hk, hid'⟩ := htake
      rw [hij, hself, (htaken hj).1, (htaken hj).2]
      exact ⟨o, ho, hk, hid'⟩
    · rw [hne j hij] at hj ⊢
      exact h.taken j hj
  · intro r hr o ho hk
    obtain hr | hr := mem_append.mp (hb ▸ hr : r ∈ c.outbox.placed ++ new)
    · exact h.exchange r hr o ho hk
    · obtain ⟨o', ho', hk', hid'⟩ := htake
      have hrid := hid r hr
      rw [hrid.1, Option.some.injEq] at hk
      rw [hrid.2, h.opening_inj ho ho' (hk.symm.trans hk'.symm), hid']
  · intro j hj
    have hs := hne j (hopen j hj)
    rw [hs] at hj ⊢
    exact ⟨hj, rfl, rfl, rfl⟩
  · intro j hj
    left
    have hij : j ≠ i := by
      intro hij
      rw [hij, hi] at hj
      cases hj
    rw [hne j hij]
    exact hj

theorem Keeps.pumpOut (i : Nat) (ch : Chan) : Keeps c (c.pumpOut i ch) := by
  unfold Client.pumpOut
  dsimp only
  split
  · exact Keeps.refl h
  next hdone =>
    rw [not_not] at hdone
    have howed := h.owed i
    -- the slot is cleared, or keeps only the reset it still owes
    have hslot : ∀ t : Stream, t = (if (c.slot i).rst = none ∨ c.phase = Phase.idle then ({} : Stream)
        else { c.slot i with owed := .nothing }) → (t.state ≠ .opened ∧ t.owed = .nothing) ∧
        (t.state ≠ .free → t.key = (c.slot i).key ∧ t.id = (c.slot i).id) := by
      intro t ht
      split at ht
      · subst ht
        exact ⟨⟨by nofun, rfl⟩, fun hc => absurd rfl hc⟩
      · subst ht
        exact ⟨⟨by dsimp only; rw [hdone]; nofun, rfl⟩, fun _ => ⟨rfl, rfl⟩⟩
    generalize (if (c.slot i).rst = none ∨ c.phase = Phase.idle then ({} : Stream)
      else { c.slot i with owed := .nothing }) = t at hslot ⊢
    cases hcase : (c.slot i).owed with
    | nothing => exact Keeps.answer h hdone (hslot t rfl).1 (hslot t rfl).2 (append_nil _).symm (by simp) (by simp)
    | endBody => exact absurd hcase (howed (by rw [hcase]; nofun)).1
    | status code =>
      dsimp only
      split
      · exact Keeps.refl h
      next b hb =>
        refine Keeps.answer h hdone (hslot t rfl).1 (hslot t rfl).2 (place_placed hb) ?_ ?_
        swap
        · intro r hr
          rw [mem_singleton] at hr
          subst hr
          exact ⟨rfl, rfl⟩
        intro r hr k hk
        rw [mem_singleton] at hr
        subst hr
        cases hk
        exact ⟨rfl, rfl, (howed (by rw [hcase]; nofun)).2⟩
    | abort reason =>
      dsimp only
      split
      · exact Keeps.refl h
      next b hb =>
        refine Keeps.answer h hdone (hslot t rfl).1 (hslot t rfl).2 (place_placed hb) ?_ ?_
        swap
        · intro r hr
          rw [mem_singleton] at hr
          subst hr
          exact ⟨rfl, rfl⟩
        intro r hr k hk
        rw [mem_singleton] at hr
        subst hr
        cases hk
        exact ⟨rfl, rfl, (howed (by rw [hcase]; nofun)).2⟩

theorem Keeps.outbox {b : Outbox} {new : List Rec} (hb : b.placed = c.outbox.placed ++ new)
    (hnew : ∀ r ∈ new, r = .other) : Keeps c { c with outbox := b } := by
  have hnone : ∀ r ∈ new, ∀ k, r.key ≠ some k := by
    intro r hr k hk
    rw [hnew r hr] at hk
    cases hk
  refine ⟨⟨h.opened, h.unique, h.owed, h.openings, h.nextSid, ?_, h.dropped, h.live, h.taken, ?_⟩, rfl, rfl, id,
    ⟨new, hb, fun r hr k hk => absurd hk (hnone r hr k)⟩, fun i hi => ⟨hi, rfl, rfl, rfl⟩, fun i hi => Or.inl hi,
    ⟨[], (append_nil _).symm, by simp⟩⟩
  · intro r hr k hk
    obtain hr | hr := mem_append.mp (hb ▸ hr : r ∈ c.outbox.placed ++ new)
    · exact h.placed r hr k hk
    · exact absurd hk (hnone r hr k)
  · intro r hr o ho hk
    obtain hr | hr := mem_append.mp (hb ▸ hr : r ∈ c.outbox.placed ++ new)
    · exact h.exchange r hr o ho hk
    · exact absurd hk (hnone r hr _)

theorem Keeps.abandon (hheld : c.outbox.held = none) : Keeps c c.abandon := by
  have hplaced : c.abandon.outbox.placed = c.outbox.placed := by
    simp [Client.abandon, Outbox.placed, hheld]
  exact Keeps.of_same h (fun _ => Same.refl _) rfl rfl rfl (fun hup => hup) hplaced rfl

end

/-! Frames that are neither DATA nor HEADERS. -/

theorem slot_map (f : Stream → Stream) (hf : f {} = {}) (streams : List Stream) (i : Nat) :
    (streams.map f).getD i {} = f (streams.getD i {}) := by
  conv_lhs => rw [← hf]
  exact List.getD_map _ _ f

theorem Keeps.setting (h : TableInv c) {id v : Nat} (hok : setting c id v = .ok c') : Keeps c c' := by
  unfold H2Client.setting at hok
  split at hok
  · cases hok
    exact Keeps.of_same h (fun _ => Same.refl _) rfl rfl rfl (fun hup => hup) rfl rfl
  · split at hok
    · split at hok
      · cases hok
      · cases hok
        refine Keeps.of_same h (fun i => ?_) rfl rfl rfl (fun hup => hup) rfl rfl
        have hslot := slot_map (fun t => if t.state = .opened ∧ t.sid ≠ 0 then
          { t with sendWindow := satAddI32 t.sendWindow (v - c.peerInitialWindow) } else t) rfl c.streams i
        unfold Client.slot
        rw [hslot]
        split <;> exact ⟨rfl, rfl, rfl, rfl, rfl⟩
    · split at hok
      · split at hok
        · cases hok
        · cases hok
          exact Keeps.of_same h (fun _ => Same.refl _) rfl rfl rfl (fun hup => hup) rfl rfl
      · cases hok
        exact Keeps.refl h

/-- What each setting keeps, a SETTINGS frame keeps. -/
theorem settings_keeps {P : Client → Prop} (hset : ∀ {c c' : Client} {id v : Nat}, P c → setting c id v = .ok c' → P c')
    (p : Bytes) {c c' : Client} (h : P c) (hok : settings c p = .ok c') : P c' := by
  induction c, p using settings.induct with
  | case1 c a b v0 v1 v2 v3 rest e he =>
    rw [H2Client.settings, he] at hok
    cases hok
  | case2 c a b v0 v1 v2 v3 rest c₁ hc₁ ih =>
    rw [H2Client.settings, hc₁] at hok
    exact ih (hset h hc₁) hok
  | case3 c p hp =>
    unfold H2Client.settings at hok
    split at hok
    · exact absurd rfl (hp _ _ _ _ _ _ _)
    · cases hok
      exact h

theorem Keeps.settings (p : Bytes) (h : TableInv c) (hok : settings c p = .ok c') : Keeps c c' :=
  settings_keeps (fun hk hset => hk.trans (Keeps.setting hk.table hset)) p (Keeps.refl h) hok

theorem Keeps.windowUpdate (h : TableInv c) {sid delta : Nat} (hok : windowUpdate c sid delta = .ok c')
    (hfits : ∀ i, c.findSid sid = some i → (c.slot i).sendWindow + delta ≤ WINDOW_MAX) : Keeps c c' := by
  unfold H2Client.windowUpdate at hok
  split at hok
  · split at hok
    · cases hok
    · cases hok
      exact Keeps.of_same h (fun _ => Same.refl _) rfl rfl rfl (fun hup => hup) rfl rfl
  · split at hok
    · cases hok
      exact Keeps.refl h
    next i hi =>
      have hle := hfits i hi
      dsimp only at hok
      rw [if_neg (by omega)] at hok
      cases hok
      exact Keeps.of_same h (same_setSlot ⟨rfl, rfl, rfl, rfl, rfl⟩) rfl rfl rfl (fun hup => hup) rfl rfl

theorem Keeps.resetByPeer (h : TableInv c) (sid code : Nat) : Keeps c (resetByPeer c sid code) := by
  unfold H2Client.resetByPeer
  split
  · exact Keeps.refl h
  next i hi => exact Keeps.detach h (findSid_some hi).1 _ (refusalFor_ne _ _) (by rintro ⟨⟩)

theorem Keeps.goAway (h : TableInv c) (last : Nat) : Keeps c (goAway c last) := by
  unfold H2Client.goAway
  have hfirst : Keeps c { c with goaway := true, phase := .closing } :=
    Keeps.of_same h (fun _ => Same.refl _) rfl rfl rfl (fun _ => by nofun) rfl rfl
  generalize ({ c with goaway := true, phase := .closing } : Client) = c₁ at hfirst
  generalize List.range c.streams.length = slots
  induction slots generalizing c₁ with
  | nil => exact hfirst
  | cons i slots ih =>
    rw [foldl_cons]
    refine ih _ ?_
    split
    next hi => exact hfirst.trans (Keeps.detach hfirst.table hi.1 _ (by nofun) (by nofun))
    · exact hfirst

end Keeps

end Wave.Http.H2Client
