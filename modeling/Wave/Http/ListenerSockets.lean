import Wave.Http.Listeners
import Wave.Lib.Keyed

/-! # Every listening socket has an owner

Each socket is in a bind record, or its reply is on the way to one, or its close was taken. -/

namespace Wave.Http.Listen

open Lib Common Http.Routing

variable {bi : Nat}

variable {w : ListenWorld} {port : UInt16} {inp : ListenInput}

def Tracked (w : ListenWorld) (s : Listening) : Prop :=
  ∃ b ∈ w.bound, b.used = true ∧ b.port = s.port ∧ b.state = .bound ∧ b.connId = some s.conn

def Awaited (w : ListenWorld) (s : Listening) : Prop :=
  .bound s.conn s.port ∈ w.replies ∧
    ∃ b ∈ w.bound, b.used = true ∧ b.port = s.port ∧ b.state = .binding

def Closing (w : ListenWorld) (s : Listening) : Prop := .close s.conn ∈ w.queue

structure SocketsOwned (w : ListenWorld) : Prop where
  owned : ∀ s ∈ w.sockets, Tracked w s ∨ Awaited w s ∨ Closing w s
  once : (w.sockets.map (·.port)).Nodup

/-- A record that goes has its answer, and its close is taken when it was bound. -/
def TearOk (inp : ListenInput) (w : ListenWorld) (bi : Nat) : Prop :=
  let b := w.bound.getD bi {}
  b.used = true → w.desired b.port = false →
    b.state ≠ .binding ∧ (b.state = .bound → inp.closeTaken bi = true)

def ListenOk (w : ListenWorld) : ListenEvent → Prop
  | .reconcile inp => ∀ bi < w.bound.length, TearOk inp w bi
  | _ => True

instance (inp : ListenInput) (w : ListenWorld) (bi : Nat) : Decidable (TearOk inp w bi) :=
  inferInstanceAs (Decidable (_ → _ → _ ∧ (_ → _)))

instance (w : ListenWorld) (e : ListenEvent) : Decidable (ListenOk w e) :=
  match e with
  | .reconcile inp => inferInstanceAs (Decidable (∀ bi < w.bound.length, TearOk inp w bi))
  | .table _ | .provide _ | .deliver _ => isTrue trivial

def BoundListener.key (b : BoundListener) : Option UInt16 := if b.used then some b.port else none

theorem key_eq_some {b : BoundListener} :
    b.key = some port ↔ b.used = true ∧ b.port = port := by
  unfold BoundListener.key
  split_ifs with h
  · simp [h]
  · simp [h]

def record (w : ListenWorld) (port : UInt16) : Option BoundListener :=
  Keyed.lookup BoundListener.key w.bound port

def Binding (w : ListenWorld) (port : UInt16) : Prop :=
  (record w port).map (·.state) = some .binding

instance (w : ListenWorld) (port : UInt16) : Decidable (Binding w port) :=
  inferInstanceAs (Decidable (_ = _))

theorem boundSlotFor_some {i : Nat} (h : w.boundSlotFor port = some i) :
    ∃ b, w.bound[i]? = some b ∧ b.key = some port := by
  obtain ⟨hlt, hp, -⟩ := List.findIdx?_eq_some_iff_getElem.mp h
  refine ⟨_, List.getElem?_eq_getElem hlt, key_eq_some.mpr ?_⟩
  simpa using hp

theorem boundSlotFor_none (h : w.boundSlotFor port = none) :
    record w port = none := by
  refine Keyed.lookup_eq_none.mpr fun b hb hkey => ?_
  have hno := List.findIdx?_eq_none_iff.mp h b hb
  obtain ⟨hused, hport⟩ := key_eq_some.mp hkey
  rw [hused, decide_eq_true hport] at hno
  cases hno

def outstanding (w : ListenWorld) (port : UInt16) : Nat :=
  w.queue.count (.bind port) + w.replies.countP (·.port = port)

inductive Owner (w : ListenWorld) (s : Listening) : Prop where
  | tracked (b : BoundListener) (hb : record w s.port = some b) (hstate : b.state = .bound)
      (hconn : b.connId = some s.conn)
  | awaited (hreply : .bound s.conn s.port ∈ w.replies) (hb : Binding w s.port)
  | closing (hclose : .close s.conn ∈ w.queue)

def Ordered (queue : List ListenCmd) (sockets : List Listening) : Prop :=
  ∀ pre port post, queue = pre ++ ListenCmd.bind port :: post →
    ∀ s ∈ sockets, s.port = port → .close s.conn ∈ pre

theorem Ordered.concat {queue : List ListenCmd} {sockets : List Listening} (h : Ordered queue sockets)
    (cmd : ListenCmd)
    (hcmd : ∀ port, cmd = .bind port → ∀ s ∈ sockets, s.port = port → .close s.conn ∈ queue) :
    Ordered (queue ++ [cmd]) sockets := by
  intro pre port post heq s hs hport
  rcases eq_nil_or_concat post with rfl | ⟨post', last, rfl⟩
  · obtain ⟨rfl, hlast⟩ := List.append_inj' heq rfl
    exact hcmd port (List.cons.inj hlast).1 s hs hport
  · have hfront : queue ++ [cmd] = (pre ++ ListenCmd.bind port :: post') ++ [last] := by
      rw [heq, append_assoc, cons_append, concat_eq_append]
    exact h pre port post' (List.append_inj' hfront rfl).1 s hs hport

theorem Ordered.tail {cmd : ListenCmd} {queue : List ListenCmd} {sockets kept : List Listening}
    (h : Ordered (cmd :: queue) sockets) (hkept : ∀ s ∈ kept, s ∈ sockets ∧ cmd ≠ .close s.conn) :
    Ordered queue kept := by
  intro pre port post heq s hs hport
  obtain ⟨hs', hne⟩ := hkept s hs
  have hmem := h (cmd :: pre) port post (by rw [heq, cons_append]) s hs' hport
  exact (mem_cons.mp hmem).resolve_left hne.symm

structure ListenInv (w : ListenWorld) : Prop where
  apart : Keyed.Apart BoundListener.key w.bound
  answers : ∀ port, outstanding w port = if Binding w port then 1 else 0
  owner : ∀ s ∈ w.sockets, Owner w s
  ordered : Ordered w.queue w.sockets
  once : (w.sockets.map (·.port)).Nodup

theorem ListenInv.socketsOwned (h : ListenInv w) : SocketsOwned w := by
  refine ⟨fun s hs => ?_, h.once⟩
  cases h.owner s hs with
  | tracked b hb hstate hconn =>
    obtain ⟨hmem, hkey⟩ := Keyed.mem_of_lookup hb
    obtain ⟨hused, hport⟩ := key_eq_some.mp hkey
    exact .inl ⟨b, hmem, hused, hport, hstate, hconn⟩
  | awaited hreply hb =>
    obtain ⟨b, hrec, hstate⟩ := map_eq_some_iff.mp hb
    obtain ⟨hmem, hkey⟩ := Keyed.mem_of_lookup hrec
    obtain ⟨hused, hport⟩ := key_eq_some.mp hkey
    exact .inr (.inl ⟨hreply, b, hmem, hused, hport, hstate⟩)
  | closing hclose => exact .inr (.inr hclose)

theorem ListenInv.same {w w' : ListenWorld} (h : ListenInv w)
    (hapart : Keyed.Apart BoundListener.key w'.bound) (hrec : ∀ port, record w' port = record w port)
    (hqueue : w'.queue = w.queue) (hsockets : w'.sockets = w.sockets) (hreplies : w'.replies = w.replies) :
    ListenInv w' := by
  have hbinding : ∀ port, Binding w' port ↔ Binding w port := fun port => by
    rw [Binding, Binding, hrec]
  refine ⟨hapart, fun port => ?_, fun s hs => ?_, ?_, ?_⟩
  · have hcount := h.answers port
    simp only [outstanding, hqueue, hreplies, hbinding] at hcount ⊢
    exact hcount
  · rw [hsockets] at hs
    cases h.owner s hs with
    | tracked b hb hstate hconn => exact .tracked b ((hrec _).trans hb) hstate hconn
    | awaited hreply hb => exact .awaited (hreplies ▸ hreply) ((hbinding _).mpr hb)
    | closing hclose => exact .closing (hqueue ▸ hclose)
  · rw [hqueue, hsockets]
    exact h.ordered
  · rw [hsockets]
    exact h.once

theorem ListenInv.closing_of_free (h : ListenInv w) {s : Listening}
    (hs : s ∈ w.sockets) (hfree : record w s.port = none) : .close s.conn ∈ w.queue := by
  cases h.owner s hs with
  | tracked b hb _ _ => rw [hfree] at hb; cases hb
  | awaited _ hb => rw [Binding, hfree] at hb; cases hb
  | closing hclose => exact hclose

/-! ## Reconciliation -/

theorem lookup_claim {bound : List BoundListener} (h : Keyed.Apart BoundListener.key bound)
    (hbi : bound.findIdx? (fun b => !b.used) = some bi)
    (hfree : Keyed.lookup BoundListener.key bound port = none) (new : BoundListener)
    (hnew : new.key = some port ∨ new.key = none) :
    Keyed.Apart BoundListener.key (bound.set bi new) ∧
      ∀ q, Keyed.lookup BoundListener.key (bound.set bi new) q =
        if new.key = some q then some new else Keyed.lookup BoundListener.key bound q := by
  obtain ⟨hlt, hunused, -⟩ := List.findIdx?_eq_some_iff_getElem.mp hbi
  have hold : (bound[bi]).key = none := by
    unfold BoundListener.key
    rw [if_neg]
    simpa using hunused
  have hi := List.getElem?_eq_getElem hlt
  have hokay : ∀ k, new.key = some k →
      Keyed.lookup BoundListener.key bound k = none ∨ (bound[bi]).key = some k := by
    intro k hk
    rcases hnew with hnew | hnew
    · exact .inl (Option.some.inj (hnew.symm.trans hk) ▸ hfree)
    · rw [hnew] at hk
      cases hk
  refine ⟨Keyed.apart_set h hi hokay, fun q => ?_⟩
  rw [Keyed.lookup_set h hi hokay, if_neg (c := (bound[bi]).key = some q)]
  rw [hold]
  exact nofun

theorem ListenInv.claim (h : ListenInv w)
    (hbi : w.bound.findIdx? (fun b => !b.used) = some bi) (hfree : record w port = none) :
    ListenInv { w with
      bound := w.bound.set bi { port := port, state := .binding, used := true }
      queue := w.queue ++ [ListenCmd.bind port] } := by
  obtain ⟨new, hnew⟩ : ∃ new : BoundListener, new = { port := port, state := .binding, used := true } :=
    ⟨_, rfl⟩
  rw [← hnew]
  have hkey : new.key = some port := by rw [hnew]; rfl
  obtain ⟨hapart, hrec⟩ := lookup_claim h.apart hbi hfree new (.inl hkey)
  obtain ⟨w', hw'⟩ : ∃ w' : ListenWorld, w' =
    { w with bound := w.bound.set bi new, queue := w.queue ++ [ListenCmd.bind port] } := ⟨_, rfl⟩
  have hself : record w' port = some new := by rw [hw', record, hrec, if_pos hkey]
  have hother : ∀ q, q ≠ port → record w' q = record w q := by
    intro q hq
    rw [hw', record, hrec, if_neg]
    · rfl
    · rw [hkey]
      exact fun heq => hq (Option.some.inj heq).symm
  rw [← hw']
  have hqueue : w'.queue = w.queue ++ [ListenCmd.bind port] := by rw [hw']
  have hsockets : w'.sockets = w.sockets := by rw [hw']
  have hreplies : w'.replies = w.replies := by rw [hw']
  refine ⟨by rw [hw']; exact hapart, fun q => ?_, fun s hs => ?_, ?_, by rw [hsockets]; exact h.once⟩
  · have hcount := h.answers q
    rw [outstanding, hqueue, hreplies, count_append]
    by_cases hq : q = port
    · subst hq
      have hidle : ¬ Binding w q := by rw [Binding, hfree]; exact nofun
      have hbinding : Binding w' q := by rw [Binding, hself, hnew]; rfl
      rw [if_neg hidle, outstanding] at hcount
      rw [if_pos hbinding, List.count_singleton_self]
      omega
    · have hsame : Binding w' q ↔ Binding w q := by rw [Binding, Binding, hother q hq]
      have hzero : [ListenCmd.bind port].count (.bind q) = 0 :=
        List.count_eq_zero_of_not_mem (by simpa using hq)
      rw [outstanding] at hcount
      simp only [hsame, hzero]
      omega
  · rw [hsockets] at hs
    by_cases hq : s.port = port
    · refine .closing ?_
      rw [hqueue]
      exact mem_append_left _ (h.closing_of_free hs (by rw [hq]; exact hfree))
    · cases h.owner s hs with
      | tracked b hb hstate hconn => exact .tracked b ((hother _ hq).trans hb) hstate hconn
      | awaited hreply hb =>
        exact .awaited (hreplies ▸ hreply) (by rw [Binding, hother _ hq]; exact hb)
      | closing hclose => exact .closing (hqueue ▸ mem_append_left _ hclose)
  · rw [hqueue, hsockets]
    refine h.ordered.concat _ fun q hq s hs hport => ?_
    cases hq
    exact h.closing_of_free hs (by rw [hport]; exact hfree)

theorem ListenInv.bindRow (h : ListenInv w) (inp : ListenInput) (r : ListenerRow × Nat) :
    ListenInv (bindRow inp w r) := by
  unfold Listen.bindRow
  simp only
  by_cases hskip : (!r.1.used || r.1.port = 0 || r.1.tls || r.1.port = w.staticPort ||
      (w.boundSlotFor r.1.port).isSome) = true
  · rw [if_pos hskip]
    exact h
  rw [if_neg hskip]
  have hfree : record w r.1.port = none := by
    refine boundSlotFor_none ?_
    simp only [or_eq_true, not_or, not_eq_true, Option.isSome_eq_false_iff,
      isNone_iff_eq_none] at hskip
    exact hskip.2
  cases hbi : w.bound.findIdx? fun b => !b.used with
  | none => exact h.same h.apart (fun _ => rfl) rfl rfl rfl
  | some bi =>
    simp only
    split_ifs
    · exact h.claim hbi hfree
    · obtain ⟨hapart, hrec⟩ := lookup_claim h.apart hbi hfree {} (.inr rfl)
      exact h.same hapart (fun q => (hrec q).trans (if_neg nofun)) rfl rfl rfl

theorem ListenInv.drop (h : ListenInv w) {b : BoundListener}
    (hb : w.bound[bi]? = some b) (hused : b.used = true) (hstate : b.state ≠ .binding)
    (close : Option UInt16) (hclose : b.state = .bound → close = b.connId) :
    ListenInv { w with
      bound := w.bound.set bi {}, queue := w.queue ++ (close.map ListenCmd.close).toList } := by
  obtain ⟨w', hw'⟩ : ∃ w' : ListenWorld, w' = { w with
    bound := w.bound.set bi {}, queue := w.queue ++ (close.map ListenCmd.close).toList } := ⟨_, rfl⟩
  rw [← hw']
  have hkey : b.key = some b.port := key_eq_some.mpr ⟨hused, rfl⟩
  have hself : record w b.port = some b := (Keyed.lookup_eq_some h.apart).mpr ⟨bi, hb, hkey⟩
  have hrec : ∀ q, record w' q = if b.port = q then none else record w q := by
    intro q
    have hset : Keyed.lookup BoundListener.key (w.bound.set bi {}) q = _ :=
      Keyed.lookup_set h.apart hb (fun k hk => by cases hk) q
    rw [if_neg nofun] at hset
    simp only [hkey, Option.some.injEq] at hset
    rw [hw', record, hset]
    rfl
  have hbinding : ∀ q, Binding w' q ↔ Binding w q := by
    intro q
    rw [Binding, Binding, hrec]
    by_cases hq : b.port = q
    · rw [if_pos hq, ← hq, hself]
      exact iff_of_false nofun fun hs => hstate (Option.some.inj hs)
    · rw [if_neg hq]
  have hqueue : w'.queue = w.queue ++ (close.map ListenCmd.close).toList := by rw [hw']
  have hsockets : w'.sockets = w.sockets := by rw [hw']
  have hreplies : w'.replies = w.replies := by rw [hw']
  refine ⟨by rw [hw']; exact Keyed.apart_set h.apart hb (fun k hk => by cases hk), fun q => ?_, fun s hs => ?_, ?_,
    by rw [hsockets]; exact h.once⟩
  · have hcount := h.answers q
    have hzero : (close.map ListenCmd.close).toList.count (.bind q) = 0 := by
      cases close <;> rfl
    rw [outstanding] at hcount
    rw [outstanding, hqueue, hreplies, count_append, hzero]
    simp only [hbinding]
    omega
  · rw [hsockets] at hs
    cases h.owner s hs with
    | tracked c hc hcs hconn =>
      by_cases hq : b.port = s.port
      · rw [← hq, hself] at hc
        cases hc
        refine .closing ?_
        rw [hqueue, hclose hcs, hconn]
        exact mem_append_right _ (mem_singleton_self _)
      · exact .tracked c (by rw [hrec, if_neg hq]; exact hc) hcs hconn
    | awaited hreply hbs => exact .awaited (hreplies ▸ hreply) ((hbinding _).mpr hbs)
    | closing hcl => exact .closing (hqueue ▸ mem_append_left _ hcl)
  · rw [hqueue, hsockets]
    cases close with
    | none => simpa using h.ordered
    | some conn => exact h.ordered.concat _ fun q hq => by cases hq

theorem ListenInv.tearDown (h : ListenInv w) (hok : TearOk inp w bi) : ListenInv (tearDown inp w bi) := by
  unfold Listen.tearDown
  simp only
  by_cases hskip : (!(w.bound.getD bi {}).used || w.desired (w.bound.getD bi {}).port) = true
  · rw [if_pos hskip]
    exact h
  rw [if_neg hskip]
  obtain ⟨hused, hgone⟩ : (w.bound.getD bi {}).used = true ∧
      w.desired (w.bound.getD bi {}).port = false := by
    simpa using hskip
  obtain ⟨b, hb⟩ : ∃ b, w.bound[bi]? = some b := by
    cases hget : w.bound[bi]? with
    | some b => exact ⟨b, rfl⟩
    | none =>
      rw [List.getD_eq_getElem?_getD, hget] at hused
      cases hused
  have hget : w.bound.getD bi {} = b := by rw [List.getD_eq_getElem?_getD, hb]; rfl
  unfold TearOk at hok
  simp only [hget] at hok hused hgone ⊢
  obtain ⟨hstate, htaken⟩ := hok hused hgone
  refine (congrArg ListenInv ?_).mp
    (h.drop hb hused hstate (if b.state = .bound then b.connId else none) fun hs => if_pos hs)
  by_cases hs : b.state = .bound
  · rw [if_pos hs, htaken hs, decide_eq_true hs]
    cases b.connId <;> rfl
  · rw [if_neg hs, decide_eq_false hs]
    cases b.connId <;> rfl

theorem tearOk_set (hok : ∀ bi, TearOk inp w bi) (i : Nat)
    (x : BoundListener) (queue : List ListenCmd) (hx : x.used = true → w.desired x.port = true) (bi : Nat) :
    TearOk inp { w with bound := w.bound.set i x, queue := queue } bi := by
  unfold TearOk
  have hdesired : ∀ port, DynListeners.desired
      { w.toDynListeners with bound := w.bound.set i x } port = w.desired port := fun _ => rfl
  simp only [hdesired, List.getD_eq_getElem?_getD, List.getElem?_set]
  split_ifs with hi hlt
  · intro hused hgone
    exact absurd ((hx hused).symm.trans hgone) Bool.noConfusion
  · exact nofun
  · have h := hok bi
    unfold TearOk at h
    simpa only [List.getD_eq_getElem?_getD] using h

theorem tearOk_bindRow {r : ListenerRow × Nat} (hr : r.1 ∈ w.live) (hok : ∀ bi, TearOk inp w bi) (bi : Nat) : TearOk inp (bindRow inp w r) bi := by
  unfold bindRow
  simp only
  by_cases hskip : (!r.1.used || r.1.port = 0 || r.1.tls || r.1.port = w.staticPort ||
      (w.boundSlotFor r.1.port).isSome) = true
  · rw [if_pos hskip]
    exact hok bi
  rw [if_neg hskip]
  -- What is asked for is desired.
  have hwant : w.desired r.1.port = true := by
    simp only [or_eq_true, not_or, not_eq_true, Bool.not_eq_eq_eq_not, Bool.not_true] at hskip
    refine List.any_eq_true.mpr ⟨r.1, hr, ?_⟩
    simp [ListenerRow.wants, hskip.1.1.1.1, hskip.1.1.2]
  cases w.bound.findIdx? fun b => !b.used with
  | none => exact hok bi
  | some i =>
    simp only
    split_ifs
    · exact tearOk_set hok i _ _ (fun _ => hwant) bi
    · exact tearOk_set hok i {} w.queue (fun hused => by cases hused) bi

theorem bindRow_live (inp : ListenInput) (w : ListenWorld) (r : ListenerRow × Nat) :
    (bindRow inp w r).live = w.live := by
  unfold bindRow
  simp only
  split_ifs
  · rfl
  · split <;> rfl
  · split <;> rfl

theorem tearOk_tearDown (hok : ∀ bi, TearOk inp w bi) (i bi : Nat) :
    TearOk inp (tearDown inp w i) bi := by
  unfold tearDown
  simp only
  by_cases hskip : (!(w.bound.getD i {}).used || w.desired (w.bound.getD i {}).port) = true
  · rw [if_pos hskip]
    exact hok bi
  · rw [if_neg hskip]
    exact tearOk_set hok i {} _ (fun hused => by cases hused) bi

theorem ListenInv.reconcile (h : ListenInv w) (hok : ∀ bi < w.bound.length, TearOk inp w bi) : ListenInv (reconcileListeners w inp) := by
  have hok : ∀ bi, TearOk inp w bi := by
    intro bi
    by_cases hlt : bi < w.bound.length
    · exact hok bi hlt
    · unfold TearOk
      simp only [List.getD_eq_getElem?_getD, List.getElem?_eq_none (Nat.le_of_not_lt hlt)]
      exact nofun
  have hbinds : ∀ rows : List (ListenerRow × Nat), (∀ r ∈ rows, r.1 ∈ w.live) → ∀ u : ListenWorld,
      u.live = w.live → ListenInv u → (∀ bi, TearOk inp u bi) →
      ListenInv (rows.foldl (Listen.bindRow inp) u) ∧
        ∀ bi, TearOk inp (rows.foldl (Listen.bindRow inp) u) bi := by
    intro rows
    induction rows with
    | nil => exact fun _ u _ hu hk => ⟨hu, hk⟩
    | cons r rows ih =>
      intro hrows u hlive hu hk
      refine ih (fun r' hr' => hrows r' (mem_cons_of_mem _ hr')) _ ?_ (hu.bindRow inp r) ?_
      · rw [bindRow_live, hlive]
      · exact tearOk_bindRow (by rw [hlive]; exact hrows r mem_cons_self) hk
  have htears : ∀ is : List Nat, ∀ u : ListenWorld, ListenInv u → (∀ bi, TearOk inp u bi) →
      ListenInv (is.foldl (Listen.tearDown inp) u) := by
    intro is
    induction is with
    | nil => exact fun u hu _ => hu
    | cons i is ih =>
      exact fun u hu hk => ih _ (hu.tearDown (hk i)) (tearOk_tearDown hk i)
  obtain ⟨hbound, hk⟩ := hbinds w.live.zipIdx (fun r hr => List.fst_mem_of_mem_zipIdx hr) w rfl h hok
  exact htears _ _ hbound hk

/-! ## The provider and its replies -/

theorem Owner.of_record {w w' : ListenWorld} {s : Listening} (h : Owner w s)
    (hrec : record w' s.port = record w s.port)
    (hreply : .bound s.conn s.port ∈ w.replies → .bound s.conn s.port ∈ w'.replies)
    (hclose : .close s.conn ∈ w.queue → .close s.conn ∈ w'.queue) : Owner w' s := by
  cases h with
  | tracked b hb hstate hconn => exact .tracked b (hrec.trans hb) hstate hconn
  | awaited hr hb => exact .awaited (hreply hr) (by rw [Binding, hrec]; exact hb)
  | closing hc => exact .closing (hclose hc)

theorem ListenInv.provide (h : ListenInv w) (conn : Option UInt16) :
    ListenInv (provideStep w conn) := by
  unfold provideStep
  cases hqueue : w.queue with
  | nil => exact h
  | cons cmd rest =>
    have hord := h.ordered
    rw [hqueue] at hord
    cases cmd with
    | close c =>
      have hkept : ∀ s ∈ w.sockets.filter (·.conn ≠ c), s ∈ w.sockets ∧ s.conn ≠ c := by
        intro s hs
        simpa using mem_filter.mp hs
      refine ⟨h.apart, fun port => ?_, fun s hs => ?_, ?_, ?_⟩
      · have hcount := h.answers port
        have hne : ListenCmd.close c ≠ .bind port := nofun
        rw [outstanding, hqueue, List.count_cons_of_ne hne] at hcount
        exact hcount
      · obtain ⟨hs, hne⟩ := hkept s hs
        refine (h.owner s hs).of_record rfl id fun hc => ?_
        rw [hqueue] at hc
        exact (mem_cons.mp hc).resolve_left fun heq => hne (ListenCmd.close.inj heq)
      · refine hord.tail fun s hs => ⟨(hkept s hs).1, fun heq => ?_⟩
        exact (hkept s hs).2 (ListenCmd.close.inj heq).symm
      · exact h.once.sublist (List.filter_sublist.map _)
    | bind port =>
      have htail : ∀ s ∈ w.sockets, s ∈ w.sockets ∧ ListenCmd.bind port ≠ .close s.conn :=
        fun s hs => ⟨hs, nofun⟩
      have hmem : ∀ s : Listening, .close s.conn ∈ w.queue → .close s.conn ∈ rest := by
        intro s hc
        rw [hqueue] at hc
        exact (mem_cons.mp hc).resolve_left nofun
      -- The answer takes the place of the command.
      have hcount : ∀ (reply : BindReply), reply.port = port → ∀ q,
          rest.count (.bind q) + (w.replies ++ [reply]).countP (·.port = q) = outstanding w q := by
        intro reply hreply q
        rw [outstanding, hqueue, countP_append, List.countP_singleton, hreply]
        by_cases hq : port = q
        · subst hq
          rw [List.count_cons_self, decide_eq_true rfl, if_pos rfl]
          omega
        · rw [List.count_cons_of_ne (fun heq => hq (ListenCmd.bind.inj heq)), decide_eq_false hq,
            if_neg false_ne_true]
          omega
      cases conn with
      | none =>
        refine ⟨h.apart, fun q => ?_, fun s hs => ?_, hord.tail htail, h.once⟩
        · exact (hcount (.refused port) rfl q).trans (h.answers q)
        · exact (h.owner s hs).of_record rfl (mem_append_left _) (hmem s)
      | some c =>
        simp only
        split_ifs with hused
        · exact h
        · -- The only unanswered bind of the port was this one.
          have hbinding : Binding w port := by
            have hone := h.answers port
            rw [outstanding, hqueue, List.count_cons_self] at hone
            by_contra hidle
            rw [if_neg hidle] at hone
            omega
          have hfree : ∀ s ∈ w.sockets, s.port ≠ port := by
            intro s hs hport
            cases hord [] port rest rfl s hs hport
          refine ⟨h.apart, fun q => ?_, fun s hs => ?_, ?_, ?_⟩
          · exact (hcount (.bound c port) rfl q).trans (h.answers q)
          · rcases mem_cons.mp hs with rfl | hs
            · exact .awaited (mem_append_right _ (mem_singleton_self _)) hbinding
            · exact (h.owner s hs).of_record rfl (mem_append_left _) (hmem s)
          · intro pre q post heq s hs hport
            rcases mem_cons.mp hs with rfl | hs
            · have hone := h.answers port
              rw [outstanding, hqueue, List.count_cons_self, if_pos hbinding] at hone
              have hnone : rest.count (.bind port) = 0 := by omega
              rw [show rest = _ from heq, ← show port = q from hport] at hnone
              simp at hnone
            · exact hord.tail htail pre q post heq s hs hport
          · refine List.nodup_cons.mpr ⟨fun hin => ?_, h.once⟩
            obtain ⟨s, hs, hport⟩ := mem_map.mp hin
            exact hfree s hs hport

theorem countP_eraseIdx {l : List BindReply} {i : Nat} {reply : BindReply} (h : l[i]? = some reply)
    (port : UInt16) :
    (l.eraseIdx i).countP (·.port = port) + (if reply.port = port then 1 else 0) =
      l.countP (·.port = port) := by
  induction l generalizing i with
  | nil => cases h
  | cons r l ih =>
    cases i with
    | zero =>
      cases h
      rw [List.eraseIdx_cons_zero, countP_cons]
      simp only [decide_eq_true_eq]
    | succ i =>
      rw [List.eraseIdx_cons_succ, countP_cons, countP_cons, ← ih h]
      omega

theorem ListenInv.answered (h : ListenInv w) {i : Nat} {reply : BindReply}
    (hreply : w.replies[i]? = some reply) (f : BoundListener → BoundListener)
    (hkey : ∀ b, (f b).key = b.key) (hstate : ∀ b, (f b).state ≠ .binding)
    (hconn : ∀ conn, reply = .bound conn reply.port →
      ∀ b, (f b).state = .bound ∧ (f b).connId = some conn) :
    ListenInv { w with
      toDynListeners := w.setState reply.port f, replies := w.replies.eraseIdx i } := by
  have hmem : reply ∈ w.replies := List.mem_of_getElem? hreply
  have hbinding : Binding w reply.port := by
    have hone := h.answers reply.port
    have hpos : 0 < w.replies.countP (·.port = reply.port) :=
      List.countP_pos_iff.mpr ⟨reply, hmem, decide_eq_true rfl⟩
    by_contra hidle
    rw [if_neg hidle, outstanding] at hone
    omega
  obtain ⟨b, hrec, hb⟩ := map_eq_some_iff.mp hbinding
  cases hslot : w.boundSlotFor reply.port with
  | none =>
    rw [boundSlotFor_none hslot] at hrec
    cases hrec
  | some bi =>
    obtain ⟨b', hget, hkey'⟩ := boundSlotFor_some hslot
    obtain rfl : b' = b := by
      have := (Keyed.lookup_eq_some h.apart).mpr ⟨bi, hget, hkey'⟩
      exact Option.some.inj (this.symm.trans hrec)
    have hset : w.setState reply.port f = { w.toDynListeners with bound := w.bound.set bi (f b') } := by
      rw [DynListeners.setState, hslot]
      simp only
      rw [@List.modify_eq_set _ ⟨{}⟩, hget]
      rfl
    rw [hset]
    obtain ⟨w', hw'⟩ : ∃ w' : ListenWorld, w' = { w with
      toDynListeners := { w.toDynListeners with bound := w.bound.set bi (f b') }
      replies := w.replies.eraseIdx i } := ⟨_, rfl⟩
    rw [← hw']
    have hokay : ∀ k, (f b').key = some k →
        Keyed.lookup BoundListener.key w.bound k = none ∨ b'.key = some k :=
      fun k hk => .inr ((hkey b').symm.trans hk)
    have hself : record w' reply.port = some (f b') := by
      rw [hw', record, Keyed.lookup_set h.apart hget hokay, if_pos ((hkey b').trans hkey')]
    have hother : ∀ q, q ≠ reply.port → record w' q = record w q := by
      intro q hq
      have hne : ¬ some reply.port = some q := fun heq => hq (Option.some.inj heq).symm
      rw [hw', record, Keyed.lookup_set h.apart hget hokay, if_neg (by rw [hkey, hkey']; exact hne),
        if_neg (by rw [hkey']; exact hne)]
      rfl
    have hqueue : w'.queue = w.queue := by rw [hw']
    have hsockets : w'.sockets = w.sockets := by rw [hw']
    have hreplies : w'.replies = w.replies.eraseIdx i := by rw [hw']
    have hcounts : ∀ q, outstanding w' q + (if reply.port = q then 1 else 0) = outstanding w q := by
      intro q
      rw [outstanding, outstanding, hqueue, hreplies, ← countP_eraseIdx hreply q]
      omega
    refine ⟨by rw [hw']; exact Keyed.apart_set h.apart hget hokay, fun q => ?_, fun s hs => ?_,
      by rw [hqueue, hsockets]; exact h.ordered, by rw [hsockets]; exact h.once⟩
    · have hcount := hcounts q
      rw [h.answers] at hcount
      by_cases hq : q = reply.port
      · subst hq
        have hdone : ¬ Binding w' reply.port := by
          rw [Binding, hself]
          exact fun hs => hstate b' (Option.some.inj hs)
        rw [if_pos rfl, if_pos hbinding] at hcount
        rw [if_neg hdone]
        omega
      · have hsame : Binding w' q ↔ Binding w q := by rw [Binding, Binding, hother q hq]
        rw [if_neg (Ne.symm hq)] at hcount
        simp only [hsame]
        exact hcount
    · rw [hsockets] at hs
      by_cases hq : s.port = reply.port
      · cases h.owner s hs with
        | tracked c hc hcs _ =>
          rw [hq, hrec] at hc
          cases hc
          rw [hb] at hcs
          cases hcs
        | awaited hr _ =>
          -- The port has one unanswered bind, and this is its reply.
          obtain ⟨j, hj⟩ := List.mem_iff_getElem?.mp hr
          obtain rfl : j = i := by
            by_contra hji
            have hleft : BindReply.bound s.conn s.port ∈ w'.replies :=
              hreplies ▸ List.mem_eraseIdx_iff_getElem?.mpr ⟨j, hji, hj⟩
            have hpos : 0 < w'.replies.countP (·.port = reply.port) :=
              List.countP_pos_iff.mpr ⟨_, hleft, decide_eq_true hq⟩
            have hcount := hcounts reply.port
            rw [h.answers, if_pos hbinding, if_pos rfl, outstanding] at hcount
            omega
          have hreply' : reply = .bound s.conn s.port := Option.some.inj (hreply.symm.trans hj)
          obtain ⟨hbound, hid⟩ := hconn s.conn (by rw [hreply']; rfl) b'
          exact .tracked _ (by rw [hq]; exact hself) hbound hid
        | closing hc => exact .closing (hqueue ▸ hc)
      · refine (h.owner s hs).of_record (hother _ hq) (fun hr => ?_) fun hc => hqueue ▸ hc
        obtain ⟨j, hj⟩ := List.mem_iff_getElem?.mp hr
        rw [hreplies]
        refine List.mem_eraseIdx_iff_getElem?.mpr ⟨j, ?_, hj⟩
        rintro rfl
        have hreply' : reply = .bound s.conn s.port := Option.some.inj (hreply.symm.trans hj)
        exact hq (by rw [hreply']; rfl)

theorem ListenInv.deliver (h : ListenInv w) (i : Nat) : ListenInv (deliverStep w i) := by
  unfold deliverStep
  cases hreply : w.replies[i]? with
  | none => exact h
  | some reply =>
    cases reply with
    | bound conn port =>
      refine h.answered hreply _ (fun _ => rfl) (fun _ => nofun) ?_
      rintro c ⟨⟩ b
      exact ⟨rfl, rfl⟩
    | refused port => exact h.answered hreply _ (fun _ => rfl) (fun _ => nofun) nofun

theorem apply_bound (t : DynListeners) (op : TableOp) : (t.apply op).bound = t.bound := by
  have harena : ∀ (shadow : Bool) (rows : List ListenerRow), (t.setArena shadow rows).bound = t.bound := by
    intro shadow rows
    cases shadow <;> rfl
  cases op with
  | upsert key value shadow =>
    rw [DynListeners.apply]
    split
    · rfl
    · exact harena _ _
  | remove key shadow => exact harena _ _
  | clearShadow => rfl
  | swapShadow => rfl

theorem ListenInv.step (h : ListenInv w) {e : ListenEvent} (hok : ListenOk w e) :
    ListenInv (listenStep w e) := by
  cases e with
  | table op =>
    have hbound := apply_bound w.toDynListeners op
    refine h.same ?_ (fun port => ?_) rfl rfl rfl
    · exact hbound ▸ h.apart
    · exact congrArg (Keyed.lookup BoundListener.key · port) hbound
  | reconcile inp => exact h.reconcile hok
  | provide conn => exact h.provide conn
  | deliver i => exact h.deliver i

/-- In every run, each socket of the provider has an owner and no port is bound twice. -/
theorem sockets_owned (staticPort : UInt16) (events : List ListenEvent)
    (hok : listenMachine.Along ListenOk { staticPort := staticPort } events) :
    SocketsOwned (listenMachine.run { staticPort := staticPort } events).1 := by
  refine ListenInv.socketsOwned (listenMachine.run_invariant (I := ListenInv) ?_ ?_ hok)
  · intro w e h hw
    exact h.step hw
  · have hfree : ∀ port, record { staticPort := staticPort } port = none := by
      intro port
      refine Keyed.lookup_eq_none.mpr fun b hb hkey => ?_
      rw [eq_of_mem_replicate hb] at hkey
      cases hkey
    refine ⟨?_, fun port => ?_, nofun, ?_, List.nodup_nil⟩
    · intro i j a b k ha _ hka _
      rw [eq_of_mem_replicate (List.mem_of_getElem? ha)] at hka
      cases hka
    · rw [if_neg (by rw [Binding, hfree]; exact nofun)]
      rfl
    · intro pre port post heq
      exact absurd heq (by simp)

def edgePort : TableOp := .upsert (ascii "/dataplane/edge-listeners/8080") (ascii "proto=tcp;tls=0") false

def withdrawPort : TableOp := .remove (ascii "/dataplane/edge-listeners/8080") false

def servedPort : List ListenEvent :=
  [.table edgePort, .reconcile {}, .provide (some 5), .deliver 0, .table withdrawPort, .reconcile {},
    .table edgePort, .reconcile {}, .provide none, .provide (some 5)]

theorem sockets_owned_servedPort :
    (listenMachine.run {} servedPort).1.sockets = [{ conn := 5, port := 8080 }] ∧
      SocketsOwned (listenMachine.run {} servedPort).1 :=
  ⟨by decide +kernel, sockets_owned 80 servedPort (by decide +kernel)⟩

def withdrawnEarly : List ListenEvent :=
  [.table edgePort, .reconcile {}, .table withdrawPort, .reconcile {}, .provide (some 5), .deliver 0]

/-- The socket stays open, with nothing in the server that knows of it. -/
theorem socket_unowned_withdrawnEarly :
    ¬ ∀ (staticPort : UInt16) (events : List ListenEvent),
      SocketsOwned (listenMachine.run { staticPort := staticPort } events).1 := by
  intro hall
  have hrun : (listenMachine.run {} withdrawnEarly).1.sockets = [{ conn := 5, port := 8080 }] ∧
      (listenMachine.run {} withdrawnEarly).1.bound = List.replicate MAX_DYN_LISTENERS {} ∧
      (listenMachine.run {} withdrawnEarly).1.queue = [] := by
    decide +kernel
  have hown := (hall 80 withdrawnEarly).owned { conn := 5, port := 8080 }
    (by rw [hrun.1]; exact mem_singleton_self _)
  rcases hown with ⟨b, hb, hused, -⟩ | ⟨-, b, hb, hused, -⟩ | hclose
  · rw [hrun.2.1] at hb
    rw [eq_of_mem_replicate hb] at hused
    cases hused
  · rw [hrun.2.1] at hb
    rw [eq_of_mem_replicate hb] at hused
    cases hused
  · rw [Closing, hrun.2.2] at hclose
    cases hclose

end Wave.Http.Listen
