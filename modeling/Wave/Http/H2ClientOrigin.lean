import Wave.Http.H2ClientLink
import Wave.Http.H2ClientTable

/-! # The HTTP/2 client's table of streams against what its origin sees

`TableOk`: the slots hold the streams the origin sees as open, each once. -/

namespace Wave.Http.H2Client

open Lib Lib.Bytes Http.H2Wire

variable {code : ErrCode} {rst : Option ErrCode} {hdr : Header}

def headersOf (log : List Note) : List Nat :=
  log.filterMap fun n => match n with | .headers sid _ => some sid | _ => none

/-- Both ENDs were exchanged, or a RST_STREAM was queued or has come. -/
def Closed (log : List Note) (sid : Nat) : Prop :=
  .rstQueued sid ∈ log ∨ .rstReceived sid ∈ log ∨ .localEnd sid ∈ log ∧ .remoteEnd sid ∈ log

instance (log : List Note) (sid : Nat) : Decidable (Closed log sid) := inferInstanceAs (Decidable (_ ∨ _ ∨ _ ∧ _))

def originOpen (log : List Note) : List Nat := (headersOf log).filter fun sid => !decide (Closed log sid)

/-- `p` held of the notes before, and of the limit, whenever HEADERS were queued. -/
def AtHeaders (p : List Note → Nat → Prop) (log : List Note) : Prop :=
  ∀ before sid max after, log = before ++ Note.headers sid max :: after → p before max

/-- The stream of a slot that is open for the origin: the client's own, or one that still owes its RST_STREAM. -/
def sees (log : List Note) (t : Stream) : Option Nat :=
  if t.state = .opened then some t.sid
  else
    match t.rst with
    | some (sid, _) => if Closed log sid then none else some sid
    | none => none

def Note.sid : Note → Option Nat
  | .headers sid _ | .localEnd sid | .remoteEnd sid | .rstQueued sid | .rstReceived sid => some sid
  | _ => none

section Log

variable {log ns : List Note} {sid : Nat} {n : Note}

theorem headersOf_append (log ns : List Note) : headersOf (log ++ ns) = headersOf log ++ headersOf ns :=
  filterMap_append

theorem headersOf_quiet (hns : headersOf ns = []) (log : List Note) : headersOf (log ++ ns) = headersOf log := by
  rw [headersOf_append, hns, append_nil]

theorem mem_headersOf {max : Nat} (h : .headers sid max ∈ log) : sid ∈ headersOf log :=
  mem_filterMap.mpr ⟨_, h, rfl⟩

theorem AtHeaders.append {p : List Note → Nat → Prop} (h : AtHeaders p log) (hns : headersOf ns = []) :
    AtHeaders p (log ++ ns) := by
  intro before sid max after heq
  have hnot : ∀ as, ns ≠ as ++ Note.headers sid max :: after := fun as has => by
    have hmem : sid ∈ headersOf ns := mem_headersOf (by rw [has]; exact mem_append_right _ mem_cons_self)
    rw [hns] at hmem
    cases hmem
  rcases append_eq_append_iff.mp heq with ⟨as, -, has⟩ | ⟨bs, hbs, hrest⟩
  · exact absurd has (hnot as)
  · cases bs with
    | nil => exact absurd hrest.symm (hnot [])
    | cons b bs =>
      rw [cons_append, List.cons.injEq] at hrest
      rw [← hrest.1] at hbs
      exact h before sid max bs hbs

theorem AtHeaders.headers {p : List Note → Nat → Prop} {max : Nat} (hns : headersOf ns = []) :
    AtHeaders p (log ++ Note.headers sid max :: ns) ↔ AtHeaders p log ∧ p log max := by
  constructor
  · refine fun h => ⟨fun before s m after heq => ?_, h log sid max ns rfl⟩
    refine h before s m (after ++ Note.headers sid max :: ns) ?_
    rw [heq, append_assoc, cons_append]
  · rintro ⟨h, hp⟩
    have hone : AtHeaders p (log ++ [Note.headers sid max]) := by
      intro before s m after heq
      rcases append_eq_append_iff.mp heq with ⟨as, has, hrest⟩ | ⟨bs, hbs, hrest⟩
      · cases as with
        | nil =>
          rw [append_nil] at has
          cases hrest
          rw [has]
          exact hp
        | cons a as => simp at hrest
      · cases bs with
        | nil =>
          rw [append_nil] at hbs
          cases hrest
          rw [← hbs]
          exact hp
        | cons b bs =>
          rw [cons_append, List.cons.injEq] at hrest
          rw [← hrest.1] at hbs
          exact h before s m bs hbs
    have hall := hone.append hns
    rw [append_assoc] at hall
    exact hall

theorem Closed.append (h : Closed log sid) (ns : List Note) : Closed (log ++ ns) sid := by
  rcases h with h | h | ⟨h, h'⟩
  · exact .inl (mem_append_left _ h)
  · exact .inr (.inl (mem_append_left _ h))
  · exact .inr (.inr ⟨mem_append_left _ h, mem_append_left _ h'⟩)

theorem mem_append_other (h : ∀ m ∈ ns, m.sid ≠ some sid) (hn : n.sid = some sid) : n ∈ log ++ ns ↔ n ∈ log := by
  rw [mem_append, or_iff_left fun hin => h n hin hn]

end Log

/-! ### The table -/

/-- A slot's stream is open for the client: nothing that closes it has come or was queued. -/
structure Live (log : List Note) (t : Stream) : Prop where
  headers : t.sid ∈ headersOf log
  rst : t.rst = none
  remoteEnd : .remoteEnd t.sid ∉ log
  rstQueued : .rstQueued t.sid ∉ log
  rstReceived : .rstReceived t.sid ∉ log
  localEnd : t.localEnd = true ↔ .localEnd t.sid ∈ log

structure SlotOk (log : List Note) (t : Stream) : Prop where
  live : t.state = .opened → Live log t
  owing : ∀ sid code, t.rst = some (sid, code) → t.state = .done ∧ sid ∈ headersOf log

/-- The slots hold the streams that are open for the origin, each once. -/
structure TableOk (c : Client) (log : List Note) : Prop where
  next : c.nextSid % 2 = 1
  ids : ∀ sid ∈ headersOf log, sid % 2 = 1 ∧ sid < c.nextSid
  noted : ∀ n ∈ log, ∀ sid, n.sid = some sid → sid < c.nextSid
  slots : ∀ i, SlotOk log (c.slot i)
  seen : ∀ sid ∈ headersOf log, ¬ Closed log sid → ∃ i, sees log (c.slot i) = some sid
  apart : ∀ i j sid, sees log (c.slot i) = some sid → sees log (c.slot j) = some sid → i = j

def Alike (t t' : Stream) : Prop :=
  t'.state = t.state ∧ t'.sid = t.sid ∧ t'.rst = t.rst ∧ t'.localEnd = t.localEnd ∨
    t.state ≠ .opened ∧ t.rst = none ∧ t'.state ≠ .opened ∧ t'.rst = none

/-- What a slot may become when it is not given a stream: it sees its stream until that closes. -/
structure Follows (log log' : List Note) (t t' : Stream) : Prop where
  ok : SlotOk log' t'
  sees : ∀ sid, sees log' t' = some sid ↔ sees log t = some sid ∧ ¬ Closed log' sid

section Slot

variable {log ns : List Note} {t t' : Stream} {sid : Nat}

theorem Live.open (h : Live log t) : ¬ Closed log t.sid := by
  rintro (hc | hc | ⟨-, hc⟩)
  · exact h.rstQueued hc
  · exact h.rstReceived hc
  · exact h.remoteEnd hc

theorem Live.append (h : Live log t) (hns : ∀ n ∈ ns, n.sid ≠ some t.sid) : Live (log ++ ns) t where
  headers := by
    rw [headersOf_append]
    exact mem_append_left _ h.headers
  rst := h.rst
  remoteEnd := by
    rw [mem_append_other hns rfl]
    exact h.remoteEnd
  rstQueued := by
    rw [mem_append_other hns rfl]
    exact h.rstQueued
  rstReceived := by
    rw [mem_append_other hns rfl]
    exact h.rstReceived
  localEnd := by
    rw [mem_append_other hns rfl]
    exact h.localEnd

theorem Alike.refl (t : Stream) : Alike t t := .inl ⟨rfl, rfl, rfl, rfl⟩

theorem SlotOk.alike (h : SlotOk log t) (halike : Alike t t') : SlotOk log t' := by
  rcases halike with ⟨hstate, hsid, hrst, hend⟩ | ⟨-, -, hstate, hrst⟩
  · refine ⟨fun hopen => ?_, fun sid code howing => ?_⟩
    · have hlive := h.live (hstate.symm.trans hopen)
      constructor
      · rw [hsid]; exact hlive.headers
      · rw [hrst]; exact hlive.rst
      · rw [hsid]; exact hlive.remoteEnd
      · rw [hsid]; exact hlive.rstQueued
      · rw [hsid]; exact hlive.rstReceived
      · rw [hsid, hend]; exact hlive.localEnd
    · rw [hstate]
      exact h.owing sid code (hrst.symm.trans howing)
  · refine ⟨fun hopen => absurd hopen hstate, fun sid code howing => ?_⟩
    rw [hrst] at howing
    cases howing

theorem Alike.sees (h : Alike t t') (log : List Note) : H2Client.sees log t' = H2Client.sees log t := by
  unfold H2Client.sees
  rcases h with ⟨hstate, hsid, hrst, -⟩ | ⟨hstate, hrst, hstate', hrst'⟩
  · rw [hstate, hsid, hrst]
  · rw [if_neg hstate, if_neg hstate', hrst, hrst']

theorem sees_opened (h : t.state = .opened) (log : List Note) : sees log t = some t.sid := if_pos h

theorem sees_owing (h : t.state ≠ .opened) (hrst : t.rst = some (sid, code)) (log : List Note) :
    sees log t = if Closed log sid then none else some sid := by
  rw [sees, if_neg h, hrst]

theorem sees_none (h : t.state ≠ .opened) (hrst : t.rst = none) (log : List Note) : sees log t = none := by
  rw [sees, if_neg h, hrst]

theorem Follows.untouched (h : SlotOk log t) (halike : Alike t t')
    (hns : t.state = .opened → ∀ n ∈ ns, n.sid ≠ some t.sid) : Follows log (log ++ ns) t t' := by
  have hok : SlotOk (log ++ ns) t := by
    refine ⟨fun hopen => (h.live hopen).append (hns hopen), fun sid code hrst => ?_⟩
    rw [headersOf_append]
    exact ⟨(h.owing sid code hrst).1, mem_append_left _ (h.owing sid code hrst).2⟩
  refine ⟨hok.alike halike, fun sid => ?_⟩
  rw [halike.sees]
  by_cases hopen : t.state = .opened
  · rw [sees_opened hopen, sees_opened hopen, Option.some.injEq, iff_self_and]
    rintro rfl
    exact (hok.live hopen).open
  · cases hrst : t.rst with
    | none => simp [sees_none hopen hrst]
    | some owed =>
      obtain ⟨s, code⟩ := owed
      rw [sees_owing hopen hrst, sees_owing hopen hrst]
      have hmono : Closed log s → Closed (log ++ ns) s := fun hclosed => hclosed.append ns
      split <;> split <;> grind

theorem Follows.leave (h : SlotOk log t) (hopen : t.state = .opened) (hdone : t'.state = .done)
    (hrst : t'.rst = rst.map fun code => (t.sid, code)) (hclosed : rst = none → Closed (log ++ ns) t.sid) :
    Follows log (log ++ ns) t t' := by
  have hleft : t'.state ≠ .opened := by
    rw [hdone]
    nofun
  cases rst with
  | none =>
    refine ⟨⟨fun hopen' => absurd hopen' hleft, fun sid code howing => ?_⟩, fun sid => ?_⟩
    · rw [hrst] at howing
      cases howing
    · rw [sees_none hleft hrst, sees_opened hopen, Option.some.injEq]
      refine iff_of_false nofun ?_
      rintro ⟨rfl, hnot⟩
      exact hnot (hclosed rfl)
  | some code =>
    refine ⟨⟨fun hopen' => absurd hopen' hleft, fun sid code' howing => ⟨hdone, ?_⟩⟩, fun sid => ?_⟩
    · rw [hrst] at howing
      cases howing
      rw [headersOf_append]
      exact mem_append_left _ (h.live hopen).headers
    · rw [sees_owing hleft hrst, sees_opened hopen, Option.some.injEq]
      split <;> grind

theorem Follows.queueRst (h : SlotOk log t) (howing : t.rst = some (sid, code)) :
    Follows log (log ++ [Note.rstQueued sid]) t { t with rst := none } := by
  have hdone : t.state ≠ .opened := by
    rw [(h.owing sid code howing).1]
    nofun
  have hclosed : Closed (log ++ [Note.rstQueued sid]) sid := .inl (mem_append_right _ mem_cons_self)
  refine ⟨⟨fun hopen => absurd hopen hdone, nofun⟩, fun s => ?_⟩
  rw [sees_none (t := { t with rst := none }) hdone rfl, sees_owing hdone howing]
  split <;> grind

theorem Follows.localEnd (h : SlotOk log t) (hopen : t.state = .opened) (hstate : t'.state = t.state)
    (hsid : t'.sid = t.sid) (hrst : t'.rst = t.rst) (hend : t'.localEnd = true) :
    Follows log (log ++ [Note.localEnd t.sid]) t t' := by
  have hlive := h.live hopen
  have hnot {n : Note} (hn : n ∉ log) (hne : n ≠ .localEnd t.sid) : n ∉ log ++ [Note.localEnd t.sid] := by
    rw [mem_append, mem_singleton]
    exact not_or.mpr ⟨hn, hne⟩
  have hlive' : Live (log ++ [Note.localEnd t.sid]) t' := by
    refine ⟨?_, hrst.trans hlive.rst, ?_, ?_, ?_, ?_⟩ <;> rw [hsid]
    · rw [headersOf_append]
      exact mem_append_left _ hlive.headers
    · exact hnot hlive.remoteEnd nofun
    · exact hnot hlive.rstQueued nofun
    · exact hnot hlive.rstReceived nofun
    · exact iff_of_true hend (mem_append_right _ mem_cons_self)
  refine ⟨⟨fun _ => hlive', fun s code howing => ?_⟩, fun s => ?_⟩
  · rw [hrst, hlive.rst] at howing
    cases howing
  · rw [sees_opened (hstate.trans hopen), sees_opened hopen, hsid, Option.some.injEq, iff_self_and]
    rintro rfl
    exact hsid ▸ hlive'.open

end Slot

section Table

variable {c c' : Client} {log ns : List Note} {i : Nat}

theorem TableOk.follow (h : TableOk c log) (hns : headersOf ns = []) (hnext : c'.nextSid = c.nextSid)
    (hnoted : ∀ n ∈ ns, ∀ sid, n.sid = some sid → sid < c.nextSid)
    (hslots : ∀ i, Follows log (log ++ ns) (c.slot i) (c'.slot i)) : TableOk c' (log ++ ns) where
  next := by
    rw [hnext]
    exact h.next
  ids := by
    rw [hnext, headersOf_quiet hns]
    exact h.ids
  noted n hn := by
    rw [hnext]
    exact (mem_append.mp hn).elim (h.noted n) (hnoted n)
  slots i := (hslots i).ok
  seen sid hsid hopen := by
    rw [headersOf_quiet hns] at hsid
    obtain ⟨i, hi⟩ := h.seen sid hsid fun hclosed => hopen (hclosed.append ns)
    exact ⟨i, ((hslots i).sees sid).mpr ⟨hi, hopen⟩⟩
  apart i j sid hi hj := h.apart i j sid (((hslots i).sees sid).mp hi).1 (((hslots j).sees sid).mp hj).1

structure Stays (c c' : Client) : Prop where
  slots : ∀ i, Alike (c.slot i) (c'.slot i)
  nextSid : c'.nextSid = c.nextSid

structure Leaves (c c' : Client) (i : Nat) (rst : Option ErrCode) : Prop where
  opened : (c.slot i).state = .opened
  done : (c'.slot i).state = .done
  rst : (c'.slot i).rst = rst.map fun code => ((c.slot i).sid, code)
  others : ∀ j, j ≠ i → c'.slot j = c.slot j
  nextSid : c'.nextSid = c.nextSid

theorem Stays.of_streams (hstreams : c'.streams = c.streams) (hnext : c'.nextSid = c.nextSid) : Stays c c' :=
  ⟨fun i => by rw [Client.slot, Client.slot, hstreams]; exact Alike.refl _, hnext⟩

theorem Stays.setSlot {t : Stream} (h : Alike (c.slot i) t) : Stays c (c.setSlot i t) := by
  refine ⟨fun j => ?_, rfl⟩
  by_cases hij : j = i
  · subst hij
    by_cases hlt : j < c.streams.length
    · rw [slot_setSlot_self hlt]
      exact h
    · have hout : (c.setSlot j t).slot j = c.slot j := by
        unfold Client.setSlot
        rw [set_eq_of_length_le (by omega)]
      rw [hout]
      exact Alike.refl _
  · rw [slot_setSlot_ne hij]
    exact Alike.refl _

theorem Stays.of_set {t : Stream} (h : Alike (c.slot i) t) (hstreams : c'.streams = c.streams.set i t)
    (hnext : c'.nextSid = c.nextSid) : Stays c c' := by
  have hset := Stays.setSlot h
  refine ⟨fun j => ?_, hnext⟩
  rw [show c'.slot j = (c.setSlot i t).slot j by rw [Client.slot, Client.slot, hstreams]; rfl]
  exact hset.slots j

theorem Leaves.trans {c'' : Client} (h : Leaves c c' i rst) (hstreams : c''.streams = c'.streams)
    (hnext : c''.nextSid = c'.nextSid) : Leaves c c'' i rst := by
  have hslot : ∀ j, c''.slot j = c'.slot j := fun j => by rw [Client.slot, Client.slot, hstreams]
  refine ⟨h.opened, ?_, ?_, fun j hj => ?_, hnext.trans h.nextSid⟩
  · rw [hslot]
    exact h.done
  · rw [hslot]
    exact h.rst
  · rw [hslot]
    exact h.others j hj

section

variable (h : TableOk c log)

include h

theorem TableOk.sid_ne (hopen : (c.slot i).state = .opened) : (c.slot i).sid ≠ 0 := by
  have hodd := (h.ids _ ((h.slots i).live hopen).headers).1
  omega

theorem TableOk.sid_inj {j : Nat} (hi : (c.slot i).state = .opened) (hj : (c.slot j).state = .opened)
    (hsid : (c.slot j).sid = (c.slot i).sid) : j = i :=
  h.apart j i (c.slot i).sid (by rw [sees_opened hj, hsid]) (sees_opened hi log)

theorem TableOk.owing_apart {j sid : Nat} (hrst : (c.slot i).rst = some (sid, code))
    (hopen : (c.slot j).state = .opened) : (c.slot j).sid ≠ sid := by
  rintro rfl
  have hdone := ((h.slots i).owing _ code hrst).1
  have hsees : sees log (c.slot i) = some (c.slot j).sid := by
    rw [sees_owing (by rw [hdone]; nofun) hrst, if_neg ((h.slots j).live hopen).open]
  rw [h.apart i j _ hsees (sees_opened hopen log), hopen] at hdone
  cases hdone

theorem TableOk.takeOff (hopen : (c.slot i).state = .opened) (owe : Owed) (rst : Option ErrCode) :
    Leaves c (c.takeOff i owe rst) i rst := by
  have hslot : (c.takeOff i owe rst).slot i =
      { (if (c.slot i).sid ≠ 0 then
          { c.slot i with rst := rst.elim (c.slot i).rst fun e => some ((c.slot i).sid, e) } else c.slot i) with
        sid := 0, state := .done, owed := owe } := slot_setSlot_self (lt_of_opened hopen) _
  rw [if_pos (h.sid_ne hopen), ((h.slots i).live hopen).rst] at hslot
  refine ⟨hopen, by rw [hslot], ?_, fun j hj => takeOff_slot_ne hj owe rst, rfl⟩
  rw [hslot]
  cases rst <;> rfl

theorem TableOk.stay (hstays : Stays c c') (hns : headersOf ns = [])
    (hnoted : ∀ n ∈ ns, ∀ sid, n.sid = some sid → sid < c.nextSid)
    (hother : ∀ i, (c.slot i).state = .opened → ∀ n ∈ ns, n.sid ≠ some (c.slot i).sid) : TableOk c' (log ++ ns) :=
  h.follow hns hstays.nextSid hnoted fun i => Follows.untouched (h.slots i) (hstays.slots i) (hother i)

theorem TableOk.unrelated (hstays : Stays c c') (hns : headersOf ns = [])
    (hnone : ∀ n ∈ ns, n.sid = none) : TableOk c' (log ++ ns) := by
  refine h.stay hstays hns (fun n hn sid hsid => ?_) fun i _ n hn hsid => ?_ <;>
  · rw [hnone n hn] at hsid
    cases hsid

theorem TableOk.same (hstays : Stays c c') : TableOk c' log := by
  rw [← append_nil log]
  exact h.unrelated hstays rfl nofun

theorem TableOk.one (hns : headersOf ns = []) (hnext : c'.nextSid = c.nextSid)
    (hnoted : ∀ n ∈ ns, ∃ sid ∈ headersOf log, n.sid = some sid)
    (hslot : Follows log (log ++ ns) (c.slot i) (c'.slot i)) (hothers : ∀ j, j ≠ i → c'.slot j = c.slot j)
    (hother : ∀ j, j ≠ i → (c.slot j).state = .opened → ∀ n ∈ ns, n.sid ≠ some (c.slot j).sid) :
    TableOk c' (log ++ ns) := by
  refine h.follow hns hnext (fun n hn sid hsid => ?_) fun j => ?_
  · obtain ⟨s, hs, hn⟩ := hnoted n hn
    rw [hn, Option.some.injEq] at hsid
    exact hsid ▸ (h.ids s hs).2
  by_cases hij : j = i
  · rw [hij]
    exact hslot
  · rw [hothers j hij]
    exact Follows.untouched (h.slots j) (Alike.refl _) (hother j hij)

theorem TableOk.leave (hleaves : Leaves c c' i rst) (hns : headersOf ns = [])
    (habout : ∀ n ∈ ns, n.sid = some (c.slot i).sid) (hclosed : rst = none → Closed (log ++ ns) (c.slot i).sid) :
    TableOk c' (log ++ ns) := by
  refine h.one hns hleaves.nextSid
    (fun n hn => ⟨_, ((h.slots i).live hleaves.opened).headers, habout n hn⟩)
    (Follows.leave (h.slots i) hleaves.opened hleaves.done hleaves.rst hclosed) hleaves.others ?_
  intro j hij hopen n hn hsid
  rw [habout n hn, Option.some.injEq] at hsid
  exact hij (h.sid_inj hleaves.opened hopen hsid.symm)

theorem TableOk.letGo (hleaves : Leaves c c' i (some code)) : TableOk c' log := by
  rw [← append_nil log]
  exact h.leave hleaves rfl nofun nofun

theorem TableOk.queueRst {sid : Nat} (hrst : (c.slot i).rst = some (sid, code)) :
    TableOk (c.queueRst i) (log ++ [Note.rstQueued sid]) := by
  have hqueued : c.queueRst i = { c.setSlot i { c.slot i with rst := none } with tx := c.tx ++ [Tx.rst sid code] } := by
    unfold Client.queueRst
    rw [hrst]
  have hlt : i < c.streams.length := by
    by_contra hge
    unfold Client.slot at hrst
    rw [List.getD_eq_default _ _ (by omega)] at hrst
    cases hrst
  have hslot : (c.queueRst i).slot i = { c.slot i with rst := none } := by
    rw [hqueued]
    exact slot_setSlot_self hlt _
  have hothers : ∀ j, j ≠ i → (c.queueRst i).slot j = c.slot j := fun j hij => by
    rw [hqueued]
    exact slot_setSlot_ne hij _
  refine h.one rfl (by rw [hqueued]; rfl) (fun n hn => ⟨sid, ((h.slots i).owing sid code hrst).2, ?_⟩) ?_ hothers
    fun j hij hopen n hn hsid => ?_
  · rw [mem_singleton.mp hn]
    rfl
  · rw [hslot]
    exact Follows.queueRst (h.slots i) hrst
  · rw [mem_singleton.mp hn] at hsid
    exact h.owing_apart hrst hopen (Option.some.inj hsid).symm

theorem TableOk.localEnd (hopen : (c.slot i).state = .opened) (hnext : c'.nextSid = c.nextSid)
    {t : Stream} (hslot : c'.slot i = t) (hothers : ∀ j, j ≠ i → c'.slot j = c.slot j)
    (ht : t.state = .opened ∧ t.sid = (c.slot i).sid ∧ t.rst = (c.slot i).rst ∧ t.localEnd = true) :
    TableOk c' (log ++ [Note.localEnd (c.slot i).sid]) := by
  subst hslot
  refine h.one rfl hnext (fun n hn => ⟨_, ((h.slots i).live hopen).headers, ?_⟩) ?_ hothers
    fun j hij hopen' n hn hsid => ?_
  · rw [mem_singleton.mp hn]
    rfl
  · exact Follows.localEnd (h.slots i) hopen (ht.1.trans hopen.symm) ht.2.1 ht.2.2.1 ht.2.2.2
  · rw [mem_singleton.mp hn] at hsid
    exact hij (h.sid_inj hopen hopen' (Option.some.inj hsid).symm)

end

theorem SlotOk.sees_mem {t : Stream} {sid : Nat} (h : SlotOk log t) (hsees : sees log t = some sid) :
    sid ∈ headersOf log := by
  unfold sees at hsees
  split at hsees
  next hopen =>
    cases hsees
    exact (h.live hopen).headers
  · split at hsees
    next s code hrst =>
      split at hsees
      · cases hsees
      · cases hsees
        exact (h.owing sid code hrst).2
    · cases hsees

theorem SlotOk.sees_open {t : Stream} {sid : Nat} (h : SlotOk log t) (hsees : sees log t = some sid) :
    ¬ Closed log sid := by
  unfold sees at hsees
  split at hsees
  next hopen =>
    cases hsees
    exact (h.live hopen).open
  · split at hsees
    next s code hrst =>
      split at hsees
      · cases hsees
      next hnot =>
        cases hsees
        exact hnot
    · cases hsees

theorem TableOk.open (h : TableOk c log) (hfree : (c.slot i).state = .free) {t : Stream} (hslot : c'.slot i = t)
    (hothers : ∀ j, j ≠ i → c'.slot j = c.slot j) (hnext : c'.nextSid = c.nextSid + 2)
    (ht : t.state = .opened ∧ t.sid = c.nextSid ∧ t.rst = none) {max : Nat}
    (hns : ns = if t.localEnd then [.localEnd c.nextSid] else []) :
    TableOk c' (log ++ Note.headers c.nextSid max :: ns) := by
  have hquiet : headersOf ns = [] := by
    rw [hns]
    split <;> rfl
  have hheaders : headersOf (log ++ Note.headers c.nextSid max :: ns) = headersOf log ++ [c.nextSid] := by
    rw [headersOf_append]
    exact congrArg (headersOf log ++ c.nextSid :: ·) hquiet
  have hsid : ∀ n ∈ .headers c.nextSid max :: ns, n.sid = some c.nextSid := fun n hn => by
    rcases mem_cons.mp hn with rfl | hn
    · rfl
    · rw [hns] at hn
      split at hn
      · rw [mem_singleton.mp hn]
        rfl
      · cases hn
  have hfresh : ∀ n : Note, n.sid = some c.nextSid → n ∉ log := fun n hn hin =>
    absurd (h.noted n hin _ hn) (Nat.lt_irrefl _)
  have hblind : sees log (c.slot i) = none := by
    refine sees_none (by rw [hfree]; nofun) (Option.eq_none_iff_forall_ne_some.mpr fun owed howed => ?_) log
    have hdone := ((h.slots i).owing owed.1 owed.2 howed).1
    rw [hfree] at hdone
    cases hdone
  have hnew : ∀ n : Note, n.sid = some c.nextSid → n ≠ .headers c.nextSid max → n ≠ .localEnd c.nextSid →
      n ∉ log ++ Note.headers c.nextSid max :: ns := fun n hn hne hne' hin => by
    rcases mem_append.mp hin with hin | hin
    · exact hfresh n hn hin
    rcases mem_cons.mp hin with rfl | hin
    · exact hne rfl
    · rw [hns] at hin
      split at hin
      · exact hne' (mem_singleton.mp hin)
      · cases hin
  have hlive : Live (log ++ Note.headers c.nextSid max :: ns) (c'.slot i) := by
    rw [hslot]
    refine ⟨?_, ht.2.2, ?_, ?_, ?_, ?_⟩ <;> rw [ht.2.1]
    · rw [hheaders]
      exact mem_append_right _ mem_cons_self
    · exact hnew _ rfl nofun nofun
    · exact hnew _ rfl nofun nofun
    · exact hnew _ rfl nofun nofun
    · rw [mem_append, or_iff_right (hfresh _ rfl), mem_cons, or_iff_right nofun, hns]
      split
      next hend => exact iff_of_true hend mem_cons_self
      next hend => exact iff_of_false hend nofun
  have hfollow : ∀ j, j ≠ i → Follows log (log ++ Note.headers c.nextSid max :: ns) (c.slot j) (c'.slot j) := fun j hij => by
    rw [hothers j hij]
    refine Follows.untouched (h.slots j) (Alike.refl _) fun hopen n hn hsame => ?_
    rw [hsid n hn, Option.some.injEq] at hsame
    have hlt := (h.ids _ ((h.slots j).live hopen).headers).2
    omega
  have hself : ∀ log, sees log (c'.slot i) = some c.nextSid := fun log => by
    rw [hslot, sees_opened ht.1, ht.2.1]
  -- what another slot sees is an older stream
  have holder : ∀ j sid, j ≠ i → sees (log ++ Note.headers c.nextSid max :: ns) (c'.slot j) = some sid →
      sees log (c.slot j) = some sid ∧ sid ≠ c.nextSid := fun j sid hij hsees => by
    have hold := (((hfollow j hij).sees sid).mp hsees).1
    refine ⟨hold, ?_⟩
    have hlt := (h.ids sid ((h.slots j).sees_mem hold)).2
    omega
  constructor
  · rw [hnext]
    have hodd := h.next
    omega
  · rw [hheaders, hnext]
    intro sid hin
    rcases mem_append.mp hin with hin | hin
    · have hid := h.ids sid hin
      omega
    · rw [mem_singleton.mp hin]
      have hodd := h.next
      omega
  · rw [hnext]
    intro n hn sid hat
    rcases mem_append.mp hn with hn | hn
    · have hlt := h.noted n hn sid hat
      omega
    · rw [hsid n hn, Option.some.injEq] at hat
      omega
  · intro j
    by_cases hij : j = i
    · rw [hij]
      refine ⟨fun _ => hlive, fun sid code howing => ?_⟩
      rw [hlive.rst] at howing
      cases howing
    · exact (hfollow j hij).ok
  · intro sid hin hopen
    rw [hheaders] at hin
    rcases mem_append.mp hin with hin | hin
    · obtain ⟨j, hj⟩ := h.seen sid hin fun hclosed => hopen (hclosed.append _)
      have hij : j ≠ i := by
        rintro rfl
        rw [hblind] at hj
        cases hj
      exact ⟨j, ((hfollow j hij).sees sid).mpr ⟨hj, hopen⟩⟩
    · rw [mem_singleton.mp hin]
      exact ⟨i, hself _⟩
  · intro j k sid hj hk
    by_cases hji : j = i <;> by_cases hki : k = i
    · rw [hji, hki]
    · rw [hji, hself, Option.some.injEq] at hj
      exact absurd hj.symm (holder k sid hki hk).2
    · rw [hki, hself, Option.some.injEq] at hk
      exact absurd hk.symm (holder j sid hji hj).2
    · exact h.apart j k sid (holder j sid hji hj).1 (holder k sid hki hk).1

theorem TableOk.perm_originOpen (h : TableOk c log) (hnodup : (headersOf log).Nodup) :
    (c.streams.filterMap (sees log)).Perm (originOpen log) := by
  have hslot : ∀ i (hi : i < c.streams.length), c.slot i = c.streams[i] := fun i hi => List.getD_eq_getElem _ _ hi
  have hseen : (c.streams.filterMap (sees log)).Nodup := by
    rw [List.Nodup, List.pairwise_filterMap, List.pairwise_iff_getElem]
    intro i j hi hj hij sid hsid s hs heq
    have hsame := h.apart i j sid (by rw [hslot i hi]; exact hsid) (by rw [hslot j hj, heq]; exact hs)
    omega
  refine (List.perm_ext_iff_of_nodup hseen (hnodup.filter _)).mpr fun sid => ?_
  rw [mem_filterMap, mem_filter, Bool.not_eq_true', decide_eq_false_iff_not]
  constructor
  · rintro ⟨t, ht, hsees⟩
    obtain ⟨i, hi, rfl⟩ := mem_iff_getElem.mp ht
    rw [← hslot i hi] at hsees
    exact ⟨(h.slots i).sees_mem hsees, (h.slots i).sees_open hsees⟩
  · rintro ⟨hin, hopen⟩
    obtain ⟨i, hsees⟩ := h.seen sid hin hopen
    have hi : i < c.streams.length := by
      by_contra hge
      rw [Client.slot, List.getD_eq_default _ _ (by omega)] at hsees
      cases hsees
    rw [hslot i hi] at hsees
    exact ⟨c.streams[i], getElem_mem hi, hsees⟩

end Table

/-! ### Reading -/

section Reading

variable {E : Env} {c c' : Client} {log : List Note} {i : Nat} {ch : Chan}

/-- What of the answer is still owed to the origin when its own END has come. -/
def unended (t : Stream) : Option ErrCode := if t.localEnd then none else some .cancel

theorem TableOk.finish (h : TableOk c log) (hopen : (c.slot i).state = .opened) :
    Leaves c (c.finish i) i (unended (c.slot i)) :=
  h.takeOff hopen _ _

theorem TableOk.detach (h : TableOk c log) (hopen : (c.slot i).state = .opened) (owe : Owed) (rst : Option ErrCode)
    (cause : Cause) : Leaves c (c.detach i owe rst cause) i rst :=
  (h.takeOff hopen owe rst).trans rfl rfl

theorem TableOk.outbox (h : TableOk c log) (b : Outbox) : TableOk { c with outbox := b } log :=
  ⟨h.next, h.ids, h.noted, h.slots, h.seen, h.apart⟩

theorem Leaves.outbox {b : Outbox} (h : Leaves { c with outbox := b } c' i rst) :
    Leaves c c' i rst :=
  ⟨h.opened, h.done, h.rst, h.others, h.nextSid⟩

theorem dataBytes_table (h : TableOk c log) (hc : dataBytes E c ch = some c') :
    Stays c c' ∧ (Link.endsData c c' = true → c.findSid c.rxSid = none) ∨
      Link.endsData c c' = true ∧ ∃ i, c.findSid c.rxSid = some i ∧ Leaves c c' i (unended (c.slot i)) := by
  unfold dataBytes at hc
  dsimp only at hc
  split at hc
  next hleft =>
    split at hc
    · cases hc
    split at hc
    next hnone =>
      cases hc
      exact .inl ⟨Stays.of_streams rfl rfl, fun _ => hnone⟩
    next i hi =>
      split at hc
      · cases hc
      next b hb =>
        have hopen := (findSid_some hi).1
        cases hc
        generalize hn : min (min c.recvBuf.length c.rxLeft) E.bodyMax = n
        have hends : ∀ c₁ : Client, Link.endsData c { c₁ with rxLeft := c.rxLeft - n } =
            (decide (n = c.rxLeft) && decide (c.rxPad = 0) && c.rxEnd) := fun c₁ => by
          have hle : n ≤ c.rxLeft := by omega
          unfold Link.endsData
          congr 2
          dsimp only
          rw [decide_eq_decide]
          omega
        cases hlast : decide (n = c.rxLeft) && decide (c.rxPad = 0) && c.rxEnd with
        | true =>
          right
          rw [if_pos rfl]
          have hfinish := ((h.outbox b).finish (i := i) hopen).outbox
          exact ⟨(hends _).trans hlast, i, hi, hfinish.trans rfl rfl⟩
        | false =>
          left
          rw [if_neg false_ne_true]
          refine ⟨Stays.of_streams rfl rfl, fun hend => ?_⟩
          rw [hends, hlast] at hend
          cases hend
  next hleft =>
    split at hc
    next hpad =>
      split at hc
      · cases hc
      cases hc
      refine .inl ⟨Stays.of_streams rfl rfl, fun hend => ?_⟩
      rw [Link.endsData, decide_eq_false (p := c.rxPad = 0) (by omega), Bool.and_false, Bool.false_and] at hend
      cases hend
    next hpad =>
      have hzero : c.rxLeft = 0 ∧ c.rxPad = 0 := by omega
      split at hc
      next hend =>
        split at hc
        next hnone =>
          cases hc
          exact .inl ⟨Stays.of_streams rfl rfl, fun _ => hnone⟩
        next i hi =>
          split at hc
          · cases hc
          next b hb =>
            cases hc
            have hfinish := ((h.outbox b).finish (i := i) (findSid_some hi).1).outbox
            refine .inr ⟨?_, i, hi, hfinish.trans rfl rfl⟩
            rw [Link.endsData, hend, hzero.2]
            exact congrArg (fun n => decide (n = 0) && true && true) hzero.1
      next hend =>
        cases hc
        refine .inl ⟨Stays.of_streams rfl rfl, fun hlast => ?_⟩
        rw [Link.endsData, not_eq_true _ |>.mp hend, Bool.and_false] at hlast
        cases hlast

theorem streamHeaders_table (h : TableOk c log) (hopen : (c.slot i).state = .opened) {endStream : Bool}
    {fields : HeadFields} (hc : streamHeaders c i endStream fields ch = some c') :
    endStream = false ∧ Stays c c' ∨
      ∃ rst, Leaves c c' i rst ∧ (rst = none → endStream = true ∧ (c.slot i).localEnd = true) := by
  have hunended : unended (c.slot i) = none → (c.slot i).localEnd = true := fun hnone => by
    unfold unended at hnone
    split at hnone
    next hend => exact hend
    · cases hnone
  unfold streamHeaders at hc
  dsimp only at hc
  split at hc
  next hgiven =>
    split at hc
    · cases hc
      exact .inr ⟨_, h.detach hopen _ _ _, nofun⟩
    next hend =>
      split at hc
      · cases hc
      next b hb =>
        cases hc
        refine .inr ⟨_, ((h.outbox b).finish hopen).outbox, fun hnone => ⟨?_, hunended hnone⟩⟩
        simpa using hend
  next hgiven =>
    split at hc
    next hcode =>
      split at hc
      next hbad =>
        cases hc
        exact .inr ⟨_, h.detach hopen _ _ _, nofun⟩
      next hgood =>
        cases hc
        refine .inl ⟨?_, Stays.of_streams rfl rfl⟩
        cases endStream with
        | true => exact absurd (.inr (.inr rfl)) hgood
        | false => rfl
    next hcode =>
      split at hc
      · cases hc
      split at hc
      · cases hc
        exact .inr ⟨_, ((h.outbox (c.outbox.flush ch.flush)).detach hopen _ _ _).outbox, nofun⟩
      split at hc
      · cases hc
      next b hb =>
        cases hc
        have hgiven : Stays c (({ c with outbox := b }).setSlot i { c.slot i with headGiven := true }) := by
          refine Stays.of_set ?_ rfl rfl
          exact .inl ⟨rfl, rfl, rfl, rfl⟩
        cases endStream with
        | false => exact .inl ⟨rfl, hgiven⟩
        | true =>
          right
          rw [if_pos rfl]
          have hslot : (({ c with outbox := b }).setSlot i { c.slot i with headGiven := true }).slot i =
              { c.slot i with headGiven := true } := slot_setSlot_self (lt_of_opened hopen) _
          have htable := (h.same hgiven).finish (i := i) (by rw [hslot]; exact hopen)
          rw [hslot] at htable
          refine ⟨_, ⟨hopen, htable.done, ?_, fun j hj => ?_, htable.nextSid⟩, fun hnone => ⟨rfl, hunended hnone⟩⟩
          · rw [htable.rst, hslot]
            rfl
          · rw [htable.others j hj]
            exact slot_setSlot_ne hj _

theorem dataHeader_table (h : TableOk c log) (hc : dataHeader c hdr = .ok (some c')) :
    Stays c c' ∨ ∃ i code, Leaves c c' i (some code) := by
  unfold dataHeader at hc
  dsimp only at hc
  generalize (if hdr.padded = true then (c.recvBuf.at0 FRAME_HEADER_LEN).toNat else 0) = pad at hc
  have hleft : TableOk { c with connRecvLeft := c.connRecvLeft - hdr.length } log :=
    ⟨h.next, h.ids, h.noted, h.slots, h.seen, h.apart⟩
  have hback {c₁ : Client} {i : Nat} {rst : Option ErrCode}
      (hl : Leaves { c with connRecvLeft := c.connRecvLeft - hdr.length } c₁ i rst) : Leaves c c₁ i rst :=
    ⟨hl.opened, hl.done, hl.rst, hl.others, hl.nextSid⟩
  split at hc
  · cases hc
  split at hc
  · cases hc
  split at hc
  · cases hc
  split at hc
  · cases hc
  split at hc
  · cases hc
    exact .inl (Stays.of_streams rfl rfl)
  next i hi =>
    have hopen := (findSid_some hi).1
    split at hc
    · cases hc
      exact .inr ⟨i, _, (hback (hleft.detach hopen (.status BAD_GATEWAY) _ .violation)).trans rfl rfl⟩
    split at hc
    · cases hc
      exact .inr ⟨i, _, (hback (hleft.detach hopen (.abort .creditOverrun) _ .violation)).trans rfl rfl⟩
    · cases hc
      left
      refine Stays.of_set ?_ rfl rfl
      exact .inl ⟨rfl, rfl, rfl, rfl⟩

theorem setting_stays {c c' : Client} {id v : Nat} (hok : setting c id v = .ok c') : Stays c c' := by
  unfold setting at hok
  split at hok
  · cases hok
    exact Stays.of_streams rfl rfl
  split at hok
  · split at hok
    · cases hok
    · cases hok
      refine ⟨fun i => ?_, rfl⟩
      have hslot := slot_map (fun t => if t.state = .opened ∧ t.sid ≠ 0 then
        { t with sendWindow := satAddI32 t.sendWindow (v - c.peerInitialWindow) } else t) rfl c.streams i
      unfold Client.slot
      rw [hslot]
      split <;> exact .inl ⟨rfl, rfl, rfl, rfl⟩
  split at hok
  · split at hok
    · cases hok
    · cases hok
      exact Stays.of_streams rfl rfl
  · cases hok
    exact Stays.of_streams rfl rfl

theorem settings_table {c c' : Client} (p : Bytes) (h : TableOk c log) (hok : settings c p = .ok c') :
    TableOk c' log :=
  settings_keeps (P := (TableOk · log)) (fun h hset => h.same (setting_stays hset)) p h hok

theorem windowUpdate_table (h : TableOk c log) {sid delta : Nat} (hok : windowUpdate c sid delta = .ok c') :
    Stays c c' ∨ ∃ i code, Leaves c c' i (some code) := by
  unfold windowUpdate at hok
  split at hok
  · split at hok
    · cases hok
    · cases hok
      exact .inl (Stays.of_streams rfl rfl)
  · split at hok
    · cases hok
      exact .inl (Stays.of_streams rfl rfl)
    next i hi =>
      dsimp only at hok
      split at hok
      · cases hok
        exact .inr ⟨i, _, h.detach (findSid_some hi).1 _ _ _⟩
      · cases hok
        exact .inl (Stays.setSlot (.inl ⟨rfl, rfl, rfl, rfl⟩))

theorem resetByPeer_table (h : TableOk c log) (sid code : Nat) :
    Stays c (resetByPeer c sid code) ∧ c.findSid sid = none ∨
      ∃ i, c.findSid sid = some i ∧ Leaves c (resetByPeer c sid code) i none := by
  unfold resetByPeer
  split
  next hnone => exact .inl ⟨Stays.of_streams rfl rfl, hnone⟩
  next i hi => exact .inr ⟨i, hi, h.detach (findSid_some hi).1 _ _ _⟩

theorem dataBytes_phase (hc : dataBytes E c ch = some c') : c'.phase = c.phase := by
  unfold dataBytes at hc
  dsimp only at hc
  repeat' split at hc
  all_goals cases hc
  all_goals rfl

theorem streamHeaders_phase {endStream : Bool} {fields : HeadFields}
    (hc : streamHeaders c i endStream fields ch = some c') : c'.phase = c.phase := by
  unfold streamHeaders at hc
  dsimp only at hc
  repeat' split at hc
  all_goals cases hc
  all_goals rfl

theorem dataHeader_phase (hc : dataHeader c hdr = .ok (some c')) : c'.phase = c.phase := by
  unfold dataHeader at hc
  dsimp only at hc
  generalize (if hdr.padded = true then (c.recvBuf.at0 FRAME_HEADER_LEN).toNat else 0) = pad at hc
  repeat' split at hc
  all_goals cases hc
  all_goals rfl

theorem setting_phase {c c' : Client} {id v : Nat} (hok : setting c id v = .ok c') : c'.phase = c.phase := by
  unfold setting at hok
  repeat' split at hok
  all_goals cases hok
  all_goals rfl

theorem settings_phase {c c' : Client} (p : Bytes) (hok : settings c p = .ok c') : c'.phase = c.phase :=
  settings_keeps (P := (·.phase = c.phase)) (fun h hset => (setting_phase hset).trans h) p rfl hok

theorem windowUpdate_phase {sid delta : Nat} (hok : windowUpdate c sid delta = .ok c') : c'.phase = c.phase := by
  unfold windowUpdate at hok
  dsimp only at hok
  repeat' split at hok
  all_goals cases hok
  all_goals rfl

theorem resetByPeer_phase (c : Client) (sid code : Nat) : (resetByPeer c sid code).phase = c.phase := by
  unfold resetByPeer
  split <;> rfl

theorem goAway_phase (c : Client) (last : Nat) : (goAway c last).phase = .closing := by
  unfold goAway
  generalize hfirst : ({ c with goaway := true, phase := .closing } : Client) = c₁
  have hclosing : c₁.phase = .closing := by rw [← hfirst]
  clear hfirst
  generalize List.range c.streams.length = slots
  induction slots generalizing c₁ with
  | nil => exact hclosing
  | cons i slots ih =>
    rw [foldl_cons]
    refine ih _ ?_
    split <;> exact hclosing

theorem headers_table (h : TableOk c log) {payload : Bytes} (hc : headers E c hdr payload ch = .ok (some c')) :
    Stays c c' ∧ (hdr.endStream = true → c.findSid hdr.streamId = none) ∨
      ∃ i rst, c.findSid hdr.streamId = some i ∧ Leaves c c' i rst ∧
        (rst = none → hdr.endStream = true ∧ (c.slot i).localEnd = true) := by
  unfold headers at hc
  split at hc
  · cases hc
  split at hc
  · cases hc
  split at hc
  · cases hc
  split at hc
  · cases hc
  split at hc
  next hnone =>
    cases hc
    exact .inl ⟨Stays.of_streams rfl rfl, fun _ => hnone⟩
  next i hi =>
    rw [Except.ok.injEq] at hc
    rcases streamHeaders_table h (findSid_some hi).1 hc with ⟨hend, hstays⟩ | ⟨rst, hleaves, hrst⟩
    · refine .inl ⟨hstays, fun htrue => ?_⟩
      rw [hend] at htrue
      cases htrue
    · exact .inr ⟨i, rst, hi, hleaves, hrst⟩

theorem headers_phase {payload : Bytes} (hc : headers E c hdr payload ch = .ok (some c')) :
    c'.phase = c.phase := by
  unfold headers at hc
  split at hc
  · cases hc
  split at hc
  · cases hc
  split at hc
  · cases hc
  split at hc
  · cases hc
  split at hc
  · cases hc
    rfl
  · rw [Except.ok.injEq] at hc
    exact streamHeaders_phase hc

theorem TableOk.about (h : TableOk c log) {sid : Nat} {n : Note} {noted : Bool}
    (hn : n = .remoteEnd sid ∨ n = .rstReceived sid)
    (hstep : Stays c c' ∧ (noted = true → c.findSid sid = none) ∨
      ∃ i rst, c.findSid sid = some i ∧ Leaves c c' i rst ∧ (rst = none → noted = true ∧ Closed (log ++ [n]) sid)) :
    TableOk c' (log ++ if noted then if sid < c'.nextSid then [n] else [] else []) := by
  have hheaders : headersOf [n] = [] := by
    rcases hn with rfl | rfl <;> rfl
  have hsid : n.sid = some sid := by
    rcases hn with rfl | rfl <;> rfl
  rcases hstep with ⟨hstays, hnone⟩ | ⟨i, rst, hi, hleaves, hrst⟩
  · split
    next hnoted =>
      split
      next hlt =>
        refine h.stay hstays hheaders (fun m hm s hs => ?_) fun i hopen m hm hsame => ?_
        · rw [mem_singleton.mp hm, hsid, Option.some.injEq] at hs
          rw [← hs, ← hstays.nextSid]
          exact hlt
        rw [mem_singleton.mp hm, hsid, Option.some.injEq] at hsame
        have hne : sid ≠ 0 := by
          rw [hsame]
          exact h.sid_ne hopen
        exact findSid_none (hnone hnoted) hne hopen hsame.symm
      · rw [append_nil]
        exact h.same hstays
    · rw [append_nil]
      exact h.same hstays
  · obtain ⟨hopen, hat, -⟩ := findSid_some hi
    have hlt : sid < c'.nextSid := by
      rw [hleaves.nextSid, ← hat]
      exact (h.ids _ ((h.slots i).live hopen).headers).2
    rw [if_pos hlt]
    refine h.leave hleaves (by split <;> first | exact hheaders | rfl) (fun m hm => ?_) fun hnone => ?_
    · split at hm
      · rw [mem_singleton.mp hm, hsid, hat]
      · cases hm
    · rw [if_pos (hrst hnone).1, hat]
      exact (hrst hnone).2

theorem TableOk.ended (h : TableOk c log) (hopen : (c.slot i).state = .opened) (hend : (c.slot i).localEnd = true) :
    Closed (log ++ [Note.remoteEnd (c.slot i).sid]) (c.slot i).sid :=
  .inr (.inr ⟨mem_append_left _ (((h.slots i).live hopen).localEnd.mp hend),
    mem_append_right _ mem_cons_self⟩)

end Reading

end Wave.Http.H2Client
