import Wave.Lib.Bytes
import Wave.Lib.Machine
import Wave.Lib.Table

/-! # Exchange ids towards the application (`http/server/app.rs`, `h2.rs`)

An id is the connection id with a generation (HTTP/1) or the peer's stream number (HTTP/2). Connection ids are
handed on. -/

namespace Wave.Http.AppIds

open Lib

variable {i : Nat}

variable {s : AppServer} {c : AppSlot} {heads : List AppHead}

def ORIGIN_TCP : UInt8 := 1

structure AppId where
  origin : UInt8
  conn : UInt32
  stream : UInt64

def le64 (n : UInt64) : Bytes := Bytes.le32 n.toUInt32 ++ Bytes.le32 (n >>> 32).toUInt32

def AppId.exchangeId (a : AppId) : Bytes := a.origin :: 0 :: Bytes.le32 a.conn ++ le64 a.stream

def AppId.fromExchangeId : Bytes → Option AppId
  | [origin, zero, c0, c1, c2, c3, s0, s1, s2, s3, s4, s5, s6, s7] =>
    if zero ≠ 0 then none
    else some
      { origin := origin
        conn := Bytes.u32le c0 c1 c2 c3
        stream := (Bytes.u32le s0 s1 s2 s3).toUInt64 + (Bytes.u32le s4 s5 s6 s7).toUInt64 <<< 32 }
  | _ => none

theorem fromExchangeId_exchangeId (a : AppId) : AppId.fromExchangeId a.exchangeId = some a := by
  have hword : ∀ n : UInt32,
      Bytes.u32le n.toUInt8 (n >>> 8).toUInt8 (n >>> 16).toUInt8 (n >>> 24).toUInt8 = n := Bytes.u32be_be32
  have hstream : a.stream.toUInt32.toUInt64 + (a.stream >>> 32).toUInt32.toUInt64 <<< 32 = a.stream := by
    apply UInt64.toNat.inj
    have hlt := a.stream.toNat_lt
    simp [Nat.shiftRight_eq_div_pow, Nat.shiftLeft_eq]
    omega
  simp only [AppId.exchangeId, le64, Bytes.le32, cons_append, nil_append, AppId.fromExchangeId,
    hword, hstream, ne_eq, not_true_eq_false, if_false]

theorem exchangeId_injective {a b : AppId} (h : a.exchangeId = b.exchangeId) : a = b := by
  have ha := fromExchangeId_exchangeId a
  rw [h, fromExchangeId_exchangeId] at ha
  exact (Option.some.inj ha).symm

/-- A stream of an h2 connection; `request` numbers the HEAD it sent, once it has. -/
structure AppStream where
  id : UInt32
  request : Option Nat := none
deriving DecidableEq

/-- A connection slot. `holder` numbers its connections, afresh for HTTP/2; a free slot has 0. -/
structure AppSlot where
  conn : Option UInt16 := none
  holder : Nat := 0
  h2 : Bool := false
  lastStreamId : UInt32 := 0
  streams : List AppStream := []
  /-- The open exchange of an h1 connection: its generation, and the HEAD it sent. -/
  exchange : Option (UInt64 × Nat) := none

structure AppHead where
  conn : UInt16
  stream : UInt64
  holder : Nat
  h2 : Bool

/-- `h1_id` and `h2::app_id`. -/
def AppHead.id (h : AppHead) : Bytes :=
  AppId.exchangeId { origin := ORIGIN_TCP, conn := h.conn.toUInt32, stream := h.stream }

structure AppServer where
  slots : List AppSlot
  appGenNext : UInt64 := 0
  holders : Nat := 1
  heads : List AppHead := []

namespace AppServer

def slot (s : AppServer) (i : Nat) : AppSlot := s.slots.getD i {}

def setSlot (s : AppServer) (i : Nat) (c : AppSlot) : AppServer := { s with slots := s.slots.set i c }

end AppServer

/-- A record admitted: the request it answers, and the one it was given to. -/
structure Admitted where
  answers : Nat
  given : Nat
deriving DecidableEq

/-- `drain_responses` for one record: the request its id leads to. -/
def recordTarget (s : AppServer) (id : Bytes) : Option Nat :=
  match AppId.fromExchangeId id with
  | none => none
  | some a =>
    if a.origin ≠ ORIGIN_TCP then none
    else
      match s.slots.find? fun c => c.conn = some a.conn.toUInt16 with
      | none => none
      | some c =>
        if c.h2 then
          match c.streams.find? fun st => st.id = a.stream.toUInt32 with
          | none => none
          | some st => if st.id.toUInt64 = a.stream then st.request else none
        else
          match c.exchange with
          | none => none
          | some (generation, request) => if generation = a.stream then some request else none

inductive AppEvent where
  /-- The transport gives a connection an id no open connection has. -/
  | accept (i : Nat) (conn : UInt16)
  | close (i : Nat)
  /-- The h2 preface arrives between requests. -/
  | enterH2 (i : Nat)
  /-- `h1_begin`, with its HEAD written. -/
  | h1Begin (i : Nat)
  | h1CloseExchange (i : Nat)
  /-- `handle_headers`, with a slot for the stream. -/
  | headers (i : Nat) (id : UInt32)
  /-- `emit_app_request`, with its HEAD written. -/
  | emitAppRequest (i : Nat) (id : UInt32)
  /-- `free_slot`. -/
  | freeStream (i : Nat) (id : UInt32)
  /-- A record for request `k` is read, however late. -/
  | record (k : Nat)

def appStep (s : AppServer) : AppEvent → AppServer × List Admitted
  | .accept i conn =>
    (if (s.slot i).conn = none ∧ ∀ c ∈ s.slots, c.conn ≠ some conn then
      { s.setSlot i { conn := some conn, holder := s.holders } with holders := s.holders + 1 }
    else s, [])
  | .close i => (s.setSlot i {}, [])
  | .enterH2 i =>
    (if (s.slot i).conn.isSome ∧ (s.slot i).h2 = false ∧ (s.slot i).exchange = none then
      { s.setSlot i { conn := (s.slot i).conn, holder := s.holders, h2 := true } with
        holders := s.holders + 1 }
    else s, [])
  | .h1Begin i =>
    (match (s.slot i).conn with
    | none => s
    | some conn =>
      if (s.slot i).h2 = false ∧ (s.slot i).exchange = none then
        { s.setSlot i { s.slot i with exchange := some (s.appGenNext, s.heads.length) } with
          appGenNext := s.appGenNext + 1
          heads := s.heads ++
            [{ conn := conn, stream := s.appGenNext, holder := (s.slot i).holder, h2 := false }] }
      else s, [])
  | .h1CloseExchange i => (s.setSlot i { s.slot i with exchange := none }, [])
  | .headers i id =>
    (if (s.slot i).h2 ∧ id % 2 = 1 ∧ (s.slot i).lastStreamId < id then
      s.setSlot i { s.slot i with streams := { id := id } :: (s.slot i).streams, lastStreamId := id }
    else s, [])
  | .emitAppRequest i id =>
    (match (s.slot i).conn with
    | none => s
    | some conn =>
      if (s.slot i).h2 ∧ { id := id } ∈ (s.slot i).streams then
        { s.setSlot i { s.slot i with
            streams := (s.slot i).streams.map fun st =>
              if st.id = id then { st with request := some s.heads.length } else st } with
          heads := s.heads ++
            [{ conn := conn, stream := id.toUInt64, holder := (s.slot i).holder, h2 := true }] }
      else s, [])
  | .freeStream i id =>
    (s.setSlot i { s.slot i with streams := (s.slot i).streams.filter fun st => st.id ≠ id }, [])
  | .record k =>
    (s, match s.heads[k]? with
      | none => []
      | some h => (recordTarget s h.id).toList.map fun given => { answers := k, given := given })

def appMachine : Machine AppServer AppEvent Admitted where
  step := appStep

def AppServer.init (slots : Nat) : AppServer where
  slots := List.replicate slots {}

def IdsUnique (s : AppServer) : Prop := (s.heads.map AppHead.id).Nodup

/-- Earlier HEADs on this connection id came from the same holder, or both are HTTP/1. -/
def HeadOk (s : AppServer) (i : Nat) : Prop :=
  ∀ h ∈ s.heads, some h.conn = (s.slot i).conn →
    h.holder = (s.slot i).holder ∨ (h.h2 = false ∧ (s.slot i).h2 = false)

def AppOk (s : AppServer) : AppEvent → Prop
  | .h1Begin i => HeadOk s i
  | .emitAppRequest i _ => HeadOk s i
  | _ => True

/-! ## The invariant -/

def Names (heads : List AppHead) (r : Nat) (conn : Option UInt16) (stream : UInt64) : Prop :=
  ∃ h, heads[r]? = some h ∧ conn = some h.conn ∧ h.stream = stream

theorem Names.append {r : Nat} {conn : Option UInt16} {stream : UInt64}
    (h : Names heads r conn stream) (more : List AppHead) : Names (heads ++ more) r conn stream := by
  obtain ⟨x, hx, hrest⟩ := h
  have hlt : r < heads.length := (List.getElem?_eq_some_iff.mp hx).1
  exact ⟨x, by rw [List.getElem?_append_left hlt]; exact hx, hrest⟩

structure SlotOk (heads : List AppHead) (holders : Nat) (c : AppSlot) : Prop where
  holder : c.holder < holders
  own : ∀ h ∈ heads, h.holder = c.holder → some h.conn = c.conn ∧ h.h2 = c.h2
  below : ∀ st ∈ c.streams, st.id ≤ c.lastStreamId
  last : c.h2 = true → ∀ h ∈ heads, h.holder = c.holder → h.stream ≤ c.lastStreamId.toUInt64
  once : (c.streams.map AppStream.id).Nodup
  waits : ∀ st ∈ c.streams, st.request = none → ∀ h ∈ heads, h.holder = c.holder →
    h.stream ≠ st.id.toUInt64
  streams : ∀ st ∈ c.streams, ∀ r ∈ st.request, Names heads r c.conn st.id.toUInt64
  exchange : ∀ x ∈ c.exchange, Names heads x.2 c.conn x.1
  plain : c.h2 = false → c.streams = []

structure AppInv (s : AppServer) : Prop where
  slots : ∀ i, SlotOk s.heads s.holders (s.slot i)
  apart : ∀ i j, i ≠ j → (s.slot i).holder ≠ 0 → (s.slot i).holder ≠ (s.slot j).holder
  free : ∀ i, (s.slot i).conn = none ∨ (s.slot i).holder ≠ 0
  heads : ∀ h ∈ s.heads, h.holder ≠ 0 ∧ h.holder < s.holders
  gen : ∀ h ∈ s.heads, h.h2 = false → h.stream < s.appGenNext
  count : s.appGenNext.toNat ≤ s.heads.length
  unique : IdsUnique s

theorem SlotOk.fresh {holders : Nat} (hholder : c.holder < holders)
    (hnew : ∀ h ∈ heads, h.holder ≠ c.holder) (hstreams : c.streams = []) (hexchange : c.exchange = none) :
    SlotOk heads holders c := by
  refine ⟨hholder, fun h hh heq => absurd heq (hnew h hh), ?_, fun _ h hh heq => absurd heq (hnew h hh),
    ?_, ?_, ?_, ?_, fun _ => hstreams⟩
  · simp [hstreams]
  · simp [hstreams]
  · simp [hstreams]
  · simp [hstreams]
  · simp [hexchange]

theorem SlotOk.grow {holders holders' : Nat} (h : SlotOk heads holders c)
    (hle : holders ≤ holders') (more : List AppHead) (hmore : ∀ x ∈ more, x.holder ≠ c.holder) :
    SlotOk (heads ++ more) holders' c := by
  have hold : ∀ x ∈ heads ++ more, x.holder = c.holder → x ∈ heads := fun x hx heq =>
    (mem_append.mp hx).resolve_right fun hin => hmore x hin heq
  exact ⟨Nat.lt_of_lt_of_le h.holder hle, fun x hx heq => h.own x (hold x hx heq) heq, h.below,
    fun hh2 x hx heq => h.last hh2 x (hold x hx heq) heq, h.once,
    fun st hst hnone x hx heq => h.waits st hst hnone x (hold x hx heq) heq,
    fun st hst r hr => (h.streams st hst r hr).append more, fun x hx => (h.exchange x hx).append more,
    h.plain⟩

theorem slot_setSlot (s : AppServer) (i j : Nat) (c : AppSlot) :
    (j = i ∧ (s.setSlot i c).slot j = c) ∨ (s.setSlot i c).slot j = s.slot j :=
  Table.getD_set_cases s.slots i j c {}

theorem AppInv.update (h : AppInv s) (i : Nat)
    (hc : SlotOk s.heads s.holders c) (hholder : c.holder = (s.slot i).holder)
    (hconn : c.conn = (s.slot i).conn) : AppInv (s.setSlot i c) := by
  have hslot : ∀ j, ((s.setSlot i c).slot j).holder = (s.slot j).holder ∧
      ((s.setSlot i c).slot j).conn = (s.slot j).conn := by
    intro j
    obtain ⟨rfl, heq⟩ | heq := slot_setSlot s i j c
    · rw [heq]
      exact ⟨hholder, hconn⟩
    · rw [heq]
      exact ⟨rfl, rfl⟩
  refine ⟨fun j => ?_, fun j k hjk hne => ?_, fun j => ?_, h.heads, h.gen, h.count, h.unique⟩
  · obtain ⟨-, heq⟩ | heq := slot_setSlot s i j c
    · rw [heq]
      exact hc
    · rw [heq]
      exact h.slots j
  · rw [(hslot j).1] at hne ⊢
    rw [(hslot k).1]
    exact h.apart j k hjk hne
  · rw [(hslot j).1, (hslot j).2]
    exact h.free j

theorem AppInv.hand (h : AppInv s) (i : Nat) {holders : Nat} (hle : s.holders ≤ holders) (hlt : c.holder < holders)
    (hnew : c.holder = 0 ∨ c.holder = s.holders) (hfree : c.conn = none ∨ c.holder ≠ 0)
    (hstreams : c.streams = []) (hexchange : c.exchange = none) :
    AppInv { s.setSlot i c with holders := holders } := by
  have hunused : ∀ x ∈ s.heads, x.holder ≠ c.holder := by
    intro x hx heq
    obtain ⟨hne, hbelow⟩ := h.heads x hx
    rcases hnew with h0 | hn <;> omega
  have hslot : ∀ j, (j = i ∧ ({ s.setSlot i c with holders := holders } : AppServer).slot j = c) ∨
      ({ s.setSlot i c with holders := holders } : AppServer).slot j = s.slot j := fun j => slot_setSlot s i j c
  have hold : ∀ j, (s.slot j).holder < s.holders := fun j => (h.slots j).holder
  refine ⟨fun j => ?_, fun j k hjk hne => ?_, fun j => ?_, ?_, h.gen, h.count, h.unique⟩
  · obtain ⟨-, heq⟩ | heq := hslot j
    · rw [heq]
      exact SlotOk.fresh hlt hunused hstreams hexchange
    · rw [heq]
      have := (h.slots j).grow hle [] nofun
      rwa [append_nil] at this
  · obtain ⟨rfl, hj⟩ | hj := hslot j
    · obtain ⟨rfl, hk⟩ | hk := hslot k
      · exact absurd rfl hjk
      · rw [hj] at hne ⊢
        rw [hk]
        have := hold k
        rcases hnew with h0 | hn <;> omega
    · rw [hj] at hne ⊢
      obtain ⟨rfl, hk⟩ | hk := hslot k
      · rw [hk]
        have := hold j
        rcases hnew with h0 | hn <;> omega
      · rw [hk]
        exact h.apart j k hjk hne
  · obtain ⟨-, heq⟩ | heq := hslot j
    · rw [heq]
      exact hfree
    · rw [heq]
      exact h.free j
  · exact fun x hx => ⟨(h.heads x hx).1, Nat.lt_of_lt_of_le (h.heads x hx).2 hle⟩

theorem id_inj {x y : AppHead} (h : x.id = y.id) : x.conn = y.conn ∧ x.stream = y.stream := by
  have heq := exchangeId_injective h
  rw [AppId.mk.injEq] at heq
  refine ⟨UInt16.toNat.inj ?_, heq.2.2⟩
  have hnat := congrArg UInt32.toNat heq.2.1
  rwa [UInt16.toNat_toUInt32, UInt16.toNat_toUInt32] at hnat

theorem AppInv.send (h : AppInv s) {x : AppHead} {gen : UInt64}
    (hx : some x.conn = (s.slot i).conn) (hxholder : x.holder = (s.slot i).holder)
    (hfresh : ∀ y ∈ s.heads, y.conn = x.conn → y.stream ≠ x.stream)
    (hc : SlotOk (s.heads ++ [x]) s.holders c) (hholder : c.holder = (s.slot i).holder)
    (hconn : c.conn = (s.slot i).conn) (hgen : ∀ y ∈ s.heads ++ [x], y.h2 = false → y.stream < gen)
    (hcount : gen.toNat ≤ s.heads.length + 1) :
    AppInv { s.setSlot i c with appGenNext := gen, heads := s.heads ++ [x] } := by
  have hlive : (s.slot i).holder ≠ 0 := (h.free i).resolve_left (by rw [← hx]; exact some_ne_none _)
  have hslot : ∀ j, (j = i ∧ ({ s.setSlot i c with appGenNext := gen, heads := s.heads ++ [x] } :
      AppServer).slot j = c) ∨ ({ s.setSlot i c with appGenNext := gen, heads := s.heads ++ [x] } :
      AppServer).slot j = s.slot j := fun j => slot_setSlot s i j c
  obtain ⟨s', hs'⟩ : ∃ s', s' = ({ s.setSlot i c with appGenNext := gen, heads := s.heads ++ [x] } :
    AppServer) := ⟨_, rfl⟩
  rw [← hs'] at hslot ⊢
  have hsame : ∀ j, (s'.slot j).holder = (s.slot j).holder ∧ (s'.slot j).conn = (s.slot j).conn := by
    intro j
    obtain ⟨rfl, heq⟩ | heq := hslot j
    · rw [heq]
      exact ⟨hholder, hconn⟩
    · rw [heq]
      exact ⟨rfl, rfl⟩
  have hheads : s'.heads = s.heads ++ [x] := by rw [hs']
  have hholders : s'.holders = s.holders := by rw [hs']; rfl
  refine ⟨fun j => ?_, fun j k hjk hne => ?_, fun j => ?_, fun y hy => ?_, ?_, ?_, ?_⟩
  · rw [hheads, hholders]
    by_cases hj : j = i
    · subst hj
      obtain ⟨-, heq⟩ | heq := hslot j
      · rw [heq]
        exact hc
      · -- past the end of the table no connection is held
        have hlt : j < s.slots.length := by
          refine Table.lt_of_getD_ne (d := ({} : AppSlot)) fun hdef => hlive ?_
          unfold AppServer.slot
          rw [hdef]
        have hset : s'.slot j = c := by
          rw [hs']
          exact Table.getD_set_self hlt
        rw [hset]
        exact hc
    · obtain ⟨rfl, -⟩ | heq := hslot j
      · exact absurd rfl hj
      · rw [heq]
        refine (h.slots j).grow (Nat.le_refl _) [x] fun y hy => ?_
        cases mem_singleton.mp hy
        rw [hxholder]
        exact h.apart i j (Ne.symm hj) hlive
  · rw [(hsame j).1] at hne ⊢
    rw [(hsame k).1]
    exact h.apart j k hjk hne
  · rw [(hsame j).1, (hsame j).2]
    exact h.free j
  · rw [hheads] at hy
    rw [hholders]
    rcases mem_append.mp hy with hy | hy
    · exact h.heads y hy
    · cases mem_singleton.mp hy
      rw [hxholder]
      exact ⟨hlive, (h.slots i).holder⟩
  · rw [hs']
    exact hgen
  · rw [hs']
    simpa using hcount
  · unfold IdsUnique
    rw [hheads, map_append, List.nodup_append]
    refine ⟨h.unique, by simp, ?_⟩
    intro a ha b hb heq
    obtain ⟨y, hy, rfl⟩ := mem_map.mp ha
    rw [map_singleton, mem_singleton] at hb
    obtain ⟨hcid, hstream⟩ := id_inj (heq.trans hb)
    exact hfresh y hy hcid hstream

/-! ## One step -/

theorem names_last (heads : List AppHead) (x : AppHead) :
    Names (heads ++ [x]) heads.length (some x.conn) x.stream :=
  ⟨x, by simp, rfl, rfl⟩

theorem AppInv.h1Begin (h : AppInv s) {conn : UInt16}
    (hconn : (s.slot i).conn = some conn) (hh2 : (s.slot i).h2 = false) (hok : HeadOk s i)
    (hfew : s.heads.length + 1 < 2 ^ 64) :
    AppInv { s.setSlot i { s.slot i with exchange := some (s.appGenNext, s.heads.length) } with
      appGenNext := s.appGenNext + 1
      heads := s.heads ++
        [{ conn := conn, stream := s.appGenNext, holder := (s.slot i).holder, h2 := false }] } := by
  have hslot := h.slots i
  have hnext : (s.appGenNext + 1).toNat = s.appGenNext.toNat + 1 := by
    have := h.count
    rw [UInt64.toNat_add]
    exact Nat.mod_eq_of_lt (by simp; omega)
  have hbelow : s.appGenNext < s.appGenNext + 1 := by
    rw [UInt64.lt_iff_toNat_lt, hnext]
    exact Nat.lt_succ_self _
  refine h.send hconn.symm rfl (fun y hy hy' => ?_) ⟨hslot.holder, ?_, hslot.below, ?_, hslot.once, ?_, ?_, ?_,
    hslot.plain⟩ rfl rfl ?_ ?_
  · -- an earlier HEAD of this id is HTTP/1 as well, and has a smaller generation
    have hy1 : y.h2 = false := by
      rcases hok y hy (by rw [hconn, hy']) with hsame | hplain
      · exact ((hslot.own y hy hsame).2).trans hh2
      · exact hplain.1
    exact fun heq => UInt64.lt_irrefl _ (heq ▸ h.gen y hy hy1)
  · intro y hy hy'
    rcases mem_append.mp hy with hy | hy
    · exact hslot.own y hy hy'
    · cases mem_singleton.mp hy
      exact ⟨hconn.symm, hh2.symm⟩
  · exact fun hyes => absurd (hh2.symm.trans hyes) false_ne_true
  · intro st hst
    rw [hslot.plain hh2] at hst
    cases hst
  · exact fun st hst r hr => (hslot.streams st hst r hr).append _
  · intro x hx
    cases hx
    have := names_last s.heads { conn := conn, stream := s.appGenNext, holder := (s.slot i).holder, h2 := false }
    rwa [← hconn] at this
  · intro y hy hy1
    rcases mem_append.mp hy with hy | hy
    · exact UInt64.lt_trans (h.gen y hy hy1) hbelow
    · cases mem_singleton.mp hy
      exact hbelow
  · rw [hnext]
    exact Nat.succ_le_succ h.count

theorem AppInv.emit (h : AppInv s) {id : UInt32} {conn : UInt16}
    (hconn : (s.slot i).conn = some conn) (hh2 : (s.slot i).h2 = true)
    (hmem : { id := id } ∈ (s.slot i).streams) (hok : HeadOk s i) :
    AppInv { s.setSlot i { s.slot i with
        streams := (s.slot i).streams.map fun st =>
          if st.id = id then { st with request := some s.heads.length } else st } with
      heads := s.heads ++
        [{ conn := conn, stream := id.toUInt64, holder := (s.slot i).holder, h2 := true }] } := by
  have hslot := h.slots i
  obtain ⟨x, hx⟩ : ∃ x : AppHead, x = { conn := conn, stream := id.toUInt64, holder := (s.slot i).holder, h2 := true } :=
    ⟨_, rfl⟩
  rw [← hx]
  -- every stream of the table keeps its number
  have hids : ((s.slot i).streams.map fun st =>
      if st.id = id then { st with request := some s.heads.length } else st).map AppStream.id =
      (s.slot i).streams.map AppStream.id := by
    rw [map_map]
    refine map_congr_left fun st _ => ?_
    simp only [Function.comp_apply]
    split_ifs <;> rfl
  have hmapped : ∀ st ∈ (s.slot i).streams.map fun st =>
      if st.id = id then { st with request := some s.heads.length } else st,
      (st.id = id ∧ st.request = some s.heads.length) ∨ (st ∈ (s.slot i).streams ∧ st.id ≠ id) := by
    intro st hst
    obtain ⟨st', hst', rfl⟩ := mem_map.mp hst
    by_cases heq : st'.id = id
    · rw [if_pos heq]
      exact .inl ⟨heq, rfl⟩
    · rw [if_neg heq]
      exact .inr ⟨hst', heq⟩
  have hle : id ≤ (s.slot i).lastStreamId := hslot.below _ hmem
  have hwide : ∀ a b : UInt32, a.toUInt64 = b.toUInt64 → a = b := fun a b hab => by
    have := congrArg UInt64.toNat hab
    rw [UInt32.toNat_toUInt64, UInt32.toNat_toUInt64] at this
    exact UInt32.toNat.inj this
  refine h.send (by rw [hx, hconn]) (by rw [hx]) (fun y hy hy' => ?_)
    ⟨hslot.holder, ?_, ?_, ?_, ?_, ?_, ?_, fun z hz => (hslot.exchange z hz).append _, ?_⟩ rfl rfl ?_
    (Nat.le_succ_of_le h.count)
  · rcases hok y hy (by rw [hconn, hy', hx]) with hsame | hplain
    · rw [hx]
      exact hslot.waits _ hmem rfl y hy hsame
    · exact absurd (hplain.2.symm.trans hh2) false_ne_true
  · intro y hy hy'
    rcases mem_append.mp hy with hy | hy
    · exact hslot.own y hy hy'
    · cases mem_singleton.mp hy
      rw [hx]
      exact ⟨hconn.symm, hh2.symm⟩
  · intro st hst
    rcases hmapped st hst with ⟨heq, -⟩ | ⟨hold, -⟩
    · rw [heq]
      exact hle
    · exact hslot.below st hold
  · intro _ y hy hy'
    rcases mem_append.mp hy with hy | hy
    · exact hslot.last hh2 y hy hy'
    · cases mem_singleton.mp hy
      rw [hx, UInt64.le_iff_toNat_le, UInt32.toNat_toUInt64, UInt32.toNat_toUInt64]
      exact UInt32.le_iff_toNat_le.mp hle
  · rw [hids]
    exact hslot.once
  · intro st hst hnone y hy hy'
    rcases hmapped st hst with ⟨-, hsome⟩ | ⟨hold, hne⟩
    · rw [hnone] at hsome
      cases hsome
    · rcases mem_append.mp hy with hy | hy
      · exact hslot.waits st hold hnone y hy hy'
      · cases mem_singleton.mp hy
        rw [hx]
        exact fun heq => hne (hwide _ _ heq).symm
  · intro st hst r hr
    rcases hmapped st hst with ⟨heq, hsome⟩ | ⟨hold, -⟩
    · rw [hsome] at hr
      cases hr
      have := names_last s.heads x
      rw [heq, hconn]
      rwa [hx] at this ⊢
    · exact (hslot.streams st hold r hr).append _
  · exact fun hno => absurd (hno.symm.trans hh2) false_ne_true
  · intro y hy hy1
    rcases mem_append.mp hy with hy | hy
    · exact h.gen y hy hy1
    · cases mem_singleton.mp hy
      rw [hx] at hy1
      cases hy1

theorem AppInv.headers (h : AppInv s) {id : UInt32} (hh2 : (s.slot i).h2 = true) (hlast : (s.slot i).lastStreamId < id) :
    AppInv (s.setSlot i { s.slot i with
      streams := { id := id } :: (s.slot i).streams, lastStreamId := id }) := by
  have hslot := h.slots i
  have hwide : (s.slot i).lastStreamId.toUInt64 < id.toUInt64 := by
    rw [UInt64.lt_iff_toNat_lt, UInt32.toNat_toUInt64, UInt32.toNat_toUInt64]
    exact UInt32.lt_iff_toNat_lt.mp hlast
  refine h.update i ⟨hslot.holder, hslot.own, ?_, ?_, ?_, ?_, ?_, hslot.exchange, ?_⟩ rfl rfl
  · intro st hst
    rcases mem_cons.mp hst with rfl | hst
    · exact UInt32.le_refl _
    · exact UInt32.le_of_lt (UInt32.lt_of_le_of_lt (hslot.below st hst) hlast)
  · exact fun _ y hy hy' => UInt64.le_of_lt (UInt64.lt_of_le_of_lt (hslot.last hh2 y hy hy') hwide)
  · refine List.nodup_cons.mpr ⟨fun hin => ?_, hslot.once⟩
    obtain ⟨st, hst, heq⟩ := mem_map.mp hin
    have hle := hslot.below st hst
    rw [heq] at hle
    exact UInt32.lt_irrefl _ (UInt32.lt_of_le_of_lt hle hlast)
  · intro st hst hnone y hy hy'
    rcases mem_cons.mp hst with rfl | hst
    · intro heq
      have := UInt64.lt_of_le_of_lt (hslot.last hh2 y hy hy') hwide
      rw [heq] at this
      exact UInt64.lt_irrefl _ this
    · exact hslot.waits st hst hnone y hy hy'
  · intro st hst r hr
    rcases mem_cons.mp hst with rfl | hst
    · cases hr
    · exact hslot.streams st hst r hr
  · exact fun hno => absurd (hno.symm.trans hh2) false_ne_true

theorem AppInv.freeStream (h : AppInv s) (i : Nat) (id : UInt32) :
    AppInv (s.setSlot i { s.slot i with streams := (s.slot i).streams.filter fun st => st.id ≠ id }) := by
  have hslot := h.slots i
  have hsub : ∀ st ∈ (s.slot i).streams.filter (fun st => decide (st.id ≠ id)), st ∈ (s.slot i).streams :=
    fun st hst => (mem_filter.mp hst).1
  refine h.update i ⟨hslot.holder, hslot.own, fun st hst => hslot.below st (hsub st hst), hslot.last, ?_,
    fun st hst => hslot.waits st (hsub st hst), fun st hst => hslot.streams st (hsub st hst), hslot.exchange,
    fun hno => ?_⟩ rfl rfl
  · exact hslot.once.sublist (List.filter_sublist.map _)
  · rw [hslot.plain hno]
    rfl

theorem AppInv.step (h : AppInv s) {e : AppEvent} (hok : AppOk s e) (hfew : (appStep s e).1.heads.length < 2 ^ 64) : AppInv (appStep s e).1 := by
  cases e with
  | accept i conn =>
    rw [appStep]
    split_ifs
    · exact h.hand i (Nat.le_succ _) (Nat.lt_succ_self _) (.inr rfl)
        (.inr (Nat.ne_of_gt (Nat.zero_lt_of_lt (h.slots 0).holder))) rfl rfl
    · exact h
  | close i =>
    exact h.hand i (Nat.le_refl _) (Nat.zero_lt_of_lt (h.slots 0).holder) (.inl rfl) (.inl rfl) rfl rfl
  | enterH2 i =>
    rw [appStep]
    split_ifs
    · exact h.hand i (Nat.le_succ _) (Nat.lt_succ_self _) (.inr rfl)
        (.inr (Nat.ne_of_gt (Nat.zero_lt_of_lt (h.slots 0).holder))) rfl rfl
    · exact h
  | h1Begin i =>
    rw [appStep] at hfew ⊢
    cases hconn : (s.slot i).conn with
    | none => exact h
    | some conn =>
      simp only [hconn] at hfew ⊢
      split_ifs at hfew ⊢ with hidle
      · simpa only [hconn] using h.h1Begin hconn hidle.1 hok (by simpa using hfew)
      · exact h
  | h1CloseExchange i =>
    have hslot := h.slots i
    exact h.update i ⟨hslot.holder, hslot.own, hslot.below, hslot.last, hslot.once, hslot.waits, hslot.streams,
      nofun, hslot.plain⟩ rfl rfl
  | headers i id =>
    rw [appStep]
    split_ifs with hguard
    · exact h.headers hguard.1 hguard.2.2
    · exact h
  | emitAppRequest i id =>
    rw [appStep]
    cases hconn : (s.slot i).conn with
    | none => exact h
    | some conn =>
      simp only
      split_ifs with hguard
      · exact h.emit hconn hguard.1 hguard.2 hok
      · exact h
  | freeStream i id => exact h.freeStream i id
  | record k => exact h

theorem recordTarget_names (h : AppInv s) {x : AppHead} {r : Nat} (ht : recordTarget s x.id = some r) : ∃ y, s.heads[r]? = some y ∧ y.id = x.id := by
  unfold recordTarget AppHead.id at ht
  rw [fromExchangeId_exchangeId] at ht
  simp only [ne_eq, not_true_eq_false, if_false] at ht
  cases hfind : s.slots.find? fun c => c.conn = some x.conn.toUInt32.toUInt16 with
  | none =>
    rw [hfind] at ht
    cases ht
  | some c =>
    rw [hfind] at ht
    have hconn : c.conn = some x.conn := by simpa using List.find?_some hfind
    obtain ⟨i, hi⟩ := List.mem_iff_getElem?.mp (List.mem_of_find?_eq_some hfind)
    have hslot : SlotOk s.heads s.holders c := by
      have := h.slots i
      rwa [AppServer.slot, List.getD_eq_getElem?_getD, hi] at this
    have hnamed : ∀ stream, stream = x.stream → Names s.heads r c.conn stream →
        ∃ y, s.heads[r]? = some y ∧ y.id = x.id := by
      rintro stream rfl ⟨y, hy, hyconn, hystream⟩
      have heq : x.conn = y.conn := Option.some.inj (hconn.symm.trans hyconn)
      exact ⟨y, hy, by simp [AppHead.id, hystream, heq]⟩
    by_cases hh2 : c.h2 = true
    · simp only [hh2, if_true] at ht
      cases hstream : c.streams.find? fun st => st.id = x.stream.toUInt32 with
      | none =>
        rw [hstream] at ht
        cases ht
      | some st =>
        rw [hstream] at ht
        simp only at ht
        split_ifs at ht with hwide
        exact hnamed _ hwide (hslot.streams st (List.mem_of_find?_eq_some hstream) r ht)
    · simp only [not_eq_true] at hh2
      simp only [hh2, false_eq_true, if_false] at ht
      cases hex : c.exchange with
      | none =>
        rw [hex] at ht
        cases ht
      | some y =>
        rw [hex] at ht
        simp only at ht
        split_ifs at ht with hgen
        cases ht
        exact hnamed _ hgen (hslot.exchange y hex)

theorem AppInv.admitted (h : AppInv s) (e : AppEvent) :
    ∀ d ∈ (appStep s e).2, d.given = d.answers := by
  cases e with
  | record k =>
    intro d hd
    rw [appStep] at hd
    cases hk : s.heads[k]? with
    | none =>
      simp [hk] at hd
    | some x =>
      simp only [hk, mem_map, Option.mem_toList] at hd
      obtain ⟨r, hr, rfl⟩ := hd
      obtain ⟨y, hy, hid⟩ := recordTarget_names h hr
      have hrk : (s.heads.map AppHead.id)[r]? = (s.heads.map AppHead.id)[k]? := by
        rw [List.getElem?_map, List.getElem?_map, hy, hk]
        exact congrArg some hid
      have hlt : r < (s.heads.map AppHead.id).length := by
        rw [length_map]
        exact (List.getElem?_eq_some_iff.mp hy).1
      exact (List.getElem?_inj hlt h.unique).mp hrk
  | _ =>
    intro d hd
    cases hd

theorem AppInv.init (slots : Nat) : AppInv (.init slots) := by
  have hslot : ∀ i, (AppServer.init slots).slot i = {} := by
    intro i
    unfold AppServer.slot AppServer.init
    rw [List.getD_eq_getElem?_getD, List.getElem?_replicate]
    split_ifs <;> rfl
  refine ⟨fun i => ?_, fun i j _ hne => ?_, fun i => .inl ?_, nofun, nofun, Nat.le_refl _, List.nodup_nil⟩
  · rw [hslot]
    exact SlotOk.fresh Nat.zero_lt_one nofun rfl rfl
  · rw [hslot] at hne
    exact absurd rfl hne
  · rw [hslot]

theorem heads_mono (s : AppServer) (e : AppEvent) : s.heads.length ≤ (appStep s e).1.heads.length := by
  cases e <;> rw [appStep] <;> (try split) <;> (try split_ifs) <;> simp [AppServer.setSlot]

theorem heads_run_mono (s : AppServer) (events : List AppEvent) :
    s.heads.length ≤ (appMachine.run s events).1.heads.length := by
  induction events generalizing s with
  | nil => exact Nat.le_refl _
  | cons e events ih => exact (heads_mono s e).trans (ih _)

theorem appRun (h : AppInv s) {events : List AppEvent}
    (hal : appMachine.Along AppOk s events) (hfew : (appMachine.run s events).1.heads.length < 2 ^ 64) :
    AppInv (appMachine.run s events).1 ∧ ∀ d ∈ (appMachine.run s events).2, d.given = d.answers := by
  induction events generalizing s with
  | nil => exact ⟨h, forall_mem_nil _⟩
  | cons e events ih =>
    obtain ⟨hok, hrest⟩ := hal
    have hstep := h.step hok (Nat.lt_of_le_of_lt (heads_run_mono _ events) hfew)
    obtain ⟨hinv, hgiven⟩ := ih hstep hrest hfew
    refine ⟨hinv, fun d hd => ?_⟩
    rcases mem_append.mp hd with hd | hd
    · exact h.admitted e d hd
    · exact hgiven d hd

/-- In a run of fewer than 2^64 requests, each on a connection id no other holder used: no two HEADs carry one id, and
every record admitted is given to the request it answers. -/
theorem exchange_ids_unique (slots : Nat) (events : List AppEvent)
    (hal : appMachine.Along AppOk (.init slots) events)
    (hfew : (appMachine.run (.init slots) events).1.heads.length < 2 ^ 64) :
    IdsUnique (appMachine.run (.init slots) events).1 ∧
      ∀ d ∈ (appMachine.run (.init slots) events).2, d.given = d.answers := by
  obtain ⟨hinv, hgiven⟩ := appRun (AppInv.init slots) hal hfew
  exact ⟨hinv.unique, hgiven⟩

instance (s : AppServer) (i : Nat) : Decidable (HeadOk s i) := inferInstanceAs (Decidable (∀ _ ∈ _, _))

instance (s : AppServer) : (e : AppEvent) → Decidable (AppOk s e)
  | .h1Begin _ | .emitAppRequest _ _ => inferInstanceAs (Decidable (HeadOk _ _))
  | .accept _ _ | .close _ | .enterH2 _ | .h1CloseExchange _ | .headers _ _ | .freeStream _ _ | .record _ =>
    isTrue trivial

/-- Two HTTP/1 connections share an id, one after the other, and an HTTP/2 one has its own.
The records come last. -/
def lateRecords : List AppEvent :=
  [.accept 0 7, .h1Begin 0, .close 0, .accept 0 7, .h1Begin 0, .accept 1 9, .enterH2 1, .headers 1 1,
    .emitAppRequest 1 1, .record 0, .record 1, .record 2]

theorem exchange_ids_unique_lateRecords :
    IdsUnique (appMachine.run (.init 2) lateRecords).1 ∧
      (appMachine.run (.init 2) lateRecords).2 = [⟨1, 1⟩, ⟨2, 2⟩] :=
  ⟨(exchange_ids_unique 2 lateRecords (by decide +kernel) (by decide +kernel)).1, by decide +kernel⟩

def reusedStream : List AppEvent :=
  [.accept 0 7, .enterH2 0, .headers 0 1, .emitAppRequest 0 1, .close 0, .accept 0 7, .enterH2 0,
    .headers 0 1, .emitAppRequest 0 1, .record 0]

/-- The two HEADs carry one id, and the answer to the first client is given to the second. -/
theorem record_misgiven_reusedStream :
    ¬ IdsUnique (appMachine.run (.init 1) reusedStream).1 ∧
      (appMachine.run (.init 1) reusedStream).2 = [⟨0, 1⟩] := by
  refine ⟨?_, by decide +kernel⟩
  unfold IdsUnique
  decide +kernel

end Wave.Http.AppIds
