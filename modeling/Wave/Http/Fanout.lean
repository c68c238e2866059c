import Wave.Http.SessionAnchor
import Wave.Http.WsOut

/-! # Routing worker envelopes to their connections (`http/server/ws.rs`, `mod.rs`)

Any fan-out connection's step reads the workers' ports, and an envelope goes to the slot its id finds. A copy is
retained for connections that join later. -/

namespace Wave.Http.Fanout

open Lib Common

variable {w : Nat} {ws : List Nat}

variable {s : FanServer} {p : Profile} {a : DrainAnswers}

/-- `ws_active` and `ws_stream_id`: a tunnel rides a stream its client opened. -/
structure H2Tunnel where
  stream : UInt32
  nonzero : stream ≠ 0

/-- The stream slot of an h3 tunnel. `live` is what `tunnel_pump` asks of it. -/
structure H3Stream where
  live : Bool
  sendBuf : Bytes := []
  sendOff : Nat := 0

/-- The part of a `ConnSlot` the fan-out looks at. `fragConns` are the ids on the envelopes whose bytes `ws_frag_buf`
holds, and `fragReplayed` says that they were retained. -/
structure FanSlot where
  connId : Option UInt16 := none
  phase : Phase := .init
  fanOut : Bool := false
  unsent : Bytes := []
  frag : Option Fragment := none
  fragConns : List UInt32 := []
  fragReplayed : Bool := false
  tunnel : Option H2Tunnel := none
  h3 : Option H3Stream := none
  scPhase : Anchor.SessionPhase := .none
  scWorker : Nat := 0
  replayOffset : Nat := 0
  replayTarget : Nat := 0
  replayStarted : Bool := false
  replayDone : Bool := false

namespace FanSlot

/-- `ws_stream_id`, which `end_tunnel` clears. -/
def wsStreamId (c : FanSlot) : UInt32 := (c.tunnel.map (·.stream)).getD 0

/-- An open fan-out WebSocket: an upgrade in `WsActive`, or a tunnel that has not ended. -/
def openFanOut (c : FanSlot) : Bool :=
  c.fanOut && match c.phase with
    | .wsActive => true
    | .h2Active => c.tunnel.isSome
    | .h3Tunnel => c.h3.any (·.live)
    | _ => false

/-- The test of the three callers of `ws_drain_fanout_input`. -/
def mayDrain (c : FanSlot) : Bool :=
  c.openFanOut && (c.phase = .h3Tunnel || c.unsent = [])

/-- `needs_replay` of an upgrade in `WsActive`, with nothing left to send. -/
def mayReplay (c : FanSlot) : Bool :=
  c.phase = .wsActive && c.fanOut && !c.replayDone && c.frag.isNone && c.unsent = []

end FanSlot

/-- What carries a frame of the slot: its own bytes, DATA on an h2 stream, or an h3 stream. -/
inductive Carrier where
  | h1
  | h2 (stream : UInt32)
  | h3
deriving DecidableEq

def FanSlot.carrier (c : FanSlot) : Carrier :=
  match c.phase with
  | .h3Tunnel => .h3
  | .h2Active => .h2 c.wsStreamId
  | _ => .h1

def FRAME_HEADER_LEN : Nat := 9
def H3_SEND_BUF : Nat := 2048
def TUNNEL_FRAME_MAX : Nat := H3_SEND_BUF - 24

/-- `write_data_frame_header`, without END_STREAM. -/
def writeDataFrameHeader (n : Nat) (stream : UInt32) : Bytes :=
  [UInt8.ofNat (n / 65536), UInt8.ofNat (n / 256), UInt8.ofNat n, 0, 0] ++
    Bytes.be32 (stream &&& 0x7FFFFFFF)

/-- A varint of at most two bytes, as a frame that fits `H3_SEND_BUF` has. -/
def varint (n : Nat) : Bytes :=
  if n < 64 then [UInt8.ofNat n] else Bytes.be16 (UInt16.ofNat (0x4000 + n))

/-- `tunnel_queue_frame`: a frame that does not fit is dropped. -/
def H3Stream.queueFrame (st : H3Stream) (fin : Bool) (opcode : UInt8) (payload : Bytes) : H3Stream :=
  let frame := writeFrameFin H3_SEND_BUF fin opcode payload
  let data := 0 :: varint frame.length ++ frame
  if payload.length > TUNNEL_FRAME_MAX || frame = [] || st.sendBuf.length + data.length > H3_SEND_BUF then st
  else { st with sendBuf := st.sendBuf ++ data }

namespace FanSlot

/-- `ws_queue_frame_fin`. -/
def queueFrame (p : Profile) (c : FanSlot) (fin : Bool) (opcode : UInt8) (payload : Bytes) : FanSlot :=
  match c.carrier with
  | .h3 => { c with h3 := c.h3.map (·.queueFrame fin opcode payload) }
  | .h2 stream =>
    let frame := writeFrameFin (p.sendBufSize - FRAME_HEADER_LEN) fin opcode payload
    { c with unsent := writeDataFrameHeader frame.length stream ++ frame }
  | .h1 => { c with unsent := writeFrameFin p.sendBufSize fin opcode payload }

/-- `ws_frag_max_chunk`. -/
def fragMaxChunk (p : Profile) (c : FanSlot) : Nat :=
  match c.carrier with
  | .h3 => TUNNEL_FRAME_MAX
  | .h2 _ => p.sendBufSize - WS_FRAG_HDR_RESERVE - FRAME_HEADER_LEN
  | .h1 => p.sendBufSize - WS_FRAG_HDR_RESERVE

/-- `target_send_busy`. -/
def sendBusy (c : FanSlot) : Bool :=
  !c.unsent.isEmpty || c.frag.isSome ||
    (c.phase = .h3Tunnel && c.h3.any fun st => st.sendOff < st.sendBuf.length)

/-- `envelope_admitted`: one worker speaks for a session. -/
def admits (c : FanSlot) (w : Nat) : Bool :=
  if c.scPhase = .none then w = 0
  else c.scWorker = w && c.scPhase ≠ .attachWait && c.scPhase ≠ .attachPending

/-- `ws_queue_envelope_on_active`, with the buffer a large payload needs. -/
def queueEnvelope (p : Profile) (c : FanSlot) (e : Envelope) (conns : List UInt32) (replayed : Bool) : FanSlot :=
  let r := envelopeFrame (c.fragMaxChunk p) e
  { c.queueFrame p r.1.1 e.opcode r.1.2 with frag := r.2, fragConns := conns, fragReplayed := replayed }

end FanSlot

/-! ## Routing -/

structure FanServer where
  slots : List FanSlot
  /-- `retained_buf` up to `retained_used`. The id on the envelope a byte came with is not kept. -/
  retained : List (UInt8 × UInt32) := []
  retainedCap : Nat := 0
  /-- Some route is a `HANDLER_WEBSOCKET_FANOUT`. -/
  replayRoute : Bool := false
  /-- The data port of each worker, `ws_in` first. -/
  workers : List (List Bytes)
  latestFanoutSlot : Option Nat := none
  multiClient : Bool := false

namespace FanServer

def slot (s : FanServer) (i : Nat) : FanSlot := s.slots.getD i {}

def setSlot (s : FanServer) (i : Nat) (c : FanSlot) : FanServer := { s with slots := s.slots.set i c }

def findSlotByConnId (s : FanServer) (conn : UInt16) : Option Nat :=
  s.slots.findIdx? fun c => c.connId = some conn

def isLiveFanout (s : FanServer) (i : Nat) : Bool := (s.slot i).connId.isSome && (s.slot i).fanOut

def findSentinelWsFanoutSlot (s : FanServer) : Option Nat :=
  let latest := if s.multiClient then none else s.latestFanoutSlot
  match latest.filter fun i => i < s.slots.length && s.isLiveFanout i with
  | some i => some i
  | none =>
    match (List.range s.slots.length).filter s.isLiveFanout with
    | [i] => some i
    | _ => none

def targetOf (s : FanServer) (conn : UInt32) : Option Nat :=
  if conn = CONN_UNCLAIMED then s.findSentinelWsFanoutSlot else s.findSlotByConnId conn.toUInt16

/-- `retain_capture_envelope`. `retained_idle_ticks` is never counted up, so no gap empties the buffer. -/
def retain (s : FanServer) (e : Envelope) : FanServer :=
  if s.multiClient || s.retainedCap = 0 || e.payload.length > 65535 || !s.replayRoute then s
  else
    let head := [e.opcode, if e.fin then 1 else 0] ++ Bytes.le16 (UInt16.ofNat e.payload.length)
    let cells := (head ++ e.payload).map fun b => (b, e.conn)
    let kept := if s.retained.length + cells.length > s.retainedCap then [] else s.retained
    { s with retained := if cells.length > s.retainedCap then kept else kept ++ cells }

end FanServer

/-- A payload queued: on which slot, how that stood, and the ids on its envelopes. -/
structure Delivery where
  slot : Nat
  target : FanSlot
  conns : List UInt32

/-- The answers of one call: whether a large payload gets its buffer, and whether an envelope is taken back. -/
structure DrainAnswers where
  heap : Bool
  writeBack : Bool

/-- `ws_drain_fanout_from`. -/
def drainFanoutFrom (p : Profile) (a : DrainAnswers) (s : FanServer) (w : Nat) :
    FanServer × Option Delivery :=
  match s.workers.getD w [] with
  | [] => (s, none)
  | record :: rest =>
    let read := { s with workers := s.workers.set w rest }
    match parseEnvelope record with
    | none => (read, none)
    | some e =>
      match s.targetOf e.conn with
      | none => (read, none)
      | some i =>
        if !(s.slot i).admits w then (read, none)
        else if (s.slot i).sendBusy then (if a.writeBack then s else read, none)
        else if e.payload.length > (s.slot i).fragMaxChunk p && !a.heap then (read, none)
        else
          ((read.setSlot i ((s.slot i).queueEnvelope p e [e.conn] false)).retain e,
            some { slot := i, target := s.slot i, conns := [e.conn] })

def drainWorkers (p : Profile) (a : DrainAnswers) : List Nat → FanServer → FanServer × List Delivery
  | [], s => (s, [])
  | w :: ws, s =>
    match drainFanoutFrom p a s w with
    | (s', some d) => (s', [d])
    | (s', none) => drainWorkers p a ws s'

/-- `ws_emit_next_fragment`. -/
def emitNextFragment (p : Profile) (s : FanServer) (cur : Nat) (f : Fragment) :
    FanServer × List Delivery :=
  let c := s.slot cur
  match nextFragment (c.fragMaxChunk p) f with
  | none => (s, [])
  | some ((fin, chunk), rest) =>
    (s.setSlot cur { c.queueFrame p fin WS_OP_CONTINUATION chunk with frag := rest },
      [{ slot := cur, target := c, conns := c.fragConns }])

/-- `ws_drain_fanout_input`. -/
def drainFanoutInput (p : Profile) (a : DrainAnswers) (s : FanServer) (cur : Nat) :
    FanServer × List Delivery :=
  match (s.slot cur).frag with
  | some f => emitNextFragment p s cur f
  | none => drainWorkers p a (List.range s.workers.length) s

def RETAINED_ENVELOPE_HDR : Nat := 4

/-- The retention replay of `WsActive`: the envelope at the slot's offset, or what stands there by now. -/
def replayRetained (p : Profile) (s : FanServer) (cur : Nat) (heap : Bool) : FanServer :=
  let c := s.slot cur
  let c := if c.replayStarted then c else { c with replayTarget := s.retained.length, replayStarted := true }
  if c.replayOffset ≥ c.replayTarget ∨ s.retained.length < c.replayTarget then
    s.setSlot cur { c with replayDone := true }
  else
    match s.retained.drop c.replayOffset with
    | (opcode, _) :: (fin, _) :: (n0, _) :: (n1, _) :: rest =>
      let len := (Bytes.u16le n0 n1).toNat
      let next := c.replayOffset + RETAINED_ENVELOPE_HDR + len
      let payload := rest.take len
      if c.replayOffset + RETAINED_ENVELOPE_HDR > c.replayTarget then s.setSlot cur c
      else if next > c.replayTarget || (len > c.fragMaxChunk p && !heap) then
        s.setSlot cur { c with replayDone := true }
      else
        let e : Envelope :=
          { conn := CONN_UNCLAIMED, opcode := opcode, fin := fin ≠ 0, payload := payload.map Prod.fst }
        s.setSlot cur { c.queueEnvelope p e (payload.map Prod.snd) true with replayOffset := next }
    | _ => s.setSlot cur c

inductive FanEvent where
  /-- A connection takes slot `i`. -/
  | open (i : Nat) (conn : UInt16)
  /-- Slot `i` is released. -/
  | close (i : Nat)
  /-- The rest of the server moves slot `i`. It never names the connection, starts a fragment or moves the replay. -/
  | serve (i : Nat) (c : FanSlot)
  | stamp (i : Nat)
  /-- Worker `w` writes a record. -/
  | write (w : Nat) (record : Bytes)
  /-- Slot `cur` is sent what is retained. -/
  | replay (cur : Nat) (heap : Bool)
  /-- Slot `cur` drains the ports. -/
  | drain (cur : Nat) (answers : DrainAnswers)

def fanStep (p : Profile) (s : FanServer) : FanEvent → FanServer × List Delivery
  | .open i conn =>
    (if (s.slot i).connId = none then s.setSlot i { connId := some conn, phase := .recvRequest } else s, [])
  | .close i =>
    ({ s.setSlot i {} with
      latestFanoutSlot := if s.latestFanoutSlot = some i then none else s.latestFanoutSlot }, [])
  | .serve i c =>
    (s.setSlot i
      { c with
        connId := (s.slot i).connId, frag := (s.slot i).frag, fragConns := (s.slot i).fragConns
        fragReplayed := (s.slot i).fragReplayed, replayOffset := (s.slot i).replayOffset
        replayTarget := (s.slot i).replayTarget, replayStarted := (s.slot i).replayStarted || c.replayStarted
        replayDone := (s.slot i).replayDone || c.replayDone }, [])
  | .stamp i => ({ s with latestFanoutSlot := some i }, [])
  | .write w record => ({ s with workers := s.workers.set w (s.workers.getD w [] ++ [record]) }, [])
  | .replay cur heap =>
    -- A connection that a newer one has displaced closes instead.
    (if (s.slot cur).mayReplay && !s.multiClient && s.retainedCap ≠ 0 && s.latestFanoutSlot.all (· = cur) then
      replayRetained p s cur heap
    else s, [])
  | .drain cur answers => if (s.slot cur).mayDrain then drainFanoutInput p answers s cur else (s, [])

def fanMachine (p : Profile) : Machine FanServer FanEvent Delivery where
  step := fanStep p

def FanServer.init (slots workers : Nat) (multiClient replayRoute : Bool) (retainedCap : Nat) : FanServer where
  slots := List.replicate slots {}
  workers := List.replicate workers []
  multiClient := multiClient
  replayRoute := replayRoute
  retainedCap := retainedCap

/-- The slot's connection is the one that the ids name. -/
def FanSlot.Owns (c : FanSlot) (conns : List UInt32) : Prop := ∀ n ∈ conns, c.connId.map (·.toUInt32) = some n

/-- The payload went onto an open fan-out WebSocket of the connection its envelope names, and
not onto stream 0. -/
structure Delivery.Proper (d : Delivery) : Prop where
  isOpen : d.target.openFanOut = true
  conn : d.target.Owns d.conns
  stream : ∀ n, d.target.carrier = .h2 n → n ≠ 0

/-- The envelope at the head of worker `w`'s port and its slot, when that takes it. -/
def FanServer.taken (p : Profile) (s : FanServer) (a : DrainAnswers) (w : Nat) : Option (Envelope × Nat) :=
  match (s.workers.getD w []).head?.bind parseEnvelope with
  | none => none
  | some e =>
    match s.targetOf e.conn with
    | none => none
    | some i =>
      if (s.slot i).admits w && !(s.slot i).sendBusy &&
          (e.payload.length ≤ (s.slot i).fragMaxChunk p || a.heap) then some (e, i)
      else none

/-- The envelope names a connection, in its low half, and the slot of that id is an open
fan-out WebSocket. -/
def FanServer.Names (s : FanServer) (e : Envelope) (i : Nat) : Prop :=
  e.conn ≠ CONN_UNCLAIMED ∧ e.conn.toNat < 65536 ∧ (s.slot i).openFanOut = true

/-- The envelope taken names its slot, or the fragment in flight was not retained for another connection. -/
def DrainOk (p : Profile) (s : FanServer) : FanEvent → Prop
  | .drain cur a =>
    (s.slot cur).mayDrain = true →
      match (s.slot cur).frag with
      | none => ∀ x ∈ (List.range s.workers.length).findSome? (s.taken p a), s.Names x.1 x.2
      | some f =>
        (s.slot cur).fragReplayed = true → (nextFragment ((s.slot cur).fragMaxChunk p) f).isSome = true →
          (s.slot cur).Owns (s.slot cur).fragConns
  | _ => True

/-! ## What a drain does -/

theorem taken_eq_some {x : Envelope × Nat} (h : s.taken p a w = some x) :
    ∃ record rest, s.workers.getD w [] = record :: rest ∧ parseEnvelope record = some x.1 ∧
      s.targetOf x.1.conn = some x.2 ∧ (s.slot x.2).admits w = true ∧ (s.slot x.2).sendBusy = false ∧
      (x.1.payload.length ≤ (s.slot x.2).fragMaxChunk p ∨ a.heap = true) := by
  unfold FanServer.taken at h
  cases hport : s.workers.getD w [] with
  | nil =>
    rw [hport] at h
    cases h
  | cons record rest =>
    simp only [hport, List.head?_cons, bind_some] at h
    cases hparse : parseEnvelope record with
    | none =>
      rw [hparse] at h
      cases h
    | some e =>
      simp only [hparse] at h
      cases htarget : s.targetOf e.conn with
      | none =>
        rw [htarget] at h
        cases h
      | some i =>
        simp only [htarget, Option.ite_none_right_eq_some, Option.some.injEq, and_eq_true,
          Bool.not_eq_true', or_eq_true, decide_eq_true_eq] at h
        obtain ⟨⟨⟨hadmits, hbusy⟩, hroom⟩, rfl⟩ := h
        exact ⟨record, rest, rfl, hparse, htarget, hadmits, hbusy, hroom⟩

@[simp] theorem retain_slots (s : FanServer) (e : Envelope) : (s.retain e).slots = s.slots := by
  unfold FanServer.retain
  split <;> rfl

theorem drainFanoutFrom_taken {x : Envelope × Nat} (h : s.taken p a w = some x) :
    (drainFanoutFrom p a s w).1.slots = s.slots.set x.2 ((s.slot x.2).queueEnvelope p x.1 [x.1.conn] false) ∧
      (drainFanoutFrom p a s w).2 = some { slot := x.2, target := s.slot x.2, conns := [x.1.conn] } := by
  obtain ⟨record, rest, hport, hparse, htarget, hadmits, hbusy, hroom⟩ := taken_eq_some h
  have hfits : (decide (x.1.payload.length > (s.slot x.2).fragMaxChunk p) && !a.heap) = false := by
    rcases hroom with hle | hheap
    · simp [Nat.not_lt.mpr hle]
    · simp [hheap]
  simp only [drainFanoutFrom, hport, hparse, htarget, hadmits, hbusy, hfits, Bool.not_true,
    false_eq_true, if_false, retain_slots, FanServer.setSlot, and_self]

structure SameRouting (s s' : FanServer) (ws : List Nat) : Prop where
  slots : s'.slots = s.slots
  latest : s'.latestFanoutSlot = s.latestFanoutSlot
  multiClient : s'.multiClient = s.multiClient
  ports : ∀ w ∈ ws, s'.workers.getD w [] = s.workers.getD w []

theorem SameRouting.taken {s s' : FanServer} (h : SameRouting s s' ws) (p : Profile) (a : DrainAnswers) (hw : w ∈ ws) : s'.taken p a w = s.taken p a w := by
  have hslot : ∀ i, s'.slot i = s.slot i := fun i => by unfold FanServer.slot; rw [h.slots]
  have hlive : s'.isLiveFanout = s.isLiveFanout :=
    funext fun i => by unfold FanServer.isLiveFanout; rw [hslot]
  have htarget : ∀ conn, s'.targetOf conn = s.targetOf conn := by
    intro conn
    simp only [FanServer.targetOf, FanServer.findSentinelWsFanoutSlot, FanServer.findSlotByConnId, hlive,
      h.slots, h.latest, h.multiClient]
  simp only [FanServer.taken, h.ports w hw, htarget, hslot]

theorem drainFanoutFrom_passed (h : s.taken p a w = none) (hw : w ∉ ws) :
    (drainFanoutFrom p a s w).2 = none ∧ SameRouting s (drainFanoutFrom p a s w).1 ws := by
  have hsame : SameRouting s s ws := ⟨rfl, rfl, rfl, fun _ _ => rfl⟩
  have hread : ∀ rest, SameRouting s { s with workers := s.workers.set w rest } ws := fun rest =>
    ⟨rfl, rfl, rfl, fun v hv => Table.getD_set_ne fun hvw => hw (hvw ▸ hv)⟩
  unfold FanServer.taken at h
  unfold drainFanoutFrom
  cases hport : s.workers.getD w [] with
  | nil => exact ⟨rfl, hsame⟩
  | cons record rest =>
    simp only [hport, List.head?_cons, bind_some] at h
    cases hparse : parseEnvelope record with
    | none => simpa only [hparse] using ⟨trivial, hread rest⟩
    | some e =>
      simp only [hparse] at h ⊢
      cases htarget : s.targetOf e.conn with
      | none => exact ⟨rfl, hread rest⟩
      | some i =>
        simp only [htarget] at h ⊢
        split_ifs with hadmits hbusy hback hroom
        · exact ⟨rfl, hread rest⟩
        · exact ⟨rfl, hsame⟩
        · exact ⟨rfl, hread rest⟩
        · exact ⟨rfl, hread rest⟩
        · simp_all

theorem drainWorkers_cons (p : Profile) (a : DrainAnswers) (s : FanServer) (w : Nat) (ws : List Nat) :
    drainWorkers p a (w :: ws) s =
      match (drainFanoutFrom p a s w).2 with
      | some d => ((drainFanoutFrom p a s w).1, [d])
      | none => drainWorkers p a ws (drainFanoutFrom p a s w).1 := by
  rw [drainWorkers]
  rcases drainFanoutFrom p a s w with ⟨s', _ | d⟩ <;> rfl

/-- The first envelope that is taken, and no other, is queued; no other port and no slot changes. -/
theorem drainWorkers_spec (p : Profile) (a : DrainAnswers) {s s' : FanServer}
    (hsame : SameRouting s s' ws) (hws : ws.Nodup) :
    (drainWorkers p a ws s').1.slots =
        (match ws.findSome? (s.taken p a) with
        | none => s.slots
        | some x => s.slots.set x.2 ((s.slot x.2).queueEnvelope p x.1 [x.1.conn] false)) ∧
      (drainWorkers p a ws s').2 =
        (ws.findSome? (s.taken p a)).toList.map fun x =>
          { slot := x.2, target := s.slot x.2, conns := [x.1.conn] } := by
  induction ws generalizing s' with
  | nil => exact ⟨hsame.slots, rfl⟩
  | cons w ws ih =>
    obtain ⟨hw, hws⟩ := List.nodup_cons.mp hws
    have htaken := hsame.taken p a mem_cons_self
    have hslot : ∀ i, s'.slot i = s.slot i := fun i => by unfold FanServer.slot; rw [hsame.slots]
    rw [drainWorkers_cons, List.findSome?_cons, ← htaken]
    cases hx : s'.taken p a w with
    | some x =>
      obtain ⟨hslots, hlog⟩ := drainFanoutFrom_taken hx
      rw [hslot, hsame.slots] at hslots
      rw [hslot] at hlog
      rw [hlog]
      exact ⟨hslots, rfl⟩
    | none =>
      obtain ⟨hlog, hnext⟩ := drainFanoutFrom_passed hx hw
      rw [hlog]
      refine ih ⟨hnext.slots.trans hsame.slots, hnext.latest.trans hsame.latest,
        hnext.multiClient.trans hsame.multiClient, fun v hv => ?_⟩ hws
      exact (hnext.ports v hv).trans (hsame.ports v (mem_cons_of_mem _ hv))

/-! ## The invariant -/

/-- Fragments that did not come out of the retention buffer are the slot's own. -/
def FragOk (c : FanSlot) : Prop := c.frag.isSome = true → c.fragReplayed = false → c.Owns c.fragConns

theorem fragOk_of_none {c : FanSlot} (h : c.frag = none) : FragOk c := by
  intro hsome
  rw [h] at hsome
  cases hsome

def FanInv (s : FanServer) : Prop := ∀ i, FragOk (s.slot i)

theorem FanInv.setSlot (h : FanInv s) (i : Nat) {c : FanSlot} (hc : FragOk c) :
    FanInv (s.setSlot i c) := by
  intro j
  unfold FanServer.setSlot FanServer.slot
  obtain ⟨-, heq⟩ | heq := Table.getD_set_cases s.slots i j c {}
  · rw [heq]
    exact hc
  · rw [heq]
    exact h j

theorem FanInv.congr {s s' : FanServer} (h : FanInv s) (hslots : s'.slots = s.slots) : FanInv s' := by
  intro i
  unfold FanServer.slot
  rw [hslots]
  exact h i

@[simp] theorem queueFrame_connId (p : Profile) (c : FanSlot) (fin : Bool) (opcode : UInt8)
    (payload : Bytes) : (c.queueFrame p fin opcode payload).connId = c.connId := by
  unfold FanSlot.queueFrame
  split <;> rfl

theorem queueFrame_frag (p : Profile) (c : FanSlot) (fin : Bool) (opcode : UInt8) (payload : Bytes) :
    (c.queueFrame p fin opcode payload).fragConns = c.fragConns ∧
      (c.queueFrame p fin opcode payload).fragReplayed = c.fragReplayed := by
  unfold FanSlot.queueFrame
  split <;> exact ⟨rfl, rfl⟩

theorem stream_ne_zero {c : FanSlot} (h : c.openFanOut = true) (n : UInt32) (hn : c.carrier = .h2 n) :
    n ≠ 0 := by
  cases hphase : c.phase <;> simp only [FanSlot.carrier, hphase] at hn <;> try cases hn
  cases htunnel : c.tunnel with
  | none => simp [FanSlot.openFanOut, hphase, htunnel] at h
  | some t => simpa [FanSlot.wsStreamId, htunnel] using t.nonzero

theorem targetOf_connId {conn : UInt32} {i : Nat} (h : s.targetOf conn = some i) (hconn : conn ≠ CONN_UNCLAIMED) : (s.slot i).connId = some conn.toUInt16 := by
  rw [FanServer.targetOf, if_neg hconn] at h
  obtain ⟨hlt, hid, -⟩ := List.findIdx?_eq_some_iff_getElem.mp h
  unfold FanServer.slot
  rw [List.getD_eq_getElem?_getD, List.getElem?_eq_getElem hlt]
  simpa using hid

theorem proper_iff_names {e : Envelope} {i : Nat} (h : s.targetOf e.conn = some i) :
    Delivery.Proper { slot := i, target := s.slot i, conns := [e.conn] } ↔ s.Names e i := by
  constructor
  · rintro ⟨hopen, hconn, -⟩
    replace hconn := hconn e.conn (mem_singleton_self _)
    cases hid : (s.slot i).connId with
    | none =>
      rw [hid] at hconn
      cases hconn
    | some id =>
      rw [hid] at hconn
      have hnat : id.toNat = e.conn.toNat := by
        rw [← UInt16.toNat_toUInt32]
        exact congrArg UInt32.toNat (Option.some.inj hconn)
      have hlt : e.conn.toNat < 65536 := hnat ▸ id.toNat_lt
      refine ⟨fun hun => ?_, hlt, hopen⟩
      rw [hun] at hlt
      exact absurd hlt (by decide)
  · rintro ⟨hun, hlt, hopen⟩
    refine ⟨hopen, fun n hn => ?_, stream_ne_zero hopen⟩
    rw [mem_singleton.mp hn, targetOf_connId h hun]
    have hback : e.conn.toUInt16.toUInt32 = e.conn := by
      apply UInt32.toNat.inj
      rw [UInt16.toNat_toUInt32, UInt32.toNat_toUInt16]
      exact Nat.mod_eq_of_lt hlt
    exact congrArg some hback

theorem queueEnvelope_fragOk {e : Envelope} {i : Nat}
    (h : Delivery.Proper { slot := i, target := s.slot i, conns := [e.conn] }) :
    FragOk ((s.slot i).queueEnvelope p e [e.conn] false) := by
  intro _ _
  unfold FanSlot.queueEnvelope FanSlot.Owns
  simp only [queueFrame_connId]
  exact h.conn

/-- What goes out is proper, and fragments stay with their connection, exactly when the envelope taken names its slot.
-/
theorem drainWorkers_proper (h : FanInv s) :
    ((∀ d ∈ (drainWorkers p a (List.range s.workers.length) s).2, d.Proper) ↔
        ∀ x ∈ (List.range s.workers.length).findSome? (s.taken p a), s.Names x.1 x.2) ∧
      ((∀ x ∈ (List.range s.workers.length).findSome? (s.taken p a), s.Names x.1 x.2) →
        FanInv (drainWorkers p a (List.range s.workers.length) s).1) := by
  have hsame : SameRouting s s (List.range s.workers.length) := ⟨rfl, rfl, rfl, fun _ _ => rfl⟩
  obtain ⟨hslots, hlog⟩ := drainWorkers_spec p a hsame List.nodup_range
  rw [hlog]
  cases hfind : (List.range s.workers.length).findSome? (s.taken p a) with
  | none =>
    rw [hfind] at hslots
    exact ⟨iff_of_true (forall_mem_nil _) fun x hx => absurd hx (Option.not_mem_none x),
      fun _ => h.congr hslots⟩
  | some x =>
    rw [hfind] at hslots
    obtain ⟨w, -, hw⟩ := List.exists_of_findSome?_eq_some hfind
    obtain ⟨-, -, -, -, htarget, -⟩ := taken_eq_some hw
    have hiff := proper_iff_names htarget
    refine ⟨?_, fun hnames => ?_⟩
    · simpa using hiff
    · exact (h.setSlot x.2 (queueEnvelope_fragOk (hiff.mpr (hnames x rfl)))).congr hslots

/-- A continuation is proper exactly when the bytes are the connection's own, which only retained ones may not be. -/
theorem emitNextFragment_proper (h : FanInv s) {cur : Nat} {f : Fragment}
    (hcur : (s.slot cur).mayDrain = true) (hf : (s.slot cur).frag = some f) :
    ((∀ d ∈ (emitNextFragment p s cur f).2, d.Proper) ↔
        ((s.slot cur).fragReplayed = true → (nextFragment ((s.slot cur).fragMaxChunk p) f).isSome = true →
          (s.slot cur).Owns (s.slot cur).fragConns)) ∧
      FanInv (emitNextFragment p s cur f).1 := by
  have hown := h cur (by rw [hf]; rfl)
  have hopen : (s.slot cur).openFanOut = true := by
    unfold FanSlot.mayDrain at hcur
    exact (and_eq_true_iff.mp hcur).1
  unfold emitNextFragment
  dsimp only
  cases hnext : nextFragment ((s.slot cur).fragMaxChunk p) f with
  | none => exact ⟨iff_of_true (forall_mem_nil _) (by simp), h⟩
  | some r =>
    obtain ⟨⟨fin, chunk⟩, rest⟩ := r
    dsimp only
    constructor
    · rw [forall_mem_singleton]
      constructor
      · exact fun hproper _ _ => hproper.conn
      · intro hcond
        refine ⟨hopen, ?_, stream_ne_zero hopen⟩
        cases hre : (s.slot cur).fragReplayed with
        | true => exact hcond hre rfl
        | false => exact hown hre
    · refine h.setSlot cur fun _ hre => ?_
      obtain ⟨hconns, hrep⟩ := queueFrame_frag p (s.slot cur) fin WS_OP_CONTINUATION chunk
      unfold FanSlot.Owns
      dsimp only at hre ⊢
      rw [hrep] at hre
      rw [hconns, queueFrame_connId]
      exact hown hre

theorem FanInv.replay (h : FanInv s) {cur : Nat} (hfrag : (s.slot cur).frag = none) (heap : Bool) :
    FanInv (replayRetained p s cur heap) := by
  have hnone : ∀ c : FanSlot, c.frag = none → FanInv (s.setSlot cur c) := fun c hc => h.setSlot cur (fragOk_of_none hc)
  have hstarted : (if (s.slot cur).replayStarted then s.slot cur else
      { s.slot cur with replayTarget := s.retained.length, replayStarted := true }).frag = none := by
    split <;> exact hfrag
  unfold replayRetained
  dsimp only
  generalize (if (s.slot cur).replayStarted then s.slot cur else
    { s.slot cur with replayTarget := s.retained.length, replayStarted := true }) = c at hstarted ⊢
  split
  · exact hnone _ hstarted
  · split
    · split
      · exact hnone _ hstarted
      · split
        · exact hnone _ hstarted
        · refine h.setSlot cur fun _ hre => ?_
          cases hre
    · exact hnone _ hstarted

theorem fanStep_proper (h : FanInv s) (e : FanEvent) :
    ((∀ d ∈ (fanStep p s e).2, d.Proper) ↔ DrainOk p s e) ∧ (DrainOk p s e → FanInv (fanStep p s e).1) := by
  cases e with
  | «open» i conn =>
    refine ⟨iff_of_true (forall_mem_nil _) trivial, fun _ => ?_⟩
    unfold fanStep
    simp only
    split_ifs
    · exact h.setSlot i (fragOk_of_none rfl)
    · exact h
  | close i => exact ⟨iff_of_true (forall_mem_nil _) trivial, fun _ => (h.setSlot i (fragOk_of_none rfl)).congr rfl⟩
  | serve i c => exact ⟨iff_of_true (forall_mem_nil _) trivial, fun _ => h.setSlot i (h i)⟩
  | stamp i => exact ⟨iff_of_true (forall_mem_nil _) trivial, fun _ => h.congr rfl⟩
  | write w record => exact ⟨iff_of_true (forall_mem_nil _) trivial, fun _ => h.congr rfl⟩
  | replay cur heap =>
    refine ⟨iff_of_true (forall_mem_nil _) trivial, fun _ => ?_⟩
    unfold fanStep
    dsimp only
    split
    next hcur =>
      have hfrag : (s.slot cur).frag = none := by
        simp only [FanSlot.mayReplay, and_eq_true] at hcur
        exact isNone_iff_eq_none.mp hcur.1.1.1.1.2
      exact h.replay hfrag heap
    · exact h
  | drain cur a =>
    rw [fanStep, DrainOk]
    by_cases hcur : (s.slot cur).mayDrain = true
    · rw [if_pos hcur, drainFanoutInput]
      simp only [hcur, forall_const]
      cases hf : (s.slot cur).frag with
      | none => exact drainWorkers_proper h
      | some f =>
        obtain ⟨hproper, hinv⟩ := emitNextFragment_proper (p := p) h hcur hf
        exact ⟨hproper, fun _ => hinv⟩
    · rw [if_neg hcur]
      exact ⟨iff_of_true (forall_mem_nil _) fun hyes => absurd hyes hcur, fun _ => h⟩

theorem fanRun_proper (h : FanInv s) (events : List FanEvent) :
    (∀ d ∈ ((fanMachine p).run s events).2, d.Proper) ↔ (fanMachine p).Along (DrainOk p) s events := by
  induction events generalizing s with
  | nil => exact iff_of_true (forall_mem_nil _) trivial
  | cons e events ih =>
    obtain ⟨hiff, hinv⟩ := fanStep_proper (p := p) h e
    rw [Machine.run_cons, Machine.along_cons, ← hiff]
    constructor
    · intro hall
      have hstep : ∀ d ∈ (fanStep p s e).2, d.Proper := fun d hd => hall d (mem_append_left _ hd)
      exact ⟨hstep, (ih (hinv (hiff.mp hstep))).mp fun d hd => hall d (mem_append_right _ hd)⟩
    · rintro ⟨hstep, hrest⟩ d hd
      rcases mem_append.mp hd with hd | hd
      · exact hstep d hd
      · exact (ih (hinv (hiff.mp hstep))).mpr hrest d hd

theorem FanInv.init (slots workers : Nat) (multiClient replayRoute : Bool) (retainedCap : Nat) :
    FanInv (.init slots workers multiClient replayRoute retainedCap) := by
  intro i
  unfold FanServer.slot
  rw [FanServer.init, List.getD_eq_getElem?_getD, List.getElem?_replicate]
  split_ifs <;> exact fragOk_of_none rfl

def hiEnvelope (conn : UInt32) : Bytes := Bytes.le32 conn ++ [WS_OP_BINARY, 1, 2, 0, 104, 105]

/-- Connection 9 goes, its id comes back with a client that has asked nothing, and connection 7 drains the ports. -/
def reusedConn : List FanEvent :=
  [.open 0 7, .serve 0 { phase := .wsActive, fanOut := true },
    .open 1 9, .serve 1 { phase := .wsActive, fanOut := true }, .write 0 (hiEnvelope 9), .close 1, .open 1 9,
    .drain 0 { heap := true, writeBack := true }]

def endedTunnel : List FanEvent :=
  [.open 0 7, .serve 0 { phase := .wsActive, fanOut := true }, .open 1 9,
    .serve 1 { phase := .h2Active, fanOut := true, tunnel := some { stream := 5, nonzero := by decide } },
    .write 0 (hiEnvelope 9), .serve 1 { phase := .h2Active },
    .drain 0 { heap := true, writeBack := true }]

/-- Connection 9 comes when 7 has gone, and is sent the large envelope that was retained. -/
def retainedForNext : List FanEvent :=
  [.open 0 7, .serve 0 { phase := .wsActive, fanOut := true },
    .write 0 (Bytes.le32 7 ++ [WS_OP_BINARY, 1] ++ Bytes.le16 4097 ++ List.replicate 4097 0),
    .drain 0 { heap := true, writeBack := true }, .close 0, .open 0 9,
    .serve 0 { phase := .wsActive, fanOut := true }, .replay 0 true,
    .serve 0 { phase := .wsActive, fanOut := true }, .drain 0 { heap := true, writeBack := true }]

end Wave.Http.Fanout
