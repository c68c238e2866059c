import Wave.Http.H2Wire
import Wave.Http.H2Recv
import Wave.Http.H2Tunnel
import Mathlib.Data.List.Forall2

/-! # The frame reader of the HTTP/2 server (`http/server/h2.rs`)

What has arrived of an oversized DATA frame is made a frame of its own in place; the rest gets a header. -/

namespace Wave.Http.Split

open Lib Http.H2Wire

variable {done : List Frame}

variable {part : List Call} {word : UInt32}

/-- `split_left`, `split_stream` and `split_flags`, while `split_armed` is set. -/
structure Armed where
  left : Nat
  stream : Nat
  flags : UInt8

structure Call where
  hdr : Header
  payload : Bytes
deriving DecidableEq

structure Reader where
  recvBuf : Bytes := []
  split : Option Armed := none
  conn : Recv.RecvConn
  /-- `split_resume` has queued GOAWAY(INTERNAL_ERROR). -/
  internalError : Bool := false
  /-- What the peer has sent and the network has still to deliver. -/
  incoming : Bytes
  calls : List Call := []

inductive FrameStatus where
  | complete
  | needMore
  | split
  | tooBig
deriving DecidableEq

structure Tick where
  /-- `ws_buf_len` and `ws_fan_out` of the tunnel. -/
  wsBufLen : Nat := 0
  fanOut : Bool := false
  /-- What `heap_alloc` answers if it is asked. -/
  arena : Bool := true
  /-- What a frame that is no DATA does to the streams, and whether it is a connection error. -/
  turns : List Recv.Turn := []
  fails : Bool := false

def Call.data (c : Call) : Recv.Data where
  stream := c.hdr.streamId
  length := c.hdr.length
  pad := if c.hdr.padded then some (c.payload.at0 0).toNat else none
  endStream := c.hdr.endStream

section Reader

variable (R : Recv.Limits) (recvBufSize : Nat)

def peekFrameComplete (buf : Bytes) : FrameStatus :=
  match parseHeader buf with
  | none => .needMore
  | some hdr =>
    if FRAME_HEADER_LEN + hdr.length > recvBufSize then
      if hdr.ftype ≠ FRAME_DATA ∨ hdr.padded then .tooBig
      else if buf.length > FRAME_HEADER_LEN then .split
      else .needMore
    else if FRAME_HEADER_LEN + hdr.length > buf.length then .needMore
    else .complete

def splitData (r : Reader) : Reader :=
  match parseHeader r.recvBuf with
  | none => r
  | some hdr =>
    let piece := r.recvBuf.length - FRAME_HEADER_LEN
    { r with
      recvBuf :=
        be24 piece ++ [r.recvBuf.at0 3, hdr.flags &&& ~~~FLAG_END_STREAM] ++ r.recvBuf.drop 5
      split := some { left := hdr.length - piece, stream := hdr.streamId, flags := hdr.flags } }

def splitResume (r : Reader) : Reader :=
  match r.split with
  | none => r
  | some a =>
    if r.recvBuf.length + FRAME_HEADER_LEN > recvBufSize then
      { r with split := none, internalError := true, conn := r.conn.queueGoaway }
    else
      { r with
        split := none
        recvBuf := head a.left FRAME_DATA a.flags (UInt32.ofNat (a.stream % 2 ^ 31)) ++ r.recvBuf }

/-- `handle_data` leaves a frame to a fan-out tunnel whose buffer cannot take it yet. -/
def defers (conn : Recv.RecvConn) (c : Call) (k : Tick) : Bool :=
  match conn.slotForId c.hdr.streamId with
  | none => false
  | some i =>
    (conn.slot i).kind == .tunnel && decide (k.wsBufLen + c.hdr.length > WsTunnel.WS_BUF_SIZE) && k.fanOut &&
      decide (k.wsBufLen > 0)

def otherTurn (conn : Recv.RecvConn) (t : Recv.Turn) : Recv.RecvConn :=
  match t with
  | .data _ _ => conn
  | t => Recv.turn R conn t

/-- The handler of a frame; `none` when the frame is deferred. A connection error leaves `closing` set. -/
def handle (conn : Recv.RecvConn) (c : Call) (k : Tick) : Option Recv.RecvConn :=
  if c.hdr.ftype = FRAME_DATA then
    if defers conn c k then none else some (Recv.handleData R conn c.data k.arena)
  else
    let conn := k.turns.foldl (otherTurn R) conn
    some (if k.fails then conn.queueGoaway else conn)

def processOneFrame (r : Reader) (k : Tick) : Reader :=
  match parseHeader r.recvBuf with
  | none => r
  | some hdr =>
    let call : Call := { hdr := hdr, payload := (r.recvBuf.drop FRAME_HEADER_LEN).take hdr.length }
    match handle R r.conn call k with
    | none => r
    | some conn =>
      let r := { r with
        conn := conn
        recvBuf := r.recvBuf.drop (FRAME_HEADER_LEN + hdr.length)
        calls := r.calls ++ [call] }
      if conn.closing then r else splitResume recvBufSize r

def readFrame (r : Reader) (k : Tick) : Reader :=
  if r.conn.closing then r
  else
    match peekFrameComplete recvBufSize r.recvBuf with
    | .needMore => r
    | .tooBig => { r with conn := r.conn.queueGoaway }
    | .split => processOneFrame R recvBufSize (splitData r) k
    | .complete => processOneFrame R recvBufSize r k

/-- Up to `n` bytes are routed into `recv_buf`, if it has room for them. -/
def deliver (r : Reader) (n : Nat) : Reader :=
  if r.recvBuf.length + n ≤ recvBufSize then
    { r with recvBuf := r.recvBuf ++ r.incoming.take n, incoming := r.incoming.drop n }
  else r

end Reader

inductive Event where
  | deliver (n : Nat)
  | read (k : Tick)
  | other (t : Recv.Turn)

def turn (R : Recv.Limits) (recvBufSize : Nat) (r : Reader) : Event → Reader
  | .deliver n => deliver recvBufSize r n
  | .read k => readFrame R recvBufSize r k
  | .other t => { r with conn := otherTurn R r.conn t }

def machine (R : Recv.Limits) (recvBufSize : Nat) : Machine Reader Event Empty where
  step r e := (turn R recvBufSize r e, [])

def start (conn : Recv.RecvConn) (frames : List Frame) : Reader where
  conn := conn
  incoming := frames.flatMap Frame.encode

/-- The frames that are taken in pieces: unpadded DATA that `recv_buf` cannot hold. -/
def Oversized (recvBufSize : Nat) (f : Frame) : Prop :=
  f.ftype = FRAME_DATA ∧ f.header.padded = false ∧ recvBufSize < FRAME_HEADER_LEN + f.payload.length

def pieces (f : Frame) (ps : List Bytes) : List Call :=
  ps.map fun p =>
    { hdr := { length := p.length, ftype := f.ftype, flags := f.flags &&& ~~~FLAG_END_STREAM, streamId := f.id }
      payload := p }

def last (f : Frame) (p : Bytes) : Call where
  hdr := { length := p.length, ftype := f.ftype, flags := f.flags, streamId := f.id }
  payload := p

/-- `calls` hand the frame whole: once, or in pieces of which only the last carries END_STREAM. -/
def Handed (recvBufSize : Nat) (f : Frame) (calls : List Call) : Prop :=
  ∃ ps p, ps.flatten ++ p = f.payload ∧ calls = pieces f ps ++ [last f p] ∧
    (ps ≠ [] → Oversized recvBufSize f ∧ p ≠ [])

/-- `calls` hand the front of the first frame of `todo`, in pieces, or nothing. -/
inductive Partly (recvBufSize : Nat) : List Frame → List Call → Prop where
  | nothing (todo : List Frame) : Partly recvBufSize todo []
  | front {f : Frame} {ps : List Bytes} {rest : Bytes} (todo : List Frame) (hf : Oversized recvBufSize f)
      (hpay : ps.flatten ++ rest = f.payload) (hrest : rest ≠ []) : Partly recvBufSize (f :: todo) (pieces f ps)

/-- What a handled frame adds to the record of charges: DATA is charged to its stream and the connection. -/
def charge (c : Call) : List (Nat × Nat) :=
  if c.hdr.ftype = FRAME_DATA ∧ c.hdr.streamId ≠ 0 then [(c.hdr.streamId, c.hdr.length)] else []

/-- The slot of a stream that was refused or reset over its body. -/
def GivenUp (conn conn' : Recv.RecvConn) (i : Nat) : Prop :=
  conn'.slot i = {} ∧
    ∃ m ∈ conn'.out, m = .refused (conn.slot i).id ∨ ∃ e, m = .flowControlError (conn.slot i).id e

/-- DATA of a stream is charged to the connection's window and to that of the stream's slot, and to no other. -/
def Debited (conn : Recv.RecvConn) (c : Call) (conn' : Recv.RecvConn) : Prop :=
  if c.hdr.streamId = 0 then conn'.recvWindow = conn.recvWindow ∧ conn'.slots = conn.slots
  else
    conn'.recvWindow = Recv.satSub conn.recvWindow c.hdr.length ∧
      ∀ i, if conn.slotForId c.hdr.streamId = some i then
          GivenUp conn conn' i ∨ (conn'.slot i).recvWindow = Recv.satSub (conn.slot i).recvWindow c.hdr.length
        else conn'.slot i = conn.slot i

/-- No window is charged: each grows by what its WINDOW_UPDATEs give, unless the slot is given back or taken. -/
structure Undebited (R : Recv.Limits) (conn conn' : Recv.RecvConn) : Prop where
  window : ∃ inc : Nat, conn'.recvWindow = conn.recvWindow + inc ∧
    Recv.updates 0 conn'.out = Recv.updates 0 conn.out + inc
  slots : ∀ i, (conn'.slot i).recvWindow = (conn.slot i).recvWindow ∨ conn'.slot i = {} ∨
    ((conn.slot i).kind = .idle ∧ (conn'.slot i).recvWindow = R.streamWindow) ∨
    ∃ inc left granted : Nat, .windowUpdate (conn.slot i).id inc left granted ∈ conn'.out ∧
      (conn'.slot i).recvWindow = (conn.slot i).recvWindow + inc

structure SameWindows (conn conn' : Recv.RecvConn) : Prop where
  window : conn'.recvWindow = conn.recvWindow
  slots : conn'.slots = conn.slots
  given : Recv.updates 0 conn'.out = Recv.updates 0 conn.out

/-- What one look at `recv_buf` does to the windows. -/
inductive Debits (R : Recv.Limits) (k : Tick) (r r' : Reader) : Prop where
  | nothing (hcalls : r'.calls = r.calls) (hsame : SameWindows r.conn r'.conn)
  | data (c : Call) (hcalls : r'.calls = r.calls ++ [c]) (hdata : c.hdr.ftype = FRAME_DATA)
      (hdebited : Debited r.conn c r'.conn) (hgiven : Recv.updates 0 r'.conn.out = Recv.updates 0 r.conn.out)
  | other (c : Call) (hcalls : r'.calls = r.calls ++ [c]) (hother : c.hdr.ftype ≠ FRAME_DATA)
      (hsame : SameWindows (k.turns.foldl (otherTurn R) r.conn) r'.conn)

def handedOn (s : Nat) (c : Call) : Bytes :=
  if c.hdr.ftype = FRAME_DATA ∧ c.hdr.streamId = s then c.payload else []

def endsOn (s : Nat) (c : Call) : Bool :=
  decide (c.hdr.ftype = FRAME_DATA ∧ c.hdr.streamId = s) && c.hdr.endStream

def whole (f : Frame) : Call := last f f.payload

/-! ### Charges -/

section Charges

variable {R : Recv.Limits} {N : Nat} {r : Reader}

theorem takeBody_arrived (conn : Recv.RecvConn) (i : Nat) (d : Recv.Data) (arena : Bool) :
    (Recv.takeBody conn i d arena).1.arrived = conn.arrived := by
  unfold Recv.takeBody
  cases d.bodyLen with
  | none => rfl
  | some n =>
    dsimp only
    split
    · rfl
    · split
      · rfl
      · split
        · split <;> rfl
        · rfl

theorem markEnd_arrived (conn : Recv.RecvConn) (i : Nat) (d : Recv.Data) :
    (Recv.markEnd conn i d).arrived = conn.arrived := by
  unfold Recv.markEnd
  split <;> rfl

theorem handleData_arrived (conn : Recv.RecvConn) (d : Recv.Data) (arena : Bool) :
    (Recv.handleData R conn d arena).arrived =
      conn.arrived ++ if d.stream = 0 then [] else [(d.stream, d.length)] := by
  unfold Recv.handleData
  by_cases h0 : d.stream = 0
  · rw [if_pos h0, if_pos h0, append_nil]
    rfl
  · rw [if_neg h0, if_neg h0]
    cases conn.slotForId d.stream with
    | none =>
      dsimp only
      split <;> rfl
    | some i =>
      dsimp only
      split
      · rfl
      · split
        · rw [markEnd_arrived]
          rfl
        · split
          · rw [markEnd_arrived, takeBody_arrived]
            rfl
          · rw [takeBody_arrived]
            rfl

theorem otherTurn_arrived (conn : Recv.RecvConn) (t : Recv.Turn) : (otherTurn R conn t).arrived = conn.arrived := by
  unfold otherTurn
  cases t with
  | data d arena => rfl
  | settings => dsimp only [Recv.turn]; split <;> rfl
  | headers f =>
    dsimp only [Recv.turn, Recv.handleHeaders]
    split
    · rfl
    · split
      · rfl
      · split
        · rfl
        · split
          · rfl
          · rfl
          · split <;> rfl
  | forward i credit bodyMax accepted =>
    dsimp only [Recv.turn, Recv.forwardRx]
    split
    · rfl
    · split <;> rfl
  | rearm => dsimp only [Recv.turn]; split <;> rfl
  | windowUpdate =>
    dsimp only [Recv.turn, Recv.queueWindowUpdate]
    split
    · rfl
    · split
      · split <;> rfl
      · split
        · rfl
        · split <;> rfl
  | free i => dsimp only [Recv.turn]; split <;> rfl

theorem foldl_otherTurn_arrived (turns : List Recv.Turn) (conn : Recv.RecvConn) :
    (turns.foldl (otherTurn R) conn).arrived = conn.arrived := by
  induction turns generalizing conn with
  | nil => rfl
  | cons t turns ih => rw [foldl_cons, ih, otherTurn_arrived]

theorem handle_arrived {conn conn' : Recv.RecvConn} {c : Call} {k : Tick} (h : handle R conn c k = some conn') :
    conn'.arrived = conn.arrived ++ charge c := by
  unfold handle at h
  split at h
  next hdata =>
    split at h
    · cases h
    · cases h
      rw [handleData_arrived]
      by_cases h0 : c.hdr.streamId = 0 <;> simp [charge, Call.data, hdata, h0]
  next hdata =>
    cases h
    have harr : charge c = [] := if_neg fun hc => hdata hc.1
    rw [harr, append_nil]
    split
    · exact foldl_otherTurn_arrived k.turns conn
    · exact foldl_otherTurn_arrived k.turns conn

theorem splitResume_calls (r : Reader) :
    (splitResume N r).calls = r.calls ∧ (splitResume N r).conn.arrived = r.conn.arrived := by
  unfold splitResume
  split
  · exact ⟨rfl, rfl⟩
  · split
    · exact ⟨rfl, rfl⟩
    · exact ⟨rfl, rfl⟩

def Charged (arrived : List (Nat × Nat)) (r : Reader) : Prop :=
  r.conn.arrived = arrived ++ r.calls.flatMap charge

theorem Charged.processOneFrame {a : List (Nat × Nat)} (h : Charged a r) (k : Tick) :
    Charged a (processOneFrame R N r k) := by
  unfold Split.processOneFrame
  cases parseHeader r.recvBuf with
  | none => exact h
  | some hdr =>
    dsimp only
    split
    · exact h
    next conn hconn =>
      generalize Call.mk hdr ((r.recvBuf.drop FRAME_HEADER_LEN).take hdr.length) = c at hconn ⊢
      have hcalls : conn.arrived = a ++ (r.calls ++ [c]).flatMap charge := by
        rw [handle_arrived hconn, h, flatMap_append, append_assoc, flatMap_singleton]
      split
      · exact hcalls
      · unfold Charged
        rw [(splitResume_calls _).1, (splitResume_calls _).2]
        exact hcalls

theorem splitData_conn (r : Reader) :
    (splitData r).conn = r.conn ∧ (splitData r).calls = r.calls ∧ (splitData r).incoming = r.incoming ∧
      (splitData r).internalError = r.internalError := by
  unfold splitData
  split <;> exact ⟨rfl, rfl, rfl, rfl⟩

theorem Charged.turn {a : List (Nat × Nat)} (h : Charged a r) (e : Event) : Charged a (turn R N r e) := by
  cases e with
  | deliver n =>
    unfold Split.turn deliver
    dsimp only
    split <;> exact h
  | other t => exact (otherTurn_arrived r.conn t).trans h
  | read k =>
    unfold Split.turn readFrame
    dsimp only
    split
    · exact h
    · split
      · exact h
      · exact h
      · apply Charged.processOneFrame
        unfold Charged
        rw [(splitData_conn r).1, (splitData_conn r).2.1]
        exact h
      · exact h.processOneFrame k

end Charges

/-! ### Windows -/

section Windows

variable {R : Recv.Limits} {N i : Nat} {r : Reader} {conn : Recv.RecvConn}

theorem slot_setSlot_ne {j : Nat} (x : Recv.RecvSlot) (h : j ≠ i) : (conn.setSlot i x).slot j = conn.slot j :=
  Recv.slot_setSlot_ne h

theorem takeBody_windows (hi : i < conn.slots.length) (d : Recv.Data) (arena : Bool) :
    let r := Recv.takeBody conn i d arena
    r.1.recvWindow = conn.recvWindow ∧ r.1.slots.length = conn.slots.length ∧ (∀ j, j ≠ i → r.1.slot j = conn.slot j) ∧
      ((r.2 = false ∧ GivenUp conn r.1 i) ∨ (r.1.slot i).recvWindow = (conn.slot i).recvWindow) := by
  have hlen : ∀ x, (conn.slots.set i x).length = conn.slots.length := fun x => length_set
  have hkept : ∀ {n : Nat} {x : Recv.RecvSlot}, x.recvWindow = (conn.slot i).recvWindow →
      (((conn.leave n).setSlot i x).slot i).recvWindow = (conn.slot i).recvWindow := fun hx => by
    rw [Recv.slot_setSlot_self (by exact hi), hx]
  have hgone : ∀ {n : Nat} {m : Recv.ServerMsg},
      (m = .refused (conn.slot i).id ∨ ∃ e, m = .flowControlError (conn.slot i).id e) →
        GivenUp conn (((conn.leave n).freeSlot i).send m) i := fun hm =>
    ⟨Recv.slot_setSlot_self (by exact hi), _, mem_append_right _ (mem_singleton_self _), hm⟩
  unfold Recv.takeBody
  cases d.bodyLen with
  | none => exact ⟨rfl, hlen _, fun j hj => slot_setSlot_ne _ hj, .inr (hkept rfl)⟩
  | some n =>
    dsimp only
    split
    · exact ⟨rfl, hlen _, fun j hj => slot_setSlot_ne _ hj, .inr (hkept rfl)⟩
    · split
      · exact ⟨rfl, hlen _, fun j hj => slot_setSlot_ne _ hj, .inl ⟨rfl, hgone (.inl rfl)⟩⟩
      · split
        · split
          next s' hs' =>
            obtain ⟨cap, rfl⟩ := Recv.appendRx_ok hs'
            exact ⟨rfl, hlen _, fun j hj => slot_setSlot_ne _ hj, .inr (hkept rfl)⟩
          · exact ⟨rfl, hlen _, fun j hj => slot_setSlot_ne _ hj, .inl ⟨rfl, hgone (.inr ⟨_, rfl⟩)⟩⟩
        · exact ⟨rfl, hlen _, fun j hj => slot_setSlot_ne _ hj, .inr (hkept rfl)⟩

theorem markEnd_windows (hi : i < conn.slots.length) (d : Recv.Data) :
    (Recv.markEnd conn i d).recvWindow = conn.recvWindow ∧
      (∀ j, j ≠ i → (Recv.markEnd conn i d).slot j = conn.slot j) ∧
      ((Recv.markEnd conn i d).slot i).recvWindow = (conn.slot i).recvWindow := by
  unfold Recv.markEnd
  split
  · exact ⟨rfl, fun j hj => slot_setSlot_ne _ hj, by rw [Recv.slot_setSlot_self hi]⟩
  · exact ⟨rfl, fun _ _ => rfl, rfl⟩

theorem slotForId_lt {id : Nat} (h : conn.slotForId id = some i) : i < conn.slots.length :=
  Recv.lt_of_kind (Recv.slotForId_some h).2

theorem handleData_debited (conn : Recv.RecvConn) (c : Call) (arena : Bool) :
    Debited conn c (Recv.handleData R conn c.data arena) := by
  unfold Debited Recv.handleData
  by_cases h0 : c.data.stream = 0
  · rw [if_pos (show c.hdr.streamId = 0 from h0), if_pos h0]
    exact ⟨rfl, rfl⟩
  rw [if_neg (show ¬c.hdr.streamId = 0 from h0), if_neg h0]
  change _ = Recv.satSub conn.recvWindow c.data.length ∧ ∀ i, if conn.slotForId c.data.stream = some i then
    GivenUp conn _ i ∨ _ = Recv.satSub (conn.slot i).recvWindow c.data.length else _
  generalize c.data = d
  cases hslot : conn.slotForId d.stream with
  | none =>
    dsimp only
    simp only [reduceCtorEq, if_false]
    split <;> exact ⟨rfl, fun _ => rfl⟩
  | some i =>
    have hi := slotForId_lt hslot
    dsimp only
    generalize hconn : (conn.consumeRecvWindow d.stream d.length).setSlot i ((conn.slot i).consume R d.length) = conn₁
    have hi₁ : i < conn₁.slots.length := by
      rw [← hconn]
      exact hi.trans_eq length_set.symm
    have hwin : conn₁.recvWindow = Recv.satSub conn.recvWindow d.length := by rw [← hconn]; rfl
    have hself : conn₁.slot i = (conn.slot i).consume R d.length := by
      rw [← hconn]
      exact Recv.slot_setSlot_self hi
    have hother : ∀ j, j ≠ i → conn₁.slot j = conn.slot j := fun j hj => by
      rw [← hconn]
      exact slot_setSlot_ne _ hj
    -- Whatever comes of the frame, it touches no other slot, and this one's window only by giving it up.
    have hall : ∀ conn' : Recv.RecvConn, conn'.recvWindow = conn₁.recvWindow →
        (∀ j, j ≠ i → conn'.slot j = conn₁.slot j) →
        (GivenUp conn₁ conn' i ∨ (conn'.slot i).recvWindow = (conn₁.slot i).recvWindow) →
        conn'.recvWindow = Recv.satSub conn.recvWindow d.length ∧ ∀ j, if some i = some j then
          GivenUp conn conn' j ∨ (conn'.slot j).recvWindow = Recv.satSub (conn.slot j).recvWindow d.length
          else conn'.slot j = conn.slot j := by
      intro conn' hw ho hs
      refine ⟨hw.trans hwin, fun j => ?_⟩
      split
      next hj =>
        cases hj
        rcases hs with ⟨hfree, hmsg⟩ | hs
        · rw [hself] at hmsg
          exact .inl ⟨hfree, hmsg⟩
        · rw [hself] at hs
          exact .inr hs
      next hj =>
        have hne : j ≠ i := fun he => hj (by rw [he])
        rw [ho j hne, hother j hne]
    have hmark : ∀ conn' : Recv.RecvConn, i < conn'.slots.length → conn'.recvWindow = conn₁.recvWindow →
        (∀ j, j ≠ i → conn'.slot j = conn₁.slot j) → (conn'.slot i).recvWindow = (conn₁.slot i).recvWindow →
        (Recv.markEnd conn' i d).recvWindow = Recv.satSub conn.recvWindow d.length ∧ ∀ j, if some i = some j then
          GivenUp conn (Recv.markEnd conn' i d) j ∨
            ((Recv.markEnd conn' i d).slot j).recvWindow = Recv.satSub (conn.slot j).recvWindow d.length
          else (Recv.markEnd conn' i d).slot j = conn.slot j := by
      intro conn' hlt hw ho hs
      obtain ⟨hmw, hmo, hms⟩ := markEnd_windows hlt d
      exact hall _ (hmw.trans hw) (fun j hj => (hmo j hj).trans (ho j hj)) (.inr (hms.trans hs))
    split
    · refine hall _ rfl (fun j hj => slot_setSlot_ne _ hj) (.inr ?_)
      rw [Recv.slot_setSlot_self (by exact hi₁), hself]
    · split
      · exact hmark conn₁ hi₁ rfl (fun _ _ => rfl) rfl
      · obtain ⟨hbw, hbl, hbo, hbs⟩ := takeBody_windows hi₁ d arena
        split
        next hgoes =>
          rcases hbs with ⟨hstop, _⟩ | hbs
          · rw [hstop] at hgoes
            cases hgoes
          · exact hmark _ (hi₁.trans_eq hbl.symm) hbw hbo hbs
        · exact hall _ hbw hbo (hbs.imp_left And.right)

theorem takeBody_updates (stream : Nat) (conn : Recv.RecvConn) (i : Nat) (d : Recv.Data) (arena : Bool) :
    Recv.updates stream (Recv.takeBody conn i d arena).1.out = Recv.updates stream conn.out := by
  unfold Recv.takeBody
  cases d.bodyLen with
  | none => exact Recv.updates_send (c := (conn.leave _).setSlot i _) (m := .goaway) rfl stream
  | some n =>
    dsimp only
    split
    · rfl
    · split
      · exact Recv.updates_send (c := (conn.leave _).freeSlot i) (m := .refused _) rfl stream
      · split
        · split
          · rfl
          · exact (Recv.updates_append stream _ _).trans (Nat.add_zero _)
        · rfl

theorem handleData_updates (stream : Nat) (conn : Recv.RecvConn) (d : Recv.Data) (arena : Bool) :
    Recv.updates stream (Recv.handleData R conn d arena).out = Recv.updates stream conn.out := by
  have hmark : ∀ (c : Recv.RecvConn) i, (Recv.markEnd c i d).out = c.out := by
    intro c i
    unfold Recv.markEnd
    split <;> rfl
  unfold Recv.handleData
  split
  · exact Recv.updates_send (m := .goaway) rfl stream
  · cases conn.slotForId d.stream with
    | none =>
      dsimp only
      split
      · rfl
      · exact Recv.updates_send (c := (conn.consumeRecvWindow _ _).leave _) (m := .streamClosed _) rfl stream
    | some i =>
      dsimp only
      split
      · rfl
      · split
        · rw [hmark]
          rfl
        · split
          · rw [hmark, takeBody_updates]
            rfl
          · rw [takeBody_updates]
            rfl

theorem Undebited.refl (conn : Recv.RecvConn) : Undebited R conn conn :=
  ⟨⟨0, (add_zero _).symm, rfl⟩, fun _ => .inl rfl⟩

theorem Undebited.same {conn' : Recv.RecvConn} (hwindow : conn'.recvWindow = conn.recvWindow)
    (hout : Recv.updates 0 conn'.out = Recv.updates 0 conn.out)
    (hslots : ∀ i, (conn'.slot i).recvWindow = (conn.slot i).recvWindow) : Undebited R conn conn' :=
  ⟨⟨0, by rw [hwindow, Nat.cast_zero, add_zero], by rw [hout, Nat.add_zero]⟩, fun i => .inl (hslots i)⟩

theorem handleHeaders_undebited (conn : Recv.RecvConn) (f : Recv.Headers) :
    Undebited R conn (Recv.handleHeaders R conn f) := by
  unfold Recv.handleHeaders
  split
  · exact Undebited.same rfl (Recv.updates_send rfl 0) fun _ => rfl
  · split
    · exact Undebited.same rfl (Recv.updates_send rfl 0) fun _ => rfl
    next i hi =>
      obtain ⟨hlt, hidle⟩ := Recv.allocSlot_some hi
      have htaken : ∀ {x : Recv.RecvSlot}, x.recvWindow = R.streamWindow → ∀ j,
          ((conn.setSlot i x).slot j).recvWindow = (conn.slot j).recvWindow ∨ (conn.setSlot i x).slot j = {} ∨
            ((conn.slot j).kind = .idle ∧ ((conn.setSlot i x).slot j).recvWindow = R.streamWindow) := by
        intro x hx j
        by_cases hj : j = i
        · rw [hj, Recv.slot_setSlot_self hlt]
          exact .inr (.inr ⟨hidle, hx⟩)
        · exact .inl (by rw [slot_setSlot_ne _ hj])
      dsimp only
      split
      · exact ⟨⟨0, (add_zero _).symm, Recv.updates_send (c := conn.setSlot i _) rfl 0⟩,
          fun j => (htaken rfl j).imp_right (Or.imp_right .inl)⟩
      · exact Undebited.same rfl (Recv.updates_send rfl 0) fun _ => rfl
      · split
        · exact Undebited.same rfl rfl fun _ => rfl
        · exact ⟨⟨0, (add_zero _).symm, rfl⟩, fun j => (htaken rfl j).imp_right (Or.imp_right .inl)⟩

theorem queueWindowUpdate_undebited (conn : Recv.RecvConn) : Undebited R conn (Recv.queueWindowUpdate R conn) := by
  unfold Recv.queueWindowUpdate
  split
  · dsimp only
    split
    next hdelta =>
      refine ⟨⟨_, ?_, (Recv.updates_update 0 _ _ _ _ _).trans (by rw [if_pos rfl])⟩, fun _ => .inl rfl⟩
      exact congrArg (conn.recvWindow + ·) (Int.toNat_of_nonneg hdelta.le).symm
    · exact Undebited.same rfl rfl fun _ => rfl
  · split
    · exact Undebited.refl conn
    next i hi =>
      obtain ⟨hlt, hp⟩ := Recv.findIdx?_slot hi
      have hid : (conn.slot i).id ≠ 0 := by
        simp only [decide_eq_true_eq] at hp
        exact hp.1
      dsimp only
      split
      next hdelta =>
        refine ⟨?_, fun j => ?_⟩
        · exact ⟨0, (add_zero _).symm, (Recv.updates_update 0 _ _ _ _ _).trans (by rw [if_neg hid])⟩
        · by_cases hj : j = i
          · subst hj
            refine .inr (.inr (.inr ⟨_, _, _, mem_append_right _ (mem_singleton_self _), ?_⟩))
            rw [Recv.slot_setSlot_self (by exact hlt)]
            dsimp only
            omega
          · exact .inl (by rw [slot_setSlot_ne _ hj]; rfl)
      · refine Undebited.same rfl rfl fun j => ?_
        by_cases hj : j = i
        · rw [hj, Recv.slot_setSlot_self hlt]
        · rw [slot_setSlot_ne _ hj]

theorem freeSlot_undebited (conn : Recv.RecvConn) (i : Nat) : Undebited R conn (conn.freeSlot i) := by
  refine ⟨⟨0, (add_zero _).symm, rfl⟩, fun j => ?_⟩
  by_cases hj : j = i
  · by_cases hlt : i < conn.slots.length
    · exact .inr (.inl (by rw [hj]; exact Recv.slot_setSlot_self hlt))
    · refine .inl (congrArg Recv.RecvSlot.recvWindow ?_)
      exact congrArg (fun l => List.getD l j {}) (set_eq_of_length_le (Nat.le_of_not_lt hlt))
  · exact .inl (by rw [show (conn.freeSlot i).slot j = conn.slot j from slot_setSlot_ne _ hj])

theorem otherTurn_undebited (conn : Recv.RecvConn) (t : Recv.Turn) : Undebited R conn (otherTurn R conn t) := by
  by_cases hc : conn.closing = true
  · have hsame : otherTurn R conn t = conn := by
      unfold otherTurn
      cases t <;> first | rfl | exact if_pos hc
    rw [hsame]
    exact Undebited.refl conn
  unfold otherTurn
  cases t with
  | data d arena => exact Undebited.refl conn
  | settings =>
    dsimp only [Recv.turn]
    rw [if_neg hc]
    exact Undebited.same rfl (Recv.updates_send rfl 0) fun _ => rfl
  | headers f =>
    dsimp only [Recv.turn]
    rw [if_neg hc]
    exact handleHeaders_undebited conn f
  | forward i credit bodyMax accepted =>
    dsimp only [Recv.turn, Recv.forwardRx]
    rw [if_neg hc]
    split
    next happ =>
      have hlt : i < conn.slots.length := Recv.lt_of_kind (by rw [happ.1]; decide)
      refine Undebited.same rfl rfl fun j => ?_
      by_cases hj : j = i
      · rw [hj, Recv.slot_setSlot_self (by exact hlt)]
      · rw [slot_setSlot_ne _ hj]
        rfl
    · exact Undebited.refl conn
  | rearm =>
    dsimp only [Recv.turn]
    rw [if_neg hc]
    refine Undebited.same rfl rfl fun j => ?_
    unfold Recv.rearmRefills Recv.RecvConn.slot
    simp only [List.getD_eq_getElem?_getD, List.getElem?_map]
    cases conn.slots[j]? <;> rfl
  | windowUpdate =>
    dsimp only [Recv.turn]
    rw [if_neg hc]
    exact queueWindowUpdate_undebited conn
  | free i =>
    dsimp only [Recv.turn]
    rw [if_neg hc]
    exact freeSlot_undebited conn i

theorem foldl_otherTurn_window (turns : List Recv.Turn) (conn : Recv.RecvConn) :
    ∃ inc : Nat, (turns.foldl (otherTurn R) conn).recvWindow = conn.recvWindow + inc ∧
      Recv.updates 0 (turns.foldl (otherTurn R) conn).out = Recv.updates 0 conn.out + inc := by
  induction turns generalizing conn with
  | nil => exact ⟨0, (add_zero _).symm, rfl⟩
  | cons t turns ih =>
    obtain ⟨a, hwin, hout⟩ := (otherTurn_undebited (R := R) conn t).window
    obtain ⟨b, hwin', hout'⟩ := ih (otherTurn R conn t)
    refine ⟨a + b, ?_, ?_⟩
    · rw [foldl_cons, hwin', hwin, Nat.cast_add, add_assoc]
    · rw [foldl_cons, hout', hout, Nat.add_assoc]

theorem SameWindows.goaway (conn : Recv.RecvConn) : SameWindows conn conn.queueGoaway :=
  ⟨rfl, rfl, Recv.updates_send rfl 0⟩

theorem splitResume_windows (r : Reader) :
    SameWindows r.conn (splitResume N r).conn ∧ ∀ m ∈ r.conn.out, m ∈ (splitResume N r).conn.out := by
  unfold splitResume
  split
  · exact ⟨⟨rfl, rfl, rfl⟩, fun _ => id⟩
  · split
    · exact ⟨SameWindows.goaway r.conn, fun _ => mem_append_left _⟩
    · exact ⟨⟨rfl, rfl, rfl⟩, fun _ => id⟩

theorem Debited.congr {conn₁ conn₂ : Recv.RecvConn} {c : Call} (h : Debited conn c conn₁)
    (hsame : SameWindows conn₁ conn₂) (hout : ∀ m ∈ conn₁.out, m ∈ conn₂.out) : Debited conn c conn₂ := by
  have hslot : ∀ i, conn₂.slot i = conn₁.slot i := fun i => congrArg (fun l : List Recv.RecvSlot => l.getD i {}) hsame.slots
  unfold Debited at h ⊢
  split at h
  next h0 =>
    rw [if_pos h0, hsame.window, hsame.slots]
    exact h
  next h0 =>
    rw [if_neg h0, hsame.window]
    refine ⟨h.1, fun i => ?_⟩
    have hi := h.2 i
    split at hi
    next hs =>
      rw [if_pos hs, hslot i]
      refine hi.imp_left fun ⟨hfree, m, hm, hwhy⟩ => ⟨(hslot i).trans hfree, m, hout m hm, hwhy⟩
    next hs =>
      rw [if_neg hs, hslot i]
      exact hi

theorem processOneFrame_debits {r₀ : Reader} (hconn : r.conn = r₀.conn) (hcalls : r.calls = r₀.calls) (k : Tick) :
    Debits R k r₀ (processOneFrame R N r k) := by
  have hstay : Debits R k r₀ r := .nothing hcalls (by rw [hconn]; exact ⟨rfl, rfl, rfl⟩)
  unfold Split.processOneFrame
  cases parseHeader r.recvBuf with
  | none => exact hstay
  | some hdr =>
    dsimp only
    generalize Call.mk hdr ((r.recvBuf.drop FRAME_HEADER_LEN).take hdr.length) = c
    rw [hconn, hcalls]
    -- What the handler leaves behind is not changed by `split_resume`.
    have hdone : ∀ conn, handle R r₀.conn c k = some conn → ∀ r' : Reader, r'.calls = r₀.calls ++ [c] →
        SameWindows conn r'.conn → (∀ m ∈ conn.out, m ∈ r'.conn.out) → Debits R k r₀ r' := by
      intro conn hh r' hc hsame hout
      unfold handle at hh
      split at hh
      next hdata =>
        split at hh
        · cases hh
        · cases hh
          exact .data c hc hdata ((handleData_debited r₀.conn c k.arena).congr hsame hout)
            (hsame.given.trans (handleData_updates 0 r₀.conn c.data k.arena))
      next hother =>
        cases hh
        refine .other c hc hother ?_
        split at hsame
        · have hgo := SameWindows.goaway (k.turns.foldl (otherTurn R) r₀.conn)
          exact ⟨hsame.window.trans hgo.window, hsame.slots.trans hgo.slots, hsame.given.trans hgo.given⟩
        · exact hsame
    split
    · exact hstay
    next conn hh =>
      split
      · exact hdone conn hh _ rfl ⟨rfl, rfl, rfl⟩ fun _ => id
      · obtain ⟨hsame, hout⟩ := splitResume_windows (N := N)
          { r with conn := conn, recvBuf := r.recvBuf.drop (FRAME_HEADER_LEN + hdr.length), calls := r₀.calls ++ [c] }
        exact hdone conn hh _ (splitResume_calls _).1 hsame hout

theorem readFrame_debits (r : Reader) (k : Tick) : Debits R k r (readFrame R N r k) := by
  unfold readFrame
  split
  · exact .nothing rfl ⟨rfl, rfl, rfl⟩
  · split
    · exact .nothing rfl ⟨rfl, rfl, rfl⟩
    · exact .nothing rfl (SameWindows.goaway r.conn)
    · exact processOneFrame_debits (splitData_conn r).1 (splitData_conn r).2.1 k
    · exact processOneFrame_debits rfl rfl k

/-- What the calls so far have charged to the connection, until a window of 32 bits saturates. -/
def Balanced (conn : Recv.RecvConn) (r : Reader) : Prop :=
  Recv.updates 0 conn.out ≤ Recv.updates 0 r.conn.out ∧
    (Recv.sentAll (r.calls.flatMap charge) ≤ conn.recvWindow + 2147483648 →
      r.conn.recvWindow = conn.recvWindow - Recv.sentAll (r.calls.flatMap charge) +
        (Recv.updates 0 r.conn.out - Recv.updates 0 conn.out))

theorem Balanced.raise {r' : Reader} (h : Balanced conn r) (hcharge : r'.calls.flatMap charge = r.calls.flatMap charge)
    (hwindow : ∃ inc : Nat, r'.conn.recvWindow = r.conn.recvWindow + inc ∧
      Recv.updates 0 r'.conn.out = Recv.updates 0 r.conn.out + inc) : Balanced conn r' := by
  obtain ⟨inc, hwin, hout⟩ := hwindow
  refine ⟨h.1.trans (by omega), fun hsum => ?_⟩
  rw [hcharge] at hsum ⊢
  have := h.2 hsum
  omega

theorem Balanced.turn (h : Balanced conn r) (e : Event) : Balanced conn (turn R N r e) := by
  cases e with
  | deliver n =>
    unfold Split.turn deliver
    dsimp only
    split <;> exact h
  | other t => exact h.raise rfl (otherTurn_undebited r.conn t).window
  | read k =>
    change Balanced conn (readFrame R N r k)
    cases readFrame_debits (N := N) r k with
    | nothing hcalls hsame => exact h.raise (by rw [hcalls]) ⟨0, by rw [hsame.window]; simp, hsame.given⟩
    | other c hcalls hother hsame =>
      obtain ⟨inc, hwin, hout⟩ := foldl_otherTurn_window (R := R) k.turns r.conn
      refine h.raise ?_ ⟨inc, hsame.window.trans hwin, hsame.given.trans hout⟩
      rw [hcalls, flatMap_append, flatMap_singleton, charge, if_neg fun hc => hother hc.1, append_nil]
    | data c hcalls hdata hdebited hgiven =>
      by_cases h0 : c.hdr.streamId = 0
      · have hwin : (readFrame R N r k).conn.recvWindow = r.conn.recvWindow := by
          unfold Debited at hdebited
          rw [if_pos h0] at hdebited
          exact hdebited.1
        refine h.raise ?_ ⟨0, by rw [hwin]; simp, hgiven⟩
        rw [hcalls, flatMap_append, flatMap_singleton, charge, if_neg fun hc => hc.2 h0, append_nil]
      · have hwin : (readFrame R N r k).conn.recvWindow = Recv.satSub r.conn.recvWindow c.hdr.length := by
          unfold Debited at hdebited
          rw [if_neg h0] at hdebited
          exact hdebited.1
        have hsum : Recv.sentAll ((readFrame R N r k).calls.flatMap charge) =
            Recv.sentAll (r.calls.flatMap charge) + c.hdr.length := by
          rw [hcalls, flatMap_append, flatMap_singleton, charge, if_pos ⟨hdata, h0⟩, Recv.sentAll_concat]
        refine ⟨h.1.trans_eq hgiven.symm, fun hle => ?_⟩
        rw [hsum] at hle ⊢
        have hbefore := h.2 (by omega)
        have hmore := h.1
        rw [hwin, hgiven, Recv.satSub_eq (by omega)]
        omega

end Windows

/-! ### Where the reader stands -/

section Position

variable {R : Recv.Limits} {N : Nat} {r : Reader} {f g : Frame} {ps : List Bytes} {todo : List Frame}

/-- `g` is the frame that stands for what is left of `f` after the pieces `ps`. -/
structure Rest (N : Nat) (f : Frame) (ps : List Bytes) (g : Frame) : Prop where
  ftype : g.ftype = f.ftype
  flags : g.flags = f.flags
  id : g.id = f.id
  payload : ps.flatten ++ g.payload = f.payload
  oversized : ps ≠ [] → Oversized N f ∧ g.payload ≠ []

/-- The reader before the frames of `todo`, with part of the first handed. -/
inductive Position (N : Nat) (r : Reader) : List Frame → List Call → Prop where
  | finished (hsplit : r.split = none) (hbuf : r.recvBuf ++ r.incoming = []) : Position N r [] []
  /-- What is left of the first frame has a header at the front of `recv_buf`, as far as it has arrived. -/
  | waiting {f g : Frame} {ps : List Bytes} {todo : List Frame} (hrest : Rest N f ps g) (hsplit : r.split = none)
      (hbuf : r.recvBuf ++ r.incoming = g.encode ++ todo.flatMap Frame.encode) :
      Position N r (f :: todo) (pieces f ps)
  /-- A piece `p` of the first frame is at the front of `recv_buf`, deferred, and bytes of the rest have gathered
  behind it. -/
  | armed {f : Frame} {ps : List Bytes} {todo : List Frame} {word : UInt32} {p more rest : Bytes}
      (hf : Oversized N f) (hword : word.toNat % 2 ^ 31 = f.id) (hp : p ≠ []) (hrest : rest ≠ [])
      (hpay : ps.flatten ++ (p ++ rest) = f.payload)
      (hsplit : r.split = some { left := rest.length, stream := f.id, flags := f.flags })
      (hbuf : r.recvBuf = head p.length FRAME_DATA (f.flags &&& ~~~FLAG_END_STREAM) word ++ (p ++ more))
      (hmore : more ++ r.incoming = rest ++ todo.flatMap Frame.encode) : Position N r (f :: todo) (pieces f ps)
  | closed {todo : List Frame} {part : List Call} (hclosing : r.conn.closing = true)
      (hpart : Partly N todo part) : Position N r todo part

theorem Rest.refl (N : Nat) (f : Frame) : Rest N f [] f :=
  ⟨rfl, rfl, rfl, rfl, fun h => absurd rfl h⟩

theorem Rest.partly (h : Rest N f ps g) (todo : List Frame) : Partly N (f :: todo) (pieces f ps) := by
  by_cases hps : ps = []
  · subst hps
    exact Partly.nothing _
  · obtain ⟨hf, hg⟩ := h.oversized hps
    exact Partly.front todo hf h.payload hg

theorem Position.partly (h : Position N r todo part) : Partly N todo part := by
  cases h with
  | finished _ _ => exact Partly.nothing _
  | waiting hrest _ _ => exact hrest.partly _
  | armed hf _ hp hrest hpay _ _ _ => exact Partly.front _ hf hpay (by simp [hp])
  | closed _ hpart => exact hpart

theorem Position.next (hsplit : r.split = none) (hbuf : r.recvBuf ++ r.incoming = todo.flatMap Frame.encode) :
    Position N r todo [] := by
  cases todo with
  | nil => exact Position.finished hsplit hbuf
  | cons f todo => exact Position.waiting (Rest.refl N f) hsplit hbuf

theorem pieces_concat (f : Frame) (ps : List Bytes) (p : Bytes) :
    pieces f ps ++ [{ hdr := { length := p.length, ftype := f.ftype, flags := f.flags &&& ~~~FLAG_END_STREAM,
                               streamId := f.id }, payload := p }] = pieces f (ps ++ [p]) := by
  simp [pieces]

theorem processOneFrame_head {ftype flags : UInt8} {p more : Bytes} (hp : p.length < 2 ^ 24)
    (hbuf : r.recvBuf = head p.length ftype flags word ++ (p ++ more)) (k : Tick) :
    let c : Call := ⟨⟨p.length, ftype, flags, word.toNat % 2 ^ 31⟩, p⟩
    processOneFrame R N r k =
      match handle R r.conn c k with
      | none => r
      | some conn =>
        let r := { r with conn := conn, recvBuf := more, calls := r.calls ++ [c] }
        if conn.closing then r else splitResume N r := by
  have hpay : (r.recvBuf.drop FRAME_HEADER_LEN).take p.length = p := by
    rw [hbuf, List.drop_left' (length_head _ _ _ _), take_left]
  have hmore : r.recvBuf.drop (FRAME_HEADER_LEN + p.length) = more := by
    rw [← drop_drop, hbuf, List.drop_left' (length_head _ _ _ _), drop_left]
  have hparse := parseHeader_head hp ftype flags word (p ++ more)
  rw [← hbuf] at hparse
  dsimp only
  unfold processOneFrame
  rw [hparse]
  dsimp only
  rw [hpay, hmore]

/-- What a step leaves, for the frames of `todo`, of which `part` was handed before: some of them are handed now. -/
def Progress (N : Nat) (r r' : Reader) (todo : List Frame) (part : List Call) : Prop :=
  ∃ done css todo' part', todo = done ++ todo' ∧ List.Forall₂ (Handed N) done css ∧ Position N r' todo' part' ∧
    ∃ new, r'.calls = r.calls ++ new ∧ part ++ new = css.flatten ++ part'

theorem Progress.stay {r' : Reader} (hcalls : r'.calls = r.calls) (h : Position N r' todo part) :
    Progress N r r' todo part :=
  ⟨[], [], todo, part, rfl, List.Forall₂.nil, h, [], by rw [hcalls, append_nil], append_nil part⟩

def restFrame (f : Frame) (ps : List Bytes) (rest : Bytes) (h : ps.flatten ++ rest = f.payload) : Frame where
  ftype := f.ftype
  flags := f.flags
  word := UInt32.ofNat (f.id % 2 ^ 31)
  payload := rest
  short := by
    have hs := f.short
    rw [← h, length_append] at hs
    omega

theorem restFrame_id (f : Frame) (ps : List Bytes) (rest : Bytes) (h : ps.flatten ++ rest = f.payload) :
    (restFrame f ps rest h).id = f.id := by
  change (UInt32.ofNat (f.id % 2 ^ 31)).toNat % 2 ^ 31 = f.id
  have hid : f.id < 2 ^ 31 := Nat.mod_lt _ (by decide)
  rw [UInt32.toNat_ofNat']
  omega

theorem process_armed {p more rest : Bytes} (hlen : r.recvBuf.length ≤ N)
    (hf : Oversized N f) (hword : word.toNat % 2 ^ 31 = f.id) (hp : p ≠ []) (hrest : rest ≠ [])
    (hpay : ps.flatten ++ (p ++ rest) = f.payload)
    (hsplit : r.split = some { left := rest.length, stream := f.id, flags := f.flags })
    (hbuf : r.recvBuf = head p.length FRAME_DATA (f.flags &&& ~~~FLAG_END_STREAM) word ++ (p ++ more))
    (hmore : more ++ r.incoming = rest ++ todo.flatMap Frame.encode) (k : Tick) :
    let r' := processOneFrame R N r k
    r'.recvBuf.length ≤ N ∧ r'.internalError = r.internalError ∧
      Progress N r r' (f :: todo) (pieces f ps) := by
  have hshort : p.length < 2 ^ 24 := by
    have hs := f.short
    rw [← hpay, length_append, length_append] at hs
    omega
  have hpos : 0 < p.length := length_pos_iff.mpr hp
  have hbl : FRAME_HEADER_LEN + (p.length + more.length) ≤ N := by
    rw [hbuf, length_append, length_head, length_append] at hlen
    exact hlen
  have hpay' : (ps ++ [p]).flatten ++ rest = f.payload := by
    rw [← hpay]
    simp
  dsimp only
  rw [processOneFrame_head hshort hbuf]
  generalize hc : Call.mk ⟨p.length, FRAME_DATA, f.flags &&& ~~~FLAG_END_STREAM, word.toNat % 2 ^ 31⟩ p = c
  have hpiece : pieces f ps ++ [c] = pieces f (ps ++ [p]) := by
    rw [← pieces_concat, ← hc, hword, hf.1]
  cases handle R r.conn c k with
  | none => exact ⟨hlen, rfl, Progress.stay rfl (Position.armed hf hword hp hrest hpay hsplit hbuf hmore)⟩
  | some conn =>
    dsimp only
    split
    next hclosing =>
      refine ⟨by dsimp only; omega, rfl, [], [], _, _, rfl, List.Forall₂.nil, Position.closed hclosing ?_, [c], rfl,
        hpiece⟩
      exact Partly.front todo hf hpay' hrest
    next hclosing =>
      -- the rest of the frame is behind the piece, so that its header fits in the piece's place
      have hroom : ¬more.length + FRAME_HEADER_LEN > N := by omega
      unfold splitResume
      rw [hsplit]
      dsimp only
      rw [if_neg hroom]
      refine ⟨?_, rfl, [], [], _, _, rfl, List.Forall₂.nil, ?_, [c], rfl, hpiece⟩
      · dsimp only
        rw [length_append, length_head]
        omega
      · refine Position.waiting (g := restFrame f (ps ++ [p]) rest hpay')
          ⟨rfl, rfl, restFrame_id f _ _ _, hpay', fun _ => ⟨hf, hrest⟩⟩ rfl ?_
        change (head rest.length FRAME_DATA f.flags (UInt32.ofNat (f.id % 2 ^ 31)) ++ more) ++ r.incoming = _
        rw [append_assoc, hmore, ← append_assoc, ← hf.1]
        rfl

theorem splitData_head {n : Nat} (hn : n < 2 ^ 24) {ftype flags : UInt8} {b : Bytes}
    (hbuf : r.recvBuf = head n ftype flags word ++ b) :
    splitData r =
      { r with
        recvBuf := head b.length ftype (flags &&& ~~~FLAG_END_STREAM) word ++ b
        split := some { left := n - b.length, stream := word.toNat % 2 ^ 31, flags := flags } } := by
  have hparse := parseHeader_head hn ftype flags word b
  have hlen : (head n ftype flags word ++ b).length - FRAME_HEADER_LEN = b.length := by
    rw [length_append, length_head, Nat.add_sub_cancel_left]
  unfold splitData
  rw [hbuf, hparse]
  dsimp only
  rw [hlen]
  rfl

theorem process_complete {more : Bytes} (hlen : r.recvBuf.length ≤ N) (hrest : Rest N f ps g) (hsplit : r.split = none)
    (hbuf : r.recvBuf = head g.payload.length g.ftype g.flags g.word ++ (g.payload ++ more))
    (hmore : more ++ r.incoming = todo.flatMap Frame.encode) (k : Tick) :
    let r' := processOneFrame R N r k
    r'.recvBuf.length ≤ N ∧ r'.internalError = r.internalError ∧
      Progress N r r' (f :: todo) (pieces f ps) := by
  dsimp only
  rw [processOneFrame_head g.short hbuf]
  generalize hc : Call.mk ⟨g.payload.length, g.ftype, g.flags, g.word.toNat % 2 ^ 31⟩ g.payload = c
  have hlast : c = last f g.payload := by
    rw [← hc]
    simp only [last, Call.mk.injEq, Header.mk.injEq, true_and, and_true]
    exact ⟨hrest.ftype, hrest.flags, hrest.id⟩
  have hhanded : Handed N f (pieces f ps ++ [c]) :=
    ⟨ps, g.payload, hrest.payload, by rw [hlast], hrest.oversized⟩
  have hml : more.length ≤ N := by
    rw [hbuf, length_append, length_append] at hlen
    omega
  cases handle R r.conn c k with
  | none =>
    refine ⟨hlen, rfl, Progress.stay rfl (Position.waiting hrest hsplit ?_)⟩
    rw [hbuf, append_assoc, append_assoc, hmore, Frame.encode, append_assoc]
  | some conn =>
    have hpos : Position N { r with conn := conn, recvBuf := more, calls := r.calls ++ [c] } todo [] :=
      Position.next hsplit hmore
    have hprog : Progress N r { r with conn := conn, recvBuf := more, calls := r.calls ++ [c] } (f :: todo)
        (pieces f ps) := by
      refine ⟨[f], [pieces f ps ++ [c]], todo, [], rfl, ?_, hpos, [c], rfl, by simp⟩
      exact List.Forall₂.cons hhanded List.Forall₂.nil
    have hnone : splitResume N { r with conn := conn, recvBuf := more, calls := r.calls ++ [c] } =
        { r with conn := conn, recvBuf := more, calls := r.calls ++ [c] } := by
      unfold splitResume
      dsimp only
      rw [hsplit]
    dsimp only
    rw [hnone, ite_self]
    exact ⟨hml, rfl, hprog⟩

/-- It waits for bytes that have not arrived, refuses the frame, or finds a piece of an oversized one or a whole one.
-/
theorem peek_frame {buf ahead more : Bytes} (hlen : buf.length ≤ N) (h : buf ++ ahead = g.encode ++ more) :
    (peekFrameComplete N buf = .needMore ∧ ahead ≠ []) ∨
    peekFrameComplete N buf = .tooBig ∨
    (peekFrameComplete N buf = .split ∧ Oversized N g ∧
      ∃ b rest, buf = head g.payload.length g.ftype g.flags g.word ++ b ∧ b ≠ [] ∧ rest ≠ [] ∧
        g.payload = b ++ rest ∧ ahead = rest ++ more) ∨
    (peekFrameComplete N buf = .complete ∧
      ∃ after, buf = head g.payload.length g.ftype g.flags g.word ++ (g.payload ++ after) ∧ after ++ ahead = more) := by
  have htotal := congrArg List.length h
  rw [Frame.encode, length_append, length_append, length_append, length_head] at htotal
  obtain hshort | ⟨b, hb, hahead⟩ := front_of_frame h
  · left
    refine ⟨?_, length_pos_iff.mp (by omega)⟩
    unfold peekFrameComplete
    rw [parseHeader_short hshort]
  · have hparse : parseHeader buf = some g.header := by
      rw [hb]
      exact parseHeader_append g b
    have hbl : buf.length = FRAME_HEADER_LEN + b.length := by
      rw [hb, length_append, length_head]
    have hghl : g.header.length = g.payload.length := rfl
    have hght : g.header.ftype = g.ftype := rfl
    unfold peekFrameComplete
    rw [hparse]
    dsimp only
    rw [hghl, hght]
    by_cases hbig : FRAME_HEADER_LEN + g.payload.length > N
    · rw [if_pos hbig]
      by_cases hkind : g.ftype ≠ FRAME_DATA ∨ g.header.padded = true
      · rw [if_pos hkind]
        exact Or.inr (Or.inl rfl)
      · rw [if_neg hkind]
        rw [not_or, not_not, not_eq_true] at hkind
        by_cases hsome : buf.length > FRAME_HEADER_LEN
        · rw [if_pos hsome]
          refine Or.inr (Or.inr (Or.inl ⟨rfl, ⟨hkind.1, hkind.2, hbig⟩, ?_⟩))
          -- what has arrived is a proper front of the payload
          obtain ⟨rest, hpay, hin⟩ | ⟨x, hx, _⟩ := append_eq_append_iff.mp hahead
          · have hpl : g.payload.length = b.length + rest.length := by rw [hpay, length_append]
            exact ⟨b, rest, hb, length_pos_iff.mp (by omega), length_pos_iff.mp (by omega), hpay, hin⟩
          · have hxl := congrArg List.length hx
            rw [length_append] at hxl
            omega
        · rw [if_neg hsome]
          exact Or.inl ⟨rfl, length_pos_iff.mp (by omega)⟩
    · rw [if_neg hbig]
      by_cases hfull : FRAME_HEADER_LEN + g.payload.length > buf.length
      · rw [if_pos hfull]
        exact Or.inl ⟨rfl, length_pos_iff.mp (by omega)⟩
      · rw [if_neg hfull]
        refine Or.inr (Or.inr (Or.inr ⟨rfl, ?_⟩))
        obtain ⟨x, hx, hx'⟩ | ⟨x, hx, hx'⟩ := append_eq_append_iff.mp hahead
        · have hxl := congrArg List.length hx
          rw [length_append] at hxl
          have hnil : x = [] := length_eq_zero_iff.mp (by omega)
          subst hnil
          exact ⟨[], by rw [hb, hx, append_nil, append_nil], hx'⟩
        · exact ⟨x, by rw [hb, hx], hx'.symm⟩

theorem Rest.oversized_of (h : Rest N f ps g) (hg : Oversized N g) : Oversized N f := by
  refine ⟨h.ftype ▸ hg.1, ?_, ?_⟩
  · have hpad := hg.2.1
    unfold Header.padded Frame.header at hpad ⊢
    rw [h.flags] at hpad
    exact hpad
  · have hlen := hg.2.2
    rw [← h.payload, length_append]
    omega

theorem readFrame_waiting (hlen : r.recvBuf.length ≤ N) (hrest : Rest N f ps g) (hsplit : r.split = none)
    (hbuf : r.recvBuf ++ r.incoming = g.encode ++ todo.flatMap Frame.encode) (k : Tick) :
    let r' := readFrame R N r k
    r'.recvBuf.length ≤ N ∧ r'.internalError = r.internalError ∧
      Progress N r r' (f :: todo) (pieces f ps) := by
  have hstay : Progress N r r (f :: todo) (pieces f ps) := Progress.stay rfl (Position.waiting hrest hsplit hbuf)
  dsimp only
  unfold readFrame
  split
  · exact ⟨hlen, rfl, hstay⟩
  · obtain ⟨hpeek, _⟩ | hpeek | ⟨hpeek, hg, b, rest, hb, hbne, hrne, hpay, hin⟩ | ⟨hpeek, more, hb, hmore⟩ :=
      peek_frame hlen hbuf
    · rw [hpeek]
      exact ⟨hlen, rfl, hstay⟩
    · rw [hpeek]
      exact ⟨hlen, rfl, Progress.stay rfl (Position.closed rfl (hrest.partly todo))⟩
    · rw [hpeek]
      dsimp only
      have hpl : g.payload.length - b.length = rest.length := by
        rw [hpay, length_append, Nat.add_sub_cancel_left]
      have hid : g.word.toNat % 2 ^ 31 = f.id := hrest.id
      have hbl : (head b.length FRAME_DATA (f.flags &&& ~~~FLAG_END_STREAM) g.word ++ b).length ≤ N := by
        rw [hb, length_append, length_head] at hlen
        rw [length_append, length_head]
        exact hlen
      rw [splitData_head g.short hb, hg.1, hpl, hid, hrest.flags]
      have hfront : ps.flatten ++ (b ++ rest) = f.payload := by
        rw [← hpay]
        exact hrest.payload
      have hnone : [] ++ r.incoming = rest ++ todo.flatMap Frame.encode := hin
      exact process_armed
        (r := { r with
          recvBuf := head b.length FRAME_DATA (f.flags &&& ~~~FLAG_END_STREAM) g.word ++ b
          split := some { left := rest.length, stream := f.id, flags := f.flags } })
        hbl (hrest.oversized_of hg) hid hbne hrne hfront rfl (by rw [append_nil]) hnone k
    · rw [hpeek]
      exact process_complete hlen hrest hsplit hb hmore k

theorem peek_armed {p more rest : Bytes} (hlen : r.recvBuf.length ≤ N) (hpay : ps.flatten ++ (p ++ rest) = f.payload)
    (hbuf : r.recvBuf = head p.length FRAME_DATA (f.flags &&& ~~~FLAG_END_STREAM) word ++ (p ++ more)) :
    peekFrameComplete N r.recvBuf = .complete := by
  have hshort : p.length < 2 ^ 24 := by
    have hs := f.short
    rw [← hpay, length_append, length_append] at hs
    omega
  have hbl : r.recvBuf.length = FRAME_HEADER_LEN + (p.length + more.length) := by
    rw [hbuf, length_append, length_head, length_append]
  unfold peekFrameComplete
  rw [hbuf, parseHeader_head hshort, ← hbuf]
  dsimp only
  rw [if_neg (by omega), if_neg (by omega)]

theorem readFrame_armed {p more rest : Bytes} (hlen : r.recvBuf.length ≤ N)
    (hf : Oversized N f) (hword : word.toNat % 2 ^ 31 = f.id) (hp : p ≠ []) (hrest : rest ≠ [])
    (hpay : ps.flatten ++ (p ++ rest) = f.payload)
    (hsplit : r.split = some { left := rest.length, stream := f.id, flags := f.flags })
    (hbuf : r.recvBuf = head p.length FRAME_DATA (f.flags &&& ~~~FLAG_END_STREAM) word ++ (p ++ more))
    (hmore : more ++ r.incoming = rest ++ todo.flatMap Frame.encode) (k : Tick) :
    let r' := readFrame R N r k
    r'.recvBuf.length ≤ N ∧ r'.internalError = r.internalError ∧
      Progress N r r' (f :: todo) (pieces f ps) := by
  have hprocess := process_armed (R := R) hlen hf hword hp hrest hpay hsplit hbuf hmore k
  dsimp only
  unfold readFrame
  rw [peek_armed hlen hpay hbuf]
  split
  · exact ⟨hlen, rfl, Progress.stay rfl (Position.armed hf hword hp hrest hpay hsplit hbuf hmore)⟩
  · exact hprocess

theorem readFrame_progress (hlen : r.recvBuf.length ≤ N) (h : Position N r todo part) (k : Tick) :
    let r' := readFrame R N r k
    r'.recvBuf.length ≤ N ∧ r'.internalError = r.internalError ∧ Progress N r r' todo part := by
  cases h with
  | waiting hrest hsplit hbuf => exact readFrame_waiting hlen hrest hsplit hbuf k
  | armed hf hword hp hrest hpay hsplit hbuf hmore =>
    exact readFrame_armed hlen hf hword hp hrest hpay hsplit hbuf hmore k
  | finished hsplit hbuf =>
    have hnil : r.recvBuf = [] := (append_eq_nil_iff.mp hbuf).1
    have hread : readFrame R N r k = r := by
      unfold readFrame
      rw [hnil]
      split <;> rfl
    dsimp only
    rw [hread]
    exact ⟨hlen, rfl, Progress.stay rfl (Position.finished hsplit hbuf)⟩
  | closed hclosing hpart =>
    have hread : readFrame R N r k = r := if_pos hclosing
    dsimp only
    rw [hread]
    exact ⟨hlen, rfl, Progress.stay rfl (Position.closed hclosing hpart)⟩

end Position

section Runs

variable {R : Recv.Limits} {N : Nat} {arrived : List (Nat × Nat)} {frames : List Frame} {r : Reader}

structure ReaderInv (N : Nat) (arrived : List (Nat × Nat)) (frames : List Frame) (r : Reader) : Prop where
  fits : r.recvBuf.length ≤ N
  noError : r.internalError = false
  charged : Charged arrived r
  handed : ∃ done css todo part, frames = done ++ todo ∧ List.Forall₂ (Handed N) done css ∧
    r.calls = css.flatten ++ part ∧ Position N r todo part

theorem readerInv_start (N : Nat) (conn : Recv.RecvConn) (frames : List Frame) :
    ReaderInv N conn.arrived frames (start conn frames) where
  fits := Nat.zero_le N
  noError := rfl
  charged := (append_nil _).symm
  handed := ⟨[], [], frames, [], rfl, List.Forall₂.nil, rfl, Position.next rfl rfl⟩

theorem ReaderInv.progress (h : ReaderInv N arrived frames r) {r' : Reader} (hfits : r'.recvBuf.length ≤ N)
    (herr : r'.internalError = r.internalError) (hch : Charged arrived r')
    (hprog : ∀ todo part, Position N r todo part → Progress N r r' todo part) : ReaderInv N arrived frames r' := by
  obtain ⟨done, css, todo, part, hframes, hdone, hcalls, hpos⟩ := h.handed
  obtain ⟨done', css', todo', part', htodo, hdone', hpos', new, hnew, hpart⟩ := hprog todo part hpos
  refine ⟨hfits, herr.trans h.noError, hch, done ++ done', css ++ css', todo', part', ?_, List.rel_append hdone hdone',
    ?_, hpos'⟩
  · rw [hframes, htodo, append_assoc]
  · rw [hnew, hcalls, append_assoc, hpart, flatten_append, append_assoc]

theorem Position.deliver {todo : List Frame} (h : Position N r todo part) (n : Nat) :
    Position N { r with recvBuf := r.recvBuf ++ r.incoming.take n, incoming := r.incoming.drop n } todo part := by
  have hsame : (r.recvBuf ++ r.incoming.take n) ++ r.incoming.drop n = r.recvBuf ++ r.incoming := by
    rw [append_assoc, take_append_drop]
  cases h with
  | finished hsplit hbuf => exact Position.finished hsplit (hsame.trans hbuf)
  | waiting hrest hsplit hbuf => exact Position.waiting hrest hsplit (hsame.trans hbuf)
  | @armed f ps todo word p more rest hf hword hp hrest hpay hsplit hbuf hmore =>
    have hbehind : r.recvBuf ++ r.incoming.take n =
        head p.length FRAME_DATA (f.flags &&& ~~~FLAG_END_STREAM) word ++ (p ++ (more ++ r.incoming.take n)) := by
      rw [hbuf, append_assoc, append_assoc]
    have hmore' : (more ++ r.incoming.take n) ++ r.incoming.drop n = rest ++ todo.flatMap Frame.encode := by
      rw [append_assoc, take_append_drop, hmore]
    exact Position.armed hf hword hp hrest hpay hsplit hbehind hmore'
  | closed hclosing hpart => exact Position.closed hclosing hpart

theorem otherTurn_closing (conn : Recv.RecvConn) (t : Recv.Turn) (h : conn.closing = true) :
    (otherTurn R conn t).closing = true := by
  unfold otherTurn
  cases t <;> simp [Recv.turn, h]

theorem Position.other {todo : List Frame} (h : Position N r todo part) (t : Recv.Turn) :
    Position N { r with conn := otherTurn R r.conn t } todo part := by
  cases h with
  | finished hsplit hbuf => exact Position.finished hsplit hbuf
  | waiting hrest hsplit hbuf => exact Position.waiting hrest hsplit hbuf
  | armed hf hword hp hrest hpay hsplit hbuf hmore => exact Position.armed hf hword hp hrest hpay hsplit hbuf hmore
  | closed hclosing hpart => exact Position.closed (otherTurn_closing r.conn t hclosing) hpart

theorem ReaderInv.turn (h : ReaderInv N arrived frames r) (e : Event) :
    ReaderInv N arrived frames (turn R N r e) := by
  have hch := h.charged.turn (R := R) (N := N) e
  cases e with
  | deliver n =>
    unfold Split.turn deliver at hch ⊢
    dsimp only at hch ⊢
    split at hch
    next hroom =>
      rw [if_pos hroom]
      refine h.progress ?_ rfl hch fun todo part hpos => Progress.stay rfl (hpos.deliver n)
      dsimp only
      rw [length_append, length_take]
      omega
    next hroom =>
      rw [if_neg hroom]
      exact h
  | read k =>
    obtain ⟨done, css, todo, part, hframes, hdone, hcalls, hpos⟩ := h.handed
    have hread := readFrame_progress (R := R) h.fits hpos k
    exact h.progress hread.1 hread.2.1 hch fun _ _ hpos => (readFrame_progress h.fits hpos k).2.2
  | other t => exact h.progress h.fits rfl hch fun _ _ hpos => Progress.stay rfl (hpos.other t)

end Runs

/-! ### Pieces add up -/

section Sums

variable {N : Nat} {f : Frame} {cs : List Call}

theorem charge_pieces {φ : Nat → Nat → Nat} (hzero : ∀ s, φ s 0 = 0) (hadd : ∀ s a b, φ s (a + b) = φ s a + φ s b)
    (f : Frame) (ps : List Bytes) :
    (((pieces f ps).flatMap charge).map fun a => φ a.1 a.2).sum =
      if f.ftype = FRAME_DATA ∧ f.id ≠ 0 then φ f.id ps.flatten.length else 0 := by
  induction ps with
  | nil => simp [pieces, hzero]
  | cons p ps ih =>
    unfold pieces at ih ⊢
    rw [map_cons, flatMap_cons, map_append, sum_append, ih, charge]
    dsimp only
    split
    · simp [hadd]
    · rfl

theorem handedOn_pieces (s : Nat) (f : Frame) (ps : List Bytes) :
    (pieces f ps).flatMap (handedOn s) = if f.ftype = FRAME_DATA ∧ f.id = s then ps.flatten else [] := by
  induction ps with
  | nil => simp [pieces]
  | cons p ps ih =>
    unfold pieces at ih ⊢
    rw [map_cons, flatMap_cons, ih, handedOn]
    dsimp only
    split <;> simp

theorem endStream_cleared (flags : UInt8) : (flags &&& ~~~FLAG_END_STREAM) &&& FLAG_END_STREAM = 0 := by
  have hflag : ~~~FLAG_END_STREAM &&& FLAG_END_STREAM = 0 := by decide
  rw [UInt8.and_assoc, hflag, UInt8.and_zero]

theorem endsOn_pieces (s : Nat) (f : Frame) (ps : List Bytes) : (pieces f ps).countP (endsOn s) = 0 := by
  rw [List.countP_eq_zero]
  intro c hc
  obtain ⟨p, _, rfl⟩ := mem_map.mp hc
  simp [endsOn, Header.endStream, endStream_cleared]

theorem Handed.charge_eq {φ : Nat → Nat → Nat} (hzero : ∀ s, φ s 0 = 0) (hadd : ∀ s a b, φ s (a + b) = φ s a + φ s b)
    (h : Handed N f cs) :
    ((cs.flatMap charge).map fun a => φ a.1 a.2).sum = ((charge (whole f)).map fun a => φ a.1 a.2).sum := by
  obtain ⟨ps, p, hpay, rfl, _⟩ := h
  rw [flatMap_append, map_append, sum_append, charge_pieces hzero hadd]
  simp only [flatMap_singleton, charge, last, whole, ← hpay]
  split
  · simp [hadd]
  · rfl

theorem Handed.bytes_eq (h : Handed N f cs) (s : Nat) : cs.flatMap (handedOn s) = handedOn s (whole f) := by
  obtain ⟨ps, p, hpay, rfl, _⟩ := h
  rw [flatMap_append, handedOn_pieces]
  simp only [flatMap_singleton, handedOn, last, whole, ← hpay]
  split <;> simp

theorem Handed.ends_eq (h : Handed N f cs) (s : Nat) : cs.countP (endsOn s) = [whole f].countP (endsOn s) := by
  obtain ⟨ps, p, hpay, rfl, _⟩ := h
  rw [countP_append, endsOn_pieces, Nat.zero_add]
  rfl

theorem satSub_satSub (w : Int) (a b : Nat) : Recv.satSub (Recv.satSub w a) b = Recv.satSub w (a + b) := by
  unfold Recv.satSub
  push_cast
  omega

theorem Handed.window_eq (h : Handed N f cs) (w : Int) :
    cs.foldl (fun w c => Recv.satSub w c.hdr.length) w = Recv.satSub w f.payload.length := by
  obtain ⟨ps, p, hpay, rfl, hps⟩ := h
  rw [← hpay]
  clear hpay hps
  induction ps generalizing w with
  | nil => rfl
  | cons q ps ih =>
    unfold pieces at ih ⊢
    rw [map_cons, cons_append, foldl_cons, ih, satSub_satSub]
    simp

theorem charges_eq {φ : Nat → Nat → Nat} (hzero : ∀ s, φ s 0 = 0) (hadd : ∀ s a b, φ s (a + b) = φ s a + φ s b)
    {css : List (List Call)} (h : List.Forall₂ (Handed N) done css) :
    ((css.flatten.flatMap charge).map fun a => φ a.1 a.2).sum =
      (((done.map whole).flatMap charge).map fun a => φ a.1 a.2).sum := by
  induction h with
  | nil => rfl
  | cons hone _ ih =>
    rw [flatten_cons, flatMap_append, map_append, sum_append, hone.charge_eq hzero hadd, ih,
      map_cons, flatMap_cons, map_append, sum_append]

theorem bytes_eq (s : Nat) {css : List (List Call)} (h : List.Forall₂ (Handed N) done css) :
    css.flatten.flatMap (handedOn s) = (done.map whole).flatMap (handedOn s) := by
  induction h with
  | nil => rfl
  | cons hone _ ih => rw [flatten_cons, flatMap_append, hone.bytes_eq, ih, map_cons, flatMap_cons]

theorem ends_eq (s : Nat) {css : List (List Call)} (h : List.Forall₂ (Handed N) done css) :
    css.flatten.countP (endsOn s) = (done.map whole).countP (endsOn s) := by
  induction h with
  | nil => rfl
  | cons hone _ ih =>
    rw [flatten_cons, countP_append, hone.ends_eq, ih, map_cons, ← countP_append,
      singleton_append]

theorem Partly.ends_eq {todo : List Frame} (h : Partly N todo part) (s : Nat) :
    part.countP (endsOn s) = 0 := by
  cases h with
  | nothing _ => rfl
  | front _ _ _ _ => exact endsOn_pieces s _ _

end Sums

theorem Position.idle {N : Nat} {r : Reader} {todo : List Frame} (h : Position N r todo part)
    (hfits : r.recvBuf.length ≤ N) (hopen : r.conn.closing = false) (hin : r.incoming = [])
    (hpeek : peekFrameComplete N r.recvBuf = .needMore) : todo = [] := by
  cases h with
  | finished _ _ => rfl
  | waiting hrest hsplit hbuf =>
    obtain ⟨_, hahead⟩ | hp | ⟨hp, _⟩ | ⟨hp, _⟩ := peek_frame hfits hbuf
    · exact absurd hin hahead
    · rw [hpeek] at hp
      cases hp
    · rw [hpeek] at hp
      cases hp
    · rw [hpeek] at hp
      cases hp
  | armed hf hword hp hrest hpay hsplit hbuf hmore =>
    rw [peek_armed hfits hpay hbuf] at hpeek
    cases hpeek
  | closed hclosing _ =>
    rw [hopen] at hclosing
    cases hclosing

/-- The frames are handed in order, an oversized DATA frame in pieces. The windows are charged by their lengths, each
stream gets its bytes with END_STREAM at the last one, and a reader that has seen everything has handed everything. -/
theorem frames_handed (R : Recv.Limits) (recvBufSize : Nat) (conn : Recv.RecvConn) (frames : List Frame)
    (events : List Event) :
    let r := ((machine R recvBufSize).run (start conn frames) events).1
    r.internalError = false ∧
      ∃ done css todo part, frames = done ++ todo ∧ r.calls = css.flatten ++ part ∧
        List.Forall₂ (Handed recvBufSize) done css ∧ Partly recvBufSize todo part ∧
        (∀ s, Recv.sentOn s r.conn.arrived =
          Recv.sentOn s conn.arrived + Recv.sentOn s ((done.map whole ++ part).flatMap charge)) ∧
        Recv.sentAll r.conn.arrived =
          Recv.sentAll conn.arrived + Recv.sentAll ((done.map whole ++ part).flatMap charge) ∧
        List.Forall₂ (fun f cs => ∀ w : Int,
          cs.foldl (fun w c => Recv.satSub w c.hdr.length) w = Recv.satSub w (whole f).hdr.length) done css ∧
        (Recv.sentAll ((done.map whole ++ part).flatMap charge) ≤ conn.recvWindow + 2147483648 →
          r.conn.recvWindow = conn.recvWindow - Recv.sentAll ((done.map whole ++ part).flatMap charge) +
            (Recv.updates 0 r.conn.out - Recv.updates 0 conn.out)) ∧
        (∀ k, Debits R k r (readFrame R recvBufSize r k)) ∧ (∀ conn t, Undebited R conn (otherTurn R conn t)) ∧
        (∀ s, r.calls.flatMap (handedOn s) = (done.map whole ++ part).flatMap (handedOn s)) ∧
        (∀ s, r.calls.countP (endsOn s) = (done.map whole).countP (endsOn s)) ∧
        (r.conn.closing = false → r.incoming = [] → peekFrameComplete recvBufSize r.recvBuf = .needMore →
          todo = []) := by
  have hevery := (machine R recvBufSize).along_of_forall (P := fun _ _ => True) (fun _ _ => trivial)
    (start conn frames) events
  have h : ReaderInv recvBufSize conn.arrived frames ((machine R recvBufSize).run (start conn frames) events).1 :=
    (machine R recvBufSize).run_invariant (fun _ e hr _ => hr.turn e) (readerInv_start recvBufSize conn frames) hevery
  have hbal : Balanced conn ((machine R recvBufSize).run (start conn frames) events).1 :=
    (machine R recvBufSize).run_invariant (fun _ e hr _ => hr.turn e) ⟨le_rfl, by intro; simp [start, Recv.sentAll]⟩
      hevery
  dsimp only
  generalize ((machine R recvBufSize).run (start conn frames) events).1 = r at h hbal
  obtain ⟨done, css, todo, part, hframes, hdone, hcalls, hpos⟩ := h.handed
  have hch : r.conn.arrived = conn.arrived ++ (css.flatten.flatMap charge ++ part.flatMap charge) := by
    rw [h.charged, hcalls, flatMap_append]
  have hall := charges_eq (φ := fun _ n => n) (fun _ => rfl) (fun _ _ _ => rfl) hdone
  have hsum : Recv.sentAll (r.calls.flatMap charge) = Recv.sentAll ((done.map whole ++ part).flatMap charge) := by
    rw [hcalls]
    unfold Recv.sentAll
    rw [flatMap_append, map_append, sum_append, flatMap_append, map_append, sum_append]
    exact congrArg (· + _) hall
  refine ⟨h.noError, done, css, todo, part, hframes, hcalls, hdone, hpos.partly, ?_, ?_, ?_, ?_,
    fun k => readFrame_debits r k, fun conn t => otherTurn_undebited conn t, ?_, ?_, ?_⟩
  · intro s
    have hsum := charges_eq (φ := fun t n => if t = s then n else 0) (by simp) (by intro t a b; split <;> rfl) hdone
    rw [hch]
    unfold Recv.sentOn
    rw [map_append, sum_append, map_append, sum_append, hsum, flatMap_append,
      map_append, sum_append]
  · rw [← hsum, h.charged]
    unfold Recv.sentAll
    rw [map_append, sum_append]
  · exact hdone.imp fun _ _ hone w => hone.window_eq w
  · rw [← hsum]
    exact hbal.2
  · intro s
    rw [hcalls, flatMap_append, bytes_eq s hdone, flatMap_append]
  · intro s
    rw [hcalls, countP_append, ends_eq s hdone, hpos.partly.ends_eq, Nat.add_zero]
  · exact fun hopen hin hpeek => hpos.idle h.fits hopen hin hpeek

def pingAndZeros : Frame where
  ftype := FRAME_DATA
  flags := FLAG_END_STREAM
  word := 1
  payload := [0x89, 0x80, 0, 0, 0, 0] ++ List.replicate 2034 0
  short := by
    rw [length_append, length_replicate]
    decide

def limited : Recv.RecvConn where
  slots := [{ id := 1, kind := .app, recvWindow := 2039, bodyLimit := 1000 }]

/-- Six bytes of the frame arrive first: an application's stream holds them where the whole would have been refused, a
tunnel answers the PING where the whole would have closed it. -/
theorem piece_handled_alone :
    let r := ((machine Recv.smallBoard 2048).run (start limited [pingAndZeros]) [.deliver 15, .read {}]).1
    let p : Bytes := [0x89, 0x80, 0, 0, 0, 0]
    r.calls = pieces pingAndZeros [p] ∧
      r.conn.out = [] ∧ (r.conn.slot 0).rxLen = 6 ∧
      (handle Recv.smallBoard limited (whole pingAndZeros) {}).map (fun c => (c.out, (c.slot 0).rxLen)) =
        some ([.refused 1], 0) ∧
      (WsTunnel.wsHandleData (WsTunnel.accepted false []) { body := p } []).2 = [.data [0x8A, 0] false] ∧
      (WsTunnel.wsHandleData (WsTunnel.accepted false []) { body := pingAndZeros.payload } []).2 =
        [.data [0x88, 2, 0x03, 0xF1] true] := by
  decide +kernel

end Wave.Http.Split
