import Wave.Lib.Machine
import Wave.Lib.Table
import Mathlib.Tactic.Linarith

/-! # Receive windows of the HTTP/2 server (`http/server/h2.rs`)

Body bytes are charged to two windows and given back by WINDOW_UPDATE once they have left. -/

namespace Wave.Http.Recv

open Lib

variable {n : Nat}

variable {x : RecvSlot}

/-- `RECV_WINDOW_INITIAL`, the connection's window and the most a stream holds. -/
def RECV_WINDOW_INITIAL : Nat := 65535
def RECV_WINDOW_THRESHOLD : Nat := 32768

/-- `STREAM_RECV_WINDOW`, which is `RECV_BUF_SIZE` less a frame header, and `stream_limit`. -/
structure Limits where
  streamWindow : Nat
  streamLimit : Nat
  le : streamWindow ≤ RECV_WINDOW_INITIAL

/-- `STREAM_RECV_THRESHOLD`. -/
def Limits.threshold (R : Limits) : Nat := R.streamWindow / 2

inductive StreamKind where
  | idle
  | dropped
  | app
  | tunnel
deriving DecidableEq

structure RecvSlot where
  id : Nat := 0
  kind : StreamKind := .idle
  recvWindow : Int := 0
  windowUpdatePending : Bool := false
  rxLen : Nat := 0
  rxCap : Nat := 0
  bodyTotal : Nat := 0
  bodyLimit : Nat := 0
  endStreamIn : Bool := false
  /-- Bytes charged to the stream so far, and those of them that have left. -/
  charged : Nat := 0
  left : Nat := 0

inductive RxFailure where
  | pastWindow
  | noArena
deriving DecidableEq

inductive ServerMsg where
  | settings
  /-- A WINDOW_UPDATE (stream 0 is the connection), with the bytes that had left and those given back before. -/
  | windowUpdate (stream inc left granted : Nat)
  | flowControlError (stream : Nat) (cause : RxFailure)
  | streamClosed (stream : Nat)
  | refused (stream : Nat)
  | goaway
deriving DecidableEq

structure Data where
  stream : Nat
  length : Nat
  pad : Option Nat := none
  endStream : Bool := false
  /-- How many of the server's messages the peer had read when it sent the frame. -/
  read : Nat := 0

/-- What `handle_headers` finds: padding that leaves no block, a block HPACK cannot decode, or a request, idle when it
is answered or reset at once. -/
inductive Block where
  | outside
  | undecodable
  | request (kind : StreamKind) (limit : Nat)

structure Headers where
  stream : Nat
  endHeaders : Bool := true
  block : Block

/-- `data_payload_extent`. -/
def Data.bodyLen (d : Data) : Option Nat :=
  match d.pad with
  | none => some d.length
  | some p => if p + 1 > d.length then none else some (d.length - p - 1)

structure RecvConn where
  recvWindow : Int := RECV_WINDOW_INITIAL
  windowUpdatePending : Bool := false
  lastStreamId : Nat := 0
  slots : List RecvSlot
  closing : Bool := false
  /-- What the server has sent, in order. -/
  out : List ServerMsg := []
  arrived : List (Nat × Nat) := []
  /-- Bytes that have left. -/
  left : Nat := 0

def updates (stream : Nat) (out : List ServerMsg) : Nat :=
  (out.map fun
    | .windowUpdate s inc _ _ => if s = stream then inc else 0
    | _ => 0).sum

def sentOn (stream : Nat) (arrived : List (Nat × Nat)) : Nat :=
  (arrived.map fun a => if a.1 = stream then a.2 else 0).sum

def sentAll (arrived : List (Nat × Nat)) : Nat := (arrived.map Prod.snd).sum

def satSub (w : Int) (n : Nat) : Int := max (-2147483648) (w - n)

namespace RecvConn

def slot (c : RecvConn) (i : Nat) : RecvSlot := c.slots.getD i {}

def setSlot (c : RecvConn) (i : Nat) (x : RecvSlot) : RecvConn := { c with slots := c.slots.set i x }

def send (c : RecvConn) (m : ServerMsg) : RecvConn := { c with out := c.out ++ [m] }

def rxHeld (c : RecvConn) : Nat := (c.slots.map RecvSlot.rxLen).sum

def leave (c : RecvConn) (n : Nat) : RecvConn := { c with left := c.left + n }

def slotForId (c : RecvConn) (id : Nat) : Option Nat :=
  if id = 0 then none else c.slots.findIdx? fun s => s.id = id ∧ s.kind ≠ .idle

/-- `free_slot`: held bytes go with the slot. -/
def freeSlot (c : RecvConn) (i : Nat) : RecvConn := (c.leave (c.slot i).rxLen).setSlot i {}

def queueGoaway (c : RecvConn) : RecvConn := { c.send .goaway with closing := true }

def consumeRecvWindow (c : RecvConn) (stream n : Nat) : RecvConn :=
  let w := satSub c.recvWindow n
  { c with
    recvWindow := w
    windowUpdatePending := c.windowUpdatePending || decide (w ≤ RECV_WINDOW_THRESHOLD)
    arrived := c.arrived ++ [(stream, n)] }

end RecvConn

/-- `consume_slot_recv_window`. -/
def RecvSlot.consume (R : Limits) (s : RecvSlot) (n : Nat) : RecvSlot :=
  let w := satSub s.recvWindow n
  { s with
    recvWindow := w
    windowUpdatePending := s.windowUpdatePending || decide (w ≤ R.threshold)
    charged := s.charged + n }

def growCap : Nat → Nat → Nat → Nat
  | 0, cap, _ => cap
  | fuel + 1, cap, want => if cap < want then growCap fuel (cap * 2) want else cap

/-- `append_rx`; `arena` is what `heap_alloc` answers if it is asked. -/
def RecvSlot.appendRx (s : RecvSlot) (n : Nat) (arena : Bool) : Except RxFailure RecvSlot :=
  if n = 0 then .ok s
  else
    let want := s.rxLen + n
    if want > RECV_WINDOW_INITIAL then .error .pastWindow
    else if want > s.rxCap then
      if arena then
        let cap := growCap 16 (if s.rxCap = 0 then 4096 else s.rxCap) want
        .ok { s with rxLen := want, rxCap := min cap RECV_WINDOW_INITIAL }
      else .error .noArena
    else .ok { s with rxLen := want }

section Conn

variable (R : Limits)

/-- The payload of a DATA frame for a slot that is no tunnel, its windows already charged. The flag says whether
the stream goes on. -/
def takeBody (c : RecvConn) (i : Nat) (d : Data) (arena : Bool) : RecvConn × Bool :=
  match d.bodyLen with
  | none =>
    (((c.leave d.length).setSlot i { c.slot i with left := (c.slot i).left + d.length }).queueGoaway, false)
  | some n =>
    let s := { c.slot i with bodyTotal := (c.slot i).bodyTotal + n }
    if n = 0 then ((c.leave d.length).setSlot i { s with left := s.left + d.length }, true)
    else if s.bodyTotal > s.bodyLimit then (((c.leave d.length).freeSlot i).send (.refused s.id), false)
    else if s.kind = .app then
      match s.appendRx n arena with
      | .ok s => ((c.leave (d.length - n)).setSlot i { s with left := s.left + (d.length - n) }, true)
      | .error e => (((c.leave d.length).freeSlot i).send (.flowControlError s.id e), false)
    else ((c.leave d.length).setSlot i { s with left := s.left + d.length }, true)

/-- `end_stream_in`, set when the frame carried END_STREAM. -/
def markEnd (c : RecvConn) (i : Nat) (d : Data) : RecvConn :=
  if d.endStream then c.setSlot i { c.slot i with endStreamIn := true } else c

/-- `handle_data`, once a tunnel's DATA frame is not deferred. -/
def handleData (c : RecvConn) (d : Data) (arena : Bool) : RecvConn :=
  if d.stream = 0 then c.queueGoaway
  else
    let charged := c.consumeRecvWindow d.stream d.length
    match c.slotForId d.stream with
    | none =>
      let c := charged.leave d.length
      if d.stream ≤ c.lastStreamId then c else c.send (.streamClosed d.stream)
    | some i =>
      let s := (c.slot i).consume R d.length
      let c := charged.setSlot i s
      if s.kind = .tunnel then (c.leave d.length).setSlot i { s with left := s.left + d.length }
      else if d.length = 0 then markEnd c i d
      else
        let r := takeBody c i d arena
        if r.2 then markEnd r.1 i d else r.1

/-- `alloc_slot`: the first idle slot, while fewer than `stream_limit` are taken. -/
def allocSlot (c : RecvConn) : Option Nat :=
  if c.slots.countP (fun s : RecvSlot => s.kind ≠ .idle) ≥ R.streamLimit then none
  else c.slots.findIdx? fun s : RecvSlot => s.kind = .idle

/-- `handle_headers`. A stream that finds no slot is refused and `last_stream_id` left alone. -/
def handleHeaders (c : RecvConn) (f : Headers) : RecvConn :=
  if f.stream % 2 = 0 ∨ f.endHeaders = false ∨ f.stream ≤ c.lastStreamId then c.queueGoaway
  else
    match allocSlot R c with
    | none => c.send (.refused f.stream)
    | some i =>
      let s : RecvSlot := { id := f.stream, kind := .dropped, recvWindow := R.streamWindow }
      match f.block with
      | .outside => (c.setSlot i s).queueGoaway
      | .undecodable => ({ c with lastStreamId := f.stream } : RecvConn).queueGoaway
      | .request kind limit =>
        let c := { c with lastStreamId := f.stream }
        if kind = .idle then c else c.setSlot i { s with kind := kind, bodyLimit := limit }

def queueWindowUpdate (c : RecvConn) : RecvConn :=
  if c.windowUpdatePending then
    let delta := (RECV_WINDOW_INITIAL : Int) - c.recvWindow - c.rxHeld
    let c := { c with windowUpdatePending := false }
    if delta > 0 then
      { c.send (.windowUpdate 0 delta.toNat c.left (updates 0 c.out)) with recvWindow := c.recvWindow + delta }
    else c
  else
    match c.slots.findIdx? fun s => s.id ≠ 0 ∧ s.windowUpdatePending ∧ s.kind ≠ .idle with
    | none => c
    | some i =>
      let s := c.slot i
      let delta := (R.streamWindow : Int) - s.recvWindow - s.rxLen
      if delta > 0 then
        (c.send (.windowUpdate s.id delta.toNat s.left (updates s.id c.out))).setSlot i
          { s with recvWindow := s.recvWindow + delta, windowUpdatePending := false }
      else c.setSlot i { s with windowUpdatePending := false }

def rearmRefills (c : RecvConn) : RecvConn :=
  { c with
    windowUpdatePending := c.windowUpdatePending ||
      decide ((RECV_WINDOW_INITIAL : Int) - c.recvWindow - c.rxHeld ≥
        (RECV_WINDOW_INITIAL : Int) - RECV_WINDOW_THRESHOLD)
    slots := c.slots.map fun s =>
      { s with windowUpdatePending := s.windowUpdatePending ||
          (decide (s.kind ≠ .idle) &&
            decide ((R.streamWindow : Int) - s.recvWindow - s.rxLen ≥ (R.streamWindow : Int) - R.threshold)) } }

/-- `forward_rx`: as much as the application has credit for and a record holds, if the record goes out. -/
def forwardRx (c : RecvConn) (i credit bodyMax : Nat) (accepted : Bool) : RecvConn :=
  let s := c.slot i
  let n := min s.rxLen (min credit bodyMax)
  if s.kind = .app ∧ accepted then (c.leave n).setSlot i { s with rxLen := s.rxLen - n, left := s.left + n }
  else c

end Conn

inductive Turn where
  | settings
  | headers (f : Headers)
  | data (d : Data) (arena : Bool)
  | forward (i credit bodyMax : Nat) (accepted : Bool)
  | rearm
  | windowUpdate
  | free (i : Nat)

def turn (R : Limits) (c : RecvConn) (t : Turn) : RecvConn :=
  if c.closing then c
  else
    match t with
    | .settings => c.send .settings
    | .headers f => handleHeaders R c f
    | .data d arena => handleData R c d arena
    | .forward i credit bodyMax accepted => forwardRx c i credit bodyMax accepted
    | .rearm => rearmRefills R c
    | .windowUpdate => queueWindowUpdate R c
    | .free i => c.freeSlot i

def machine (R : Limits) : Machine RecvConn Turn Empty where
  step c t := (turn R c t, [])

def init (maxStreams : Nat) : RecvConn where
  slots := List.replicate maxStreams {}

/-- The window a stream starts with, for a peer that has read `out`. -/
def initialWindow (R : Limits) (out : List ServerMsg) : Nat :=
  if .settings ∈ out then R.streamWindow else RECV_WINDOW_INITIAL

/-- The peer had read some of the server's messages, in order, and the frame is empty, or what it had sent with it is
within what they allow. -/
def Obeys (R : Limits) (c : RecvConn) : Turn → Prop
  | .data d _ =>
    d.length = 0 ∨ sentAll c.arrived + d.length ≤ RECV_WINDOW_INITIAL + updates 0 (c.out.take d.read) ∧
      sentOn d.stream c.arrived + d.length ≤
        initialWindow R (c.out.take d.read) + updates d.stream (c.out.take d.read)
  | _ => True

instance (R : Limits) (c : RecvConn) : (t : Turn) → Decidable (Obeys R c t)
  | .data _ _ => inferInstanceAs (Decidable (_ ∨ _ ∧ _))
  | .settings | .headers _ | .forward _ _ _ _ | .rearm | .windowUpdate | .free _ => isTrue trivial

@[simp] theorem updates_append (s : Nat) (l l' : List ServerMsg) :
    updates s (l ++ l') = updates s l + updates s l' := by
  simp [updates]

theorem updates_take_le (s n : Nat) (l : List ServerMsg) : updates s (l.take n) ≤ updates s l := by
  conv_rhs => rw [← List.take_append_drop n l, updates_append]
  omega

theorem sentOn_concat (s : Nat) (l : List (Nat × Nat)) (a : Nat × Nat) :
    sentOn s (l ++ [a]) = sentOn s l + if a.1 = s then a.2 else 0 := by
  simp [sentOn]

theorem sentAll_concat (l : List (Nat × Nat)) (a : Nat × Nat) : sentAll (l ++ [a]) = sentAll l + a.2 := by
  simp [sentAll]

/-! ### The invariant -/

/-- A stream's window: `owed` of the bytes charged to it are not yet placed. -/
structure SlotInv (R : Limits) (out : List ServerMsg) (arrived : List (Nat × Nat)) (owed : Nat) (s : RecvSlot) :
    Prop where
  pos : 0 < s.id
  window : s.recvWindow = R.streamWindow - s.charged + updates s.id out
  held : s.charged = s.left + s.rxLen + owed
  granted : updates s.id out ≤ s.left
  arrived : s.charged ≤ sentOn s.id arrived

/-- `owed` bytes of the DATA frame in hand are charged and not yet placed, on the connection and then on slot `owner`.
-/
structure Owing (R : Limits) (c : RecvConn) (owed : Nat) (owner : Option Nat) : Prop where
  idle : ∀ i, (c.slot i).kind = .idle → (c.slot i).rxLen = 0
  slots : ∀ i, (c.slot i).kind ≠ .idle →
    SlotInv R c.out c.arrived (if owner = some i then owed else 0) (c.slot i)
  apart : ∀ i j, (c.slot i).kind ≠ .idle → (c.slot j).kind ≠ .idle → (c.slot i).id = (c.slot j).id → i = j
  known : c.closing = false → ∀ i, (c.slot i).kind ≠ .idle → (c.slot i).id ≤ c.lastStreamId
  news : c.closing = false → ∀ s, c.lastStreamId < s → updates s c.out = 0
  window : c.recvWindow = RECV_WINDOW_INITIAL - sentAll c.arrived + updates 0 c.out
  held : sentAll c.arrived = c.left + c.rxHeld + owed
  granted : updates 0 c.out ≤ c.left
  obeyed : sentAll c.arrived ≤ RECV_WINDOW_INITIAL + updates 0 c.out
  obeyedOn : ∀ s, sentOn s c.arrived ≤ RECV_WINDOW_INITIAL + updates s c.out
  refills : ∀ s inc left granted, .windowUpdate s inc left granted ∈ c.out → 0 < inc ∧ granted + inc = left
  inWindow : ∀ s, .flowControlError s .pastWindow ∉ c.out

abbrev RecvInv (R : Limits) (c : RecvConn) : Prop := Owing R c 0 none

section Steps

variable {R : Limits} {c : RecvConn} {owed i : Nat} {owner : Option Nat}

theorem slot_setSlot_ne {j : Nat} (h : j ≠ i) : (c.setSlot i x).slot j = c.slot j :=
  Table.getD_set_ne h

theorem slot_setSlot_self (h : i < c.slots.length) : (c.setSlot i x).slot i = x :=
  Table.getD_set_self h

theorem slot_setSlot_cases (h : i < c.slots.length) (x : RecvSlot) (j : Nat) :
    (j = i ∧ (c.setSlot i x).slot j = x) ∨ (j ≠ i ∧ (c.setSlot i x).slot j = c.slot j) := by
  by_cases hj : j = i
  · subst hj
    exact .inl ⟨rfl, slot_setSlot_self h⟩
  · exact .inr ⟨hj, slot_setSlot_ne hj⟩

theorem lt_of_kind (h : (c.slot i).kind ≠ .idle) : i < c.slots.length :=
  Table.lt_of_getD_ne (d := {}) fun he => h (by unfold RecvConn.slot; rw [he])

theorem rxHeld_setSlot (h : i < c.slots.length) (x : RecvSlot) :
    (c.setSlot i x).rxHeld + (c.slot i).rxLen = c.rxHeld + x.rxLen :=
  Table.sum_map_set RecvSlot.rxLen x {} h

theorem rxLen_le_rxHeld (h : i < c.slots.length) : (c.slot i).rxLen ≤ c.rxHeld := by
  have := rxHeld_setSlot h {}
  simp at this
  omega

theorem Owing.setSlot (h : Owing R c owed owner) {n owed' : Nat} {owner' : Option Nat}
    (hk : (c.slot i).kind ≠ .idle) (hid : x.id = (c.slot i).id) (hkind : x.kind = (c.slot i).kind)
    (hslot : SlotInv R c.out c.arrived (if owner' = some i then owed' else 0) x)
    (hother : ∀ j, j ≠ i → (if owner = some j then owed else 0) = (if owner' = some j then owed' else 0))
    (hheld : (c.slot i).rxLen + owed = n + x.rxLen + owed') :
    Owing R ((c.leave n).setSlot i x) owed' owner' := by
  have hlt := lt_of_kind hk
  have hsum := rxHeld_setSlot (c := c.leave n) (i := i) hlt x
  have hrx : (c.leave n).rxHeld = c.rxHeld := rfl
  have hrxi : ((c.leave n).slot i).rxLen = (c.slot i).rxLen := rfl
  have hcases := slot_setSlot_cases (c := c.leave n) hlt x
  constructor
  · intro j hj
    rcases hcases j with ⟨-, he⟩ | ⟨-, he⟩
    · rw [he, hkind] at hj
      exact absurd hj hk
    · rw [he] at hj ⊢
      exact h.idle j hj
  · intro j hj
    rcases hcases j with ⟨rfl, he⟩ | ⟨hne, he⟩
    · rw [he]
      exact hslot
    · rw [he] at hj ⊢
      have hs := h.slots j hj
      rw [hother j hne] at hs
      exact hs
  · intro j k hj hkk hjk
    rcases hcases j with ⟨rfl, he⟩ | ⟨hne, he⟩ <;> rcases hcases k with ⟨rfl, he'⟩ | ⟨hne', he'⟩
    · rfl
    · rw [he, he', hid] at hjk
      rw [he'] at hkk
      exact h.apart j k hk hkk hjk
    · rw [he, he', hid] at hjk
      rw [he] at hj
      exact h.apart j k hj hk hjk
    · rw [he, he'] at hjk
      rw [he] at hj
      rw [he'] at hkk
      exact h.apart j k hj hkk hjk
  · intro hopen j hj
    rcases hcases j with ⟨-, he⟩ | ⟨-, he⟩
    · rw [he, hid]
      exact h.known hopen i hk
    · rw [he] at hj ⊢
      exact h.known hopen j hj
  · exact h.news
  · exact h.window
  · have hc := h.held
    change sentAll c.arrived = c.left + n + ((c.leave n).setSlot i x).rxHeld + owed'
    omega
  · have hg := h.granted
    change updates 0 c.out ≤ c.left + n
    omega
  · exact h.obeyed
  · exact h.obeyedOn
  · exact h.refills
  · exact h.inWindow

theorem Owing.free (h : Owing R c owed owner) (howner : ∀ j, owner = some j → j = i) (hi : i < c.slots.length) :
    RecvInv R ((c.leave owed).freeSlot i) := by
  have hcases : ∀ j, (j = i ∧ ((c.leave owed).freeSlot i).slot j = {}) ∨
      (j ≠ i ∧ ((c.leave owed).freeSlot i).slot j = c.slot j) :=
    slot_setSlot_cases (c := (c.leave owed).leave (c.slot i).rxLen) hi {}
  have hsum := rxHeld_setSlot (c := (c.leave owed).leave (c.slot i).rxLen) (i := i) hi {}
  have hrx : ((c.leave owed).leave (c.slot i).rxLen).rxHeld = c.rxHeld := rfl
  have hrxi : (((c.leave owed).leave (c.slot i).rxLen).slot i).rxLen = (c.slot i).rxLen := rfl
  constructor
  · intro j hj
    rcases hcases j with ⟨-, he⟩ | ⟨-, he⟩
    · rw [he]
    · rw [he] at hj ⊢
      exact h.idle j hj
  · intro j hj
    rcases hcases j with ⟨-, he⟩ | ⟨hne, he⟩
    · rw [he] at hj
      exact absurd rfl hj
    · rw [he] at hj ⊢
      have hs := h.slots j hj
      rw [if_neg fun ho => hne (howner j ho)] at hs
      exact hs
  · intro j k hj hk hjk
    rcases hcases j with ⟨-, he⟩ | ⟨-, he⟩
    · rw [he] at hj
      exact absurd rfl hj
    rcases hcases k with ⟨-, he'⟩ | ⟨-, he'⟩
    · rw [he'] at hk
      exact absurd rfl hk
    rw [he, he'] at hjk
    rw [he] at hj
    rw [he'] at hk
    exact h.apart j k hj hk hjk
  · intro hopen j hj
    rcases hcases j with ⟨-, he⟩ | ⟨-, he⟩
    · rw [he] at hj
      exact absurd rfl hj
    · rw [he] at hj ⊢
      exact h.known hopen j hj
  · exact h.news
  · exact h.window
  · have hc := h.held
    change sentAll c.arrived = c.left + owed + (c.slot i).rxLen + ((c.leave owed).freeSlot i).rxHeld + 0
    change ((c.leave owed).freeSlot i).rxHeld + _ = _ + 0 at hsum
    omega
  · have hg := h.granted
    change updates 0 c.out ≤ c.left + owed + (c.slot i).rxLen
    omega
  · exact h.obeyed
  · exact h.obeyedOn
  · exact h.refills
  · exact h.inWindow

/-- Messages that neither refill a window nor blame the peer for passing one. -/
def harmless : ServerMsg → Bool
  | .windowUpdate _ _ _ _ => false
  | .flowControlError _ .pastWindow => false
  | _ => true

theorem updates_send {m : ServerMsg} (hm : harmless m = true) (s : Nat) : updates s (c.send m).out = updates s c.out := by
  have hzero : updates s [m] = 0 := by
    cases m with
    | windowUpdate _ _ _ _ => cases hm
    | _ => rfl
  change updates s (c.out ++ [m]) = _
  rw [updates_append, hzero, Nat.add_zero]

theorem Owing.send (h : Owing R c owed owner) {m : ServerMsg} (hm : harmless m = true) :
    Owing R (c.send m) owed owner where
  idle := h.idle
  slots j hj := by
    have hs := h.slots j hj
    have hu := updates_send (c := c) hm (c.slot j).id
    exact ⟨hs.pos, hs.window.trans (by rw [← hu]; rfl), hs.held, hu.trans_le hs.granted, hs.arrived⟩
  apart := h.apart
  known := h.known
  news hopen s hs := (updates_send hm s).trans (h.news hopen s hs)
  window := h.window.trans (by rw [← updates_send (c := c) hm 0]; rfl)
  held := h.held
  granted := (updates_send hm 0).trans_le h.granted
  obeyed := h.obeyed.trans_eq (by rw [← updates_send (c := c) hm 0])
  obeyedOn s := (h.obeyedOn s).trans_eq (by rw [← updates_send (c := c) hm s])
  refills s inc left granted hmem := by
    rcases List.mem_append.mp hmem with hmem | hmem
    · exact h.refills s inc left granted hmem
    · rw [← List.mem_singleton.mp hmem] at hm
      cases hm
  inWindow s hmem := by
    rcases List.mem_append.mp hmem with hmem | hmem
    · exact h.inWindow s hmem
    · rw [← List.mem_singleton.mp hmem] at hm
      cases hm

theorem Owing.leaveAll (h : Owing R c owed none) : RecvInv R (c.leave owed) where
  idle := h.idle
  slots j hj := by
    have hs := h.slots j hj
    simp only [reduceCtorEq, if_false] at hs ⊢
    exact hs
  apart := h.apart
  known := h.known
  news := h.news
  window := h.window
  held := by
    have hc := h.held
    change sentAll c.arrived = c.left + owed + c.rxHeld + 0
    omega
  granted := by
    have hg := h.granted
    change updates 0 c.out ≤ c.left + owed
    omega
  obeyed := h.obeyed
  obeyedOn := h.obeyedOn
  refills := h.refills
  inWindow := h.inWindow

theorem satSub_eq {w : Int} (h : -2147483648 ≤ w - n) : satSub w n = w - n := max_eq_right h

theorem Owing.consume (h : RecvInv R c) {stream n read : Nat}
    (hobey : n = 0 ∨ sentAll c.arrived + n ≤ RECV_WINDOW_INITIAL + updates 0 (c.out.take read) ∧
      sentOn stream c.arrived + n ≤ initialWindow R (c.out.take read) + updates stream (c.out.take read)) :
    Owing R (c.consumeRecvWindow stream n) n none := by
  have htake := updates_take_le 0 read c.out
  have htakeOn := updates_take_le stream read c.out
  have hwin := h.window
  have hR := R.le
  have hinit : initialWindow R (c.out.take read) ≤ RECV_WINDOW_INITIAL := by
    unfold initialWindow
    split
    · exact hR
    · exact le_rfl
  -- An empty frame changes neither sum.
  have hsofar := h.obeyed
  have hsofarOn := h.obeyedOn stream
  have hall : sentAll c.arrived + n ≤ RECV_WINDOW_INITIAL + updates 0 c.out := by omega
  have hon : sentOn stream c.arrived + n ≤ RECV_WINDOW_INITIAL + updates stream c.out := by omega
  have hsat : satSub c.recvWindow n = c.recvWindow - n := by
    apply satSub_eq
    unfold RECV_WINDOW_INITIAL at *
    omega
  constructor
  · exact h.idle
  · intro j hj
    have hs := h.slots j hj
    refine ⟨hs.pos, hs.window, hs.held, hs.granted, hs.arrived.trans ?_⟩
    change _ ≤ sentOn _ (c.arrived ++ [(stream, n)])
    rw [sentOn_concat]
    exact Nat.le_add_right _ _
  · exact h.apart
  · exact h.known
  · exact h.news
  · change satSub c.recvWindow n = RECV_WINDOW_INITIAL - sentAll (c.arrived ++ [(stream, n)]) + updates 0 c.out
    rw [hsat, sentAll_concat, hwin]
    omega
  · have hc := h.held
    change sentAll (c.arrived ++ [(stream, n)]) = c.left + c.rxHeld + n
    rw [sentAll_concat]
    omega
  · exact h.granted
  · change sentAll (c.arrived ++ [(stream, n)]) ≤ RECV_WINDOW_INITIAL + updates 0 c.out
    rw [sentAll_concat]
    omega
  · intro s
    change sentOn s (c.arrived ++ [(stream, n)]) ≤ RECV_WINDOW_INITIAL + updates s c.out
    rw [sentOn_concat]
    by_cases hs : stream = s
    · subst hs
      simp only [if_true]
      omega
    · have ho := h.obeyedOn s
      simp only [hs, if_false]
      omega
  · exact h.refills
  · exact h.inWindow

theorem Owing.consumeSlot (h : Owing R c owed none) (hk : (c.slot i).kind ≠ .idle)
    (hroom : (c.slot i).charged + owed ≤ sentOn (c.slot i).id c.arrived) :
    Owing R (c.setSlot i ((c.slot i).consume R owed)) owed (some i) := by
  have hs := h.slots i hk
  simp only [reduceCtorEq, if_false] at hs
  have ho := h.obeyedOn (c.slot i).id
  have hwin := hs.window
  have hsat : satSub (c.slot i).recvWindow owed = (c.slot i).recvWindow - owed := by
    apply satSub_eq
    unfold RECV_WINDOW_INITIAL at *
    omega
  refine h.setSlot (n := 0) (x := (c.slot i).consume R owed) hk rfl rfl ?_ ?_ ?_
  · rw [if_pos rfl]
    refine ⟨hs.pos, ?_, ?_, hs.granted, hroom⟩
    · change satSub (c.slot i).recvWindow owed = _ - (((c.slot i).charged + owed : Nat) : Int) + _
      rw [hsat, hwin]
      change _ = _ + ((updates (c.slot i).id c.out : Nat) : Int)
      omega
    · change (c.slot i).charged + owed = (c.slot i).left + (c.slot i).rxLen + owed
      have := hs.held
      omega
  · intro j hj
    simp only [reduceCtorEq, if_false, Option.some.injEq]
    rw [if_neg (Ne.symm hj)]
  · change (c.slot i).rxLen + owed = 0 + (c.slot i).rxLen + owed
    omega

/-! ### DATA -/

theorem bodyLen_le {d : Data} (h : d.bodyLen = some n) : n ≤ d.length := by
  unfold Data.bodyLen at h
  split at h
  · cases h
    exact le_rfl
  · split at h
    · cases h
    · cases h
      omega

theorem Owing.place (h : Owing R c owed (some i)) (hk : (c.slot i).kind ≠ .idle) (kept : Nat)
    (hkept : kept ≤ owed) (hid : x.id = (c.slot i).id) (hkind : x.kind = (c.slot i).kind)
    (hw : x.recvWindow = (c.slot i).recvWindow) (hcharged : x.charged = (c.slot i).charged)
    (hrx : x.rxLen = (c.slot i).rxLen + kept) (hleft : x.left = (c.slot i).left + (owed - kept)) :
    RecvInv R ((c.leave (owed - kept)).setSlot i x) := by
  have hs := h.slots i hk
  rw [if_pos rfl] at hs
  have hheld := hs.held
  have hgr := hs.granted
  refine h.setSlot hk hid hkind ?_ ?_ ?_
  · simp only [reduceCtorEq, if_false]
    refine ⟨by rw [hid]; exact hs.pos, by rw [hw, hid, hcharged]; exact hs.window, ?_, ?_, ?_⟩
    · rw [hcharged, hleft, hrx]
      omega
    · rw [hid, hleft]
      omega
    · rw [hcharged, hid]
      exact hs.arrived
  · intro j hj
    simp only [reduceCtorEq, if_false, Option.some.injEq]
    rw [if_neg (Ne.symm hj)]
  · rw [hrx]
    omega

/-- The bytes held and those in hand fit the connection's window, so that `append_rx` finds room for them. -/
theorem Owing.fits (h : Owing R c owed owner) (hi : i < c.slots.length) :
    (c.slot i).rxLen + owed ≤ RECV_WINDOW_INITIAL := by
  have hle := rxLen_le_rxHeld hi
  have h1 := h.held
  have h2 := h.granted
  have h3 := h.obeyed
  omega

theorem appendRx_ok {s s' : RecvSlot} {arena : Bool} (h : s.appendRx n arena = .ok s') :
    ∃ cap, s' = { s with rxLen := s.rxLen + n, rxCap := cap } := by
  unfold RecvSlot.appendRx at h
  dsimp only at h
  split at h
  next hn =>
    cases h
    exact ⟨s.rxCap, by simp [hn]⟩
  · split at h
    · cases h
    · split at h
      · split at h
        · cases h
          exact ⟨_, rfl⟩
        · cases h
      · cases h
        exact ⟨s.rxCap, rfl⟩

theorem appendRx_error {s : RecvSlot} {arena : Bool} {e : RxFailure} (h : s.appendRx n arena = .error e)
    (hfit : s.rxLen + n ≤ RECV_WINDOW_INITIAL) : e = .noArena ∧ arena = false := by
  unfold RecvSlot.appendRx at h
  dsimp only at h
  split at h
  · cases h
  · rw [if_neg (by omega)] at h
    split at h
    · split at h
      · cases h
      next ha =>
        cases h
        exact ⟨rfl, by simpa using ha⟩
    · cases h

theorem Owing.nothing (h : Owing R c 0 owner) : RecvInv R c :=
  { h with
    slots := fun j hj => by
      have hs := h.slots j hj
      simp only [ite_self] at hs ⊢
      exact hs }

theorem RecvInv.closed (h : RecvInv R c) : RecvInv R { c with closing := true } :=
  { h with
    known := by
      rintro ⟨⟩
    news := by
      rintro ⟨⟩ }

theorem RecvInv.goaway (h : RecvInv R c) : RecvInv R c.queueGoaway := RecvInv.closed (h.send rfl)

/-- The body is taken, refused or given up; a non-idle slot stays so exactly when the stream goes on. -/
theorem Owing.takeBody {d : Data} (h : Owing R c d.length (some i)) (hk : (c.slot i).kind ≠ .idle) (arena : Bool) :
    RecvInv R (takeBody c i d arena).1 ∧
      ((takeBody c i d arena).2 = true → ((takeBody c i d arena).1.slot i).kind ≠ .idle) := by
  have hlt := lt_of_kind hk
  have hfit := h.fits hlt
  unfold Recv.takeBody
  dsimp only
  split
  · refine ⟨RecvInv.goaway ?_, by simp⟩
    exact h.place hk 0 (Nat.zero_le _) rfl rfl rfl rfl rfl rfl
  next n hn =>
    have hle := bodyLen_le hn
    split
    · refine ⟨h.place hk 0 (Nat.zero_le _) rfl rfl rfl rfl rfl rfl, fun _ => ?_⟩
      rw [slot_setSlot_self (by exact hlt)]
      exact hk
    · split
      · exact ⟨Owing.send (h.free (by simp) hlt) rfl, by simp⟩
      · split
        · split
          next s' hs' =>
            obtain ⟨cap, rfl⟩ := appendRx_ok hs'
            refine ⟨h.place hk n hle rfl rfl rfl rfl rfl rfl, fun _ => ?_⟩
            rw [slot_setSlot_self (by exact hlt)]
            exact hk
          next e he =>
            obtain ⟨rfl, -⟩ := appendRx_error he (by change (c.slot i).rxLen + n ≤ _; omega)
            exact ⟨Owing.send (h.free (by simp) hlt) rfl, by simp⟩
        · refine ⟨h.place hk 0 (Nat.zero_le _) rfl rfl rfl rfl rfl rfl, fun _ => ?_⟩
          rw [slot_setSlot_self (by exact hlt)]
          exact hk

theorem RecvInv.markEnd (h : RecvInv R c) (hk : (c.slot i).kind ≠ .idle) (d : Data) : RecvInv R (markEnd c i d) := by
  unfold Recv.markEnd
  split
  · have hs := h.slots i hk
    exact h.setSlot (n := 0) hk rfl rfl ⟨hs.pos, hs.window, hs.held, hs.granted, hs.arrived⟩ (fun _ _ => rfl)
      (by simp)
  · exact h

theorem slotForId_some {id : Nat} (h : c.slotForId id = some i) :
    (c.slot i).id = id ∧ (c.slot i).kind ≠ .idle := by
  unfold RecvConn.slotForId at h
  split at h
  · cases h
  · obtain ⟨hlt, hp⟩ := List.findIdx?_eq_some_iff_getElem.mp h
    have hslot : c.slot i = c.slots[i] := by
      unfold RecvConn.slot
      rw [List.getD_eq_getElem _ _ hlt]
    rw [hslot]
    simpa using hp.1

theorem RecvInv.data (h : RecvInv R c) {d : Data} (hobey : Obeys R c (.data d true)) (arena : Bool) :
    RecvInv R (handleData R c d arena) := by
  unfold handleData
  split
  · exact h.goaway
  · have hcons := Owing.consume h hobey
    dsimp only
    split
    · have hleft := hcons.leaveAll
      split
      · exact hleft
      · exact hleft.send rfl
    next i hi =>
      obtain ⟨hid, hk⟩ := slotForId_some hi
      have hlt := lt_of_kind hk
      have hroom : ((c.consumeRecvWindow d.stream d.length).slot i).charged + d.length ≤
          sentOn ((c.consumeRecvWindow d.stream d.length).slot i).id (c.consumeRecvWindow d.stream d.length).arrived := by
        have ha := (h.slots i hk).arrived
        change (c.slot i).charged + d.length ≤ sentOn (c.slot i).id (c.arrived ++ [(d.stream, d.length)])
        rw [sentOn_concat, hid, if_pos rfl]
        rw [hid] at ha
        omega
      have hslot := hcons.consumeSlot (i := i) hk hroom
      have hself : ((c.consumeRecvWindow d.stream d.length).setSlot i ((c.slot i).consume R d.length)).slot i =
          (c.slot i).consume R d.length := slot_setSlot_self hlt
      change Owing R ((c.consumeRecvWindow d.stream d.length).setSlot i ((c.slot i).consume R d.length)) d.length
        (some i) at hslot
      have hk' : (((c.consumeRecvWindow d.stream d.length).setSlot i ((c.slot i).consume R d.length)).slot i).kind ≠
          .idle := by
        rw [hself]
        exact hk
      split
      · exact hslot.place hk' 0 (Nat.zero_le _) (by rw [hself]) (by rw [hself]) (by rw [hself])
          (by rw [hself]) (by rw [hself]; rfl) (by rw [hself]; rfl)
      · split
        next hz =>
          rw [hz] at hslot hk' ⊢
          exact RecvInv.markEnd hslot.nothing hk' d
        · obtain ⟨hbody, hgoes⟩ := hslot.takeBody hk' arena
          split
          next hr => exact RecvInv.markEnd hbody (hgoes hr) d
          · exact hbody

/-! ### The other turns -/

theorem findIdx?_slot {p : RecvSlot → Bool} (h : c.slots.findIdx? p = some i) :
    i < c.slots.length ∧ p (c.slot i) = true := by
  obtain ⟨hlt, hp⟩ := List.findIdx?_eq_some_iff_getElem.mp h
  refine ⟨hlt, ?_⟩
  unfold RecvConn.slot
  rw [List.getD_eq_getElem _ _ hlt]
  exact hp.1

theorem RecvInv.lastStreamId (h : RecvInv R c) {stream : Nat} (hnew : c.lastStreamId < stream) :
    RecvInv R { c with lastStreamId := stream } :=
  { h with
    known := fun hopen j hj => (h.known hopen j hj).trans hnew.le
    news := fun hopen s hs => h.news hopen s (hnew.trans hs) }

/-- A stream that is new to the connection takes an idle slot. -/
theorem RecvInv.take (h : RecvInv R c) (hi : i < c.slots.length) (hidle : (c.slot i).kind = .idle)
    (hpos : 0 < x.id) (hwin : x.recvWindow = R.streamWindow) (hzero : x.charged = 0 ∧ x.left = 0 ∧ x.rxLen = 0)
    (hfresh : updates x.id c.out = 0) (hnew : ∀ j, (c.slot j).kind ≠ .idle → (c.slot j).id ≠ x.id)
    (hknown : c.closing = false → x.id ≤ c.lastStreamId) : RecvInv R (c.setSlot i x) := by
  have hcases := slot_setSlot_cases hi x
  have hsum := rxHeld_setSlot hi x
  have hempty := h.idle i hidle
  obtain ⟨hcharged, hleft, hrx⟩ := hzero
  constructor
  · intro j hj
    rcases hcases j with ⟨-, he⟩ | ⟨-, he⟩
    · rw [he]
      exact hrx
    · rw [he] at hj ⊢
      exact h.idle j hj
  · intro j hj
    rcases hcases j with ⟨-, he⟩ | ⟨-, he⟩
    · rw [he]
      refine ⟨hpos, ?_, by rw [hcharged, hleft, hrx]; rfl, hfresh.trans_le (Nat.zero_le _), by
        rw [hcharged]; exact Nat.zero_le _⟩
      change x.recvWindow = R.streamWindow - (x.charged : Int) + ((updates x.id c.out : Nat) : Int)
      rw [hwin, hcharged, hfresh]
      simp
    · rw [he] at hj ⊢
      exact h.slots j hj
  · intro j k hj hk hjk
    rcases hcases j with ⟨rfl, he⟩ | ⟨hne, he⟩ <;> rcases hcases k with ⟨rfl, he'⟩ | ⟨hne', he'⟩
    · rfl
    · rw [he, he'] at hjk
      rw [he'] at hk
      exact absurd hjk.symm (hnew k hk)
    · rw [he, he'] at hjk
      rw [he] at hj
      exact absurd hjk (hnew j hj)
    · rw [he, he'] at hjk
      rw [he] at hj
      rw [he'] at hk
      exact h.apart j k hj hk hjk
  · intro hopen j hj
    rcases hcases j with ⟨-, he⟩ | ⟨-, he⟩
    · rw [he]
      exact hknown hopen
    · rw [he] at hj ⊢
      exact h.known hopen j hj
  · exact h.news
  · exact h.window
  · have hc := h.held
    change sentAll c.arrived = c.left + (c.setSlot i x).rxHeld + 0
    omega
  · exact h.granted
  · exact h.obeyed
  · exact h.obeyedOn
  · exact h.refills
  · exact h.inWindow

theorem allocSlot_some (h : allocSlot R c = some i) : i < c.slots.length ∧ (c.slot i).kind = .idle := by
  unfold allocSlot at h
  split at h
  · cases h
  · obtain ⟨hlt, hidle⟩ := findIdx?_slot h
    exact ⟨hlt, of_decide_eq_true hidle⟩

theorem RecvInv.headers (h : RecvInv R c) (hopen : c.closing = false) (f : Headers) :
    RecvInv R (handleHeaders R c f) := by
  unfold handleHeaders
  split
  · exact h.goaway
  next hfine =>
    have hlast : c.lastStreamId < f.stream := by omega
    have hfresh : updates f.stream c.out = 0 := h.news hopen f.stream hlast
    have hnew : ∀ j, (c.slot j).kind ≠ .idle → (c.slot j).id ≠ f.stream := fun j hj =>
      ((h.known hopen j hj).trans_lt hlast).ne
    split
    · exact h.send rfl
    next i hi =>
      obtain ⟨hlt, hidle⟩ := allocSlot_some hi
      dsimp only
      split
      · -- The slot stays taken on a connection that closes, under an id past `last_stream_id`.
        have hpast : ({ c with closing := true } : RecvConn).closing = false → f.stream ≤ c.lastStreamId := by
          rintro ⟨⟩
        have htaken := h.closed.take (x := { id := f.stream, kind := .dropped, recvWindow := R.streamWindow }) hlt
          hidle (Nat.zero_lt_of_lt hlast) rfl ⟨rfl, rfl, rfl⟩ hfresh hnew hpast
        exact htaken.goaway
      · exact (h.lastStreamId hlast).goaway
      · split
        · exact h.lastStreamId hlast
        · exact (h.lastStreamId hlast).take hlt hidle (Nat.zero_lt_of_lt hlast) rfl ⟨rfl, rfl, rfl⟩ hfresh hnew
            fun _ => le_rfl

theorem RecvInv.forward (h : RecvInv R c) (i credit bodyMax : Nat) (accepted : Bool) :
    RecvInv R (forwardRx c i credit bodyMax accepted) := by
  unfold forwardRx
  dsimp only
  split
  next happ =>
    have hk : (c.slot i).kind ≠ .idle := by rw [happ.1]; decide
    have hs := h.slots i hk
    have hheld := hs.held
    have hgr := hs.granted
    have hle : min (c.slot i).rxLen (min credit bodyMax) ≤ (c.slot i).rxLen := Nat.min_le_left _ _
    simp only [reduceCtorEq, if_false] at hheld
    refine h.setSlot (n := min (c.slot i).rxLen (min credit bodyMax)) hk rfl rfl ?_ (fun _ _ => rfl) ?_
    · simp only [reduceCtorEq, if_false]
      refine ⟨hs.pos, hs.window, ?_, ?_, hs.arrived⟩
      · change (c.slot i).charged = (c.slot i).left + _ + ((c.slot i).rxLen - _) + 0
        omega
      · change updates (c.slot i).id c.out ≤ (c.slot i).left + _
        omega
    · change (c.slot i).rxLen + 0 = _ + ((c.slot i).rxLen - _) + 0
      omega
  · exact h

theorem slot_map {f : RecvSlot → RecvSlot} (hf : f {} = {}) (c : RecvConn) (i : Nat) :
    ({ c with slots := c.slots.map f } : RecvConn).slot i = f (c.slot i) := by
  unfold RecvConn.slot
  simp only [List.getD_eq_getElem?_getD, List.getElem?_map]
  cases c.slots[i]? with
  | none => exact hf.symm
  | some s => rfl

theorem RecvInv.pending (h : RecvInv R c) (p : Bool) (f : RecvSlot → Bool) (hf : f {} = false) :
    RecvInv R { c with windowUpdatePending := p, slots := c.slots.map fun s => { s with windowUpdatePending := f s } } := by
  have hslot : ∀ i, ({ c with windowUpdatePending := p, slots := c.slots.map fun s =>
      { s with windowUpdatePending := f s } } : RecvConn).slot i =
      { c.slot i with windowUpdatePending := f (c.slot i) } :=
    slot_map (f := fun s => { s with windowUpdatePending := f s }) (by rw [hf]) { c with windowUpdatePending := p }
  constructor
  · intro i hi
    rw [hslot] at hi ⊢
    exact h.idle i hi
  · intro i hi
    rw [hslot] at hi ⊢
    have hs := h.slots i hi
    exact ⟨hs.pos, hs.window, hs.held, hs.granted, hs.arrived⟩
  · intro i j hi hj hij
    rw [hslot] at hi hij
    rw [hslot] at hj hij
    exact h.apart i j hi hj hij
  · intro hopen i hi
    rw [hslot] at hi ⊢
    exact h.known hopen i hi
  · exact h.news
  · exact h.window
  · have hheld : ({ c with windowUpdatePending := p, slots := c.slots.map fun s =>
        { s with windowUpdatePending := f s } } : RecvConn).rxHeld = c.rxHeld := by
      simp only [RecvConn.rxHeld, List.map_map]
      rfl
    rw [hheld]
    exact h.held
  · exact h.granted
  · exact h.obeyed
  · exact h.obeyedOn
  · exact h.refills
  · exact h.inWindow

theorem RecvInv.rearm (h : RecvInv R c) : RecvInv R (rearmRefills R c) :=
  h.pending _ _ (by simp)

theorem updates_update (s stream inc left granted : Nat) (out : List ServerMsg) :
    updates s (out ++ [ServerMsg.windowUpdate stream inc left granted]) =
      updates s out + if stream = s then inc else 0 := by
  simp [updates]

theorem RecvInv.refill (h : RecvInv R c) {inc : Nat} (hpos : 0 < inc) (hinc : updates 0 c.out + inc = c.left) :
    RecvInv R { c with
      out := c.out ++ [ServerMsg.windowUpdate 0 inc c.left (updates 0 c.out)], recvWindow := c.recvWindow + inc } := by
  have hne : ∀ s, 0 < s → updates s (c.out ++ [ServerMsg.windowUpdate 0 inc c.left (updates 0 c.out)]) = updates s c.out := by
    intro s hs
    rw [updates_update, if_neg (by omega), Nat.add_zero]
  have hself : updates 0 (c.out ++ [ServerMsg.windowUpdate 0 inc c.left (updates 0 c.out)]) = updates 0 c.out + inc := by
    rw [updates_update, if_pos rfl]
  have hwin := h.window
  have hob := h.obeyed
  constructor
  · exact h.idle
  · intro j hj
    have hs := h.slots j hj
    have hu := hne (c.slot j).id hs.pos
    exact ⟨hs.pos, hs.window.trans (by rw [← hu]; rfl), hs.held, hu.trans_le hs.granted, hs.arrived⟩
  · exact h.apart
  · exact h.known
  · intro hopen s hs
    exact (hne s (by omega)).trans (h.news hopen s hs)
  · change c.recvWindow + inc = RECV_WINDOW_INITIAL - sentAll c.arrived + ((updates 0 (c.out ++ _) : Nat) : Int)
    rw [hself]
    omega
  · exact h.held
  · exact (hself.trans hinc).le
  · change sentAll c.arrived ≤ RECV_WINDOW_INITIAL + updates 0 (c.out ++ _)
    rw [hself]
    omega
  · intro s
    have ho := h.obeyedOn s
    change sentOn s c.arrived ≤ RECV_WINDOW_INITIAL + updates s (c.out ++ _)
    rw [updates_update]
    omega
  · intro s inc' left granted hmem
    rcases List.mem_append.mp hmem with hmem | hmem
    · exact h.refills s inc' left granted hmem
    · cases List.mem_singleton.mp hmem
      exact ⟨hpos, hinc⟩
  · intro s hmem
    rcases List.mem_append.mp hmem with hmem | hmem
    · exact h.inWindow s hmem
    · cases List.mem_singleton.mp hmem

theorem RecvInv.refillSlot (h : RecvInv R c) (hk : (c.slot i).kind ≠ .idle) {inc : Nat} (hpos : 0 < inc)
    (hinc : updates (c.slot i).id c.out + inc = (c.slot i).left) :
    RecvInv R ((c.send (.windowUpdate (c.slot i).id inc (c.slot i).left (updates (c.slot i).id c.out))).setSlot i
      { c.slot i with recvWindow := (c.slot i).recvWindow + inc, windowUpdatePending := false }) := by
  have hlt := lt_of_kind hk
  have hs := h.slots i hk
  have hid := hs.pos
  have hwin := hs.window
  have hne : ∀ s, (c.slot i).id ≠ s → updates s (c.out ++
      [ServerMsg.windowUpdate (c.slot i).id inc (c.slot i).left (updates (c.slot i).id c.out)]) = updates s c.out := by
    intro s hs
    rw [updates_update, if_neg hs, Nat.add_zero]
  have hself : updates (c.slot i).id (c.out ++
      [ServerMsg.windowUpdate (c.slot i).id inc (c.slot i).left (updates (c.slot i).id c.out)]) =
      updates (c.slot i).id c.out + inc := by
    rw [updates_update, if_pos rfl]
  set m : ServerMsg := .windowUpdate (c.slot i).id inc (c.slot i).left (updates (c.slot i).id c.out) with hm
  set x : RecvSlot := { c.slot i with recvWindow := (c.slot i).recvWindow + inc, windowUpdatePending := false }
    with hx
  have hcases : ∀ j, (j = i ∧ ((c.send m).setSlot i x).slot j = x) ∨
      (j ≠ i ∧ ((c.send m).setSlot i x).slot j = c.slot j) := slot_setSlot_cases (c := c.send m) hlt x
  have hsum := rxHeld_setSlot (c := c.send m) (i := i) hlt x
  constructor
  · intro j hj
    rcases hcases j with ⟨-, he⟩ | ⟨-, he⟩
    · rw [he] at hj
      exact absurd hj hk
    · rw [he] at hj ⊢
      exact h.idle j hj
  · intro j hj
    rcases hcases j with ⟨rfl, he⟩ | ⟨hji, he⟩
    · rw [he]
      refine ⟨hid, ?_, hs.held, ?_, hs.arrived⟩
      · change (c.slot j).recvWindow + inc =
          R.streamWindow - ((c.slot j).charged : Int) + ((updates (c.slot j).id (c.out ++ [m]) : Nat) : Int)
        rw [hself]
        omega
      · change updates (c.slot j).id (c.out ++ [m]) ≤ (c.slot j).left
        omega
    · rw [he] at hj ⊢
      have hsj := h.slots j hj
      have hu := hne (c.slot j).id fun heq => hji (h.apart i j hk hj heq).symm
      exact ⟨hsj.pos, hsj.window.trans (by rw [← hu]; rfl), hsj.held, hu.trans_le hsj.granted, hsj.arrived⟩
  · intro j k hj hkk hjk
    rcases hcases j with ⟨rfl, he⟩ | ⟨-, he⟩ <;> rcases hcases k with ⟨rfl, he'⟩ | ⟨-, he'⟩
    · rfl
    · rw [he, he'] at hjk
      rw [he'] at hkk
      exact h.apart j k hk hkk hjk
    · rw [he, he'] at hjk
      rw [he] at hj
      exact h.apart j k hj hk hjk
    · rw [he, he'] at hjk
      rw [he] at hj
      rw [he'] at hkk
      exact h.apart j k hj hkk hjk
  · intro hopen j hj
    rcases hcases j with ⟨-, he⟩ | ⟨-, he⟩
    · rw [he]
      exact h.known hopen i hk
    · rw [he] at hj ⊢
      exact h.known hopen j hj
  · intro hopen s hlast
    have := h.known hopen i hk
    exact (hne s (by change c.lastStreamId < s at hlast; omega)).trans (h.news hopen s hlast)
  · exact h.window.trans (by rw [← hne 0 (by omega)]; rfl)
  · have hc := h.held
    change sentAll c.arrived = c.left + ((c.send m).setSlot i x).rxHeld + 0
    change _ + (c.slot i).rxLen = c.rxHeld + (c.slot i).rxLen at hsum
    omega
  · exact (hne 0 (by omega)).trans_le h.granted
  · exact h.obeyed.trans_eq (by rw [← hne 0 (by omega)]; rfl)
  · intro s
    have ho := h.obeyedOn s
    change sentOn s c.arrived ≤ RECV_WINDOW_INITIAL + updates s (c.out ++ [m])
    rw [hm, updates_update]
    omega
  · intro s inc' left granted hmem
    rcases List.mem_append.mp hmem with hmem | hmem
    · exact h.refills s inc' left granted hmem
    · have he := List.mem_singleton.mp hmem
      rw [hm] at he
      cases he
      exact ⟨hpos, hinc⟩
  · intro s hmem
    rcases List.mem_append.mp hmem with hmem | hmem
    · exact h.inWindow s hmem
    · have he := List.mem_singleton.mp hmem
      rw [hm] at he
      cases he

theorem RecvInv.windowUpdate (h : RecvInv R c) : RecvInv R (queueWindowUpdate R c) := by
  unfold queueWindowUpdate
  split
  · have hsame : RecvInv R { c with windowUpdatePending := false } := { h with }
    dsimp only
    split
    next hdelta =>
      have hwin := h.window
      have hheld := h.held
      obtain ⟨inc, hinc⟩ := Int.eq_ofNat_of_zero_le hdelta.le
      have hleft : updates 0 c.out + inc = c.left := by omega
      have hpos : 0 < inc := by omega
      have heq : (RECV_WINDOW_INITIAL : Int) - c.recvWindow - c.rxHeld = inc := hinc
      rw [heq]
      exact hsame.refill hpos hleft
    · exact hsame
  · split
    · exact h
    next i hi =>
      obtain ⟨-, hp⟩ := findIdx?_slot hi
      have hk : (c.slot i).kind ≠ .idle := by
        simp at hp
        exact hp.2.2
      have hs := h.slots i hk
      have hwin := hs.window
      have hheld := hs.held
      simp only [reduceCtorEq, if_false] at hheld
      dsimp only
      split
      next hdelta =>
        obtain ⟨inc, hinc⟩ := Int.eq_ofNat_of_zero_le hdelta.le
        have hleft : updates (c.slot i).id c.out + inc = (c.slot i).left := by omega
        have hpos : 0 < inc := by omega
        have heq : (R.streamWindow : Int) - (c.slot i).recvWindow - (c.slot i).rxLen = inc := hinc
        rw [heq]
        exact h.refillSlot hk hpos hleft
      · exact h.setSlot (n := 0) hk rfl rfl ⟨hs.pos, hs.window, hs.held, hs.granted, hs.arrived⟩ (fun _ _ => rfl)
          (by simp)

theorem RecvInv.turn (h : RecvInv R c) (t : Turn) (hobey : Obeys R c t) : RecvInv R (turn R c t) := by
  unfold Recv.turn
  split
  · exact h
  next hopen =>
    cases t with
    | settings => exact h.send rfl
    | headers f => exact h.headers (Bool.eq_false_iff.mpr hopen) f
    | data d arena => exact h.data hobey arena
    | forward i credit bodyMax accepted => exact h.forward i credit bodyMax accepted
    | rearm => exact h.rearm
    | windowUpdate => exact h.windowUpdate
    | free i =>
      by_cases hi : i < c.slots.length
      · exact Owing.free h (by simp) hi
      · have hsame : c.freeSlot i = c := by
          have hslot : c.slot i = {} := List.getD_eq_default _ _ (Nat.le_of_not_lt hi)
          have hset : c.slots.set i {} = c.slots := List.set_eq_of_length_le (Nat.le_of_not_lt hi)
          simp [RecvConn.freeSlot, RecvConn.leave, RecvConn.setSlot, hslot, hset]
        dsimp only
        rw [hsame]
        exact h

end Steps

theorem recvInv_init (R : Limits) (maxStreams : Nat) : RecvInv R (init maxStreams) := by
  have hslot : ∀ i, (init maxStreams).slot i = {} := by
    intro i
    simp only [init, RecvConn.slot, List.getD_eq_getElem?_getD, List.getElem?_replicate]
    split <;> rfl
  constructor
  · intro i _
    rw [hslot]
  · intro i hi
    rw [hslot] at hi
    exact absurd rfl hi
  · intro i j hi
    rw [hslot] at hi
    exact absurd rfl hi
  · intro _ i hi
    rw [hslot] at hi
    exact absurd rfl hi
  · intro _ s _
    rfl
  · rfl
  · have hz : (init maxStreams).rxHeld = 0 := by simp [init, RecvConn.rxHeld]
    rw [hz]
    rfl
  · exact le_rfl
  · exact Nat.zero_le _
  · intro s
    exact Nat.zero_le _
  · intro s inc left granted hmem
    cases hmem
  · intro s hmem
    cases hmem

/-- With a peer that obeys: no window is passed, every WINDOW_UPDATE is positive and gives back exactly what has left
since the last, and `append_rx` never fails for want of window. -/
theorem windows_kept (R : Limits) (maxStreams : Nat) (turns : List Turn)
    (hobey : (machine R).Along (Obeys R) (init maxStreams) turns) :
    let c := ((machine R).run (init maxStreams) turns).1
    (∀ s ∈ c.slots, s.kind ≠ .idle → s.recvWindow + s.rxLen ≤ R.streamWindow) ∧
      c.recvWindow + c.rxHeld ≤ RECV_WINDOW_INITIAL ∧
      (∀ s inc left granted, .windowUpdate s inc left granted ∈ c.out → 0 < inc ∧ granted + inc = left) ∧
      ∀ s cause, .flowControlError s cause ∈ c.out → cause = .noArena := by
  have h : RecvInv R ((machine R).run (init maxStreams) turns).1 :=
    (machine R).run_invariant (P := Obeys R) (fun _ t hc ht => hc.turn t ht) (recvInv_init R maxStreams) hobey
  dsimp only
  generalize ((machine R).run (init maxStreams) turns).1 = c at h
  refine ⟨?_, ?_, h.refills, ?_⟩
  · intro s hs hk
    obtain ⟨i, hi, his⟩ := List.mem_iff_getElem.mp hs
    have hslot : c.slot i = s := by
      unfold RecvConn.slot
      rw [List.getD_eq_getElem _ _ hi, his]
    have hinv := h.slots i (by rw [hslot]; exact hk)
    rw [hslot] at hinv
    have h1 := hinv.window
    have h2 := hinv.held
    have h3 := hinv.granted
    simp only [reduceCtorEq, if_false] at h2
    omega
  · have h1 := h.window
    have h2 := h.held
    have h3 := h.granted
    omega
  · intro s cause hmem
    cases cause with
    | noArena => rfl
    | pastWindow => exact absurd hmem (h.inWindow s)

def smallBoard : Limits where
  streamWindow := 2039
  streamLimit := 16
  le := by decide

def slowUpload : List Turn :=
  [.settings, .headers { stream := 1, block := .request .app 1000000 }, .data { stream := 1, length := 3000 } true,
    .data { stream := 1, length := 0, read := 1 } true, .forward 0 2500 8192 true, .rearm, .windowUpdate,
    .data { stream := 1, length := 1500, pad := some 9, read := 2 } true]

theorem windows_kept_slowUpload :
    let c := ((machine smallBoard).run (init 16) slowUpload).1
    (∀ s ∈ c.slots, s.kind ≠ .idle → s.recvWindow + s.rxLen ≤ smallBoard.streamWindow) ∧
      c.recvWindow + c.rxHeld ≤ RECV_WINDOW_INITIAL ∧
      (∀ s inc left granted, .windowUpdate s inc left granted ∈ c.out → 0 < inc ∧ granted + inc = left) ∧
      ∀ s cause, .flowControlError s cause ∈ c.out → cause = .noArena :=
  windows_kept smallBoard 16 slowUpload (by decide)

/-- Ten bytes within every window, and an arena that cannot hold them: the stream is reset with
FLOW_CONTROL_ERROR. -/
theorem reset_without_arena :
    (machine smallBoard).Along (Obeys smallBoard) (init 16)
        [.settings, .headers { stream := 1, block := .request .app 1000000 },
          .data { stream := 1, length := 10, read := 1 } false] ∧
      .flowControlError 1 .noArena ∈ ((machine smallBoard).run (init 16)
        [.settings, .headers { stream := 1, block := .request .app 1000000 },
          .data { stream := 1, length := 10, read := 1 } false]).1.out := by
  decide

end Wave.Http.Recv
