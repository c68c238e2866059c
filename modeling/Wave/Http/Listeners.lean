import Wave.Http.DynRoutes
import Wave.Lib.Machine

/-! # Dynamic listeners (`http/server/listeners.rs`)

`ListenWorld` adds the network provider: commands taken, sockets held, replies not read. -/

namespace Wave.Http.Listen

open Lib Common Http.Routing

def MAX_DYN_LISTENERS : Nat := 8

inductive ListenerState where
  | idle
  | binding
  | bound
  | refused
deriving DecidableEq

structure ListenerRow where
  key : Bytes := []
  port : UInt16 := 0
  tls : Bool := false
  used : Bool := false

/-- A bind record; an id of `-1` is `none`. -/
structure BoundListener where
  port : UInt16 := 0
  state : ListenerState := .idle
  used : Bool := false
  connId : Option UInt16 := none
deriving DecidableEq

structure DynListeners where
  live : List ListenerRow := List.replicate MAX_DYN_LISTENERS {}
  shadow : List ListenerRow := List.replicate MAX_DYN_LISTENERS {}
  bound : List BoundListener := List.replicate MAX_DYN_LISTENERS {}
  dropped : UInt32 := 0

def listenerPortOfKey (key : Bytes) : UInt16 :=
  (dynU32 ((key.reverse.takeWhile (· ≠ SLASH)).reverse)).toUInt16

def listenerRow (key value : Bytes) : ListenerRow where
  key := key.take MAX_DYN_KEY
  port := listenerPortOfKey key
  tls := ((dynField value (ascii "tls=")).map fun v => decide (dynU32 v ≠ 0)).getD false
  used := true

def ListenerRow.freed (r : ListenerRow) : ListenerRow := { r with used := false }

section

variable (t : DynListeners)

def DynListeners.setArena (shadow : Bool) (rows : List ListenerRow) : DynListeners :=
  if shadow then { t with shadow := rows } else { t with live := rows }

/-- The table consumer's calls; the bind records are not part of the table. -/
def DynListeners.apply : TableOp → DynListeners
  | .upsert key value shadow =>
    let rows := if shadow then t.shadow else t.live
    match upsertSlot ListenerRow.used ListenerRow.key rows key with
    | none => { t with dropped := t.dropped + 1 }
    | some i => t.setArena shadow (rows.set i (listenerRow key value))
  | .remove key shadow =>
    t.setArena shadow
      (withdraw ListenerRow.used ListenerRow.key ListenerRow.freed key (if shadow then t.shadow else t.live))
  | .clearShadow => { t with shadow := t.shadow.map ListenerRow.freed }
  | .swapShadow => { t with live := t.shadow }

def DynListeners.boundSlotFor (port : UInt16) : Option Nat :=
  t.bound.findIdx? fun b => b.used && b.port = port

def DynListeners.setState (port : UInt16) (f : BoundListener → BoundListener) :
    DynListeners :=
  match t.boundSlotFor port with
  | some i => { t with bound := t.bound.modify i f }
  | none => t

def DynListeners.markBound (port conn : UInt16) : DynListeners :=
  t.setState port fun b => { b with state := .bound, connId := some conn }

def DynListeners.markRefused (port : UInt16) : DynListeners :=
  t.setState port fun b => { b with state := .refused }

end

inductive ListenCmd where
  | bind (port : UInt16)
  | close (conn : UInt16)
deriving DecidableEq

inductive BindReply where
  | bound (conn port : UInt16)
  | refused (port : UInt16)

def BindReply.port : BindReply → UInt16
  | .bound _ port | .refused port => port

structure Listening where
  conn : UInt16
  port : UInt16
deriving DecidableEq

structure ListenWorld extends DynListeners where
  staticPort : UInt16 := 80
  queue : List ListenCmd := []
  sockets : List Listening := []
  replies : List BindReply := []

/-- The answers of `net_out` to the writes of one reconciliation, by loop index. -/
structure ListenInput where
  bindTaken : Nat → Bool := fun _ => true
  closeTaken : Nat → Bool := fun _ => true

def ListenerRow.wants (r : ListenerRow) (port : UInt16) : Bool := r.used && r.port = port && !r.tls

def DynListeners.desired (t : DynListeners) (port : UInt16) : Bool := t.live.any (·.wants port)

def bindRow (inp : ListenInput) (w : ListenWorld) (r : ListenerRow × Nat) : ListenWorld :=
  let port := r.1.port
  if !r.1.used || port = 0 || r.1.tls || port = w.staticPort || (w.boundSlotFor port).isSome then w
  else
    match w.bound.findIdx? fun b => !b.used with
    | none => { w with dropped := w.dropped + 1 }
    | some bi =>
      if inp.bindTaken r.2 then
        { w with
          bound := w.bound.set bi { port := port, state := .binding, used := true }
          queue := w.queue ++ [ListenCmd.bind port] }
      else { w with bound := w.bound.set bi {} }

def tearDown (inp : ListenInput) (w : ListenWorld) (bi : Nat) : ListenWorld :=
  let b := w.bound.getD bi {}
  if !b.used || w.desired b.port then w
  else
    let close := match b.connId with
      | some conn => if b.state = .bound && inp.closeTaken bi then [.close conn] else []
      | none => []
    { w with bound := w.bound.set bi {}, queue := w.queue ++ close }

def reconcileListeners (w : ListenWorld) (inp : ListenInput) : ListenWorld :=
  (List.range w.bound.length).foldl (tearDown inp) (w.live.zipIdx.foldl (bindRow inp) w)

inductive ListenEvent where
  | table (op : TableOp)
  | reconcile (inp : ListenInput)
  /-- The provider acts on its next command; a bind gets an id or is refused. -/
  | provide (conn : Option UInt16)
  | deliver (i : Nat)

def provideStep (w : ListenWorld) (conn : Option UInt16) : ListenWorld :=
  match w.queue with
  | [] => w
  | .close c :: rest => { w with queue := rest, sockets := w.sockets.filter (·.conn ≠ c) }
  | .bind port :: rest =>
    match conn with
    | none => { w with queue := rest, replies := w.replies ++ [BindReply.refused port] }
    | some c =>
      if w.sockets.any (·.conn = c) then w
      else
        { w with
          queue := rest
          sockets := { conn := c, port := port } :: w.sockets
          replies := w.replies ++ [BindReply.bound c port] }

def deliverStep (w : ListenWorld) (i : Nat) : ListenWorld :=
  match w.replies[i]? with
  | none => w
  | some (.bound conn port) =>
    { w with toDynListeners := w.markBound port conn, replies := w.replies.eraseIdx i }
  | some (.refused port) =>
    { w with toDynListeners := w.markRefused port, replies := w.replies.eraseIdx i }

def listenStep (w : ListenWorld) : ListenEvent → ListenWorld
  | .table op => { w with toDynListeners := w.toDynListeners.apply op }
  | .reconcile inp => reconcileListeners w inp
  | .provide conn => provideStep w conn
  | .deliver i => deliverStep w i

def listenMachine : Machine ListenWorld ListenEvent Unit where
  step w e := (listenStep w e, [])

end Wave.Http.Listen
