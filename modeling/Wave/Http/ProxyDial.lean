import Wave.Http.Slots
import Wave.Lib.Machine

/-! # Dialling a backend (`http/server/proxy.rs`, `h1.rs`, `mod.rs`)

The transport's replies name no slot: `demux_inbound` gives them to `proxy_connect_owner`. `DialWorld` adds
which dial a reply answers. -/

namespace Wave.Http

open Lib

def PROXY_CONNECT_TIMEOUT_MS : UInt32 := 10000

def Phase.isProxy : Phase → Bool
  | .proxyConnect | .proxyWaitConnect | .proxySendRequest | .proxyRelayHeaders | .proxyRelayBody =>
    true
  | _ => false

def Phase.forwards : Phase → Bool
  | .proxySendRequest | .proxyRelayHeaders | .proxyRelayBody => true
  | _ => false

section

variable (s : Server) (i : Nat)

def Server.slot : ConnSlot := s.slots.getD i {}

def Server.setSlot (c : ConnSlot) : Server :=
  { s with slots := s.slots.set i c }

def Server.disown : Server :=
  { s with proxyConnectOwner := if s.proxyConnectOwner = some i then none else s.proxyConnectOwner }

/-- A request was dispatched to a proxy route, with a dynamic route to fail over
in or none. -/
def beginProxy (dynIdx : Option Nat) : Server :=
  s.setSlot i { s.slot i with
    proxyDynIdx := dynIdx, proxyAttempt := 0, backendConnId := none, proxyConnected := false,
    proxyConnectFailed := false, backendClosed := false, phase := .proxyConnect }

/-- One retry against another ready backend of a dynamic route, else a 502. -/
def proxyConnectFailed (nextBackend : Bool) : Server :=
  let s := s.disown i
  let c := s.slot i
  if c.proxyAttempt = 0 && c.proxyDynIdx.isSome && nextBackend then
    s.setSlot i { c with
      proxyAttempt := 1, backendConnId := none, proxyConnected := false, proxyConnectFailed := false,
      phase := .proxyConnect }
  else s.setSlot i { c with phase := .drainSend }

end

/-- What a step of a proxying slot meets: the clock, what `net_out` took, the next backend, the forwards and the stall
limit. -/
structure DialInput where
  nowMs : UInt32 := 0
  dialTaken : Bool := true
  closeTaken : Bool := true
  nextBackend : Bool := false
  headSent : Bool := false
  flushed : Bool := false
  stalled : Bool := false

section

variable (s : Server) (i : Nat) (inp : DialInput)

def stepProxyConnect : Server × List NetCmd :=
  if s.proxyConnectOwner.isSome && s.proxyConnectOwner ≠ some i then (s, [])
  else
    let s := { s with proxyConnectOwner := some i }
    if !inp.dialTaken then (s, [])
    else
      (s.setSlot i { s.slot i with proxyConnectStartMs := inp.nowMs, phase := .proxyWaitConnect },
        [.connect i])

def stepProxyWaitConnect : Server :=
  let c := s.slot i
  if c.proxyConnectFailed then proxyConnectFailed s i inp.nextBackend
  else if c.proxyConnected then
    let s := s.disown i
    s.setSlot i { s.slot i with phase := .proxySendRequest }
  else if inp.nowMs - c.proxyConnectStartMs ≥ PROXY_CONNECT_TIMEOUT_MS then
    proxyConnectFailed s i inp.nextBackend
  else s

def stepProxySendRequest : Server :=
  let c := s.slot i
  if c.backendConnId.isNone then proxyConnectFailed s i inp.nextBackend
  else if inp.headSent then s.setSlot i { c with phase := .proxyRelayBody }
  else s

def stepProxyRelay : Server :=
  let c := s.slot i
  if c.backendClosed && inp.flushed then s.setSlot i { c with phase := .closeConn } else s

/-- `step_active_slot` on a slot that proxies or closes. A hang-up or a stall limit closes it before its phase runs.
-/
def stepProxy : Server × List NetCmd :=
  let c := s.slot i
  if c.peerClosed && c.phase.isProxy then resetConnection s i
  else if inp.stalled && c.phase.forwards then (s.setSlot i { c with phase := .closeConn }, [])
  else
    match c.phase with
    | .proxyConnect => stepProxyConnect s i inp
    | .proxyWaitConnect => (stepProxyWaitConnect s i inp, [])
    | .proxySendRequest => (stepProxySendRequest s i inp, [])
    | .proxyRelayHeaders | .proxyRelayBody => (stepProxyRelay s i inp, [])
    | .closeConn => resetConnection s i
    | _ => (s, [])

end

/-- The messages of `net_in` that concern dials and open connections. -/
inductive NetMsg where
  | connected (conn tag : UInt16)
  | error (conn tag : UInt16)
  | closed (conn : UInt16)

/-- A connection ended: a client's is marked on its slot, a backend's likewise. -/
def demuxClosed (s : Server) (conn : UInt16) (orElse : Server) : Server :=
  match findSlotByConnId s.slots conn with
  | some i => s.setSlot i { s.slot i with peerClosed := true }
  | none =>
    match findSlotByBackendConn s.slots conn with
    | some i => s.setSlot i { s.slot i with backendClosed := true }
    | none => orElse

def onOwner (s : Server) (f : ConnSlot → ConnSlot) : Server :=
  match s.proxyConnectOwner with
  | some i => s.setSlot i (f (s.slot i))
  | none => s

def demuxMsg (me : UInt16) (s : Server) : NetMsg → Server
  | .connected conn tag =>
    if tag = 0 ∨ tag = me then
      onOwner s fun c => { c with backendConnId := some conn, proxyConnected := true }
    else s
  | .error conn tag =>
    let failed := onOwner s fun c => { c with proxyConnectFailed := true }
    if tag ≠ 0 then if tag = me then failed else s
    else demuxClosed s conn (if me = 0 then failed else s)
  | .closed conn => demuxClosed s conn s

structure Dial where
  slot : Nat := 0
  waiting : Bool := false
  conn : Option UInt16 := none
  isOpen : Bool := false

/-- The server with the dials it made, numbered in order, and each slot's most
recent one. -/
structure DialWorld where
  server : Server
  count : Nat := 0
  dial : Nat → Dial := fun _ => {}
  last : Nat → Option Nat := fun _ => none

def DialWorld.init (p : Profile) : DialWorld := { server := Server.init p }

inductive DialEvent where
  /-- A message; a reply names the dial it answers. -/
  | msg (m : NetMsg) (answers : Option Nat)
  | accepted (conn : UInt16) (nowMs : Nat) (heap : Bool)
  | begin (slot : Nat) (dynIdx : Option Nat)
  | step (slot : Nat) (inp : DialInput)
  | work (slot : Nat) (c : ConnSlot)

def closeDials (dial : Nat → Dial) (conn : UInt16) : Nat → Dial := fun d =>
  if (dial d).conn = some conn then { dial d with isOpen := false } else dial d

def answerDial (dial : Nat → Dial) (m : NetMsg) (d : Nat) : Nat → Dial :=
  match m with
  | .connected conn _ =>
    Function.update dial d { dial d with waiting := false, conn := some conn, isOpen := true }
  | _ => Function.update dial d { dial d with waiting := false }

/-- What the commands of a step mean for the dials: a dial is made, and a close
that `net_out` took closes its connection. -/
def settle (w : DialWorld) (taken : Bool) : NetCmd → DialWorld
  | .connect i =>
    { w with
      count := w.count + 1
      dial := Function.update w.dial w.count { slot := i, waiting := true }
      last := Function.update w.last i (some w.count) }
  | .close conn => if taken then { w with dial := closeDials w.dial conn } else w

def DialWorld.forget (w : DialWorld) (i : Nat) : DialWorld :=
  { w with last := Function.update w.last i none }

def dialStep (me : UInt16) (w : DialWorld) : DialEvent → DialWorld × List NetCmd
  | .msg m answers =>
    let dial := match m, answers with
      | .closed conn, _ => closeDials w.dial conn
      | .error conn tag, none => if tag = 0 then closeDials w.dial conn else w.dial
      | m, some d => answerDial w.dial m d
      | _, none => w.dial
    ({ w with server := demuxMsg me w.server m, dial }, [])
  | .accepted conn nowMs heap =>
    let (server, cmds, _) := acceptConn w.server conn nowMs heap
    let w' := match chosenSlot w.server with
      | some i => w.forget i
      | none => w
    ({ cmds.foldl (settle · true) w' with server }, cmds)
  | .begin i dynIdx =>
    if (w.server.slot i).phase = .dispatchRoute then
      ({ w with server := beginProxy w.server i dynIdx }, [])
    else (w, [])
  | .step i inp =>
    let c := w.server.slot i
    let (server, cmds) := stepProxy w.server i inp
    let w' := if (c.peerClosed && c.phase.isProxy) || c.phase = .closeConn then w.forget i else w
    ({ cmds.foldl (settle · inp.closeTaken) w' with server }, cmds)
  | .work i c =>
    let old := w.server.slot i
    if old.phase.isProxy || old.phase = .closeConn || c.phase.isProxy then (w, [])
    else
      ({ w with
        server := w.server.setSlot i { old with
          phase := c.phase, served := c.served, recvLen := c.recvLen, progressMs := c.progressMs } },
        [])

def dialMachine (me : UInt16) : Machine DialWorld DialEvent NetCmd := ⟨dialStep me⟩

/-- A slot that forwards holds what its last dial opened, no two hold one connection, and every open one is held. -/
structure DialsKept (w : DialWorld) : Prop where
  own : ∀ i, (w.server.slot i).phase.forwards = true →
    ∃ d conn, w.last i = some d ∧ (w.dial d).slot = i ∧ (w.dial d).conn = some conn ∧
      (w.server.slot i).backendConnId = some conn
  apart : ∀ i j conn, (w.server.slot i).backendConnId = some conn →
    (w.server.slot j).backendConnId = some conn → i = j
  held : ∀ d conn, (w.dial d).conn = some conn → (w.dial d).isOpen = true →
    w.last (w.dial d).slot = some d ∧ (w.server.slot (w.dial d).slot).backendConnId = some conn

def DialWorld.freshConn (w : DialWorld) (conn : UInt16) : Prop :=
  ∀ i, (w.server.slot i).connId ≠ some conn ∧ (w.server.slot i).backendConnId ≠ some conn

/-- A reply answers a dial that waits, a new connection has a new id, nothing else carries the tag; no slot gives up a
dial before its reply, and a backend's close is taken. -/
def DialStepOk (me : UInt16) (w : DialWorld) : DialEvent → Prop
  | .msg (.connected conn tag) (some d) =>
    (w.dial d).waiting = true ∧ tag = me ∧ w.freshConn conn
  | .msg (.error _ tag) (some d) => (w.dial d).waiting = true ∧ tag = me ∧ tag ≠ 0
  | .msg (.connected _ tag) none => tag ≠ 0 ∧ tag ≠ me
  | .msg (.error _ tag) none => tag ≠ me
  | .msg (.closed _) answers => answers = none
  | .accepted conn _ _ => w.freshConn conn
  | .step i inp =>
    let c := w.server.slot i
    (c.phase = .proxyWaitConnect → c.proxyConnected = false → c.proxyConnectFailed = false →
      c.peerClosed = false ∧ inp.nowMs - c.proxyConnectStartMs < PROXY_CONNECT_TIMEOUT_MS) ∧
    ((c.peerClosed = true ∧ c.phase.isProxy = true) ∨ c.phase = .closeConn →
      c.backendConnId ≠ none → c.backendClosed = false → inp.closeTaken = true)
  | _ => True

end Wave.Http
