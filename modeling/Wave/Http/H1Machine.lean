import Wave.Http.Ws
import Wave.Lib.Machine

/-! # The connection as a machine (`http/server/h1.rs`, `mod.rs`)

`step_active_slot` on one slot, `demux_inbound`, and what either end has sent. -/

namespace Wave.Http

open Lib

/-- `peer_closed` closes these phases before they run. -/
def Phase.closesWithPeer : Phase → Bool
  | .recvRequest | .h2Active | .sendHeaders | .sendBody | .drainSend | .fetchContent | .cacheStream
  | .wsHandshake | .wsClose | .awaitFsStat | .fsList | .proxyConnect | .proxyWaitConnect
  | .proxySendRequest | .proxyRelayHeaders | .proxyRelayBody => true
  | _ => false

def Phase.hasDeadline : Phase → Bool
  | .recvRequest | .recvBody | .sendHeaders | .sendBody | .drainSend | .cacheStream
  | .proxySendRequest | .proxyRelayHeaders | .proxyRelayBody | .wsHandshake | .wsClose
  | .dispatchRoute | .appExchange => true
  | _ => false

def H1Conn.released : H1Conn := { phase := .init }

def isProxyRelayPhase : Phase → Bool
  | .proxyRelayHeaders | .proxyRelayBody => true
  | _ => false

def Phase.relayedTo (phase : Phase) : Bool :=
  isProxyRelayPhase phase || phase = .closeConn || phase = .init

def onClient (r : H1Conn × Bytes) : H1Conn × List H1Out := (r.1, [.client r.2])

def H1Conn.stepH2 (c : H1Conn) : HandlerAct → H1Conn
  | .take n => { c with recvBuf := c.recvBuf.drop n }
  | .close => { c with phase := .closeConn }
  | _ => c

def stepPhase (env : H1Env) (inp : H1Input) (c : H1Conn) : H1Conn × List H1Out :=
  match c.phase with
  | .recvRequest => (stepRecvRequest env inp c, [])
  | .recvBody => onClient (stepRecvBody env.profile inp c)
  | .dispatchRoute => (stepDispatchRoute env inp c, [])
  | .drainSend => onClient (stepDrainSend inp c)
  | .closeConn => (H1Conn.released, [])
  | .proxyConnect => (c.stepProxyConnect inp, [])
  | .proxyWaitConnect => (c.stepProxyWaitConnect env inp, [])
  | .proxySendRequest => c.stepProxySendRequest env.profile inp
  | .proxyRelayHeaders | .proxyRelayBody => c.proxyRelayStep inp
  | .wsAwaitAdmit => (c.stepWsAwaitAdmit inp, [])
  | .wsHandshake => c.stepWsHandshake inp
  | .wsActive => c.stepWsActive env.profile inp
  | .wsClose => c.stepWsClose inp
  | .h2Active => (c.stepH2 inp.act, [])
  | .init | .binding | .waitBound | .waitAccept | .h3Tunnel | .error => (c, [])
  | .sendHeaders | .sendBody | .fetchContent | .cacheStream | .appExchange | .awaitFsStat
  | .fsList => (c.serve inp.act, [])

def stepActiveSlot (env : H1Env) (inp : H1Input) (c : H1Conn) : H1Conn × List H1Out :=
  if c.peerClosed && c.phase.closesWithPeer then (H1Conn.released, [])
  else if inp.expired && c.phase.hasDeadline then ({ c with phase := .closeConn }, [])
  else stepPhase env inp c

/-- What `net_in` carries for this connection and its backend. -/
inductive NetIn where
  | data (frame : Bytes)
  | closed
  | connected (conn : UInt16)
  | connectError
  | backendData (frame : Bytes)
  | backendClosed

def H1Conn.hasRoom (p : Profile) (c : H1Conn) (len : Nat) : Bool :=
  decide (c.recvBuf.length + len ≤ p.recvBufSize)

/-- Whether backend bytes may be staged: only in the relay, and only if they fit. -/
def H1Conn.stages (p : Profile) (c : H1Conn) (len : Nat) : Bool :=
  isProxyRelayPhase c.phase && decide (c.sendBuf.length + len ≤ p.sendBufSize)

def Phase.dials : Phase → Bool
  | .proxyConnect | .proxyWaitConnect => true
  | _ => false

/-- One message. `none` leaves it on the channel; bytes for a connection no slot
holds are dropped. -/
def demuxInbound (p : Profile) (c : H1Conn) : NetIn → Option H1Conn
  | .data frame =>
    if !c.phase.accepted then some c
    else if c.hasRoom p frame.length then some { c with recvBuf := c.recvBuf ++ frame }
    else none
  | .closed => some { c with peerClosed := true }
  | .connected conn =>
    some (if c.phase.dials then { c with backendConnId := some conn, proxyConnected := true } else c)
  | .connectError => some (if c.phase.dials then { c with proxyConnectFailed := true } else c)
  | .backendData frame =>
    if c.backendConnId.isNone then some c
    else if c.stages p frame.length then some { c with sendBuf := c.sendBuf ++ frame }
    else none
  | .backendClosed => some (if c.backendConnId.isSome then { c with backendClosed := true } else c)

/-- The slot, every byte of the client taken for it, where the current request starts, and how much of its body was
read. -/
structure RequestTrack where
  conn : H1Conn := {}
  arrived : Bytes := []
  start : Nat := 0
  taken : Nat := 0
  drained : Bool := false

def RequestTrack.request (w : RequestTrack) : Bytes := w.arrived.drop w.start

/-- The slot moved on to `c`; a return to `RecvRequest` starts the next request behind what was read. -/
def RequestTrack.advance (w : RequestTrack) (c : H1Conn) : RequestTrack :=
  if c.phase = .recvRequest ∧ w.conn.phase ≠ .recvRequest then
    { w with
      conn := c, start := w.start + w.conn.headerEndOff + w.taken, taken := 0, drained := false }
  else
    { w with
      conn := c
      taken := w.taken + (w.conn.recvBuf.length - c.recvBuf.length)
      drained := w.drained || decide (w.conn.phase = .recvBody ∧ c.phase = .dispatchRoute) }

/-- The connection with what waits on `net_in`, the backend's bytes, and what was written to either end. -/
structure H1World extends RequestTrack where
  netIn : List NetIn := []
  fromBackend : Bytes := []
  toBackend : Bytes := []
  toClient : Bytes := []

def H1World.stepped (w : H1World) (r : H1Conn × List H1Out) : H1World :=
  { w with
    toRequestTrack := w.toRequestTrack.advance r.1
    toBackend := w.toBackend ++ r.2.flatMap H1Out.toBackend
    toClient :=
      if w.conn.phase.relayedTo then w.toClient ++ r.2.flatMap H1Out.toClient else [] }

inductive H1Event where
  | arrive (m : NetIn)
  | demux
  | step (inp : H1Input)

def NetIn.clientBytes (c : H1Conn) : NetIn → Bytes
  | .data frame => if c.phase.accepted then frame else []
  | _ => []

def NetIn.backendBytes (c : H1Conn) : NetIn → Bytes
  | .backendData frame => if c.backendConnId.isSome then frame else []
  | _ => []

def h1Step (env : H1Env) (w : H1World) : H1Event → H1World × List H1Out
  | .arrive m => ({ w with netIn := w.netIn ++ [m] }, [])
  | .demux =>
    match w.netIn with
    | [] => (w, [])
    | m :: rest =>
      match demuxInbound env.profile w.conn m with
      | none => (w, [])
      | some c =>
        ({ w with
          conn := c
          netIn := rest
          arrived := w.arrived ++ m.clientBytes w.conn
          fromBackend := w.fromBackend ++ m.backendBytes w.conn }, [])
  | .step inp =>
    (w.stepped (stepActiveSlot env inp w.conn), (stepActiveSlot env inp w.conn).2)

def h1Machine (env : H1Env) : Machine H1World H1Event H1Out where
  step := h1Step env

end Wave.Http
