import Wave.Http.H1Conn

/-! # Relaying a request (`http/server/proxy.rs`, `h1.rs`)

The dial, the head with its added `X-Forwarded-For` line, and the relay over both buffers. -/

namespace Wave.Http

open Lib

inductive H1Out where
  | client (bytes : Bytes)
  | backend (bytes : Bytes)

def H1Out.toClient : H1Out → Bytes
  | .client bytes => bytes
  | .backend _ => []

def H1Out.toBackend : H1Out → Bytes
  | .client _ => []
  | .backend bytes => bytes

def FORWARDED_FOR : Bytes := ascii "X-Forwarded-For: "

def forwardHead (head : Bytes) (clientIp : UInt32) : Bytes :=
  head.take (head.length - 2) ++ FORWARDED_FOR ++ dottedQuad clientIp ++ blankLine

namespace H1Conn

/-- One retry against another ready backend of a dynamic route, else a 502. -/
def onConnectFailed (p : Profile) (c : H1Conn) (nextBackend : Bool) : H1Conn :=
  if decide (c.proxyAttempt = 0) && c.proxyDynIdx.isSome && nextBackend then
    { c with
      proxyAttempt := 1, backendConnId := none, proxyConnected := false, proxyConnectFailed := false,
      phase := .proxyConnect }
  else
    { buildError p c (ascii "502 Bad Gateway") (ascii "Backend unavailable\n") with
      phase := .drainSend }

/-- The head goes to `send_buf`, as much of it as fits, and what follows it moves to
the front of `recv_buf`. -/
def proxyBuildForwardHead (env : H1Env) (c : H1Conn) : H1Conn :=
  if c.headerEndOff < 4 then c
  else
    { c with
      sendBuf := (forwardHead (c.recvBuf.take c.headerEndOff) env.clientIp).take env.profile.sendBufSize
      sendOffset := 0
      recvBuf := c.recvBuf.drop c.headerEndOff
      proxyCreqOff := 0 }

/-- The dial is made once the connect handshake is free and `net_out` takes it. -/
def stepProxyConnect (inp : H1Input) (c : H1Conn) : H1Conn :=
  if inp.dialTaken then { c with phase := .proxyWaitConnect } else c

def stepProxyWaitConnect (env : H1Env) (inp : H1Input) (c : H1Conn) : H1Conn :=
  if c.proxyConnectFailed then onConnectFailed env.profile c inp.nextBackend
  else if c.proxyConnected then { proxyBuildForwardHead env c with phase := .proxySendRequest }
  else if inp.dialTimeout then onConnectFailed env.profile c inp.nextBackend
  else c

def stepProxySendRequest (p : Profile) (inp : H1Input) (c : H1Conn) : H1Conn × List H1Out :=
  if c.backendConnId.isNone then (onConnectFailed p c inp.nextBackend, [])
  else if c.unsent = [] then
    ({ c with sendBuf := [], sendOffset := 0, phase := .proxyRelayBody }, [])
  else ((c.flush inp.sentBackend).1, [.backend (c.flush inp.sentBackend).2])

def relayUp (sent : Nat) (c : H1Conn) : H1Conn × Bytes :=
  let window := c.recvBuf.drop c.proxyCreqOff
  if c.backendConnId.isNone then (c, [])
  else
    let off := c.proxyCreqOff + min sent window.length
    if min sent window.length > 0 ∧ off ≥ c.recvBuf.length then
      ({ c with recvBuf := [], proxyCreqOff := 0 }, window.take sent)
    else ({ c with proxyCreqOff := off }, window.take sent)

def relayDown (sent : Nat) (c : H1Conn) : H1Conn × Bytes :=
  let off := c.sendOffset + min sent c.unsent.length
  if min sent c.unsent.length > 0 ∧ off ≥ c.sendBuf.length then
    ({ c with sendBuf := [], sendOffset := 0 }, c.unsent.take sent)
  else ({ c with sendOffset := off }, c.unsent.take sent)

/-- One tick of the relay, in both directions. It ends once the backend has closed
and its last bytes are flushed. -/
def proxyRelayStep (inp : H1Input) (c : H1Conn) : H1Conn × List H1Out :=
  let up := relayUp inp.sentBackend c
  let down := relayDown inp.sent up.1
  let c' := if down.1.backendClosed && decide (down.1.unsent = []) then
      { down.1 with phase := .closeConn }
    else down.1
  (c', [.backend up.2, .client down.2])

end H1Conn

end Wave.Http
