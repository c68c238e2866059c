import Wave.Http.ReqBody
import Wave.Http.Slots

/-! # An HTTP/1 connection (`http/server/h1.rs`, `body.rs`, `reqbody.rs`)

One slot on the HTTP/1 path. What a handler does between dispatch and response is an input (`HandlerAct`). -/

namespace Wave.Http

open Lib

/-- What the module was built and configured with, and the client's address as the
slot has it. -/
structure H1Env where
  profile : Profile
  sdk : SdkHttp
  h2 : Bool := true
  routes : List Route := []
  unroutedFile : Bool := false
  clientIp : UInt32 := 0

structure H1Conn where
  phase : Phase := .recvRequest
  recvBuf : Bytes := []
  recvParsed : Bool := false
  reqMethod : Method := .none
  reqPath : Bytes := []
  reqTargetAt : Nat := 0
  reqTargetLen : Nat := 0
  headerEndOff : Nat := 0
  keepalive : Bool := false
  body : BodyReader := {}
  bodyPending : Bool := false
  bodyDeclared : Nat := 0
  bodyContinueWanted : Bool := false
  bodyContinue : Bool := false
  matchedRoute : Option Nat := none
  sendBuf : Bytes := []
  sendOffset : Nat := 0
  peerClosed : Bool := false
  backendConnId : Option UInt16 := none
  backendClosed : Bool := false
  proxyConnected : Bool := false
  proxyConnectFailed : Bool := false
  proxyAttempt : Nat := 0
  proxyDynIdx : Option Nat := none
  proxyCreqOff : Nat := 0
  wsFanOut : Bool := false
deriving DecidableEq

inductive Refusal where
  | badRequest
  | notFound
  | lengthRequired
  | contentTooLarge
  | uriTooLong
  | notImplemented
deriving DecidableEq

def Refusal.code : Refusal → Bytes
  | .badRequest => ascii "400 Bad Request"
  | .notFound => ascii "404 Not Found"
  | .lengthRequired => ascii "411 Length Required"
  | .contentTooLarge => ascii "413 Content Too Large"
  | .uriTooLong => ascii "414 URI Too Long"
  | .notImplemented => ascii "501 Not Implemented"

def Refusal.text : Refusal → Bytes
  | .badRequest => ascii "Bad Request\n"
  | .notFound => ascii "Not Found\n"
  | .lengthRequired => ascii "Length Required\n"
  | .contentTooLarge => ascii "Content Too Large\n"
  | .uriTooLong => ascii "URI Too Long\n"
  | .notImplemented => ascii "Not Implemented\n"

def writeErrorResponse (cap : Nat) (code body : Bytes) : Bytes :=
  (ascii "HTTP/1.1 " ++ code ++ ascii "\r\nConnection: close\r\n\r\n" ++ body).take cap

def buildError (p : Profile) (c : H1Conn) (code body : Bytes) : H1Conn :=
  { c with
    keepalive := false, sendBuf := writeErrorResponse p.sendBufSize code body, sendOffset := 0 }

def refuse (p : Profile) (c : H1Conn) (r : Refusal) : H1Conn :=
  { buildError p c r.code r.text with phase := .drainSend }

def PREFACE : Bytes := ascii "PRI * HTTP/2.0\r\n\r\nSM\r\n\r\n"

inductive LineOutcome where
  | refused (r : Refusal)
  | read (line : RequestLine)
  | wait

def readRequestLine (env : H1Env) (buf : Bytes) : LineOutcome :=
  match findPat crlf buf with
  | some _ =>
    match parseRequestLine env.sdk buf with
    | none => .refused .badRequest
    | some line => if line.method = .none then .refused .notImplemented else .read line
  | none => if buf.length ≥ env.profile.recvBufSize then .refused .badRequest else .wait

def H1Conn.adoptLine (c : H1Conn) (p : Profile) (line : RequestLine) : H1Conn :=
  { c with
    reqMethod := line.method
    reqPath := ((c.recvBuf.drop line.targetAt).take line.targetLen).take p.maxPath
    reqTargetAt := line.targetAt
    reqTargetLen := line.targetLen
    recvParsed := true }

def H1Conn.adoptPlan (c : H1Conn) : BodyPlan → H1Conn
  | .read decoder declared continueFirst =>
    { c with
      body := { c.body with decoder := decoder }
      bodyPending := true
      bodyDeclared := declared.getD U64_MAX
      bodyContinueWanted := continueFirst }
  | _ => { c with bodyPending := false, bodyDeclared := 0, bodyContinueWanted := false }

/-- The head, once its blank line is here. A full buffer without one keeps its
last three bytes. -/
def readHead (env : H1Env) (c : H1Conn) : H1Conn :=
  match findPat blankLine c.recvBuf with
  | some pos =>
    let head := c.recvBuf.take (pos + 4)
    match planBody c.reqMethod head with
    | .invalid => { refuse env.profile c .badRequest with headerEndOff := pos + 4 }
    | .lengthRequired => { refuse env.profile c .lengthRequired with headerEndOff := pos + 4 }
    | plan =>
      { c.adoptPlan plan with
        keepalive := requestKeepsAlive head, headerEndOff := pos + 4, phase := .dispatchRoute }
  | none =>
    if c.recvBuf.length ≥ env.profile.recvBufSize then
      { c with recvBuf := c.recvBuf.drop (c.recvBuf.length - 3) }
    else c

/-- What a handler does to the slot in one step. -/
inductive HandlerAct where
  | wait
  | take (n : Nat)
  | answer (next : Phase) (staged : Bytes) (keep : Bool)
  | proxy
  | upgrade (staged : Bytes)
  | awaitAdmit
  | close
  | finish

/-- What the dynamic routes make of a request no static route matched. -/
inductive DynRoute where
  | unmatched
  | noBackend
  | backend (idx : Nat)
deriving DecidableEq

/-- What `net_send` took in one round, a frame to send that `ws_in` held, and whether `ws_out` took one. -/
structure WsRound where
  sent : Nat := 0
  fanIn : Option Bytes := none
  outTaken : Bool := true

/-- A step of an open WebSocket: a close, a ping, a flush while it is being displaced, or rounds. -/
inductive WsTurn where
  | close (code : UInt16)
  | ping
  | flushOnly (sent : Nat)
  | rounds (rs : List WsRound)

/-- What the outside decides during a step: the drain, deadlines, what `net_send` took, the routes, the handler, the
dial, the admission and the turn of a WebSocket. -/
structure H1Input where
  draining : Bool := false
  h2Heap : Bool := true
  expired : Bool := false
  sent : Nat := 0
  sentBackend : Nat := 0
  dynRoute : DynRoute := .unmatched
  fan : Bytes := []
  act : HandlerAct := .wait
  dialTaken : Bool := true
  dialTimeout : Bool := false
  nextBackend : Bool := false
  admission : Option (Bool × Bytes) := none
  wsTurn : WsTurn := .rounds []

def stepRecvRequest (env : H1Env) (inp : H1Input) (c : H1Conn) : H1Conn :=
  if c.recvBuf = [] then if inp.draining then { c with phase := .closeConn } else c
  else if env.h2 && !c.recvParsed && c.recvBuf.head? = PREFACE.head? &&
      decide (c.recvBuf.length < PREFACE.length) then c
  else if env.h2 && !c.recvParsed && PREFACE.isPrefixOf c.recvBuf then
    { c with
      recvBuf := c.recvBuf.drop PREFACE.length
      phase := if inp.h2Heap then .h2Active else .closeConn }
  else if c.recvParsed then readHead env c
  else
    match readRequestLine env c.recvBuf with
    | .refused r => refuse env.profile c r
    | .wait => c
    | .read line => readHead env (c.adoptLine env.profile line)

/-- The next request on a connection that is kept: what follows the head moves to
the front of the buffer. -/
def finishResponse (c : H1Conn) : H1Conn :=
  if c.keepalive then
    { c with
      recvBuf := c.recvBuf.drop c.headerEndOff
      recvParsed := false
      reqPath := []
      reqMethod := .none
      matchedRoute := none
      body := { c.body with active := false, total := 0, limit := 0 }
      bodyContinue := false
      headerEndOff := 0
      sendBuf := []
      sendOffset := 0
      phase := .recvRequest }
  else { c with phase := .closeConn }

def H1Conn.unsent (c : H1Conn) : Bytes := c.sendBuf.drop c.sendOffset

def H1Conn.flush (c : H1Conn) (sent : Nat) : H1Conn × Bytes :=
  ({ c with sendOffset := c.sendOffset + min sent c.unsent.length }, c.unsent.take sent)

def stepDrainSend (inp : H1Input) (c : H1Conn) : H1Conn × Bytes :=
  if c.unsent = [] then (finishResponse c, []) else c.flush inp.sent

def H1Conn.pending (c : H1Conn) : Bytes := c.recvBuf.drop c.headerEndOff

def H1Conn.withPending (c : H1Conn) (rest : Bytes) : H1Conn :=
  { c with recvBuf := c.recvBuf.take c.headerEndOff ++ rest }

def discardBody (p : Profile) (c : H1Conn) : H1Conn :=
  let r := discard c.headerEndOff p.recvBufSize c.body c.pending
  let c' := { c.withPending r.2.1 with body := r.1 }
  match r.2.2 with
  | .done => { c' with bodyPending := false, phase := .dispatchRoute }
  | .progress | .wait => if c'.peerClosed then { c' with phase := .closeConn } else c'
  | .bad => refuse p c' .badRequest
  | .tooLarge => refuse p c' .contentTooLarge

/-- A staged `100 Continue` reaches the wire before the body is read. -/
def stepRecvBody (p : Profile) (inp : H1Input) (c : H1Conn) : H1Conn × Bytes :=
  if c.bodyContinue then
    if c.unsent = [] then
      (discardBody p { c with bodyContinue := false, sendBuf := [], sendOffset := 0 }, [])
    else c.flush inp.sent
  else (discardBody p c, [])

def INTERIM : Bytes := ascii "HTTP/1.1 100 Continue\r\n\r\n"

def beginDiscard (p : Profile) (c : H1Conn) (limit : Nat) : H1Conn :=
  let armed := { c with
    body := { decoder := c.body.decoder, active := true, total := 0, limit := limit }
    bodyContinueWanted := false
    phase := .recvBody }
  if c.bodyContinueWanted then
    { armed with sendBuf := INTERIM.take p.sendBufSize, sendOffset := 0, bodyContinue := true }
  else armed

def hostRefused (c : H1Conn) : Bool := (h1Host (c.recvBuf.take c.headerEndOff)).isNone

def DEFAULT_MAX_BODY : Nat := 64 * 1024

def routeLimit (routes : List Route) : Option Nat → Nat
  | none => DEFAULT_MAX_BODY
  | some i =>
    match (routes[i]?.map (·.maxBodyKib)).getD 0 with
    | 0 => DEFAULT_MAX_BODY
    | kib => kib * 1024

def Phase.answers : Phase → Bool
  | .sendHeaders | .sendBody | .fetchContent | .cacheStream | .appExchange | .awaitFsStat
  | .fsList => true
  | _ => false

def Phase.handedOver : Phase → Bool
  | .proxyConnect | .proxyWaitConnect | .proxySendRequest | .proxyRelayHeaders | .proxyRelayBody
  | .wsAwaitAdmit | .wsHandshake | .wsActive | .wsClose | .h2Active | .h3Tunnel => true
  | _ => false

def H1Conn.serve (c : H1Conn) : HandlerAct → H1Conn
  | .take n => if c.phase = .appExchange then c.withPending (c.pending.drop n) else c
  | .answer next staged keep =>
    if next.answers || next = .drainSend then
      { c with phase := next, sendBuf := staged, sendOffset := 0, keepalive := c.keepalive && keep }
    else c
  | .close => { c with phase := .closeConn }
  | .finish => finishResponse c
  | _ => c

def H1Conn.beginProxy (c : H1Conn) (dynIdx : Option Nat) : H1Conn :=
  { c with
    proxyDynIdx := dynIdx
    proxyAttempt := 0
    backendConnId := none
    proxyConnected := false
    proxyConnectFailed := false
    backendClosed := false
    proxyCreqOff := 0
    keepalive := false
    phase := .proxyConnect }

/-- `ws_compose_accept`: the response is staged, and the buffer starts afresh. -/
def wsComposeAccept (c : H1Conn) (staged : Bytes) : H1Conn :=
  { c with
    sendBuf := staged, sendOffset := 0, recvBuf := [], recvParsed := false, phase := .wsHandshake }

/-- A matched route's handler takes the request, an application with the body bytes that ride in the head. -/
def H1Conn.dispatchTo (c : H1Conn) (handler : Handler) : HandlerAct → H1Conn
  | .take n =>
    if handler = .app then { c.withPending (c.pending.drop n) with phase := .appExchange } else c
  | .proxy => if handler = .proxy then c.beginProxy none else c
  | .upgrade staged =>
    if handler = .websocket then { wsComposeAccept c staged with wsFanOut := false }
    else if handler = .websocketFanout ∨ handler = .websocketSession then
      { wsComposeAccept c staged with wsFanOut := true }
    else c
  | .awaitAdmit =>
    if handler = .websocketAdmit then { c with wsFanOut := true, phase := .wsAwaitAdmit } else c
  | act => c.serve act

def H1Conn.target (c : H1Conn) : Bytes := (c.recvBuf.drop c.reqTargetAt).take c.reqTargetLen

def FAN_PATH : Bytes := ascii "/_fan"

def FAN_HEAD : Bytes :=
  ascii "HTTP/1.1 200 OK\r\nConnection: close\r\nContent-Type: text/plain\r\n\r\n"

section

variable (env : H1Env) (inp : H1Input) (c : H1Conn)

def dispatchUnmatched (limit : Nat) : H1Conn :=
  match inp.dynRoute with
  | .backend idx => c.beginProxy (some idx)
  | .noBackend =>
    { buildError env.profile c (ascii "502 Bad Gateway") (ascii "No ready backend\n") with
      phase := .drainSend }
  | .unmatched =>
    if c.bodyPending then beginDiscard env.profile c limit else refuse env.profile c .notFound

/-- An application takes the request as an exchange and a proxy relays the body;
every other handler answers without it. -/
def dispatchMatched (handler : Handler) (limit : Nat) :
    H1Conn :=
  if c.bodyPending && decide (handler ≠ .app ∧ handler ≠ .proxy) then
    beginDiscard env.profile c limit
  else if handler ≠ .app ∧ c.reqTargetLen > env.profile.maxPath then
    refuse env.profile c .uriTooLong
  else c.dispatchTo handler inp.act

def dispatchRouted : H1Conn :=
  let ri := matchRoutePath env.routes c.target
  let limit := routeLimit env.routes ri
  if c.bodyPending && decide (c.bodyDeclared ≠ U64_MAX) && decide (c.bodyDeclared > limit) then
    refuse env.profile c .contentTooLarge
  else
    match ri.bind fun i => env.routes[i]? with
    | none => dispatchUnmatched env inp c limit
    | some route => dispatchMatched env inp { c with matchedRoute := ri } route.handler limit

def stepDispatchRoute : H1Conn :=
  if hostRefused c then refuse env.profile c .badRequest
  else if env.unroutedFile then c.serve inp.act
  else if FAN_PATH.isPrefixOf c.reqPath then
    { c with
      keepalive := false
      sendBuf := (FAN_HEAD ++ inp.fan).take env.profile.sendBufSize
      sendOffset := 0
      phase := .drainSend }
  else dispatchRouted env inp c

end

end Wave.Http
