import Wave.Http.Relay
import Wave.Common.WsFrame

/-! # An open WebSocket (`http/server/ws.rs`, `h1.rs`, `http/wire/ws.rs`)

A frame is acted on only once it is whole. -/

namespace Wave.Http

open Lib Common

def CLOSE_PROTOCOL_ERROR : UInt16 := 1002
def CLOSE_MESSAGE_TOO_BIG : UInt16 := 1009

/-- `write_frame`: nothing when the frame does not fit. -/
def writeFrame (cap : Nat) (opcode : UInt8) (payload : Bytes) : Bytes :=
  let n := payload.length
  let len := if n ≤ 125 then [UInt8.ofNat n] else 126 :: Bytes.be16 (UInt16.ofNat n)
  if n > 65535 ∨ cap < 1 + len.length + n then [] else (0x80 ||| (opcode &&& 0x0F)) :: (len ++ payload)

/-- `parse_frame`: a payload past 32 bits is refused. -/
def parseFrame (buf : Bytes) : WsParse WsHeader :=
  match wsDecodeHeader buf with
  | .ok h => if h.payloadLen ≥ 2 ^ 32 then .invalid else .ok h
  | .incomplete => .incomplete
  | .invalid => .invalid

namespace H1Conn

def wsQueueFrame (p : Profile) (c : H1Conn) (opcode : UInt8) (payload : Bytes) : H1Conn :=
  { c with sendBuf := writeFrame p.sendBufSize opcode payload, sendOffset := 0 }

def goto (c : H1Conn) (phase : Phase) : H1Conn := { c with phase := phase }

def withRecv (c : H1Conn) (recvBuf : Bytes) : H1Conn := { c with recvBuf := recvBuf }

def wsBeginClose (p : Profile) (c : H1Conn) (code : UInt16) : H1Conn :=
  (c.wsQueueFrame p WS_OP_CLOSE (Bytes.be16 code)).goto .wsClose

def wsPayload (c : H1Conn) (h : WsHeader) : Bytes :=
  wsMaskApply h.maskKey ((c.recvBuf.drop h.headerLen).take h.payloadLen)

def wsRest (c : H1Conn) (h : WsHeader) : Bytes := c.recvBuf.drop (h.headerLen + h.payloadLen)

/-- A whole, masked frame. A fan-out frame that `ws_out` refuses stays. -/
def wsTakeFrame (p : Profile) (outTaken : Bool) (c : H1Conn) (h : WsHeader) : H1Conn × Bool :=
  if h.opcode = WS_OP_CLOSE then
    (((c.wsQueueFrame p WS_OP_CLOSE (c.wsPayload h)).goto .wsClose).withRecv (c.wsRest h), true)
  else if h.opcode = WS_OP_PING then
    ((c.wsQueueFrame p WS_OP_PONG (c.wsPayload h)).withRecv (c.wsRest h), true)
  else if h.opcode = WS_OP_PONG then (c.withRecv (c.wsRest h), true)
  else if h.opcode = WS_OP_TEXT ∨ h.opcode = WS_OP_BINARY ∨ h.opcode = WS_OP_CONTINUATION then
    if c.wsFanOut then if outTaken then (c.withRecv (c.wsRest h), true) else (c, false)
    else ((c.wsQueueFrame p h.opcode (c.wsPayload h)).withRecv (c.wsRest h), true)
  else (c.wsBeginClose p CLOSE_PROTOCOL_ERROR, true)

def wsProcessInbound (p : Profile) (outTaken : Bool) (c : H1Conn) : H1Conn × Bool :=
  match parseFrame c.recvBuf with
  | .invalid => ((c.wsBeginClose p CLOSE_PROTOCOL_ERROR).withRecv [], true)
  | .incomplete => (c, false)
  | .ok h =>
    if h.headerLen + h.payloadLen > p.recvBufSize then
      (c.wsBeginClose p CLOSE_MESSAGE_TOO_BIG, true)
    else if c.recvBuf.length < h.headerLen + h.payloadLen then (c, false)
    else if !h.masked then (c.wsBeginClose p CLOSE_PROTOCOL_ERROR, true)
    else c.wsTakeFrame p outTaken h

def wsFlush (c : H1Conn) (sent : Nat) : H1Conn × Bytes :=
  let r := c.flush sent
  if c.unsent = [] then (c, [])
  else if r.1.unsent = [] then ({ r.1 with sendBuf := [], sendOffset := 0 }, r.2)
  else r

def wsFill (c : H1Conn) : Option Bytes → H1Conn × Bool
  | some frame =>
    if c.sendBuf = [] && c.wsFanOut then ({ c with sendBuf := frame, sendOffset := 0 }, true)
    else (c, false)
  | none => (c, false)

/-- A received frame is taken once nothing is staged; a peer's CLOSE in any case. -/
def wsReceive (p : Profile) (outTaken : Bool) (c : H1Conn) : H1Conn × Bool :=
  if c.sendBuf = [] ∨ c.recvBuf.head? = some 0x88 then c.wsProcessInbound p outTaken else (c, false)

def wsRound (p : Profile) (r : WsRound) (c : H1Conn) : H1Conn × Bytes × Bool :=
  let flushed := c.wsFlush r.sent
  let filled := flushed.1.wsFill r.fanIn
  let received := filled.1.wsReceive p r.outTaken
  (received.1, flushed.2, decide (flushed.2 ≠ []) || filled.2 || received.2)

def WS_BATCH_PER_TICK : Nat := 32

def wsLoop (p : Profile) : List WsRound → H1Conn → H1Conn × List H1Out
  | [], c => (c, [])
  | r :: rs, c =>
    let res := c.wsRound p r
    if res.2.2 && decide (res.1.phase = .wsActive) then
      let rest := wsLoop p rs res.1
      (rest.1, .client res.2.1 :: rest.2)
    else (res.1, [.client res.2.1])

def stepWsActive (p : Profile) (inp : H1Input) (c : H1Conn) : H1Conn × List H1Out :=
  if c.peerClosed then ({ c with wsFanOut := false, phase := .closeConn }, [])
  else
    match inp.wsTurn with
    | .close code => (c.wsBeginClose p code, [])
    | .ping => (if c.sendBuf = [] then c.wsQueueFrame p WS_OP_PING [] else c, [])
    | .flushOnly sent => ((c.wsFlush sent).1, [.client (c.wsFlush sent).2])
    | .rounds rs => c.wsLoop p (rs.take WS_BATCH_PER_TICK)

def stepWsHandshake (inp : H1Input) (c : H1Conn) : H1Conn × List H1Out :=
  if c.unsent = [] then ({ c with sendBuf := [], sendOffset := 0, phase := .wsActive }, [])
  else ((c.flush inp.sent).1, [.client (c.flush inp.sent).2])

def stepWsClose (inp : H1Input) (c : H1Conn) : H1Conn × List H1Out :=
  let r := c.flush inp.sent
  if r.2 = [] ∨ r.1.unsent = [] then ({ r.1 with phase := .closeConn }, [.client r.2])
  else (r.1, [.client r.2])

def stepWsAwaitAdmit (inp : H1Input) (c : H1Conn) : H1Conn :=
  match inp.admission with
  | none => c
  | some (true, staged) => wsComposeAccept c staged
  | some (false, staged) =>
    { c with
      keepalive := false, sendBuf := staged, sendOffset := 0, wsFanOut := false, phase := .drainSend }

end H1Conn

end Wave.Http
