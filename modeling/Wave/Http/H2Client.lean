import Wave.Http.H2Wire
import Wave.Lib.Machine
import Wave.Lib.Table

/-! # HTTP/2 for the exchange provider (`http/client/h2_streams.rs`)

Many exchanges on one connection, a stream each. DATA streams into BODY records; any other frame is read whole. -/

namespace Wave.Http.H2Client

open Lib Http.H2Wire

def STREAMS : Nat := 16
def RECV_BUF_SIZE : Nat := 8192
def MAX_DATA_FRAGMENT : Nat := 1460
def REQUEST_BUF_SIZE : Nat := 1024 + 128 + 1024 + 192
def CONN_WINDOW : Nat := 2 ^ 20
def WINDOW_MAX : Nat := 0x7fffffff
def SID_MAX : Nat := 0x7fffffff
def FRAME_SIZE_MIN : Nat := 16384
def FRAME_SIZE_MAX : Nat := 16777215
def WINDOW_DEFAULT : Nat := 65535

def FRAME_RST_STREAM : UInt8 := 0x3
def FRAME_SETTINGS : UInt8 := 0x4
def FRAME_PUSH_PROMISE : UInt8 := 0x5
def FRAME_PING : UInt8 := 0x6
def FRAME_GOAWAY : UInt8 := 0x7
def FRAME_WINDOW_UPDATE : UInt8 := 0x8
def FRAME_CONTINUATION : UInt8 := 0x9
def FLAG_ACK : UInt8 := 0x1
def FLAG_PRIORITY : UInt8 := 0x20

def SETTINGS_MAX_CONCURRENT_STREAMS : Nat := 0x3
def SETTINGS_INITIAL_WINDOW_SIZE : Nat := 0x4
def SETTINGS_MAX_FRAME_SIZE : Nat := 0x5
def ERR_REFUSED_STREAM : Nat := 0x7

/-- `status::BAD_GATEWAY`, `status::BUSY` and `status::TIMEOUT`. -/
def BAD_GATEWAY : Nat := 502
def BUSY : Nat := 503
def TIMEOUT : Nat := 504

inductive ErrCode where
  | protocolError
  | flowControlError
  | frameSizeError
  | compressionError
  | cancel
deriving DecidableEq

/-- The phases of a connection in hand; `idle` is none. -/
inductive Phase where
  | idle
  | handshake
  | ready
  | closing
deriving DecidableEq

inductive StreamState where
  | free
  | opened
  | done
deriving DecidableEq

inductive AbortReason where
  | malformed
  | creditOverrun
  | peerGone
  | stalled
  | draining
deriving DecidableEq

/-- The terminal record a stream owes its requester. -/
inductive Owed where
  | nothing
  | status (code : Nat)
  | abort (reason : AbortReason)
  | endBody

/-- Why a stream left the connection before its answer was complete. -/
inductive Cause where
  /-- The origin broke the protocol or a window on it, or its head does not fit a record. -/
  | violation
  | reset
  | goaway
  | deadline
  | requester
  | lost
  | draining
deriving DecidableEq

structure Stream where
  state : StreamState := .free
  held : Bool := false
  headGiven : Bool := false
  localEnd : Bool := false
  owed : Owed := .nothing
  /-- `rst_sid` and `rst_code`, while `rst_owed` is set. -/
  rst : Option (Nat × ErrCode) := none
  sid : Nat := 0
  id : Nat := 0
  credit : Nat := 0
  winOpen : Nat := 0
  sendWindow : Int := 0
  key : Nat := 0

/-- A record on `response_out`, with the opening it is for. -/
inductive Rec where
  | head (id key code : Nat) (more hold : Bool)
  | body (id key : Nat) (bytes : Bytes) (more : Bool)
  | refuse (id key code : Nat)
  | abort (id key : Nat) (reason : AbortReason)
  | other
deriving DecidableEq

/-- `ExchangeOutbox`: a record that has not left yet, and those that have. -/
structure Outbox where
  held : Option Rec := none
  sent : List Rec := []

/-- What `response_out` answers: to the record held, and to the next. -/
structure Chan where
  flush : Bool
  send : Bool

namespace Outbox

def placed (b : Outbox) : List Rec := b.sent ++ b.held.toList

def flush (b : Outbox) (ok : Bool) : Outbox :=
  match b.held with
  | none => b
  | some r => if ok then { held := none, sent := b.sent ++ [r] } else b

/-- `out_free`, then `out_send`; `none` when the record before is still leaving. -/
def place (b : Outbox) (r : Rec) (ch : Chan) : Option Outbox :=
  let b := b.flush ch.flush
  match b.held with
  | some _ => none
  | none => some (if ch.send then { b with sent := b.sent ++ [r] } else { b with held := some r })

end Outbox

inductive Tx where
  | headers (sid : Nat) (endStream : Bool)
  | data (sid len : Nat) (endStream : Bool)
  | windowUpdate (sid delta : Nat)
  | rst (sid : Nat) (code : ErrCode)

/-- A stream that was opened: for which exchange, and how many frames had been begun by then. -/
structure Opening where
  key : Nat
  sid : Nat
  id : Nat
  start : Nat
deriving DecidableEq

structure Client where
  phase : Phase := .handshake
  goaway : Bool := false
  rxInData : Bool := false
  rxEnd : Bool := false
  rxSid : Nat := 0
  rxLeft : Nat := 0
  rxPad : Nat := 0
  recvBuf : Bytes := []
  opening : Option Nat := none
  nextSid : Nat := 1
  peerMaxStreams : Nat := 2 ^ 32 - 1
  peerInitialWindow : Int := WINDOW_DEFAULT
  peerMaxFrame : Nat := FRAME_SIZE_MIN
  connSendWindow : Int := WINDOW_DEFAULT
  connRecvLeft : Nat := CONN_WINDOW
  streams : List Stream := List.replicate STREAMS {}
  outbox : Outbox := {}
  /-- `authority_len ≠ 0`. -/
  pinned : Bool := false
  requestBodyLen : Nat := 0
  requestBodySent : Nat := 0
  tx : List Tx := []
  begun : Nat := 0
  openings : List Opening := []
  dropped : List (Nat × Cause) := []

/-- A response's `:status`, zero when it has none, and whether its fields fit a record. -/
structure HeadFields where
  code : Nat
  fits : Bool

/-- The parts that are not read here: the contract's `BODY_MAX`, and `hpack::decode_block`. -/
structure Env where
  bodyMax : Nat
  pos : 0 < bodyMax
  decodeBlock : Bytes → Option HeadFields

/-- `u32::saturating_add` and `i32::saturating_add`. -/
def satAdd32 (a b : Nat) : Nat := min (a + b) (2 ^ 32 - 1)
def satAddI32 (a b : Int) : Int := max (-2147483648) (min 2147483647 (a + b))

namespace Client

def slot (c : Client) (i : Nat) : Stream := c.streams.getD i {}

def setSlot (c : Client) (i : Nat) (t : Stream) : Client := { c with streams := c.streams.set i t }

def findSid (c : Client) (sid : Nat) : Option Nat :=
  if sid = 0 then none else c.streams.findIdx? fun t => t.state = .opened ∧ t.sid = sid

def findOpen (c : Client) (id : Nat) : Option Nat :=
  c.streams.findIdx? fun t => t.state = .opened ∧ t.id = id

def consume (c : Client) (n : Nat) : Client := { c with recvBuf := c.recvBuf.drop n }

/-- `detach`, less the record of its cause. -/
def takeOff (c : Client) (i : Nat) (owe : Owed) (rst : Option ErrCode) : Client :=
  let t := c.slot i
  let t := if t.sid ≠ 0 then { t with rst := rst.elim t.rst fun e => some (t.sid, e) } else t
  { c.setSlot i { t with sid := 0, state := .done, owed := owe } with
    opening := if c.opening = some i then none else c.opening }

def detach (c : Client) (i : Nat) (owe : Owed) (rst : Option ErrCode) (cause : Cause) : Client :=
  { c.takeOff i owe rst with dropped := c.dropped ++ [((c.slot i).key, cause)] }

def finish (c : Client) (i : Nat) : Client :=
  c.takeOff i .nothing (if (c.slot i).localEnd then none else some .cancel)

def refusalFor (t : Stream) (raised : Nat) : Owed := if t.headGiven then .abort .peerGone else .status raised

end Client

/-- The answer of the code that reads a frame: an error, nothing (more bytes, or the outbox), or the client after it.
-/
abbrev Reading := Except ErrCode (Option Client)

section Read

variable (E : Env)

def dataHeader (c : Client) (hdr : Header) : Reading :=
  let off := FRAME_HEADER_LEN + hdr.padded.toNat
  if c.recvBuf.length < off then .ok none
  else if hdr.streamId = 0 then .error .protocolError
  else
    let pad := if hdr.padded then (c.recvBuf.at0 FRAME_HEADER_LEN).toNat else 0
    let padTotal := pad + hdr.padded.toNat
    if padTotal > hdr.length then .error .protocolError
    else if hdr.length > c.connRecvLeft then .error .flowControlError
    else
      let c := { c with connRecvLeft := c.connRecvLeft - hdr.length }
      let c :=
        match c.findSid hdr.streamId with
        | none => c
        | some i =>
          let t := c.slot i
          if !t.headGiven then c.detach i (.status BAD_GATEWAY) (some .protocolError) .violation
          else if hdr.length > t.winOpen then
            c.detach i (.abort .creditOverrun) (some .flowControlError) .violation
          else
            c.setSlot i { t with winOpen := t.winOpen - hdr.length, credit := satAdd32 t.credit padTotal }
      .ok (some
        { c.consume off with
          rxInData := true
          rxSid := hdr.streamId
          rxLeft := hdr.length - padTotal
          rxPad := pad
          rxEnd := hdr.endStream
          begun := c.begun + 1 })

def dataBytes (c : Client) (ch : Chan) : Option Client :=
  let avail := c.recvBuf.length
  if c.rxLeft > 0 then
    if avail = 0 then none
    else
      let n := min (min avail c.rxLeft) E.bodyMax
      let ends := decide (n = c.rxLeft) && decide (c.rxPad = 0) && c.rxEnd
      match c.findSid c.rxSid with
      | none => some { c.consume n with rxLeft := c.rxLeft - n }
      | some i =>
        match c.outbox.place (.body (c.slot i).id (c.slot i).key (c.recvBuf.take n) !ends) ch with
        | none => none
        | some b =>
          let c := { c with outbox := b }
          let c := if ends then c.finish i else c
          some { c.consume n with rxLeft := c.rxLeft - n }
  else if c.rxPad > 0 then
    if avail = 0 then none
    else
      let n := min avail c.rxPad
      some { c.consume n with rxPad := c.rxPad - n }
  else if c.rxEnd then
    match c.findSid c.rxSid with
    | none => some { c with rxInData := false }
    | some i =>
      match c.outbox.place (.body (c.slot i).id (c.slot i).key [] false) ch with
      | none => none
      | some b => some { ({ c with outbox := b }).finish i with rxInData := false }
  else some { c with rxInData := false }

def headersBlockExtent (payload : Bytes) (flags : UInt8) : Option (Nat × Nat) :=
  let padded := flags &&& FLAG_PADDED != 0
  let priority := flags &&& FLAG_PRIORITY != 0
  if padded && payload.isEmpty then none
  else
    let pad := if padded then (payload.at0 0).toNat else 0
    let start := padded.toNat
    if priority && decide (payload.length < start + 5) then none
    else
      let start := if priority then start + 5 else start
      if payload.length < pad + start then none else some (start, payload.length - pad - start)

def streamHeaders (c : Client) (i : Nat) (endStream : Bool) (fields : HeadFields) (ch : Chan) : Option Client :=
  let t := c.slot i
  if t.headGiven then
    if !endStream then some (c.detach i (.abort .malformed) (some .protocolError) .violation)
    else
      match c.outbox.place (.body t.id t.key [] false) ch with
      | none => none
      | some b => some (({ c with outbox := b }).finish i)
  else if fields.code < 200 then
    if fields.code < 100 ∨ fields.code = 101 ∨ endStream then
      some (c.detach i (.status BAD_GATEWAY) (some .protocolError) .violation)
    else some c
  else
    let b := c.outbox.flush ch.flush
    if b.held.isSome then none
    else if !fields.fits then
      some (({ c with outbox := b }).detach i (.status BAD_GATEWAY) (some .cancel) .violation)
    else
      match b.place (.head t.id t.key fields.code (!endStream) (!endStream && t.held)) ch with
      | none => none
      | some b =>
        let c := ({ c with outbox := b }).setSlot i { t with headGiven := true }
        some (if endStream then c.finish i else c)

def headers (c : Client) (hdr : Header) (payload : Bytes) (ch : Chan) : Reading :=
  if hdr.flags &&& FLAG_END_HEADERS = 0 then .error .protocolError
  else if hdr.streamId = 0 ∨ hdr.streamId % 2 = 0 then .error .protocolError
  else
    match headersBlockExtent payload hdr.flags with
    | none => .error .protocolError
    | some (off, len) =>
      match E.decodeBlock ((payload.drop off).take len) with
      | none => .error .compressionError
      | some fields =>
        match c.findSid hdr.streamId with
        | none => .ok (some c)
        | some i => .ok (streamHeaders c i hdr.endStream fields ch)

def be32 (p : Bytes) : Nat := (Bytes.u32be (p.at0 0) (p.at0 1) (p.at0 2) (p.at0 3)).toNat

def setting (c : Client) (id v : Nat) : Except ErrCode Client :=
  if id = SETTINGS_MAX_CONCURRENT_STREAMS then .ok { c with peerMaxStreams := v }
  else if id = SETTINGS_INITIAL_WINDOW_SIZE then
    if v > WINDOW_MAX then .error .flowControlError
    else
      .ok { c with
        peerInitialWindow := v
        streams := c.streams.map fun t =>
          if t.state = .opened ∧ t.sid ≠ 0 then
            { t with sendWindow := satAddI32 t.sendWindow (v - c.peerInitialWindow) }
          else t }
  else if id = SETTINGS_MAX_FRAME_SIZE then
    if v < FRAME_SIZE_MIN ∨ v > FRAME_SIZE_MAX then .error .protocolError else .ok { c with peerMaxFrame := v }
  else .ok c

def settings (c : Client) : Bytes → Except ErrCode Client
  | a :: b :: v0 :: v1 :: v2 :: v3 :: rest =>
    match setting c (a.toNat * 256 + b.toNat) (Bytes.u32be v0 v1 v2 v3).toNat with
    | .error e => .error e
    | .ok c => settings c rest
  | _ => .ok c

def windowUpdate (c : Client) (sid delta : Nat) : Except ErrCode Client :=
  if sid = 0 then
    if c.connSendWindow + delta > WINDOW_MAX then .error .flowControlError
    else .ok { c with connSendWindow := c.connSendWindow + delta }
  else
    match c.findSid sid with
    | none => .ok c
    | some i =>
      let t := c.slot i
      if t.sendWindow + delta > WINDOW_MAX then
        .ok (c.detach i (Client.refusalFor t BAD_GATEWAY) (some .flowControlError) .violation)
      else .ok (c.setSlot i { t with sendWindow := t.sendWindow + delta })

def resetByPeer (c : Client) (sid code : Nat) : Client :=
  match c.findSid sid with
  | none => c
  | some i =>
    c.detach i (Client.refusalFor (c.slot i) (if code = ERR_REFUSED_STREAM then BUSY else BAD_GATEWAY)) none .reset

def goAway (c : Client) (last : Nat) : Client :=
  (List.range c.streams.length).foldl
    (fun c i =>
      if (c.slot i).state = .opened ∧ (c.slot i).sid > last then c.detach i (.status BUSY) none .goaway else c)
    { c with goaway := true, phase := .closing }

/-- A frame other than DATA that is whole in `recv_buf`. -/
def control (c : Client) (hdr : Header) (p : Bytes) (ch : Chan) : Reading :=
  if hdr.ftype = FRAME_HEADERS then headers E c hdr p ch
  else if hdr.ftype = FRAME_SETTINGS then
    if hdr.streamId ≠ 0 then .error .protocolError
    else if hdr.flags &&& FLAG_ACK ≠ 0 then .ok (some c)
    else if hdr.length % 6 ≠ 0 then .error .frameSizeError
    else
      match settings c p with
      | .error e => .error e
      | .ok c => .ok (some (if c.phase = .handshake then { c with phase := .ready } else c))
  else if hdr.ftype = FRAME_PING then
    if hdr.streamId ≠ 0 ∨ hdr.length ≠ 8 then .error .protocolError else .ok (some c)
  else if hdr.ftype = FRAME_GOAWAY then
    if hdr.streamId ≠ 0 ∨ hdr.length < 8 then .error .protocolError
    else .ok (some (goAway c (be32 p % 2 ^ 31)))
  else if hdr.ftype = FRAME_WINDOW_UPDATE then
    if hdr.length ≠ 4 then .error .frameSizeError
    else
      match windowUpdate c hdr.streamId (be32 p % 2 ^ 31) with
      | .error e => .error e
      | .ok c => .ok (some c)
  else if hdr.ftype = FRAME_RST_STREAM then
    if hdr.length ≠ 4 then .error .frameSizeError
    else if hdr.streamId = 0 then .error .protocolError
    else .ok (some (resetByPeer c hdr.streamId (be32 p)))
  else if hdr.ftype = FRAME_PUSH_PROMISE ∨ hdr.ftype = FRAME_CONTINUATION then .error .protocolError
  else .ok (some c)

def processOne (c : Client) (ch : Chan) : Reading :=
  if c.rxInData then .ok (dataBytes E c ch)
  else
    match parseHeader c.recvBuf with
    | none => .ok none
    | some hdr =>
      if hdr.ftype = FRAME_DATA then dataHeader c hdr
      else
        let total := FRAME_HEADER_LEN + hdr.length
        if total > RECV_BUF_SIZE then .error .frameSizeError
        else if total > c.recvBuf.length then .ok none
        else if c.phase = .handshake ∧ hdr.ftype ≠ FRAME_SETTINGS then .error .protocolError
        else
          match control E c hdr ((c.recvBuf.drop FRAME_HEADER_LEN).take hdr.length) ch with
          | .error e => .error e
          | .ok none => .ok none
          | .ok (some c) => .ok (some { c.consume total with begun := c.begun + 1 })

end Read

namespace Client

def begin (c : Client) : Client :=
  { c with
    phase := .handshake
    goaway := false
    rxInData := false
    rxEnd := false
    recvBuf := []
    opening := none
    nextSid := 1
    peerMaxStreams := 2 ^ 32 - 1
    peerInitialWindow := WINDOW_DEFAULT
    peerMaxFrame := FRAME_SIZE_MIN
    connSendWindow := WINDOW_DEFAULT
    connRecvLeft := CONN_WINDOW
    tx := []
    begun := 0 }

/-- `lost`: every stream on the connection is answered according to whose link it was. -/
def lost (c : Client) : Client :=
  { c with
    phase := .idle
    opening := none
    rxInData := false
    recvBuf := []
    dropped := c.dropped ++ (c.streams.filter fun t => t.state = .opened).map fun t => (t.key, .lost)
    streams := c.streams.map fun t =>
      if t.state = .opened then
        { t with
          sid := 0
          rst := none
          state := .done
          owed := if c.pinned then .nothing else refusalFor t BAD_GATEWAY }
      else { t with rst := none } }

/-- `requester_record`, for a CREDIT. -/
def credit (c : Client) (id n : Nat) : Client :=
  match c.findOpen id with
  | none => c
  | some i => c.setSlot i { c.slot i with credit := satAdd32 (c.slot i).credit n }

/-- `requester_record`, for an ABORT. -/
def abort (c : Client) (id : Nat) : Client :=
  match c.findOpen id with
  | none => c
  | some i => c.detach i .nothing (some .cancel) .requester

/-- `deadlines`, for a stream that is late. -/
def deadline (c : Client) (i : Nat) : Client :=
  let t := c.slot i
  if t.state = .opened then
    c.detach i (if t.headGiven then .abort .stalled else .status TIMEOUT) (some .cancel) .deadline
  else c

/-- `queue_control`, a reset that is owed. -/
def queueRst (c : Client) (i : Nat) : Client :=
  match (c.slot i).rst with
  | none => c
  | some (sid, code) => { c.setSlot i { c.slot i with rst := none } with tx := c.tx ++ [Tx.rst sid code] }

/-- `queue_control`, the connection's window refilled. -/
def refillConn (c : Client) : Client :=
  if c.connRecvLeft ≤ CONN_WINDOW / 2 then
    { c with connRecvLeft := CONN_WINDOW, tx := c.tx ++ [Tx.windowUpdate 0 (CONN_WINDOW - c.connRecvLeft)] }
  else c

/-- `queue_control`, a stream's window opened as far as its requester's credit. -/
def openWindow (c : Client) (i : Nat) : Client :=
  let t := c.slot i
  if t.state = .opened ∧ t.sid ≠ 0 then
    let want := min t.credit (WINDOW_MAX - t.winOpen)
    if want = 0 then c
    else
      { c.setSlot i { t with credit := t.credit - want, winOpen := t.winOpen + want } with
        tx := c.tx ++ [Tx.windowUpdate t.sid want] }
  else c

end Client

structure Request where
  id : Nat
  credit : Nat
  held : Bool := false
  bodyLen : Nat := 0

namespace Client

/-- `claim`, for a request to the connection's authority whose HEADERS frame fits an empty `request_buf`. -/
def claim (c : Client) (q : Request) : Client :=
  if c.phase ≠ .ready ∨ c.opening ≠ none then c
  else
    match c.streams.findIdx? fun t => t.state = .free with
    | none => c
    | some i =>
      if c.streams.countP (fun t => t.state = .opened) ≥ c.peerMaxStreams then c
      else if c.nextSid > SID_MAX then { c with phase := .closing }
      else
        let hasBody := decide (q.bodyLen > 0)
        let key := c.openings.length
        { c.setSlot i
            { state := .opened, held := q.held, localEnd := !hasBody, sid := c.nextSid, id := q.id,
              credit := q.credit, sendWindow := c.peerInitialWindow, key := key } with
          nextSid := c.nextSid + 2
          opening := if hasBody then some i else none
          requestBodyLen := q.bodyLen
          requestBodySent := 0
          tx := c.tx ++ [Tx.headers c.nextSid !hasBody]
          openings := c.openings ++ [{ key := key, sid := c.nextSid, id := q.id, start := c.begun }] }

/-- A turn of the loop of `send_body`, with `room` bytes for a payload left in `request_buf`. -/
def sendBody (c : Client) (room : Nat) : Client :=
  match c.opening with
  | none => c
  | some i =>
    let t := c.slot i
    if t.state ≠ .opened ∨ t.sid = 0 then { c with opening := none }
    else
      let window := (max (min t.sendWindow c.connSendWindow) 0).toNat
      let n := min (min (min (c.requestBodyLen - c.requestBodySent) window) c.peerMaxFrame)
        (min (REQUEST_BUF_SIZE - FRAME_HEADER_LEN) room)
      if n = 0 then c
      else
        let last := decide (c.requestBodySent + n = c.requestBodyLen)
        { c.setSlot i { t with sendWindow := t.sendWindow - n, localEnd := t.localEnd || last } with
          requestBodySent := c.requestBodySent + n
          connSendWindow := c.connSendWindow - n
          opening := if last then none else c.opening
          tx := c.tx ++ [Tx.data t.sid n last] }

/-- `pump_out`, for one stream. -/
def pumpOut (c : Client) (i : Nat) (ch : Chan) : Client :=
  let t := c.slot i
  if t.state ≠ .done then c
  else
    let placed :=
      match t.owed with
      | .nothing => some c.outbox
      | .status code => c.outbox.place (.refuse t.id t.key code) ch
      | .abort reason => c.outbox.place (.abort t.id t.key reason) ch
      | .endBody => c.outbox.place (.body t.id t.key [] false) ch
    match placed with
    | none => c
    | some b =>
      ({ c with outbox := b }).setSlot i
        (if t.rst = none ∨ c.phase = Phase.idle then {} else { t with owed := .nothing })

def drain (c : Client) : Client :=
  let c := (List.range c.streams.length).foldl
    (fun c i =>
      if (c.slot i).state = .opened then
        c.detach i (if (c.slot i).headGiven then .abort .draining else .status BUSY) none .draining
      else c) c
  { c with
    streams := c.streams.map fun t => { t with rst := none }
    opening := none
    rxInData := false
    recvBuf := []
    phase := .idle }

/-- `service`, when the exchange in hand was aborted before a stream was opened for it. -/
def abandon (c : Client) : Client := { c with outbox := { held := none, sent := c.outbox.sent } }

end Client

/-- A client and the `MSG_DATA` that wait for it on `net_in`. -/
structure Session where
  client : Client
  messages : List (BoundedBytes MAX_DATA_FRAGMENT)

inductive Event where
  /-- `pump_inbound`. -/
  | pump
  /-- A turn of the loop of `process`. -/
  | read (ch : Chan)
  | flush (ok : Bool)
  | credit (id n : Nat)
  | abort (id : Nat)
  | deadline (i : Nat)
  | queueRst (i : Nat)
  | refillConn
  | openWindow (i : Nat)
  | claim (q : Request)
  | sendBody (room : Nat)
  | pumpOut (i : Nat) (ch : Chan)
  /-- The provider places a record for an exchange that has no stream. -/
  | other (ch : Chan)
  | abandon
  | lost
  | drain
  | connect (messages : List (BoundedBytes MAX_DATA_FRAGMENT))

/-- `pump_inbound`: a message is taken while there is room for the largest. -/
def pump (s : Session) : Session :=
  if s.client.phase = .idle ∨ s.client.recvBuf.length + MAX_DATA_FRAGMENT > RECV_BUF_SIZE then s
  else
    match s.messages with
    | [] => s
    | m :: rest => { client := { s.client with recvBuf := s.client.recvBuf ++ m.1 }, messages := rest }

/-- A turn of the loop of `process`, and `fatal` when the origin broke the connection. -/
def read (E : Env) (c : Client) (ch : Chan) : Client :=
  if c.phase = .idle then c
  else
    match processOne E c ch with
    | .error _ => c.lost
    | .ok none => c
    | .ok (some c) => c

def turn (E : Env) (s : Session) : Event → Session
  | .pump => pump s
  | .read ch => { s with client := read E s.client ch }
  | .flush ok => { s with client := { s.client with outbox := s.client.outbox.flush ok } }
  | .credit id n => { s with client := s.client.credit id n }
  | .abort id => { s with client := s.client.abort id }
  | .deadline i => { s with client := s.client.deadline i }
  | .queueRst i => { s with client := s.client.queueRst i }
  | .refillConn => { s with client := s.client.refillConn }
  | .openWindow i => { s with client := s.client.openWindow i }
  | .claim q => { s with client := s.client.claim q }
  | .sendBody room => { s with client := s.client.sendBody room }
  | .pumpOut i ch => { s with client := s.client.pumpOut i ch }
  | .other ch => { s with client := { s.client with outbox := (s.client.outbox.place .other ch).getD s.client.outbox } }
  | .abandon => { s with client := s.client.abandon }
  | .lost => { s with client := s.client.lost }
  | .drain => { s with client := s.client.drain }
  | .connect messages => if s.client.phase = .idle then { client := s.client.begin, messages := messages } else s

def machine (E : Env) : Machine Session Event Empty where
  step s e := (turn E s e, [])

def start (pinned : Bool) (messages : List (BoundedBytes MAX_DATA_FRAGMENT)) : Session where
  client := { pinned := pinned }
  messages := messages

section Table

variable {c : Client} {i j : Nat}

@[simp] theorem setSlot_length (c : Client) (i : Nat) (t : Stream) : (c.setSlot i t).streams.length = c.streams.length :=
  length_set

theorem slot_setSlot_ne (h : j ≠ i) (t : Stream) : (c.setSlot i t).slot j = c.slot j :=
  Table.getD_set_ne h

theorem slot_setSlot_self (h : i < c.streams.length) (t : Stream) : (c.setSlot i t).slot i = t :=
  Table.getD_set_self h

theorem lt_of_opened (h : (c.slot i).state = .opened) : i < c.streams.length := by
  by_contra hge
  unfold Client.slot at h
  rw [List.getD_eq_default _ _ (by omega)] at h
  cases h

theorem findSid_some {sid : Nat} (h : c.findSid sid = some i) :
    (c.slot i).state = .opened ∧ (c.slot i).sid = sid ∧ sid ≠ 0 := by
  unfold Client.findSid at h
  split at h
  · cases h
  next h0 =>
    obtain ⟨hi, hp, _⟩ := List.findIdx?_eq_some_iff_getElem.mp h
    have hslot : c.slot i = c.streams[i] := List.getD_eq_getElem _ _ hi
    rw [hslot]
    simp only [decide_eq_true_eq] at hp
    exact ⟨hp.1, hp.2, h0⟩

theorem findSid_none {sid : Nat} (h : c.findSid sid = none) (h0 : sid ≠ 0) (hi : (c.slot i).state = .opened) :
    (c.slot i).sid ≠ sid := by
  unfold Client.findSid at h
  rw [if_neg h0, List.findIdx?_eq_none_iff] at h
  have hlt := lt_of_opened hi
  have hslot : c.slot i = c.streams[i] := List.getD_eq_getElem _ _ hlt
  have hp := h c.streams[i] (getElem_mem hlt)
  rw [hslot] at hi ⊢
  simp only [decide_eq_false_iff_not] at hp
  exact fun hs => hp ⟨hi, hs⟩

end Table

end Wave.Http.H2Client
