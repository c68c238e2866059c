import Wave.Http.BodyCache

/-! # One HTTP/2 connection of the server (`http/server/h2.rs`)

A step of the machine is a frame, a dispatch, a body frame, a pass over a stream or a record: `h2::step` is made
of them in an order left open here. -/

namespace Wave.Http.H2

open Lib
open BodyCache (rendered CacheLookup CacheStepResult)

def FRAME_HEADER_LEN : Nat := 9
def RST_LEN : Nat := 13

def ERR_NO_ERROR : Nat := 0
def ERR_PROTOCOL_ERROR : Nat := 1
def ERR_INTERNAL_ERROR : Nat := 2
def ERR_FLOW_CONTROL_ERROR : Nat := 3
def ERR_STREAM_CLOSED : Nat := 5
def ERR_REFUSED_STREAM : Nat := 7
def ERR_CANCEL : Nat := 8

/-- Where a DATA frame's bytes come from: a stretch of a route's body, a tunnel's message, anything
else. -/
inductive Piece where
  | rendered (route lo hi : Nat)
  | tunnel (stream : Nat)
  | whole
deriving DecidableEq

inductive OutFrame where
  /-- SETTINGS, acknowledgements, GOAWAY, the connection's WINDOW_UPDATE. -/
  | control (len : Nat)
  | windowUpdate (id : Nat)
  | headers (id block : Nat) (endStream : Bool)
  | data (id len : Nat) (endStream : Bool) (piece : Piece)
  | rstStream (id code : Nat)
deriving DecidableEq

def OutFrame.size : OutFrame → Nat
  | .control len => FRAME_HEADER_LEN + len
  | .windowUpdate _ => FRAME_HEADER_LEN + 4
  | .headers _ block _ => FRAME_HEADER_LEN + block
  | .data _ len _ _ => FRAME_HEADER_LEN + len
  | .rstStream _ _ => RST_LEN

/-- What happens on a connection, in order: frames staged for the wire, and what the peer did that
they answer to. -/
inductive Ev where
  | out (f : OutFrame)
  | opened (id : Nat)
  | peerReset (id : Nat)
  | initialWindow (v : Nat)
  /-- WINDOW_UPDATE, on the connection when `id` is 0. -/
  | credit (id delta : Nat)
  /-- The renderer went over a stretch of a body that comes to nothing. -/
  | passed (id : Nat) (piece : Piece)
deriving DecidableEq

/-! ## State -/

/-- A record of the application. `frame` is the size of a HEAD's HEADERS frame, if it has one. -/
inductive Record where
  | head (status : Nat) (more : Bool) (body : Nat) (frame : Option Nat)
  | body (more : Bool) (len : Nat)

def Record.isHead : Record → Bool
  | .head _ _ _ _ => true
  | .body _ _ => false

/-- `record_ends`. -/
def Record.ends : Record → Bool
  | .head _ more _ _ => !more
  | .body more _ => !more

def Record.bodyLen : Record → Nat
  | .head _ _ n _ => n
  | .body _ n => n

structure Exchange where
  isOpen : Bool := false
  reqDone : Bool := false
  respHead : Bool := false
  respDone : Bool := false

structure StreamSlot where
  id : Nat := 0
  state : SlotState := .idle
  /-- `method_sends_response_body`. -/
  sendsBody : Bool := true
  endStreamIn : Bool := false
  headersSent : Bool := false
  bodyHandler : Handler := .static
  matchedRoute : Option Nat := none
  fileIndex : Int := -1
  tmplPos : Nat := 0
  sendWindow : Int := 65535
  appRoute : Bool := false
  respCarries : Bool := false
  bodyTotal : Nat := 0
  bodyLimit : Nat := 0
  app : Exchange := {}
  queue : List Record := []
  frontTaken : Nat := 0
  frontHeadDone : Bool := false

/-- What `step_sending_body` holds of its stream while it lets frames in. -/
structure Captured where
  slot : Nat
  id : Nat
  bodyHandler : Handler
  matchedRoute : Option Nat
  tmplPos : Nat

def MAX_STREAMS : Nat := 16

structure H2State where
  slots : List StreamSlot := List.replicate MAX_STREAMS {}
  lastStreamId : Nat := 0
  sendWindow : Int := 65535
  peerInitialWindowSize : Int := 65535
  wsActive : Bool := false
  wsStreamId : Nat := 0
  /-- `ws_frag_buf`: what is left of a fragmented envelope, and the tunnel it was begun on. -/
  wsFrag : Option (Nat × Nat) := none
  closing : Bool := false
  captured : Option Captured := none
  /-- The frames in `send_buf`. -/
  staged : List OutFrame := []
  done : List Ev := []

/-- The server's settings, and its routes as a stream meets them. `streamLimit` is `stream_limit`. -/
structure Site where
  sendBufSize : Nat := 4100
  streamLimit : Nat := 16
  handler : Nat → Handler
  source : Nat → Bool
  sendBufSize_ge : 2560 ≤ sendBufSize := by decide

/-- What `ws_drain_buf` makes of the bytes it holds: nothing, one frame back, or a CLOSE. -/
inductive TunnelTurn where
  | quiet
  | frame (n : Nat)
  | close (n : Nat)

namespace H2State

def slot (c : H2State) (i : Nat) : StreamSlot := c.slots.getD i {}

def setSlot (c : H2State) (i : Nat) (s : StreamSlot) : H2State := { c with slots := c.slots.set i s }

def history (c : H2State) : List Ev := c.done ++ c.staged.map Ev.out

def note (c : H2State) (e : Ev) : H2State := { c with done := c.done ++ [e] }

def sendLen (c : H2State) : Nat := (c.staged.map OutFrame.size).sum

def put (c : H2State) (frames : List OutFrame) : H2State := { c with staged := frames }

/-- RST_STREAM behind whatever `send_buf` holds, when it has room. -/
def appendRst (t : Site) (c : H2State) (id code : Nat) : H2State :=
  if c.sendLen + RST_LEN ≤ t.sendBufSize then { c with staged := c.staged ++ [OutFrame.rstStream id code] } else c

def queueGoaway (c : H2State) : H2State := { c.put [.control 8] with closing := true }

def slotForId (c : H2State) (id : Nat) : Option Nat :=
  if id = 0 then none else c.slots.findIdx? fun s => s.id = id ∧ s.state ≠ .idle

def allocSlot (t : Site) (c : H2State) (id : Nat) : Option (Nat × H2State) :=
  if min t.streamLimit MAX_STREAMS ≤ c.slots.countP fun s => s.state ≠ .idle then none
  else
    (c.slots.findIdx? fun s => s.state = .idle).map fun i =>
      (i, c.setSlot i { c.slot i with
        id := id
        state := .open
        headersSent := false
        endStreamIn := false
        sendWindow := c.peerInitialWindowSize })

def freeSlot (c : H2State) (i : Nat) : H2State :=
  c.setSlot i { c.slot i with
    id := 0
    state := .idle
    appRoute := false
    respCarries := false
    bodyTotal := 0
    bodyLimit := 0
    app := {}
    queue := []
    frontTaken := 0
    frontHeadDone := false }

/-- `:status`, `content-type: text/plain` and `content-length`, as HPACK literals. -/
def cannedBlock (n : Nat) : Nat := 5 + 13 + 3 + (Nat.toDigits 10 n).length

def emitResponse (t : Site) (c : H2State) (id n : Nat) : H2State :=
  let block := cannedBlock n
  if t.sendBufSize < FRAME_HEADER_LEN + block + FRAME_HEADER_LEN + n then
    c.put [.rstStream id ERR_INTERNAL_ERROR]
  else c.put [.headers id block false, .data id n true .whole]

def answer (t : Site) (c : H2State) (i n : Nat) : H2State :=
  (c.emitResponse t (c.slot i).id n).freeSlot i

/-- `emit_grpc_response` for the one reply there is: nine bytes, then the trailers. -/
def answerGrpc (c : H2State) (i : Nat) : H2State :=
  (c.put [.headers (c.slot i).id 24 false, .data (c.slot i).id 9 false .whole, .headers (c.slot i).id 15 true]).freeSlot i

def refuseStream (t : Site) (c : H2State) (i n : Nat) : H2State :=
  let s := c.slot i
  let c := c.emitResponse t s.id n
  let c := if s.endStreamIn then c else c.appendRst t s.id ERR_NO_ERROR
  c.freeSlot i

def resetStream (t : Site) (c : H2State) (i code : Nat) : H2State :=
  (c.appendRst t (c.slot i).id code).freeSlot i

/-- `fail_app_stream`: 502 before anything went out and with `send_buf` free. -/
def failAppStream (t : Site) (c : H2State) (i : Nat) : H2State :=
  if !(c.slot i).headersSent && c.sendLen = 0 then c.refuseStream t i 12
  else c.resetStream t i ERR_INTERNAL_ERROR

def refuseBody (t : Site) (c : H2State) (i : Nat) : H2State :=
  let s := c.slot i
  if s.state = .app && s.app.isOpen && s.headersSent then c.resetStream t i ERR_CANCEL
  else c.refuseStream t i 18

def endTunnel (c : H2State) : H2State :=
  let c := (c.slotForId c.wsStreamId).elim c c.freeSlot
  { c with wsActive := false, wsStreamId := 0 }

def queueWsFrame (c : H2State) (n : Nat) (endStream : Bool) : H2State :=
  c.put [.data c.wsStreamId n endStream (.tunnel c.wsStreamId)]

def wsTurn (c : H2State) : TunnelTurn → H2State
  | .quiet => c
  | .frame n => c.queueWsFrame n false
  | .close n => (c.queueWsFrame n true).endTunnel

/-- `ws_queue_frame_fin` on an h2 connection: the stream it names is whatever tunnel there is. -/
def wsQueueFrameFin (c : H2State) (n stream : Nat) : H2State :=
  c.put [.data c.wsStreamId n false (.tunnel stream)]

end H2State

def I32_MIN : Int := -2147483648
def I32_MAX : Int := 2147483647

def clamp32 (x : Int) : Int := max I32_MIN (min I32_MAX x)

namespace H2State

def applyInitialWindowSize (c : H2State) (v : Nat) : H2State :=
  let delta := (v : Int) - c.peerInitialWindowSize
  let c := { c.note (.initialWindow v) with peerInitialWindowSize := v }
  if delta = 0 then c
  else
    { c with
      slots := c.slots.map fun s =>
        if s.id ≠ 0 ∧ s.state ≠ .idle then { s with sendWindow := clamp32 (s.sendWindow + delta) } else s }

/-- The values of `SETTINGS_INITIAL_WINDOW_SIZE` in a SETTINGS frame, in order; one past 2^31 - 1 ends
the connection. -/
def applySettings (c : H2State) : List Nat → H2State
  | [] => c.put [.control 0]
  | v :: vs => if 0x7FFFFFFF < v then c.queueGoaway else (c.applyInitialWindowSize v).applySettings vs

def handleWindowUpdate (c : H2State) (id delta : Nat) : H2State :=
  let delta := delta % 2147483648
  if delta = 0 then c.queueGoaway
  else
    let c := c.note (.credit id delta)
    if id = 0 then { c with sendWindow := clamp32 (c.sendWindow + delta) }
    else
      (c.slotForId id).elim c fun i =>
        c.setSlot i { c.slot i with sendWindow := clamp32 ((c.slot i).sendWindow + delta) }

/-! ## Frames of the peer -/

end H2State

/-- How an extended CONNECT for a WebSocket comes out: a tunnel, or an answer of `n` bytes. -/
inductive WsRoute where
  | tunnel
  | refused (n : Nat)
deriving DecidableEq

/-- What a header block that decodes says. `websocket` is an extended CONNECT. -/
structure Request where
  malformed : Bool := false
  websocket : Option WsRoute := none
  dispatchable : Bool := true
  sendsBody : Bool := true
  appRoute : Bool := false
  bodyLimit : Nat := 0

inductive HeaderBlock where
  | badExtent
  | undecodable
  | request (r : Request)

inductive InFrame where
  | settings (values : List Nat)
  | settingsAck
  | ping
  | headers (id : Nat) (endHeaders endStream : Bool) (block : HeaderBlock)
  /-- `len` is the body less its padding; `held` says that an application stream could keep it, `turn`
  what a tunnel makes of it. -/
  | data (id len : Nat) (badPadding endStream held : Bool) (turn : TunnelTurn)
  | windowUpdate (id delta : Nat)
  | rstStream (id : Nat)
  | ignored
  /-- A frame that is a connection error whatever the state: CONTINUATION, PUSH_PROMISE, a wrong size. -/
  | broken

namespace H2State

/-- `handle_headers` past the decoder, for the request in slot `i`. -/
def placeRequest (t : Site) (c : H2State) (i : Nat) (endStream : Bool) (r : Request) : H2State :=
  let id := (c.slot i).id
  let c := c.note (.opened id)
  let c := c.setSlot i { c.slot i with endStreamIn := endStream, sendsBody := r.sendsBody }
  if r.malformed then (c.put [.rstStream id ERR_PROTOCOL_ERROR]).freeSlot i
  else
    match r.websocket with
    | some route =>
      if endStream || c.wsActive then
        (c.put [.rstStream id (if endStream then ERR_PROTOCOL_ERROR else ERR_REFUSED_STREAM)]).freeSlot i
      else
        match route with
        | .refused n => c.answer t i n
        | .tunnel =>
          let c := c.put [.headers id 5 false]
          { c.setSlot i { c.slot i with state := .wsActive } with wsActive := true, wsStreamId := id }
    | none =>
      if !r.dispatchable then c.answer t i 25
      else
        let s := { c.slot i with bodyLimit := r.bodyLimit, appRoute := r.appRoute }
        c.setSlot i (if endStream || r.appRoute then { s with state := .pending } else s)

def handleHeaders (t : Site) (c : H2State) (id : Nat) (endHeaders endStream : Bool) (block : HeaderBlock) : H2State :=
  if id % 2 = 0 ∨ !endHeaders ∨ id ≤ c.lastStreamId then c.queueGoaway
  else
    match c.allocSlot t id with
    | none => c.put [.rstStream id ERR_REFUSED_STREAM]
    | some (i, c) =>
      match block with
      | .badExtent => c.queueGoaway
      | .undecodable => ({ c with lastStreamId := id }.freeSlot i).queueGoaway
      | .request r => { c with lastStreamId := id }.placeRequest t i endStream r

/-- `handle_data` for a stream that is not a tunnel. -/
def handleBody (t : Site) (c : H2State) (i len : Nat) (badPadding endStream held : Bool) : H2State :=
  if badPadding then c.queueGoaway
  else
    let s := { c.slot i with bodyTotal := (c.slot i).bodyTotal + len }
    let c := c.setSlot i s
    if 0 < len ∧ s.bodyLimit < s.bodyTotal then c.refuseBody t i
    else if 0 < len ∧ s.appRoute ∧ !held then c.resetStream t i ERR_FLOW_CONTROL_ERROR
    else if endStream then
      c.setSlot i { s with endStreamIn := true, state := if s.state = .open then .pending else s.state }
    else c

def handleData (t : Site) (c : H2State) (id len : Nat) (badPadding endStream held : Bool) (turn : TunnelTurn) :
    H2State :=
  if id = 0 then c.queueGoaway
  else
    match c.slotForId id with
    | none => if id ≤ c.lastStreamId then c else c.put [.rstStream id ERR_STREAM_CLOSED]
    | some i =>
      if (c.slot i).state = .wsActive then c.wsTurn turn
      else c.handleBody t i len badPadding endStream held

def handleRstStream (c : H2State) (id : Nat) : H2State :=
  let c := c.note (.peerReset id)
  (c.slotForId id).elim c fun i =>
    if (c.slot i).state = .wsActive then c.endTunnel else c.freeSlot i

def processFrame (t : Site) (c : H2State) : InFrame → H2State
  | .settings values => c.applySettings values
  | .settingsAck => c
  | .ping => c.put [.control 8]
  | .headers id endHeaders endStream block => c.handleHeaders t id endHeaders endStream block
  | .data id len badPadding endStream held turn => c.handleData t id len badPadding endStream held turn
  | .windowUpdate id delta => c.handleWindowUpdate id delta
  | .rstStream id => c.handleRstStream id
  | .ignored => c
  | .broken => c.queueGoaway

end H2State

/-! ## Dispatch -/

/-- The answers to a request `app::emit_head` does not take: 400, 431 and 503. -/
inductive AppRefusal where
  | badRequest
  | fieldsTooLarge
  | unwired
deriving DecidableEq

def AppRefusal.len : AppRefusal → Nat
  | .badRequest => 12
  | .fieldsTooLarge => 32
  | .unwired => 36

/-- How `app::emit_head` comes out. -/
inductive Emit where
  | sent (moreBody : Bool)
  | full
  | refused (r : AppRefusal)

inductive FileOpen where
  | listing
  | opened (index : Nat)
  | refused (n : Nat)

/-- What a dispatch meets: the route, the cache, the file channel and the application. -/
structure Dispatch where
  matched : Option Nat
  tooLong : Bool := false
  lookup : CacheLookup := .hit
  file : FileOpen := .listing
  emit : Emit := .full

namespace H2State

/-- `arm_slot_for_emission`. -/
def armSlot (c : H2State) (i : Nat) (h : Handler) (fileIndex : Int) (r : Nat) : H2State :=
  c.setSlot i { c.slot i with
    bodyHandler := h
    matchedRoute := some r
    fileIndex := fileIndex
    tmplPos := 0
    headersSent := false
    state := .sending }

def beginCachedResponse (c : H2State) (i : Nat) (h : Handler) (r : Nat) : CacheLookup → H2State
  | .hit | .noSource => c.armSlot i h (-1) r
  | .pending | .busy =>
    c.setSlot i { c.slot i with
      bodyHandler := h
      matchedRoute := some r
      fileIndex := -1
      tmplPos := 0
      headersSent := false
      state := .fetching }

def beginFileResponse (t : Site) (c : H2State) (i r : Nat) : FileOpen → H2State
  | .listing => c.armSlot i .file (-1) r
  | .opened index => c.armSlot i .file index r
  | .refused n => c.answer t i n

def beginAppRequest (t : Site) (c : H2State) (i : Nat) : Emit → H2State
  | .sent moreBody =>
    c.setSlot i { c.slot i with app := { isOpen := true, reqDone := !moreBody }, state := .app }
  | .full => c
  | .refused r => c.refuseStream t i r.len

def dispatchRequest (t : Site) (c : H2State) (i : Nat) (d : Dispatch) : H2State :=
  match d.matched with
  | none => c.answer t i 10
  | some r =>
    if t.handler r ≠ .app ∧ d.tooLong then c.answer t i 13
    else
      match t.handler r with
      | .static | .template =>
        if t.source r then c.beginCachedResponse i (t.handler r) r d.lookup
        else c.armSlot i (t.handler r) (-1) r
      | .file => c.beginFileResponse t i r d.file
      | .app => c.beginAppRequest t i d.emit
      | .grpc => c.answerGrpc i
      | _ => c.answer t i 26

def fetchingSlot (c : H2State) : Option Nat := c.slots.findIdx? fun s => s.state = .fetching

/-- `drive_cache_fetch`, whose cache and file channel say how far the fetch is. -/
def driveCacheFetch (t : Site) (c : H2State) (res : CacheStepResult) : H2State :=
  c.fetchingSlot.elim c fun i =>
    match (c.slot i).matchedRoute, res with
    | some r, .ready => c.armSlot i (c.slot i).bodyHandler (-1) r
    | _, .error => c.answer t i 19
    | _, _ => c

end H2State

/-- What the renderer puts into its room: the bytes, whether the body goes on and the cursor behind them. -/
structure Rendered where
  len : Nat
  more : Bool
  pos : Nat

/-- The block of `emit_slot_headers`. -/
def slotBlock (h : Handler) (fileIndex : Int) : Nat :=
  if rendered h then 17 else if fileIndex < 0 then 18 else 32

namespace H2State

/-- `step_sending_body` with the window open: a chunk for the stream that was picked, charged to its slot. -/
def emitChunk (t : Site) (c : H2State) (p : Captured) (avail : Int) (r : Rendered) : H2State :=
  let n := min r.len (min (t.sendBufSize - FRAME_HEADER_LEN) avail.toNat)
  let pos := if rendered p.bodyHandler then r.pos else p.tmplPos
  let piece :=
    if rendered p.bodyHandler then Piece.rendered (p.matchedRoute.getD 0) p.tmplPos pos else .whole
  let c := c.setSlot p.slot { c.slot p.slot with tmplPos := pos }
  if n = 0 ∧ r.more then c.note (.passed p.id piece)
  else
    let c := { c.put [.data p.id n (!r.more) piece] with sendWindow := clamp32 (c.sendWindow - n) }
    if r.more then
      c.setSlot p.slot { c.slot p.slot with sendWindow := clamp32 ((c.slot p.slot).sendWindow - n) }
    else c.freeSlot p.slot

def avail (c : H2State) (i : Nat) : Int := min c.sendWindow (c.slot i).sendWindow

/-- `step_sending_body` for the slot the round robin picked, up to the stall. -/
def stepSendingBody (t : Site) (c : H2State) (i : Nat) (r : Rendered) : H2State :=
  let s := c.slot i
  let p : Captured := ⟨i, s.id, s.bodyHandler, s.matchedRoute, s.tmplPos⟩
  if !s.headersSent then
    (c.put [.headers s.id (slotBlock s.bodyHandler s.fileIndex) false]).setSlot i { s with headersSent := true }
  else if 0 < c.avail i then c.emitChunk t p (c.avail i) r
  else { c with captured := some p }

def resumeSendingBody (t : Site) (c : H2State) (r : Rendered) : H2State :=
  c.captured.elim c fun p =>
    let c := { c with captured := none }
    if 0 < c.avail p.slot then c.emitChunk t p (c.avail p.slot) r else c

/-! ## Application streams -/

end H2State

def statusAllowsBody (status : Nat) (sendsBody : Bool) : Bool :=
  sendsBody && status != 204 && status != 304 && !(100 ≤ status && status < 200)

structure Composed where
  frames : List OutFrame
  slot : StreamSlot
  window : Int
  finished : Bool := false
  failed : Bool := false

def Composed.used (x : Composed) : Nat := (x.frames.map OutFrame.size).sum

def composeHead (t : Site) (x : Composed) : Record → Composed
  | .head status more body frame =>
    if x.slot.frontHeadDone then x
    else
      let carries := statusAllowsBody status x.slot.sendsBody
      let endHere := !more && (!carries || body == 0)
      match frame with
      | some n =>
        if n ≤ t.sendBufSize - x.used then
          { x with
            frames := x.frames ++ [OutFrame.headers x.slot.id (n - FRAME_HEADER_LEN) endHere]
            slot := { x.slot with respCarries := carries, headersSent := true, frontHeadDone := true }
            finished := endHere }
        else { x with slot := { x.slot with respCarries := carries }, failed := true }
      | none => { x with slot := { x.slot with respCarries := carries }, failed := true }
  | .body _ _ => x

/-- The DATA of the front record, and the queue behind it. `none` when the loop stops there. -/
def composeBody (t : Site) (x : Composed) (rec : Record) (rest : List Record) : Composed × Bool :=
  let s := x.slot
  let left := rec.bodyLen - s.frontTaken
  let window := (max 0 (min x.window s.sendWindow)).toNat
  let room := t.sendBufSize - (x.used + FRAME_HEADER_LEN)
  let n := if s.respCarries then min left (min window room) else left
  let ended := n = left ∧ rec.ends
  let framed : Option (List OutFrame) :=
    if s.respCarries ∧ (0 < n ∨ ended) then
      if t.sendBufSize < x.used + FRAME_HEADER_LEN + n then none else some [.data s.id n ended .whole]
    else if !s.respCarries ∧ ended ∧ s.headersSent then
      if t.sendBufSize < x.used + FRAME_HEADER_LEN then none else some [.data s.id 0 true .whole]
    else some []
  match framed with
  | none => (x, true)
  | some frames =>
    let charge : Int := if s.respCarries then n else 0
    let s := { s with sendWindow := s.sendWindow - charge }
    let s :=
      if n = left then { s with queue := rest, frontTaken := 0, frontHeadDone := false }
      else { s with frontTaken := s.frontTaken + n }
    ({ x with frames := x.frames ++ frames, slot := s, window := x.window - charge, finished := ended }, ended ∨ n ≠ left)

def composeLoop (t : Site) : List Record → Composed → Composed
  | [], x => x
  | rec :: rest, x =>
    let x := composeHead t x rec
    if x.finished ∨ x.failed then x
    else
      let r := composeBody t x rec rest
      if r.2 then r.1 else composeLoop t rest r.1

namespace H2State

def composeAppFrames (t : Site) (c : H2State) (i : Nat) : H2State :=
  let x := composeLoop t (c.slot i).queue { frames := [], slot := c.slot i, window := c.sendWindow }
  let c := { c.setSlot i x.slot with sendWindow := x.window, staged := x.frames }
  if x.failed then c.failAppStream t i
  else if x.finished then
    -- `finish_app_stream`
    (if x.slot.app.reqDone then c else c.appendRst t x.slot.id ERR_NO_ERROR).freeSlot i
  else c

/-- The progress deadline of `pump_app_streams`. -/
def appTimeout (t : Site) (c : H2State) (i : Nat) : H2State :=
  if (c.slot i).headersSent then c.resetStream t i ERR_CANCEL else c.refuseStream t i 16

end H2State

/-- A record for an open exchange as `admit` sees it; `fits` says that it is within the credit and the
queue. -/
inductive AppRecord where
  | response (rec : Record) (fits : Bool)
  | abort
  | other

/-- The record ends the exchange: an abort, a second HEAD, a BODY out of place, or one past its credit. -/
def AppRecord.fails (s : StreamSlot) : AppRecord → Bool
  | .response rec fits => (if rec.isHead then s.app.respHead else !s.app.respHead || s.app.respDone) || !fits
  | .abort => true
  | .other => false

namespace H2State

def appRecord (t : Site) (c : H2State) (i : Nat) (r : AppRecord) : H2State :=
  let s := c.slot i
  if r.fails s then c.failAppStream t i
  else
    match r with
    | .response rec _ =>
      c.setSlot i { s with
        queue := s.queue ++ [rec]
        app := { s.app with respHead := true, respDone := s.app.respDone || rec.ends } }
    | _ => c

end H2State

/-! ## The machine -/

inductive Op where
  /-- The last of `send_buf` is taken by the transport. -/
  | flush
  | frame (f : InFrame)
  | dispatch (i : Nat) (d : Dispatch)
  | fetch (res : CacheStepResult)
  | sendBody (i : Nat) (r : Rendered)
  | resume (r : Rendered)
  /-- The stall ends without coming back to the body. -/
  | abandon
  /-- `queue_window_update` for the connection, or a stream; the server's SETTINGS go out likewise. -/
  | refill (i : Option Nat)
  /-- `forward_rx` sends the last of a request's body. -/
  | forward (i : Nat)
  | timeout (i : Nat)
  | compose (i : Nat)
  | record (i : Nat) (r : AppRecord)
  /-- `fail_app_streams` at stream `i`. -/
  | fail (i : Nat)
  /-- `ws_drain_buf` on a later tick, or the session failing. -/
  | tunnel (turn : TunnelTurn)
  /-- An envelope of the worker, with what is left of it for later fragments. -/
  | envelope (n left : Nat)
  | fragment (n : Nat)
  | goaway

namespace H2State

/-- `h2::step` processes frames on a connection that is not closing, with `send_buf` drained. -/
def ready (c : H2State) : Bool := !c.closing && c.staged = []

def idle (c : H2State) : Bool := c.ready && c.captured = none

def attached (c : H2State) : Bool := (!c.closing || c.staged ≠ []) && c.captured = none

def when (b : Bool) (c d : H2State) : H2State := if b then d else c

def step (t : Site) (c : H2State) : Op → H2State
  | .flush => { c with done := c.history, staged := [] }
  | .frame f => when c.ready c (c.processFrame t f)
  | .dispatch i d => when (c.ready && (c.slot i).state = .pending) c (c.dispatchRequest t i d)
  | .fetch res => when c.idle c (c.driveCacheFetch t res)
  | .sendBody i r => when (c.idle && (c.slot i).state = .sending) c (c.stepSendingBody t i r)
  | .resume r => when c.ready c (c.resumeSendingBody t r)
  | .abandon => { c with captured := none }
  | .refill none => when c.idle c (c.put [.control 4])
  | .refill (some i) => when (c.idle && (c.slot i).state ≠ .idle) c (c.put [.windowUpdate (c.slot i).id])
  | .forward i =>
    when (c.idle && (c.slot i).state = .app) c
      (c.setSlot i { c.slot i with app := { (c.slot i).app with reqDone := true } })
  | .timeout i => when (c.idle && (c.slot i).state = .app) c (c.appTimeout t i)
  | .compose i => when (c.idle && (c.slot i).state = .app) c (c.composeAppFrames t i)
  | .record i r => when (c.attached && (c.slot i).state = .app) c (c.appRecord t i r)
  | .fail i => when (c.attached && (c.slot i).state = .app && !(c.slot i).app.respDone) c (c.failAppStream t i)
  | .tunnel turn => when (c.idle && c.wsActive) c (c.wsTurn turn)
  | .envelope n left =>
    when (c.idle && c.wsFrag = none) c
      { c.wsQueueFrameFin n c.wsStreamId with wsFrag := if left = 0 then none else some (left, c.wsStreamId) }
  | .fragment n =>
    when (c.idle && c.wsActive) c <|
      c.wsFrag.elim c fun (left, stream) =>
        { c.wsQueueFrameFin n stream with wsFrag := if left ≤ n then none else some (left - n, stream) }
  | .goaway => when c.idle c c.queueGoaway

end H2State

def machine (t : Site) : Machine H2State Op Unit where
  step c op := (c.step t op, [])

def exampleSite : Site where
  handler r := if r = 0 then .static else .app
  source _ := false
  sendBufSize_ge := smallProfile.sendBufSize_ge

/-- The front record with `n` bytes of its body, and `fs` for them, behind it. -/
def Composed.advance (x : Composed) (rec : Record) (rest : List Record) (n : Nat) (fs : List OutFrame) : Composed :=
  let charge : Int := if x.slot.respCarries then n else 0
  let s := { x.slot with sendWindow := x.slot.sendWindow - charge }
  { x with
    frames := x.frames ++ fs
    slot :=
      if n = rec.bodyLen - x.slot.frontTaken then { s with queue := rest, frontTaken := 0, frontHeadDone := false }
      else { s with frontTaken := x.slot.frontTaken + n }
    window := x.window - charge
    finished := n = rec.bodyLen - x.slot.frontTaken ∧ rec.ends = true }

inductive BodyFrames (s : StreamSlot) (n : Nat) (ended : Prop) : List OutFrame → Prop
  | framed {fin : Bool} : s.respCarries = true → 0 < n ∨ ended → (fin = true ↔ ended) →
    BodyFrames s n ended [.data s.id n fin .whole]
  | bare : s.respCarries = false → ended → s.headersSent = true → BodyFrames s n ended [.data s.id 0 true .whole]
  | idle : (s.respCarries = true → n = 0 ∧ ¬ ended) → (ended → s.headersSent = false) → BodyFrames s n ended []

theorem composeBody_spec (t : Site) (x : Composed) (rec : Record) (rest : List Record) :
    composeBody t x rec rest = (x, true) ∨
      ∃ n fs, n ≤ rec.bodyLen - x.slot.frontTaken ∧
        (x.slot.respCarries = true → 0 < n → (n : Int) ≤ x.window ∧ (n : Int) ≤ x.slot.sendWindow) ∧
        (x.slot.respCarries = false → n = rec.bodyLen - x.slot.frontTaken) ∧
        BodyFrames x.slot n (n = rec.bodyLen - x.slot.frontTaken ∧ rec.ends = true) fs ∧
        composeBody t x rec rest = (x.advance rec rest n fs,
          decide ((n = rec.bodyLen - x.slot.frontTaken ∧ rec.ends = true) ∨
            n ≠ rec.bodyLen - x.slot.frontTaken)) := by
  unfold composeBody
  dsimp only
  generalize hn : (if x.slot.respCarries = true then
    min (rec.bodyLen - x.slot.frontTaken) (min (max 0 (min x.window x.slot.sendWindow)).toNat
      (t.sendBufSize - (x.used + FRAME_HEADER_LEN)))
    else rec.bodyLen - x.slot.frontTaken) = n
  split
  · exact .inl rfl
  · rename_i frames hfr
    refine .inr ⟨n, frames, ?_, fun hc hpos => ?_, fun hc => ?_, ?_, rfl⟩
    · split_ifs at hn <;> omega
    · rw [if_pos hc] at hn
      omega
    · rw [if_neg (by simp [hc])] at hn
      exact hn.symm
    · split_ifs at hfr with h1 _ h2
      · cases hfr
        exact .framed h1.1 (by simpa using h1.2) (by simp)
      · cases hfr
        exact .bare (by simpa using h2.1) (by simpa using h2.2.1) h2.2.2
      · cases hfr
        have hidle : x.slot.respCarries = true →
            n = 0 ∧ ¬ (n = rec.bodyLen - x.slot.frontTaken ∧ rec.ends = true) := by
          intro hc
          rw [not_and, not_or] at h1
          exact ⟨Nat.eq_zero_of_not_pos (h1 hc).1, (h1 hc).2⟩
        refine .idle hidle fun he => ?_
        by_contra hsent
        refine h2 ⟨?_, he, by simpa using hsent⟩
        by_contra hc
        exact (hidle (by simpa using hc)).2 he

namespace H2State

variable {c : H2State} {i j id : Nat}

theorem slot_setSlot (c : H2State) (i j : Nat) (s : StreamSlot) :
    (j = i ∧ (c.setSlot i s).slot j = s) ∨ (c.setSlot i s).slot j = c.slot j :=
  Table.getD_set_cases c.slots i j s {}

theorem slot_setSlot_ne (h : j ≠ i) (s : StreamSlot) : (c.setSlot i s).slot j = c.slot j :=
  Table.getD_set_ne h

theorem slot_setSlot_forall {P : Nat → StreamSlot → Prop} {s : StreamSlot} (hi : P i s) (h : ∀ j, P j (c.slot j)) :
    ∀ j, P j ((c.setSlot i s).slot j) := by
  intro j
  rcases slot_setSlot c i j s with ⟨rfl, heq⟩ | heq
  · rwa [heq]
  · rw [heq]
    exact h j

theorem lt_of_busy (h : (c.slot i).state ≠ .idle) : i < c.slots.length :=
  Table.lt_of_getD_ne (d := {}) fun heq => h (congrArg StreamSlot.state heq)

theorem slot_setSlot_self (h : (c.slot i).state ≠ .idle) (s : StreamSlot) : (c.setSlot i s).slot i = s :=
  Table.getD_set_self (lt_of_busy h)

theorem slotForId_some (h : c.slotForId id = some i) :
    (c.slot i).id = id ∧ (c.slot i).state ≠ .idle ∧ id ≠ 0 := by
  unfold slotForId at h
  split_ifs at h with h0
  obtain ⟨hlt, hp, -⟩ := List.findIdx?_eq_some_iff_getElem.mp h
  have hs : c.slot i = c.slots[i] := by simp [slot, List.getD_eq_getElem?_getD, hlt]
  rw [hs]
  exact ⟨(of_decide_eq_true hp).1, (of_decide_eq_true hp).2, h0⟩

theorem allocSlot_some {t : Site} {d : H2State} (h : c.allocSlot t id = some (i, d)) :
    i < c.slots.length ∧ (c.slot i).state = .idle ∧
      d = c.setSlot i { c.slot i with
        id := id, state := .open, headersSent := false, endStreamIn := false,
        sendWindow := c.peerInitialWindowSize } := by
  unfold allocSlot at h
  split_ifs at h
  obtain ⟨j, hj, heq⟩ := map_eq_some_iff.mp h
  obtain ⟨rfl, rfl⟩ := Prod.mk.inj heq
  obtain ⟨hlt, hidle, -⟩ := List.findIdx?_eq_some_iff_getElem.mp hj
  refine ⟨hlt, ?_, rfl⟩
  have hs : c.slot j = c.slots[j] := by simp [slot, List.getD_eq_getElem?_getD, hlt]
  rw [hs]
  exact of_decide_eq_true hidle

theorem staged_of_ready (h : c.ready = true) : c.staged = [] ∧ c.closing = false := by
  simpa [ready, and_comm] using h

theorem ready_of_idle (h : c.idle = true) : c.ready = true := by
  rw [idle, and_eq_true] at h
  exact h.1

theorem fetchingSlot_some (h : c.fetchingSlot = some i) : (c.slot i).state = .fetching := by
  obtain ⟨hlt, hp, -⟩ := List.findIdx?_eq_some_iff_getElem.mp h
  have hs : c.slot i = c.slots[i] := by simp [slot, List.getD_eq_getElem?_getD, hlt]
  rw [hs]
  exact of_decide_eq_true hp

theorem history_put (hs : c.staged = []) (fs : List OutFrame) : (c.put fs).history = c.history ++ fs.map Ev.out := by
  simp [history, put, hs]

theorem history_note (hs : c.staged = []) (e : Ev) : (c.note e).history = c.history ++ [e] := by
  simp [history, note, hs]

end H2State

def Vacant (s : StreamSlot) : Prop := s.id = 0 ∧ s.state = .idle

structure Tidy (c : H2State) : Prop where
  vacant : ∀ i, (c.slot i).state = .idle ↔ (c.slot i).id = 0
  distinct : ∀ i j, (c.slot i).id ≠ 0 → (c.slot i).id = (c.slot j).id → i = j
  known : c.closing = false → ∀ i, (c.slot i).id ≤ c.lastStreamId

theorem Tidy.slotForId {c : H2State} {i : Nat} (h : Tidy c) (hb : (c.slot i).state ≠ .idle) :
    c.slotForId (c.slot i).id = some i := by
  have hne : (c.slot i).id ≠ 0 := fun h0 => hb ((h.vacant i).mpr h0)
  have hlt := H2State.lt_of_busy hb
  have hs : c.slots[i] = c.slot i := by simp [H2State.slot, List.getD_eq_getElem?_getD, hlt]
  cases hf : c.slotForId (c.slot i).id with
  | some j => rw [h.distinct i j hne (H2State.slotForId_some hf).1.symm]
  | none =>
    simp only [H2State.slotForId, hne, if_false, List.findIdx?_eq_none_iff] at hf
    have := hf c.slots[i] (getElem_mem hlt)
    simp [hs, hb] at this

end Wave.Http.H2
