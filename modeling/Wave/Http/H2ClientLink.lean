import Wave.Http.H2Client

/-! # The HTTP/2 client's connection: control frames and the transmit buffer (`http/client/h2_streams.rs`)

`Link` is the client with the acknowledgements, PINGs and bytes it owes; `log` has what came and was queued. -/

namespace Wave.Http.H2Client

open Lib Lib.Bytes Http.H2Wire

/-- What the origin sent for a stream that was opened, and what was queued for the origin. -/
inductive Note where
  | ping (data : Bytes)
  | pingAck (data : Bytes)
  | keepalive (data : Bytes)
  | headers (sid max : Nat)
  | localEnd (sid : Nat)
  | remoteEnd (sid : Nat)
  | rstQueued (sid : Nat)
  | rstReceived (sid : Nat)
  | goaway
  | otherAuthority
deriving DecidableEq

structure Link where
  client : Client := {}
  settingsAckOwed : Nat := 0
  pingAckOwed : Bool := false
  pingDue : Bool := false
  pingOut : Bool := false
  pingOpaque : Bytes := List.replicate 8 0
  rxMs : UInt64 := 0
  pingMs : UInt64 := 0
  /-- `client_stall_ms`. -/
  stallMs : Nat := 0
  /-- `request_len - request_sent`. -/
  unsent : Nat := 0
  authority : Bytes := []
  log : List Note := []

namespace Link

def note (l : Link) (ns : List Note) : Link := { l with log := l.log ++ ns }

def lost (l : Link) : Link := { l with client := l.client.lost, unsent := 0 }

def pump (l : Link) (m : BoundedBytes MAX_DATA_FRAGMENT) : Link :=
  if l.client.phase = .idle ∨ l.client.recvBuf.length + MAX_DATA_FRAGMENT > RECV_BUF_SIZE then l
  else { l with client := { l.client with recvBuf := l.client.recvBuf ++ m.1 } }

def about (l : Link) (sid : Nat) (n : Note) : List Note := if sid < l.client.nextSid then [n] else []

/-- What `process` does with a frame that is whole, beside `control`. -/
def received (l : Link) (hdr : Header) (p : Bytes) : Link :=
  if hdr.ftype = FRAME_HEADERS then
    l.note (if hdr.endStream then l.about hdr.streamId (.remoteEnd hdr.streamId) else [])
  else if hdr.ftype = FRAME_SETTINGS then
    if hdr.flags &&& FLAG_ACK = 0 then { l with settingsAckOwed := min (l.settingsAckOwed + 1) 255 } else l
  else if hdr.ftype = FRAME_PING then
    if hdr.flags &&& FLAG_ACK ≠ 0 then { l with pingOut := false }
    else { l with pingOpaque := p.take 8, pingAckOwed := true }.note [.ping (p.take 8)]
  else if hdr.ftype = FRAME_GOAWAY then l.note [.goaway]
  else if hdr.ftype = FRAME_RST_STREAM then l.note (l.about hdr.streamId (.rstReceived hdr.streamId))
  else l

/-- The turn of `data_bytes` took the last of a DATA frame with END_STREAM. -/
def endsData (c c' : Client) : Bool := decide (c'.rxLeft = 0) && decide (c.rxPad = 0) && c.rxEnd

variable (E : Env)

def read (l : Link) (now : UInt64) (ch : Chan) : Link :=
  if l.client.phase = .idle then l
  else if l.client.rxInData then
    match dataBytes E l.client ch with
    | none => l
    | some c =>
      { l with client := c }.note
        (if endsData l.client c then l.about l.client.rxSid (.remoteEnd l.client.rxSid) else [])
  else
    match parseHeader l.client.recvBuf with
    | none => l
    | some hdr =>
      let l := { l with rxMs := now }
      match processOne E l.client ch with
      | .error _ => l.lost
      | .ok none => l
      | .ok (some c) =>
        if hdr.ftype = FRAME_DATA then { l with client := c }
        else { l with client := c }.received hdr ((l.client.recvBuf.drop FRAME_HEADER_LEN).take hdr.length)

def keepalive (l : Link) (now : UInt64) : Link :=
  if l.client.phase = .idle then l
  else if l.stallMs = 0 ∨ l.client.phase = .handshake ∨ ¬ ∃ t ∈ l.client.streams, t.state = .opened then
    { l with pingOut := false }
  else if l.pingOut then if (now - l.pingMs).toNat ≥ l.stallMs then l.lost else l
  else if (now - l.rxMs).toNat ≥ l.stallMs then
    { l with pingDue := true, pingMs := now, pingOpaque := be64 now }
  else l

/-- `tx_room`. -/
def room (l : Link) (need : Nat) : Bool := l.unsent + need ≤ REQUEST_BUF_SIZE

def flush (l : Link) (gone : Nat) : Link := { l with unsent := l.unsent - gone }

/-- A frame of `queue_control`; `none` where it returns for want of room. -/
abbrev Stage := Link → Option Link

def commit (l : Link) (need : Nat) (after : Link) : Option Link :=
  if l.room need then some { after with unsent := l.unsent + need } else none

def settingsAck : Stage := fun l => l.commit FRAME_HEADER_LEN { l with settingsAckOwed := l.settingsAckOwed - 1 }

def pingAck : Stage := fun l =>
  if !l.pingAckOwed then some l
  else l.commit (FRAME_HEADER_LEN + 8) ({ l with pingAckOwed := false }.note [.pingAck l.pingOpaque])

def keepalivePing : Stage := fun l =>
  if !l.pingDue then some l
  else l.commit (FRAME_HEADER_LEN + 8) ({ l with pingDue := false, pingOut := true }.note [.keepalive l.pingOpaque])

def rstStream (i : Nat) : Stage := fun l =>
  match (l.client.slot i).rst with
  | none => some l
  | some (sid, _) => l.commit (FRAME_HEADER_LEN + 4) ({ l with client := l.client.queueRst i }.note [.rstQueued sid])

def refillConn : Stage := fun l =>
  if l.client.connRecvLeft > CONN_WINDOW / 2 then some l
  else l.commit (FRAME_HEADER_LEN + 4) { l with client := l.client.refillConn }

def openWindow (i : Nat) : Stage := fun l =>
  let t := l.client.slot i
  if t.state ≠ .opened ∨ t.sid = 0 ∨ min t.credit (WINDOW_MAX - t.winOpen) = 0 then some l
  else l.commit (FRAME_HEADER_LEN + 4) { l with client := l.client.openWindow i }

def stages : List Stage → Link → Link
  | [], l => l
  | f :: fs, l =>
    match f l with
    | none => l
    | some l => stages fs l

def queueControl (l : Link) : Link :=
  if l.client.phase = .idle ∨ l.client.phase = .handshake ∧ l.settingsAckOwed = 0 then l
  else
    stages
      (List.replicate l.settingsAckOwed settingsAck ++ [pingAck, keepalivePing] ++
        (List.range STREAMS).map rstStream ++ [refillConn] ++ (List.range STREAMS).map openWindow) l

/-- The exchange in hand: its authority, the length of its HEADERS frame if it fits, and what `hand_off` gives. -/
structure Offer where
  authority : Bytes
  headersLen : Option Nat
  request : Option Request

def Opens (l : Link) (offer : Option Offer) : Prop :=
  l.client.phase = .ready ∧ l.client.opening = none ∧ (∃ t ∈ l.client.streams, t.state = .free) ∧
    l.client.streams.countP (fun t => t.state = .opened) < l.client.peerMaxStreams ∧ l.client.nextSid ≤ SID_MAX ∧
      l.unsent = 0 ∧ ∃ o len q, offer = some o ∧ o.authority = l.authority ∧ o.headersLen = some len ∧ o.request = some q

def claim (l : Link) (offer : Option Offer) : Link :=
  if l.client.phase ≠ .ready ∨ l.client.opening ≠ none then l
  else if ¬ ∃ t ∈ l.client.streams, t.state = .free then l
  else if l.client.streams.countP (fun t => t.state = .opened) ≥ l.client.peerMaxStreams then l
  else
    match offer with
    | none => l
    | some o =>
      if o.authority ≠ l.authority then
        { l with client := { l.client with phase := .closing } }.note [.otherAuthority]
      else if l.client.nextSid > SID_MAX then { l with client := { l.client with phase := .closing } }
      else if l.unsent ≠ 0 then l
      else
        match o.headersLen, o.request with
        | some len, some q =>
          { l with client := l.client.claim q, unsent := len }.note
            (.headers l.client.nextSid l.client.peerMaxStreams ::
              if q.bodyLen = 0 then [.localEnd l.client.nextSid] else [])
        | _, _ => l

def sendBody (l : Link) : Link :=
  if l.client.phase = .idle then l
  else
    let c := l.client.sendBody (REQUEST_BUF_SIZE - l.unsent - FRAME_HEADER_LEN)
    (c.tx.drop l.client.tx.length).foldl
      (fun l f =>
        match f with
        | .data sid len last =>
          { l with unsent := l.unsent + FRAME_HEADER_LEN + len }.note (if last then [.localEnd sid] else [])
        | _ => l)
      { l with client := c }

def close (l : Link) : Link :=
  if l.client.phase = .closing ∧ (∀ t ∈ l.client.streams, t.state ≠ .opened ∧ t.rst = none) ∧ l.unsent = 0 then
    { l with client := { l.client with phase := .idle, recvBuf := [] } }
  else l

end Link

/-- The parts of `run`, and what the provider does between two calls of it. -/
inductive LinkEvent where
  | pump (m : BoundedBytes MAX_DATA_FRAGMENT)
  | read (now : UInt64) (ch : Chan)
  | deadline (i : Nat)
  | keepalive (now : UInt64)
  | queueControl
  | flush (gone : Nat)
  | claim (offer : Option Link.Offer)
  | sendBody
  | pumpOut (i : Nat) (ch : Chan)
  | close
  | credit (id n : Nat)
  | abort (id : Nat)
  | lost
  | drain

namespace Link

variable (E : Env)

def turn (l : Link) : LinkEvent → Link
  | .pump m => l.pump m
  | .read now ch => l.read E now ch
  | .deadline i => { l with client := l.client.deadline i }
  | .keepalive now => l.keepalive now
  | .queueControl => l.queueControl
  | .flush gone => l.flush gone
  | .claim offer => l.claim offer
  | .sendBody => l.sendBody
  | .pumpOut i ch => { l with client := l.client.pumpOut i ch }
  | .close => l.close
  | .credit id n => { l with client := l.client.credit id n }
  | .abort id => { l with client := l.client.abort id }
  | .lost => l.lost
  | .drain => { l with client := l.client.drain, unsent := 0 }

def machine : Machine Link LinkEvent Empty where
  step l e := (l.turn E e, [])

def PREFACE_LEN : Nat := 24 + (FRAME_HEADER_LEN + 5 * 6) + (FRAME_HEADER_LEN + 4)

def begin (pinned : Bool) (stallMs : Nat) (authority : Bytes) (now : UInt64) : Link where
  client := { pinned := pinned }
  stallMs := stallMs
  authority := authority
  rxMs := now
  unsent := PREFACE_LEN

end Link

end Wave.Http.H2Client
