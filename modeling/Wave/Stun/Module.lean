import Wave.Common.StunAddress
import Wave.Common.StunBehind
import Wave.Common.StunTxn
import Wave.Lib.Paths
import Wave.Lib.Machine

/-! # STUN Binding, both roles (`foundation/stun/mod.rs`)

`StunWorld` has the module's state, its channels, and what was read and written so far. -/

namespace Wave.Stun

open Lib Common.Turn Common.Stun

def MSG_BUF : Nat := 1500

/-- The comprehension-required attributes this responder understands. -/
def KNOWN_REQUIRED : List UInt16 := [ATTR_USERNAME, ATTR_MESSAGE_INTEGRITY, ATTR_PRIORITY, ATTR_USE_CANDIDATE]

inductive Host where
  | literal (ip : UInt32)
  | name (host : Bytes)

/-- An adopted authority (`common/dg_authority.rs`); `learned` is 0 until a named one has been seen. -/
structure DgAuthority where
  host : Host
  port : UInt16
  learned : UInt32

namespace DgAuthority

def matches_ (a : DgAuthority) (ip : UInt32) (port : UInt16) : Bool :=
  if port ≠ a.port then false
  else
    match a.host with
    | .literal own => ip = own
    | .name _ => a.learned = 0 || ip = a.learned

def learn (a : DgAuthority) (ip : UInt32) : DgAuthority :=
  match a.host with
  | .literal _ => a
  | .name _ => if a.learned = 0 then { a with learned := ip } else a

end DgAuthority

structure StunConfig where
  port : UInt16
  server : Option DgAuthority
  txnSeed : UInt32
  resultOut : Bool

/-- What `net_in` carries: an endpoint bound, a datagram with its source, anything else. -/
inductive Frame where
  | bound (ep : UInt8) (port : UInt16)
  | rxFrom (ip : UInt32) (port : UInt16) (data : Bytes)
  | other

structure Reply where
  bytes : Bytes
  ip : UInt32
  port : UInt16

/-- A request the network took, and when. -/
structure Request where
  at_ : Nat
  host : Host
  port : UInt16
  bytes : Bytes

/-- The clock of a step, and which writes its channels take. -/
structure Turn where
  now : Nat
  takesBind : Bool
  takesReply : Bool
  takesRequest : Bool
  takesResult : Bool

/-- `early` are the frames read before the endpoint was known, `heard` those read since; `clock` is the latest time. -/
structure StunWorld where
  bound : Bool := false
  epId : UInt8 := 0xFF
  reply : Option Reply := none
  server : Option DgAuthority
  txn : StunTxn := .start (.zero 12) 0
  txnActive : Bool := false
  txnCount : UInt64 := 0
  res : Option Bytes := none
  draining : Bool := false
  netIn : List Frame := []
  early : List Frame := []
  heard : List Frame := []
  replies : List Reply := []
  requests : List Request := []
  results : List Bytes := []
  clock : Nat := 0

def successMessage (header : StunHeader) (ip : UInt32) (port : UInt16) : Option Bytes := do
  let w ← writeStunHeader STUN_CLASS_SUCCESS header.method header.txn (List.replicate MSG_BUF 0)
  let w ← appendXorMappedAddressV4 ip port w
  let w ← appendFingerprint w
  return w.out.take w.pos

def errorMessage (header : StunHeader) (code : UInt16) (reason : Bytes) : Option Bytes := do
  let w ← writeStunHeader STUN_CLASS_ERROR header.method header.txn (List.replicate MSG_BUF 0)
  let w ← appendErrorCode code reason w
  let w ← appendFingerprint w
  return w.out.take w.pos

def requestMessage (id : FixedBytes 12) : Option Bytes := do
  let w ← writeStunHeader STUN_CLASS_REQUEST STUN_METHOD_BINDING id.1 (List.replicate MSG_BUF 0)
  let w ← appendFingerprint w
  return w.out.take w.pos

/-- A FINGERPRINT that is present and wrong. -/
def misprinted (data : Bytes) (header : StunHeader) : Bool :=
  (findAttribute data header ATTR_FINGERPRINT).isSome && !verifyFingerprint data header

/-- The address of a success response. -/
def mappedAddress (data : Bytes) (header : StunHeader) : Option StunAddress :=
  ((findAttribute data header ATTR_XOR_MAPPED_ADDRESS).bind fun a =>
    parseXorMappedAddress data a.1 a.2 header.txn).or
      ((findAttribute data header ATTR_MAPPED_ADDRESS).bind fun a => parseMappedAddress data a.1 a.2)

/-- What a response says. -/
def responseResult (data : Bytes) (header : StunHeader) : StunResult :=
  if header.cls = STUN_CLASS_ERROR then
    let code := (findAttribute data header ATTR_ERROR_CODE).bind fun a => parseErrorCode data a.1 a.2
    { status := STUN_RES_ERROR, ip := 0, port := 0, code := code.getD 0 }
  else
    match mappedAddress data header with
    | none => { status := STUN_RES_NO_ADDRESS, ip := 0, port := 0, code := 0 }
    | some a =>
      if a.family ≠ STUN_FAMILY_IPV4 then { status := STUN_RES_NO_ADDRESS, ip := 0, port := 0, code := 0 }
      else
        { status := STUN_RES_OK
          ip := Bytes.u32be (a.addr.at0 0) (a.addr.at0 1) (a.addr.at0 2) (a.addr.at0 3)
          port := a.port, code := 0 }

namespace StunWorld

variable (cfg : StunConfig)

section

variable (w : StunWorld)

def clientArmed : Bool :=
  match w.server with
  | some server => server.port ≠ 0
  | none => false

/-- Binds the endpoint, then learns its id. -/
def ensureBound (t : Turn) : StunWorld × Bool :=
  if !w.bound then ({ w with bound := t.takesBind }, false)
  else if w.epId = 0xFF then
    match w.netIn with
    | [] => (w, false)
    | f :: rest =>
      let w := { w with netIn := rest, early := w.early ++ [f] }
      match f with
      | .bound ep port => (if port = cfg.port then { w with epId := ep } else w, false)
      | _ => (w, false)
  else (w, true)

def owe (message : Option Bytes) (ip : UInt32) (port : UInt16) : StunWorld :=
  match message with
  | some bytes => { w with reply := some { bytes := bytes, ip := ip, port := port } }
  | none => w

def buildSuccess (header : StunHeader) (ip : UInt32) (port : UInt16) : StunWorld :=
  w.owe (successMessage header ip port) ip port

def buildError (header : StunHeader) (code : UInt16) (reason : Bytes) (ip : UInt32) (port : UInt16) :
    StunWorld :=
  w.owe (errorMessage header code reason) ip port

def flushReply (t : Turn) : StunWorld :=
  match w.reply with
  | none => w
  | some r =>
    if w.epId = 0xFF then w
    else if t.takesReply then { w with reply := none, replies := w.replies ++ [r] } else w

def finishTxn (r : StunResult) : StunWorld :=
  let w := { w with txnActive := false }
  if !cfg.resultOut ∨ w.res.isSome then w
  else
    match writeStunResult r STUN_RESULT_LEN with
    | some bytes => { w with res := some bytes }
    | none => w

def flushResult (t : Turn) : StunWorld :=
  match w.res with
  | none => w
  | some r => if t.takesResult then { w with res := none, results := w.results ++ [r] } else w

def startTxn (now : Nat) : StunWorld :=
  if w.txnActive then w
  else
    { w with
      txnCount := w.txnCount + 1
      txn := .start (stunTxnId (w.txnCount + 1) cfg.txnSeed.toUInt64) now
      txnActive := true }

def driveTxn (server : DgAuthority) (t : Turn) : StunWorld :=
  match w.txn.poll t.now with
  | .wait => w
  | .timedOut => w.finishTxn cfg { status := STUN_RES_TIMEOUT, ip := 0, port := 0, code := 0 }
  | .send _ =>
    match requestMessage w.txn.id with
    | none => w
    | some bytes =>
      -- only a write that was taken advances the schedule
      if t.takesRequest then
        { w with
          txn := w.txn.sentAt t.now
          requests := w.requests ++ [{ at_ := t.now, host := server.host, port := server.port, bytes := bytes }] }
      else w

/-- The one transaction of the client: started, then driven. -/
def pumpClient (t : Turn) : StunWorld :=
  match w.server with
  | none => w
  | some server =>
    if !w.clientArmed ∨ w.epId = 0xFF then w
    else if w.res.isSome then w
    else if !w.txnActive ∧ (w.draining ∨ w.txnCount ≠ 0) then w
    else (w.startTxn cfg t.now).driveTxn cfg server t

/-- A response, against the transaction in flight. -/
def clientOnResponse (header : StunHeader) (data : Bytes) (ip : UInt32) (port : UInt16) : StunWorld :=
  match w.server with
  | none => w
  | some server =>
    if !w.txnActive ∨ !w.clientArmed then w
    else if !server.matches_ ip port then w
    else if !w.txn.matches_ header.txn then w
    else if misprinted data header then w
    else
      let w := { w with server := some (server.learn ip) }
      match w.txn.accept with
      | none => w
      | some txn => { w with txn := txn }.finishTxn cfg (responseResult data header)

/-- A datagram that was read. -/
def onDatagram (ip : UInt32) (port : UInt16) (raw : Bytes) : StunWorld :=
  let data := raw.take MSG_BUF
  match parseStunHeader data with
  | none => w
  | some header =>
    if header.cls = STUN_CLASS_SUCCESS ∨ header.cls = STUN_CLASS_ERROR then w.clientOnResponse cfg header data ip port
    else if header.cls ≠ STUN_CLASS_REQUEST then w
    -- a request that arrives while a reply is owed is not answered
    else if w.reply.isSome then w
    else if header.method ≠ STUN_METHOD_BINDING then w.buildError header 400 (ascii "unsupported method") ip port
    else if misprinted data header then w
    else
      match firstUnknownRequired data header KNOWN_REQUIRED with
      | some _ => w.buildError header 420 (ascii "unknown attribute") ip port
      | none => w.buildSuccess header ip port

def onFrame : Frame → StunWorld
  | .rxFrom ip port raw => w.onDatagram cfg ip port raw
  | _ => w

/-- One frame is read, unless a reply is owed and there is no client that could take its response. -/
def pump : StunWorld :=
  if w.reply.isSome ∧ !w.clientArmed then w
  else
    match w.netIn with
    | [] => w
    | f :: rest => { w with netIn := rest, heard := w.heard ++ [f] }.onFrame cfg f

def moduleStep (t : Turn) : StunWorld :=
  let w := { w with clock := max w.clock t.now }
  let r := w.ensureBound cfg t
  if !r.2 then r.1
  else ((((r.1.pump cfg).flushReply t).pumpClient cfg t).flushResult t)

def moduleDrain : StunWorld := { w with draining := true }

end

end StunWorld

inductive StunEvent where
  | arrive (f : Frame)
  | step (t : Turn)
  | drain

def start (cfg : StunConfig) : StunWorld := { server := cfg.server }

def turn (cfg : StunConfig) (w : StunWorld) : StunEvent → StunWorld
  | .arrive f => { w with netIn := w.netIn ++ [f] }
  | .step t => w.moduleStep cfg t
  | .drain => w.moduleDrain

/-- The frames that arrive are the log of a run. -/
def machine (cfg : StunConfig) : Machine StunWorld StunEvent Frame where
  step w ev := (turn cfg w ev, match ev with
    | .arrive f => [f]
    | _ => [])

end Wave.Stun
