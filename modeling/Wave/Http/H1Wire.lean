import Wave.Http.Routes
import Wave.Lib.Scan

/-! # HTTP/1 heads (`http/wire/h1.rs`, `http/wire/method.rs`, `route_key.rs`) -/

namespace Wave.Http

open Lib

def SP : UInt8 := 0x20
def CR : UInt8 := 0x0D
def LF : UInt8 := 0x0A
def TAB : UInt8 := 0x09
def COLON : UInt8 := 0x3A
def COMMA : UInt8 := 0x2C

def crlf : Bytes := [CR, LF]
def blankLine : Bytes := [CR, LF, CR, LF]

/-- `wire::method`: the exchange contract's vocabulary. -/
inductive Method where
  | none
  | get
  | head
  | post
  | put
  | patch
  | delete
  | options
  | connect
deriving DecidableEq

def Method.expectsRequestBody : Method → Bool
  | .post | .put | .patch => true
  | _ => false

def MAX_METHOD_SCAN : Nat := 24

structure SdkHttp where
  methodFromToken : Bytes → Method

def asciiLower (b : UInt8) : UInt8 := if 0x41 ≤ b ∧ b ≤ 0x5A then b + 0x20 else b

def eqIgnoreCase (a b : Bytes) : Bool := a.map asciiLower == b.map asciiLower

def isOws (b : UInt8) : Bool := b = SP || b = TAB

def trimOws (v : Bytes) : Bytes := ((v.dropWhile isOws).reverse.dropWhile isOws).reverse

def isDigit (b : UInt8) : Bool := decide (0x30 ≤ b ∧ b ≤ 0x39)

structure RequestLine where
  method : Method
  targetAt : Nat
  targetLen : Nat

def firstToken (src : Bytes) : Bytes := src.takeWhile (· != SP)

/-- Method token, space, target. The target runs to the next space of the source,
wherever that is. -/
def parseRequestLine (sdk : SdkHttp) (src : Bytes) : Option RequestLine :=
  if src.length < 14 then none
  else
    let scanCap := min (MAX_METHOD_SCAN + 1) src.length
    let mEnd := (firstToken (src.take scanCap)).length
    if mEnd = 0 ∨ mEnd ≥ scanCap then none
    else
      let target := firstToken (src.drop (mEnd + 1))
      if target.head? = some SLASH then
        some { method := sdk.methodFromToken (src.take mEnd)
               targetAt := mEnd + 1
               targetLen := target.length }
      else none

/-- The lines up to a blank or a cut one, `acc` holding the current line. -/
def fieldLinesFrom : (acc : Bytes) → Bytes → List Bytes
  | acc, a :: b :: rest =>
    if a = CR ∧ b = LF then
      if acc = [] then [] else acc.reverse :: fieldLinesFrom [] rest
    else fieldLinesFrom (a :: acc) (b :: rest)
  | _, _ => []

def fieldLines (head : Bytes) : List Bytes :=
  match findPat crlf head with
  | some e => fieldLinesFrom [] (head.drop (e + 2))
  | none => []

def splitField (line : Bytes) : Option (Bytes × Bytes) :=
  if COLON ∈ line then
    some (line.takeWhile (· != COLON), (line.dropWhile (· != COLON)).drop 1)
  else none

def fieldValues (head name : Bytes) : List Bytes :=
  (fieldLines head).filterMap fun line =>
    match splitField line with
    | some (n, v) => if eqIgnoreCase n name then some v else none
    | none => none

def findHeader (head name : Bytes) : Option Bytes :=
  ((fieldValues head name).head?).map trimOws

def headerValuesDisagree (head name : Bytes) : Bool :=
  match (fieldValues head name).map trimOws with
  | [] => false
  | first :: rest => rest.any (· != first)

def connectionTokens (head : Bytes) : List Bytes :=
  (fieldValues head (ascii "connection")).flatMap fun v =>
    ((v.dropWhile isOws).splitOn COMMA).map trimOws

def requestKeepsAlive (head : Bytes) : Bool :=
  match findPat crlf head with
  | none => false
  | some e =>
    let line := head.take e
    let v11 := (ascii "HTTP/1.1").isSuffixOf line
    let v10 := (ascii "HTTP/1.0").isSuffixOf line
    if !v11 && !v10 then false
    else
      let tokens := connectionTokens head
      if tokens.any (eqIgnoreCase · (ascii "close")) then false
      else v11 || tokens.any (eqIgnoreCase · (ascii "keep-alive"))

inductive BodyFraming where
  | none
  | length (n : Nat)
  | chunked
  | invalid
deriving DecidableEq

def decimalU64 (digits : Bytes) : Option Nat :=
  digits.foldl (fun acc c =>
    match acc with
    | some n =>
      if isDigit c then
        let n' := n * 10 + (c - 0x30).toNat
        if n' < 2 ^ 64 then some n' else none
      else none
    | none => none) (some 0)

def bodyFraming (head : Bytes) : BodyFraming :=
  let cl := findHeader head (ascii "content-length")
  match findHeader head (ascii "transfer-encoding") with
  | some te =>
    if cl.isSome then .invalid
    else if eqIgnoreCase (((te.splitOn COMMA).map trimOws).getLastD []) (ascii "chunked") then .chunked
    else .invalid
  | none =>
    match cl with
    | none => .none
    | some v =>
      if v = [] then .invalid
      else if headerValuesDisagree head (ascii "content-length") || v.any (· == COMMA) then .invalid
      else
        match decimalU64 v with
        | some n => .length n
        | none => .invalid

def expectsContinue (head : Bytes) : Bool :=
  match findHeader head (ascii "expect") with
  | some v => eqIgnoreCase v (ascii "100-continue")
  | none => false

inductive ChunkState where
  | size
  | data
  | dataEnd
  | trailer
deriving DecidableEq

structure BodyDecoder where
  chunked : Bool
  state : ChunkState
  remaining : Nat
  done : Bool := false
deriving DecidableEq

def BodyDecoder.new : BodyFraming → Option BodyDecoder
  | .length n => if n > 0 then some { chunked := false, state := .data, remaining := n } else none
  | .chunked => some { chunked := true, state := .size, remaining := 0 }
  | _ => none

inductive BodyPlan where
  | none
  | read (decoder : BodyDecoder) (declared : Option Nat) (continueFirst : Bool)
  | invalid
  | lengthRequired
deriving DecidableEq

def planBody (verb : Method) (head : Bytes) : BodyPlan :=
  match bodyFraming head with
  | .invalid => .invalid
  | framing =>
    if framing = .none ∧ verb.expectsRequestBody then .lengthRequired
    else
      match BodyDecoder.new framing with
      | none => .none
      | some decoder =>
        .read decoder (match framing with | .length n => some n | _ => none) (expectsContinue head)

/-- The lines `h1_host` walks: each ends at a line feed, without its carriage return. -/
def hostLines (head : Bytes) : List Bytes :=
  (head.splitOn LF).map fun line =>
    if line.getLast? = some CR then line.dropLast else line

/-- The one `Host` of a head; `none` when there are two (`Ambiguous`). -/
def h1Host (head : Bytes) : Option (Option Bytes) :=
  let fields := ((hostLines head).drop 1).takeWhile (· ≠ [])
  let hosts := fields.filterMap fun line =>
    match splitField line with
    | some (n, v) => if eqIgnoreCase n (ascii "host") then some (trimOws v) else none
    | none => none
  match hosts with
  | [] => some none
  | [v] => some (some v)
  | _ => none

end Wave.Http
