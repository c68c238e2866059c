import Wave.Lib.Scan
import Wave.Lib.Paths

/-! # Route keys (`common/http_route_key.rs`) -/

namespace Wave.Common

open Lib

inductive RouteKeyError where
  | ambiguous
  | oversize
  | nonAscii
  | emptyHost
  | badHost
  | badPort
  | badPath
  | badTarget
deriving DecidableEq

def MAX_ROUTE_HOST : Nat := 255
def PORT_SUFFIX_MAX : Nat := 6

def isDigitByte (b : UInt8) : Bool := 0x30 ≤ b && b ≤ 0x39

def isAlphaByte (b : UInt8) : Bool := (0x41 ≤ b && b ≤ 0x5A) || (0x61 ≤ b && b ≤ 0x7A)

def isHexByte (b : UInt8) : Bool := isDigitByte b || (0x41 ≤ b && b ≤ 0x46) || (0x61 ≤ b && b ≤ 0x66)

def toAsciiLowercase (b : UInt8) : UInt8 := if 0x41 ≤ b && b ≤ 0x5A then b + 0x20 else b

def digitsValue (digits : Bytes) : Nat := digits.foldl (fun n d => n * 10 + (d.toNat - 0x30)) 0

def ipv4Ok (s : Bytes) : Bool :=
  let parts := s.splitOn 0x2E
  parts.length = 4 && parts.all fun part =>
    part ≠ [] && part.length ≤ 3 && part.all isDigitByte && digitsValue part ≤ 255

def ipv6Groups : (fuel : Nat) → (groups : Nat) → (compressed : Bool) → Bytes → Bool
  | 0, _, _, _ => false
  | fuel + 1, groups, compressed, s =>
    let g := s.takeWhile (· ≠ 0x3A)
    let rest := s.drop g.length
    let dotted := g.contains 0x2E
    let groups := if dotted then groups + 2 else groups + 1
    if g = [] then false
    else if dotted && (!ipv4Ok g || rest ≠ []) then false
    else if !dotted && (4 < g.length || !g.all isHexByte) then false
    else if 8 < groups then false
    else
      let finish (compressed : Bool) := if compressed then decide (groups < 8) else groups = 8
      match rest with
      | [] => finish compressed
      | _ :: [] => false
      | _ :: 0x3A :: rest =>
        if compressed then false
        else if rest = [] then finish true
        else ipv6Groups fuel groups true rest
      | _ :: rest => ipv6Groups fuel groups compressed rest

def ipv6Ok (s : Bytes) : Bool :=
  if s.length < 2 || 45 < s.length then false
  else
    match s with
    | 0x3A :: 0x3A :: rest => rest = [] || ipv6Groups s.length 0 true rest
    | 0x3A :: _ => false
    | _ => ipv6Groups s.length 0 false s

/-- A registered name: labels of the host alphabet, none of them empty but a last one. -/
def regNameOk (h : Bytes) : Bool :=
  h.head? ≠ some 0x2E && (findPat [0x2E, 0x2E] h).isNone &&
    h.all fun b => isAlphaByte b || isDigitByte b || b = 0x2D || b = 0x5F || b = 0x7E || b = 0x2E

def hostEnd (src : Bytes) : Except RouteKeyError Nat :=
  if src.head? = some 0x5B then
    let inside := (src.drop 1).takeWhile (· ≠ 0x5D)
    if inside.length + 1 = src.length || !ipv6Ok inside then .error .badHost
    else .ok (inside.length + 2)
  else
    let name := src.takeWhile (· ≠ 0x3A)
    if (src.drop (name.length + 1)).contains 0x3A || !regNameOk name then .error .badHost
    else .ok name.length

def authorityPort (rest : Bytes) (defaultPort : Nat) : Except RouteKeyError Nat :=
  match rest with
  | [] => .ok defaultPort
  | c :: digits =>
    if c ≠ 0x3A then .error .badHost
    else if digits = [] then .ok defaultPort
    else if 5 < digits.length || !digits.all isDigitByte then .error .badPort
    else
      let port := digitsValue digits
      if port = 0 || 65535 < port then .error .badPort else .ok port

/-- `norm_host`: the canonical host and the port. -/
def normHost (src : Bytes) (defaultPort : Nat) : Except RouteKeyError (Bytes × Nat) :=
  if src = [] then .error .emptyHost
  else if MAX_ROUTE_HOST + PORT_SUFFIX_MAX < src.length then .error .oversize
  else
    match src.find? fun b => 0x80 ≤ b || b = 0x25 || b = 0x40 with
    | some 0x40 => .error .badHost
    | some _ => .error .nonAscii
    | none =>
      (hostEnd src).bind fun hostEnd =>
        let undotted := src.head? ≠ some 0x5B && 1 < hostEnd && src.at0 (hostEnd - 1) = 0x2E
        let len := if undotted then hostEnd - 1 else hostEnd
        if len = 0 then .error .emptyHost
        else if MAX_ROUTE_HOST < len then .error .oversize
        else
          (authorityPort (src.drop hostEnd) defaultPort).map fun port =>
            ((src.take len).map toAsciiLowercase, port)

/-- `canonical_authority`: `host` or `host:port`, when it fits. -/
def canonicalAuthority (room : Nat) (src : Bytes) (defaultPort : Nat) : Except RouteKeyError Bytes :=
  (normHost src defaultPort).bind fun (host, port) =>
    let out := if port = defaultPort then host else host ++ 0x3A :: decimal port
    if room < out.length then .error .oversize else .ok out

example : canonicalAuthority 64 (ascii "Edge.Local.:80") 80 = .ok (ascii "edge.local") := by decide +kernel

end Wave.Common
