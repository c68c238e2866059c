import Wave.Lib.Bytes

/-! # WebSocket frame headers (`common/ws_frame_core.rs`)

A header is read in stages, each of which may find too few bytes. -/

namespace Wave.Common

open Lib

def WS_OP_CONTINUATION : UInt8 := 0x0
def WS_OP_TEXT : UInt8 := 0x1
def WS_OP_BINARY : UInt8 := 0x2
def WS_OP_CLOSE : UInt8 := 0x8
def WS_OP_PING : UInt8 := 0x9
def WS_OP_PONG : UInt8 := 0xA

def wsIsControlOpcode (op : UInt8) : Bool := decide (op ≥ 0x8)

def wsIsValidOpcode (op : UInt8) : Bool :=
  op = WS_OP_CONTINUATION || op = WS_OP_TEXT || op = WS_OP_BINARY || op = WS_OP_CLOSE ||
    op = WS_OP_PING || op = WS_OP_PONG

def wsMaskApply (key buf : Bytes) : Bytes := buf.mapIdx fun i b => b ^^^ key.getD (i % 4) 0

structure WsHeader where
  fin : Bool
  opcode : UInt8
  masked : Bool
  maskKey : Bytes
  headerLen : Nat
  payloadLen : Nat
deriving DecidableEq

/-- A stage of the decoder: it read something, needs more bytes, or refuses. -/
inductive WsParse (α : Type) where
  | ok (a : α)
  | incomplete
  | invalid
deriving DecidableEq

def wsLength (len7 : UInt8) (buf : Bytes) : WsParse (Nat × Nat) :=
  if len7 = 126 then
    if buf.length < 4 then .incomplete
    else
      let n := (Bytes.u16be (Bytes.at0 buf 2) (Bytes.at0 buf 3)).toNat
      if n < 126 then .invalid else .ok (4, n)
  else if len7 = 127 then
    if buf.length < 10 then .incomplete
    else
      let v := (Bytes.slice buf 2 10).foldl (fun acc b => acc * 256 + b.toNat) 0
      if v ≥ 2 ^ 63 ∨ v ≤ 65535 then .invalid else .ok (10, v)
  else .ok (2, len7.toNat)

/-- The mask key behind a header of `len` bytes, when there is one. -/
def wsMaskKey (masked : Bool) (len : Nat) (buf : Bytes) : WsParse (Nat × Bytes) :=
  if masked then
    if buf.length < len + 4 then .incomplete else .ok (len + 4, Bytes.slice buf len (len + 4))
  else .ok (len, [0, 0, 0, 0])

def wsDecodeHeader (buf : Bytes) : WsParse WsHeader :=
  if buf.length < 2 then .incomplete
  else
    let b0 := Bytes.at0 buf 0
    let b1 := Bytes.at0 buf 1
    let fin := decide (b0 &&& 0x80 ≠ 0)
    let opcode := b0 &&& 0x0F
    let masked := decide (b1 &&& 0x80 ≠ 0)
    let len7 := b1 &&& 0x7F
    if b0 &&& 0x70 ≠ 0 then .invalid
    else if !wsIsValidOpcode opcode then .invalid
    else if wsIsControlOpcode opcode && (!fin || decide (len7 > 125)) then .invalid
    else
      match wsLength len7 buf with
      | .incomplete => .incomplete
      | .invalid => .invalid
      | .ok (len, payloadLen) =>
        match wsMaskKey masked len buf with
        | .incomplete => .incomplete
        | .invalid => .invalid
        | .ok (headerLen, maskKey) =>
          if headerLen + payloadLen ≥ 2 ^ 64 then .invalid
          else .ok { fin, opcode, masked, maskKey, headerLen, payloadLen }

end Wave.Common
