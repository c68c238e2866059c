import Wave.Http.Ws

/-! # Worker envelopes and their fragments (`http/server/ws.rs`)

An envelope larger than a wire frame goes out as a first fragment and continuations. -/

namespace Wave.Http

open Lib Common

/-- `write_frame` with the caller's FIN. -/
def writeFrameFin (cap : Nat) (fin : Bool) (opcode : UInt8) (payload : Bytes) : Bytes :=
  let n := payload.length
  let len := if n ≤ 125 then [UInt8.ofNat n] else 126 :: Bytes.be16 (UInt16.ofNat n)
  if n > 65535 ∨ cap < 1 + len.length + n then []
  else ((if fin then 0x80 else 0) ||| (opcode &&& 0x0F)) :: (len ++ payload)

def WS_FRAG_HDR_RESERVE : Nat := 4

def CONN_UNCLAIMED : UInt32 := 0xFFFFFFFF

structure Envelope where
  conn : UInt32
  opcode : UInt8
  fin : Bool
  payload : Bytes

def parseEnvelope : Bytes → Option Envelope
  | c0 :: c1 :: c2 :: c3 :: opcode :: fin :: n0 :: n1 :: rest =>
    let payloadLen := (Bytes.u16le n0 n1).toNat
    if rest.length < payloadLen then none
    else some
      { conn := Bytes.u32le c0 c1 c2 c3, opcode := opcode, fin := fin ≠ 0
        payload := rest.take payloadLen }
  | _ => none

/-- The `ws_frag_*` fields: an envelope's payload and how far it has gone out. -/
structure Fragment where
  buf : Bytes
  offset : Nat
  opcode : UInt8
  fin : Bool

def envelopeFrame (maxChunk : Nat) (e : Envelope) : (Bool × Bytes) × Option Fragment :=
  if e.payload.length ≤ maxChunk then ((e.fin, e.payload), none)
  else ((false, e.payload.take maxChunk),
    some { buf := e.payload, offset := maxChunk, opcode := e.opcode, fin := e.fin })

/-- `ws_emit_next_fragment`: the next continuation, and what stays. -/
def nextFragment (maxChunk : Nat) (f : Fragment) : Option ((Bool × Bytes) × Option Fragment) :=
  if f.offset ≥ f.buf.length then none
  else
    let remaining := f.buf.length - f.offset
    let chunk := min remaining maxChunk
    let isLast := chunk = remaining
    some ((isLast && f.fin, (f.buf.drop f.offset).take chunk),
      if isLast then none else some { f with offset := f.offset + chunk })

end Wave.Http
