import Wave.Common.HuffmanCore
import Wave.Lib.Paths
import Wave.Lib.Traced

/-! # HPACK (`http/wire/hpack.rs`)

The reader works on raw pointers: it is modelled with what it reads, its calls to the sink (`Event`) and the
addition of its `usize` (`Width`). -/

namespace Wave.Http.Hpack

open Lib Lib.Bytes Lib.Paths Common.HuffmanCore

def staticTable : List (Bytes × Bytes) :=
  [(ascii ":authority", []), (ascii ":method", ascii "GET"), (ascii ":method", ascii "POST"),
    (ascii ":path", ascii "/"), (ascii ":path", ascii "/index.html"), (ascii ":scheme", ascii "http"),
    (ascii ":scheme", ascii "https"), (ascii ":status", ascii "200"), (ascii ":status", ascii "204"),
    (ascii ":status", ascii "206"), (ascii ":status", ascii "304"), (ascii ":status", ascii "400"),
    (ascii ":status", ascii "404"), (ascii ":status", ascii "500"), (ascii "accept-charset", []),
    (ascii "accept-encoding", ascii "gzip, deflate"), (ascii "accept-language", []),
    (ascii "accept-ranges", []), (ascii "accept", []), (ascii "access-control-allow-origin", []),
    (ascii "age", []), (ascii "allow", []), (ascii "authorization", []), (ascii "cache-control", []),
    (ascii "content-disposition", []), (ascii "content-encoding", []), (ascii "content-language", []),
    (ascii "content-length", []), (ascii "content-location", []), (ascii "content-range", []),
    (ascii "content-type", []), (ascii "cookie", []), (ascii "date", []), (ascii "etag", []),
    (ascii "expect", []), (ascii "expires", []), (ascii "from", []), (ascii "host", []), (ascii "if-match", []),
    (ascii "if-modified-since", []), (ascii "if-none-match", []), (ascii "if-range", []),
    (ascii "if-unmodified-since", []), (ascii "last-modified", []), (ascii "link", []), (ascii "location", []),
    (ascii "max-forwards", []), (ascii "proxy-authenticate", []), (ascii "proxy-authorization", []),
    (ascii "range", []), (ascii "referer", []), (ascii "refresh", []), (ascii "retry-after", []),
    (ascii "server", []), (ascii "set-cookie", []), (ascii "strict-transport-security", []),
    (ascii "transfer-encoding", []), (ascii "user-agent", []), (ascii "vary", []), (ascii "via", []),
    (ascii "www-authenticate", [])]

def staticLookup (idx : Nat) : Option (Bytes × Bytes) := if idx = 0 then none else staticTable[idx - 1]?

def HUFF_SCRATCH : Nat := 256
def HUFF_VALUE_SCRATCH : Nat := 2048

/-- What a sum is as a `usize`. -/
abbrev Width := Nat → Nat

def usize (w : Nat) : Width := fun n => n % 2 ^ w

inductive Event where
  | read (off len : Nat)
  /-- `decode_string` at `start`, given `avail` bytes, returned `Ok((off, len, total, _))`. -/
  | string (start avail off len total : Nat)
  /-- It returned `Err` because the header and the length go past what it was given. -/
  | overlong (start avail off len : Nat)
  /-- The loop of `decode_block` takes a turn, or ends, at this place. -/
  | cursor (i : Nat)
  | sink (name value : Bytes)
deriving DecidableEq

/-- What a function of the reader did, and its result; failure is `Err(())`. -/
abbrev Reading (α : Type) := Traced Event α

section Reader

variable (wide : Width) (block : Bytes)

/-- `*buf.add(pos)`. -/
def byteAt (pos : Nat) : Reading UInt8 := do
  Traced.emit (.read pos 1)
  pure (block.at0 pos)

/-- The loop of `decode_integer`, with the turns that `i` leaves it. -/
def integerLoop (pos len : Nat) : (turns i shift value : Nat) → Reading (Nat × Nat)
  | 0, _, _, _ => Traced.err
  | turns + 1, i, shift, value =>
    if i ≥ len then Traced.err
    else do
      let b ← byteAt block (pos + i)
      if shift ≥ 32 then Traced.err
      else
        let add := ((b &&& 0x7F).toNat <<< shift) % 2 ^ 32
        if value + add ≥ 2 ^ 32 then Traced.err
        else if b &&& 0x80 = 0 then pure (value + add, i + 1)
        else if i + 1 > 5 then Traced.err
        else integerLoop pos len turns (i + 1) (shift + 7) (value + add)

/-- `decode_integer` at `buf.add(pos)`: the value and the bytes consumed. -/
def decodeInteger (pos len prefixBits : Nat) : Reading (Nat × Nat) :=
  if len = 0 then Traced.err
  else do
    let b ← byteAt block pos
    let first := b.toNat % 2 ^ prefixBits
    if first < 2 ^ prefixBits - 1 then pure (first, 1)
    else integerLoop block pos len 5 1 0 (2 ^ prefixBits - 1)

/-- `decode_string` at `buf.add(pos)`: where the value is, its length, the bytes consumed, and the Huffman flag. -/
def decodeString (pos len : Nat) : Reading (Nat × Nat × Nat × Bool) :=
  if len = 0 then Traced.err
  else do
    let b ← byteAt block pos
    let (slen, hdr) ← decodeInteger block pos len 7
    let total := wide (hdr + slen)
    if total > len then do
      Traced.emit (.overlong pos len hdr slen)
      Traced.err
    else do
      Traced.emit (.string pos len hdr slen total)
      pure (hdr, slen, total, b &&& 0x80 != 0)

/-- `from_raw_parts(buf.add(off), len)`, decoded into `cap` bytes when the flag says so; `none` drops the entry. -/
def decodedSlice (off len : Nat) (huffman : Bool) (cap : Nat) : Reading (Option Bytes) := do
  Traced.emit (.read off len)
  let raw := (block.drop off).take len
  if huffman then
    match huffmanDecode raw cap with
    | .ok s => pure (some s)
    | .error _ => pure none
  else pure (some raw)

/-- The name of `decode_literal`: its slice is taken after the value's string is read, and so is a computation of its
own. -/
def literalName (len start prefixBits : Nat) : Reading (Reading (Option Bytes) × Nat) := do
  let (nameIdx, n) ← decodeInteger block start (len - start) prefixBits
  if nameIdx = 0 then do
    let (off, sl, total, h) ← decodeString wide block (start + n) (len - start - n)
    pure (decodedSlice block (start + n + off) sl h HUFF_SCRATCH, n + total)
  else do
    let (nm, _) ← Traced.ofOption (staticLookup nameIdx)
    pure (pure (some nm), n)

/-- The end of `decode_literal`: the two slices and the call of the sink. -/
def literalSink (named : Reading (Option Bytes)) (valOff valLen : Nat) (valHuffman : Bool) (consumed : Nat) :
    Reading Nat := do
  let name ← named
  match name with
  | none => pure consumed
  | some name => do
    let value ← decodedSlice block valOff valLen valHuffman HUFF_VALUE_SCRATCH
    match value with
    | none => pure consumed
    | some value => do
      Traced.emit (.sink name value)
      pure consumed

/-- `decode_literal`: the bytes consumed. -/
def decodeLiteral (len start prefixBits : Nat) : Reading Nat := do
  let (named, consumed) ← literalName wide block len start prefixBits
  let (valOff, valLen, valTotal, valHuffman) ← decodeString wide block (start + consumed) (len - start - consumed)
  literalSink block named (start + consumed + valOff) valLen valHuffman (consumed + valTotal)

/-- What a turn of the loop of `decode_block` adds to its cursor. -/
def representation (len i : Nat) : Reading Nat := do
  let b ← byteAt block i
  if b &&& 0x80 ≠ 0 then do
    let (idx, n) ← decodeInteger block i (len - i) 7
    let (name, value) ← Traced.ofOption (staticLookup idx)
    Traced.emit (.sink name value)
    pure n
  else if b &&& 0xC0 = 0x40 then decodeLiteral wide block len i 6
  else if b &&& 0xE0 = 0x20 then do
    let (_, n) ← decodeInteger block i (len - i) 5
    pure n
  else if b &&& 0xF0 = 0x10 then decodeLiteral wide block len i 4
  else decodeLiteral wide block len i 4

/-- The loop of `decode_block`; a turn takes a byte at least (`representation_pos`). -/
def blockLoop (len : Nat) : (turns i : Nat) → Reading Unit
  | 0, i => do
    Traced.emit (.cursor i)
    if i < len then Traced.err else pure ()
  | turns + 1, i => do
    Traced.emit (.cursor i)
    if i < len then do
      let n ← representation wide block len i
      blockLoop len turns (i + n)
    else pure ()

def decodeBlock : Reading Unit := blockLoop wide block block.length block.length 0

end Reader

/-- The loop of `encode_integer` behind its first byte, at offset `o`; `none` when the buffer is full. -/
def encodeTail (cap : Nat) : (turns o rem : Nat) → Option Bytes
  | 0, _, _ => none
  | turns + 1, o, rem =>
    if rem ≥ 128 then
      if o ≥ cap then none
      else (encodeTail cap turns (o + 1) (rem / 128)).map fun bs => (UInt8.ofNat (rem % 128) ||| 0x80) :: bs
    else if o ≥ cap then none
    else some [UInt8.ofNat rem]

/-- `encode_integer`: the bytes written, or `none` for 0. A `u32` takes at most five turns. -/
def encodeInteger (cap : Nat) (pre : UInt8) (prefixBits value : Nat) : Option Bytes :=
  if cap = 0 then none
  else if value < 2 ^ prefixBits - 1 then some [pre ||| UInt8.ofNat value]
  else
    (encodeTail cap 5 1 (value - (2 ^ prefixBits - 1))).map fun bs => (pre ||| UInt8.ofNat (2 ^ prefixBits - 1)) :: bs

def encodeString (cap : Nat) (s : Bytes) : Option Bytes :=
  match encodeInteger cap 0x00 7 (s.length % 2 ^ 32) with
  | none => none
  | some head => if head.length + s.length > cap then none else some (head ++ s)

def staticNameIndex (name : Bytes) : Nat :=
  match staticTable.findIdx? fun e => e.1 = name with
  | some i => i + 1
  | none => 0

def encodeHeader (cap : Nat) (name value : Bytes) : Option Bytes :=
  let head :=
    if staticNameIndex name > 0 then encodeInteger cap 0x00 4 (staticNameIndex name)
    else if cap < 1 then none
    else (encodeString (cap - 1) name).map fun bs => 0x00 :: bs
  match head with
  | none => none
  | some head => (encodeString (cap - head.length) value).map fun bs => head ++ bs

end Wave.Http.Hpack
