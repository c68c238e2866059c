import Wave.Http.Hpack

/-! # QPACK (`http/wire/qpack.rs`)

There is no dynamic table. A `usize` has `w` bits. -/

namespace Wave.Http.Qpack

open Lib Lib.Bytes Lib.Paths Common.HuffmanCore

def staticTable : List (Bytes × Bytes) :=
  [(ascii ":authority", []), (ascii ":path", ascii "/"), (ascii "age", ascii "0"), (ascii "content-disposition", []),
    (ascii "content-length", ascii "0"), (ascii "cookie", []), (ascii "date", []), (ascii "etag", []),
    (ascii "if-modified-since", []), (ascii "if-none-match", []), (ascii "last-modified", []), (ascii "link", []),
    (ascii "location", []), (ascii "referer", []), (ascii "set-cookie", []), (ascii ":method", ascii "CONNECT"),
    (ascii ":method", ascii "DELETE"), (ascii ":method", ascii "GET"), (ascii ":method", ascii "HEAD"),
    (ascii ":method", ascii "OPTIONS"), (ascii ":method", ascii "POST"), (ascii ":method", ascii "PUT"),
    (ascii ":scheme", ascii "http"), (ascii ":scheme", ascii "https"), (ascii ":status", ascii "103"),
    (ascii ":status", ascii "200"), (ascii ":status", ascii "304"), (ascii ":status", ascii "404"),
    (ascii ":status", ascii "503"), (ascii "accept", ascii "*/*"), (ascii "accept", ascii "application/dns-message"),
    (ascii "accept-encoding", ascii "gzip, deflate, br"), (ascii "accept-ranges", ascii "bytes"),
    (ascii "access-control-allow-headers", ascii "cache-control"),
    (ascii "access-control-allow-headers", ascii "content-type"), (ascii "access-control-allow-origin", ascii "*"),
    (ascii "cache-control", ascii "max-age=0"), (ascii "cache-control", ascii "max-age=2592000"),
    (ascii "cache-control", ascii "max-age=604800"), (ascii "cache-control", ascii "no-cache"),
    (ascii "cache-control", ascii "no-store"), (ascii "cache-control", ascii "public, max-age=31536000"),
    (ascii "content-encoding", ascii "br"), (ascii "content-encoding", ascii "gzip"),
    (ascii "content-type", ascii "application/dns-message"), (ascii "content-type", ascii "application/javascript"),
    (ascii "content-type", ascii "application/json"),
    (ascii "content-type", ascii "application/x-www-form-urlencoded"), (ascii "content-type", ascii "image/gif"),
    (ascii "content-type", ascii "image/jpeg"), (ascii "content-type", ascii "image/png"),
    (ascii "content-type", ascii "text/css"), (ascii "content-type", ascii "text/html; charset=utf-8"),
    (ascii "content-type", ascii "text/plain"), (ascii "content-type", ascii "text/plain;charset=utf-8"),
    (ascii "range", ascii "bytes=0-"), (ascii "strict-transport-security", ascii "max-age=31536000"),
    (ascii "strict-transport-security", ascii "max-age=31536000; includesubdomains"),
    (ascii "strict-transport-security", ascii "max-age=31536000; includesubdomains; preload"),
    (ascii "vary", ascii "accept-encoding"), (ascii "vary", ascii "origin"),
    (ascii "x-content-type-options", ascii "nosniff"), (ascii "x-xss-protection", ascii "1; mode=block"),
    (ascii ":status", ascii "100"), (ascii ":status", ascii "204"), (ascii ":status", ascii "206"),
    (ascii ":status", ascii "302"), (ascii ":status", ascii "400"), (ascii ":status", ascii "403"),
    (ascii ":status", ascii "421"), (ascii ":status", ascii "425"), (ascii ":status", ascii "500"),
    (ascii "accept-language", []), (ascii "access-control-allow-credentials", ascii "FALSE"),
    (ascii "access-control-allow-credentials", ascii "TRUE"), (ascii "access-control-allow-headers", ascii "*"),
    (ascii "access-control-allow-methods", ascii "get"),
    (ascii "access-control-allow-methods", ascii "get, post, options"),
    (ascii "access-control-allow-methods", ascii "options"),
    (ascii "access-control-expose-headers", ascii "content-length"),
    (ascii "access-control-request-headers", ascii "content-type"),
    (ascii "access-control-request-method", ascii "get"), (ascii "access-control-request-method", ascii "post"),
    (ascii "alt-svc", ascii "clear"), (ascii "authorization", []),
    (ascii "content-security-policy", ascii "script-src 'none'; object-src 'none'; base-uri 'none'"),
    (ascii "early-data", ascii "1"), (ascii "expect-ct", []), (ascii "forwarded", []), (ascii "if-range", []),
    (ascii "origin", []), (ascii "purpose", ascii "prefetch"), (ascii "server", []),
    (ascii "timing-allow-origin", ascii "*"), (ascii "upgrade-insecure-requests", ascii "1"),
    (ascii "user-agent", []), (ascii "x-forwarded-for", []), (ascii "x-frame-options", ascii "deny"),
    (ascii "x-frame-options", ascii "sameorigin")]

/-- `qpack_static_lookup`. -/
def staticLookup (idx : Nat) : Option (Bytes × Bytes) := staticTable[idx]?

def maskLow (bits : Nat) : UInt8 := if bits ≥ 8 then 0xFF else UInt8.ofNat (2 ^ bits - 1)

/-- `qpack_encode_int` into `cap` bytes; `none` for 0. A `u64` takes at most ten turns of the loop, which is that of
HPACK. -/
def encodeInt (cap : Nat) (value prefixBits : Nat) (flags : UInt8) : Option Bytes :=
  if cap = 0 then none
  else if value < 2 ^ prefixBits - 1 then some [(flags &&& ~~~maskLow prefixBits) ||| UInt8.ofNat value]
  else
    (Hpack.encodeTail cap 10 1 (value - (2 ^ prefixBits - 1))).map fun bs =>
      ((flags &&& ~~~maskLow prefixBits) ||| UInt8.ofNat (2 ^ prefixBits - 1)) :: bs

/-- The loop of `qpack_decode_int`, with the bytes behind the cursor. -/
def decodeIntLoop : Bytes → (shift value cursor : Nat) → Option (Nat × Nat)
  | [], _, _, _ => none
  | b :: rest, shift, value, cursor =>
    if shift ≥ 64 then none
    else
      let chunk := (b &&& 0x7F).toNat
      if chunk > ((2 ^ 64 - 1) >>> shift) &&& 0x7F then none
      else if value + chunk <<< shift ≥ 2 ^ 64 then none
      else if b &&& 0x80 = 0 then some (value + chunk <<< shift, cursor + 1)
      else decodeIntLoop rest (shift + 7) (value + chunk <<< shift) (cursor + 1)

/-- `qpack_decode_int`: the value and the bytes consumed. -/
def decodeInt (buf : Bytes) (prefixBits : Nat) : Option (Nat × Nat) :=
  match buf with
  | [] => none
  | b :: rest =>
    let mask := maskLow prefixBits
    let value := (b &&& mask).toNat
    if value < mask.toNat then some (value, 1) else decodeIntLoop rest 0 value 1

/-- `qpack_static_index_for_pair`. -/
def staticIndexForPair (name value : Bytes) : Option Nat :=
  staticTable.findIdx? fun e => e.1 = name ∧ e.2 = value

/-- `qpack_static_index_for_name`. -/
def staticIndexForName (name : Bytes) : Option Nat := staticTable.findIdx? fun e => e.1 = name

/-- `qpack_emit_block_prefix`. -/
def emitBlockPrefix (cap : Nat) : Option Bytes := if cap < 2 then none else some [0x00, 0x00]

/-- A raw string behind its length, as `qpack_encode_field` writes its names and values. -/
def encodeLiteral (cap prefixBits : Nat) (flags : UInt8) (s : Bytes) : Option Bytes :=
  match encodeInt cap s.length prefixBits flags with
  | none => none
  | some head => if head.length + s.length > cap then none else some (head ++ s)

/-- `qpack_encode_field` into `cap` bytes; `none` for 0. -/
def encodeField (cap : Nat) (name value : Bytes) : Option Bytes :=
  match staticIndexForPair name value with
  | some idx => encodeInt cap idx 6 0xC0
  | none =>
    let head :=
      match staticIndexForName name with
      | some idx => encodeInt cap idx 4 0x50
      | none => encodeLiteral cap 3 0x20 name
    match head with
    | none => none
    | some head => (encodeLiteral (cap - head.length) 7 0x00 value).map fun bs => head ++ bs

abbrev Field := Bytes × Bytes × Nat

/-- `block.get(i..j)`. -/
def get (block : Bytes) (i j : Nat) : Option Bytes := if i ≤ j ∧ j ≤ block.length then some (block.slice i j) else none

/-- `checked_add` and `try_from`, of a `usize` of `w` bits. -/
def checked (w n : Nat) : Option Nat := if n < 2 ^ w then some n else none

/-- The inner `stash` of `qpack_decode_field_into`: what is put into `room` bytes of scratch behind `used`. -/
def stash (room used : Nat) (src : Bytes) (huff : Bool) : Option Bytes :=
  if huff then
    if used ≤ room then (huffmanDecode src (room - used)).toOption else none
  else if used + src.length ≤ room then some src else none

/-- A length at `at'` and the raw bytes behind it: where they end. -/
def rawInto (w : Nat) (block : Bytes) (at' prefixBits : Nat) : Option (Bytes × Nat) := do
  let (len, n) ← decodeInt (block.drop at') prefixBits
  let len ← checked w len
  let stop ← checked w (at' + n + len)
  let raw ← get block (at' + n) stop
  pure (raw, stop)

/-- `qpack_decode_field_into`, with `room` bytes of scratch. -/
def decodeFieldInto (w room : Nat) (block : Bytes) : Option Field := do
  let first ← block.head?
  if first &&& 0x80 ≠ 0 then
    if first &&& 0x40 = 0 then none
    else do
      let (idx, n) ← decodeInt block 6
      let idx ← checked 32 idx
      let (name, value) ← staticLookup idx
      let name ← stash room 0 name false
      let value ← stash room name.length value false
      pure (name, value, n)
  else if first &&& 0x40 ≠ 0 then
    if first &&& 0x10 = 0 then none
    else do
      let (idx, n) ← decodeInt block 4
      let idx ← checked 32 idx
      let (name, _) ← staticLookup idx
      let h ← block[n]?
      let (raw, stop) ← rawInto w block n 7
      let name ← stash room 0 name false
      let value ← stash room name.length raw (h &&& 0x80 != 0)
      pure (name, value, stop)
  else if first &&& 0x20 ≠ 0 then do
    let (rawName, n) ← rawInto w block 0 3
    let h ← block[n]?
    let (rawValue, stop) ← rawInto w block n 7
    let name ← stash room 0 rawName (first &&& 0x08 != 0)
    let value ← stash room name.length rawValue (h &&& 0x80 != 0)
    pure (name, value, stop)
  else none

/-- `qpack_decode_block_prefix`. -/
def decodeBlockPrefix (block : Bytes) : Option Nat := do
  let (ric, n) ← decodeInt block 8
  if ric ≠ 0 then none
  else if block.drop n = [] then none
  else do
    let (db, m) ← decodeInt (block.drop n) 7
    if db ≠ 0 then none else pure (n + m)

/-- A string without the Huffman bit `huff`: the bytes, and where they end. -/
def rawString (w : Nat) (block : Bytes) (at' prefixBits : Nat) (huff : UInt8) : Option (Bytes × Nat) := do
  let h ← block[at']?
  if h &&& huff ≠ 0 then none
  else do
    let (len, n) ← decodeInt (block.drop at') prefixBits
    let len := len % 2 ^ w
    if (block.drop (at' + n)).length < len then none
    else pure ((block.drop (at' + n)).take len, at' + n + len)

/-- `qpack_decode_field`. -/
def decodeField (w : Nat) (block : Bytes) : Option Field := do
  let first ← block.head?
  if first &&& 0x80 ≠ 0 then
    if first &&& 0x40 = 0 then none
    else do
      let (idx, n) ← decodeInt block 6
      let (name, value) ← staticLookup (idx % 2 ^ 32)
      pure (name, value, n)
  else if first &&& 0x40 ≠ 0 then
    if first &&& 0x10 = 0 then none
    else do
      let (idx, n) ← decodeInt block 4
      let (name, _) ← staticLookup (idx % 2 ^ 32)
      let (value, stop) ← rawString w block n 7 0x80
      pure (name, value, stop)
  else if first &&& 0x20 ≠ 0 then do
    let (name, n) ← rawString w block 0 3 0x08
    let (value, stop) ← rawString w block n 7 0x80
    pure (name, value, stop)
  else none

end Wave.Http.Qpack
