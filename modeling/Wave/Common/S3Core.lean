import Wave.Common.S3Chunks

/-! # A streamed body, as the client sends it (`common/s3_core.rs`, `foundation/s3/mod.rs`)

The client says the body's length before its first byte; a decoder is given it by the stream (`stream_read`). -/

namespace Wave.Common

open Lib Lib.Feed

variable {size : Nat}

def S3_CHUNK : Nat := 8192
def S3_SERVICE : Bytes := ascii "s3"

def TX_BUF : Nat := 6144

/-- How many digits `v` has, of which `n` have been counted and `left` can follow. -/
def countHex (v : Nat) : Nat → Nat → Nat
  | 0, n => n
  | left + 1, n => if v >>> (4 * n) ≠ 0 then countHex v left (n + 1) else n

def hexDigitByte (nib : Nat) : UInt8 := if nib < 10 then UInt8.ofNat (0x30 + nib) else UInt8.ofNat (0x61 + nib - 10)

def s3Hex (v : Nat) : Bytes :=
  let n := countHex v 15 1
  (List.range n).map fun i => hexDigitByte ((v >>> (4 * (n - 1 - i))) &&& 0xf)

def s3HexLen (v : Nat) : Nat := (s3Hex v).length

/-- `u64::checked_add` and `u64::checked_mul`. -/
def checkedAdd (a b : Nat) : Option Nat := if a + b < 2 ^ 64 then some (a + b) else none
def checkedMul (a b : Nat) : Option Nat := if a * b < 2 ^ 64 then some (a * b) else none

def s3ChunkWireLen (size : Nat) : Option Nat := do
  checkedAdd (← checkedAdd (← checkedAdd (← checkedAdd (s3HexLen size) S3_CHUNK_SIG.length) (64 + 2)) size) 2

/-- The `Content-Length` of `decoded` bytes in chunks of `chunk`. -/
def s3AwsChunkedLen (decoded chunk : Nat) : Option Nat :=
  if chunk = 0 then none
  else do
    let full := decoded / chunk
    let rest := decoded % chunk
    let total ← checkedMul full (← s3ChunkWireLen chunk)
    let total ← (if rest > 0 then (s3ChunkWireLen rest).bind (checkedAdd total) else some total)
    checkedAdd total (← s3ChunkWireLen 0)

/-- A writer into `room` bytes: a write fits whole, or the writer is over. -/
structure S3Put where
  room : Nat
  out : Bytes
  isOver : Bool

namespace S3Put

def new (room : Nat) : S3Put := ⟨room, [], false⟩

def put (w : S3Put) (b : Bytes) : S3Put :=
  if w.out.length + b.length ≤ w.room then { w with out := w.out ++ b } else { w with isOver := true }

def hex (w : S3Put) (v : Nat) : S3Put := w.put (s3Hex v)

def done (w : S3Put) : Option Bytes := if w.isOver then none else some w.out

end S3Put

/-- The line in front of a chunk's data; the final chunk's has the empty line that ends the body. -/
def s3ChunkHeader (size : Nat) (sig : Bytes) (room : Nat) : Option Bytes :=
  let w := (((((S3Put.new room).hex size).put S3_CHUNK_SIG).put sig).put CRLF)
  (if size = 0 then w.put CRLF else w).done

section Stream

variable (sha256 : Sha256) (key : S3ChunkKey)

def clientKey (signingKey amzDate scopeDate region : Bytes) : S3ChunkKey :=
  ⟨signingKey, amzDate, scopeDate, region, S3_SERVICE⟩

/-- The filled chunk: its signature, and it with its line and its end. -/
def sealChunk (previous data : Bytes) : Option (Bytes × Bytes) :=
  let sig := sv4ChunkSignature sha256 key.signingKey key.amzDate key.scopeDate key.region key.service previous
    (sha256 data)
  (s3ChunkHeader data.length sig TX_BUF).map fun head => (sig, head ++ (data ++ CRLF))

def sealLast (previous : Bytes) : Option Bytes :=
  let sig := sv4ChunkSignature sha256 key.signingKey key.amzDate key.scopeDate key.region key.service previous
    (sha256 [])
  s3ChunkHeader 0 sig TX_BUF

/-- The body behind the signature `previous`: a chunk each time `S3_CHUNK` bytes are there or the body is. -/
def bodyStream (previous body : Bytes) : Option Bytes :=
  if body = [] then sealLast sha256 key previous
  else do
    let (sig, chunk) ← sealChunk sha256 key previous (body.take S3_CHUNK)
    let rest ← bodyStream sig (body.drop S3_CHUNK)
    return chunk ++ rest
termination_by body.length
decreasing_by
  next h =>
  have hpos := length_pos_iff.mpr h
  rw [length_drop, S3_CHUNK]
  omega

end Stream

theorem countHex_bounds (v : Nat) (left n : Nat) :
    n ≤ countHex v left n ∧ countHex v left n ≤ n + left ∧
      (v >>> (4 * countHex v left n) = 0 ∨ countHex v left n = n + left) := by
  induction left generalizing n with
  | zero => exact ⟨le_rfl, le_rfl, .inr rfl⟩
  | succ left ih =>
    rw [countHex]
    split
    · obtain ⟨hlow, hhigh, hend⟩ := ih (n + 1)
      exact ⟨by omega, by omega, hend.imp_right fun h => by omega⟩
    next h => exact ⟨le_rfl, by omega, .inl (not_not.mp h)⟩

theorem length_s3Hex (v : Nat) : (s3Hex v).length = countHex v 15 1 := by
  rw [s3Hex, length_map, List.length_range]

theorem s3Hex_range (v : Nat) : 0 < (s3Hex v).length ∧ (s3Hex v).length ≤ 16 := by
  obtain ⟨hlow, hhigh, -⟩ := countHex_bounds v 15 1
  rw [length_s3Hex]
  exact ⟨hlow, hhigh⟩

theorem hexDigitByte_value {nib : Nat} (h : nib < 16) :
    (sv4Hexval (hexDigitByte nib)).map (·.toNat) = some nib := by
  have hall : ∀ nib < 16, (sv4Hexval (hexDigitByte nib)).map (·.toNat) = some nib := by decide
  exact hall nib h

theorem chunkSizeOf_concat {digits : Bytes} {b d : UInt8} (h : chunkSizeOf digits = some size)
    (hb : sv4Hexval b = some d) : chunkSizeOf (digits ++ [b]) = some ((size <<< 4) ||| d.toNat) := by
  rw [chunkSizeOf] at h
  rw [chunkSizeOf, List.foldlM_append, h]
  rw [bind_eq_bind, bind_some, foldlM_cons, hb]
  rfl

theorem chunkSizeOf_digits_of (n v : Nat) :
    chunkSizeOf ((List.range n).map fun i => hexDigitByte ((v >>> (4 * (n - 1 - i))) &&& 0xf)) = some (v % 16 ^ n) := by
  induction n generalizing v with
  | zero => rw [List.range_zero, map_nil, Nat.pow_zero, Nat.mod_one]; rfl
  | succ n ih =>
    have hfront : (List.range n).map (fun i => hexDigitByte ((v >>> (4 * (n + 1 - 1 - i))) &&& 0xf)) =
        (List.range n).map fun i => hexDigitByte (((v >>> 4) >>> (4 * (n - 1 - i))) &&& 0xf) := by
      refine map_congr_left fun i hi => ?_
      have hlt := mem_range.mp hi
      have hplace : 4 * (n + 1 - 1 - i) = 4 + 4 * (n - 1 - i) := by omega
      rw [← Nat.shiftRight_add, hplace]
    have hlast : v >>> (4 * (n + 1 - 1 - n)) &&& 0xf = v % 16 := by
      rw [Nat.add_sub_cancel, Nat.sub_self, Nat.mul_zero, Nat.shiftRight_zero]
      exact Nat.and_two_pow_sub_one_eq_mod v 4
    have hshift : (v >>> 4 % 16 ^ n) <<< 4 ||| v % 16 = v % 16 ^ (n + 1) := by
      have hlow : v % 16 < 2 ^ 4 := Nat.mod_lt v (by decide)
      have hplaces : v % 16 ^ (n + 1) = v % 16 + 16 * (v / 16 % 16 ^ n) := by rw [Nat.pow_succ', Nat.mod_mul]
      rw [← Nat.shiftLeft_add_eq_or_of_lt hlow, Nat.shiftLeft_eq, Nat.shiftRight_eq_div_pow, hplaces, Nat.mul_comm 16]
      exact Nat.add_comm _ _
    obtain ⟨d, hd, hval⟩ := map_eq_some_iff.mp (hexDigitByte_value (Nat.mod_lt v (by decide : 0 < 16)))
    rw [List.range_succ, map_append, hfront, map_singleton, hlast, chunkSizeOf_concat (ih (v >>> 4)) hd, hval,
      hshift]

theorem chunkSizeOf_s3Hex {v : Nat} (h : v < 2 ^ 64) : chunkSizeOf (s3Hex v) = some v := by
  rw [s3Hex, chunkSizeOf_digits_of, Option.some.injEq]
  apply Nat.mod_eq_of_lt
  obtain ⟨-, -, hzero | hall⟩ := countHex_bounds v 15 1
  · rw [Nat.shiftRight_eq_div_pow, Nat.pow_mul] at hzero
    exact (Nat.div_eq_zero_iff_lt (Nat.pow_pos (by decide))).mp hzero
  · rw [hall]
    exact h

section Sent

variable {sha256 : Sha256} {key : S3ChunkKey} {previous body data sig out b : Bytes} {room : Nat}

theorem S3Put.put_fits (h : out.length + b.length ≤ room) :
    (S3Put.mk room out false).put b = ⟨room, out ++ b, false⟩ := if_pos h

theorem s3ChunkHeader_fits (size : Nat) (hsig : sig.length = 64) :
    s3ChunkHeader size sig TX_BUF = some (chunkHead (s3Hex size) sig ++ if size = 0 then CRLF else []) := by
  have hdigits := (s3Hex_range size).2
  have hmark : S3_CHUNK_SIG.length = 17 := rfl
  have hend : CRLF.length = 2 := rfl
  have hroom : TX_BUF = 6144 := rfl
  unfold s3ChunkHeader S3Put.new S3Put.hex
  rw [S3Put.put_fits (by rw [length_nil]; omega), nil_append, S3Put.put_fits (by omega),
    S3Put.put_fits (by rw [length_append]; omega),
    S3Put.put_fits (by rw [length_append, length_append]; omega)]
  dsimp only
  split
  · rw [S3Put.put_fits (by simp only [length_append]; omega)]
    simp [S3Put.done, chunkHead]
  · simp [S3Put.done, chunkHead]

def sentChunk (sha256 : Sha256) (key : S3ChunkKey) (previous data : Bytes) : S3Chunk :=
  ⟨s3Hex data.length, S3Chunk.signed sha256 key previous data, data⟩

theorem sentChunk_framed (h : data.length ≤ S3_CHUNK) : (sentChunk sha256 key previous data).Framed where
  sig := length_sv4ChunkSignature ..
  digits := s3Hex_range _
  size := chunkSizeOf_s3Hex (Nat.lt_of_le_of_lt h (by decide))

def chunkLength (size : Nat) : Nat := s3HexLen size + 17 + (64 + 2) + size + 2

theorem length_sentChunk : (sentChunk sha256 key previous data).wire.length = chunkLength data.length := by
  have hsig : (S3Chunk.signed sha256 key previous data).length = 64 := length_sv4ChunkSignature ..
  have hmark : S3_CHUNK_SIG.length = 17 := rfl
  have hend : CRLF.length = 2 := rfl
  rw [S3Chunk.wire, chunkHead, sentChunk, chunkLength, s3HexLen]
  simp only [length_append, hsig, hmark, hend]
  omega

theorem sealChunk_eq (h : data ≠ []) :
    sealChunk sha256 key previous data =
      some ((sentChunk sha256 key previous data).sig, (sentChunk sha256 key previous data).wire) := by
  have hlen : data.length ≠ 0 := List.length_eq_zero_iff.not.mpr h
  unfold sealChunk
  dsimp only
  rw [s3ChunkHeader_fits _ (length_sv4ChunkSignature ..), if_neg hlen, append_nil]
  rfl

theorem sealLast_eq : sealLast sha256 key previous = some (sentChunk sha256 key previous []).wire :=
  s3ChunkHeader_fits 0 (length_sv4ChunkSignature ..)

def streamLength (size : Nat) : Nat :=
  size / S3_CHUNK * chunkLength S3_CHUNK + (if size % S3_CHUNK > 0 then chunkLength (size % S3_CHUNK) else 0) +
    chunkLength 0

theorem streamLength_full (h : S3_CHUNK ≤ size) :
    streamLength size = chunkLength S3_CHUNK + streamLength (size - S3_CHUNK) := by
  have hdiv : size / S3_CHUNK = (size - S3_CHUNK) / S3_CHUNK + 1 := Nat.div_eq_sub_div (by decide) h
  have hmod : size % S3_CHUNK = (size - S3_CHUNK) % S3_CHUNK := Nat.mod_eq_sub_mod h
  rw [streamLength, streamLength, hdiv, hmod, Nat.succ_mul]
  omega

theorem streamLength_short (hpos : 0 < size) (h : size < S3_CHUNK) :
    streamLength size = chunkLength size + streamLength 0 := by
  have hnone : streamLength 0 = chunkLength 0 := by
    rw [streamLength, Nat.zero_div, Nat.zero_mod, if_neg (Nat.lt_irrefl 0), Nat.zero_mul, Nat.zero_add]
  rw [streamLength, Nat.div_eq_of_lt h, Nat.mod_eq_of_lt h, if_pos hpos, hnone, Nat.zero_mul, Nat.zero_add]

theorem bodyStream_chunks (sha256 : Sha256) (key : S3ChunkKey) (previous body : Bytes) :
    ∃ chunks last, bodyStream sha256 key previous body = some ((chunks ++ [last]).flatMap S3Chunk.wire) ∧
      S3Chunk.Chained sha256 key previous (chunks ++ [last]) ∧ (∀ c ∈ chunks ++ [last], c.Framed) ∧
      (∀ c ∈ chunks, c.data ≠ []) ∧ last.data = [] ∧ chunks.flatMap (·.data) = body ∧
      ((chunks ++ [last]).flatMap S3Chunk.wire).length = streamLength body.length := by
  induction hn : body.length using Nat.strong_induction_on generalizing previous body with
  | h n ih =>
    by_cases hbody : body = []
    · rw [bodyStream, if_pos hbody, sealLast_eq]
      refine ⟨[], sentChunk sha256 key previous [], ?_, ⟨rfl, trivial⟩, ?_, nofun, rfl, hbody.symm, ?_⟩
      · rw [nil_append, flatMap_singleton]
      · exact fun c hc => mem_singleton.mp hc ▸ sentChunk_framed (Nat.zero_le _)
      · rw [nil_append, flatMap_singleton, length_sentChunk, ← hn, hbody]
        rfl
    · have hpos := length_pos_iff.mpr hbody
      have hchunk : S3_CHUNK = 8192 := rfl
      have hdata : body.take S3_CHUNK ≠ [] := by
        rw [← length_pos_iff, length_take]
        omega
      have hshort : (body.take S3_CHUNK).length ≤ S3_CHUNK := length_take_le _ _
      obtain ⟨chunks, last, hstream, hchain, hframed, hfull, hlast, hrest, hlength⟩ :=
        ih (body.drop S3_CHUNK).length (by rw [length_drop]; omega)
          (sentChunk sha256 key previous (body.take S3_CHUNK)).sig (body.drop S3_CHUNK) rfl
      refine ⟨sentChunk sha256 key previous (body.take S3_CHUNK) :: chunks, last, ?_, ⟨rfl, hchain⟩, ?_, ?_, hlast, ?_,
        ?_⟩
      · rw [bodyStream, if_neg hbody, sealChunk_eq hdata]
        simp only [bind_eq_bind, bind_some, hstream, Option.pure_def, cons_append, flatMap_cons]
      · rw [cons_append, forall_mem_cons]
        exact ⟨sentChunk_framed hshort, hframed⟩
      · rw [forall_mem_cons]
        exact ⟨hdata, hfull⟩
      · rw [flatMap_cons, hrest]
        exact take_append_drop _ _
      · rw [cons_append, flatMap_cons, length_append, hlength, length_sentChunk, length_take,
          length_drop, hn]
        rcases Nat.lt_or_ge n S3_CHUNK with hlt | hge
        · rw [Nat.min_eq_right (Nat.le_of_lt hlt), Nat.sub_eq_zero_of_le (Nat.le_of_lt hlt),
            streamLength_short (hn ▸ hpos) hlt]
        · rw [Nat.min_eq_left hge, streamLength_full hge]

theorem s3ChunkWireLen_eq (h : size ≤ S3_CHUNK) : s3ChunkWireLen size = some (chunkLength size) := by
  have hdigits := (s3Hex_range size).2
  have hmark : S3_CHUNK_SIG.length = 17 := rfl
  have hchunk : S3_CHUNK = 8192 := rfl
  rw [← s3HexLen] at hdigits
  unfold s3ChunkWireLen checkedAdd
  simp only [hmark, bind_eq_bind]
  rw [if_pos (by omega), bind_some, if_pos (by omega), bind_some, if_pos (by omega), bind_some,
    if_pos (by omega), chunkLength]

theorem s3AwsChunkedLen_eq (size : Nat) :
    s3AwsChunkedLen size S3_CHUNK = if streamLength size < 2 ^ 64 then some (streamLength size) else none := by
  have hrest : size % S3_CHUNK ≤ S3_CHUNK := Nat.le_of_lt (Nat.mod_lt _ (by decide))
  rw [s3AwsChunkedLen, if_neg (show S3_CHUNK ≠ 0 by decide)]
  dsimp only
  rw [s3ChunkWireLen_eq le_rfl, s3ChunkWireLen_eq hrest, s3ChunkWireLen_eq (Nat.zero_le _), streamLength]
  simp only [bind_eq_bind, bind_some, checkedMul, checkedAdd]
  by_cases hfull : size / S3_CHUNK * chunkLength S3_CHUNK < 2 ^ 64
  · rw [if_pos hfull, bind_some]
    split
    · by_cases htail : size / S3_CHUNK * chunkLength S3_CHUNK + chunkLength (size % S3_CHUNK) < 2 ^ 64
      · rw [if_pos htail, bind_some]
      · rw [if_neg htail, Option.bind_none, if_neg (by omega)]
    · rw [bind_some, Nat.add_zero]
  · rw [if_neg hfull, Option.bind_none, if_neg (by omega)]

/-- The client's stream has the length it says, and a server that is given it in any pieces has the body from it. -/
theorem stream_read (sha256 : Sha256) (signingKey : FixedBytes 32) (amzDate : FixedBytes 16) (scopeDate : FixedBytes 8)
    (region : Bytes) (seed : FixedBytes 64) (body : Bytes) :
    ∃ wire, bodyStream sha256 (clientKey signingKey.1 amzDate.1 scopeDate.1 region) seed.1 body = some wire ∧
      (s3AwsChunkedLen body.length S3_CHUNK = if wire.length < 2 ^ 64 then some wire.length else none) ∧
      ∀ pieces : List Bytes, pieces.flatten = wire → ∃ t,
        feedAll (S3Chunked.feed sha256 (clientKey signingKey.1 amzDate.1 scopeDate.1 region)) (.new seed.1) pieces =
          (body, .ok t) ∧ t.state = .done ∧ t.decoded = UInt64.ofNat body.length := by
  obtain ⟨chunks, last, hstream, hchain, hframed, hfull, hlast, hbody, hlength⟩ :=
    bodyStream_chunks sha256 (clientKey signingKey.1 amzDate.1 scopeDate.1 region) seed.1 body
  refine ⟨_, hstream, by rw [hlength]; exact s3AwsChunkedLen_eq _, fun pieces hpieces => ?_⟩
  obtain ⟨t, hfed, hdone, hcount⟩ := feed_chain hchain hframed hfull hlast
  rw [hbody] at hfed hcount
  refine ⟨t, ?_, hdone, hcount⟩
  have hall := (S3Chunked.grows sha256 (clientKey signingKey.1 amzDate.1 scopeDate.1 region)).feedAll_eq
    (s := .new seed.1) trivial pieces
  rw [← hpieces] at hfed
  exact hall.trans hfed

end Sent

end Wave.Common
