import Wave.Common.SigV4Core
import Wave.Lib.Feed

/-! # `aws-chunked` bodies (`common/s3_serve_core.rs`)

Each chunk has a line with its size and its signature; the signatures are a chain from the request's on. -/

namespace Wave.Common

open Lib Lib.Feed

def S3_CHUNK_LINE_MAX : Nat := 16 + 17 + 64 + 2
def S3_CHUNK_SIG : Bytes := ascii ";chunk-signature="
def CRLF : Bytes := [13, 10]

inductive S3ChunkState where
  | line
  | data
  | dataEnd
  | done
deriving DecidableEq

inductive S3ChunkErr where
  | malformed
  | signature
deriving DecidableEq

structure S3ChunkKey where
  signingKey : Bytes
  amzDate : Bytes
  scopeDate : Bytes
  region : Bytes
  service : Bytes

/-- The decoder, with its line and the data it hashes as far as they have come. -/
structure S3Chunked where
  state : S3ChunkState
  line : Bytes
  remaining : Nat
  expectSig : Bytes
  prevSig : Bytes
  hash : Bytes
  last : Bool
  decoded : UInt64

def chunkSizeOf (digits : Bytes) : Option Nat :=
  digits.foldlM (fun size c => (sv4Hexval c).map fun d => (size <<< 4) ||| d.toNat) 0

/-- The size and the signature of a `hex;chunk-signature=sig\r\n` line. -/
def chunkLine (line : Bytes) : Option (Nat × Bytes) := do
  let line ← List.isSuffixOf? CRLF line
  let semi ← line.findIdx? (· = 0x3b)
  let sig ← List.isPrefixOf? (ascii "chunk-signature=") (line.drop (semi + 1))
  if sig.length ≠ 64 then none
  else if semi = 0 ∨ semi > 16 then none
  else (chunkSizeOf (line.take semi)).map fun size => (size, sig)

namespace S3Chunked

def new (seedSignature : Bytes) : S3Chunked where
  state := .line
  line := []
  remaining := 0
  expectSig := List.replicate 64 0
  prevSig := seedSignature
  hash := []
  last := false
  decoded := 0

variable (sha256 : Sha256) (key : S3ChunkKey)

def closeChunk (s : S3Chunked) : Except S3ChunkErr S3Chunked :=
  let sig := sv4ChunkSignature sha256 key.signingKey key.amzDate key.scopeDate key.region key.service s.prevSig
    (sha256 s.hash)
  if sv4Eq sig s.expectSig then .ok { s with hash := [], prevSig := sig } else .error .signature

def wholeLine (s : S3Chunked) (line rest : Bytes) : Turn S3Chunked UInt8 UInt8 S3ChunkErr :=
  match chunkLine line with
  | none => .fail [] .malformed
  | some (size, sig) =>
    .next [] { s with
        expectSig := sig, line := [], remaining := size, last := if size = 0 then true else s.last,
        state := if size = 0 then .dataEnd else .data } rest

def lineTurn (s : S3Chunked) (input : Bytes) : Turn S3Chunked UInt8 UInt8 S3ChunkErr :=
  let nl := input.findIdx? (· = 10)
  let take := (nl.map (· + 1)).getD input.length
  if s.line.length + take > S3_CHUNK_LINE_MAX then .fail [] .malformed
  else
    let line := s.line ++ input.take take
    if nl = none then .next [] { s with line := line } (input.drop take) else wholeLine s line (input.drop take)

def dataTurn (s : S3Chunked) (input : Bytes) : Turn S3Chunked UInt8 UInt8 S3ChunkErr :=
  let take := min s.remaining input.length
  .next (input.take take) { s with
      hash := s.hash ++ input.take take, decoded := s.decoded + UInt64.ofNat take, remaining := s.remaining - take,
      state := if s.remaining - take = 0 then .dataEnd else s.state } (input.drop take)

/-- In `DataEnd`: both bytes of the CRLF must be seen; a single one carries over. -/
def dataEndTurn (s : S3Chunked) (input : Bytes) : Turn S3Chunked UInt8 UInt8 S3ChunkErr :=
  let take := min (2 - s.line.length) input.length
  let line := s.line ++ input.take take
  if line.length < 2 then .next [] { s with line := line } (input.drop take)
  else if line.take 2 ≠ CRLF then .fail [] .malformed
  else
    match closeChunk sha256 key { s with line := [] } with
    | .error e => .fail [] e
    | .ok t => .next [] { t with state := if s.last then .done else .line } (input.drop take)

/-- One turn of the `while` of `feed`. -/
def turn (s : S3Chunked) (input : Bytes) : Turn S3Chunked UInt8 UInt8 S3ChunkErr :=
  if input = [] then .wait [] s
  else
    match s.state with
    | .done => .fail [] .malformed
    | .line => lineTurn s input
    | .data => dataTurn s input
    | .dataEnd => dataEndTurn sha256 key s input

def rank (s : S3Chunked) : Nat :=
  match s.state with
  | .data => 2
  | .dataEnd => 1
  | .line | .done => 0

variable {sha256 key} {s t : S3Chunked} {l m out rest : Bytes}

theorem lineTurn_take (hne : l ≠ []) : 0 < ((l.findIdx? (· = 10)).map (· + 1)).getD l.length := by
  cases l.findIdx? (· = 10) with
  | none => exact length_pos_iff.mpr hne
  | some i => exact Nat.succ_pos i

theorem lineTurn_less (hne : l ≠ []) (h : lineTurn s l = .next out t rest) : rest.length < l.length := by
  have htake := lineTurn_take hne
  have hpos := length_pos_iff.mpr hne
  unfold lineTurn at h
  dsimp only at h
  split at h
  · cases h
  · split at h
    · cases h
      rw [length_drop]
      omega
    · unfold wholeLine at h
      split at h
      · cases h
      · cases h
        rw [length_drop]
        omega

theorem turn_less (h : turn sha256 key s l = .next out t rest) :
    rest.length < l.length ∨ (rest.length = l.length ∧ rank t < rank s) := by
  unfold turn at h
  split at h
  · cases h
  next hne =>
    have hpos := length_pos_iff.mpr hne
    split at h
    next => cases h
    next => exact .inl (lineTurn_less hne h)
    next hstate =>
      cases h
      rw [length_drop]
      by_cases hzero : s.remaining = 0
      · right
        refine ⟨by rw [hzero, Nat.zero_min, Nat.sub_zero], ?_⟩
        rw [rank, rank, hstate, hzero]
        exact Nat.one_lt_two
      · left
        omega
    next hstate =>
      unfold dataEndTurn at h
      dsimp only at h
      split at h
      next hshort =>
        cases h
        left
        rw [length_append, length_take] at hshort
        rw [length_drop]
        omega
      · split at h
        · cases h
        · split at h
          · cases h
          next u hclose =>
            cases h
            rw [length_drop]
            by_cases htake : min (2 - s.line.length) l.length = 0
            · right
              refine ⟨by rw [htake, Nat.sub_zero], ?_⟩
              rw [rank, rank, hstate]
              cases s.last <;> exact Nat.one_pos
            · left
              omega

variable (sha256 key)

def loop : Loop S3Chunked UInt8 UInt8 S3ChunkErr where
  turn := turn sha256 key
  rank := rank
  less := turn_less

/-- `feed`: the decoded bytes, and the decoder or the error. -/
def feed (s : S3Chunked) (input : Bytes) : Fed S3Chunked UInt8 S3ChunkErr := (loop sha256 key).feed s input

variable {sha256 key}

theorem loop_turn (hl : l ≠ []) :
    (loop sha256 key).turn s l =
      match s.state with
      | .done => .fail [] .malformed
      | .line => lineTurn s l
      | .data => dataTurn s l
      | .dataEnd => dataEndTurn sha256 key s l := by
  change turn sha256 key s l = _
  unfold turn
  rw [if_neg hl]

theorem loop_turn_nil : (loop sha256 key).turn s [] = .wait [] s := by
  change turn sha256 key s [] = _
  unfold turn
  rw [if_pos rfl]

theorem turn_wait (h : (loop sha256 key).turn s l = .wait out t) : l = [] ∧ out = [] ∧ t = s := by
  by_cases hl : l = []
  · rw [hl, loop_turn_nil] at h
    cases h
    exact ⟨hl, rfl, rfl⟩
  · rw [loop_turn hl] at h
    split at h
    next => cases h
    next =>
      unfold lineTurn wholeLine at h
      dsimp only at h
      repeat' split at h
      all_goals cases h
    next => cases h
    next =>
      unfold dataEndTurn at h
      dsimp only at h
      repeat' split at h
      all_goals cases h

theorem lineTurn_end {a : Bytes} (ha : 10 ∉ a) (rest : Bytes) :
    lineTurn s (a ++ 10 :: rest) =
      if s.line.length + (a.length + 1) > S3_CHUNK_LINE_MAX then .fail [] .malformed
      else wholeLine s (s.line ++ (a ++ [10])) rest := by
  unfold lineTurn
  dsimp only
  rw [findIdx?_mark ha]
  dsimp only [map_some, getD_some]
  rw [take_mark, drop_mark]
  simp only [reduceCtorEq, if_false]

theorem lineTurn_short {a : Bytes} (ha : 10 ∉ a) :
    lineTurn s a =
      if s.line.length + a.length > S3_CHUNK_LINE_MAX then .fail [] .malformed
      else .next [] { s with line := s.line ++ a } [] := by
  unfold lineTurn
  dsimp only
  rw [findIdx?_no_mark ha]
  dsimp only [Option.map_none, Option.getD_none]
  rw [take_length, drop_length, if_pos rfl]

theorem lineTurn_grow (hstate : s.state = .line) (hl : l ≠ []) (m : Bytes) : (loop sha256 key).GrowsAt s l m := by
  have hturn : ∀ {t : S3Chunked} {k : Bytes}, t.state = .line → k ≠ [] → (loop sha256 key).turn t k = lineTurn t k :=
    fun ht hk => by rw [loop_turn hk, ht]
  unfold Loop.GrowsAt
  rw [hturn hstate hl, hturn hstate (append_ne_nil_of_left_ne_nil hl m)]
  rcases mark_cases 10 l with hnone | ⟨a, rest, ha, rfl⟩
  · rw [lineTurn_short hnone]
    by_cases hlong : s.line.length + l.length > S3_CHUNK_LINE_MAX
    · rw [if_pos hlong]
      rcases mark_cases 10 m with hm | ⟨a, rest, ha, rfl⟩
      · rw [lineTurn_short (by rw [mem_append]; exact not_or.mpr ⟨hnone, hm⟩), if_pos]
        rw [length_append]
        omega
      · rw [← append_assoc, lineTurn_end (by rw [mem_append]; exact not_or.mpr ⟨hnone, ha⟩), if_pos]
        rw [length_append]
        omega
    · rw [if_neg hlong]
      refine .inr ⟨rfl, fun hm => ?_⟩
      have hnext := hturn (t := { s with line := s.line ++ l }) hstate hm
      rw [Turn.after_nil, hnext]
      rcases mark_cases 10 m with hm | ⟨a, rest, ha, rfl⟩
      · rw [lineTurn_short hm, lineTurn_short (by rw [mem_append]; exact not_or.mpr ⟨hnone, hm⟩)]
        simp only [length_append, append_assoc, Nat.add_assoc]
      · rw [lineTurn_end ha, ← append_assoc,
          lineTurn_end (by rw [mem_append]; exact not_or.mpr ⟨hnone, ha⟩)]
        simp only [length_append, append_assoc, Nat.add_assoc]
        rfl
  · rw [append_assoc, cons_append, lineTurn_end ha, lineTurn_end ha]
    by_cases hlong : s.line.length + (a.length + 1) > S3_CHUNK_LINE_MAX
    · rw [if_pos hlong, if_pos hlong]
    · rw [if_neg hlong, if_neg hlong]
      unfold wholeLine
      cases chunkLine (s.line ++ (a ++ [10])) with
      | none => rfl
      | some r => exact .inl rfl

theorem dataTurn_grow (hstate : s.state = .data) (hl : l ≠ []) (m : Bytes) : (loop sha256 key).GrowsAt s l m := by
  have hturn : ∀ {t : S3Chunked} {k : Bytes}, t.state = .data → k ≠ [] → (loop sha256 key).turn t k = dataTurn t k :=
    fun ht hk => by rw [loop_turn hk, ht]
  unfold Loop.GrowsAt
  rw [hturn hstate hl, hturn hstate (append_ne_nil_of_left_ne_nil hl m)]
  unfold dataTurn
  dsimp only
  by_cases hall : s.remaining ≤ l.length
  · left
    have hmore : s.remaining ≤ (l ++ m).length := by
      rw [length_append]
      omega
    rw [Nat.min_eq_left hall, Nat.min_eq_left hmore, take_append_of_le_length hall,
      drop_append_of_le_length hall]
  · right
    have hleft : s.remaining - l.length ≠ 0 := by omega
    rw [Nat.min_eq_right (Nat.le_of_not_le hall)]
    refine ⟨drop_length, fun hm => ?_⟩
    have hmin : min s.remaining (l ++ m).length = l.length + min (s.remaining - l.length) m.length := by
      rw [length_append]
      omega
    have hnext := hturn (t := { s with
      hash := s.hash ++ l, decoded := s.decoded + UInt64.ofNat l.length, remaining := s.remaining - l.length }) hstate hm
    rw [if_neg hleft, take_length, hnext, hmin, List.take_length_add_append, List.drop_length_add_append]
    unfold dataTurn Turn.after
    simp only [append_assoc, UInt64.ofNat_add, UInt64.add_assoc, Nat.sub_sub]

theorem dataEndTurn_grow (hstate : s.state = .dataEnd) (hl : l ≠ []) (m : Bytes) :
    (loop sha256 key).GrowsAt s l m := by
  have hturn : ∀ {t : S3Chunked} {k : Bytes}, t.state = .dataEnd → k ≠ [] →
      (loop sha256 key).turn t k = dataEndTurn sha256 key t k :=
    fun ht hk => by rw [loop_turn hk, ht]
  unfold Loop.GrowsAt
  rw [hturn hstate hl, hturn hstate (append_ne_nil_of_left_ne_nil hl m)]
  by_cases hall : 2 - s.line.length ≤ l.length
  · have hmore : 2 - s.line.length ≤ (l ++ m).length := by
      rw [length_append]
      omega
    unfold dataEndTurn
    dsimp only
    rw [Nat.min_eq_left hall, Nat.min_eq_left hmore, take_append_of_le_length hall,
      drop_append_of_le_length hall]
    have hboth : ¬ (s.line ++ l.take (2 - s.line.length)).length < 2 := by
      rw [length_append, length_take]
      omega
    rw [if_neg hboth, if_neg hboth]
    by_cases hend : (s.line ++ l.take (2 - s.line.length)).take 2 ≠ CRLF
    · rw [if_pos hend, if_pos hend]
    · rw [if_neg hend, if_neg hend]
      cases closeChunk sha256 key { s with line := [] } with
      | error e => rfl
      | ok t => exact .inl rfl
  · have hone : (s.line ++ l).length < 2 := by
      rw [length_append]
      omega
    have hshort : dataEndTurn sha256 key s l = .next [] { s with line := s.line ++ l } [] := by
      unfold dataEndTurn
      dsimp only
      rw [Nat.min_eq_right (Nat.le_of_not_le hall), take_length, drop_length, if_pos hone]
    rw [hshort]
    refine .inr ⟨rfl, fun hm => ?_⟩
    have hnext := hturn (t := { s with line := s.line ++ l }) hstate hm
    have hmin : min (2 - s.line.length) (l ++ m).length = l.length + min (2 - (s.line ++ l).length) m.length := by
      rw [length_append, length_append]
      omega
    rw [Turn.after_nil, hnext]
    unfold dataEndTurn
    dsimp only
    rw [hmin, List.take_length_add_append, List.drop_length_add_append, append_assoc]

variable (sha256 key)

theorem grows : (loop sha256 key).Grows fun _ => True where
  keep _ _ := trivial
  stay _ _ := trivial
  empty _ := loop_turn_nil
  grow {s} _ l m := by
    by_cases hl : l = []
    · rw [hl, Loop.GrowsAt, loop_turn_nil]
      exact (Turn.after_nil _).symm
    · cases hstate : s.state with
      | line => exact lineTurn_grow hstate hl m
      | data => exact dataTurn_grow hstate hl m
      | dataEnd => exact dataEndTurn_grow hstate hl m
      | done =>
        have hfail : ∀ k : Bytes, k ≠ [] → (loop sha256 key).turn s k = .fail [] .malformed :=
          fun k hk => by rw [loop_turn hk, hstate]
        rw [Loop.GrowsAt, hfail l hl]
        exact hfail _ (append_ne_nil_of_left_ne_nil hl m)

end S3Chunked

end Wave.Common
