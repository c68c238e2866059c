import Wave.Http.H1Wire

/-! # Request bodies (`http/wire/h1.rs`, `http/server/reqbody.rs`)

A pass of the decoder that takes nothing stands in front of a partial line or an empty buffer (`peek_wait`). -/

namespace Wave.Http

open Lib

variable {rest : Bytes}

def U64_MAX : Nat := 2 ^ 64 - 1

inductive ChunkHeader where
  | ok (size consumed : Nat)
  | need
  | bad
deriving DecidableEq

def MAX_CHUNK_LINE : Nat := 64

def hexDigit (c : UInt8) : Option Nat := (Paths.hexVal c).map (·.toNat)

/-- The leading hex digits: their value and their number, `none` past `2^64`. -/
def chunkSize : Bytes → (size digits : Nat) → Option (Nat × Nat)
  | [], size, digits => some (size, digits)
  | c :: cs, size, digits =>
    match hexDigit c with
    | none => some (size, digits)
    | some d =>
      if size * 16 + d < 2 ^ 64 then chunkSize cs (size * 16 + d) (digits + 1) else none

def parseChunkHeader (buf : Bytes) : ChunkHeader :=
  let line := buf.take MAX_CHUNK_LINE
  match chunkSize line 0 0 with
  | none => .bad
  | some (size, digits) =>
    if digits = 0 then if buf = [] then .need else .bad
    else
      let i := digits + ((line.drop digits).takeWhile (· != CR)).length
      if i ≥ line.length then if buf.length ≤ MAX_CHUNK_LINE then .need else .bad
      else
        match buf[i + 1]? with
        | none => .need
        | some c => if c = LF then .ok size (i + 2) else .bad

theorem parseChunkHeader_ok_le {buf : Bytes} {size consumed : Nat}
    (h : parseChunkHeader buf = .ok size consumed) : 2 ≤ consumed ∧ consumed ≤ buf.length := by
  unfold parseChunkHeader at h
  simp only at h
  cases hs : chunkSize (buf.take MAX_CHUNK_LINE) 0 0 with
  | none => simp [hs] at h
  | some r =>
    obtain ⟨sz, digits⟩ := r
    simp only [hs] at h
    split_ifs at h
    generalize hi : digits + _ = i at h
    cases hc : buf[i + 1]? with
    | none => simp [hc] at h
    | some c =>
      simp only [hc] at h
      split_ifs at h
      injection h with _ hcons
      obtain ⟨hlt, -⟩ := List.getElem?_eq_some_iff.mp hc
      omega

/-- One round of the decoding loop: it stops, or takes `taken` bytes of the input
and puts out some. -/
inductive DecodeStep where
  | stop (d : BodyDecoder) (bad : Bool)
  | go (d : BodyDecoder) (taken : Nat) (out : Bytes)

def BodyDecoder.advance (d : BodyDecoder) (rest : Bytes) (room : Nat) : DecodeStep :=
  match d.state with
  | .data =>
    if d.remaining = 0 then
      if d.chunked then .go { d with state := .dataEnd } 0 [] else .stop { d with done := true } false
    else
      let n := min (min rest.length room) d.remaining
      if n = 0 then .stop d false
      else .go { d with remaining := d.remaining - n } n (rest.take n)
  | .size =>
    match parseChunkHeader rest with
    | .need => .stop d false
    | .bad => .stop d true
    | .ok size consumed =>
      .go { d with remaining := size, state := if size = 0 then .trailer else .data } consumed []
  | .dataEnd =>
    if rest.length < 2 then .stop d false
    else if crlf.isPrefixOf rest then .go { d with state := .size } 2 []
    else .stop d true
  | .trailer =>
    match findPat crlf rest with
    | none => .stop d false
    | some eol => .go { d with done := decide (eol = 0) } (eol + 2) []

structure Decoded where
  consumed : Nat := 0
  out : Bytes := []
  bad : Bool := false

def Decoded.after (r : Decoded) (taken : Nat) (out : Bytes) : Decoded :=
  { r with consumed := taken + r.consumed, out := out ++ r.out }

def decodeLoop : (fuel : Nat) → BodyDecoder → Bytes → (room : Nat) → BodyDecoder × Decoded
  | 0, d, _, _ => (d, {})
  | fuel + 1, d, rest, room =>
    if d.done then (d, {})
    else
      match d.advance rest room with
      | .stop d' bad => (d', { bad := bad })
      | .go d' n out =>
        let r := decodeLoop fuel d' (rest.drop n) (room - out.length)
        (r.1, r.2.after n out)

/-- Rounds that take nothing only leave the end of a chunk's data, so twice the
input is enough of them. -/
def BodyDecoder.rounds (d : BodyDecoder) (rest : Bytes) : Nat :=
  2 * rest.length + (if d.state = .data then 1 else 0) + 1

def BodyDecoder.decode (d : BodyDecoder) (input : Bytes) (room : Nat) : BodyDecoder × Decoded :=
  decodeLoop (d.rounds input) d input room

theorem advance_go_le {d d' : BodyDecoder} {room n : Nat} {out : Bytes} (h : d.advance rest room = .go d' n out) : n ≤ rest.length ∧ out.length ≤ room := by
  unfold BodyDecoder.advance at h
  cases hs : d.state with
  | data =>
    simp only [hs] at h
    split_ifs at h
    · injection h with _ hn ho
      subst hn ho
      simp
    · injection h with _ hn ho
      subst hn ho
      rw [length_take]
      omega
  | size =>
    simp only [hs] at h
    cases hp : parseChunkHeader rest with
    | need => simp [hp] at h
    | bad => simp [hp] at h
    | ok size consumed =>
      simp only [hp] at h
      injection h with _ hn ho
      subst hn ho
      exact ⟨(parseChunkHeader_ok_le hp).2, Nat.zero_le _⟩
  | dataEnd =>
    simp only [hs] at h
    split_ifs at h
    injection h with _ hn ho
    subst hn ho
    exact ⟨by omega, Nat.zero_le _⟩
  | trailer =>
    simp only [hs] at h
    cases hf : findPat crlf rest with
    | none => simp [hf] at h
    | some eol =>
      simp only [hf] at h
      injection h with _ hn ho
      subst hn ho
      exact ⟨findPat_le hf, Nat.zero_le _⟩

theorem advance_go_rounds {d d' : BodyDecoder} {room n : Nat} {out : Bytes} (h : d.advance rest room = .go d' n out) : d'.rounds (rest.drop n) < d.rounds rest := by
  have hle := (advance_go_le h).1
  have hdrop : (rest.drop n).length = rest.length - n := length_drop
  unfold BodyDecoder.advance at h
  cases hs : d.state with
  | data =>
    simp only [hs] at h
    split_ifs at h with h0
    · injection h with hd hn
      subst hd hn
      simp [BodyDecoder.rounds, hs]
    · injection h with hd hn
      subst hd
      simp only [BodyDecoder.rounds, hs, hdrop, if_true]
      omega
  | size =>
    simp only [hs] at h
    cases hp : parseChunkHeader rest with
    | need => simp [hp] at h
    | bad => simp [hp] at h
    | ok size consumed =>
      simp only [hp] at h
      injection h with hd hn
      subst hn
      have htwo := (parseChunkHeader_ok_le hp).1
      simp only [BodyDecoder.rounds, hs, hdrop]
      split_ifs <;> omega
  | dataEnd =>
    simp only [hs] at h
    split_ifs at h
    injection h with hd hn
    subst hd hn
    simp only [BodyDecoder.rounds, hs, hdrop]
    simp
    omega
  | trailer =>
    simp only [hs] at h
    cases hf : findPat crlf rest with
    | none => simp [hf] at h
    | some eol =>
      simp only [hf] at h
      injection h with hd hn
      subst hd hn
      simp only [BodyDecoder.rounds, hs, hdrop]
      simp
      omega

theorem decodeLoop_enough {fuel fuel' : Nat} {d : BodyDecoder} {room : Nat}
    (h : d.rounds rest ≤ fuel) (h' : d.rounds rest ≤ fuel') :
    decodeLoop fuel d rest room = decodeLoop fuel' d rest room := by
  induction fuel generalizing fuel' d rest room with
  | zero => simp [BodyDecoder.rounds] at h
  | succ fuel ih =>
    cases fuel' with
    | zero => simp [BodyDecoder.rounds] at h'
    | succ fuel' =>
      simp only [decodeLoop]
      cases ha : d.advance rest room with
      | stop d' bad => rfl
      | go d' n out =>
        have hlt := advance_go_rounds ha
        simp only
        rw [ih (by omega) (by omega : d'.rounds (rest.drop n) ≤ fuel')]

theorem decodeLoop_consumed_le {fuel : Nat} {d : BodyDecoder} {room : Nat} :
    (decodeLoop fuel d rest room).2.consumed ≤ rest.length := by
  induction fuel generalizing d rest room with
  | zero => simp [decodeLoop]
  | succ fuel ih =>
    rw [decodeLoop]
    split_ifs
    · exact Nat.zero_le _
    · cases ha : d.advance rest room with
      | stop d' bad => exact Nat.zero_le _
      | go d' n out =>
        have hle := (advance_go_le ha).1
        have hrest : (decodeLoop fuel d' (rest.drop n) (room - out.length)).2.consumed ≤
            (rest.drop n).length := ih
        rw [length_drop] at hrest
        simp only [Decoded.after]
        omega

theorem decode_consumed_le (d : BodyDecoder) (input : Bytes) (room : Nat) :
    (d.decode input room).2.consumed ≤ input.length := decodeLoop_consumed_le

structure BodyReader where
  decoder : BodyDecoder := { chunked := false, state := .data, remaining := 0 }
  active : Bool := false
  total : Nat := 0
  limit : Nat := 0
deriving DecidableEq

inductive BodyStep where
  | progress
  | wait
  | done
  | bad
  | tooLarge

structure Peek where
  next : BodyDecoder
  consumed : Nat
  out : Bytes
  done : Bool

/-- Decode `bufLen` bytes without committing anything, and one byte past the ceiling. -/
def peek (r : BodyReader) (pending : Bytes) (wedged : Bool) (bufLen : Nat) :
    Except BodyStep Peek :=
  if !r.active then .error .done
  else
    let res := r.decoder.decode pending (min bufLen (r.limit - r.total + 1))
    if res.2.bad then .error .bad
    else if r.total + res.2.out.length > r.limit then .error .tooLarge
    else if res.2.consumed = 0 && !res.1.done then .error (if wedged then .bad else .wait)
    else .ok { next := res.1, consumed := res.2.consumed, out := res.2.out, done := res.1.done }

def BodyReader.commit (r : BodyReader) (p : Peek) : BodyReader :=
  { r with decoder := p.next, total := r.total + p.out.length, active := r.active && !p.done }

def DISCARD_SCRATCH : Nat := 512

/-- The outcome of a pass: the reader, the bytes still pending and the step. -/
abbrev Discarded := BodyReader × Bytes × BodyStep

def discardLoop (base cap : Nat) : (fuel : Nat) → BodyReader → Bytes → Discarded
  | 0, r, pending => (r, pending, .progress)
  | fuel + 1, r, pending =>
    match peek r pending (decide (base + pending.length ≥ cap)) DISCARD_SCRATCH with
    | .error step => (r, pending, step)
    | .ok p =>
      if p.done then (r.commit p, pending.drop p.consumed, .done)
      else discardLoop base cap fuel (r.commit p) (pending.drop p.consumed)

/-- Read and drop what is pending behind a head of `base` bytes. -/
def discard (base cap : Nat) (r : BodyReader) (pending : Bytes) : Discarded :=
  discardLoop base cap (pending.length + 1) r pending

theorem peek_ok_le {r : BodyReader} {pending : Bytes} {wedged : Bool} {bufLen : Nat} {p : Peek}
    (h : peek r pending wedged bufLen = .ok p) :
    p.consumed ≤ pending.length ∧ (p.done = false → 0 < p.consumed) := by
  unfold peek at h
  generalize (if wedged then BodyStep.bad else BodyStep.wait) = stuck at h
  simp only at h
  split_ifs at h with hact hbad hbig hnone
  injection h with h
  subst h
  refine ⟨decode_consumed_le _ _ _, fun hdone => ?_⟩
  simp only at hdone
  simp only [hdone, Bool.not_false, Bool.and_true, decide_eq_true_eq] at hnone
  exact Nat.pos_of_ne_zero hnone

theorem discardLoop_drop (base cap fuel : Nat) (r : BodyReader) (pending : Bytes) :
    ∃ n, n ≤ pending.length ∧ (discardLoop base cap fuel r pending).2.1 = pending.drop n := by
  induction fuel generalizing r pending with
  | zero => exact ⟨0, Nat.zero_le _, rfl⟩
  | succ fuel ih =>
    rw [discardLoop]
    cases hp : peek r pending (decide (base + pending.length ≥ cap)) DISCARD_SCRATCH with
    | error step => exact ⟨0, Nat.zero_le _, rfl⟩
    | ok p =>
      have hle := (peek_ok_le hp).1
      simp only
      split_ifs
      · exact ⟨p.consumed, hle, rfl⟩
      · obtain ⟨n, hn, heq⟩ := ih (r.commit p) (pending.drop p.consumed)
        rw [length_drop] at hn
        refine ⟨p.consumed + n, by omega, ?_⟩
        rw [heq, drop_drop]

theorem discard_drop (base cap : Nat) (r : BodyReader) (pending : Bytes) :
    ∃ n, n ≤ pending.length ∧ (discard base cap r pending).2.1 = pending.drop n :=
  discardLoop_drop base cap _ r pending

end Wave.Http
