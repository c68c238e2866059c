import Wave.Http.ReqBody
import Wave.Lib.Intake
import Wave.Lib.Lines

/-! # Request bodies, however they arrive (`http/wire/h1.rs`)

A turn of the decoder, as an `Intake`, takes a data byte or a line that is whole. -/

namespace Wave.Http

open Lib Lib.Intake

variable {out : Bytes} {d' : BodyDecoder}

section ChunkHeader

variable {l m : Bytes} {size digits s k : Nat}

theorem chunkSize_append_none (h : chunkSize l s k = none) (m : Bytes) : chunkSize (l ++ m) s k = none := by
  induction l generalizing s k with
  | nil => cases h
  | cons c l ih =>
    rw [chunkSize] at h
    rw [cons_append, chunkSize]
    cases hc : hexDigit c with
    | none =>
      rw [hc] at h
      cases h
    | some d =>
      rw [hc] at h
      dsimp only at h ⊢
      by_cases hfits : s * 16 + d < 2 ^ 64
      · rw [if_pos hfits] at h ⊢
        exact ih h
      · rw [if_neg hfits]

theorem chunkSize_append (h : chunkSize l s k = some (size, digits)) (hinside : digits < k + l.length) (m : Bytes) :
    chunkSize (l ++ m) s k = some (size, digits) := by
  induction l generalizing s k with
  | nil =>
    cases h
    rw [length_nil] at hinside
    omega
  | cons c l ih =>
    rw [chunkSize] at h
    rw [cons_append, chunkSize]
    cases hc : hexDigit c with
    | none =>
      rw [hc] at h
      exact h
    | some d =>
      rw [hc] at h
      dsimp only at h ⊢
      rw [length_cons] at hinside
      by_cases hfits : s * 16 + d < 2 ^ 64
      · rw [if_pos hfits] at h ⊢
        exact ih h (by omega)
      · rw [if_neg hfits] at h
        cases h

theorem chunkSize_le (h : chunkSize l s k = some (size, digits)) : k ≤ digits ∧ digits ≤ k + l.length := by
  induction l generalizing s k with
  | nil =>
    cases h
    exact ⟨le_rfl, le_rfl⟩
  | cons c l ih =>
    rw [chunkSize] at h
    rw [length_cons]
    cases hc : hexDigit c with
    | none =>
      rw [hc] at h
      cases h
      exact ⟨le_rfl, Nat.le_add_right _ _⟩
    | some d =>
      rw [hc] at h
      dsimp only at h
      split at h
      · have hle := ih h
        omega
      · cases h

theorem takeWhile_append_inside {p : UInt8 → Bool} (h : (l.takeWhile p).length < l.length) (m : Bytes) :
    (l ++ m).takeWhile p = l.takeWhile p := by
  induction l with
  | nil => exact absurd h (Nat.not_lt_zero _)
  | cons c l ih =>
    rw [cons_append, List.takeWhile_cons, List.takeWhile_cons] at *
    split
    next hc =>
      rw [if_pos hc, length_cons, length_cons] at h
      rw [ih (by omega)]
    · rfl

theorem parseChunkHeader_append (h : parseChunkHeader l ≠ .need) (m : Bytes) :
    parseChunkHeader (l ++ m) = parseChunkHeader l := by
  have hline : (l ++ m).take MAX_CHUNK_LINE = l.take MAX_CHUNK_LINE ++ m.take (MAX_CHUNK_LINE - l.length) :=
    take_append
  unfold parseChunkHeader at h ⊢
  dsimp only at h ⊢
  rw [hline]
  have hlength : (l.take MAX_CHUNK_LINE).length = min MAX_CHUNK_LINE l.length := length_take
  generalize l.take MAX_CHUNK_LINE = line at h hlength ⊢
  cases hs : chunkSize line 0 0 with
  | none => rw [chunkSize_append_none hs]
  | some r =>
    obtain ⟨size, digits⟩ := r
    have hdigits := chunkSize_le hs
    rw [hs] at h
    dsimp only at h
    by_cases hzero : digits = 0
    · -- the first byte refuses the header
      rw [if_pos hzero] at h
      have hne : l ≠ [] := by
        rintro rfl
        exact h rfl
      have hpos := length_pos_of_ne_nil hne
      rw [chunkSize_append hs (by unfold MAX_CHUNK_LINE at hlength; omega)]
      dsimp only
      rw [if_pos hzero, if_pos hzero, if_neg hne, if_neg (append_ne_nil_of_left_ne_nil hne _)]
    rw [if_neg hzero] at h
    by_cases hend : digits + ((line.drop digits).takeWhile (· != CR)).length < line.length
    · -- the line ends inside what is there
      rw [chunkSize_append hs (by omega)]
      dsimp only
      rw [if_neg hzero, if_neg hzero, drop_append_of_le_length (by omega),
        takeWhile_append_inside (by rw [length_drop]; omega)]
      generalize digits + ((line.drop digits).takeWhile (· != CR)).length = i at h hend ⊢
      rw [if_neg (by omega)] at h
      rw [if_neg (by rw [length_append]; omega), if_neg (by omega)]
      cases hc : l[i + 1]? with
      | none =>
        rw [hc] at h
        exact absurd rfl h
      | some c =>
        obtain ⟨hlt, -⟩ := List.getElem?_eq_some_iff.mp hc
        rw [List.getElem?_append_left hlt, hc]
    · -- it is longer than a line may be
      have hlong : MAX_CHUNK_LINE < l.length := by
        by_contra hshort
        rw [if_pos (by omega), if_pos (by omega)] at h
        exact h rfl
      rw [Nat.sub_eq_zero_of_le hlong.le, take_zero, append_nil, hs]
      dsimp only
      have hlong' : MAX_CHUNK_LINE < (l ++ m).length := by
        rw [length_append]
        omega
      rw [if_neg hzero, if_neg hzero, if_pos (Nat.not_lt.mp hend), if_neg (Nat.not_le.mpr hlong'),
        if_pos (Nat.not_lt.mp hend), if_neg (Nat.not_le.mpr hlong)]

end ChunkHeader

namespace BodyDecoder

/-- The end of a chunk's data, and of a body of a declared length, is noticed with their last byte. -/
def settle (d : BodyDecoder) : BodyDecoder :=
  if d.state = .data ∧ d.remaining = 0 then
    (if d.chunked then { d with state := .dataEnd } else { d with done := true })
  else d

def turn (d : BodyDecoder) (rest : Bytes) : Turn BodyDecoder UInt8 Unit :=
  if d.done then .wait
  else
    match d.state with
    | .data =>
      match rest with
      | [] => .wait
      | b :: _ => .take 1 [b] (settle { d with remaining := d.remaining - 1 })
    | .size =>
      match parseChunkHeader rest with
      | .need => .wait
      | .bad => .refuse () d
      | .ok size consumed => .take consumed [] { d with remaining := size, state := if size = 0 then .trailer else .data }
    | .dataEnd =>
      if rest.length < 2 then .wait
      else if crlf.isPrefixOf rest then .take 2 [] { d with state := .size }
      else .refuse () d
    | .trailer =>
      match findPat crlf rest with
      | none => .wait
      | some eol => .take (eol + 2) [] { d with done := decide (eol = 0) }

def Live (d : BodyDecoder) : Prop := d.done = false → d.state = .data → d.remaining ≠ 0

theorem live_settle (d : BodyDecoder) : d.settle.Live := by
  unfold settle
  split
  · split
    · exact fun _ => nofun
    · exact nofun
  next hsome => exact fun _ hdata hzero => hsome ⟨hdata, hzero⟩

theorem turn_take {d d' : BodyDecoder} {rest : Bytes} {n : Nat} (h : d.turn rest = .take n out d') :
    (d.state = .data ∧ ∃ b tail, rest = b :: tail ∧ n = 1 ∧ out = [b] ∧ d' = settle { d with remaining := d.remaining - 1 }) ∨
    (∃ size, parseChunkHeader rest = .ok size n ∧ out = [] ∧
      d' = { d with remaining := size, state := if size = 0 then .trailer else .data }) ∨
    (2 ≤ rest.length ∧ n = 2 ∧ out = [] ∧ d' = { d with state := .size }) ∨
    (∃ eol, findPat crlf rest = some eol ∧ n = eol + 2 ∧ out = [] ∧ d'.state = .trailer) := by
  unfold turn at h
  split at h
  · cases h
  split at h
  next hs =>
    split at h <;> cases h
    exact .inl ⟨hs, _, _, rfl, rfl, rfl, rfl⟩
  · split at h <;> cases h
    next hp => exact .inr (.inl ⟨_, hp, rfl, rfl⟩)
  · split at h
    · cases h
    next hlen =>
      split at h <;> cases h
      exact .inr (.inr (.inl ⟨not_lt.mp hlen, rfl, rfl, rfl⟩))
  next hs =>
    split at h <;> cases h
    next hf => exact .inr (.inr (.inr ⟨_, hf, rfl, rfl, hs⟩))

theorem turn_live {d d' : BodyDecoder} {rest : Bytes} {n : Nat} (h : d.turn rest = .take n out d') :
    d'.Live := by
  obtain ⟨-, b, tail, -, -, -, rfl⟩ | ⟨size, -, -, rfl⟩ | ⟨-, -, -, rfl⟩ | ⟨eol, -, -, -, hs⟩ := turn_take h
  · exact live_settle _
  · intro _ hdata hzero
    dsimp only at hdata hzero
    rw [if_pos hzero] at hdata
    cases hdata
  · exact fun _ => (by rintro ⟨⟩)
  · exact fun _ hdata => absurd (hs.symm.trans hdata) (by rintro ⟨⟩)

theorem turn_within {d d' : BodyDecoder} {rest : Bytes} {n : Nat} (h : d.turn rest = .take n out d') :
    0 < n ∧ n ≤ rest.length ∧ out.length ≤ 1 := by
  obtain ⟨-, b, tail, rfl, rfl, rfl, -⟩ | ⟨size, hp, rfl, -⟩ | ⟨htwo, rfl, rfl, -⟩ | ⟨eol, hf, rfl, rfl, -⟩ := turn_take h
  · exact ⟨Nat.one_pos, Nat.succ_le_succ (Nat.zero_le _), le_rfl⟩
  · obtain ⟨hpos, hle⟩ := parseChunkHeader_ok_le hp
    exact ⟨by omega, hle, Nat.zero_le _⟩
  · exact ⟨Nat.two_pos, htwo, Nat.zero_le _⟩
  · exact ⟨Nat.succ_pos _, findPat_le hf, Nat.zero_le _⟩

theorem turn_grow {d : BodyDecoder} {rest : Bytes} (more : Bytes) (h : d.turn rest ≠ .wait) :
    d.turn (rest ++ more) = d.turn rest := by
  unfold turn at h ⊢
  split
  · rfl
  next hdone =>
    rw [if_neg hdone] at h
    cases hs : d.state with
    | data =>
      rw [hs] at h
      cases rest with
      | nil => exact absurd rfl h
      | cons b rest => rfl
    | size =>
      rw [hs] at h
      dsimp only at h ⊢
      rw [parseChunkHeader_append]
      intro hneed
      rw [hneed] at h
      exact h rfl
    | dataEnd =>
      rw [hs] at h
      dsimp only at h ⊢
      obtain _ | ⟨a, _ | ⟨b, rest⟩⟩ := rest
      · exact absurd rfl h
      · exact absurd rfl h
      · rfl
    | trailer =>
      rw [hs] at h
      dsimp only at h ⊢
      cases hf : findPat crlf rest with
      | none =>
        rw [hf] at h
        exact absurd rfl h
      | some eol => rw [findPat_append hf]

end BodyDecoder

def bodyIntake : Intake BodyDecoder UInt8 UInt8 Unit where
  Live := BodyDecoder.Live
  turn := BodyDecoder.turn
  keep _ := BodyDecoder.turn_live
  grow := BodyDecoder.turn_grow
  within := BodyDecoder.turn_within

namespace BodyDecoder

variable {d : BodyDecoder} {rest bytes : Bytes} {room n : Nat}

def call (d : BodyDecoder) (input : Bytes) (room : Nat) : Outcome BodyDecoder UInt8 Unit :=
  let r := d.decode input room
  { state := r.1, taken := r.2.consumed, out := r.2.out, bad := if r.2.bad then some () else none }

theorem call_done (h : d.done = true) (rest : Bytes) (room : Nat) :
    d.call rest room = { state := d, taken := 0, out := [], bad := none } := by
  rw [call, decode, rounds, decodeLoop, if_pos h]
  rfl

theorem call_stop {bad : Bool} (h : d.done = false) (ha : d.advance rest room = .stop d' bad) :
    d.call rest room = { state := d', taken := 0, out := [], bad := if bad then some () else none } := by
  rw [call, decode, rounds, decodeLoop, if_neg (by rw [h]; rintro ⟨⟩), ha]

theorem call_go (h : d.done = false) (ha : d.advance rest room = .go d' n out) :
    d.call rest room = (d'.call (rest.drop n) (room - out.length)).after n out := by
  have hlt := advance_go_rounds ha
  have hone : d.decode rest room = ((d'.decode (rest.drop n) (room - out.length)).1,
      (d'.decode (rest.drop n) (room - out.length)).2.after n out) := by
    rw [decode, decode, decodeLoop_enough le_rfl (Nat.le_succ _), decodeLoop, if_neg (by rw [h]; rintro ⟨⟩), ha]
    dsimp only
    rw [decodeLoop_enough (by omega : d'.rounds (rest.drop n) ≤ d.rounds rest) le_rfl]
  rw [call, hone]
  rfl

theorem call_settle (h : d.done = false) (rest : Bytes) (room : Nat) : d.settle.call rest room = d.call rest room := by
  unfold settle
  split
  next hend =>
    split
    next hchunked =>
      have ha : d.advance rest room = .go { d with state := .dataEnd } 0 [] := by
        rw [advance, hend.1]
        dsimp only
        rw [if_pos hend.2, if_pos hchunked]
      rw [call_go h ha]
      exact (Outcome.after_zero _).symm
    next hlength =>
      have ha : d.advance rest room = .stop { d with done := true } false := by
        rw [advance, hend.1]
        dsimp only
        rw [if_pos hend.2, if_neg hlength]
      rw [call_done rfl, call_stop h ha]
      rfl
  · rfl

theorem rounds_settle (d : BodyDecoder) (rest : Bytes) : d.settle.rounds rest ≤ d.rounds rest := by
  unfold settle
  split
  next hend =>
    split
    · unfold rounds
      dsimp only
      rw [if_neg nofun]
      omega
    · exact le_rfl
  · exact le_rfl

theorem settle_left {left : Nat} (hleft : left ≠ 0) :
    settle { d with remaining := left } = { d with remaining := left } := by
  unfold settle
  exact if_neg fun hend => hleft hend.2

theorem reads_data (rest : Bytes) (h : d.done = false) (hdata : d.state = .data) (hsome : d.remaining ≠ 0) (hn : n ≤ rest.length)
    (hleft : n ≤ d.remaining) :
    Reads bodyIntake d rest n (rest.take n) (settle { d with remaining := d.remaining - n }) := by
  induction n generalizing d rest with
  | zero =>
    rw [Nat.sub_zero, settle_left hsome]
    exact .nil _ _
  | succ n ih =>
    cases rest with
    | nil => exact absurd hn (Nat.not_succ_le_zero _)
    | cons b rest =>
      have hturn : bodyIntake.turn d (b :: rest) = .take 1 [b] (settle { d with remaining := d.remaining - 1 }) := by
        change turn d (b :: rest) = _
        unfold turn
        rw [if_neg (by rw [h]; exact nofun), hdata]
      rw [length_cons] at hn
      have hrest : Reads bodyIntake (settle { d with remaining := d.remaining - 1 }) rest n (rest.take n)
          (settle { d with remaining := d.remaining - 1 - n }) := by
        by_cases hlast : d.remaining - 1 = 0
        · obtain rfl : n = 0 := by omega
          rw [Nat.sub_zero]
          exact .nil _ _
        · rw [settle_left hlast]
          exact ih (d := { d with remaining := d.remaining - 1 }) rest h hdata hlast (by omega) (by dsimp only; omega)
      have hone : Reads bodyIntake d (b :: rest) (1 + n) ([b] ++ rest.take n) _ := .cons hturn hrest
      rw [Nat.add_comm 1 n] at hone
      rw [Nat.add_comm n 1, ← Nat.sub_sub, Nat.add_comm 1 n]
      exact hone

theorem turn_advance (h : d.done = false) (hdata : d.state ≠ .data) (rest : Bytes) (room : Nat) :
    d.turn rest = match d.advance rest room with
      | .stop _ bad => if bad then .refuse () d else .wait
      | .go d' n out => .take n out d' := by
  unfold turn advance
  rw [if_neg (by rw [h]; exact nofun)]
  cases hs : d.state with
  | data => exact absurd hs hdata
  | size =>
    dsimp only
    cases parseChunkHeader rest <;> rfl
  | dataEnd =>
    dsimp only
    split
    · rfl
    · split <;> rfl
  | trailer =>
    dsimp only
    cases findPat crlf rest <;> rfl

theorem advance_stop {bad : Bool} (hdata : d.state ≠ .data) (h : d.advance rest room = .stop d' bad) :
    d' = d := by
  unfold advance at h
  cases hs : d.state with
  | data => exact absurd hs hdata
  | size =>
    rw [hs] at h
    dsimp only at h
    split at h <;> cases h <;> rfl
  | dataEnd =>
    rw [hs] at h
    dsimp only at h
    split at h
    · cases h
      rfl
    · split at h <;> cases h
      rfl
  | trailer =>
    rw [hs] at h
    dsimp only at h
    split at h <;> cases h
    rfl

theorem called (d : BodyDecoder) (rest : Bytes) (room : Nat) (hlive : d.Live) :
    Called bodyIntake d rest room (d.call rest room) := by
  induction hr : d.rounds rest using Nat.strong_induction_on generalizing d rest room with
  | h r ih =>
    subst hr
    by_cases hdone : d.done = true
    · rw [call_done hdone]
      exact ⟨d, .nil _ _, Nat.zero_le _, rfl, Or.inl (if_pos hdone)⟩
    rw [not_eq_true] at hdone
    by_cases hdata : d.state = .data
    · have hsome := hlive hdone hdata
      by_cases hnone : min (min rest.length room) d.remaining = 0
      · -- no input, or no room
        have ha : d.advance rest room = .stop d false := by
          rw [advance, hdata]
          dsimp only
          rw [if_neg hsome, if_pos hnone]
        rw [call_stop hdone ha]
        refine ⟨d, .nil _ _, Nat.zero_le _, rfl, ?_⟩
        change d.turn (rest.drop 0) = _ ∨ ∃ n out u, d.turn (rest.drop 0) = .take n out u ∧ room < 0 + out.length
        unfold turn
        rw [if_neg (by rw [hdone]; exact nofun), hdata]
        cases rest with
        | nil => exact Or.inl rfl
        | cons b rest =>
          rw [length_cons] at hnone
          exact Or.inr ⟨1, [b], _, rfl, by rw [length_singleton]; omega⟩
      · have ha : d.advance rest room = .go { d with remaining := d.remaining - min (min rest.length room) d.remaining }
            (min (min rest.length room) d.remaining) (rest.take (min (min rest.length room) d.remaining)) := by
          rw [advance, hdata]
          dsimp only
          rw [if_neg hsome, if_neg hnone]
        have hlt := advance_go_rounds ha
        have hread := reads_data rest (n := min (min rest.length room) d.remaining) hdone hdata hsome
          (by omega) (by omega)
        rw [call_go hdone ha, ← call_settle (d := { d with remaining := d.remaining - _ }) hdone]
        exact Called.after hread (advance_go_le ha).2
          (ih _ (Nat.lt_of_le_of_lt (rounds_settle _ _) hlt) _ _ _ (live_settle _) rfl)
    · have hturn := turn_advance hdone hdata rest room
      cases ha : d.advance rest room with
      | stop d' bad =>
        obtain rfl := advance_stop hdata ha
        rw [ha] at hturn
        rw [call_stop hdone ha]
        cases bad with
        | true => exact ⟨d', .nil _ _, Nat.zero_le _, hturn⟩
        | false => exact ⟨d', .nil _ _, Nat.zero_le _, rfl, Or.inl hturn⟩
      | go d' n out =>
        rw [ha] at hturn
        have hread : Reads bodyIntake d rest (n + 0) (out ++ []) d' := .cons hturn (.nil _ _)
        rw [Nat.add_zero, append_nil] at hread
        rw [call_go hdone ha]
        exact Called.after hread (advance_go_le ha).2 (ih _ (advance_go_rounds ha) _ _ _ (turn_live hturn) rfl)

end BodyDecoder

def hexNumber (digits : Bytes) : Nat := digits.foldl (fun n c => n * 16 + (hexDigit c).getD 0) 0

/-- A chunk's first line: its size, extensions, and the line end, no longer than such a line may be. -/
def SizeLine (line : Bytes) (size : Nat) : Prop :=
  ∃ digits ext, line = digits ++ ext ++ crlf ∧ line.length ≤ MAX_CHUNK_LINE + 1 ∧
    digits ≠ [] ∧ (∀ c ∈ digits, hexDigit c ≠ none) ∧ hexNumber digits = size ∧ size < 2 ^ 64 ∧
    (∀ c ∈ ext.head?, hexDigit c = none) ∧ CR ∉ ext

/-- A body in chunks: one after another, none of them empty; then the empty one, trailer lines and an empty line. -/
inductive Chunked : (bytes body : Bytes) → Prop
  | last {line : Bytes} (trailer : List Bytes) (hline : SizeLine line 0) (hsome : [] ∉ trailer)
    (hwhole : ∀ t ∈ trailer, Lines.Whole CR LF t) :
    Chunked (line ++ trailer.flatMap (· ++ crlf) ++ crlf) []
  | chunk {line data bytes body : Bytes} (hline : SizeLine line data.length) (hdata : data ≠ [])
    (hrest : Chunked bytes body) : Chunked (line ++ data ++ crlf ++ bytes) (data ++ body)

theorem chunkSize_digits {digits tail : Bytes} {s k : Nat} (hhex : ∀ c ∈ digits, hexDigit c ≠ none)
    (hfits : digits.foldl (fun n c => n * 16 + (hexDigit c).getD 0) s < 2 ^ 64)
    (htail : ∀ c ∈ tail.head?, hexDigit c = none) :
    chunkSize (digits ++ tail) s k =
      some (digits.foldl (fun n c => n * 16 + (hexDigit c).getD 0) s, k + digits.length) := by
  induction digits generalizing s k with
  | nil =>
    cases tail with
    | nil => rfl
    | cons c tail =>
      rw [nil_append, chunkSize, htail c rfl]
      rfl
  | cons c digits ih =>
    have hgrows : ∀ n, n ≤ digits.foldl (fun n c => n * 16 + (hexDigit c).getD 0) n := by
      clear ih hhex hfits
      induction digits with
      | nil => exact fun n => le_rfl
      | cons c digits ih => exact fun n => le_trans (by omega) (ih (n * 16 + (hexDigit c).getD 0))
    obtain ⟨v, hv⟩ := Option.ne_none_iff_exists'.mp (hhex c mem_cons_self)
    rw [foldl_cons, hv, getD_some] at hfits ⊢
    have hfirst := lt_of_le_of_lt (hgrows _) hfits
    rw [cons_append, chunkSize, hv]
    dsimp only
    rw [if_pos hfirst, ih (fun c hc => hhex c (mem_cons_of_mem _ hc)) hfits, length_cons,
      Nat.add_assoc, Nat.add_comm 1]

theorem parseChunkHeader_line {line : Bytes} {size : Nat} (h : SizeLine line size) :
    parseChunkHeader line = .ok size line.length := by
  obtain ⟨digits, ext, rfl, hlength, hne, hhex, hsize, hfits, hext, hcr⟩ := h
  have hlen : (digits ++ ext ++ crlf).length = digits.length + ext.length + 2 := by
    rw [length_append, length_append]
    rfl
  obtain ⟨tail, htail⟩ : ∃ tail, (digits ++ ext ++ crlf).take MAX_CHUNK_LINE = digits ++ (ext ++ CR :: tail) := by
    refine ⟨[LF].take (MAX_CHUNK_LINE - (digits.length + ext.length + 1)), ?_⟩
    rw [show digits ++ ext ++ crlf = (digits ++ ext ++ [CR]) ++ [LF] by simp [crlf],
      take_append, take_of_length_le (by simp; omega)]
    simp [Nat.add_assoc]
  have hfirst : ∀ c ∈ (ext ++ CR :: tail).head?, hexDigit c = none := by
    cases ext with
    | nil =>
      intro c hc
      cases hc
      decide
    | cons x ext => exact hext
  have hdigits : chunkSize (digits ++ (ext ++ CR :: tail)) 0 0 = some (size, digits.length) := by
    rw [chunkSize_digits hhex (by rw [← hexNumber, hsize]; exact hfits) hfirst, ← hexNumber, hsize, Nat.zero_add]
  have hspan : (ext ++ CR :: tail).takeWhile (· != CR) = ext := by
    rw [takeWhile_append_of_pos, takeWhile_cons_of_neg, append_nil]
    · exact fun h => absurd h (by decide)
    · intro c hc
      rw [bne_iff_ne]
      rintro rfl
      exact hcr hc
  have hend : (digits ++ ext ++ crlf)[digits.length + ext.length + 1]? = some LF := by
    rw [List.getElem?_append_right (by rw [length_append]; omega), length_append,
      show digits.length + ext.length + 1 - (digits.length + ext.length) = 1 by omega]
    rfl
  unfold parseChunkHeader
  dsimp only
  rw [htail, hdigits]
  dsimp only
  rw [if_neg (length_pos_of_ne_nil hne).ne', drop_left, hspan,
    if_neg (by simp), hend]
  dsimp only
  rw [if_pos rfl, hlen]

def BodyDecoder.atSize : BodyDecoder := { chunked := true, state := .size, remaining := 0 }

def BodyDecoder.atEnd : BodyDecoder := { chunked := true, state := .trailer, remaining := 0, done := true }

namespace BodyDecoder

theorem took_sizeLine {line : Bytes} {size : Nat} (h : SizeLine line size) :
    Took bodyIntake atSize line [] { atSize with remaining := size, state := if size = 0 then .trailer else .data } := by
  refine Took.one ?_
  change turn atSize line = _
  unfold turn
  rw [if_neg nofun]
  dsimp only [atSize]
  rw [parseChunkHeader_line h]

theorem took_data {d : BodyDecoder} {data : Bytes} (h : d.done = false) (hdata : d.state = .data) (hne : data ≠ [])
    (hleft : d.remaining = data.length) : Took bodyIntake d data data (settle { d with remaining := 0 }) := by
  have hpos := length_pos_of_ne_nil hne
  have hread := reads_data (n := data.length) data h hdata (by omega) le_rfl (by omega)
  rwa [take_length, hleft, Nat.sub_self] at hread

theorem took_trailerLine {d : BodyDecoder} {t : Bytes} (h : d.done = false) (htrailer : d.state = .trailer)
    (hwhole : Lines.Whole CR LF t) :
    Took bodyIntake d (t ++ crlf) [] { d with done := decide (t.length = 0) } := by
  refine Took.one ?_
  change turn d (t ++ crlf) = _
  have hfind : findPat crlf (t ++ crlf) = some t.length := Lines.findPat_whole (by decide) hwhole []
  unfold turn
  rw [if_neg (by rw [h]; exact nofun), htrailer]
  dsimp only
  rw [hfind, length_append]
  rfl

theorem took_trailer {trailer : List Bytes} (hsome : [] ∉ trailer) (hwhole : ∀ t ∈ trailer, Lines.Whole CR LF t) :
    Took bodyIntake { atSize with state := .trailer } (trailer.flatMap (· ++ crlf) ++ crlf) [] atEnd := by
  induction trailer with
  | nil => exact took_trailerLine (t := []) rfl rfl Lines.whole_nil
  | cons t trailer ih =>
    have hline : Took bodyIntake { atSize with state := .trailer } (t ++ crlf) [] { atSize with state := .trailer } := by
      have hne : t.length ≠ 0 := fun hzero => hsome (length_eq_zero_iff.mp hzero ▸ mem_cons_self)
      have htook := took_trailerLine (d := { atSize with state := .trailer }) rfl rfl (hwhole t mem_cons_self)
      rwa [decide_eq_false hne] at htook
    rw [flatMap_cons, append_assoc]
    exact hline.append (ih (fun hin => hsome (mem_cons_of_mem _ hin)) fun t ht => hwhole t (mem_cons_of_mem _ ht))

theorem took_chunked {bytes body : Bytes} (h : Chunked bytes body) : Took bodyIntake atSize bytes body atEnd := by
  induction h with
  | last trailer hline hsome hwhole =>
    rw [append_assoc]
    exact (took_sizeLine hline).append (took_trailer hsome hwhole)
  | @chunk line data bytes body hline hdata hrest ih =>
    have hpos := length_pos_of_ne_nil hdata
    have hsize := took_sizeLine hline
    rw [if_neg (by omega)] at hsize
    have hend : Took bodyIntake { atSize with state := .dataEnd } crlf [] atSize := Took.one rfl
    have hall := ((hsize.append (took_data rfl rfl hdata rfl)).append hend).append ih
    rwa [nil_append, append_nil] at hall

theorem live_of_new {framing : BodyFraming} {d : BodyDecoder} (h : BodyDecoder.new framing = some d) : d.Live := by
  cases framing with
  | none => cases h
  | invalid => cases h
  | chunked =>
    cases h
    exact fun _ => nofun
  | length n =>
    rw [BodyDecoder.new] at h
    split at h
    next hpos =>
      cases h
      exact fun _ _ => hpos.ne'
    · cases h

theorem call_took {d d' : BodyDecoder} {bytes body : Bytes} (hlive : d.Live) (h : Took bodyIntake d bytes body d')
    (hdone : d'.done = true) (rest : Bytes) {room : Nat} (hroom : (bytes ++ rest).length ≤ room) :
    d.call (bytes ++ rest) room = { state := d', taken := bytes.length, out := body, bad := none } := by
  obtain ⟨t, hread, hstop, hverdict⟩ := (called d (bytes ++ rest) room hlive).stops hroom
  have hwait : ∀ l, bodyIntake.turn d' l = .wait := fun l => if_pos hdone
  obtain ⟨htaken, hout, rfl⟩ := hread.unique (h.grow rest) hstop (fun n out v => by rw [hwait]; exact nofun)
  generalize d.call (bytes ++ rest) room = o at htaken hout hverdict
  obtain ⟨state, taken, out, bad⟩ := o
  dsimp only at htaken hout hverdict
  subst htaken hout
  rw [hwait] at hverdict
  cases bad with
  | some e => cases hverdict
  | none =>
    obtain ⟨rfl, -⟩ := hverdict
    rfl

/-- However a body arrives and whatever buffers it goes into, it is decoded as by one call on all of it; the bytes
behind it are left. -/
theorem decode_whole {framing : BodyFraming} {d : BodyDecoder} (hnew : BodyDecoder.new framing = some d) :
    (∀ calls room, Through call (given calls) (drive call d [] calls) → (given calls).length ≤ room →
      drive call d [] calls = d.call (given calls) room) ∧
    (∀ n body rest room, framing = .length n → body.length = n → (body ++ rest).length ≤ room →
      let o := d.call (body ++ rest) room
      o.taken = n ∧ o.out = body ∧ o.bad = none ∧ o.state.done = true) ∧
    (∀ bytes body rest room, framing = .chunked → Chunked bytes body → (bytes ++ rest).length ≤ room →
      let o := d.call (bytes ++ rest) room
      o.taken = bytes.length ∧ o.out = body ∧ o.bad = none ∧ o.state.done = true) := by
  have hlive := live_of_new hnew
  refine ⟨fun calls room hthrough hroom => drive_eq (D := bodyIntake) called hlive hthrough hroom, ?_, ?_⟩
  · rintro n body rest room rfl rfl hroom
    rw [BodyDecoder.new] at hnew
    split at hnew
    next hpos =>
      cases hnew
      have htook := took_data (d := { chunked := false, state := .data, remaining := body.length }) rfl rfl
        (ne_nil_of_length_pos hpos) rfl
      have hcall := call_took hlive htook rfl rest hroom
      dsimp only
      rw [hcall]
      exact ⟨rfl, rfl, rfl, rfl⟩
    · cases hnew
  · rintro bytes body rest room rfl hchunked hroom
    cases hnew
    have hcall := call_took hlive (took_chunked hchunked) rfl rest hroom
    dsimp only [atSize] at hcall ⊢
    rw [hcall]
    exact ⟨rfl, rfl, rfl, rfl⟩

/-- Three bytes with an extension and a trailer line, and a request behind them, in three pieces. -/
theorem decode_whole_three_calls :
    BodyDecoder.new .chunked = some atSize ∧
      (let calls := [(ascii "3;x\r\na", 0), (ascii "bc\r\n0\r", 2), (ascii "\nt: 1\r\n\r\nGET", 9)]
      drive call atSize [] calls = atSize.call (given calls) 32) ∧
      (let o := atSize.call (ascii "3;x\r\nabc\r\n0\r\nt: 1\r\n\r\n" ++ ascii "GET") 32
      o.taken = 21 ∧ o.out = ascii "abc" ∧ o.bad = none ∧ o.state.done = true) := by
  have hzero : SizeLine (ascii "0\r\n") 0 :=
    ⟨ascii "0", [], rfl, by decide, nofun, by decide +kernel, rfl, by decide, nofun, nofun⟩
  have hthree : SizeLine (ascii "3;x\r\n") (ascii "abc").length :=
    ⟨ascii "3", ascii ";x", rfl, by decide, nofun, by decide +kernel, rfl, by decide, by decide +kernel, by decide⟩
  have hlast := Chunked.last [ascii "t: 1"] hzero (by decide) (by decide)
  have hnew : BodyDecoder.new .chunked = some atSize := rfl
  obtain ⟨hcut, -, hexact⟩ := decode_whole hnew
  exact ⟨hnew, hcut _ _ (fun _ => by decide) (by decide), hexact _ _ _ _ rfl (.chunk hthree nofun hlast) (by decide)⟩

end BodyDecoder

end Wave.Http
