import Wave.Common.S3Chunks
import Wave.Common.S3Names

/-! # The part list of a completion (`common/s3_serve_core.rs`)

A body comes in pieces, cut anywhere; the reader carries a tag, or the text up to a closing tag. -/

namespace Wave.Common

open Lib Lib.Feed

def S3_PARTS_CARRY : Nat := 256

/-- One `<Part>` of a completion request; its ETag is the one listed, quotes dropped. -/
structure S3Part where
  number : Nat
  etag : Bytes

inductive S3Text where
  | none
  | number
  | etag
deriving DecidableEq

inductive S3PartsErr where
  | malformed
  | order
  | tooMany
deriving DecidableEq

structure S3PartsReader where
  carry : Bytes
  text : S3Text
  inPart : Bool
  number : Option Nat
  etag : Bytes
  last : Nat
  count : Nat

def s3Unquote (t quote : Bytes) : Bytes :=
  let t := (List.isPrefixOf? quote t).getD t
  (List.isSuffixOf? quote t).getD t

def partNumberOf (text : Bytes) : Option Nat :=
  text.foldlM (fun n c => if 0x30 ≤ c ∧ c ≤ 0x39 then some (n * 10 + (c - 0x30).toNat) else none) 0

namespace S3PartsReader

def new : S3PartsReader := ⟨[], .none, false, none, [], 0, 0⟩

def closing (s : S3PartsReader) : Bytes := if s.text = .number then ascii "</PartNumber>" else ascii "</ETag>"

/-- The length of the closing tag the carried text ends with, once the whole of it has arrived. -/
def textClosed (s : S3PartsReader) : Option Nat := if s.closing.isSuffixOf s.carry then some s.closing.length else none

/-- The text of a `<PartNumber>` or `<ETag>` element, read whole. -/
def takeText (s : S3PartsReader) (closeLen : Nat) : Except S3PartsErr S3PartsReader :=
  let text := s.carry.take (s.carry.length - closeLen)
  if s.text = .number then
    if text = [] ∨ text.length > 5 then .error .malformed
    else
      match partNumberOf text with
      | none => .error .malformed
      | some n => .ok { s with number := some n }
  else
    let t := s3Unquote (s3Unquote text (ascii "&quot;")) (ascii "\"")
    if t.length > 64 then .error .malformed else .ok { s with etag := t }

inductive Gathered where
  | closed (closeLen : Nat) (s : S3PartsReader) (rest : Bytes)
  | short (s : S3PartsReader)
  | full

def gather (s : S3PartsReader) (input : Bytes) : Gathered :=
  match s.textClosed with
  | some n => .closed n s input
  | none =>
    match input with
    | [] => .short s
    | b :: rest => if s.carry.length = S3_PARTS_CARRY then .full else gather { s with carry := s.carry ++ [b] } rest
termination_by structural input

def onTag (s : S3PartsReader) : Except S3PartsErr (S3PartsReader × List S3Part) :=
  if s.carry = ascii "<PartNumber>" ∨ s.carry = ascii "<ETag>" then
    if !s.inPart then .error .malformed
    else .ok ({ s with text := if s.carry = ascii "<PartNumber>" then .number else .etag }, [])
  else if s.carry = ascii "<Part>" then .ok ({ s with inPart := true, number := none, etag := [] }, [])
  else if s.carry = ascii "</Part>" then
    if !s.inPart then .error .malformed
    else
      match s.number with
      | none => .error .malformed
      | some n =>
        if n = 0 ∨ n > S3_PART_NUMBER_MAX then .error .malformed
        else if n ≤ s.last then .error .order
        else if s.count + 1 > S3_PART_NUMBER_MAX then .error .tooMany
        else .ok ({ s with count := s.count + 1, last := n, inPart := false }, [⟨n, s.etag⟩])
  else .ok (s, [])

def textTurn (s : S3PartsReader) (input : Bytes) : Turn S3PartsReader UInt8 S3Part S3PartsErr :=
  match s.gather input with
  | .short t => .wait [] t
  | .full => .fail [] .malformed
  | .closed closeLen t rest =>
    match t.takeText closeLen with
    | .error e => .fail [] e
    | .ok t => .next [] { t with text := .none, carry := [] } rest

def wholeTag (s : S3PartsReader) (rest : Bytes) : Turn S3PartsReader UInt8 S3Part S3PartsErr :=
  match s.onTag with
  | .error e => .fail [] e
  | .ok (t, parts) => .next parts { t with carry := [] } rest

def tagTurn (s : S3PartsReader) (input : Bytes) : Turn S3PartsReader UInt8 S3Part S3PartsErr :=
  let avail := input.take (S3_PARTS_CARRY - s.carry.length)
  let gt := avail.findIdx? (· = 0x3e)
  let take := (gt.map (· + 1)).getD avail.length
  let t := { s with carry := s.carry ++ avail.take take }
  if gt = none then if t.carry.length = S3_PARTS_CARRY then .fail [] .malformed else .wait [] t
  else wholeTag t (input.drop take)

/-- One turn of the `loop` of `feed`. Text between tags is passed over until a `<` begins one. -/
def turn (s : S3PartsReader) (input : Bytes) : Turn S3PartsReader UInt8 S3Part S3PartsErr :=
  if s.text ≠ .none then s.textTurn input
  else if s.carry = [] then
    match input.findIdx? (· = 0x3c) with
    | none => .wait [] s
    | some i => s.tagTurn (input.drop i)
  else s.tagTurn input

def rank (s : S3PartsReader) : Nat := if s.text = .none then 0 else 1

variable {s t : S3PartsReader} {l m out rest : Bytes} {parts : List S3Part} {n : Nat}

theorem gather_closed (h : s.gather l = .closed n t rest) : rest.length ≤ l.length ∧ t.text = s.text := by
  induction l generalizing s with
  | nil =>
    unfold gather at h
    split at h <;> cases h
    exact ⟨Nat.le_refl _, rfl⟩
  | cons b l ih =>
    unfold gather at h
    split at h
    · cases h
      exact ⟨Nat.le_refl _, rfl⟩
    · dsimp only at h
      split at h
      · cases h
      · obtain ⟨hle, htext⟩ := ih h
        exact ⟨hle.trans (Nat.le_succ _), htext⟩

theorem gather_of_closed (h : s.textClosed = some n) (l : Bytes) : s.gather l = .closed n s l := by
  unfold gather
  rw [h]

theorem gather_nil (h : s.textClosed = none) : s.gather [] = .short s := by
  unfold gather
  rw [h]

theorem gather_cons (h : s.textClosed = none) (b : UInt8) (l : Bytes) :
    s.gather (b :: l) =
      if s.carry.length = S3_PARTS_CARRY then .full else gather { s with carry := s.carry ++ [b] } l := by
  rw [gather, h]

theorem gather_append (s : S3PartsReader) (l m : Bytes) :
    s.gather (l ++ m) =
      match s.gather l with
      | .closed n t rest => .closed n t (rest ++ m)
      | .short t => t.gather m
      | .full => .full := by
  induction l generalizing s with
  | nil =>
    cases hclosed : s.textClosed with
    | some n => rw [gather_of_closed hclosed, gather_of_closed hclosed]
    | none => rw [gather_nil hclosed, nil_append]
  | cons b l ih =>
    cases hclosed : s.textClosed with
    | some n => rw [gather_of_closed hclosed, gather_of_closed hclosed]
    | none =>
      rw [cons_append, gather_cons hclosed, gather_cons hclosed]
      by_cases hfull : s.carry.length = S3_PARTS_CARRY
      · rw [if_pos hfull, if_pos hfull]
      · rw [if_neg hfull, if_neg hfull, ih]

theorem gather_short (h : s.gather l = .short t) (hlen : s.carry.length ≤ S3_PARTS_CARRY) :
    t.text = s.text ∧ t.textClosed = none ∧ t.carry.length ≤ S3_PARTS_CARRY := by
  induction l generalizing s with
  | nil =>
    unfold gather at h
    split at h
    · cases h
    next hclosed =>
      cases h
      exact ⟨rfl, hclosed, hlen⟩
  | cons b l ih =>
    cases hclosed : s.textClosed with
    | some n =>
      rw [gather_of_closed hclosed] at h
      cases h
    | none =>
      rw [gather_cons hclosed] at h
      split at h
      · cases h
      · refine ih (s := { s with carry := s.carry ++ [b] }) h ?_
        rw [length_append, length_singleton]
        omega

theorem tagTurn_end {a : Bytes} (ha : 0x3e ∉ a) (hroom : s.carry.length + a.length < S3_PARTS_CARRY) (rest : Bytes) :
    s.tagTurn (a ++ 0x3e :: rest) = wholeTag { s with carry := s.carry ++ (a ++ [0x3e]) } rest := by
  have hsplit : a ++ 0x3e :: rest = (a ++ [0x3e]) ++ rest := by simp
  have havail : ∃ extra, (a ++ 0x3e :: rest).take (S3_PARTS_CARRY - s.carry.length) = a ++ 0x3e :: extra := by
    refine ⟨rest.take (S3_PARTS_CARRY - s.carry.length - (a.length + 1)), ?_⟩
    rw [hsplit, take_append, take_of_length_le (by rw [length_append, length_singleton]; omega)]
    simp
  obtain ⟨extra, havail⟩ := havail
  unfold tagTurn
  dsimp only
  rw [havail]
  simp only [findIdx?_mark ha, map_some, getD_some, take_mark, drop_mark, reduceCtorEq, if_false]

theorem tagTurn_short (hl : 0x3e ∉ l) (hroom : s.carry.length + l.length < S3_PARTS_CARRY) :
    s.tagTurn l = .wait [] { s with carry := s.carry ++ l } := by
  have hlen : ¬ (s.carry ++ l).length = S3_PARTS_CARRY := by
    rw [length_append]
    omega
  unfold tagTurn
  dsimp only
  rw [take_of_length_le (by omega)]
  simp only [findIdx?_no_mark hl, Option.map_none, Option.getD_none, take_length, if_true, if_neg hlen]

theorem tagTurn_full (hlen : s.carry.length ≤ S3_PARTS_CARRY) (hroom : S3_PARTS_CARRY ≤ s.carry.length + l.length)
    (hl : 0x3e ∉ l.take (S3_PARTS_CARRY - s.carry.length)) : s.tagTurn l = .fail [] .malformed := by
  have hfull : (s.carry ++ l.take (S3_PARTS_CARRY - s.carry.length)).length = S3_PARTS_CARRY := by
    rw [length_append, length_take]
    omega
  unfold tagTurn
  dsimp only
  simp only [findIdx?_no_mark hl, Option.map_none, Option.getD_none, take_length, if_true, if_pos hfull]

theorem tag_cases (room : Nat) (l : Bytes) :
    (∃ a rest, l = a ++ 0x3e :: rest ∧ 0x3e ∉ a ∧ a.length < room) ∨ (0x3e ∉ l ∧ l.length < room) ∨
      (room ≤ l.length ∧ 0x3e ∉ l.take room) := by
  by_cases hmem : 0x3e ∈ l.take room
  · obtain ⟨a, rest, heq, ha⟩ := List.eq_append_cons_of_mem hmem
    refine .inl ⟨a, rest ++ l.drop room, ?_, ha, ?_⟩
    · rw [← cons_append, ← append_assoc, ← heq, take_append_drop]
    · have hlen := congrArg List.length heq
      simp only [length_take, length_append, length_cons] at hlen
      omega
  · by_cases hlen : l.length < room
    · rw [take_of_length_le (Nat.le_of_lt hlen)] at hmem
      exact .inr (.inl ⟨hmem, hlen⟩)
    · exact .inr (.inr ⟨Nat.le_of_not_lt hlen, hmem⟩)

theorem tagTurn_append (hlen : s.carry.length < S3_PARTS_CARRY) (l m : Bytes) :
    match s.tagTurn l with
    | .wait out t => out = [] ∧ t.text = s.text ∧ t.carry = s.carry ++ l ∧ t.carry.length < S3_PARTS_CARRY ∧
        s.tagTurn (l ++ m) = t.tagTurn m
    | .fail out e => s.tagTurn (l ++ m) = .fail out e
    | .next out t rest => s.tagTurn (l ++ m) = .next out t (rest ++ m) := by
  rcases tag_cases (S3_PARTS_CARRY - s.carry.length) l with ⟨a, rest, rfl, ha, hroom⟩ | ⟨hl, hroom⟩ | ⟨hroom, hl⟩
  · rw [append_assoc, cons_append, tagTurn_end ha (by omega), tagTurn_end ha (by omega)]
    unfold wholeTag
    cases onTag { s with carry := s.carry ++ (a ++ [0x3e]) } with
    | error e => rfl
    | ok r => rfl
  · rw [tagTurn_short hl (by omega)]
    have hlen' : (s.carry ++ l).length < S3_PARTS_CARRY := by
      rw [length_append]
      omega
    refine ⟨rfl, rfl, rfl, hlen', ?_⟩
    have hnone : ∀ a : Bytes, 0x3e ∉ a → 0x3e ∉ l ++ a := fun a ha => by
      rw [mem_append]
      exact not_or.mpr ⟨hl, ha⟩
    rcases tag_cases (S3_PARTS_CARRY - (s.carry ++ l).length) m with ⟨a, rest, rfl, ha, hm⟩ | ⟨hm, hfits⟩ | ⟨hfull, hm⟩
    · rw [length_append] at hm
      rw [← append_assoc, tagTurn_end (hnone a ha) (by rw [length_append]; omega),
        tagTurn_end (s := { s with carry := s.carry ++ l }) ha (by dsimp only; rw [length_append]; omega)]
      simp only [append_assoc]
    · rw [length_append] at hfits
      rw [tagTurn_short (hnone m hm) (by rw [length_append]; omega),
        tagTurn_short (s := { s with carry := s.carry ++ l }) hm (by dsimp only; rw [length_append]; omega)]
      simp only [append_assoc]
    · rw [length_append] at hfull hm
      rw [tagTurn_full (Nat.le_of_lt hlen) (by rw [length_append]; omega),
        tagTurn_full (s := { s with carry := s.carry ++ l }) (Nat.le_of_lt hlen')]
      · dsimp only
        rw [length_append]
        omega
      · dsimp only
        rw [length_append]
        exact hm
      · rw [take_append, take_of_length_le (by omega)]
        refine hnone _ ?_
        rw [Nat.sub_sub]
        exact hm
  · rw [tagTurn_full (Nat.le_of_lt hlen) (by omega) hl]
    refine tagTurn_full (Nat.le_of_lt hlen) (by rw [length_append]; omega) ?_
    rw [take_append_of_le_length hroom]
    exact hl

theorem tagTurn_less (h : s.tagTurn l = .next parts t rest) : rest.length < l.length := by
  unfold tagTurn at h
  dsimp only at h
  split at h
  · split at h <;> cases h
  next hgt =>
    cases hfind : (l.take (S3_PARTS_CARRY - s.carry.length)).findIdx? (· = 0x3e) with
    | none => exact absurd hfind hgt
    | some i =>
      rw [hfind] at h
      have hi := (List.findIdx?_eq_some_iff_getElem.mp hfind).1
      rw [length_take] at hi
      unfold wholeTag at h
      split at h
      · cases h
      · cases h
        rw [map_some, getD_some, length_drop]
        omega

theorem turn_less (h : s.turn l = .next parts t rest) :
    rest.length < l.length ∨ (rest.length = l.length ∧ t.rank < s.rank) := by
  unfold turn at h
  split at h
  next htext =>
    unfold textTurn at h
    split at h
    · cases h
    · cases h
    next hgather =>
      split at h
      · cases h
      · cases h
        refine (Nat.lt_or_eq_of_le (gather_closed hgather).1).imp_right fun heq => ⟨heq, ?_⟩
        rw [rank, rank, if_pos rfl, if_neg htext]
        exact Nat.one_pos
  · split at h
    · split at h
      · cases h
      · have hless := tagTurn_less h
        rw [length_drop] at hless
        exact .inl (hless.trans_le (Nat.sub_le _ _))
    · exact .inl (tagTurn_less h)

def loop : Loop S3PartsReader UInt8 S3Part S3PartsErr where
  turn := turn
  rank := rank
  less := turn_less

/-- `feed`: the parts completed, and the reader or the error. -/
def feed (s : S3PartsReader) (input : Bytes) : Fed S3PartsReader S3Part S3PartsErr := loop.feed s input

/-- Between two calls a carry is not full of a tag, and no text in it is closed. -/
structure Live (s : S3PartsReader) : Prop where
  room : s.carry.length ≤ S3_PARTS_CARRY
  tag : s.text = .none → s.carry.length < S3_PARTS_CARRY
  text : s.text ≠ .none → s.textClosed = none

theorem live_new : Live new := ⟨Nat.zero_le _, fun _ => by decide, fun h => absurd rfl h⟩

theorem live_empty (h : s.carry = []) : Live s := by
  refine ⟨by rw [h]; exact Nat.zero_le _, fun _ => by rw [h]; decide, fun _ => ?_⟩
  unfold textClosed closing
  rw [h]
  split <;> rfl

theorem textTurn_next (h : s.textTurn l = .next parts t rest) : t.carry = [] := by
  unfold textTurn at h
  split at h
  · cases h
  · cases h
  · split at h
    · cases h
    · cases h
      rfl

theorem tagTurn_next (h : s.tagTurn l = .next parts t rest) : t.carry = [] := by
  unfold tagTurn at h
  dsimp only at h
  split at h
  · split at h <;> cases h
  · unfold wholeTag at h
    split at h
    · cases h
    · cases h
      rfl

theorem turn_keep (h : s.turn l = .next parts t rest) : Live t := by
  refine live_empty ?_
  unfold turn at h
  split at h
  · exact textTurn_next h
  · split at h
    · split at h
      · cases h
      · exact tagTurn_next h
    · exact tagTurn_next h

theorem tagTurn_stay (htext : s.text = .none) (hlen : s.carry.length < S3_PARTS_CARRY)
    (h : s.tagTurn l = .wait parts t) : Live t := by
  have happend := tagTurn_append hlen l []
  rw [h] at happend
  obtain ⟨-, htext', -, hlen', -⟩ := happend
  exact ⟨Nat.le_of_lt hlen', fun _ => hlen', fun hne => absurd (htext'.trans htext) hne⟩

theorem turn_stay (hs : Live s) (h : s.turn l = .wait parts t) : Live t := by
  unfold turn at h
  split at h
  next htext =>
    unfold textTurn at h
    split at h
    next hgather =>
      cases h
      obtain ⟨htext', hclosed, hroom⟩ := gather_short hgather hs.room
      exact ⟨hroom, fun hnone => absurd (htext'.symm.trans hnone) htext, fun _ => hclosed⟩
    · cases h
    · split at h <;> cases h
  next htext =>
    rw [not_not] at htext
    split at h
    · split at h
      · cases h
        exact hs
      · exact tagTurn_stay htext (hs.tag htext) h
    · exact tagTurn_stay htext (hs.tag htext) h

theorem turn_nil (hs : Live s) : s.turn [] = .wait [] s := by
  unfold turn
  by_cases htext : s.text = .none
  · rw [if_neg (not_not.mpr htext)]
    split
    · rfl
    · rw [tagTurn_short not_mem_nil (hs.tag htext), append_nil]
  · rw [if_pos htext, textTurn, gather_nil (hs.text htext)]

theorem textTurn_append (s : S3PartsReader) (l m : Bytes) (htext : s.text ≠ .none) (hs : Live s) :
    match s.textTurn l with
    | .wait out t => out = [] ∧ t.text ≠ .none ∧ s.textTurn (l ++ m) = t.textTurn m
    | .fail out e => s.textTurn (l ++ m) = .fail out e
    | .next out t rest => s.textTurn (l ++ m) = .next out t (rest ++ m) := by
  unfold textTurn
  rw [gather_append]
  cases hgather : s.gather l with
  | short t => exact ⟨rfl, (gather_short hgather hs.room).1 ▸ htext, rfl⟩
  | full => rfl
  | closed n t rest =>
    dsimp only
    cases t.takeText n with
    | error e => rfl
    | ok u => rfl

theorem turn_append (hs : Live s) (l m : Bytes) :
    match s.turn l with
    | .wait out t => out = [] ∧ s.turn (l ++ m) = t.turn m
    | .fail out e => s.turn (l ++ m) = .fail out e
    | .next out t rest => s.turn (l ++ m) = .next out t (rest ++ m) := by
  by_cases htext : s.text = .none
  · have htag := hs.tag htext
    have hturn : ∀ {u : S3PartsReader} {k : Bytes}, u.text = .none → u.carry ≠ [] → u.turn k = u.tagTurn k := by
      intro u k hu hcarry
      rw [turn, if_neg (not_not.mpr hu), if_neg hcarry]
    by_cases hcarry : s.carry = []
    · rcases mark_cases 0x3c l with hl | ⟨a, rest, ha, rfl⟩
      · have hwait : s.turn l = .wait [] s := by
          rw [turn, if_neg (not_not.mpr htext), if_pos hcarry, findIdx?_no_mark hl]
        rw [hwait]
        refine ⟨rfl, ?_⟩
        rw [turn, if_neg (not_not.mpr htext), if_pos hcarry, List.findIdx?_append, findIdx?_no_mark hl, Option.none_or,
          turn, if_neg (not_not.mpr htext), if_pos hcarry]
        cases m.findIdx? (· = 0x3c) with
        | none => rfl
        | some i => simp [Nat.add_comm i]
      · have hbegin : ∀ k : Bytes, s.turn (a ++ 0x3c :: k) = s.tagTurn (0x3c :: k) := by
          intro k
          rw [turn, if_neg (not_not.mpr htext), if_pos hcarry, findIdx?_mark ha]
          dsimp only
          rw [drop_left]
        have happend := tagTurn_append htag (0x3c :: rest) m
        rw [hbegin, append_assoc, cons_append, hbegin]
        cases htagged : s.tagTurn (0x3c :: rest) with
        | wait out t =>
          rw [htagged] at happend
          obtain ⟨hout, htext', hcarry', -, hmore⟩ := happend
          refine ⟨hout, hmore.trans (hturn (htext'.trans htext) ?_).symm⟩
          rw [hcarry']
          exact append_ne_nil_of_right_ne_nil _ (cons_ne_nil _ _)
        | fail out e =>
          rw [htagged] at happend
          exact happend
        | next out t left =>
          rw [htagged] at happend
          exact happend
    · have happend := tagTurn_append htag l m
      rw [hturn htext hcarry, hturn htext hcarry]
      cases htagged : s.tagTurn l with
      | wait out t =>
        rw [htagged] at happend
        obtain ⟨hout, htext', hcarry', -, hmore⟩ := happend
        refine ⟨hout, hmore.trans (hturn (htext'.trans htext) ?_).symm⟩
        rw [hcarry']
        exact append_ne_nil_of_left_ne_nil hcarry _
      | fail out e =>
        rw [htagged] at happend
        exact happend
      | next out t left =>
        rw [htagged] at happend
        exact happend
  · have happend := textTurn_append s l m htext hs
    have hturn : ∀ {u : S3PartsReader} {k : Bytes}, u.text ≠ .none → u.turn k = u.textTurn k :=
      fun hu => by rw [turn, if_pos hu]
    rw [hturn htext, hturn htext]
    cases hturned : s.textTurn l with
    | wait out t =>
      rw [hturned] at happend
      exact ⟨happend.1, happend.2.2.trans (hturn happend.2.1).symm⟩
    | fail out e =>
      rw [hturned] at happend
      exact happend
    | next out t left =>
      rw [hturned] at happend
      exact happend

theorem grows : loop.Grows Live where
  keep _ h := turn_keep h
  stay hs h := turn_stay hs h
  empty hs := turn_nil hs
  grow {s} hs l m := by
    have happend := turn_append hs l m
    unfold Loop.GrowsAt
    rw [show loop.turn s l = s.turn l from rfl]
    cases hturned : s.turn l with
    | wait out t =>
      rw [hturned] at happend
      obtain ⟨rfl, hmore⟩ := happend
      exact hmore.trans (Turn.after_nil _).symm
    | fail out e =>
      rw [hturned] at happend
      exact happend
    | next out t rest =>
      rw [hturned] at happend
      exact .inl happend

end S3PartsReader

/-- Both readers read pieces as the whole; a body that is through is a chain of signed chunks, an empty one last. -/
theorem readers_piecewise (sha256 : Sha256) (key : S3ChunkKey) (seed : FixedBytes 64) (pieces : List Bytes) :
    feedAll (S3Chunked.feed sha256 key) (.new seed.1) pieces = (S3Chunked.new seed.1).feed sha256 key pieces.flatten ∧
      feedAll S3PartsReader.feed .new pieces = S3PartsReader.new.feed pieces.flatten ∧
      ∀ body t, feedAll (S3Chunked.feed sha256 key) (.new seed.1) pieces = (body, .ok t) → t.state = .done →
        ∃ chunks last, S3Chunk.Chained sha256 key seed.1 (chunks ++ [last]) ∧
          (∀ c ∈ chunks ++ [last], c.Framed) ∧ (∀ c ∈ chunks, c.data ≠ []) ∧ last.data = [] ∧
          pieces.flatten = (chunks ++ [last]).flatMap S3Chunk.wire ∧ body = (chunks ++ [last]).flatMap (·.data) := by
  have hchunked := (S3Chunked.grows sha256 key).feedAll_eq (s := .new seed.1) trivial pieces
  refine ⟨hchunked, S3PartsReader.grows.feedAll_eq S3PartsReader.live_new pieces, fun body t h hdone => ?_⟩
  exact done_chain (hchunked.symm.trans h) hdone

end Wave.Common
