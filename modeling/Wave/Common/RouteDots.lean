import Wave.Common.RoutePath
import Mathlib.Data.List.Induction

/-! # Dot segments in place (`common/http_route_key.rs`)

One buffer with two cursors is the output, bytes that were read, and the input: `Follows` says so after every turn. -/

namespace Wave.Common

open Lib Bytes Paths Segments

variable {e : RouteKeyError}

/-- `buf`, with the cursors `r` and `w`. -/
structure DotCursors where
  buf : Bytes
  r : Nat
  w : Nat

/-- `pop_segment`. -/
def popAt (buf : Bytes) : (w : Nat) → Nat
  | 0 => 0
  | w + 1 => if at0 buf w = SLASH_BYTE then w else popAt buf w

/-- `while e < n && buf[e] != b'/' { e += 1 }`. -/
def segmentEnd (buf : Bytes) (n e : Nat) : Nat :=
  if e < n ∧ at0 buf e ≠ SLASH_BYTE then segmentEnd buf n (e + 1) else e
termination_by n - e

/-- One turn of the loop of `remove_dot_segments`. -/
def dotStepAt (n : Nat) (c : DotCursors) : DotCursors :=
  let rest := slice c.buf c.r n
  if (ascii "../").isPrefixOf rest then { c with r := c.r + 3 }
  else if (ascii "./").isPrefixOf rest || (ascii "/./").isPrefixOf rest then { c with r := c.r + 2 }
  else if rest = ascii "/." then { c with buf := c.buf.set (c.r + 1) SLASH_BYTE, r := c.r + 1 }
  else if (ascii "/../").isPrefixOf rest then { c with r := c.r + 3, w := popAt c.buf c.w }
  else if rest = ascii "/.." then
    let buf := c.buf.set (c.r + 2) SLASH_BYTE
    { buf, r := c.r + 2, w := popAt buf c.w }
  else if rest = ascii "." ∨ rest = ascii ".." then { c with r := n }
  else
    let e := segmentEnd c.buf n (if at0 c.buf c.r = SLASH_BYTE then c.r + 1 else c.r)
    { buf := splice c.buf c.w (slice c.buf c.r e), r := e, w := c.w + (e - c.r) }

def dotTurnAt (n : Nat) (c : DotCursors) : DotCursors := if c.r < n then dotStepAt n c else c

/-- A turn takes a byte at least, so `n` of them are enough. -/
def removeDotSegmentsAt (buf : Bytes) (n : Nat) : DotCursors := (dotTurnAt n)^[n] ⟨buf, 0, 0⟩

/-- `norm_path` with the buffer it writes: what is in `dst` after it, and the length it returns. -/
def normPathAt (src dst : Bytes) : Except RouteKeyError (Bytes × Nat) :=
  if MAX_ROUTE_PATH < src.length then .error .oversize
  else if src = [] then .ok (dst.set 0 SLASH_BYTE, 1)
  else (normEscapes src).map fun text =>
    let c := removeDotSegmentsAt (splice dst 0 text) text.length
    if c.w = 0 then (c.buf.set 0 SLASH_BYTE, 1) else (c.buf, c.w)

/-! ### The two buffers -/

/-- "Remove the last segment and its preceding "/" (if any) from the output buffer." -/
def rfcRemoveLast (out : Bytes) : Bytes := [SLASH_BYTE].intercalate (out.splitOn SLASH_BYTE).dropLast

/-- "The first path segment in the input buffer", with the separator it begins with. -/
def rfcFirst : (input : Bytes) → Bytes
  | [] => []
  | b :: rest => b :: rest.takeWhile (· ≠ SLASH_BYTE)

def rfcStep (out input : Bytes) : Bytes × Bytes :=
  if ascii "../" <+: input then (out, input.drop 3)
  else if ascii "./" <+: input then (out, input.drop 2)
  else if ascii "/./" <+: input then (out, ascii "/" ++ input.drop 3)
  else if input = ascii "/." then (out, ascii "/")
  else if ascii "/../" <+: input then (rfcRemoveLast out, ascii "/" ++ input.drop 4)
  else if input = ascii "/.." then (rfcRemoveLast out, ascii "/")
  else if input = ascii "." ∨ input = ascii ".." then (out, [])
  else (out ++ rfcFirst input, input.drop (rfcFirst input).length)

def rfcTurn (s : Bytes × Bytes) : Bytes × Bytes := if s.2 = [] then s else rfcStep s.1 s.2

/-- The output once there is no input left (`rfcTurn_done`). -/
def rfcRemoveDots (text : Bytes) : Bytes := (rfcTurn^[text.length] ([], text)).1

section Rfc

variable {out rest : Bytes}

theorem popSegment_concat (out : Bytes) (b : UInt8) :
    popSegment (out ++ [b]) = if b = SLASH_BYTE then out else popSegment out := by
  unfold popSegment
  rw [List.reverse_append, List.reverse_singleton, singleton_append]
  split
  next hb => rw [hb, dropWhile_cons_of_neg (by simp), drop_one, tail_cons, List.reverse_reverse]
  next hb => rw [List.dropWhile_cons_of_pos (by simpa using hb)]

theorem popSegment_prefix (out : Bytes) : popSegment out <+: out := by
  induction out using List.reverseRecOn with
  | nil => exact prefix_rfl
  | append_singleton out b ih =>
    rw [popSegment_concat]
    split
    · exact prefix_append _ _
    · exact ih.trans (prefix_append _ _)

theorem popSegment_slash (out : Bytes) : (popSegment (SLASH_BYTE :: out)).drop 1 = popSegment out := by
  induction out using List.reverseRecOn with
  | nil => rfl
  | append_singleton out b ih =>
    rw [← cons_append, popSegment_concat, popSegment_concat]
    split
    · rfl
    · exact ih

theorem drop_render (segs : List Bytes) : (render SLASH_BYTE segs).drop 1 = [SLASH_BYTE].intercalate segs := by
  cases segs with
  | nil => rfl
  | cons s segs =>
    rw [render_cons, drop_one, tail_cons]
    induction segs generalizing s with
    | nil => rw [intercalate_singleton, render, flatMap_nil, append_nil]
    | cons t segs ih => rw [List.intercalate_cons_cons, ← ih, render_cons, append_assoc, singleton_append]

theorem rfcRemoveLast_eq (out : Bytes) : rfcRemoveLast out = popSegment out := by
  have hslash : ∀ s ∈ out.splitOn SLASH_BYTE, SLASH_BYTE ∉ s := fun s hs => not_mem_of_mem_splitOn hs
  rw [rfcRemoveLast, ← drop_render, ← popSegment_render hslash, render_splitOn, popSegment_slash]

theorem rfcFirst_eq (rest : Bytes) : rest.take 1 ++ (rest.drop 1).takeWhile (· ≠ SLASH_BYTE) = rfcFirst rest := by
  cases rest <;> rfl

theorem rfcStep_eq (out rest : Bytes) : rfcStep out rest = dotStep out rest := by
  unfold rfcStep dotStep
  simp only [rfcRemoveLast_eq, rfcFirst_eq, isPrefixOf_iff_prefix, or_eq_true]
  by_cases hup : ascii "../" <+: rest
  · rw [if_pos hup, if_pos hup]
  rw [if_neg hup, if_neg hup]
  by_cases hstay : ascii "./" <+: rest
  · rw [if_pos hstay, if_pos (Or.inl hstay)]
  rw [if_neg hstay]
  by_cases hdot : ascii "/./" <+: rest
  · rw [if_pos hdot, if_pos (Or.inr hdot)]
    obtain ⟨more, rfl⟩ := hdot
    rfl
  rw [if_neg hdot, if_neg (not_or.mpr ⟨hstay, hdot⟩)]
  by_cases hlast : rest = ascii "/."
  · rw [if_pos hlast, if_pos hlast]
  rw [if_neg hlast, if_neg hlast]
  by_cases hdots : ascii "/../" <+: rest
  · rw [if_pos hdots, if_pos hdots]
    obtain ⟨more, rfl⟩ := hdots
    rfl
  rw [if_neg hdots, if_neg hdots]

theorem dotLoop_eq (fuel : Nat) (out rest : Bytes) : dotLoop fuel out rest = (rfcTurn^[fuel] (out, rest)).1 := by
  induction fuel generalizing out rest with
  | zero => rfl
  | succ fuel ih =>
    rw [Function.iterate_succ_apply, dotLoop, rfcTurn]
    dsimp only
    split
    next hrest =>
      rw [← ih, hrest]
      exact (dotLoop_nil fuel out).symm
    · rw [ih, rfcStep_eq]

theorem removeDotSegments_rfc (text : Bytes) : removeDotSegments text = rfcRemoveDots text := dotLoop_eq _ _ _

end Rfc

/-! ### One buffer for two -/

/-- The buffer is the output, bytes that were read, the input, and what stands behind it. -/
def Follows (tail : Bytes) (n : Nat) (c : DotCursors) (s : Bytes × Bytes) : Prop :=
  ∃ gap, c.buf = s.1 ++ (gap ++ (s.2 ++ tail)) ∧ c.w = s.1.length ∧ c.r = s.1.length + gap.length ∧ n = c.r + s.2.length

section Follows

variable {tail out rest : Bytes} {n : Nat} {c : DotCursors}

theorem popAt_eq (out more : Bytes) : popAt (out ++ more) out.length = (popSegment out).length := by
  induction out using List.reverseRecOn generalizing more with
  | nil => rfl
  | append_singleton out b ih =>
    have hlast : at0 (out ++ (b :: more)) out.length = b := at0_behind out (b :: more) 0
    rw [length_append, length_singleton, append_assoc, singleton_append, popAt, hlast, popSegment_concat]
    split
    · rfl
    · exact ih _

theorem segmentEnd_eq (front rest tail : Bytes) :
    segmentEnd (front ++ (rest ++ tail)) (front.length + rest.length) front.length =
      front.length + (rest.takeWhile (· ≠ SLASH_BYTE)).length := by
  induction rest generalizing front with
  | nil =>
    rw [segmentEnd, if_neg (by simp)]
    rfl
  | cons b rest ih =>
    have hfirst : at0 (front ++ (b :: rest ++ tail)) front.length = b := at0_behind front (b :: rest ++ tail) 0
    have hmore := ih (front ++ [b])
    rw [append_assoc, length_append, length_singleton, singleton_append] at hmore
    rw [segmentEnd, hfirst, List.takeWhile_cons]
    by_cases hb : b = SLASH_BYTE
    · rw [if_neg (fun h => h.2 hb), if_neg (by simpa using hb)]
      rfl
    · rw [if_pos ⟨by simp, hb⟩, if_pos (by simpa using hb), length_cons, length_cons]
      rw [show front.length + (rest.length + 1) = front.length + 1 + rest.length by omega, cons_append, hmore]
      omega

theorem segmentEnd_first (front tail : Bytes) (hrest : rest ≠ []) :
    segmentEnd (front ++ (rest ++ tail)) (front.length + rest.length)
        (if at0 (front ++ (rest ++ tail)) front.length = SLASH_BYTE then front.length + 1 else front.length) =
      front.length + (rfcFirst rest).length := by
  obtain ⟨b, rest, rfl⟩ := exists_cons_of_ne_nil hrest
  have hfirst : at0 (front ++ (b :: rest ++ tail)) front.length = b := at0_behind front (b :: rest ++ tail) 0
  rw [hfirst, rfcFirst, length_cons]
  split
  · have hmore := segmentEnd_eq (front ++ [b]) rest tail
    rw [append_assoc, length_append, length_singleton, singleton_append] at hmore
    rw [length_cons, show front.length + (rest.length + 1) = front.length + 1 + rest.length by omega,
      cons_append, hmore]
    omega
  next hb =>
    have hmore := segmentEnd_eq front (b :: rest) tail
    rwa [takeWhile_cons_of_pos (by simpa using hb)] at hmore

theorem rfcFirst_prefix (rest : Bytes) : rfcFirst rest <+: rest := by
  cases rest with
  | nil => exact prefix_rfl
  | cons b rest =>
    rw [rfcFirst, List.cons_prefix_cons]
    exact ⟨rfl, takeWhile_prefix _⟩

theorem Follows.end_eq {s : Bytes × Bytes} (h : Follows tail n c s) : n = c.r + s.2.length := by
  obtain ⟨gap, -, -, -, hn⟩ := h
  exact hn

theorem Follows.length_eq {s : Bytes × Bytes} (h : Follows tail n c s) : c.buf.length = n + tail.length := by
  obtain ⟨gap, hbuf, -, hr, hn⟩ := h
  rw [hbuf, length_append, length_append, length_append]
  omega

theorem Follows.segment_end (h : Follows tail n c (out, rest)) (hrest : rest ≠ []) :
    segmentEnd c.buf n (if at0 c.buf c.r = SLASH_BYTE then c.r + 1 else c.r) = c.r + (rfcFirst rest).length := by
  obtain ⟨gap, hbuf, -, hr, hn⟩ := h
  have hfirst := segmentEnd_first (out ++ gap) tail hrest
  rw [length_append, append_assoc, ← hbuf, ← hr, ← hn] at hfirst
  exact hfirst

theorem Follows.slice_eq {taken more : Bytes} (h : Follows tail n c (out, taken ++ more)) :
    slice c.buf c.r (c.r + taken.length) = taken := by
  obtain ⟨gap, hbuf, -, hr, -⟩ := h
  rw [hbuf, hr, ← append_assoc]
  have hmiddle := slice_middle (out ++ gap) taken (more ++ tail)
  rwa [length_append, ← append_assoc taken] at hmiddle

theorem Follows.rest_eq (h : Follows tail n c (out, rest)) : slice c.buf c.r n = rest := by
  have hall := h.end_eq
  rw [← append_nil rest] at h
  rw [hall]
  exact h.slice_eq

theorem Follows.read (taken : Bytes) {more : Bytes} (h : Follows tail n c (out, taken ++ more)) :
    Follows tail n { c with r := c.r + taken.length } (out, more) := by
  obtain ⟨gap, hbuf, hw, hr, hn⟩ := h
  refine ⟨gap ++ taken, ?_, hw, ?_, ?_⟩
  · rw [hbuf, append_assoc, append_assoc]
  · rw [length_append]
    dsimp only at hr ⊢
    omega
  · rw [length_append] at hn
    dsimp only at hn ⊢
    omega

theorem Follows.pop (h : Follows tail n c (out, rest)) : Follows tail n { c with w := popAt c.buf c.w } (popSegment out, rest) := by
  obtain ⟨gap, hbuf, hw, hr, hn⟩ := h
  obtain ⟨last, hlast⟩ := popSegment_prefix out
  refine ⟨last ++ gap, ?_, ?_, ?_, hn⟩
  · dsimp only at hbuf ⊢
    rw [hbuf, append_assoc, ← append_assoc (popSegment out) last, hlast]
  · dsimp only at hbuf hw ⊢
    rw [hbuf, hw, popAt_eq]
  · have hlength := congrArg List.length hlast
    rw [length_append] at hlength ⊢
    dsimp only at hr ⊢
    omega

theorem Follows.replace (front : Bytes) (a b : UInt8) {more : Bytes} (h : Follows tail n c (out, front ++ a :: more)) :
    Follows tail n { c with buf := c.buf.set (c.r + front.length) b } (out, front ++ b :: more) := by
  obtain ⟨gap, hbuf, hw, hr, hn⟩ := h
  refine ⟨gap, ?_, hw, hr, ?_⟩
  · have hplace : c.r + front.length = (out ++ (gap ++ front)).length := by
      rw [length_append, length_append]
      dsimp only at hr
      omega
    have hparts : c.buf = out ++ (gap ++ front) ++ (a :: more ++ tail) := by
      rw [hbuf]
      dsimp only
      simp only [append_assoc]
    dsimp only
    rw [hparts, hplace, cons_append, List.set_append_right _ _ le_rfl, Nat.sub_self, List.set_cons_zero]
    simp only [append_assoc, cons_append]
  · rw [length_append, length_cons] at hn ⊢
    exact hn

theorem Follows.write {seg more : Bytes} (h : Follows tail n c (out, seg ++ more)) :
    Follows tail n ⟨splice c.buf c.w seg, c.r + seg.length, c.w + seg.length⟩ (out ++ seg, more) := by
  obtain ⟨gap, hbuf, hw, hr, hn⟩ := h
  dsimp only at hbuf hw hr hn
  have hread : (gap ++ seg).length = seg.length + ((gap ++ seg).drop seg.length).length := by
    rw [length_drop, length_append]
    omega
  refine ⟨(gap ++ seg).drop seg.length, ?_, ?_, ?_, ?_⟩
  · have hparts : c.buf = out ++ ((gap ++ seg).take seg.length ++ ((gap ++ seg).drop seg.length ++ (more ++ tail))) := by
      rw [← append_assoc (List.take _ _), take_append_drop, hbuf]
      simp only [append_assoc]
    have hlength : seg.length = ((gap ++ seg).take seg.length).length := by
      rw [length_take, length_append]
      omega
    dsimp only
    rw [hparts, hw, splice_middle hlength]
    simp only [append_assoc]
  · rw [length_append, hw]
  · rw [length_append] at hread ⊢
    dsimp only
    omega
  · rw [length_append] at hn
    dsimp only
    omega

theorem Follows.step (h : Follows tail n c (out, rest)) (hrest : rest ≠ []) : Follows tail n (dotStepAt n c) (dotStep out rest) := by
  have hread : ∀ p : Bytes, p <+: rest → Follows tail n { c with r := c.r + p.length } (out, rest.drop p.length) := by
    rintro p ⟨more, rfl⟩
    rw [drop_left]
    exact h.read p
  unfold dotStepAt dotStep
  simp only [h.rest_eq, isPrefixOf_iff_prefix, or_eq_true]
  by_cases hup : ascii "../" <+: rest
  · rw [if_pos hup, if_pos hup]
    exact hread _ hup
  rw [if_neg hup, if_neg hup]
  by_cases hstay : ascii "./" <+: rest ∨ ascii "/./" <+: rest
  · rw [if_pos hstay, if_pos hstay]
    rcases hstay with hdot | ⟨more, rfl⟩
    · exact hread _ hdot
    · exact h.read [SLASH_BYTE, DOT_BYTE]
  rw [if_neg hstay, if_neg hstay]
  by_cases hlast : rest = ascii "/."
  · rw [if_pos hlast, if_pos hlast]
    subst hlast
    exact (h.replace [SLASH_BYTE] DOT_BYTE SLASH_BYTE).read [SLASH_BYTE]
  rw [if_neg hlast, if_neg hlast]
  by_cases hdots : ascii "/../" <+: rest
  · rw [if_pos hdots, if_pos hdots]
    obtain ⟨more, rfl⟩ := hdots
    exact (h.read [SLASH_BYTE, DOT_BYTE, DOT_BYTE]).pop
  rw [if_neg hdots, if_neg hdots]
  by_cases hend : rest = ascii "/.."
  · rw [if_pos hend, if_pos hend]
    subst hend
    exact ((h.replace [SLASH_BYTE, DOT_BYTE] DOT_BYTE SLASH_BYTE).read [SLASH_BYTE, DOT_BYTE]).pop
  rw [if_neg hend, if_neg hend]
  by_cases honly : rest = ascii "." ∨ rest = ascii ".."
  · rw [if_pos honly, if_pos honly]
    have hall := h.end_eq
    rw [← append_nil rest] at h
    have hread := h.read rest
    rwa [← hall] at hread
  rw [if_neg honly, if_neg honly, rfcFirst_eq]
  have hlength := h.segment_end hrest
  obtain ⟨more, hmore⟩ := rfcFirst_prefix rest
  have hleft : rest.drop (rfcFirst rest).length = more := by
    have hdrop : (rfcFirst rest ++ more).drop (rfcFirst rest).length = more := drop_left
    rwa [hmore] at hdrop
  rw [hlength, hleft]
  rw [← hmore] at h
  rw [h.slice_eq, Nat.add_sub_cancel_left]
  exact h.write

theorem Follows.turn {s : Bytes × Bytes} (h : Follows tail n c s) : Follows tail n (dotTurnAt n c) (rfcTurn s) := by
  have hall := h.end_eq
  unfold dotTurnAt rfcTurn
  by_cases hrest : s.2 = []
  · rw [hrest, length_nil, Nat.add_zero] at hall
    rwa [if_neg (by omega), if_pos hrest]
  · have hpos := length_pos_of_ne_nil hrest
    rw [if_pos (by omega), if_neg hrest, rfcStep_eq]
    exact h.step hrest

theorem Follows.turns {s : Bytes × Bytes} (h : Follows tail n c s) (k : Nat) :
    Follows tail n ((dotTurnAt n)^[k] c) (rfcTurn^[k] s) := by
  induction k with
  | zero => exact h
  | succ k ih =>
    rw [Function.iterate_succ_apply', Function.iterate_succ_apply']
    exact ih.turn

theorem follows_start (text tail : Bytes) : Follows tail text.length ⟨text ++ tail, 0, 0⟩ ([], text) :=
  ⟨[], rfl, rfl, rfl, (Nat.zero_add _).symm⟩

theorem dotStep_shorter (out : Bytes) (hrest : rest ≠ []) : (dotStep out rest).2.length < rest.length := by
  have hpos := length_pos_of_ne_nil hrest
  unfold dotStep
  split
  · rw [length_drop]
    omega
  split
  · rw [length_drop]
    omega
  split
  next hlast =>
    rw [hlast]
    exact (by decide : (ascii "/").length < (ascii "/.").length)
  split
  · rw [length_drop]
    omega
  split
  next hlast =>
    rw [hlast]
    exact (by decide : (ascii "/").length < (ascii "/..").length)
  split
  · exact hpos
  · rw [length_drop, rfcFirst_eq]
    obtain ⟨b, rest, rfl⟩ := exists_cons_of_ne_nil hrest
    rw [rfcFirst, length_cons, length_cons]
    omega

theorem rfcTurns_shorter (k : Nat) (s : Bytes × Bytes) : (rfcTurn^[k] s).2.length ≤ s.2.length - k := by
  induction k with
  | zero => exact le_rfl
  | succ k ih =>
    rw [Function.iterate_succ_apply']
    generalize rfcTurn^[k] s = t at ih ⊢
    unfold rfcTurn
    split
    next hrest =>
      rw [hrest]
      exact Nat.zero_le _
    next hrest =>
      have hless := dotStep_shorter t.1 hrest
      rw [rfcStep_eq]
      omega

theorem rfcTurn_done (text : Bytes) : (rfcTurn^[text.length] ([], text)).2 = [] := by
  have hle := rfcTurns_shorter text.length ([], text)
  dsimp only at hle
  rw [Nat.sub_self] at hle
  exact eq_nil_of_length_eq_zero (Nat.le_zero.mp hle)

theorem removeDotSegmentsAt_eq (text tail : Bytes) :
    (removeDotSegmentsAt (text ++ tail) text.length).r = text.length ∧
      (removeDotSegmentsAt (text ++ tail) text.length).w = (rfcRemoveDots text).length ∧
      (removeDotSegmentsAt (text ++ tail) text.length).buf.length = text.length + tail.length ∧
      rfcRemoveDots text <+: (removeDotSegmentsAt (text ++ tail) text.length).buf := by
  have hall := (follows_start text tail).turns text.length
  have hend := hall.end_eq
  have hlength := hall.length_eq
  obtain ⟨gap, hbuf, hw, -, -⟩ := hall
  rw [rfcTurn_done, length_nil, Nat.add_zero] at hend
  exact ⟨hend.symm, hw, hlength, ⟨_, hbuf.symm⟩⟩

end Follows

/-! ### Escapes, one by one -/

inductive PathToken
  | plain (b : UInt8) (hb : b ≠ PERCENT_BYTE ∧ b < 0x80 ∧ pcharOk b = true)
  | escape (h l v : UInt8) (hv : unescape h l = some v)

namespace PathToken

def raw : PathToken → Bytes
  | plain b _ => [b]
  | escape h l _ _ => [PERCENT_BYTE, h, l]

def written : PathToken → Bytes
  | plain b _ => [b]
  | escape h l v _ => if unreserved v then [v] else [PERCENT_BYTE, toAsciiUppercase h, toAsciiUppercase l]

end PathToken

inductive BrokenPath : Bytes → RouteKeyError → Prop
  | escape {rest : Bytes} (h : ∀ x y more, rest = x :: y :: more → unescape x y = none) :
    BrokenPath (PERCENT_BYTE :: rest) .badPath
  | nonAscii {b : UInt8} {rest : Bytes} (h : 0x80 ≤ b) : BrokenPath (b :: rest) .nonAscii
  | byte {b : UInt8} {rest : Bytes} (hascii : b < 0x80) (hb : pcharOk b = false) (hpercent : b ≠ PERCENT_BYTE) :
    BrokenPath (b :: rest) .badPath

section Tokens

variable {src text : Bytes} {toks : List PathToken}

theorem normEscapes_token (t : PathToken) (more : Bytes) :
    normEscapes (t.raw ++ more) = (normEscapes more).map (t.written ++ ·) := by
  cases t with
  | plain b hb =>
    obtain ⟨hpercent, hascii, hpchar⟩ := hb
    rw [normEscapes.eq_def]
    dsimp only [PathToken.raw, singleton_append]
    rw [if_neg hpercent, if_neg (UInt8.not_le.mpr hascii), if_pos hpchar]
    rfl
  | escape h l v hv =>
    rw [normEscapes.eq_def]
    dsimp only [PathToken.raw, PathToken.written, cons_append, nil_append]
    rw [if_pos rfl, hv]
    dsimp only
    by_cases hplain : unreserved v = true
    · rw [if_pos hplain, if_pos hplain]
      rfl
    · rw [if_neg hplain, if_neg hplain]
      rfl

theorem normEscapes_tokens (toks : List PathToken) (more : Bytes) :
    normEscapes (toks.flatMap PathToken.raw ++ more) = (normEscapes more).map (toks.flatMap PathToken.written ++ ·) := by
  induction toks with
  | nil =>
    rw [flatMap_nil, nil_append]
    cases normEscapes more <;> rfl
  | cons t toks ih =>
    rw [flatMap_cons, flatMap_cons, append_assoc, normEscapes_token, ih]
    cases normEscapes more with
    | error e => rfl
    | ok text => exact congrArg Except.ok (append_assoc _ _ _).symm

theorem BrokenPath.refused {bad : Bytes} (h : BrokenPath bad e) : normEscapes bad = .error e := by
  rw [normEscapes.eq_def]
  cases h with
  | @escape rest h =>
    dsimp only
    rw [if_pos rfl]
    rcases rest with _ | ⟨x, _ | ⟨y, more⟩⟩
    · rfl
    · rfl
    · dsimp only
      rw [h x y more rfl]
  | @nonAscii b rest h =>
    dsimp only
    rw [if_neg (by rintro rfl; exact absurd h (by decide)), if_pos h]
  | @byte b rest hascii hb hpercent =>
    dsimp only
    rw [if_neg hpercent, if_neg (UInt8.not_le.mpr hascii), if_neg (by rw [hb]; exact false_ne_true)]

theorem tokens_or_broken (src : Bytes) :
    ∃ (toks : List PathToken) (bad : Bytes), src = toks.flatMap PathToken.raw ++ bad ∧ (bad = [] ∨ ∃ e, BrokenPath bad e) := by
  have hcons : ∀ (t : PathToken) {rest : Bytes},
      (∃ (toks : List PathToken) (bad : Bytes), rest = toks.flatMap PathToken.raw ++ bad ∧ (bad = [] ∨ ∃ e, BrokenPath bad e)) →
      ∃ (toks : List PathToken) (bad : Bytes),
        t.raw ++ rest = toks.flatMap PathToken.raw ++ bad ∧ (bad = [] ∨ ∃ e, BrokenPath bad e) := by
    rintro t rest ⟨toks, bad, rfl, hbad⟩
    exact ⟨t :: toks, bad, by rw [flatMap_cons, append_assoc], hbad⟩
  fun_induction normEscapes src with
  | case1 => exact ⟨[], [], rfl, Or.inl rfl⟩
  | case2 h l rest v hv _ ih => exact hcons (.escape h l v hv) ih
  | case3 h l rest v hv _ ih => exact hcons (.escape h l v hv) ih
  | case4 h l rest hv =>
    refine ⟨[], _, rfl, Or.inr ⟨_, .escape fun x y more heq => ?_⟩⟩
    cases heq
    exact hv
  | case5 rest hshort =>
    refine ⟨[], _, rfl, Or.inr ⟨_, .escape fun x y more heq => ?_⟩⟩
    exact absurd heq (hshort x y more)
  | case6 b rest _ hb => exact ⟨[], _, rfl, Or.inr ⟨_, .nonAscii hb⟩⟩
  | case7 b rest hpercent hascii hb ih => exact hcons (.plain b ⟨hpercent, UInt8.not_le.mp hascii, hb⟩) ih
  | case8 b rest hpercent hascii hb =>
    exact ⟨[], _, rfl, Or.inr ⟨_, .byte (UInt8.not_le.mp hascii) (not_eq_true _ ▸ hb) hpercent⟩⟩

theorem normEscapes_ok_iff :
    normEscapes src = .ok text ↔
      ∃ toks : List PathToken, src = toks.flatMap PathToken.raw ∧ text = toks.flatMap PathToken.written := by
  constructor
  · intro h
    obtain ⟨toks, bad, rfl, rfl | ⟨e, hbad⟩⟩ := tokens_or_broken src
    · rw [normEscapes_tokens] at h
      obtain ⟨rest, hrest, rfl⟩ := ok_of_map h
      obtain rfl : [] = rest := Except.ok.inj hrest
      exact ⟨toks, append_nil _, append_nil _⟩
    · rw [normEscapes_tokens, hbad.refused] at h
      cases h
  · rintro ⟨toks, rfl, rfl⟩
    have h := normEscapes_tokens toks []
    rw [append_nil] at h
    rw [h]
    exact congrArg Except.ok (append_nil _)

theorem normEscapes_error_iff :
    normEscapes src = .error e ↔
      ∃ (toks : List PathToken) (bad : Bytes), src = toks.flatMap PathToken.raw ++ bad ∧ BrokenPath bad e := by
  constructor
  · intro h
    obtain ⟨toks, bad, rfl, rfl | ⟨e', hbad⟩⟩ := tokens_or_broken src
    · rw [normEscapes_tokens] at h
      cases h
    · refine ⟨toks, bad, rfl, ?_⟩
      rw [normEscapes_tokens, hbad.refused] at h
      obtain rfl : e' = e := Except.error.inj h
      exact hbad
  · rintro ⟨toks, bad, rfl, hbad⟩
    rw [normEscapes_tokens, hbad.refused]
    rfl

end Tokens

/-! ### The path a key gets -/

section Route

variable {src dst : Bytes}

def orRoot (path : Bytes) : Bytes := if path = [] then [SLASH_BYTE] else path

theorem normPathAt_eq (hdst : dst.length = MAX_ROUTE_PATH) (src : Bytes) :
    (normPathAt src dst).map (fun out => (out.1.take out.2, out.2)) = (normPath src).map fun path => (path, path.length) := by
  have hroot : ∀ buf : Bytes, buf.length = MAX_ROUTE_PATH → (buf.set 0 SLASH_BYTE).take 1 = [SLASH_BYTE] := by
    intro buf hbuf
    obtain ⟨b, buf, rfl⟩ := List.exists_cons_of_length_pos (hbuf ▸ (by decide : 0 < MAX_ROUTE_PATH))
    rfl
  unfold normPathAt normPath
  by_cases hlong : MAX_ROUTE_PATH < src.length
  · rw [if_pos hlong, if_pos hlong]
    rfl
  rw [if_neg hlong, if_neg hlong]
  by_cases hempty : src = []
  · rw [if_pos hempty, if_pos hempty]
    exact congrArg (fun path => Except.ok (path, 1)) (hroot dst hdst)
  rw [if_neg hempty, if_neg hempty]
  cases htext : normEscapes src with
  | error e => rfl
  | ok text =>
    refine congrArg Except.ok ?_
    dsimp only
    have hfits : text.length ≤ MAX_ROUTE_PATH := (normEscapes_normal htext).2.trans (not_lt.mp hlong)
    have hstart : splice dst 0 text = text ++ dst.drop text.length := by
      rw [splice, take_zero, nil_append, Nat.zero_add]
    obtain ⟨-, hw, hlength, hprefix⟩ := removeDotSegmentsAt_eq text (dst.drop text.length)
    rw [hstart, removeDotSegments_rfc]
    obtain ⟨more, hmore⟩ := hprefix
    generalize removeDotSegmentsAt (text ++ dst.drop text.length) text.length = c at hw hlength hmore ⊢
    rw [length_drop, hdst] at hlength
    rw [hw]
    by_cases hnone : rfcRemoveDots text = []
    · rw [hnone, length_nil, if_pos rfl, if_pos rfl]
      dsimp only
      rw [hroot c.buf (by omega)]
      rfl
    · have hpos := length_pos_of_ne_nil hnone
      rw [if_neg (by omega), if_neg hnone, ← hmore]
      dsimp only
      rw [take_left]

theorem normPathAt_ok {buf : Bytes} {n : Nat} (hdst : dst.length = MAX_ROUTE_PATH) (h : normPathAt src dst = .ok (buf, n)) :
    normPath src = .ok (buf.take n) ∧ (buf.take n).length = n := by
  have hsame := normPathAt_eq hdst src
  rw [h] at hsame
  obtain ⟨path, hpath, heq⟩ := ok_of_map hsame.symm
  obtain ⟨rfl, hlength⟩ := Prod.mk.inj heq
  exact ⟨hpath, hlength⟩

theorem normPathAt_of_ok {path : Bytes} (hdst : dst.length = MAX_ROUTE_PATH) (h : normPath src = .ok path) :
    ∃ buf, normPathAt src dst = .ok (buf, path.length) ∧ buf.take path.length = path := by
  have hsame := normPathAt_eq hdst src
  rw [h] at hsame
  obtain ⟨⟨buf, n⟩, hat, heq⟩ := ok_of_map hsame
  obtain ⟨hpath, rfl⟩ := Prod.mk.inj heq
  exact ⟨buf, hat, hpath⟩

theorem normPathAt_error_iff (hdst : dst.length = MAX_ROUTE_PATH) :
    normPathAt src dst = .error e ↔ normPath src = .error e := by
  have hsame := normPathAt_eq hdst src
  cases hat : normPathAt src dst with
  | error e' =>
    rw [hat] at hsame
    cases hpath : normPath src with
    | error e'' =>
      rw [hpath] at hsame
      have heq : e' = e'' := Except.error.inj hsame
      rw [heq]
      exact ⟨fun h => congrArg Except.error (Except.error.inj h), fun h => congrArg Except.error (Except.error.inj h)⟩
    | ok path =>
      rw [hpath] at hsame
      cases hsame
  | ok out =>
    rw [(normPathAt_ok hdst hat).1]
    exact ⟨nofun, nofun⟩

theorem resolved_no_dots {s : Bytes} (text : Bytes) (hs : s ∈ (render SLASH_BYTE (resolved text)).splitOn SLASH_BYTE) :
    s ≠ [DOT_BYTE] ∧ s ≠ [DOT_BYTE, DOT_BYTE] := by
  have hslash : ∀ t ∈ resolved text, SLASH_BYTE ∉ t := fun t ht => slash_of_mem_resolved ht
  have hsplit := splitOn_render not_mem_nil hslash
  rw [nil_append] at hsplit
  rw [hsplit] at hs
  rcases mem_cons.mp hs with rfl | hs
  · exact ⟨nofun, nofun⟩
  · rcases mem_resolve hs with hs | rfl | ⟨-, hkind⟩
    · cases hs
    · exact ⟨nofun, nofun⟩
    · constructor
      · rintro rfl
        cases hkind
      · rintro rfl
        cases hkind

/-- `norm_path` refuses just the broken paths, and makes of another what RFC 3986 makes of it: without dot segments,
and its own canonical form. -/
theorem normPathAt_rfc (hlength : src.length ≤ MAX_ROUTE_PATH) (hsrc : src = [] ∨ src.head? = some SLASH_BYTE)
    (hdst : dst.length = MAX_ROUTE_PATH) :
    (∀ e, normPathAt src dst = .error e ↔
      ∃ (toks : List PathToken) (bad : Bytes), src = toks.flatMap PathToken.raw ++ bad ∧ BrokenPath bad e) ∧
      ∀ buf n, normPathAt src dst = .ok (buf, n) →
        ∃ toks : List PathToken, src = toks.flatMap PathToken.raw ∧
          let text := toks.flatMap PathToken.written
          let path := buf.take n
          path = orRoot (rfcRemoveDots text) ∧ (rfcTurn^[text.length] ([], text)).2 = [] ∧ path.length = n ∧
            (n ≤ src.length ∨ src = [] ∧ n = 1) ∧
            (∀ s ∈ path.splitOn SLASH_BYTE, s ≠ [DOT_BYTE] ∧ s ≠ [DOT_BYTE, DOT_BYTE]) ∧
            (∀ other : Bytes, other.length = MAX_ROUTE_PATH →
              ∃ buf', normPathAt path other = .ok (buf', n) ∧ buf'.take n = path) ∧
            ∀ k, Follows (dst.drop text.length) text.length ((dotTurnAt text.length)^[k] ⟨splice dst 0 text, 0, 0⟩)
              (rfcTurn^[k] ([], text)) := by
  constructor
  · intro e
    rw [normPathAt_error_iff hdst, ← normEscapes_error_iff, normPath, if_neg (not_lt.mpr hlength)]
    by_cases hempty : src = []
    · rw [if_pos hempty, hempty, normEscapes]
      exact ⟨nofun, nofun⟩
    · rw [if_neg hempty]
      cases normEscapes src with
      | error e' => exact ⟨fun h => congrArg Except.error (Except.error.inj h), fun h => congrArg Except.error (Except.error.inj h)⟩
      | ok text => exact ⟨nofun, nofun⟩
  · intro buf n h
    obtain ⟨hpath, hn⟩ := normPathAt_ok hdst h
    obtain ⟨text, htext, hrender⟩ := normPath_resolved hsrc hpath
    obtain ⟨toks, htoks, rfl⟩ := normEscapes_ok_iff.mp htext
    refine ⟨toks, htoks, ?_⟩
    generalize toks.flatMap PathToken.written = text at htext hrender ⊢
    obtain ⟨hagain, -, -, -⟩ := normPath_fixed hsrc hpath
    refine ⟨?_, rfcTurn_done text, hn, ?_, ?_, ?_, fun k => ?_⟩
    · rw [← removeDotSegments_rfc]
      rw [normPath, if_neg (not_lt.mpr hlength)] at hpath
      split at hpath
      next hempty =>
        subst hempty
        cases htext
        exact (Except.ok.inj hpath).symm
      · rw [htext] at hpath
        exact (Except.ok.inj hpath).symm
    · rcases hsrc with rfl | hslash
      · cases htext
        refine Or.inr ⟨rfl, ?_⟩
        rw [← hn, hrender]
        rfl
      · left
        rw [← hn, hrender]
        exact (render_resolved_length (head_normEscapes htext hslash)).trans (normEscapes_normal htext).2
    · intro s hs
      rw [hrender] at hs
      exact resolved_no_dots text hs
    · intro other hother
      have hwritten := normPathAt_of_ok hother hagain
      rwa [hn] at hwritten
    · have hstart : splice dst 0 text = text ++ dst.drop text.length := by
        rw [splice, take_zero, nil_append, Nat.zero_add]
      rw [hstart]
      exact (follows_start text (dst.drop text.length)).turns k

theorem normPathAt_rfc_climb :
    ∃ buf, normPathAt (ascii "/a/b/%2E%2e/c%2f") (List.replicate MAX_ROUTE_PATH 0) = .ok (buf, 7) ∧
      buf.take 7 = ascii "/a/c%2F" ∧ 7 ≤ (ascii "/a/b/%2E%2e/c%2f").length := by
  have hdst : (List.replicate MAX_ROUTE_PATH (0 : UInt8)).length = MAX_ROUTE_PATH := length_replicate
  have hpath : normPath (ascii "/a/b/%2E%2e/c%2f") = .ok (ascii "/a/c%2F") := by decide +kernel
  obtain ⟨buf, hat, htake⟩ := normPathAt_of_ok hdst hpath
  have hfits : (ascii "/a/b/%2E%2e/c%2f").length ≤ MAX_ROUTE_PATH := by decide
  obtain ⟨-, hok⟩ := normPathAt_rfc hfits (Or.inr (by decide)) hdst
  obtain ⟨toks, -, -, -, -, hshort, -⟩ := hok _ _ hat
  refine ⟨buf, hat, htake, hshort.resolve_right ?_⟩
  rintro ⟨h, -⟩
  cases h

/-- The root is longer than the empty path. -/
theorem normPathAt_root_longer :
    ¬∀ (src dst buf : Bytes) (n : Nat), dst.length = MAX_ROUTE_PATH → src.length ≤ MAX_ROUTE_PATH →
      (src = [] ∨ src.head? = some SLASH_BYTE) → normPathAt src dst = .ok (buf, n) → n ≤ src.length := by
  intro h
  obtain ⟨buf, hat, -⟩ := normPathAt_of_ok (length_replicate (n := MAX_ROUTE_PATH) (a := (0 : UInt8)))
    (by decide +kernel : normPath [] = .ok [SLASH_BYTE])
  exact absurd (h [] _ buf 1 length_replicate (by decide) (Or.inl rfl) hat) (by decide)

end Route

end Wave.Common
