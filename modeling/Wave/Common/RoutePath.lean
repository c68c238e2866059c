import Wave.Common.RouteKey
import Wave.Lib.Segments

/-! # Route paths (`common/http_route_key.rs`)

What `norm_path` yields is a fixed point of it (`normPath_fixed`). -/

namespace Wave.Common

open Lib Paths Segments

def MAX_ROUTE_PATH : Nat := 2048

def SLASH_BYTE : UInt8 := 0x2F
def DOT_BYTE : UInt8 := 0x2E
def PERCENT_BYTE : UInt8 := 0x25

def unreserved (b : UInt8) : Bool :=
  isAlphaByte b || isDigitByte b || b = 0x2D || b = DOT_BYTE || b = 0x5F || b = 0x7E

def pcharOk (b : UInt8) : Bool := unreserved b || (ascii "!$&'()*+,;=:@/").contains b

def toAsciiUppercase (b : UInt8) : UInt8 := if 0x61 ≤ b && b ≤ 0x7A then b - 0x20 else b

/-- The loop of `norm_path`. -/
def normEscapes : Bytes → Except RouteKeyError Bytes
  | [] => .ok []
  | b :: rest =>
    if b = PERCENT_BYTE then
      match rest with
      | h :: l :: rest =>
        match unescape h l with
        | some v =>
          if unreserved v then (normEscapes rest).map (v :: ·)
          else (normEscapes rest).map (PERCENT_BYTE :: toAsciiUppercase h :: toAsciiUppercase l :: ·)
        | none => .error .badPath
      | _ => .error .badPath
    else if 0x80 ≤ b then .error .nonAscii
    else if pcharOk b then (normEscapes rest).map (b :: ·)
    else .error .badPath

def popSegment (out : Bytes) : Bytes := ((out.reverse.dropWhile (· ≠ SLASH_BYTE)).drop 1).reverse

/-- One step of `remove_dot_segments`: what is written, and what is left to read. The code writes over what it has read. -/
def dotStep (out rest : Bytes) : Bytes × Bytes :=
  if (ascii "../").isPrefixOf rest then (out, rest.drop 3)
  else if (ascii "./").isPrefixOf rest || (ascii "/./").isPrefixOf rest then (out, rest.drop 2)
  else if rest = ascii "/." then (out, ascii "/")
  else if (ascii "/../").isPrefixOf rest then (popSegment out, rest.drop 3)
  else if rest = ascii "/.." then (popSegment out, ascii "/")
  else if rest = ascii "." ∨ rest = ascii ".." then (out, [])
  else
    let e := rest.take 1 ++ (rest.drop 1).takeWhile (· ≠ SLASH_BYTE)
    (out ++ e, rest.drop e.length)

def dotLoop : (fuel : Nat) → (out rest : Bytes) → Bytes
  | 0, out, _ => out
  | fuel + 1, out, rest => if rest = [] then out else dotLoop fuel (dotStep out rest).1 (dotStep out rest).2

/-- A step takes a byte at least, so the length of the path is enough of them. -/
def removeDotSegments (path : Bytes) : Bytes := dotLoop path.length [] path

def normPath (src : Bytes) : Except RouteKeyError Bytes :=
  if MAX_ROUTE_PATH < src.length then .error .oversize
  else if src = [] then .ok [SLASH_BYTE]
  else (normEscapes src).map fun text =>
    let path := removeDotSegments text
    if path = [] then [SLASH_BYTE] else path

inductive Normal : Bytes → Prop
  | nil : Normal []
  | plain {b : UInt8} {rest : Bytes} (hb : b ≠ PERCENT_BYTE ∧ b < 0x80 ∧ pcharOk b = true) (hrest : Normal rest) :
    Normal (b :: rest)
  | escape {h l v : UInt8} {rest : Bytes} (hv : unescape h l = some v) (hreserved : unreserved v = false)
    (hupper : toAsciiUppercase h = h ∧ toAsciiUppercase l = l) (hrest : Normal rest) :
    Normal (PERCENT_BYTE :: h :: l :: rest)

theorem byte_cases (b : UInt8) :
    (unreserved b = true → b ≠ PERCENT_BYTE ∧ b < 0x80 ∧ pcharOk b = true) ∧
      (hexVal b ≠ none →
        hexVal (toAsciiUppercase b) = hexVal b ∧ toAsciiUppercase (toAsciiUppercase b) = toAsciiUppercase b) := by
  revert b
  exact of_every_byte (by decide +kernel)

theorem unreserved_plain {b : UInt8} (h : unreserved b = true) : b ≠ PERCENT_BYTE ∧ b < 0x80 ∧ pcharOk b = true :=
  (byte_cases b).1 h

theorem hexVal_upper {b x : UInt8} (h : hexVal b = some x) :
    hexVal (toAsciiUppercase b) = some x ∧ toAsciiUppercase (toAsciiUppercase b) = toAsciiUppercase b := by
  obtain ⟨hval, hupper⟩ := (byte_cases b).2 (by rw [h]; exact nofun)
  exact ⟨hval.trans h, hupper⟩

theorem unescape_some {h l v : UInt8} (hv : unescape h l = some v) : ∃ x y, hexVal h = some x ∧ hexVal l = some y := by
  unfold unescape at hv
  split at hv
  next x y hx hy => exact ⟨x, y, hx, hy⟩
  · cases hv

theorem ok_of_map {ε α β : Type*} {f : α → β} {x : Except ε α} {y : β} (h : x.map f = .ok y) : ∃ a, x = .ok a ∧ f a = y := by
  cases x with
  | error e => cases h
  | ok a => exact ⟨a, rfl, Except.ok.inj h⟩

theorem normEscapes_normal {src text : Bytes} (h : normEscapes src = .ok text) : Normal text ∧ text.length ≤ src.length := by
  fun_induction normEscapes src generalizing text with
  | case1 =>
    cases h
    exact ⟨.nil, le_rfl⟩
  | case2 h' l rest v hv hplain ih =>
    obtain ⟨t, ht, rfl⟩ := ok_of_map h
    obtain ⟨hnormal, hle⟩ := ih ht
    exact ⟨.plain (unreserved_plain hplain) hnormal, by simp only [length_cons]; omega⟩
  | case3 h' l rest v hv hreserved ih =>
    obtain ⟨t, ht, rfl⟩ := ok_of_map h
    obtain ⟨hnormal, hle⟩ := ih ht
    obtain ⟨x, y, hx, hy⟩ := unescape_some hv
    have hsame : unescape (toAsciiUppercase h') (toAsciiUppercase l) = some v := by
      rw [unescape, hx, hy] at hv
      rw [unescape, (hexVal_upper hx).1, (hexVal_upper hy).1, hv]
    exact ⟨.escape hsame (not_eq_true _ ▸ hreserved) ⟨(hexVal_upper hx).2, (hexVal_upper hy).2⟩ hnormal,
      by simp only [length_cons]; omega⟩
  | case4 => cases h
  | case5 => cases h
  | case6 => cases h
  | case7 b rest hpercent hascii hb ih =>
    obtain ⟨t, ht, rfl⟩ := ok_of_map h
    obtain ⟨hnormal, hle⟩ := ih ht
    exact ⟨.plain ⟨hpercent, UInt8.not_le.mp hascii, hb⟩ hnormal, by simp only [length_cons]; omega⟩
  | case8 => cases h

theorem Normal.fixed {text : Bytes} (h : Normal text) : normEscapes text = .ok text := by
  induction h with
  | nil => rfl
  | @plain b rest hb _ ih =>
    obtain ⟨hpercent, hascii, hpchar⟩ := hb
    rw [normEscapes.eq_def]
    dsimp only
    rw [if_neg hpercent, if_neg (UInt8.not_le.mpr hascii), if_pos hpchar, ih]
    rfl
  | @escape h l v rest hv hreserved hupper _ ih =>
    rw [normEscapes.eq_def]
    dsimp only
    rw [if_pos rfl, hv]
    dsimp only
    rw [if_neg (by rw [hreserved]; exact nofun), ih, hupper.1, hupper.2]
    rfl

theorem Normal.all {text : Bytes} {P : UInt8 → Prop} (h : Normal text) (hplain : ∀ b, pcharOk b = true → P b)
    (hpercent : P PERCENT_BYTE) (hhex : ∀ b, hexVal b ≠ none → P b) : ∀ b ∈ text, P b := by
  induction h with
  | nil => exact nofun
  | plain hb _ ih => exact forall_mem_cons.mpr ⟨hplain _ hb.2.2, ih⟩
  | escape hv hreserved hupper _ ih =>
    obtain ⟨x, y, hx, hy⟩ := unescape_some hv
    refine forall_mem_cons.mpr ⟨hpercent, forall_mem_cons.mpr ⟨hhex _ ?_, forall_mem_cons.mpr ⟨hhex _ ?_, ih⟩⟩⟩
    · rw [hx]
      exact nofun
    · rw [hy]
      exact nofun

theorem hexVal_not_slash {b x : UInt8} (h : hexVal b = some x) : b ≠ SLASH_BYTE := by
  rintro rfl
  cases h

theorem Normal.cut {text s rest : Bytes} (h : Normal text) (heq : text = s ++ SLASH_BYTE :: rest) (hs : SLASH_BYTE ∉ s) :
    Normal s ∧ Normal (SLASH_BYTE :: rest) := by
  induction h generalizing s with
  | nil => cases s <;> cases heq
  | @plain b text hb hrest ih =>
    cases s with
    | nil =>
      rw [nil_append] at heq
      rw [← heq]
      exact ⟨.nil, .plain hb hrest⟩
    | cons c s =>
      obtain ⟨rfl, htext⟩ := List.cons.inj heq
      obtain ⟨hnormal, htail⟩ := ih htext (List.not_mem_of_not_mem_cons hs)
      exact ⟨.plain hb hnormal, htail⟩
  | @escape h l v text hv hreserved hupper hrest ih =>
    obtain ⟨x, y, hx, hy⟩ := unescape_some hv
    match s with
    | [] => exact absurd (List.cons.inj heq).1 (by decide)
    | [_] =>
      obtain ⟨-, hh, -⟩ := List.cons.inj heq |>.imp_right List.cons.inj
      exact absurd hh (hexVal_not_slash hx)
    | [_, _] =>
      have hl := (List.cons.inj (List.cons.inj (List.cons.inj heq).2).2).1
      exact absurd hl (hexVal_not_slash hy)
    | c₁ :: c₂ :: c₃ :: s =>
      obtain ⟨rfl, heq₁⟩ := List.cons.inj heq
      obtain ⟨rfl, heq₂⟩ := List.cons.inj heq₁
      obtain ⟨rfl, htext⟩ := List.cons.inj heq₂
      have hs' : SLASH_BYTE ∉ s := fun hin => hs (mem_append_right [_, _, _] hin)
      obtain ⟨hnormal, htail⟩ := ih htext hs'
      exact ⟨.escape hv hreserved hupper hnormal, htail⟩

theorem Normal.append {s text : Bytes} (h : Normal s) (htext : Normal text) : Normal (s ++ text) := by
  induction h with
  | nil => exact htext
  | plain hb _ ih => exact .plain hb ih
  | escape hv hreserved hupper _ ih => exact .escape hv hreserved hupper ih

theorem Normal.slash {text : Bytes} : Normal (SLASH_BYTE :: text) ↔ Normal text := by
  refine ⟨fun h => ?_, .plain (by decide +kernel)⟩
  generalize heq : SLASH_BYTE :: text = all at h
  cases h with
  | nil => cases heq
  | plain _ hrest =>
    obtain ⟨-, rfl⟩ := List.cons.inj heq
    exact hrest
  | escape => exact absurd (List.cons.inj heq).1 (by decide)

theorem normal_render {segs : List Bytes} (h : ∀ s ∈ segs, SLASH_BYTE ∉ s) :
    Normal (render SLASH_BYTE segs) ↔ ∀ s ∈ segs, Normal s := by
  induction segs with
  | nil => exact ⟨fun _ => nofun, fun _ => .nil⟩
  | cons s segs ih =>
    obtain ⟨hs, hrest⟩ := forall_mem_cons.mp h
    rw [render_cons, Normal.slash, forall_mem_cons]
    refine ⟨fun hnormal => ?_, fun hnormal => hnormal.1.append ((ih hrest).mpr hnormal.2)⟩
    cases segs with
    | nil =>
      rw [render, flatMap_nil, append_nil] at hnormal
      exact ⟨hnormal, nofun⟩
    | cons t segs =>
      rw [render_cons] at hnormal
      obtain ⟨hfirst, htail⟩ := hnormal.cut rfl hs
      rw [← render_cons] at htail
      exact ⟨hfirst, (ih hrest).mp htail⟩

def dotKind (s : Bytes) : Kind := if s = [DOT_BYTE] then .stay else if s = [DOT_BYTE, DOT_BYTE] then .up else .name

section Dots

variable {s tail out : Bytes} {segs stack : List Bytes}

def Tail (tail : Bytes) : Prop := tail = [] ∨ ∃ more, tail = SLASH_BYTE :: more

theorem takeWhile_segment (hs : SLASH_BYTE ∉ s) (htail : Tail tail) : (s ++ tail).takeWhile (· ≠ SLASH_BYTE) = s := by
  have hspan : ∀ b ∈ s, decide (b ≠ SLASH_BYTE) = true := fun b hb => decide_eq_true fun heq => hs (heq ▸ hb)
  rw [takeWhile_append_of_pos hspan]
  rcases htail with rfl | ⟨more, rfl⟩
  · exact append_nil _
  · rw [takeWhile_cons_of_neg (by simp), append_nil]

theorem segment_eq (hs : SLASH_BYTE ∉ s) (htail : Tail tail) {t tail' : Bytes} (ht : SLASH_BYTE ∉ t) (htail' : Tail tail')
    (h : s ++ tail = t ++ tail') : s = t := by
  rw [← takeWhile_segment hs htail, h, takeWhile_segment ht htail']

theorem dotStep_name (out : Bytes) (hs : SLASH_BYTE ∉ s) (htail : Tail tail) (hkind : dotKind s = .name) :
    dotStep out (SLASH_BYTE :: (s ++ tail)) = (out ++ SLASH_BYTE :: s, tail) := by
  have hstay : s ≠ [DOT_BYTE] := by
    rintro rfl
    cases hkind
  have hup : s ≠ [DOT_BYTE, DOT_BYTE] := by
    rintro rfl
    cases hkind
  have hbegin : ∀ t : Bytes, SLASH_BYTE ∉ t → s ≠ t → (SLASH_BYTE :: (t ++ [SLASH_BYTE])).isPrefixOf (SLASH_BYTE :: (s ++ tail)) = false := by
    intro t ht hne
    rw [eq_false_iff]
    intro hyes
    obtain ⟨more, hmore⟩ := isPrefixOf_iff_prefix.mp hyes
    have hsame := (List.cons.inj hmore).2
    rw [List.append_eq, append_assoc] at hsame
    exact hne (segment_eq hs htail ht (Or.inr ⟨more, rfl⟩) hsame.symm)
  have hend : ∀ t : Bytes, SLASH_BYTE ∉ t → s ≠ t → SLASH_BYTE :: (s ++ tail) ≠ SLASH_BYTE :: t := by
    intro t ht hne heq
    have hsame := (List.cons.inj heq).2
    rw [← append_nil t] at hsame
    exact hne (segment_eq hs htail ht (Or.inl rfl) hsame)
  have hone : SLASH_BYTE ∉ [DOT_BYTE] := by decide
  have htwo : SLASH_BYTE ∉ [DOT_BYTE, DOT_BYTE] := by decide
  have hfirst : SLASH_BYTE :: (s ++ tail) ≠ ascii "." ∧ SLASH_BYTE :: (s ++ tail) ≠ ascii ".." :=
    ⟨fun h => absurd (List.cons.inj h).1 (by decide), fun h => absurd (List.cons.inj h).1 (by decide)⟩
  have hslashdot : (ascii "/./").isPrefixOf (SLASH_BYTE :: (s ++ tail)) = false := hbegin [DOT_BYTE] hone hstay
  have hslashdots : (ascii "/../").isPrefixOf (SLASH_BYTE :: (s ++ tail)) = false := hbegin [DOT_BYTE, DOT_BYTE] htwo hup
  have hdot : SLASH_BYTE :: (s ++ tail) ≠ ascii "/." := hend [DOT_BYTE] hone hstay
  have hdots : SLASH_BYTE :: (s ++ tail) ≠ ascii "/.." := hend [DOT_BYTE, DOT_BYTE] htwo hup
  unfold dotStep
  rw [if_neg nofun, hslashdot, if_neg nofun, if_neg hdot, hslashdots, if_neg nofun, if_neg hdots,
    if_neg (not_or.mpr hfirst)]
  dsimp only
  rw [take_succ_cons, take_zero, List.drop_succ_cons, drop_zero, takeWhile_segment hs htail,
    show SLASH_BYTE :: (s ++ tail) = ([SLASH_BYTE] ++ s) ++ tail from rfl, drop_left]
  rfl

theorem popSegment_render (hstack : ∀ s ∈ stack, SLASH_BYTE ∉ s) :
    popSegment (render SLASH_BYTE stack) = render SLASH_BYTE stack.dropLast := by
  rcases List.eq_nil_or_concat' stack with rfl | ⟨front, last, rfl⟩
  · rfl
  · have hlast : SLASH_BYTE ∉ last := hstack last (mem_append_right _ (mem_singleton_self _))
    have hspan : ∀ b ∈ last.reverse, decide (b ≠ SLASH_BYTE) = true :=
      fun b hb => decide_eq_true fun heq => hlast (heq ▸ List.mem_reverse.mp hb)
    rw [List.dropLast_concat, render_append, render_singleton, popSegment, List.reverse_append, List.reverse_cons,
      append_assoc, List.dropWhile_append_of_pos hspan, singleton_append, dropWhile_cons_of_neg (by simp),
      drop_one, tail_cons, List.reverse_reverse]

theorem dotKind_stay (h : dotKind s = .stay) : s = [DOT_BYTE] := by
  unfold dotKind at h
  split at h
  · assumption
  · split at h <;> cases h

theorem dotKind_up (h : dotKind s = .up) : s = [DOT_BYTE, DOT_BYTE] := by
  unfold dotKind at h
  split at h
  · cases h
  · split at h
    · assumption
    · cases h

theorem dotStep_more (hs : SLASH_BYTE ∉ s) (hstack : ∀ s ∈ stack, SLASH_BYTE ∉ s) (more : Bytes) :
    dotStep (render SLASH_BYTE stack) (SLASH_BYTE :: (s ++ SLASH_BYTE :: more)) =
      (render SLASH_BYTE (push dotKind stack s), SLASH_BYTE :: more) := by
  unfold push
  cases hk : dotKind s with
  | name => rw [dotStep_name _ hs (Or.inr ⟨more, rfl⟩) hk, render_append, render_singleton]
  | stay =>
    obtain rfl := dotKind_stay hk
    rfl
  | up =>
    obtain rfl := dotKind_up hk
    dsimp only
    rw [← popSegment_render hstack]
    rfl

theorem dotStep_last (hs : SLASH_BYTE ∉ s) (hstack : ∀ s ∈ stack, SLASH_BYTE ∉ s) :
    dotStep (render SLASH_BYTE stack) (SLASH_BYTE :: s) =
      if dotKind s = .name then (render SLASH_BYTE (stack ++ [s]), [])
      else (render SLASH_BYTE (push dotKind stack s), [SLASH_BYTE]) := by
  unfold push
  cases hk : dotKind s with
  | name =>
    have hname := dotStep_name (render SLASH_BYTE stack) hs (Or.inl rfl) hk
    rw [append_nil] at hname
    rw [if_pos rfl, hname, render_append, render_singleton]
  | stay =>
    obtain rfl := dotKind_stay hk
    rfl
  | up =>
    obtain rfl := dotKind_up hk
    rw [if_neg nofun]
    dsimp only
    rw [← popSegment_render hstack]
    rfl

theorem dotLoop_nil (fuel : Nat) (out : Bytes) : dotLoop fuel out [] = out := by
  cases fuel with
  | zero => rfl
  | succ fuel => exact if_pos rfl

theorem dotLoop_cons (fuel : Nat) (out : Bytes) (b : UInt8) (rest : Bytes) :
    dotLoop (fuel + 1) out (b :: rest) = dotLoop fuel (dotStep out (b :: rest)).1 (dotStep out (b :: rest)).2 :=
  if_neg (cons_ne_nil _ _)

theorem dotLoop_render {fuel : Nat} (stack : List Bytes) (hne : segs ≠ []) (hsegs : ∀ s ∈ segs, SLASH_BYTE ∉ s)
    (hstack : ∀ s ∈ stack, SLASH_BYTE ∉ s) (hfuel : (render SLASH_BYTE segs).length ≤ fuel) :
    dotLoop fuel (render SLASH_BYTE stack) (render SLASH_BYTE segs) = render SLASH_BYTE (resolve dotKind stack segs) := by
  induction segs generalizing fuel stack with
  | nil => exact absurd rfl hne
  | cons s segs ih =>
    obtain ⟨hs, hrest⟩ := forall_mem_cons.mp hsegs
    have hpush : ∀ t ∈ push dotKind stack s, SLASH_BYTE ∉ t := by
      intro t ht
      rcases mem_push ht with ht | ⟨rfl, -⟩
      · exact hstack t ht
      · exact hs
    rw [render_cons, length_cons, length_append] at hfuel
    obtain ⟨fuel, rfl⟩ : ∃ k, fuel = k + 1 := ⟨fuel - 1, by omega⟩
    cases segs with
    | nil =>
      rw [render_singleton, dotLoop_cons, dotStep_last hs hstack, resolve]
      split
      · exact dotLoop_nil _ _
      next hk =>
        obtain ⟨fuel, rfl⟩ : ∃ k, fuel = k + 1 := by
          refine ⟨fuel - 1, ?_⟩
          have hpos : 0 < s.length := length_pos_of_ne_nil (by rintro rfl; exact hk rfl)
          omega
        dsimp only
        rw [dotLoop_cons, dotStep_last not_mem_nil hpush, if_pos (by decide)]
        exact dotLoop_nil _ _
    | cons t segs =>
      rw [render_cons s, render_cons t, dotLoop_cons, dotStep_more hs hstack, resolve]
      dsimp only
      rw [← render_cons]
      exact ih _ (cons_ne_nil _ _) hrest hpush (by omega)

theorem removeDotSegments_render (hne : segs ≠ []) (hsegs : ∀ s ∈ segs, SLASH_BYTE ∉ s) :
    removeDotSegments (render SLASH_BYTE segs) = render SLASH_BYTE (resolve dotKind [] segs) :=
  dotLoop_render [] hne hsegs (fun _ h => nomatch h) le_rfl

end Dots

section Path

variable {src text path : Bytes}

def pathSegments (text : Bytes) : List Bytes := (text.drop 1).splitOn SLASH_BYTE

def resolved (text : Bytes) : List Bytes := resolve dotKind [] (pathSegments text)

theorem slash_of_mem_resolved {s : Bytes} (h : s ∈ resolved text) : SLASH_BYTE ∉ s := by
  rcases mem_resolve h with h | rfl | ⟨h, -⟩
  · cases h
  · exact not_mem_nil
  · exact not_mem_of_mem_splitOn h

theorem resolved_ne_nil (text : Bytes) : resolved text ≠ [] := resolve_ne_nil (List.splitOn_ne_nil _ _) []

theorem removeDotSegments_eq (h : text.head? = some SLASH_BYTE) :
    removeDotSegments text = render SLASH_BYTE (resolved text) := by
  obtain ⟨t, rfl⟩ := List.head?_eq_some_iff.mp h
  have hall := removeDotSegments_render (List.splitOn_ne_nil SLASH_BYTE t) fun s hs => not_mem_of_mem_splitOn hs
  rwa [render_splitOn] at hall

theorem resolved_render (text : Bytes) : resolved (render SLASH_BYTE (resolved text)) = resolved text := by
  have hslash : ∀ s ∈ resolved text, SLASH_BYTE ∉ s := fun s hs => slash_of_mem_resolved hs
  have hagain : resolve dotKind [] (resolved text) = resolved text := resolve_resolve (by decide) _
  obtain ⟨s, segs, hsegs⟩ := exists_cons_of_ne_nil (resolved_ne_nil text)
  rw [hsegs] at hslash hagain ⊢
  obtain ⟨hs, hrest⟩ := forall_mem_cons.mp hslash
  rw [resolved, pathSegments, render_cons, drop_one, tail_cons, splitOn_render hs hrest]
  exact hagain

theorem render_resolved_length (h : text.head? = some SLASH_BYTE) :
    (render SLASH_BYTE (resolved text)).length ≤ text.length := by
  have hresolve : (render SLASH_BYTE (resolved text)).length ≤ (render SLASH_BYTE []).length +
      (render SLASH_BYTE (pathSegments text)).length := render_resolve_length [] _
  obtain ⟨t, rfl⟩ := List.head?_eq_some_iff.mp h
  rw [pathSegments, drop_one, tail_cons, render_splitOn] at hresolve
  change _ ≤ 0 + _ at hresolve
  omega

theorem normal_resolved (h : Normal text) (hslash : text.head? = some SLASH_BYTE) :
    Normal (render SLASH_BYTE (resolved text)) := by
  obtain ⟨t, rfl⟩ := List.head?_eq_some_iff.mp hslash
  rw [← render_splitOn, normal_render fun s hs => not_mem_of_mem_splitOn hs] at h
  rw [normal_render fun s hs => slash_of_mem_resolved hs]
  intro s hs
  rcases mem_resolve hs with hs | rfl | ⟨hs, -⟩
  · cases hs
  · exact .nil
  · exact h s hs

theorem head_normEscapes (h : normEscapes src = .ok text) (hslash : src.head? = some SLASH_BYTE) :
    text.head? = some SLASH_BYTE := by
  obtain ⟨rest, rfl⟩ := List.head?_eq_some_iff.mp hslash
  rw [normEscapes.eq_def] at h
  dsimp only at h
  rw [if_neg (by decide), if_neg (by decide), if_pos (by decide +kernel)] at h
  obtain ⟨t, -, rfl⟩ := ok_of_map h
  rfl

theorem head_render (text : Bytes) : (render SLASH_BYTE (resolved text)).head? = some SLASH_BYTE := by
  obtain ⟨s, segs, hsegs⟩ := exists_cons_of_ne_nil (resolved_ne_nil text)
  rw [hsegs, render_cons]
  rfl

theorem normPath_slash (hslash : src.head? = some SLASH_BYTE) (hlength : src.length ≤ MAX_ROUTE_PATH) :
    normPath src = (normEscapes src).map fun text => render SLASH_BYTE (resolved text) := by
  have hne : src ≠ [] := by
    rintro rfl
    cases hslash
  rw [normPath, if_neg (not_lt.mpr hlength), if_neg hne]
  cases htext : normEscapes src with
  | error e => rfl
  | ok text =>
    have hhead := head_normEscapes htext hslash
    have hsome : render SLASH_BYTE (resolved text) ≠ [] := by
      intro heq
      have hfirst := head_render text
      rw [heq] at hfirst
      cases hfirst
    refine congrArg Except.ok ?_
    dsimp only
    rw [removeDotSegments_eq hhead, if_neg hsome]

theorem normPath_resolved (hsrc : src = [] ∨ src.head? = some SLASH_BYTE) (h : normPath src = .ok path) :
    ∃ text, normEscapes src = .ok text ∧ path = render SLASH_BYTE (resolved text) := by
  rcases hsrc with rfl | hslash
  · cases h
    exact ⟨[], rfl, by decide⟩
  · have hlength : src.length ≤ MAX_ROUTE_PATH := by
      by_contra hlong
      rw [normPath, if_pos (not_le.mp hlong)] at h
      cases h
    rw [normPath_slash hslash hlength] at h
    obtain ⟨text, htext, rfl⟩ := ok_of_map h
    exact ⟨text, htext, rfl⟩

/-- A path begins with two separators just if it leads to an empty segment with another one behind it. -/
theorem double_slash (text : Bytes) :
    ((render SLASH_BYTE (resolved text)).drop 1).head? = some SLASH_BYTE ↔ ∃ s segs, resolved text = [] :: s :: segs := by
  have hslash : ∀ s ∈ resolved text, SLASH_BYTE ∉ s := fun s hs => slash_of_mem_resolved hs
  obtain ⟨first, segs, hsegs⟩ := exists_cons_of_ne_nil (resolved_ne_nil text)
  rw [hsegs] at hslash ⊢
  rw [render_cons, drop_one, tail_cons]
  cases first with
  | nil =>
    cases segs with
    | nil => exact ⟨nofun, by rintro ⟨s, segs, heq⟩; cases heq⟩
    | cons s segs => exact ⟨fun _ => ⟨s, segs, rfl⟩, fun _ => by rw [render_cons]; rfl⟩
  | cons b first =>
    refine ⟨fun heq => ?_, by rintro ⟨s, segs, heq⟩; cases heq⟩
    obtain rfl := Option.some.inj heq
    exact absurd mem_cons_self (hslash _ mem_cons_self)

theorem normPath_fixed (hsrc : src = [] ∨ src.head? = some SLASH_BYTE) (h : normPath src = .ok path) :
    normPath path = .ok path ∧ path.head? = some SLASH_BYTE ∧ Normal path ∧ path.length ≤ MAX_ROUTE_PATH := by
  rcases hsrc with rfl | hslash
  · cases h
    refine ⟨by decide +kernel, rfl, .plain (by decide +kernel) .nil, by decide⟩
  · obtain ⟨text, htext, rfl⟩ := normPath_resolved (Or.inr hslash) h
    have hlength : src.length ≤ MAX_ROUTE_PATH := by
      by_contra hlong
      rw [normPath, if_pos (not_le.mp hlong)] at h
      cases h
    obtain ⟨hnormal, hle⟩ := normEscapes_normal htext
    have hhead := head_normEscapes htext hslash
    have hnormal' := normal_resolved hnormal hhead
    have hshort : (render SLASH_BYTE (resolved text)).length ≤ MAX_ROUTE_PATH :=
      (render_resolved_length hhead).trans (hle.trans hlength)
    refine ⟨?_, head_render text, hnormal', hshort⟩
    rw [normPath_slash (head_render text) hshort, hnormal'.fixed]
    refine congrArg Except.ok ?_
    dsimp only
    rw [resolved_render]

end Path

end Wave.Common
