import Wave.Lib.Paths

/-! # JSON objects of one list of strings

A reader of `{"key":["..", ".."]}` over bytes. A text is cut at bytes below 0x80 into texts (`isUtf8_mark`). -/

namespace Wave.Lib.Json

variable {values : List Bytes}

def utf8 (chars : List Char) : Bytes := chars.flatMap String.utf8EncodeChar

def IsUtf8 (b : Bytes) : Prop := ∃ chars, b = utf8 chars

theorem utf8_cons (c : Char) (chars : List Char) : utf8 (c :: chars) = String.utf8EncodeChar c ++ utf8 chars :=
  flatMap_cons

theorem isUtf8_nil : IsUtf8 [] := ⟨[], rfl⟩

theorem IsUtf8.append {a b : Bytes} (ha : IsUtf8 a) (hb : IsUtf8 b) : IsUtf8 (a ++ b) := by
  obtain ⟨s, rfl⟩ := ha
  obtain ⟨t, rfl⟩ := hb
  exact ⟨s ++ t, flatMap_append.symm⟩

theorem encode_cases (c : Char) : (∃ b, String.utf8EncodeChar c = [b]) ∨ ∀ b ∈ String.utf8EncodeChar c, 0x80 ≤ b := by
  unfold String.utf8EncodeChar
  dsimp only
  split
  · exact .inl ⟨_, rfl⟩
  · right
    have hbyte : ∀ n, 0x80 ≤ n % 256 → (0x80 : UInt8) ≤ UInt8.ofNat n := fun n hn => by
      rw [UInt8.le_iff_toNat_le, UInt8.toNat_ofNat']
      exact hn
    split
    · simp only [forall_mem_cons, not_mem_nil, false_implies, implies_true, and_true]
      exact ⟨hbyte _ (by omega), hbyte _ (by omega)⟩
    · split
      · simp only [forall_mem_cons, not_mem_nil, false_implies, implies_true, and_true]
        exact ⟨hbyte _ (by omega), hbyte _ (by omega), hbyte _ (by omega)⟩
      · simp only [forall_mem_cons, not_mem_nil, false_implies, implies_true, and_true]
        exact ⟨hbyte _ (by omega), hbyte _ (by omega), hbyte _ (by omega), hbyte _ (by omega)⟩

theorem isUtf8_ascii {b : UInt8} (h : b < 0x80) : IsUtf8 [b] := by
  have hlt : b.toNat < 0x80 := h
  have hvalid : b.toNat.isValidChar := .inl (Nat.lt_trans hlt (by decide))
  have hchar : (Char.ofNat b.toNat).val.toNat = b.toNat := by
    rw [Char.ofNat, dif_pos hvalid]
    rfl
  refine ⟨[Char.ofNat b.toNat], ?_⟩
  rw [utf8, flatMap_singleton, String.utf8EncodeChar, hchar, if_pos (Nat.le_of_lt_succ hlt), UInt8.ofNat_toNat]

theorem isUtf8_mark {a b : Bytes} {x : UInt8} (hx : x < 0x80) : IsUtf8 (a ++ x :: b) ↔ IsUtf8 a ∧ IsUtf8 b := by
  constructor
  · rintro ⟨chars, h⟩
    induction chars generalizing a with
    | nil => cases a <;> cases h
    | cons c chars ih =>
      rw [utf8_cons] at h
      rcases encode_cases c with ⟨y, hy⟩ | hhigh
      · rw [hy] at h
        cases a with
        | nil => exact ⟨isUtf8_nil, chars, (List.cons.inj h).2⟩
        | cons z a =>
          obtain ⟨ha, hb⟩ := ih (List.cons.inj h).2
          refine ⟨?_, hb⟩
          obtain ⟨rest, rfl⟩ := ha
          exact ⟨c :: rest, by rw [utf8_cons, hy, (List.cons.inj h).1]; rfl⟩
      · -- the byte is not one of this character's, so the character is in front of it
        rcases append_eq_append_iff.mp h with ⟨more, hc, hrest⟩ | ⟨more, ha, hrest⟩
        · cases more with
          | nil =>
            rw [append_nil] at hc
            cases chars with
            | nil => cases hrest
            | cons d chars =>
              obtain ⟨hnil, hb⟩ := ih (a := []) hrest
              exact ⟨⟨[c], by rw [utf8, flatMap_singleton, hc]⟩, hb⟩
          | cons y more =>
            have hmem : x ∈ String.utf8EncodeChar c := by
              rw [hc, (List.cons.inj hrest).1]
              exact mem_append_right _ mem_cons_self
            exact absurd (hhigh x hmem) (by rw [UInt8.not_le]; exact hx)
        · obtain ⟨⟨rest, hmore⟩, hb⟩ := ih hrest.symm
          exact ⟨⟨c :: rest, by rw [ha, hmore, utf8_cons]⟩, hb⟩
  · rintro ⟨ha, hb⟩
    have hone := (isUtf8_ascii hx).append hb
    exact ha.append hone

def isSpace (b : UInt8) : Bool := b = 0x20 || b = 0x09 || b = 0x0a || b = 0x0d

def token (c : UInt8) (text : Bytes) : Option Bytes :=
  match text.dropWhile isSpace with
  | [] => none
  | b :: rest => if b = c then some rest else none

def escaped (e : UInt8) : Option UInt8 :=
  if e = 0x22 ∨ e = 0x5c ∨ e = 0x2f then some e
  else if e = 0x62 then some 0x08
  else if e = 0x66 then some 0x0c
  else if e = 0x6e then some 0x0a
  else if e = 0x72 then some 0x0d
  else if e = 0x74 then some 0x09
  else none

def unicode (a b c d : UInt8) : Option Bytes := do
  let unit := (((← Paths.hexVal a).toNat * 16 + (← Paths.hexVal b).toNat) * 16 + (← Paths.hexVal c).toNat) * 16 +
    (← Paths.hexVal d).toNat
  if 0xd800 ≤ unit ∧ unit < 0xe000 then none else some (String.utf8EncodeChar (Char.ofNat unit))

def character : Bytes → Option (Bytes × Bytes)
  | [] => none
  | b :: text =>
    if b < 0x20 then none
    else if b ≠ 0x5c then some ([b], text)
    else
      match text with
      | [] => none
      | e :: text =>
        if e ≠ 0x75 then (escaped e).map fun v => ([v], text)
        else
          match text with
          | a :: b :: c :: d :: text => (unicode a b c d).map fun v => (v, text)
          | _ => none

theorem character_suffix {text v rest : Bytes} (h : character text = some (v, rest)) :
    rest <:+ text ∧ rest.length < text.length := by
  cases text with
  | nil => cases h
  | cons b text =>
    suffices hrest : rest <:+ text from
      ⟨hrest.trans (suffix_cons b text), Nat.lt_succ_of_le hrest.length_le⟩
    unfold character at h
    dsimp only at h
    split at h
    · cases h
    split at h
    · cases h
      exact List.suffix_refl _
    cases text with
    | nil => cases h
    | cons e text =>
      refine List.IsSuffix.trans ?_ (suffix_cons e text)
      dsimp only at h
      split at h
      · obtain ⟨w, -, hw⟩ := map_eq_some_iff.mp h
        cases hw
        exact List.suffix_refl _
      · split at h
        next a b c d text =>
          obtain ⟨w, -, hw⟩ := map_eq_some_iff.mp h
          cases hw
          exact ⟨[a, b, c, d], rfl⟩
        · cases h

def stringRest (text : Bytes) : Option (Bytes × Bytes) :=
  if text.head? = some 0x22 then some ([], text.tail)
  else
    match _h : character text with
    | none => none
    | some (v, rest) => (stringRest rest).map fun r => (v ++ r.1, r.2)
termination_by text.length
decreasing_by exact (character_suffix _h).2

def string (text : Bytes) : Option (Bytes × Bytes) := (token 0x22 text).bind stringRest

theorem token_suffix {c : UInt8} {text rest : Bytes} (h : token c text = some rest) : (c :: rest) <:+ text := by
  unfold token at h
  split at h
  · cases h
  next b tail htext =>
    split at h
    next hb =>
      cases h
      rw [← hb, ← htext]
      exact List.dropWhile_suffix _
    · cases h

theorem stringRest_quote (text : Bytes) : stringRest (0x22 :: text) = some ([], text) := by
  rw [stringRest]
  exact if_pos rfl

theorem stringRest_character {text v rest : Bytes} (hquote : text.head? ≠ some 0x22)
    (h : character text = some (v, rest)) : stringRest text = (stringRest rest).map fun r => (v ++ r.1, r.2) := by
  rw [stringRest, if_neg hquote]
  split
  next hnone => rw [h] at hnone; cases hnone
  next v' rest' hsome => rw [h] at hsome; cases hsome; rfl

theorem stringRest_refused {text : Bytes} (hquote : text.head? ≠ some 0x22) (h : character text = none) :
    stringRest text = none := by
  rw [stringRest, if_neg hquote]
  split
  next => rfl
  next v' rest' hsome => rw [h] at hsome; cases hsome

theorem stringRest_suffix {text v rest : Bytes} (h : stringRest text = some (v, rest)) : rest <:+ text := by
  induction hn : text.length using Nat.strong_induction_on generalizing text v with
  | h n ih =>
    by_cases hquote : text.head? = some 0x22
    · rw [stringRest, if_pos hquote] at h
      cases h
      exact List.tail_suffix _
    · cases hchar : character text with
      | none => rw [stringRest_refused hquote hchar] at h; cases h
      | some r =>
        rw [stringRest_character hquote hchar] at h
        obtain ⟨r', hrest, hr'⟩ := map_eq_some_iff.mp h
        cases hr'
        obtain ⟨hsuffix, hless⟩ := character_suffix hchar
        exact (ih r.2.length (hn ▸ hless) hrest rfl).trans hsuffix

theorem string_suffix {text v rest : Bytes} (h : string text = some (v, rest)) :
    rest <:+ text ∧ rest.length < text.length := by
  obtain ⟨inside, htoken, hrest⟩ := bind_eq_some_iff.mp h
  have hsuffix := token_suffix htoken
  have hinside := stringRest_suffix hrest
  refine ⟨hinside.trans ((suffix_cons _ _).trans hsuffix), ?_⟩
  exact Nat.lt_of_le_of_lt hinside.length_le (Nat.lt_of_lt_of_le (Nat.lt_succ_self _) hsuffix.length_le)

/-- The strings of a list that is not empty, to its closing bracket. -/
def stringsFrom (text : Bytes) : Option (List Bytes × Bytes) :=
  match _h : string text with
  | none => none
  | some (v, rest) =>
    match _hcomma : token 0x2c rest with
    | some next => (stringsFrom next).map fun r => (v :: r.1, r.2)
    | none => (token 0x5d rest).map fun r => ([v], r)
termination_by text.length
decreasing_by
  have hstring := string_suffix _h
  have hless := (token_suffix _hcomma).length_le
  rw [length_cons] at hless
  omega

theorem stringsFrom_eq (text : Bytes) :
    stringsFrom text = (string text).bind fun r =>
      match token 0x2c r.2 with
      | some next => (stringsFrom next).map fun l => (r.1 :: l.1, l.2)
      | none => (token 0x5d r.2).map fun l => ([r.1], l) := by
  rw [stringsFrom]
  split
  next h => rw [h]; rfl
  next v rest h =>
    rw [h, bind_some]
    split
    next next hcomma => rw [hcomma]
    next hcomma => rw [hcomma]

theorem stringsFrom_suffix {text rest : Bytes} (h : stringsFrom text = some (values, rest)) :
    rest <:+ text := by
  induction hn : text.length using Nat.strong_induction_on generalizing text values with
  | h n ih =>
    rw [stringsFrom_eq] at h
    obtain ⟨⟨v, inside⟩, hstring, h⟩ := bind_eq_some_iff.mp h
    obtain ⟨hsuffix, hless⟩ := string_suffix hstring
    dsimp only at h
    split at h
    next next hcomma =>
      obtain ⟨r, hrest, hr⟩ := map_eq_some_iff.mp h
      cases hr
      have hnext := token_suffix hcomma
      have hshort := hnext.length_le
      rw [length_cons] at hshort
      exact (ih next.length (by omega) hrest rfl).trans ((suffix_cons _ _).trans (hnext.trans hsuffix))
    next =>
      obtain ⟨r, hrest, hr⟩ := map_eq_some_iff.mp h
      cases hr
      exact (suffix_cons _ _).trans ((token_suffix hrest).trans hsuffix)

def strings (text : Bytes) : Option (List Bytes × Bytes) :=
  match token 0x5d text with
  | some rest => some ([], rest)
  | none => stringsFrom text

theorem strings_suffix {text rest : Bytes} (h : strings text = some (values, rest)) :
    rest <:+ text := by
  unfold strings at h
  split at h
  next hend => cases h; exact (suffix_cons _ _).trans (token_suffix hend)
  next => exact stringsFrom_suffix h

def stringList (key text : Bytes) : Option (List Bytes) := do
  let text ← token 0x7b text
  let (name, text) ← string text
  if name ≠ key then none
  else
    let text ← token 0x3a text
    let text ← token 0x5b text
    let (values, text) ← strings text
    let text ← token 0x7d text
    if text.all isSpace then some values else none

theorem stringList_suffix {key text : Bytes} (h : stringList key text = some values) :
    ∃ space, (0x7d :: space) <:+ text ∧ space.all isSpace = true := by
  unfold stringList at h
  obtain ⟨t₁, h₁, h⟩ := bind_eq_some_iff.mp h
  obtain ⟨⟨name, t₂⟩, h₂, h⟩ := bind_eq_some_iff.mp h
  dsimp only at h
  split at h
  · cases h
  obtain ⟨t₃, h₃, h⟩ := bind_eq_some_iff.mp h
  obtain ⟨t₄, h₄, h⟩ := bind_eq_some_iff.mp h
  obtain ⟨⟨found, t₅⟩, h₅, h⟩ := bind_eq_some_iff.mp h
  obtain ⟨t₆, h₆, h⟩ := bind_eq_some_iff.mp h
  dsimp only at h
  split at h
  next hspace =>
    have hrest : ∀ {c t u}, token c t = some u → u <:+ t := fun ht => (suffix_cons _ _).trans (token_suffix ht)
    have hfront : t₄ <:+ text :=
      (hrest h₄).trans ((hrest h₃).trans ((string_suffix h₂).1.trans (hrest h₁)))
    exact ⟨t₆, (token_suffix h₆).trans ((strings_suffix h₅).trans hfront), hspace⟩
  · cases h

def escapeByte (c : UInt8) : Bytes := if c = 0x22 ∨ c = 0x5c then [0x5c, c] else [c]

/-- A string, with its quotes and backslashes escaped and nothing else. -/
def quoted (name : Bytes) : Bytes := 0x22 :: (name.flatMap escapeByte ++ [0x22])

def joined (names : List Bytes) : Bytes := [0x2c].intercalate (names.map quoted)

def listText (key : Bytes) (names : List Bytes) : Bytes :=
  0x7b :: (quoted key ++ (0x3a :: 0x5b :: (joined names ++ [0x5d, 0x7d])))

def Plain (name : Bytes) : Prop := ∀ c ∈ name, 0x20 ≤ c

instance (name : Bytes) : Decidable (Plain name) := inferInstanceAs (Decidable (∀ c ∈ name, 0x20 ≤ c))

theorem token_here {c : UInt8} (h : isSpace c = false) (text : Bytes) : token c (c :: text) = some text := by
  rw [token, dropWhile_cons_of_neg (by rw [h]; exact false_ne_true)]
  exact if_pos rfl

theorem token_other {b c : UInt8} (h : isSpace b = false) (hne : b ≠ c) (text : Bytes) : token c (b :: text) = none := by
  rw [token, dropWhile_cons_of_neg (by rw [h]; exact false_ne_true)]
  exact if_neg hne

theorem stringRest_text (name rest : Bytes) :
    stringRest (name.flatMap escapeByte ++ 0x22 :: rest) = if Plain name then some (name, rest) else none := by
  induction name with
  | nil => rw [if_pos (show Plain [] from nofun), flatMap_nil, nil_append, stringRest_quote]
  | cons c name ih =>
    rw [flatMap_cons, append_assoc]
    by_cases hcontrol : c < 0x20
    · have hplain : ¬ Plain (c :: name) := fun h => UInt8.not_le.mpr hcontrol (h c mem_cons_self)
      have hquote : c ≠ 0x22 := fun h => absurd (h ▸ hcontrol) (by decide)
      have hslash : c ≠ 0x5c := fun h => absurd (h ▸ hcontrol) (by decide)
      rw [if_neg hplain, escapeByte, if_neg (not_or.mpr ⟨hquote, hslash⟩)]
      exact stringRest_refused (fun h => hquote (Option.some.inj h)) (if_pos hcontrol)
    · have hplain : Plain (c :: name) ↔ Plain name := by
        rw [Plain, forall_mem_cons]
        exact and_iff_right (UInt8.not_lt.mp hcontrol)
      have hread : stringRest (escapeByte c ++ (name.flatMap escapeByte ++ 0x22 :: rest)) =
          (stringRest (name.flatMap escapeByte ++ 0x22 :: rest)).map fun r => ([c] ++ r.1, r.2) := by
        by_cases hspecial : c = 0x22 ∨ c = 0x5c
        · rw [escapeByte, if_pos hspecial]
          refine stringRest_character (fun h => absurd (Option.some.inj h) (by decide)) ?_
          rcases hspecial with rfl | rfl <;> rfl
        · rw [escapeByte, if_neg hspecial]
          rw [not_or] at hspecial
          refine stringRest_character (fun h => hspecial.1 (Option.some.inj h)) ?_
          exact (if_neg hcontrol).trans (if_pos hspecial.2)
      rw [hread, ih]
      simp only [hplain]
      split <;> rfl

theorem string_text (name rest : Bytes) :
    string (quoted name ++ rest) = if Plain name then some (name, rest) else none := by
  have hquoted : quoted name ++ rest = 0x22 :: (name.flatMap escapeByte ++ 0x22 :: rest) := by simp [quoted]
  rw [hquoted, string, token_here rfl, bind_some, stringRest_text]

theorem stringsFrom_text (name : Bytes) (names : List Bytes) (rest : Bytes) :
    stringsFrom (joined (name :: names) ++ 0x5d :: rest) =
      if ∀ n ∈ name :: names, Plain n then some (name :: names, rest) else none := by
  induction names generalizing name with
  | nil =>
    have hjoined : joined [name] = quoted name := intercalate_singleton
    rw [hjoined, stringsFrom_eq, string_text]
    by_cases hname : Plain name
    · rw [if_pos hname, if_pos (forall_mem_singleton.mpr hname), bind_some, token_other rfl (by decide),
        token_here rfl]
      rfl
    · rw [if_neg hname, if_neg fun h => hname (forall_mem_singleton.mp h)]
      rfl
  | cons next names ih =>
    have hjoined : joined (name :: next :: names) ++ 0x5d :: rest =
        quoted name ++ (0x2c :: (joined (next :: names) ++ 0x5d :: rest)) := by
      rw [joined, map_cons, map_cons, List.intercalate_cons_cons, joined, map_cons]
      simp
    rw [hjoined, stringsFrom_eq, string_text]
    by_cases hname : Plain name
    · rw [if_pos hname, bind_some, token_here rfl]
      dsimp only
      rw [ih]
      by_cases hall : ∀ n ∈ next :: names, Plain n
      · rw [if_pos hall, if_pos (forall_mem_cons.mpr ⟨hname, hall⟩)]
        rfl
      · rw [if_neg hall, if_neg fun h => hall (forall_mem_cons.mp h).2]
        rfl
    · rw [if_neg hname, if_neg fun h => hname (forall_mem_cons.mp h).1]
      rfl

/-- The text of a list is read as the list, unless there is a control character in it. -/
theorem stringList_text {key : Bytes} (hkey : Plain key) (names : List Bytes) :
    stringList key (listText key names) = if ∀ n ∈ names, Plain n then some names else none := by
  have hstrings : strings (joined names ++ [0x5d, 0x7d]) =
      if ∀ n ∈ names, Plain n then some (names, [0x7d]) else none := by
    cases names with
    | nil => rfl
    | cons name names =>
      have hjoined : joined (name :: names) ++ [0x5d, 0x7d] =
          0x22 :: (joined (name :: names) ++ [0x5d, 0x7d]).tail := by
        cases names <;> simp [joined, quoted]
      rw [strings, hjoined, token_other rfl (by decide), ← hjoined]
      exact stringsFrom_text name names [0x7d]
  unfold stringList listText
  rw [token_here rfl, bind_eq_bind, bind_some, string_text, if_pos hkey, bind_eq_bind,
    bind_some]
  dsimp only
  rw [if_neg (not_not.mpr rfl), token_here rfl, bind_eq_bind, bind_some, token_here rfl,
    bind_some, hstrings]
  split <;> rfl

theorem isUtf8_cons {x : UInt8} (hx : x < 0x80) (b : Bytes) : IsUtf8 (x :: b) ↔ IsUtf8 b :=
  (isUtf8_mark (a := []) hx).trans (and_iff_right isUtf8_nil)

theorem isUtf8_escaped (a name : Bytes) : IsUtf8 (a ++ name.flatMap escapeByte) ↔ IsUtf8 (a ++ name) := by
  induction name generalizing a with
  | nil => rfl
  | cons c name ih =>
    rw [flatMap_cons]
    by_cases hspecial : c = 0x22 ∨ c = 0x5c
    · have hascii : c < 0x80 := by rcases hspecial with rfl | rfl <;> decide
      have hrest := ih []
      rw [nil_append, nil_append] at hrest
      rw [escapeByte, if_pos hspecial, cons_append, singleton_append, isUtf8_mark (by decide), isUtf8_cons hascii,
        isUtf8_mark hascii, hrest]
    · have hrest := ih (a ++ [c])
      rw [escapeByte, if_neg hspecial]
      simpa using hrest

theorem isUtf8_quoted (name rest : Bytes) : IsUtf8 (quoted name ++ rest) ↔ IsUtf8 name ∧ IsUtf8 rest := by
  have hquoted : quoted name ++ rest = 0x22 :: (name.flatMap escapeByte ++ 0x22 :: rest) := by simp [quoted]
  have hescaped := isUtf8_escaped [] name
  rw [nil_append, nil_append] at hescaped
  rw [hquoted, isUtf8_cons (by decide), isUtf8_mark (by decide), hescaped]

theorem isUtf8_joined (names : List Bytes) {x : UInt8} (hx : x < 0x80) (rest : Bytes) :
    IsUtf8 (joined names ++ x :: rest) ↔ (∀ n ∈ names, IsUtf8 n) ∧ IsUtf8 rest := by
  induction names with
  | nil =>
    rw [joined, map_nil, List.intercalate_nil, nil_append, isUtf8_cons hx]
    exact (and_iff_right nofun).symm
  | cons name names ih =>
    cases names with
    | nil =>
      have hjoined : joined [name] = quoted name := intercalate_singleton
      rw [hjoined, isUtf8_quoted, isUtf8_cons hx, forall_mem_singleton]
    | cons next names =>
      have hjoined : joined (name :: next :: names) ++ x :: rest =
          quoted name ++ (0x2c :: (joined (next :: names) ++ x :: rest)) := by
        rw [joined, map_cons, map_cons, List.intercalate_cons_cons, joined, map_cons]
        simp
      rw [hjoined, isUtf8_quoted, isUtf8_cons (by decide), ih, forall_mem_cons (a := name), and_assoc]

theorem isUtf8_listText {key : Bytes} (hkey : IsUtf8 key) (names : List Bytes) :
    IsUtf8 (listText key names) ↔ ∀ n ∈ names, IsUtf8 n := by
  rw [listText, isUtf8_cons (by decide), isUtf8_quoted, isUtf8_cons (by decide), isUtf8_cons (by decide),
    isUtf8_joined names (by decide), isUtf8_cons (by decide), and_iff_right hkey]
  exact and_iff_left isUtf8_nil

end Wave.Lib.Json
