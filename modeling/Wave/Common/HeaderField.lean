import Wave.Common.SmtpCore
import Wave.Lib.Lines
import Mathlib.Data.List.DropRight

/-! # Mail header fields, written and scanned (`common/rfc5322.rs`)

`writeHeader` folds a value between words; `scanHeader` finds the field again and `unfoldValue` joins its lines. -/

namespace Wave.Common.Rfc5322

open Lib Lib.Bytes

variable {ws : List Bytes} {room : Nat} {b : UInt8}

def MAX_LINE_LEN : Nat := 998
def FOLD_COLUMN : Nat := 78

def CR : UInt8 := 0x0D
def LF : UInt8 := 0x0A
def CRLF : Bytes := [CR, LF]

structure HeaderSpan where
  nameAt : Nat
  nameLen : Nat
  valueAt : Nat
  valueLen : Nat
deriving DecidableEq

inductive HeaderScan where
  | field (span : HeaderSpan) (next : Nat)
  /-- The empty line that ends the block; the body begins at `body`. -/
  | endOfBlock (body : Nat)
  | incomplete
  | malformed
deriving DecidableEq

def isFtext (b : UInt8) : Bool := 33 ≤ b && b ≤ 126 && b ≠ 0x3A

def isWsp (b : UInt8) : Bool := b = 0x20 || b = 0x09

def isBreak (b : UInt8) : Bool := b = CR || b = LF

def lineEnd (buf : Bytes) (at_ : Nat) : Option Nat := (findPat CRLF (buf.drop at_)).map (at_ + ·)

/-- The lines of a value, from `cursor`: `fuel` bounds the `loop` over continuation lines. -/
def scanValue (buf : Bytes) (nameAt nameLen valueAt : Nat) : (fuel : Nat) → (cursor : Nat) → HeaderScan
  | 0, _ => .incomplete
  | fuel + 1, cursor =>
    match lineEnd buf cursor with
    | none => if (buf.drop cursor).contains LF then .malformed else .incomplete
    | some crlf =>
      if (slice buf cursor crlf).any isBreak then .malformed
      else if crlf - cursor > MAX_LINE_LEN then .malformed
      else
        match buf[crlf + 2]? with
        | some b =>
          if isWsp b then scanValue buf nameAt nameLen valueAt fuel (crlf + 2)
          else .field ⟨nameAt, nameLen, valueAt, crlf - valueAt⟩ (crlf + 2)
        | none => .incomplete

def scanHeader (buf : Bytes) (at_ : Nat) : HeaderScan :=
  match buf[at_]? with
  | none => .incomplete
  | some first =>
    if first = CR then
      match buf[at_ + 1]? with
      | none => .incomplete
      | some b => if b = LF then .endOfBlock (at_ + 2) else .malformed
    else if first = LF || isWsp first then .malformed
    else
      let name := (buf.drop at_).takeWhile (· ≠ 0x3A)
      if !name.all isFtext then .malformed
      else if at_ + name.length ≥ buf.length then .incomplete
      else if name.length = 0 then .malformed
      else
        let valueAt := at_ + name.length + 1
        scanValue buf at_ name.length valueAt (buf.length + 1) valueAt

def putByte (room : Nat) (out : Bytes) (b : UInt8) : Option Bytes :=
  if out.length < room then some (out ++ [b]) else none

def unfoldLoop (room : Nat) : (fuel : Nat) → (atStart : Bool) → (rest out : Bytes) → Option Bytes
  | 0, _, _, out => some out
  | fuel + 1, atStart, rest, out =>
    match rest with
    | [] => some out
    | b :: rest =>
      if b = CR && rest.head? = some LF then
        -- A fold stands for one space, but not before anything was written.
        if atStart then unfoldLoop room fuel atStart ((rest.drop 1).dropWhile isWsp) out
        else (putByte room out 0x20).bind (unfoldLoop room fuel atStart ((rest.drop 1).dropWhile isWsp))
      else if atStart && isWsp b then unfoldLoop room fuel atStart rest out
      else (putByte room out b).bind (unfoldLoop room fuel false rest)

def unfoldValue (room : Nat) (buf : Bytes) (span : HeaderSpan) : Option Bytes :=
  (unfoldLoop room span.valueLen true (slice buf span.valueAt (span.valueAt + span.valueLen)) []).map
    (List.rdropWhile isWsp)

def headerNameIsValid (name : Bytes) : Bool := name ≠ [] && name.all isFtext

def isAsciiControl (b : UInt8) : Bool := b < 0x20 || b = 0x7F

def headerValueIsValid (value : Bytes) : Bool :=
  value.all fun b => b ≠ CR && b ≠ LF && (b = 0x09 || !isAsciiControl b)

def put (room : Nat) (out bytes : Bytes) : Option Bytes :=
  if out.length + bytes.length ≤ room then some (out ++ bytes) else none

/-- A word that would pass the fold column begins a line, once the line in hand has a word. -/
def folds (nameLen column : Nat) (w : Bytes) : Bool :=
  column > nameLen + 1 && column + 1 + w.length > FOLD_COLUMN

def writeTokens (room nameLen : Nat) : (fuel : Nat) → (column : Nat) → (value out : Bytes) → Option Bytes
  | 0, _, _, out => some out
  | fuel + 1, column, value, out =>
    let rest := value.dropWhile isWsp
    let token := rest.takeWhile fun b => !isWsp b
    if token = [] then some out
    else
      let fold := folds nameLen column token
      (put room out (if fold then CRLF ++ [0x20] else [0x20])).bind fun out =>
        (put room out token).bind
          (writeTokens room nameLen fuel ((if fold then 1 else column + 1) + token.length)
            (rest.drop token.length))

def writeHeader (room : Nat) (name value : Bytes) : Option Bytes :=
  if !headerNameIsValid name || !headerValueIsValid value then none
  else
    (put room [] name).bind fun out =>
      (put room out [0x3A]).bind fun out =>
        (writeTokens room name.length value.length (name.length + 1) value out).bind fun out => put room out CRLF

def wordsLoop : (fuel : Nat) → Bytes → List Bytes
  | 0, _ => []
  | fuel + 1, value =>
    let rest := value.dropWhile isWsp
    let token := rest.takeWhile fun b => !isWsp b
    if token = [] then [] else token :: wordsLoop fuel (rest.drop token.length)

def words (value : Bytes) : List Bytes := wordsLoop value.length value

def nextColumn (nameLen column : Nat) (w : Bytes) : Nat :=
  (if folds nameLen column w then 1 else column + 1) + w.length

def columns (nameLen : Nat) : (column : Nat) → List Bytes → List Nat
  | column, [] => [column]
  | column, w :: ws => column :: columns nameLen (nextColumn nameLen column w) ws

def folded (nameLen : Nat) : (column : Nat) → List Bytes → Bytes
  | _, [] => []
  | column, w :: ws =>
    (if folds nameLen column w then CRLF ++ [0x20] else [0x20]) ++
      (w ++ folded nameLen (nextColumn nameLen column w) ws)

def fieldText (name : Bytes) (ws : List Bytes) : Bytes :=
  name ++ [0x3A] ++ folded name.length (name.length + 1) ws ++ CRLF

/-- A word holds no white space and, in a value that may be written, no line break. -/
structure Word (w : Bytes) : Prop where
  ne_nil : w ≠ []
  visible : ∀ b ∈ w, isWsp b = false
  unbroken : ∀ b ∈ w, isBreak b = false

def SingleSpaced (value : Bytes) : Prop := [0x20].intercalate (words value) = value

def FitsLines (nameLen : Nat) (ws : List Bytes) : Prop := ∀ c ∈ columns nameLen (nameLen + 1) ws, c ≤ MAX_LINE_LEN

/-- What was written has lines that may be sent; the scan finds the field whole and reads its value. -/
def ReadsBack (name value out : Bytes) : Prop :=
  (∀ line ∈ Lines.split CR LF out, line.length ≤ MAX_LINE_LEN) ∧
    ∃ span, scanHeader (out ++ CRLF) 0 = .field span out.length ∧
      slice (out ++ CRLF) span.nameAt (span.nameAt + span.nameLen) = name ∧
        ∀ room, value.length ≤ room → unfoldValue room (out ++ CRLF) span = some value

instance (value : Bytes) : Decidable (SingleSpaced value) := inferInstanceAs (Decidable (_ = _))

instance (nameLen : Nat) (ws : List Bytes) : Decidable (FitsLines nameLen ws) :=
  inferInstanceAs (Decidable (∀ c ∈ _, _))

theorem put_some {out bytes out' : Bytes} (h : put room out bytes = some out') : out' = out ++ bytes := by
  unfold put at h
  split_ifs at h
  exact (Option.some.inj h).symm

theorem writeTokens_some {room nameLen fuel column : Nat} {value out out' : Bytes}
    (h : writeTokens room nameLen fuel column value out = some out') :
    out' = out ++ folded nameLen column (wordsLoop fuel value) := by
  induction fuel generalizing column value out with
  | zero => exact (Option.some.inj h).symm.trans (append_nil _).symm
  | succ fuel ih =>
    simp only [writeTokens, wordsLoop] at h ⊢
    generalize hrest : value.dropWhile isWsp = rest at h ⊢
    generalize (rest.takeWhile fun b => !isWsp b) = token at h ⊢
    by_cases htoken : token = []
    · rw [if_pos htoken] at h ⊢
      exact (Option.some.inj h).symm.trans (append_nil _).symm
    · rw [if_neg htoken] at h ⊢
      obtain ⟨out₁, h₁, h⟩ := bind_eq_some_iff.mp h
      obtain ⟨out₂, h₂, h⟩ := bind_eq_some_iff.mp h
      rw [ih h, put_some h₂, put_some h₁, folded, append_assoc, append_assoc]
      rfl

theorem writeHeader_some {name value out : Bytes} (h : writeHeader room name value = some out) :
    headerNameIsValid name = true ∧ headerValueIsValid value = true ∧ out = fieldText name (words value) := by
  unfold writeHeader at h
  split_ifs at h with hvalid
  simp only [or_eq_true, Bool.not_eq_true', not_or, Bool.not_eq_false] at hvalid
  obtain ⟨out₁, h₁, h⟩ := bind_eq_some_iff.mp h
  obtain ⟨out₂, h₂, h⟩ := bind_eq_some_iff.mp h
  obtain ⟨out₃, h₃, h⟩ := bind_eq_some_iff.mp h
  refine ⟨hvalid.1, hvalid.2, ?_⟩
  rw [put_some h, writeTokens_some h₃, put_some h₂, put_some h₁]
  rfl

theorem word_of_wordsLoop {fuel : Nat} {value w : Bytes} (hvalue : ∀ b ∈ value, isBreak b = false)
    (h : w ∈ wordsLoop fuel value) : Word w := by
  induction fuel generalizing value with
  | zero => cases h
  | succ fuel ih =>
    simp only [wordsLoop] at h
    have hrest : ∀ b ∈ value.dropWhile isWsp, isBreak b = false :=
      fun b hb => hvalue b (List.dropWhile_subset _ hb)
    generalize value.dropWhile isWsp = rest at h hrest
    split_ifs at h with htoken
    · cases h
    rcases mem_cons.mp h with rfl | h
    · exact ⟨htoken, fun b hb => by simpa using List.mem_takeWhile_imp hb,
        fun b hb => hrest b (List.takeWhile_subset _ hb)⟩
    · exact ih (fun b hb => hrest b (List.mem_of_mem_drop hb)) h

theorem unbroken_of_valid {value : Bytes} (h : headerValueIsValid value = true) : ∀ b ∈ value, isBreak b = false := by
  intro b hb
  have hb' := all_eq_true.mp h b hb
  simp only [and_eq_true, decide_eq_true_eq] at hb'
  simp [isBreak, hb'.1.1, hb'.1.2]

theorem ftext_kind (h : isFtext b = true) : isBreak b = false ∧ isWsp b = false ∧ b ≠ 0x3A := by
  have hall : ∀ b : UInt8, isFtext b = true → isBreak b = false ∧ isWsp b = false ∧ b ≠ 0x3A :=
    of_every_byte (by decide +kernel)
  exact hall b h

theorem whole_unbroken {l : Bytes} (h : ∀ b ∈ l, isBreak b = false) : Lines.Whole CR LF l := by
  intro hsep
  have hmem : CR ∈ l := hsep.subset mem_cons_self
  exact absurd (h CR hmem) (by decide)

theorem split_line {l : Bytes} (h : ∀ b ∈ l, isBreak b = false) (rest : Bytes) :
    Lines.split CR LF (l ++ (CRLF ++ rest)) = l :: Lines.split CR LF rest :=
  Lines.split_append (by decide) (whole_unbroken h) rest

theorem unbroken_append {a b : Bytes} (ha : ∀ c ∈ a, isBreak c = false) (hb : ∀ c ∈ b, isBreak c = false) :
    ∀ c ∈ a ++ b, isBreak c = false := fun c hc => (mem_append.mp hc).elim (ha c) (hb c)

theorem Word.spaced {w : Bytes} (h : Word w) : ∀ c ∈ 0x20 :: w, isBreak c = false := by
  intro c hc
  rcases mem_cons.mp hc with rfl | hc
  · rfl
  · exact h.unbroken c hc

theorem le_columns {nameLen column : Nat} (h : ∀ c ∈ columns nameLen column ws, c ≤ MAX_LINE_LEN) : column ≤ MAX_LINE_LEN := by
  cases ws with
  | nil => exact h column mem_cons_self
  | cons w ws => exact h column mem_cons_self

theorem lines_folded {nameLen : Nat} {cur : Bytes} (hws : ∀ w ∈ ws, Word w) (hcur : ∀ c ∈ cur, isBreak c = false) :
    (∀ line ∈ Lines.split CR LF (cur ++ (folded nameLen cur.length ws ++ CRLF)), line.length ≤ MAX_LINE_LEN) ↔
      ∀ c ∈ columns nameLen cur.length ws, c ≤ MAX_LINE_LEN := by
  induction ws generalizing cur with
  | nil =>
    rw [folded, nil_append, ← append_nil CRLF, split_line hcur]
    simp [Lines.split, columns]
  | cons w ws ih =>
    obtain ⟨hw, hws⟩ := forall_mem_cons.mp hws
    rw [folded, columns, forall_mem_cons, nextColumn]
    cases hfold : folds nameLen cur.length w with
    | true =>
      -- The word begins a line of its own.
      have hline : cur ++ (CRLF ++ [0x20] ++ (w ++ folded nameLen (1 + w.length) ws) ++ CRLF) =
          cur ++ (CRLF ++ (0x20 :: w ++ (folded nameLen (0x20 :: w).length ws ++ CRLF))) := by
        rw [length_cons, Nat.add_comm w.length 1]
        simp only [append_assoc, cons_append, nil_append]
      rw [if_pos rfl, if_pos rfl, hline, split_line hcur, forall_mem_cons, ih hws hw.spaced, length_cons,
        Nat.add_comm w.length 1]
    | false =>
      have hline : cur ++ ([0x20] ++ (w ++ folded nameLen (cur.length + 1 + w.length) ws) ++ CRLF) =
          cur ++ 0x20 :: w ++ (folded nameLen (cur ++ 0x20 :: w).length ws ++ CRLF) := by
        rw [length_append, length_cons, Nat.add_assoc, Nat.add_comm 1]
        simp only [append_assoc, cons_append, nil_append]
      have hlen : (cur ++ 0x20 :: w).length = cur.length + 1 + w.length := by
        rw [length_append, length_cons]
        omega
      rw [if_neg false_ne_true, if_neg false_ne_true, hline, ih hws (unbroken_append hcur hw.spaced), hlen]
      exact ⟨fun h => ⟨Nat.le_trans (by omega) (le_columns h), h⟩, fun h => h.2⟩

/-! ### The scan -/

theorem lineEnd_at {front l rest : Bytes} (h : ∀ b ∈ l, isBreak b = false) :
    lineEnd (front ++ (l ++ (CRLF ++ rest))) front.length = some (front.length + l.length) := by
  have hcr : CR ∉ l := fun hmem => absurd (h CR hmem) (by decide)
  rw [lineEnd, drop_left, show CRLF = CR :: [LF] from rfl, findPat_first hcr]
  rfl

theorem scanValue_line {nameAt nameLen valueAt fuel : Nat} {front l rest : Bytes} {c : UInt8}
    (hl : ∀ b ∈ l, isBreak b = false) (hlen : l.length ≤ MAX_LINE_LEN) :
    scanValue (front ++ (l ++ (CRLF ++ c :: rest))) nameAt nameLen valueAt (fuel + 1) front.length =
      if isWsp c then
        scanValue (front ++ (l ++ (CRLF ++ c :: rest))) nameAt nameLen valueAt fuel (front ++ (l ++ CRLF)).length
      else .field ⟨nameAt, nameLen, valueAt, (front ++ l).length - valueAt⟩ (front ++ (l ++ CRLF)).length := by
  have hslice : slice (front ++ (l ++ (CRLF ++ c :: rest))) front.length (front.length + l.length) = l :=
    slice_middle _ _ _
  have hbreak : l.any isBreak = false := by
    rw [any_eq_false]
    intro b hb
    rw [hl b hb]
    exact false_ne_true
  have hnext : front.length + l.length + 2 = (front ++ (l ++ CRLF)).length := by
    rw [length_append, length_append]
    rfl
  have hbyte : (front ++ (l ++ (CRLF ++ c :: rest)))[(front ++ (l ++ CRLF)).length]? = some c := by
    rw [show front ++ (l ++ (CRLF ++ c :: rest)) = front ++ (l ++ CRLF) ++ c :: rest from by
      simp only [append_assoc], List.getElem?_append_right (Nat.le_refl _), Nat.sub_self]
    rfl
  have hshort : ¬front.length + l.length - front.length > MAX_LINE_LEN := by omega
  rw [scanValue, lineEnd_at hl]
  dsimp only
  rw [hslice, hbreak, if_neg false_ne_true, if_neg hshort, hnext, hbyte, ← length_append]

theorem scanValue_folded {nameAt nameLen valueAt column : Nat} {front cur tail : Bytes} {fuel : Nat}
    (hws : ∀ w ∈ ws, Word w) (hcur : ∀ c ∈ cur, isBreak c = false) (hcolumn : cur.length ≤ column)
    (hfits : ∀ c ∈ columns nameLen column ws, c ≤ MAX_LINE_LEN) (hb : isWsp b = false) (hfuel : ws.length < fuel) :
    scanValue (front ++ (cur ++ (folded nameLen column ws ++ (CRLF ++ b :: tail)))) nameAt nameLen valueAt fuel
        front.length =
      .field ⟨nameAt, nameLen, valueAt, (front ++ (cur ++ folded nameLen column ws)).length - valueAt⟩
        (front ++ (cur ++ folded nameLen column ws ++ CRLF)).length := by
  induction ws generalizing column front cur fuel with
  | nil =>
    obtain ⟨fuel, rfl⟩ : ∃ n, fuel = n + 1 := ⟨fuel - 1, by omega⟩
    have hlen : cur.length ≤ MAX_LINE_LEN := Nat.le_trans hcolumn (le_columns hfits)
    rw [folded, nil_append, append_nil, scanValue_line hcur hlen, hb, if_neg false_ne_true]
  | cons w ws ih =>
    obtain ⟨hw, hws⟩ := forall_mem_cons.mp hws
    rw [columns, forall_mem_cons] at hfits
    obtain ⟨hhere, hfits⟩ := hfits
    have hroom : ws.length + 1 < fuel := hfuel
    rw [folded]
    rw [nextColumn] at hfits ⊢
    cases hfold : folds nameLen column w with
    | true =>
      obtain ⟨fuel, rfl⟩ : ∃ n, fuel = n + 1 := ⟨fuel - 1, by omega⟩
      rw [hfold, if_pos rfl] at hfits
      have hnext := @ih _ (front ++ (cur ++ CRLF)) (0x20 :: w) fuel hws hw.spaced
        (by rw [length_cons]; omega) hfits (by omega)
      simp only [if_true, append_assoc, cons_append, nil_append] at hnext ⊢
      rw [scanValue_line hcur (Nat.le_trans hcolumn hhere), if_pos (by decide)]
      exact hnext
    | false =>
      rw [hfold, if_neg false_ne_true] at hfits
      have hnext := @ih _ front (cur ++ 0x20 :: w) fuel hws
        (unbroken_append hcur hw.spaced) (by rw [length_append, length_cons]; omega) hfits (by omega)
      simp only [false_eq_true, if_false, append_assoc, cons_append, nil_append] at hnext ⊢
      exact hnext

theorem length_le_folded (nameLen : Nat) (ws : List Bytes) (column : Nat) :
    ws.length ≤ (folded nameLen column ws).length := by
  induction ws generalizing column with
  | nil => exact Nat.zero_le _
  | cons w ws ih =>
    have hrest := ih (nextColumn nameLen column w)
    rw [folded, length_append, length_append, length_cons]
    split_ifs <;> simp only [length_append, length_cons] <;> omega

theorem scanHeader_fieldText {name : Bytes} (hname : headerNameIsValid name = true)
    (hws : ∀ w ∈ ws, Word w) (hfits : FitsLines name.length ws) :
    scanHeader (fieldText name ws ++ CRLF) 0 =
      .field ⟨0, name.length, name.length + 1, (folded name.length (name.length + 1) ws).length⟩
        (fieldText name ws).length := by
  simp only [headerNameIsValid, and_eq_true, decide_eq_true_eq] at hname
  obtain ⟨hne, hall⟩ := hname
  have hftext := all_eq_true.mp hall
  obtain ⟨body, hbody⟩ : ∃ body, body = folded name.length (name.length + 1) ws := ⟨_, rfl⟩
  obtain ⟨buf, hbuf⟩ : ∃ buf, buf = fieldText name ws ++ CRLF := ⟨_, rfl⟩
  have htext : buf = name ++ (0x3A :: (body ++ (CRLF ++ CRLF))) := by
    rw [hbuf, fieldText, ← hbody]
    simp only [append_assoc, cons_append, nil_append]
  have htake : buf.takeWhile (· ≠ 0x3A) = name := by
    rw [htext, takeWhile_append_of_pos fun b hb => by simpa using (ftext_kind (hftext b hb)).2.2,
      takeWhile_cons_of_neg (by simp), append_nil]
  have hlen : ws.length ≤ buf.length := by
    have hwords := length_le_folded name.length ws (name.length + 1)
    rw [htext, length_append, length_cons, length_append, hbody]
    omega
  -- The value, from the byte behind the colon.
  have hvalue := @scanValue_folded ws CR 0 name.length (name.length + 1) (name.length + 1) (name ++ [0x3A]) [] [LF]
    (buf.length + 1) hws (by simp) (Nat.zero_le _) hfits (by decide) (by omega)
  have hwhole : name ++ [0x3A] ++ (([] : Bytes) ++ (folded name.length (name.length + 1) ws ++ (CRLF ++ [CR, LF]))) =
      buf := by
    rw [htext, hbody]
    simp only [append_assoc, cons_append, nil_append, CRLF]
  have hspan : (name ++ [0x3A] ++ (([] : Bytes) ++ folded name.length (name.length + 1) ws)).length -
      (name.length + 1) = body.length := by
    rw [← hbody, nil_append, length_append, length_append, length_singleton]
    omega
  have hend : (name ++ [0x3A] ++ (([] : Bytes) ++ folded name.length (name.length + 1) ws ++ CRLF)).length =
      (fieldText name ws).length := by
    rw [fieldText, nil_append, append_assoc (name ++ [0x3A])]
  rw [hwhole, hspan, hend, length_append, length_singleton] at hvalue
  -- The name.
  obtain ⟨first, rest, rfl⟩ := exists_cons_of_ne_nil hne
  have hfirst : buf[0]? = some first := by
    rw [htext]
    rfl
  obtain ⟨hbreak, hwsp, -⟩ := ftext_kind (hftext first mem_cons_self)
  simp only [isBreak, or_eq_false_iff, decide_eq_false_iff_not] at hbreak
  have hshort : ¬0 + (first :: rest).length ≥ buf.length := by
    rw [htext, length_append, length_cons (a := 0x3A)]
    omega
  rw [← hbuf, scanHeader, hfirst]
  dsimp only
  rw [if_neg hbreak.1, if_neg (by simp [hbreak.2, hwsp]), drop_zero, htake, hall]
  rw [if_neg (by decide), if_neg hshort, if_neg (by simp), Nat.zero_add, ← hbody]
  exact hvalue

/-! ### The value -/

theorem isBreak_of (h : isBreak b = false) : b ≠ CR := by
  rintro rfl
  exact absurd h (by decide)

theorem putByte_some {out : Bytes} (b : UInt8) (h : out.length < room) :
    putByte room out b = some (out ++ [b]) := if_pos h

theorem unfoldLoop_byte {room fuel : Nat} {atStart : Bool} {rest out : Bytes} (hb : isBreak b = false)
    (hstart : atStart = true → isWsp b = false) (hroom : out.length < room) :
    unfoldLoop room (fuel + 1) atStart (b :: rest) out = unfoldLoop room fuel false rest (out ++ [b]) := by
  have hskip : ¬(atStart && isWsp b) = true := by
    cases atStart with
    | false => exact false_ne_true
    | true => rw [hstart rfl]; exact false_ne_true
  rw [unfoldLoop, if_neg (by simp [isBreak_of hb]), if_neg hskip, putByte_some b hroom, bind_some]

theorem unfoldLoop_run {room fuel : Nat} {l rest out : Bytes} (hl : ∀ b ∈ l, isBreak b = false)
    (hroom : out.length + l.length ≤ room) :
    unfoldLoop room (l.length + fuel) false (l ++ rest) out = unfoldLoop room fuel false rest (out ++ l) := by
  induction l generalizing out with
  | nil => rw [length_nil, Nat.zero_add, nil_append, append_nil]
  | cons b l ih =>
    rw [length_cons] at hroom
    rw [length_cons, Nat.add_right_comm, cons_append,
      unfoldLoop_byte (hl b mem_cons_self) (fun h => absurd h false_ne_true) (by omega),
      ih (fun c hc => hl c (mem_cons_of_mem _ hc)) (by rw [length_append, length_singleton]; omega),
      append_assoc, singleton_append]

theorem unfoldLoop_fold {room fuel : Nat} {w rest out : Bytes} (hw : Word w) (hroom : out.length < room) :
    unfoldLoop room (fuel + 1) false (CRLF ++ 0x20 :: (w ++ rest)) out =
      unfoldLoop room fuel false (w ++ rest) (out ++ [0x20]) := by
  obtain ⟨b, w', rfl⟩ := exists_cons_of_ne_nil hw.ne_nil
  have hdrop : (0x20 :: (b :: w' ++ rest)).dropWhile isWsp = b :: w' ++ rest := by
    rw [List.dropWhile_cons_of_pos (by decide), cons_append,
      dropWhile_cons_of_neg (by rw [hw.visible b mem_cons_self]; exact false_ne_true)]
  show unfoldLoop room (fuel + 1) false (CR :: LF :: 0x20 :: (b :: w' ++ rest)) out = _
  rw [unfoldLoop, if_pos (by simp), if_neg false_ne_true, putByte_some _ hroom, bind_some]
  exact congrArg (unfoldLoop room fuel false · (out ++ [0x20])) hdrop

def spaced (ws : List Bytes) : Bytes := ws.flatMap (0x20 :: ·)

theorem intercalate_cons (w : Bytes) (ws : List Bytes) : [0x20].intercalate (w :: ws) = w ++ spaced ws := by
  induction ws generalizing w with
  | nil => simp [spaced, List.intercalate]
  | cons v ws ih =>
    rw [show [0x20].intercalate (w :: v :: ws) = w ++ ([0x20] ++ [0x20].intercalate (v :: ws)) from by
      simp [List.intercalate, List.intersperse], ih, spaced, spaced, flatMap_cons]
    rfl

theorem unfoldLoop_folded {room nameLen column fuel : Nat} {out : Bytes} (hws : ∀ w ∈ ws, Word w)
    (hroom : out.length + (spaced ws).length ≤ room) (hfuel : (folded nameLen column ws).length ≤ fuel) :
    unfoldLoop room fuel false (folded nameLen column ws) out = some (out ++ spaced ws) := by
  induction ws generalizing column fuel out with
  | nil => cases fuel <;> simp [folded, spaced, unfoldLoop]
  | cons w ws ih =>
    obtain ⟨hw, hws⟩ := forall_mem_cons.mp hws
    rw [folded] at hfuel ⊢
    simp only [spaced, flatMap_cons, length_append, length_cons] at hroom
    have hlen : (out ++ [0x20]).length = out.length + 1 := by rw [length_append, length_singleton]
    have hlen' : (out ++ [0x20] ++ w).length = out.length + 1 + w.length := by rw [length_append, hlen]
    have hall : out ++ spaced (w :: ws) = out ++ [0x20] ++ w ++ spaced ws := by
      rw [spaced, flatMap_cons, ← spaced]
      simp only [append_assoc, cons_append, nil_append]
    rw [hall]
    cases hfold : folds nameLen column w with
    | true =>
      rw [hfold, if_pos rfl, length_append, length_append] at hfuel
      obtain ⟨fuel', rfl⟩ : ∃ n, fuel = w.length + n + 1 := ⟨fuel - w.length - 1, by
        simp only [length_append, CRLF, length_cons, length_nil] at hfuel
        omega⟩
      rw [if_pos rfl, append_assoc, singleton_append, unfoldLoop_fold hw (by omega),
        unfoldLoop_run hw.unbroken (by omega)]
      exact ih hws (by rw [hlen', spaced]; omega) (by
        simp only [length_append, CRLF, length_cons, length_nil] at hfuel
        omega)
    | false =>
      rw [hfold, if_neg false_ne_true, length_append, length_append, length_singleton] at hfuel
      obtain ⟨fuel', rfl⟩ : ∃ n, fuel = w.length + n + 1 := ⟨fuel - w.length - 1, by omega⟩
      rw [if_neg false_ne_true, singleton_append,
        unfoldLoop_byte (by decide) (fun h => absurd h false_ne_true) (by omega),
        unfoldLoop_run hw.unbroken (by omega)]
      exact ih hws (by rw [hlen', spaced]; omega) (by omega)

theorem unfold_words {room nameLen : Nat} (hws : ∀ w ∈ ws, Word w) (hroom : ([0x20].intercalate ws).length ≤ room) :
    unfoldLoop room (folded nameLen (nameLen + 1) ws).length true (folded nameLen (nameLen + 1) ws) [] =
      some ([0x20].intercalate ws) := by
  cases ws with
  | nil => rfl
  | cons w ws =>
    obtain ⟨hw, htail⟩ := forall_mem_cons.mp hws
    rw [intercalate_cons, length_append] at hroom
    -- No fold stands before the first word.
    have hfold : folds nameLen (nameLen + 1) w = false := by simp [folds]
    rw [folded, hfold, if_neg false_ne_true, intercalate_cons]
    generalize hcolumn : nextColumn nameLen (nameLen + 1) w = column
    obtain ⟨b, w', rfl⟩ := exists_cons_of_ne_nil hw.ne_nil
    simp only [cons_append, nil_append, length_cons, length_append] at hroom ⊢
    rw [unfoldLoop, if_neg (by simp [CR]), if_pos (by decide),
      unfoldLoop_byte (hw.unbroken b mem_cons_self) (fun _ => hw.visible b mem_cons_self) (by
        rw [length_nil]
        omega),
      unfoldLoop_run (fun c hc => hw.unbroken c (mem_cons_of_mem _ hc)) (by
        rw [length_append, length_nil, length_singleton]
        omega),
      unfoldLoop_folded htail (by
        rw [length_append, length_append, length_nil, length_singleton]
        omega) (Nat.le_refl _)]
    rfl

theorem rdropWhile_words (hws : ∀ w ∈ ws, Word w) :
    ([0x20].intercalate ws).rdropWhile isWsp = [0x20].intercalate ws := by
  rcases eq_nil_or_concat ws with rfl | ⟨init, w, hconcat⟩
  · rfl
  rw [concat_eq_append] at hconcat
  subst hconcat
  have hw : Word w := hws w (by simp)
  obtain ⟨front, hfront⟩ : ∃ front, [0x20].intercalate (init ++ [w]) = front ++ w := by
    cases init with
    | nil => exact ⟨[], by simp [List.intercalate]⟩
    | cons v init =>
      refine ⟨v ++ spaced init ++ [0x20], ?_⟩
      rw [cons_append, intercalate_cons, spaced, spaced, flatMap_append, flatMap_singleton]
      simp only [append_assoc, singleton_append]
  rcases eq_nil_or_concat w with hnil | ⟨w', b, hb⟩
  · exact absurd hnil hw.ne_nil
  · have hvisible : isWsp b = false := hw.visible b (by rw [hb]; simp)
    rw [hfront, hb, concat_eq_append, ← append_assoc, List.rdropWhile_concat_neg _ _ _ (by simp [hvisible])]

theorem slice_fieldText (name : Bytes) (ws : List Bytes) :
    slice (fieldText name ws ++ CRLF) 0 (0 + name.length) = name ∧
      slice (fieldText name ws ++ CRLF) (name.length + 1)
        (name.length + 1 + (folded name.length (name.length + 1) ws).length) =
          folded name.length (name.length + 1) ws := by
  constructor
  · have h := slice_middle [] name ([0x3A] ++ folded name.length (name.length + 1) ws ++ CRLF ++ CRLF)
    rw [nil_append, length_nil] at h
    rw [fieldText]
    simp only [append_assoc] at h ⊢
    exact h
  · have h := slice_middle (name ++ [0x3A]) (folded name.length (name.length + 1) ws) (CRLF ++ CRLF)
    rw [length_append, length_singleton] at h
    rw [fieldText]
    simp only [append_assoc] at h ⊢
    exact h

/-! ### More of the buffer -/

/-- A line feed that no carriage return was before is before the first line end of a longer text. -/
theorem mem_before_lineEnd {l more : Bytes} {i : Nat} (hnone : findPat CRLF l = none) (hlf : LF ∈ l)
    (h : findPat CRLF (l ++ more) = some i) : LF ∈ (l ++ more).take i := by
  obtain ⟨a, b, hsplit, rfl⟩ := findPat_split h
  have htake : (l ++ more).take a.length = a := by rw [hsplit, append_assoc, take_left]
  rw [htake]
  rw [append_assoc] at hsplit
  rcases append_eq_append_iff.mp hsplit with ⟨a', rfl, hrest⟩ | ⟨c, rfl, hrest⟩
  · exact mem_append_left _ hlf
  · match c, hrest with
    | [], _ => simpa using hlf
    | [x], hrest =>
      obtain ⟨rfl, -⟩ := List.cons.inj hrest
      rcases mem_append.mp hlf with hmem | hmem
      · exact hmem
      · exact absurd (mem_singleton.mp hmem) (by decide)
    | x :: y :: c, hrest =>
      obtain ⟨rfl, htail⟩ := List.cons.inj hrest
      obtain ⟨rfl, -⟩ := List.cons.inj htail
      obtain ⟨j, hj, -⟩ := findPat_of_occurs (show CRLF ≠ [] by decide) a c
      rw [show a ++ (CRLF ++ c) = a ++ CR :: LF :: c from rfl, hnone] at hj
      cases hj

theorem scanValue_append {buf more : Bytes} {nameAt nameLen valueAt fuel fuel' cursor : Nat}
    (h : scanValue buf nameAt nameLen valueAt fuel cursor ≠ .incomplete) (hfuel : fuel ≤ fuel') :
    scanValue (buf ++ more) nameAt nameLen valueAt fuel' cursor = scanValue buf nameAt nameLen valueAt fuel cursor := by
  induction fuel generalizing fuel' cursor with
  | zero => exact absurd rfl h
  | succ fuel ih =>
    obtain ⟨fuel', rfl⟩ : ∃ n, fuel' = n + 1 := ⟨fuel' - 1, by omega⟩
    rw [scanValue] at h
    rw [scanValue, scanValue]
    cases hline : findPat CRLF (buf.drop cursor) with
    | none =>
      rw [lineEnd, hline, Option.map_none] at h
      dsimp only at h
      by_cases hlf : (buf.drop cursor).contains LF = true
      · have hmem : LF ∈ buf.drop cursor := contains_iff_mem.mp hlf
        have hcursor : cursor ≤ buf.length := by
          by_contra hlong
          rw [drop_of_length_le (by omega)] at hmem
          cases hmem
        have hdrop : (buf ++ more).drop cursor = buf.drop cursor ++ more := drop_append_of_le_length hcursor
        rw [lineEnd, lineEnd, hline, Option.map_none, hdrop]
        dsimp only
        rw [if_pos hlf]
        cases hlonger : findPat CRLF (buf.drop cursor ++ more) with
        | none =>
          rw [Option.map_none]
          dsimp only
          rw [if_pos (contains_iff_mem.mpr (mem_append_left _ hmem))]
        | some i =>
          have hbreak : (slice (buf ++ more) cursor (cursor + i)).any isBreak = true := by
            rw [List.any_eq_true]
            refine ⟨LF, ?_, rfl⟩
            rw [slice, hdrop, Nat.add_sub_cancel_left]
            exact mem_before_lineEnd hline hmem hlonger
          rw [map_some]
          dsimp only
          rw [if_pos hbreak]
      · rw [if_neg hlf] at h
        exact absurd rfl h
    | some i =>
      have hend := findPat_le hline
      rw [length_drop, show CRLF.length = 2 from rfl] at hend
      have hdrop : (buf ++ more).drop cursor = buf.drop cursor ++ more :=
        drop_append_of_le_length (by omega)
      have hsame : lineEnd (buf ++ more) cursor = lineEnd buf cursor := by
        rw [lineEnd, lineEnd, hdrop, findPat_append hline, hline]
      have hslice : slice (buf ++ more) cursor (cursor + i) = slice buf cursor (cursor + i) := by
        rw [slice, slice, hdrop, take_append_of_le_length (by rw [length_drop]; omega)]
      rw [hsame, lineEnd, hline, map_some]
      rw [lineEnd, hline, map_some] at h
      dsimp only at h ⊢
      rw [hslice]
      split_ifs at h ⊢
      · rfl
      · rfl
      · cases hbyte : buf[cursor + i + 2]? with
        | none =>
          rw [hbyte] at h
          exact absurd rfl h
        | some b =>
          have hin := (List.getElem?_eq_some_iff.mp hbyte).1
          rw [hbyte] at h
          rw [List.getElem?_append_left hin, hbyte]
          dsimp only at h ⊢
          split_ifs at h ⊢
          · exact ih h (by omega)
          · rfl

theorem scanHeader_append (buf more : Bytes) {at_ : Nat} (h : scanHeader buf at_ ≠ .incomplete) :
    scanHeader (buf ++ more) at_ = scanHeader buf at_ := by
  rw [scanHeader] at h
  rw [scanHeader, scanHeader]
  cases hfirst : buf[at_]? with
  | none =>
    rw [hfirst] at h
    exact absurd rfl h
  | some first =>
    have hin := (List.getElem?_eq_some_iff.mp hfirst).1
    rw [hfirst] at h
    rw [List.getElem?_append_left hin, hfirst]
    dsimp only at h ⊢
    by_cases hcr : first = CR
    · rw [if_pos hcr] at h
      rw [if_pos hcr, if_pos hcr]
      cases hsecond : buf[at_ + 1]? with
      | none =>
        rw [hsecond] at h
        exact absurd rfl h
      | some b => rw [List.getElem?_append_left (List.getElem?_eq_some_iff.mp hsecond).1, hsecond]
    rw [if_neg hcr] at h
    rw [if_neg hcr, if_neg hcr]
    by_cases hblank : (first = LF || isWsp first) = true
    · rw [if_pos hblank, if_pos hblank]
    rw [if_neg hblank] at h
    rw [if_neg hblank, if_neg hblank, drop_append_of_le_length (Nat.le_of_lt hin), List.takeWhile_append]
    generalize hname : (buf.drop at_).takeWhile (· ≠ 0x3A) = name at h ⊢
    by_cases hall : name.all isFtext = true
    · by_cases hcolon : at_ + name.length ≥ buf.length
      · rw [hall, if_neg (by decide), if_pos hcolon] at h
        exact absurd rfl h
      · -- The colon is there, so the name is the name.
        have hshort : name.length ≠ (buf.drop at_).length := by
          rw [length_drop]
          omega
        have hgood : ¬(!name.all isFtext) = true := by simp [hall]
        have hlonger : buf.length ≤ (buf ++ more).length := by rw [length_append]; omega
        have hcolon' : ¬at_ + name.length ≥ (buf ++ more).length := by omega
        rw [if_neg hgood, if_neg hcolon] at h
        rw [if_neg hshort, if_neg hgood, if_neg hgood, if_neg hcolon, if_neg hcolon']
        by_cases hempty : name.length = 0
        · rw [if_pos hempty, if_pos hempty]
        · rw [if_neg hempty] at h
          rw [if_neg hempty, if_neg hempty]
          exact scanValue_append h (Nat.succ_le_succ hlonger)
    · have hbad : (!name.all isFtext) = true := by simpa using hall
      by_cases hwhole : name.length = (buf.drop at_).length
      · have hl : buf.drop at_ = name :=
          (List.IsPrefix.eq_of_length (hname ▸ takeWhile_prefix _) hwhole).symm
        have hbad' : (!(name ++ more.takeWhile (· ≠ 0x3A)).all isFtext) = true := by
          rw [List.all_append, eq_false_iff.mpr hall, Bool.false_and]
          rfl
        rw [if_pos hwhole, hl, if_pos hbad', if_pos hbad]
      · rw [if_neg hwhole, if_pos hbad, if_pos hbad]

theorem readsBack_iff {name value out : Bytes} (h : writeHeader room name value = some out) :
    ReadsBack name value out ↔ SingleSpaced value ∧ FitsLines name.length (words value) := by
  obtain ⟨hname, hvalue, rfl⟩ := writeHeader_some h
  have hws : ∀ w ∈ words value, Word w := fun w hw => word_of_wordsLoop (unbroken_of_valid hvalue) hw
  have hftext := hname
  simp only [headerNameIsValid, and_eq_true, all_eq_true] at hftext
  have hlines := @lines_folded _ name.length (name ++ [0x3A]) hws (unbroken_append
    (fun c hc => (ftext_kind (hftext.2 c hc)).1) (by decide +kernel))
  rw [length_append, length_singleton, ← append_assoc] at hlines
  have hunfold : ∀ room, ([0x20].intercalate (words value)).length ≤ room →
      unfoldValue room (fieldText name (words value) ++ CRLF)
        ⟨0, name.length, name.length + 1, (folded name.length (name.length + 1) (words value)).length⟩ =
          some ([0x20].intercalate (words value)) := by
    intro room hroom
    rw [unfoldValue]
    dsimp only
    rw [(slice_fieldText name _).2, unfold_words hws hroom, map_some, rdropWhile_words hws]
  constructor
  · rintro ⟨hshort, span, hscan, -, hread⟩
    have hfits : FitsLines name.length (words value) := hlines.mp hshort
    rw [scanHeader_fieldText hname hws hfits] at hscan
    obtain ⟨rfl, -⟩ := HeaderScan.field.inj hscan
    refine ⟨?_, hfits⟩
    have hsame := hunfold (max value.length ([0x20].intercalate (words value)).length) (Nat.le_max_right _ _)
    rw [hread _ (Nat.le_max_left _ _)] at hsame
    exact (Option.some.inj hsame).symm
  · rintro ⟨hspaced, hfits⟩
    refine ⟨hlines.mpr hfits, _, scanHeader_fieldText hname hws hfits, (slice_fieldText name _).1, fun room hroom => ?_⟩
    rw [SingleSpaced] at hspaced
    rw [hunfold room (by rw [hspaced]; exact hroom), hspaced]

/-- A field reads back, on lines that may be sent, just when its value is its words with one space between them and no
word ends past the longest line. -/
theorem writeHeader_reads_back_iff {room : Nat} {name value out : Bytes}
    (h : writeHeader room name value = some out) :
    (ReadsBack name value out ↔ SingleSpaced value ∧ FitsLines name.length (words value)) ∧
      ∀ buf more at_, scanHeader buf at_ ≠ .incomplete → scanHeader (buf ++ more) at_ = scanHeader buf at_ :=
  ⟨readsBack_iff h, fun buf more _ hscan => scanHeader_append buf more hscan⟩

theorem writeHeader_reads_back_subject :
    (ReadsBack (ascii "Subject") (ascii "ten to one") (ascii "Subject: ten to one\r\n") ↔
      SingleSpaced (ascii "ten to one") ∧ FitsLines 7 (words (ascii "ten to one"))) ∧
    ∀ buf more at_, scanHeader buf at_ ≠ .incomplete → scanHeader (buf ++ more) at_ = scanHeader buf at_ :=
  @writeHeader_reads_back_iff 100 _ _ _ (by decide +kernel)

/-- Two spaces are read as one. -/
theorem writeHeader_double_space :
    ¬∀ (room : Nat) (name value out : Bytes), (∀ b ∈ value.head?, isWsp b = false) →
      (∀ b ∈ value.getLast?, isWsp b = false) → writeHeader room name value = some out →
        ReadsBack name value out := by
  intro h
  obtain ⟨-, span, hscan, -, hread⟩ := h 100 (ascii "a") (ascii "b  c") (ascii "a: b c\r\n") (by decide +kernel)
    (by decide +kernel) (by decide +kernel)
  have hspan : scanHeader (ascii "a: b c\r\n" ++ CRLF) 0 = .field ⟨0, 1, 2, 4⟩ 8 := by decide +kernel
  obtain ⟨rfl, -⟩ := HeaderScan.field.inj (hscan.symm.trans hspan)
  exact absurd (hread 4 (by decide)) (by decide +kernel)

end Wave.Common.Rfc5322
