import Wave.Http.BodyFraming
import Wave.Http.FieldBlock
import Wave.Lib.Decimal

/-! # Request heads, written and read back (`http/wire/h1.rs`) -/

namespace Wave.Http

open Lib Fields

variable {v : Bytes}

structure SdkVerbs extends SdkHttp where
  code : Method → UInt8
  methodName : UInt8 → Bytes

structure RequestOptions where
  authority : Bytes
  bodyLen : UInt64
  http11 : Bool
  keepAlive : Bool

def isGraphic (b : UInt8) : Bool := decide (32 < b) && b != 127

def put (cap : Nat) (dst src : Bytes) : Option Bytes := if dst.length + src.length > cap then none else some (dst ++ src)

def requestHeadPieces (verb path : Bytes) (options : RequestOptions) : List Bytes :=
  [verb, [SP], path, if options.http11 then ascii " HTTP/1.1\r\nHost: " else ascii " HTTP/1.0\r\nHost: ",
    options.authority] ++
  (if options.bodyLen > 0 then [ascii "\r\nContent-Length: ", decimal options.bodyLen.toNat] else []) ++
  [if options.keepAlive then ascii "\r\nConnection: keep-alive\r\n\r\n" else ascii "\r\nConnection: close\r\n\r\n"]

def writeRequestHead (sdk : SdkVerbs) (dstCap : Nat) (method : UInt8) (path : Bytes) (options : RequestOptions) : Bytes :=
  if path = [] ∨ options.authority = [] then []
  else if path.head? ≠ some SLASH ∨ path.any (!isGraphic ·) ∨ options.authority.any (!isGraphic ·) ∨
      method = sdk.code .connect then []
  else
    let verb := sdk.methodName method
    if verb = [] then []
    else ((requestHeadPieces verb path options).foldlM (put dstCap) []).getD []

def findHeaderEnd (buf : Bytes) : Option Nat := (findPat blankLine buf).map (· + 4)

/-- The exchange contract's table: every code that has a name is read back from it, and a name is a short token. -/
structure SdkVerbs.Documented (sdk : SdkVerbs) : Prop where
  token : ∀ m, sdk.methodName m ≠ [] → sdk.code (sdk.methodFromToken (sdk.methodName m)) = m
  graphic : ∀ m, ∀ b ∈ sdk.methodName m, isGraphic b = true
  short : ∀ m, (sdk.methodName m).length ≤ MAX_METHOD_SCAN

section Lines

variable {line rest : Bytes} {lines : List Bytes}

def headTail (lines : List Bytes) : Bytes := crlf ++ lines.flatMap (· ++ crlf) ++ crlf

theorem headTail_cons (line : Bytes) (lines : List Bytes) :
    headTail (line :: lines) = crlf ++ (line ++ headTail lines) := by
  simp [headTail]

theorem findPat_skip {x : UInt8} {pat : Bytes} (h : x ∉ line) (rest : Bytes) :
    findPat (x :: pat) (line ++ rest) = (findPat (x :: pat) rest).map (· + line.length) := by
  induction line with
  | nil => simp
  | cons y line ih =>
    obtain ⟨hne, hline⟩ := List.ne_and_not_mem_of_not_mem_cons h
    rw [cons_append, findPat_cons_miss, ih hline, Option.map_map, length_cons]
    · rfl
    · rw [eq_false_iff]
      intro hyes
      rw [List.isPrefixOf_cons_cons, and_eq_true, beq_iff_eq] at hyes
      exact hne hyes.1

theorem findPat_headTail (hsome : [] ∉ lines) (hcr : ∀ l ∈ lines, CR ∉ l) :
    (findPat blankLine (headTail lines)).map (· + 4) = some (headTail lines).length := by
  induction lines with
  | nil => rfl
  | cons l lines ih =>
    obtain ⟨hfirst, hsome'⟩ := List.ne_and_not_mem_of_not_mem_cons hsome
    obtain ⟨hl, hcr'⟩ := forall_mem_cons.mp hcr
    obtain ⟨b, bs, rfl⟩ := exists_cons_of_ne_nil (Ne.symm hfirst)
    have hb : CR ≠ b := fun heq => hl (heq ▸ mem_cons_self)
    have hskip : findPat blankLine (crlf ++ ((b :: bs) ++ headTail lines)) =
        (findPat blankLine ((b :: bs) ++ headTail lines)).map (· + 2) := by
      have hcrmiss : blankLine.isPrefixOf (CR :: LF :: b :: (bs ++ headTail lines)) = false := by
        simp [blankLine, List.isPrefixOf, hb]
      have hlfmiss : blankLine.isPrefixOf (LF :: b :: (bs ++ headTail lines)) = false := rfl
      change findPat blankLine (CR :: LF :: b :: (bs ++ headTail lines)) = _
      rw [findPat_cons_miss hcrmiss, findPat_cons_miss hlfmiss, Option.map_map]
      rfl
    obtain ⟨n, hn, hend⟩ := map_eq_some_iff.mp (ih hsome' hcr')
    have hfind : findPat blankLine ((b :: bs) ++ headTail lines) = some (n + (b :: bs).length) := by
      rw [blankLine, findPat_skip hl, ← blankLine, hn]
      rfl
    rw [headTail_cons, hskip, hfind]
    change some (n + (b :: bs).length + 2 + 4) = some _
    rw [length_append, length_append, ← hend]
    congr 1
    change _ = 2 + _
    omega

theorem fieldLinesFrom_line {acc : Bytes} (hcr : CR ∉ line) (hne : acc ≠ [] ∨ line ≠ []) (rest : Bytes) :
    fieldLinesFrom acc (line ++ (crlf ++ rest)) = (acc.reverse ++ line) :: fieldLinesFrom [] rest := by
  induction line generalizing acc with
  | nil =>
    have hacc : acc ≠ [] := by
      rcases hne with h | h
      · exact h
      · exact absurd rfl h
    change fieldLinesFrom acc (CR :: LF :: rest) = _
    rw [fieldLinesFrom, if_pos ⟨rfl, rfl⟩, if_neg hacc, append_nil]
  | cons b line ih =>
    obtain ⟨hb, hline⟩ := List.ne_and_not_mem_of_not_mem_cons hcr
    obtain ⟨c, l, hl⟩ : ∃ c l, line ++ (crlf ++ rest) = c :: l := by
      cases line with
      | nil => exact ⟨CR, LF :: rest, rfl⟩
      | cons c l => exact ⟨c, _, rfl⟩
    rw [cons_append, hl, fieldLinesFrom, if_neg fun h => hb h.1.symm, ← hl,
      ih hline (Or.inl (cons_ne_nil _ _)), List.reverse_cons, append_assoc]
    rfl

theorem fieldLines_headTail (hcr : CR ∉ line) (hsome : [] ∉ lines) (hlines : ∀ l ∈ lines, CR ∉ l) :
    fieldLines (line ++ headTail lines) = lines := by
  have hfind : findPat crlf (line ++ headTail lines) = some line.length := by
    rw [headTail, append_assoc]
    exact findPat_first hcr _
  have hrest : fieldLinesFrom [] (lines.flatMap (· ++ crlf) ++ crlf) = lines := by
    clear hfind
    induction lines with
    | nil => rfl
    | cons l lines ih =>
      obtain ⟨hfirst, hsome⟩ := List.ne_and_not_mem_of_not_mem_cons hsome
      obtain ⟨hl, hlines⟩ := forall_mem_cons.mp hlines
      rw [flatMap_cons, append_assoc, append_assoc, fieldLinesFrom_line hl (Or.inr (Ne.symm hfirst)),
        ih hsome hlines]
      rfl
  rw [fieldLines, hfind]
  dsimp only
  rw [drop_append, drop_eq_nil_of_le (by omega), show line.length + 2 - line.length = 2 by omega]
  exact hrest

end Lines

section Fields

variable {head name : Bytes} {fields : List Field} {f : Field}

theorem splitField_fieldLine (h : COLON ∉ f.1) : splitField (fieldLine f) = some (f.1, SP :: f.2) := by
  have hspan : ∀ b ∈ f.1, (b != COLON) = true := fun b hb => bne_iff_ne.mpr fun heq => h (heq ▸ hb)
  have hcolon : COLON ∈ fieldLine f := mem_append_right _ mem_cons_self
  rw [splitField, if_pos hcolon, fieldLine, takeWhile_append_of_pos hspan,
    takeWhile_cons_of_neg (by simp), append_nil, List.dropWhile_append_of_pos hspan,
    dropWhile_cons_of_neg (by simp)]
  rfl

theorem fieldValues_of_fields (hlines : fieldLines head = fields.map fieldLine) (hcolon : ∀ f ∈ fields, COLON ∉ f.1)
    (name : Bytes) : fieldValues head name = (fields.filter (eqIgnoreCase ·.1 name)).map (SP :: ·.2) := by
  rw [fieldValues, hlines]
  clear hlines
  induction fields with
  | nil => rfl
  | cons f fields ih =>
    obtain ⟨hf, hcolon⟩ := forall_mem_cons.mp hcolon
    rw [map_cons, List.filterMap_cons, splitField_fieldLine hf, List.filter_cons, ih hcolon]
    dsimp only
    by_cases hname : eqIgnoreCase f.1 name = true
    · rw [if_pos hname, if_pos hname]
      rfl
    · rw [if_neg hname, if_neg hname]

theorem isOws_of_graphic {b : UInt8} (h : isGraphic b = true) : isOws b = false := by
  rw [isOws, or_eq_false_iff, decide_eq_false_iff_not, decide_eq_false_iff_not]
  constructor <;> rintro rfl <;> cases h

theorem dropWhile_graphic (h : ∀ b ∈ v, isGraphic b = true) : v.dropWhile isOws = v := by
  cases v with
  | nil => rfl
  | cons b v => exact dropWhile_cons_of_neg (by rw [isOws_of_graphic (h b mem_cons_self)]; exact nofun)

theorem trimOws_graphic (h : ∀ b ∈ v, isGraphic b = true) : trimOws (SP :: v) = v := by
  rw [trimOws, List.dropWhile_cons_of_pos rfl, dropWhile_graphic h,
    dropWhile_graphic fun b hb => h b (List.mem_reverse.mp hb), List.reverse_reverse]

end Fields

theorem decimalU64_append {digits : Bytes} {n d : Nat} (h : decimalU64 digits = some n) (hd : d < 10)
    (hfits : n * 10 + d < 2 ^ 64) : decimalU64 (digits ++ [digitByte d]) = some (n * 10 + d) := by
  have hdigits : ∀ d < 10, isDigit (digitByte d) = true ∧ (digitByte d - 0x30).toNat = d := by decide
  obtain ⟨hdigit, hvalue⟩ := hdigits d hd
  unfold decimalU64 at h ⊢
  rw [foldl_append, h, foldl_cons, foldl_nil]
  dsimp only
  rw [if_pos hdigit, hvalue, if_pos hfits]

theorem decimalU64_decimal {n : Nat} (h : n < 2 ^ 64) : decimalU64 (decimal n) = some n := by
  refine decimal_induction (P := fun n digits => n < 2 ^ 64 → decimalU64 digits = some n) (fun d hd _ => ?_)
    (fun n digits d ih hd hfits => decimalU64_append (ih (by omega)) hd hfits) n h
  have hone : decimalU64 ([] ++ [digitByte d]) = some (0 * 10 + d) := decimalU64_append rfl hd (by omega)
  rwa [nil_append, Nat.zero_mul, Nat.zero_add] at hone

theorem graphic_decimal {n : Nat} {b : UInt8} (h : b ∈ decimal n) : isGraphic b = true := by
  obtain ⟨hlow, hhigh⟩ := mem_decimal h
  rw [isGraphic, and_eq_true, decide_eq_true_eq, bne_iff_ne, UInt8.lt_iff_toNat_lt]
  refine ⟨?_, ?_⟩
  · change 32 < b.toNat
    omega
  · rintro rfl
    exact absurd hhigh (by decide)

section Written

variable {sdk : SdkVerbs} {dstCap : Nat} {method : UInt8} {verb path : Bytes} {options : RequestOptions}

def requestLine (verb path : Bytes) (options : RequestOptions) : Bytes :=
  verb ++ SP :: path ++ (if options.http11 then ascii " HTTP/1.1" else ascii " HTTP/1.0")

def requestFields (options : RequestOptions) : List Field :=
  (ascii "Host", options.authority) ::
    (if options.bodyLen > 0 then [(ascii "Content-Length", decimal options.bodyLen.toNat)] else []) ++
    [(ascii "Connection", if options.keepAlive then ascii "keep-alive" else ascii "close")]

theorem requestHeadPieces_flatten (verb path : Bytes) (options : RequestOptions) :
    (requestHeadPieces verb path options).flatten =
      requestLine verb path options ++ headTail ((requestFields options).map fieldLine) := by
  obtain ⟨authority, bodyLen, http11, keepAlive⟩ := options
  have hversion : ∀ v : Bytes, v ++ ascii "\r\nHost: " = v ++ (crlf ++ ascii "Host: ") := fun _ => rfl
  by_cases hbody : bodyLen > 0
  · cases http11 <;> cases keepAlive <;>
      simp [requestHeadPieces, requestLine, requestFields, headTail, fieldLine, hbody, crlf, ascii, CR, LF, COLON, SP]
  · cases http11 <;> cases keepAlive <;>
      simp [requestHeadPieces, requestLine, requestFields, headTail, fieldLine, hbody, crlf, ascii, CR, LF, COLON, SP]

theorem foldlM_put {pieces : List Bytes} {dst out : Bytes} (h : pieces.foldlM (put dstCap) dst = some out) :
    out = dst ++ pieces.flatten := by
  induction pieces generalizing dst with
  | nil =>
    cases h
    exact (append_nil _).symm
  | cons src pieces ih =>
    rw [foldlM_cons, put] at h
    split at h
    · cases h
    · rw [ih h, flatten_cons, append_assoc]

theorem writeRequestHead_some (h : writeRequestHead sdk dstCap method path options ≠ []) :
    path.head? = some SLASH ∧ (∀ b ∈ path, isGraphic b = true) ∧ (∀ b ∈ options.authority, isGraphic b = true) ∧
      sdk.methodName method ≠ [] ∧ writeRequestHead sdk dstCap method path options =
        requestLine (sdk.methodName method) path options ++ headTail ((requestFields options).map fieldLine) := by
  unfold writeRequestHead at h ⊢
  split at h
  · exact absurd rfl h
  next hsome =>
    rw [if_neg hsome]
    split at h
    · exact absurd rfl h
    next hadmitted =>
      rw [if_neg hadmitted]
      dsimp only at h ⊢
      split at h
      · exact absurd rfl h
      next hverb =>
        rw [if_neg hverb]
        push Not at hadmitted
        obtain ⟨hslash, hpath, hauthority, -⟩ := hadmitted
        rw [ne_eq, not_eq_true, any_eq_false] at hpath hauthority
        cases hput : (requestHeadPieces (sdk.methodName method) path options).foldlM (put dstCap) [] with
        | none =>
          rw [hput] at h
          exact absurd rfl h
        | some out =>
          refine ⟨hslash, fun b hb => by simpa using hpath b hb, fun b hb => by simpa using hauthority b hb, hverb, ?_⟩
          · rw [getD_some, foldlM_put hput, nil_append, requestHeadPieces_flatten]

theorem cr_of_graphic (h : ∀ b ∈ v, isGraphic b = true) : CR ∉ v :=
  fun hcr => absurd (h CR hcr) nofun

theorem sp_of_graphic (h : ∀ b ∈ v, isGraphic b = true) : SP ∉ v :=
  fun hsp => absurd (h SP hsp) nofun

theorem cr_requestLine (hverb : ∀ b ∈ verb, isGraphic b = true) (hpath : ∀ b ∈ path, isGraphic b = true)
    (options : RequestOptions) : CR ∉ requestLine verb path options := by
  have hversion : CR ∉ (if options.http11 then ascii " HTTP/1.1" else ascii " HTTP/1.0") := by split <;> decide
  have hsp : CR ≠ SP := by decide
  simp only [requestLine, mem_append, mem_cons, not_or]
  exact ⟨⟨cr_of_graphic hverb, hsp, cr_of_graphic hpath⟩, hversion⟩

theorem requestFields_lines (hauthority : ∀ b ∈ options.authority, isGraphic b = true) :
    (∀ f ∈ requestFields options, COLON ∉ f.1) ∧ ∀ l ∈ (requestFields options).map fieldLine, l ≠ [] ∧ CR ∉ l := by
  have hline : ∀ f ∈ requestFields options, COLON ∉ f.1 ∧ CR ∉ f.1 ∧ CR ∉ f.2 := by
    have hhost : COLON ∉ ascii "Host" ∧ CR ∉ ascii "Host" := by decide
    have hlength : COLON ∉ ascii "Content-Length" ∧ CR ∉ ascii "Content-Length" := by decide
    have hconnection : COLON ∉ ascii "Connection" ∧ CR ∉ ascii "Connection" := by decide
    intro f hf
    unfold requestFields at hf
    rcases mem_append.mp hf with hf | hf
    · rcases mem_cons.mp hf with rfl | hf
      · exact ⟨hhost.1, hhost.2, cr_of_graphic hauthority⟩
      · split at hf
        · rw [mem_singleton.mp hf]
          exact ⟨hlength.1, hlength.2, cr_of_graphic fun b hb => graphic_decimal hb⟩
        · cases hf
    · rw [mem_singleton.mp hf]
      exact ⟨hconnection.1, hconnection.2, by dsimp only; split <;> decide⟩
  refine ⟨fun f hf => (hline f hf).1, fun l hl => ?_⟩
  obtain ⟨f, hf, rfl⟩ := mem_map.mp hl
  obtain ⟨-, hname, hvalue⟩ := hline f hf
  refine ⟨append_ne_nil_of_right_ne_nil _ (cons_ne_nil _ _), ?_⟩
  have hblank : CR ≠ COLON ∧ CR ≠ SP := by decide
  simp only [fieldLine, mem_append, mem_cons, not_or]
  exact ⟨hname, hblank.1, hblank.2, hvalue⟩

theorem firstToken_stop {token : Bytes} (h : SP ∉ token) (rest : Bytes) : firstToken (token ++ SP :: rest) = token := by
  have hspan : ∀ b ∈ token, (b != SP) = true := fun b hb => bne_iff_ne.mpr fun heq => h (heq ▸ hb)
  rw [firstToken, takeWhile_append_of_pos hspan, takeWhile_cons_of_neg (by simp), append_nil]

theorem parseRequestLine_written (hverb : SP ∉ verb) (hne : verb ≠ []) (hshort : verb.length ≤ MAX_METHOD_SCAN)
    (hslash : path.head? = some SLASH) (hpath : SP ∉ path) (rest : Bytes) (hlong : 14 ≤ (verb ++ SP :: (path ++ SP :: rest)).length) :
    parseRequestLine sdk.toSdkHttp (verb ++ SP :: (path ++ SP :: rest)) =
      some { method := sdk.methodFromToken verb, targetAt := verb.length + 1, targetLen := path.length } := by
  have hpos := length_pos_of_ne_nil hne
  have hcap : verb.length < min (MAX_METHOD_SCAN + 1) (verb ++ SP :: (path ++ SP :: rest)).length := by
    rw [length_append, length_cons]
    omega
  generalize hall : path ++ SP :: rest = target at hlong hcap
  have htoken : firstToken ((verb ++ SP :: target).take (min (MAX_METHOD_SCAN + 1) (verb ++ SP :: target).length)) = verb := by
    rw [take_append, take_of_length_le hcap.le]
    obtain ⟨k, hk⟩ := Nat.exists_eq_add_of_lt hcap
    rw [hk, show verb.length + k + 1 - verb.length = k + 1 by omega, take_succ_cons]
    exact firstToken_stop hverb _
  have hdrop : (verb ++ SP :: target).drop (verb.length + 1) = target := by
    rw [drop_append, drop_eq_nil_of_le (by omega), show verb.length + 1 - verb.length = 1 by omega]
    rfl
  unfold parseRequestLine
  dsimp only
  rw [if_neg (by omega), htoken, if_neg (by omega), hdrop, take_left, ← hall, firstToken_stop hpath, if_pos hslash]

theorem fieldValues_requestFields {head : Bytes} (hlines : fieldLines head = (requestFields options).map fieldLine)
    (hauthority : ∀ b ∈ options.authority, isGraphic b = true) :
    fieldValues head (ascii "host") = [SP :: options.authority] ∧ fieldValues head TE = [] ∧
      fieldValues head CL = (if options.bodyLen > 0 then [SP :: decimal options.bodyLen.toNat] else []) ∧
      fieldValues head (ascii "connection") = [SP :: if options.keepAlive then ascii "keep-alive" else ascii "close"] := by
  have hvalues := fieldValues_of_fields hlines (requestFields_lines hauthority).1
  rw [hvalues, hvalues, hvalues, hvalues]
  unfold requestFields
  split <;> exact ⟨rfl, rfl, rfl, rfl⟩

theorem bodyFraming_written {head : Bytes} {n : Nat} {declared : Prop} [Decidable declared] (hte : fieldValues head TE = [])
    (hcl : fieldValues head CL = if declared then [SP :: decimal n] else []) (hn : n < 2 ^ 64) :
    bodyFraming head = if declared then .length n else .none := by
  have hnote : findHeader head (ascii "transfer-encoding") = none := findHeader_none.mpr hte
  unfold bodyFraming
  dsimp only
  rw [hnote]
  dsimp only
  by_cases hdeclared : declared
  · rw [if_pos hdeclared] at hcl ⊢
    have hgraphic : ∀ b ∈ decimal n, isGraphic b = true := fun b hb => graphic_decimal hb
    have hvalue : findHeader head (ascii "content-length") = some (decimal n) := by
      rw [findHeader, ← CL, hcl]
      exact congrArg some (trimOws_graphic hgraphic)
    have hagree : headerValuesDisagree head (ascii "content-length") = false := by
      rw [headerValuesDisagree, ← CL, hcl]
      rfl
    have hcomma : (decimal n).any (· == COMMA) = false := by
      rw [any_eq_false]
      intro b hb heq
      have hrange := mem_decimal hb
      rw [beq_iff_eq.mp heq] at hrange
      exact absurd hrange.1 (by decide)
    rw [hvalue]
    dsimp only
    rw [if_neg (decimal_ne_nil n), hagree, hcomma, decimalU64_decimal hn]
    rfl
  · rw [if_neg hdeclared] at hcl ⊢
    rw [show findHeader head (ascii "content-length") = none from findHeader_none.mpr hcl]

theorem findHeaderEnd_headTail {line : Bytes} {lines : List Bytes} (hcr : CR ∉ line) (hsome : [] ∉ lines)
    (hlines : ∀ l ∈ lines, CR ∉ l) :
    findHeaderEnd (line ++ headTail lines) = some (line ++ headTail lines).length := by
  obtain ⟨n, hn, hend⟩ := map_eq_some_iff.mp (findPat_headTail hsome hlines)
  rw [findHeaderEnd, blankLine, findPat_skip hcr, ← blankLine, hn, length_append, ← hend]
  change some (n + line.length + 4) = some (line.length + (n + 4))
  exact congrArg some (by omega)

theorem requestKeepsAlive_written {rest : Bytes} (hcrlf : findPat crlf (requestLine verb path options ++ rest) =
      some (requestLine verb path options).length)
    (hconnection : fieldValues (requestLine verb path options ++ rest) (ascii "connection") =
      [SP :: if options.keepAlive then ascii "keep-alive" else ascii "close"]) :
    requestKeepsAlive (requestLine verb path options ++ rest) = options.keepAlive := by
  have hversion : ∀ v : Bytes, (ascii "HTTP/1.1").isSuffixOf (v ++ ascii " HTTP/1.1") = true ∧
      (ascii "HTTP/1.0").isSuffixOf (v ++ ascii " HTTP/1.0") = true := by
    intro v
    rw [List.isSuffixOf_iff_suffix, List.isSuffixOf_iff_suffix]
    exact ⟨⟨v ++ [SP], append_assoc _ _ _⟩, ⟨v ++ [SP], append_assoc _ _ _⟩⟩
  have hsuffix : (ascii "HTTP/1.1").isSuffixOf (requestLine verb path options) = true ∨
      (ascii "HTTP/1.0").isSuffixOf (requestLine verb path options) = true := by
    unfold requestLine
    split
    · exact Or.inl (hversion _).1
    · exact Or.inr (hversion _).2
  have hknown : (!(ascii "HTTP/1.1").isSuffixOf (requestLine verb path options) &&
      !(ascii "HTTP/1.0").isSuffixOf (requestLine verb path options)) = false := by
    rcases hsuffix with h | h
    · rw [h]
      rfl
    · rw [h]
      exact Bool.and_false _
  unfold requestKeepsAlive connectionTokens
  rw [hcrlf, hconnection]
  dsimp only
  rw [take_left, hknown]
  cases hkeep : options.keepAlive with
  | false =>
    have hclose : (([SP :: ascii "close"].flatMap fun v => ((v.dropWhile isOws).splitOn COMMA).map trimOws).any
        (eqIgnoreCase · (ascii "close"))) = true := by decide
    simp only [false_eq_true, if_false]
    rw [hclose]
    rfl
  | true =>
    have hclose : (([SP :: ascii "keep-alive"].flatMap fun v => ((v.dropWhile isOws).splitOn COMMA).map trimOws).any
        (eqIgnoreCase · (ascii "close"))) = false := by decide
    have hkept : (([SP :: ascii "keep-alive"].flatMap fun v => ((v.dropWhile isOws).splitOn COMMA).map trimOws).any
        (eqIgnoreCase · (ascii "keep-alive"))) = true := by decide
    simp only [false_eq_true, if_false, if_true]
    rw [hclose, hkept, Bool.or_true]
    rfl

/-- What is written is read as the request that was meant. -/
theorem writeRequestHead_reads (hsdk : sdk.Documented) (h : writeRequestHead sdk dstCap method path options ≠ []) :
    let head := writeRequestHead sdk dstCap method path options
    findHeaderEnd head = some head.length ∧
      (∃ line, parseRequestLine sdk.toSdkHttp head = some line ∧ sdk.code line.method = method ∧
        (head.drop line.targetAt).take line.targetLen = path) ∧
      findHeader head (ascii "host") = some options.authority ∧
      bodyFraming head = (if options.bodyLen > 0 then .length options.bodyLen.toNat else .none) ∧
      requestKeepsAlive head = options.keepAlive ∧
      fieldLines head = (requestFields options).map fieldLine := by
  obtain ⟨hslash, hpath, hauthority, hverb, hhead⟩ := writeRequestHead_some h
  have hgraphic := hsdk.graphic method
  have hcr := cr_requestLine hgraphic hpath options
  obtain ⟨-, hlines⟩ := requestFields_lines hauthority
  have hsome : [] ∉ (requestFields options).map fieldLine := fun hin => (hlines [] hin).1 rfl
  have hwhole := fun l hl => (hlines l hl).2
  dsimp only
  rw [hhead]
  have hfields := fieldLines_headTail hcr hsome hwhole
  have hend := findHeaderEnd_headTail hcr hsome hwhole
  obtain ⟨hhost, hte, hcl, hconnection⟩ := fieldValues_requestFields hfields hauthority
  have hcrlf : findPat crlf (requestLine (sdk.methodName method) path options ++
      headTail ((requestFields options).map fieldLine)) =
        some (requestLine (sdk.methodName method) path options).length := by
    rw [headTail, append_assoc]
    exact findPat_first hcr _
  have hlong : 14 ≤ (requestLine (sdk.methodName method) path options ++
      headTail ((requestFields options).map fieldLine)).length := by
    have hline : 9 ≤ (requestLine (sdk.methodName method) path options).length := by
      rw [requestLine, length_append]
      split <;> exact Nat.le_add_left _ _
    have htail : 5 ≤ (headTail ((requestFields options).map fieldLine)).length := by
      rw [requestFields, cons_append, map_cons, headTail_cons, length_append, length_append, fieldLine,
        length_append]
      change 5 ≤ 2 + (4 + _ + _)
      omega
    rw [length_append]
    omega
  generalize headTail ((requestFields options).map fieldLine) = rest at hfields hhost hte hcl hconnection hend hcrlf hlong ⊢
  refine ⟨hend, ?_, ?_, ?_, ?_, hfields⟩
  · have htarget : requestLine (sdk.methodName method) path options ++ rest = sdk.methodName method ++
        SP :: (path ++ SP :: ((if options.http11 then ascii "HTTP/1.1" else ascii "HTTP/1.0") ++ rest)) := by
      unfold requestLine
      split <;> simp [ascii, SP]
    rw [htarget] at hlong ⊢
    refine ⟨_, parseRequestLine_written (sp_of_graphic hgraphic) hverb (hsdk.short method) hslash
      (sp_of_graphic hpath) _ hlong, hsdk.token method hverb, ?_⟩
    dsimp only
    rw [drop_append, drop_eq_nil_of_le (by omega), Nat.add_sub_cancel_left, nil_append, drop_one,
      tail_cons, take_left]
  · rw [findHeader, hhost]
    exact congrArg some (trimOws_graphic hauthority)
  · exact bodyFraming_written hte hcl options.bodyLen.toNat_lt
  · exact requestKeepsAlive_written hcrlf hconnection

def postOnly : SdkVerbs where
  methodFromToken token := if token = ascii "POST" then .post else .none
  code
    | .post => 3
    | .connect => 8
    | _ => 0
  methodName m := if m = 3 then ascii "POST" else []

theorem postOnly_documented : postOnly.Documented where
  token m hname := by
    by_cases h : m = 3
    · rw [h]
      rfl
    · exact absurd (if_neg h) hname
  graphic m := by
    unfold postOnly
    dsimp only
    split
    · decide +kernel
    · exact nofun
  short m := by
    unfold postOnly
    dsimp only
    split <;> decide

/-- A POST of 20 bytes over HTTP/1.0. -/
theorem writeRequestHead_reads_post :
    let head := writeRequestHead postOnly 128 3 (ascii "/a?b") ⟨ascii "h:80", 20, false, true⟩
    findHeaderEnd head = some head.length ∧
      (∃ line, parseRequestLine postOnly.toSdkHttp head = some line ∧ postOnly.code line.method = 3 ∧
        (head.drop line.targetAt).take line.targetLen = ascii "/a?b") ∧
      findHeader head (ascii "host") = some (ascii "h:80") ∧
      bodyFraming head = (if (20 : UInt64) > 0 then .length (20 : UInt64).toNat else .none) ∧
      requestKeepsAlive head = true ∧
      fieldLines head = (requestFields ⟨ascii "h:80", 20, false, true⟩).map fieldLine :=
  writeRequestHead_reads postOnly_documented (by decide)

end Written

end Wave.Http
