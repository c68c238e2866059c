import Wave.Common.RouteKey
import Wave.Http.H1Wire
import Wave.Lib.Lines
import Mathlib.Data.List.TakeWhile

/-! # Decoded fields as a header block (`http/server/h2.rs`, `http/client/provider.rs`)

The fields of a message come off HPACK, whose strings hold any byte, and go on as `name: value` lines. -/

namespace Wave.Http.Fields

open Lib Common

variable {r : RequestFields}

abbrev Field := Bytes × Bytes

def fieldLine (f : Field) : Bytes := f.1 ++ COLON :: SP :: f.2

def fieldBlock (fields : List Field) : Bytes := fields.flatMap fun f => fieldLine f ++ [CR, LF]

/-- The name of a line is what precedes its first colon, the value what follows the blank
behind it. -/
def readField (line : Bytes) : Field :=
  let name := line.takeWhile (· != COLON)
  let value := line.drop (name.length + 1)
  (name, if value.head? = some SP then value.tail else value)

def readBlock (block : Bytes) : List Field := ((Lines.split CR LF block).dropLast).map readField

structure Clean (f : Field) : Prop where
  colon : COLON ∉ f.1
  name : Lines.Whole CR LF f.1
  value : Lines.Whole CR LF f.2

instance (f : Field) : Decidable (Clean f) :=
  decidable_of_iff (COLON ∉ f.1 ∧ Lines.Whole CR LF f.1 ∧ Lines.Whole CR LF f.2)
    ⟨fun h => ⟨h.1, h.2.1, h.2.2⟩, fun h => ⟨h.1, h.2, h.3⟩⟩

theorem readField_fieldLine {f : Field} (h : COLON ∉ f.1) : readField (fieldLine f) = f := by
  have hname : (fieldLine f).takeWhile (· != COLON) = f.1 := by
    rw [fieldLine, takeWhile_append_of_pos]
    · simp
    · intro b hb
      have hne : b ≠ COLON := fun heq => h (heq ▸ hb)
      simpa using hne
  have hvalue : (fieldLine f).drop (f.1.length + 1) = SP :: f.2 := by
    rw [fieldLine, drop_append]
    simp
  unfold readField
  simp only [hname, hvalue]
  rfl

theorem whole_fieldLine {f : Field} (h : Clean f) : Lines.Whole CR LF (fieldLine f) := by
  obtain ⟨-, hname, hvalue⟩ := h
  unfold fieldLine
  generalize f.1 = name at hname
  induction name with
  | nil => exact Lines.whole_cons.mpr ⟨by simp [COLON, CR], Lines.whole_cons.mpr ⟨by simp [SP, CR], hvalue⟩⟩
  | cons b name ih =>
    obtain ⟨hb, hname⟩ := Lines.whole_cons.mp hname
    refine Lines.whole_cons.mpr ⟨fun hsep => hb ?_, ih hname⟩
    cases name with
    | nil =>
      obtain ⟨-, hcolon⟩ := hsep
      simp [COLON, LF] at hcolon
    | cons c name => exact hsep

theorem readBlock_fieldBlock {fields : List Field} (h : ∀ f ∈ fields, Clean f) :
    readBlock (fieldBlock fields) = fields := by
  have hlines : fieldBlock fields = (fields.map fieldLine).flatMap fun l => l ++ [CR, LF] := by
    rw [fieldBlock, List.flatMap_map]
  have hwhole : ∀ l ∈ fields.map fieldLine, Lines.Whole CR LF l := by
    intro l hl
    obtain ⟨f, hf, rfl⟩ := mem_map.mp hl
    exact whole_fieldLine (h f hf)
  rw [readBlock, hlines, Lines.split_lines (by decide) hwhole, List.dropLast_concat, map_map]
  conv_rhs => rw [← List.map_id fields]
  exact map_congr_left fun f hf => readField_fieldLine (h f hf).colon

theorem clean_of_mem_readBlock {block : Bytes} {f : Field} (h : f ∈ readBlock block) : Clean f := by
  obtain ⟨line, hline, rfl⟩ := mem_map.mp h
  have hwhole := Lines.whole_of_mem_split (List.mem_of_mem_dropLast hline)
  have hvalue : (readField line).2 <:+: line := by
    unfold readField
    simp only
    split_ifs
    · exact ((List.tail_suffix _).trans (List.drop_suffix _ _)).isInfix
    · exact (List.drop_suffix _ _).isInfix
  refine ⟨fun hcolon => ?_, hwhole.mono (List.takeWhile_prefix _).isInfix, hwhole.mono hvalue⟩
  simpa using List.mem_takeWhile_imp hcolon

def MAX_FWD_HEADERS : Nat := 4096
def MAX_TARGET : Nat := 2048

/-- `authority_agrees`: the same bytes, or the same host and port. -/
def authorityAgrees (a b : Bytes) (defaultPort : Nat) : Bool :=
  a = b ||
    match normHost a defaultPort, normHost b defaultPort with
    | .ok x, .ok y => x = y
    | _, _ => false

/-- Two authorities agree by their host and port exactly where they are not one that is refused. -/
theorem authorityAgrees_canonical_iff (a b : Bytes) (defaultPort : Nat) :
    (authorityAgrees a b defaultPort = true ↔
        ∃ r, normHost a defaultPort = .ok r ∧ normHost b defaultPort = .ok r) ↔
      (a ≠ b ∨ ∃ r, normHost a defaultPort = .ok r) := by
  unfold authorityAgrees
  rw [or_eq_true, decide_eq_true_iff]
  by_cases hab : a = b
  · subst hab
    simp only [true_or, true_iff, and_self, ne_eq, not_true_eq_false, false_or]
  refine iff_of_true ?_ (.inl hab)
  rw [or_iff_right hab]
  cases ha : normHost a defaultPort with
  | error e => simp
  | ok x =>
    cases hb : normHost b defaultPort with
    | error e => simp
    | ok y => simp [eq_comm]

/-- A bracket that opens nothing is no authority, and agrees with a copy of itself. -/
theorem authorityAgrees_bracket :
    ¬ (authorityAgrees (ascii "[") (ascii "[") 80 = true ↔
      ∃ r, normHost (ascii "[") 80 = .ok r ∧ normHost (ascii "[") 80 = .ok r) := by
  have hrefused : normHost (ascii "[") 80 = .error .badHost := by decide +kernel
  rw [hrefused]
  have hagrees : authorityAgrees (ascii "[") (ascii "[") 80 = true := by decide +kernel
  rintro ⟨h, -⟩
  obtain ⟨r, hr, -⟩ := h hagrees
  cases hr

inductive AuthKind where
  | none
  | authority
  | host
deriving DecidableEq

structure RequestFields where
  method : Method := .none
  protocolWs : Bool := false
  target : Bytes := []
  targetLen : Nat := 0
  schemePort : Nat := 80
  authority : Bytes := []
  authKind : AuthKind := .none
  hostRefused : Bool := false
  block : Bytes := []
  overflow : Bool := false

namespace RequestFields

def putLine (r : RequestFields) (f : Field) : RequestFields :=
  if r.block.length + (f.1.length + 2 + f.2.length + 2) > MAX_FWD_HEADERS then { r with overflow := true }
  else { r with block := r.block ++ (fieldLine f ++ [CR, LF]) }

/-- `:authority` or `host`. The first names the authority; a later one has to agree with it
and adds no line. -/
def putAuthority (r : RequestFields) (kind : AuthKind) (value : Bytes) : RequestFields :=
  if r.authKind = .none then
    if value.length > MAX_ROUTE_HOST then { r with hostRefused := true }
    else { r with authority := value, authKind := kind }.putLine (ascii "host", value)
  else if (r.authKind = .host && kind = .authority) || !authorityAgrees r.authority value r.schemePort then
    { r with hostRefused := true }
  else r

/-- The sink of `decode_block`. -/
def note (sdk : SdkHttp) (r : RequestFields) (f : Field) : RequestFields :=
  if f.1 = ascii ":method" then { r with method := sdk.methodFromToken f.2 }
  else if f.1 = ascii ":path" then
    { r with
      target := if f.2.length ≤ MAX_TARGET then f.2 else r.target
      targetLen := f.2.length
      overflow := r.overflow || decide (f.2.length > MAX_TARGET) }
  else if f.1 = ascii ":protocol" && f.2 = ascii "websocket" then { r with protocolWs := true }
  else if f.1 = ascii ":scheme" then if f.2 = ascii "https" then { r with schemePort := 443 } else r
  else if f.1 = ascii ":authority" then r.putAuthority .authority f.2
  else if f.1 = [] || f.1.head? = some COLON then r
  else if f.1 = ascii "host" then r.putAuthority .host f.2
  else r.putLine f

end RequestFields

/-- `handle_headers` over the decoded fields. -/
def handleHeaders (sdk : SdkHttp) (fields : List Field) : RequestFields :=
  fields.foldl (RequestFields.note sdk) {}

def RequestFields.accepted (r : RequestFields) : Bool :=
  r.method ≠ .none && r.targetLen ≠ 0 && !r.hostRefused && !r.overflow

/-- The fields of a request: pseudo-fields aside, `:authority` as `host`. -/
def requestFields (fields : List Field) : List Field :=
  fields.filterMap fun f =>
    if f.1 = ascii ":authority" then some (ascii "host", f.2)
    else if f.1.head? = some COLON then none
    else some f

def isAuthority (f : Field) : Bool := f.1 = ascii ":authority" || f.1 = ascii "host"

def RESP_CT_MAX : Nat := 255
def RESP_HDRS_MAX : Nat := 2048

def hopFields : List Bytes :=
  [ascii "connection", ascii "keep-alive", ascii "transfer-encoding", ascii "te", ascii "trailer",
    ascii "upgrade", ascii "proxy-connection"]

def hopField (name : Bytes) : Bool := hopFields.any (eqIgnoreCase name)

def isContentType (f : Field) : Bool := eqIgnoreCase f.1 (ascii "content-type")

/-- The `resp_*` fields. The content type goes in a field of its own. -/
structure ResponseFields where
  contentType : Bytes := []
  block : Bytes := []
  overflow : Bool := false

def endToEnd (f : Field) : Bool := !(f.1.head? = some COLON || hopField f.1)

/-- `note_field`. -/
def ResponseFields.note (r : ResponseFields) (f : Field) : ResponseFields :=
  if !endToEnd f then r
  else if isContentType f then
    if f.2.length > RESP_CT_MAX then { r with overflow := true } else { r with contentType := f.2 }
  else if r.block.length + (f.1.length + 2 + f.2.length + 2) > RESP_HDRS_MAX then { r with overflow := true }
  else { r with block := r.block ++ (fieldLine f ++ [CR, LF]) }

def noteFields (fields : List Field) : ResponseFields := fields.foldl ResponseFields.note {}

def responseFields (fields : List Field) : List Field :=
  fields.filter fun f => endToEnd f && !isContentType f

def contentTypes (fields : List Field) : List Bytes :=
  (fields.filter fun f => endToEnd f && isContentType f).map (·.2)

/-- The fields the server writes a line for; `seen` says that the authority has been named. -/
def keptFields : (seen : Bool) → List Field → List Field
  | _, [] => []
  | seen, f :: fields =>
    if isAuthority f then
      if seen then keptFields seen fields else (ascii "host", f.2) :: keptFields true fields
    else if f.1 = [] || f.1.head? = some COLON then keptFields seen fields
    else f :: keptFields seen fields

theorem putLine_spec (r : RequestFields) (f : Field) :
    (r.putLine f).overflow = true ∨ r.putLine f = { r with block := r.block ++ (fieldLine f ++ [CR, LF]) } := by
  unfold RequestFields.putLine
  split_ifs
  · exact .inl rfl
  · exact .inr rfl

def RequestFields.refused (r : RequestFields) : Bool := r.hostRefused || r.overflow

theorem refused_putLine (f : Field) (h : r.refused = true) :
    (r.putLine f).refused = true := by
  unfold RequestFields.refused at h ⊢
  rcases putLine_spec r f with hover | heq
  · rw [hover, Bool.or_true]
  · rw [heq]
    exact h

theorem refused_putAuthority (kind : AuthKind) (value : Bytes) (h : r.refused = true) :
    (r.putAuthority kind value).refused = true := by
  unfold RequestFields.putAuthority
  split_ifs
  · simp [RequestFields.refused]
  · exact refused_putLine _ h
  · simp [RequestFields.refused]
  · exact h

inductive Noted (r : RequestFields) (f : Field) : RequestFields → Prop where
  | passed (r' : RequestFields) (hname : f.1 = [] ∨ f.1.head? = some COLON) (hauth : isAuthority f = false)
      (hblock : r'.block = r.block) (hkind : r'.authKind = r.authKind)
      (hrefused : r.refused = true → r'.refused = true) : Noted r f r'
  | authority (kind : AuthKind) (hkind : kind ≠ .none) (hauth : isAuthority f = true) :
      Noted r f (r.putAuthority kind f.2)
  | line (hname : ¬ (f.1 = [] ∨ f.1.head? = some COLON)) (hauth : isAuthority f = false) :
      Noted r f (r.putLine f)

theorem noted (sdk : SdkHttp) (r : RequestFields) (f : Field) : Noted r f (r.note sdk f) := by
  have hpseudo : ∀ {name : Bytes}, name.head? = some COLON → name ≠ ascii ":authority" → f.1 = name →
      (f.1 = [] ∨ f.1.head? = some COLON) ∧ isAuthority f = false := by
    intro name hhead hne hname
    have hhost : name ≠ ascii "host" := by
      rintro rfl
      exact absurd hhead (by decide)
    exact ⟨.inr (hname ▸ hhead), by simp [isAuthority, hname, hne, hhost]⟩
  unfold RequestFields.note
  by_cases hmethod : f.1 = ascii ":method"
  · rw [if_pos hmethod]
    obtain ⟨hname, hauth⟩ := hpseudo (by decide) (by decide) hmethod
    exact .passed _ hname hauth rfl rfl id
  rw [if_neg hmethod]
  by_cases hpath : f.1 = ascii ":path"
  · rw [if_pos hpath]
    obtain ⟨hname, hauth⟩ := hpseudo (by decide) (by decide) hpath
    refine .passed _ hname hauth rfl rfl fun h => ?_
    rcases Bool.or_eq_true_iff.mp h with hhost | hover
    · simp [RequestFields.refused, hhost]
    · simp [RequestFields.refused, hover]
  rw [if_neg hpath]
  by_cases hprotocol : (f.1 = ascii ":protocol" && f.2 = ascii "websocket") = true
  · rw [if_pos hprotocol]
    have hname : f.1 = ascii ":protocol" := by simpa using (and_eq_true_iff.mp hprotocol).1
    obtain ⟨hname, hauth⟩ := hpseudo (by decide) (by decide) hname
    exact .passed _ hname hauth rfl rfl id
  rw [if_neg hprotocol]
  by_cases hscheme : f.1 = ascii ":scheme"
  · rw [if_pos hscheme]
    obtain ⟨hname, hauth⟩ := hpseudo (by decide) (by decide) hscheme
    split_ifs
    · exact .passed _ hname hauth rfl rfl id
    · exact .passed _ hname hauth rfl rfl id
  rw [if_neg hscheme]
  by_cases hauthority : f.1 = ascii ":authority"
  · rw [if_pos hauthority]
    exact .authority _ (by decide) (by simp [isAuthority, hauthority])
  rw [if_neg hauthority]
  by_cases hname : f.1 = [] ∨ f.1.head? = some COLON
  · rw [if_pos (by simpa using hname)]
    have hhost : f.1 ≠ ascii "host" := by
      intro heq
      rw [heq] at hname
      exact absurd hname (by decide)
    exact .passed _ hname (by simp [isAuthority, hauthority, hhost]) rfl rfl id
  rw [if_neg (by simpa using hname)]
  by_cases hhost : f.1 = ascii "host"
  · rw [if_pos hhost]
    exact .authority _ (by decide) (by simp [isAuthority, hhost])
  · rw [if_neg hhost]
    exact .line hname (by simp [isAuthority, hauthority, hhost])

theorem refused_foldl {sdk : SdkHttp} (fields : List Field) (h : r.refused = true) :
    (fields.foldl (RequestFields.note sdk) r).refused = true := by
  induction fields generalizing r with
  | nil => exact h
  | cons f fields ih =>
    refine ih ?_
    have hnoted := noted sdk r f
    generalize r.note sdk f = r' at hnoted
    cases hnoted with
    | passed _ hname hauth hblock hkind hrefused => exact hrefused h
    | authority kind hkind hauth => exact refused_putAuthority kind f.2 h
    | line hname hauth => exact refused_putLine f h

theorem putLine_of_not_refused {f : Field} (h : (r.putLine f).refused = false) :
    (r.putLine f).block = r.block ++ fieldBlock [f] ∧ (r.putLine f).authKind = r.authKind := by
  rcases putLine_spec r f with hover | heq
  · simp [RequestFields.refused, hover] at h
  · rw [heq]
    simp [fieldBlock]

theorem putAuthority_of_not_refused {kind : AuthKind} {value : Bytes}
    (hkind : kind ≠ .none) (h : (r.putAuthority kind value).refused = false) :
    (r.putAuthority kind value).authKind ≠ .none ∧ (r.putAuthority kind value).block =
      if r.authKind = .none then r.block ++ fieldBlock [(ascii "host", value)] else r.block := by
  unfold RequestFields.putAuthority at h ⊢
  by_cases hfirst : r.authKind = .none
  · simp only [if_pos hfirst] at h ⊢
    by_cases hlong : value.length > MAX_ROUTE_HOST
    · rw [if_pos hlong] at h
      simp [RequestFields.refused] at h
    · rw [if_neg hlong] at h ⊢
      obtain ⟨hblock, hauth⟩ := putLine_of_not_refused h
      exact ⟨by rw [hauth]; exact hkind, hblock⟩
  · simp only [if_neg hfirst] at h ⊢
    split_ifs at h ⊢
    · simp [RequestFields.refused] at h
    · exact ⟨hfirst, rfl⟩

theorem foldl_note {sdk : SdkHttp} (fields : List Field) (h : (fields.foldl (RequestFields.note sdk) r).refused = false) :
    (fields.foldl (RequestFields.note sdk) r).block =
      r.block ++ fieldBlock (keptFields (decide (r.authKind ≠ .none)) fields) := by
  induction fields generalizing r with
  | nil => simp [keptFields, fieldBlock]
  | cons f fields ih =>
    have hgoes : (r.note sdk f).refused = false := by
      rw [eq_false_iff]
      intro hyes
      rw [foldl_cons, refused_foldl fields hyes] at h
      cases h
    rw [foldl_cons, ih h, keptFields]
    have hnoted := noted sdk r f
    generalize r.note sdk f = r' at hnoted hgoes
    cases hnoted with
    | passed _ hname hauth hblock hkind hrefused =>
      rw [if_neg (by rw [hauth]; exact false_ne_true), if_pos (by simpa using hname), hblock, hkind]
    | authority kind hkind hauth =>
      obtain ⟨hnamed, hblock⟩ := putAuthority_of_not_refused hkind hgoes
      rw [if_pos hauth, hblock, decide_eq_true hnamed]
      by_cases hfirst : r.authKind = .none
      · rw [if_pos hfirst, if_neg (by simp [hfirst]), append_assoc]
        simp [fieldBlock]
      · rw [if_neg hfirst, if_pos (by simp [hfirst])]
        simp [hfirst]
    | line hname hauth =>
      obtain ⟨hblock, hkind⟩ := putLine_of_not_refused hgoes
      rw [if_neg (by rw [hauth]; exact false_ne_true), if_neg (by simpa using hname), hblock, hkind,
        append_assoc]
      simp [fieldBlock]

theorem requestFields_cons (f : Field) (fields : List Field) :
    requestFields (f :: fields) =
      if isAuthority f then (ascii "host", f.2) :: requestFields fields
      else if f.1.head? = some COLON then requestFields fields
      else f :: requestFields fields := by
  have hhead : (ascii "host").head? ≠ some COLON := by decide
  unfold requestFields isAuthority
  rw [List.filterMap_cons]
  by_cases hauthority : f.1 = ascii ":authority"
  · simp [hauthority]
  · by_cases hhost : f.1 = ascii "host"
    · simp only [hhost, if_neg hhead, decide_true, Bool.or_true, if_true]
      rw [if_neg (by decide)]
      exact congrArg (· :: _) (Prod.ext hhost rfl)
    · by_cases hcolon : f.1.head? = some COLON <;> simp [hauthority, hhost, hcolon]

theorem keptFields_sublist (seen : Bool) (fields : List Field) :
    (keptFields seen fields).Sublist (requestFields fields) := by
  induction fields generalizing seen with
  | nil => exact List.Sublist.slnil
  | cons f fields ih =>
    rw [keptFields, requestFields_cons]
    split_ifs with hauth hseen hdrop hcolon hcolon
    · exact (ih seen).cons _
    · exact (ih true).cons_cons _
    · exact ih seen
    · exact (ih seen).cons _
    · exact absurd hcolon (by simpa using fun hyes => hdrop (by simp [hyes]))
    · exact (ih seen).cons_cons _

/-- No field is dropped: none without a name, and the authority named at most once. -/
def NoneDropped (seen : Bool) (fields : List Field) : Prop :=
  (∀ f ∈ requestFields fields, f.1 ≠ []) ∧ fields.countP isAuthority + (if seen then 1 else 0) ≤ 1

theorem keptFields_eq_iff (seen : Bool) (fields : List Field) :
    keptFields seen fields = requestFields fields ↔ NoneDropped seen fields := by
  induction fields generalizing seen with
  | nil => cases seen <;> simp [keptFields, requestFields, NoneDropped]
  | cons f fields ih =>
    -- dropping `f` leaves fewer lines than fields
    have hshort : ∀ {seen f'}, keptFields seen fields ≠ f' :: requestFields fields := by
      intro seen f' heq
      have hlen := (keptFields_sublist seen fields).length_le
      rw [heq, length_cons] at hlen
      omega
    unfold NoneDropped at ih ⊢
    rw [keptFields, requestFields_cons]
    by_cases hauth : isAuthority f = true
    · rw [if_pos hauth, if_pos hauth, List.countP_cons_of_pos hauth]
      cases seen with
      | true => exact iff_of_false hshort (by simp)
      | false =>
        have hhost : ascii "host" ≠ [] := by decide
        simpa [hhost] using ih true
    · rw [if_neg hauth, if_neg hauth, List.countP_cons_of_neg hauth]
      by_cases hempty : f.1 = []
      · rw [if_pos (by simp [hempty]), if_neg (by simp [hempty])]
        exact iff_of_false hshort fun h => h.1 f mem_cons_self hempty
      · by_cases hcolon : f.1.head? = some COLON
        · rw [if_pos (by simp [hcolon]), if_pos hcolon]
          exact ih seen
        · rw [if_neg (by simp [hempty, hcolon]), if_neg hcolon]
          simpa [hempty] using ih seen

theorem over_noteFields {r : ResponseFields} (fields : List Field) (h : r.overflow = true) :
    (fields.foldl ResponseFields.note r).overflow = true := by
  induction fields generalizing r with
  | nil => exact h
  | cons f fields ih =>
    refine ih ?_
    unfold ResponseFields.note
    split_ifs <;> first | exact h | rfl

theorem foldl_noteFields {r : ResponseFields} (fields : List Field)
    (h : (fields.foldl ResponseFields.note r).overflow = false) :
    (fields.foldl ResponseFields.note r).block = r.block ++ fieldBlock (responseFields fields) ∧
      (fields.foldl ResponseFields.note r).contentType = (contentTypes fields).getLastD r.contentType := by
  induction fields generalizing r with
  | nil => simp [responseFields, contentTypes, fieldBlock]
  | cons f fields ih =>
    have hgoes : (r.note f).overflow = false := by
      rw [eq_false_iff]
      intro hyes
      rw [foldl_cons, over_noteFields fields hyes] at h
      cases h
    obtain ⟨hblock, htype⟩ := ih h
    rw [foldl_cons, hblock, htype]
    unfold ResponseFields.note at hgoes ⊢
    unfold responseFields contentTypes
    by_cases hend : endToEnd f = true
    · by_cases htype : isContentType f = true
      · simp only [hend, htype, Bool.not_true, false_eq_true, if_false, if_true] at hgoes ⊢
        split_ifs at hgoes ⊢
        simp only [List.filter_cons, hend, htype, Bool.not_true, Bool.and_false, Bool.and_self,
          false_eq_true, if_false, if_true, map_cons, List.getLastD_cons, and_self]
      · simp only [not_eq_true] at htype
        simp only [hend, htype, Bool.not_true, false_eq_true, if_false] at hgoes ⊢
        split_ifs at hgoes ⊢
        simp [hend, htype, fieldBlock]
    · simp only [not_eq_true] at hend
      simp [hend]

/-- The server's fields that read back: one line each, with a name that stays whole, and the
authority named once. -/
def RequestOk (fields : List Field) : Prop :=
  (∀ f ∈ requestFields fields, f.1 ≠ [] ∧ Clean f) ∧ fields.countP isAuthority ≤ 1

def ResponseOk (fields : List Field) : Prop :=
  (∀ f ∈ responseFields fields, Clean f) ∧ (contentTypes fields).length ≤ 1

/-- A block of some of the fields reads back as all of them when none is missing and all are
clean. -/
theorem readBlock_eq_iff {kept fields : List Field} (h : kept.Sublist fields) :
    readBlock (fieldBlock kept) = fields ↔ kept = fields ∧ ∀ f ∈ fields, Clean f := by
  constructor
  · intro hread
    have hclean : ∀ f ∈ fields, Clean f := fun f hf => clean_of_mem_readBlock (hread ▸ hf)
    exact ⟨(readBlock_fieldBlock fun f hf => hclean f (h.subset hf)).symm.trans hread, hclean⟩
  · rintro ⟨rfl, hclean⟩
    exact readBlock_fieldBlock hclean

/-- The block of a request that goes on, and of a response that is recorded, reads back exactly when the fields are
such. -/
theorem blocks_read_back (sdk : SdkHttp) (fields : List Field) :
    ((handleHeaders sdk fields).accepted = true →
      (readBlock (handleHeaders sdk fields).block = requestFields fields ↔ RequestOk fields)) ∧
    ((noteFields fields).overflow = false →
      ((readBlock (noteFields fields).block = responseFields fields ∧
        (contentTypes fields = [] ∨ contentTypes fields = [(noteFields fields).contentType])) ↔
          ResponseOk fields)) := by
  constructor
  · intro haccepted
    have hgoes : (handleHeaders sdk fields).refused = false := by
      simp only [RequestFields.accepted, and_eq_true, Bool.not_eq_true'] at haccepted
      simp [RequestFields.refused, haccepted.1.2, haccepted.2]
    have hblock : (handleHeaders sdk fields).block = fieldBlock (keptFields false fields) :=
      foldl_note fields hgoes
    rw [hblock, readBlock_eq_iff (keptFields_sublist false fields), keptFields_eq_iff]
    unfold NoneDropped RequestOk
    constructor
    · rintro ⟨⟨hnamed, hcount⟩, hclean⟩
      exact ⟨fun f hf => ⟨hnamed f hf, hclean f hf⟩, hcount⟩
    · rintro ⟨hfields, hcount⟩
      exact ⟨⟨fun f hf => (hfields f hf).1, hcount⟩, fun f hf => (hfields f hf).2⟩
  · intro hover
    obtain ⟨hblock, htype⟩ := foldl_noteFields (r := {}) fields hover
    have hblock : (noteFields fields).block = fieldBlock (responseFields fields) := hblock
    have htype : (noteFields fields).contentType = (contentTypes fields).getLastD [] := htype
    rw [hblock, readBlock_eq_iff (List.Sublist.refl _), htype]
    unfold ResponseOk
    have htypes : (contentTypes fields = [] ∨ contentTypes fields = [(contentTypes fields).getLastD []]) ↔
        (contentTypes fields).length ≤ 1 := by
      match contentTypes fields with
      | [] => simp
      | [v] => simp
      | v :: v' :: rest => simp
    rw [htypes]
    simp

def getOnly : SdkHttp where
  methodFromToken token := if token = ascii "GET" then .get else .none

def plainRequest (name value : String) : List Field :=
  [(ascii ":method", ascii "GET"), (ascii ":path", ascii "/"), (ascii ":authority", ascii "a.example"),
    (ascii name, ascii value)]

theorem blocks_read_back_plain :
    (handleHeaders getOnly (plainRequest "accept" "text/html")).accepted = true ∧
      readBlock (handleHeaders getOnly (plainRequest "accept" "text/html")).block =
        [(ascii "host", ascii "a.example"), (ascii "accept", ascii "text/html")] ∧
      (noteFields (plainRequest "accept" "text/html")).overflow = false ∧
      readBlock (noteFields [(ascii "etag", ascii "x")]).block = [(ascii "etag", ascii "x")] := by
  have hrequest := (blocks_read_back getOnly (plainRequest "accept" "text/html")).1 (by decide +kernel)
  have hresponse := (blocks_read_back getOnly [(ascii "etag", ascii "x")]).2 (by decide +kernel)
  refine ⟨by decide +kernel, ?_, by decide +kernel, (hresponse.mpr ⟨by decide +kernel, by decide +kernel⟩).1⟩
  rw [hrequest.mpr ⟨by decide +kernel, by decide +kernel⟩]
  decide +kernel

/-- A value with a line break adds a line of its own, in an accepted request and in a recorded response. -/
theorem block_line_added :
    (handleHeaders getOnly (plainRequest "x" "1\r\nauthorization: root")).accepted = true ∧
      readBlock (handleHeaders getOnly (plainRequest "x" "1\r\nauthorization: root")).block =
        [(ascii "host", ascii "a.example"), (ascii "x", ascii "1"), (ascii "authorization", ascii "root")] ∧
      (requestFields (plainRequest "x" "1\r\nauthorization: root")).length = 2 ∧
      (noteFields [(ascii "x", ascii "1\r\nlocation: /")]).overflow = false ∧
      readBlock (noteFields [(ascii "x", ascii "1\r\nlocation: /")]).block =
        [(ascii "x", ascii "1"), (ascii "location", ascii "/")] ∧
      (responseFields [(ascii "x", ascii "1\r\nlocation: /")]).length = 1 := by
  decide +kernel

end Wave.Http.Fields
