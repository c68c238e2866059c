import Wave.Http.H1Wire
import Wave.Lib.Lines

/-! # The requester's header block (`http/client/provider.rs`)

`check` and `adopt` cut the block at each LF on their own: `kept_as_sent_iff` compares the two. -/

namespace Wave.Http.Response

open Lib

variable {bodyLen : Nat}

def isTokenChar (b : UInt8) : Bool :=
  isDigit b || decide (0x41 ≤ b ∧ b ≤ 0x5A) || decide (0x61 ≤ b ∧ b ≤ 0x7A) ||
    b ∈ [0x21, 0x23, 0x24, 0x25, 0x26, 0x27, 0x2A, 0x2B, 0x2D, 0x2E, 0x5E, 0x5F, 0x60, 0x7C, 0x7E]

end Wave.Http.Response

namespace Wave.Http.Client

open Lib Http.Response

inductive Refusal where
  | badRequest
  | tooLarge
deriving DecidableEq

def AUTHORITY_MAX : Nat := 128

/-- The client's own authority, empty when it is not pinned, and the SDK's reading of one. -/
structure ClientConfig where
  authority : Bytes
  targetParses : Bytes → Bool

def framingField (name : Bytes) : Bool :=
  [ascii "connection", ascii "keep-alive", ascii "transfer-encoding", ascii "te", ascii "trailer",
    ascii "upgrade", ascii "proxy-connection", ascii "expect"].any (eqIgnoreCase name ·)

def tchar (c : UInt8) : Bool := isTokenChar c

def METHODS : List Method := [.get, .head, .post, .put, .patch, .delete, .options]

/-- `value_span`: what follows the colon, without one CR at its end and without blanks. -/
def fieldValue (raw : Bytes) : Bytes := trimOws (if raw.getLast? = some CR then raw.dropLast else raw)

def parseDecimal (v : Bytes) : Option Nat := if v = [] then none else decimalU64 v

/-- One line of the block, cut at its LF, with the `host` named so far. -/
def checkLine (bodyLen : Nat) (host : Option Bytes) (line : Bytes) : Except Refusal (Option Bytes) :=
  if line = [] then .ok host
  else if line.getLast? ≠ some CR then .error .badRequest
  else
    match splitField line.dropLast with
    | none => .error .badRequest
    | some (name, raw) =>
      if name = [] ∨ !name.all tchar ∨ raw.any (fun c => c = CR || c = LF || c = 0) then .error .badRequest
      else if framingField name then .error .badRequest
      else if eqIgnoreCase name (ascii "content-length") then
        if parseDecimal (fieldValue raw) ≠ some bodyLen then .error .badRequest else .ok host
      else if eqIgnoreCase name (ascii "host") then
        if host.isSome then .error .badRequest else .ok (some (fieldValue raw))
      else .ok host

/-- `check`; `tunnel` is whether a flag asks for a broadcast, a WebSocket or a WebTransport session. -/
def check (c : ClientConfig) (method : Method) (tunnel : Bool) (target headers : Bytes) (bodyLen : Nat) :
    Except Refusal Unit :=
  if method ∉ METHODS ∨ tunnel then .error .badRequest
  else if target ≠ [] ∧ (target.head? ≠ some SLASH ∨ target.any fun b => !(0x21 ≤ b && b ≤ 0x7E)) then
    .error .badRequest
  else if headers ≠ [] ∧ !crlf.isSuffixOf headers then .error .badRequest
  else
    match (headers.splitOn LF).foldlM (checkLine bodyLen) none with
    | .error e => .error e
    | .ok (some h) =>
      if c.authority ≠ [] then if eqIgnoreCase h c.authority then .ok () else .error .badRequest
      else if h.length > AUTHORITY_MAX then .error .tooLarge
      else if c.targetParses h then .ok ()
      else .error .badRequest
    | .ok none => if c.authority = [] then .error .badRequest else .ok ()

def own (line : Bytes) : Bool :=
  match splitField line with
  | some (name, _) => eqIgnoreCase name (ascii "host") || eqIgnoreCase name (ascii "content-length")
  | none => false

/-- What `adopt` copies of the block. -/
def keptBlock (headers : Bytes) : Bytes :=
  (headers.splitOn LF).flatMap fun line =>
    if COLON ∈ line ∧ !own line then line ++ [LF] else []

def requestLines (headers : Bytes) : List Bytes := (headers.splitOn LF).dropLast.map (· ++ [LF])

/-- A field line that frames nothing: a token, a colon and a value, ended by CRLF. -/
def FieldLine (line : Bytes) : Prop :=
  ∃ name value, line = name ++ COLON :: (value ++ crlf) ∧ name ≠ [] ∧ (∀ b ∈ name, tchar b = true) ∧
    (∀ b ∈ value, b ≠ CR ∧ b ≠ LF ∧ b ≠ 0) ∧ framingField name = false

/-- The kept block is the lines sent without those the client writes itself; a reader that cuts at CRLF finds them
again. -/
structure KeptAsSent (headers : Bytes) : Prop where
  concat : keptBlock headers = ((requestLines headers).filter (!own ·)).flatten
  fields : ∀ line ∈ requestLines headers, FieldLine line
  read : Lines.split CR LF (keptBlock headers) =
    ((requestLines headers).filter (!own ·)).map (fun line => line.take (line.length - 2)) ++ [[]]

theorem takeWhile_colon {name : Bytes} (h : ∀ b ∈ name, tchar b = true) (rest : Bytes) :
    (name ++ COLON :: rest).takeWhile (· != COLON) = name := by
  rw [takeWhile_append_of_pos]
  · simp
  · intro b hb
    have := h b hb
    simp only [bne_iff_ne, ne_eq]
    rintro rfl
    exact absurd this (by decide)

theorem splitField_name {name : Bytes} (h : ∀ b ∈ name, tchar b = true) (rest : Bytes) :
    ∃ value, splitField (name ++ COLON :: rest) = some (name, value) := by
  rw [splitField, if_pos (by simp), takeWhile_colon h]
  exact ⟨_, rfl⟩

theorem splitField_some {line name value : Bytes} (h : splitField line = some (name, value)) :
    line = name ++ COLON :: value := by
  unfold splitField at h
  split_ifs at h with hcolon
  obtain ⟨rfl, rfl⟩ := Prod.mk.inj (Option.some.inj h)
  clear h
  induction line with
  | nil => cases hcolon
  | cons b line ih =>
    by_cases hb : b = COLON
    · simp [hb]
    · have hrest := ih ((mem_cons.mp hcolon).resolve_left (Ne.symm hb))
      rw [takeWhile_cons_of_pos (by simpa using hb), List.dropWhile_cons_of_pos (by simpa using hb),
        cons_append, ← hrest]

theorem checkLine_ok {host host' : Option Bytes} {line : Bytes} (h : checkLine bodyLen host line = .ok host') : line = [] ∨ FieldLine (line ++ [LF]) := by
  unfold checkLine at h
  by_cases hempty : line = []
  · exact .inl hempty
  rw [if_neg hempty] at h
  by_cases hcr : line.getLast? ≠ some CR
  · rw [if_pos hcr] at h
    cases h
  rw [if_neg hcr] at h
  cases hsplit : splitField line.dropLast with
  | none =>
    rw [hsplit] at h
    cases h
  | some f =>
    obtain ⟨name, raw⟩ := f
    simp only [hsplit] at h
    by_cases hbad : name = [] ∨ (!name.all tchar) = true ∨ (raw.any fun c => c = CR || c = LF || c = 0) = true
    · rw [if_pos hbad] at h
      cases h
    rw [if_neg hbad] at h
    by_cases hframing : framingField name = true
    · rw [if_pos hframing] at h
      cases h
    simp only [not_or] at hbad
    obtain ⟨hname, htoken, hvalue⟩ := hbad
    have hline : line = name ++ COLON :: (raw ++ [CR]) := by
      obtain ⟨init, rfl⟩ := List.getLast?_eq_some_iff.mp (not_not.mp hcr)
      rw [List.dropLast_concat] at hsplit
      rw [splitField_some hsplit, append_assoc, cons_append]
    refine .inr ⟨name, raw, ?_, hname, by simpa using htoken, ?_, by simpa using hframing⟩
    · rw [hline]
      simp [crlf]
    · intro b hb
      have := hvalue
      simp only [List.any_eq_true, not_exists, not_and, or_eq_true, decide_eq_true_eq, not_or] at this
      exact ⟨(this b hb).1.1, (this b hb).1.2, (this b hb).2⟩

theorem checkLines_ok {lines : List Bytes} {host host' : Option Bytes}
    (h : lines.foldlM (checkLine bodyLen) host = .ok host') :
    ∀ line ∈ lines, line = [] ∨ FieldLine (line ++ [LF]) := by
  induction lines generalizing host with
  | nil => exact nofun
  | cons line lines ih =>
    rw [foldlM_cons] at h
    cases hline : checkLine bodyLen host line with
    | error e =>
      rw [hline] at h
      cases h
    | ok next =>
      rw [hline] at h
      intro l hl
      rcases mem_cons.mp hl with rfl | hl
      · exact checkLine_ok hline
      · exact ih h l hl

theorem check_ok {c : ClientConfig} {method : Method} {tunnel : Bool} {target headers : Bytes}
    (h : check c method tunnel target headers bodyLen = .ok ()) :
    ∃ lines, headers.splitOn LF = lines ++ [[]] ∧ ∀ line ∈ lines, line = [] ∨ FieldLine (line ++ [LF]) := by
  unfold check at h
  by_cases hmethod : method ∉ METHODS ∨ tunnel = true
  · rw [if_pos hmethod] at h
    cases h
  rw [if_neg hmethod] at h
  by_cases htarget : target ≠ [] ∧ (target.head? ≠ some SLASH ∨
      (target.any fun b => !(0x21 ≤ b && b ≤ 0x7E)) = true)
  · rw [if_pos htarget] at h
    cases h
  rw [if_neg htarget] at h
  by_cases hend : headers ≠ [] ∧ (!crlf.isSuffixOf headers) = true
  · rw [if_pos hend] at h
    cases h
  rw [if_neg hend] at h
  have hlast : ∃ lines, headers.splitOn LF = lines ++ [[]] := by
    by_cases hempty : headers = []
    · exact ⟨[], by simp [hempty]⟩
    · have hsuffix : crlf <:+ headers := by simpa [hempty] using hend
      obtain ⟨init, rfl⟩ := hsuffix
      refine ⟨(init ++ [CR]).splitOn LF, ?_⟩
      have := List.splitOn_append_cons_self (a := LF) (init ++ [CR]) []
      simpa [crlf] using this
  obtain ⟨lines, hlines⟩ := hlast
  refine ⟨lines, hlines, ?_⟩
  cases hfold : (headers.splitOn LF).foldlM (checkLine bodyLen) none with
  | error e =>
    rw [hfold] at h
    cases h
  | ok host =>
    intro line hline
    exact checkLines_ok hfold line (by rw [hlines]; exact mem_append_left _ hline)

theorem FieldLine.text {line : Bytes} (h : FieldLine line) :
    line = line.take (line.length - 2) ++ crlf ∧ Lines.Whole CR LF (line.take (line.length - 2)) := by
  obtain ⟨name, value, rfl, -, htoken, hvalue, -⟩ := h
  have htext : (name ++ COLON :: (value ++ crlf)).take ((name ++ COLON :: (value ++ crlf)).length - 2) =
      name ++ COLON :: value := by
    have hlen : (name ++ COLON :: (value ++ crlf)).length - 2 = (name ++ COLON :: value).length := by
      simp [crlf]
      omega
    rw [hlen, show name ++ COLON :: (value ++ crlf) = (name ++ COLON :: value) ++ crlf by simp, take_left]
  rw [htext]
  refine ⟨by simp, fun hsep => ?_⟩
  have hcr : CR ∈ name ++ COLON :: value := hsep.subset (by simp)
  rcases mem_append.mp hcr with hmem | hmem
  · exact absurd (htoken CR hmem) (by decide)
  · rcases mem_cons.mp hmem with heq | hmem
    · exact absurd heq (by decide)
    · exact (hvalue CR hmem).1 rfl

theorem keptBlock_eq {lines : List Bytes} (h : ∀ line ∈ lines, FieldLine (line ++ [LF])) :
    (lines.flatMap fun line => if COLON ∈ line ∧ !own line then line ++ [LF] else []) =
      ((lines.map (· ++ [LF])).filter (!own ·)).flatten := by
  induction lines with
  | nil => rfl
  | cons line lines ih =>
    have hline := h line mem_cons_self
    have hrest := ih fun l hl => h l (mem_cons_of_mem _ hl)
    obtain ⟨name, value, heq, -, htoken, -, -⟩ := hline
    have hline : line = name ++ COLON :: (value ++ [CR]) := by
      have hcut : line ++ [LF] = (name ++ COLON :: (value ++ [CR])) ++ [LF] := by rw [heq]; simp [crlf]
      exact List.append_cancel_right hcut
    have hown : own (line ++ [LF]) = own line := by
      obtain ⟨v, hv⟩ := splitField_name htoken (value ++ [CR])
      obtain ⟨v', hv'⟩ := splitField_name htoken (value ++ crlf)
      rw [own, own, heq, hv', hline, hv]
    have hcolon : COLON ∈ line := by simp [hline]
    rw [flatMap_cons, hrest, map_cons, List.filter_cons, hown]
    cases own line <;> simp [hcolon]

theorem fieldLine_blank : ¬ FieldLine [LF] := by
  rintro ⟨name, value, heq, hname, -⟩
  have hlen := congrArg List.length heq
  simp only [crlf, length_append, length_cons, length_nil] at hlen
  omega

/-- `adopt` keeps exactly the lines sent, without those the client writes itself, if and only if no line is blank. -/
theorem kept_as_sent_iff {c : ClientConfig} {method : Method} {tunnel : Bool} {target headers : Bytes}
    {bodyLen : Nat} (h : check c method tunnel target headers bodyLen = .ok ()) :
    KeptAsSent headers ↔ [LF] ∉ requestLines headers := by
  obtain ⟨lines, hsplit, hlines⟩ := check_ok h
  have hreq : requestLines headers = lines.map (· ++ [LF]) := by
    rw [requestLines, hsplit, List.dropLast_concat]
  constructor
  · intro hkept hblank
    exact fieldLine_blank (hkept.fields _ hblank)
  · intro hblank
    have hfields : ∀ line ∈ lines, FieldLine (line ++ [LF]) := by
      intro line hline
      refine (hlines line hline).resolve_left fun hnil => hblank ?_
      rw [hreq]
      exact mem_map.mpr ⟨line, hline, by rw [hnil]; rfl⟩
    have hconcat : keptBlock headers = ((requestLines headers).filter (!own ·)).flatten := by
      rw [keptBlock, hsplit, flatMap_append, keptBlock_eq hfields, hreq]
      simp
    have hall : ∀ line ∈ requestLines headers, FieldLine line := by
      rw [hreq]
      intro line hline
      obtain ⟨l, hl, rfl⟩ := mem_map.mp hline
      exact hfields l hl
    refine ⟨hconcat, hall, ?_⟩
    -- the kept lines are texts, each ended by CRLF
    have htexts : ((requestLines headers).filter (!own ·)).flatten =
        (((requestLines headers).filter (!own ·)).map fun line => line.take (line.length - 2)).flatMap
          fun text => text ++ [CR, LF] := by
      rw [List.flatMap_map, ← List.flatMap_id]
      refine List.flatMap_congr fun line hline => ?_
      exact (hall line (List.mem_of_mem_filter hline)).text.1
    rw [hconcat, htexts]
    refine Lines.split_lines (by decide) fun text htext => ?_
    obtain ⟨line, hline, rfl⟩ := mem_map.mp htext
    exact (hall line (List.mem_of_mem_filter hline)).text.2

def pinnedConfig : ClientConfig where
  authority := ascii "origin"
  targetParses := fun _ => true

/-- The lines around one the client writes itself. -/
theorem kept_as_sent_iff_twoFields :
    let headers := ascii "accept: */*\r\nContent-Length: 2\r\nx-id: 7\r\n"
    check pinnedConfig .post false (ascii "/") headers 2 = .ok () ∧
      keptBlock headers = ascii "accept: */*\r\nx-id: 7\r\n" ∧ KeptAsSent headers := by
  intro headers
  have hcheck : check pinnedConfig .post false (ascii "/") headers 2 = .ok () := by decide +kernel
  exact ⟨hcheck, by decide +kernel, (kept_as_sent_iff hcheck).mpr (by decide +kernel)⟩

/-- A block that begins with an LF is accepted, its blank line dropped. -/
theorem kept_not_as_sent_bareLf :
    check pinnedConfig .get false (ascii "/") (ascii "\naccept: */*\r\n") 0 = .ok () ∧
      ¬ KeptAsSent (ascii "\naccept: */*\r\n") :=
  ⟨by decide +kernel, fun hkept => fieldLine_blank (hkept.fields [LF] (by decide +kernel))⟩

end Wave.Http.Client
