import Wave.Http.H1Wire

/-! # How a head frames its body (`http/wire/h1.rs`)

`body_framing` looks at the last coding of the first `Transfer-Encoding` line only. -/

namespace Wave.Http

open Lib

def TE : Bytes := ascii "transfer-encoding"

def CL : Bytes := ascii "content-length"

def codings (value : Bytes) : List Bytes := (value.splitOn COMMA).map trimOws

def combined (values : List Bytes) : Bytes := [COMMA].intercalate (values.map trimOws)

def isChunked (coding : Bytes) : Bool := eqIgnoreCase coding (ascii "chunked")

def ChunkedLast (list : List Bytes) : Prop := isChunked (list.getLastD []) = true

def ChunkedOnce (list : List Bytes) : Prop := ChunkedLast list ∧ ∀ c ∈ list.dropLast, isChunked c = false

instance (list : List Bytes) : Decidable (ChunkedLast list) := inferInstanceAs (Decidable (_ = true))

instance (list : List Bytes) : Decidable (ChunkedOnce list) := inferInstanceAs (Decidable (_ ∧ _))

def decimalNumber (digits : Bytes) : Nat := digits.foldl (fun n c => n * 10 + (c - 0x30).toNat) 0

def Decimal (digits : Bytes) (n : Nat) : Prop := digits ≠ [] ∧ (∀ c ∈ digits, isDigit c = true) ∧ decimalNumber digits = n

/-- A framing that takes every framing line of the head into account. -/
def Accounted (head : Bytes) : BodyFraming → Prop
  | .length n => fieldValues head TE = [] ∧ ∀ v ∈ fieldValues head CL, Decimal (trimOws v) n
  | .chunked => fieldValues head CL = [] ∧ ChunkedOnce (codings (combined (fieldValues head TE)))
  | .none => fieldValues head TE = [] ∧ fieldValues head CL = []
  | .invalid => True

instance (digits : Bytes) (n : Nat) : Decidable (Decimal digits n) := inferInstanceAs (Decidable (_ ∧ _ ∧ _))

instance (head : Bytes) : ∀ framing, Decidable (Accounted head framing)
  | .length n => inferInstanceAs (Decidable (_ ∧ ∀ v ∈ fieldValues head CL, Decimal (trimOws v) n))
  | .chunked => inferInstanceAs (Decidable (_ ∧ _))
  | .none => inferInstanceAs (Decidable (_ ∧ _))
  | .invalid => inferInstanceAs (Decidable True)

/-- A head without a length whose first `Transfer-Encoding` line ends in `chunked` names it nowhere else. -/
def OneEncoding (head : Bytes) : Prop :=
  fieldValues head CL = [] → ∀ first more, fieldValues head TE = first :: more →
    ChunkedLast (codings (trimOws first)) → more = [] ∧ ∀ c ∈ (codings (trimOws first)).dropLast, isChunked c = false

variable {head digits : Bytes}

theorem findHeader_none {name : Bytes} : findHeader head name = none ↔ fieldValues head name = [] := by
  rw [findHeader, Option.map_eq_none_iff, List.head?_eq_none_iff]

theorem findHeader_some {name v : Bytes} (h : findHeader head name = some v) :
    ∃ first more, fieldValues head name = first :: more ∧ v = trimOws first := by
  rw [findHeader] at h
  cases hv : fieldValues head name with
  | nil =>
    rw [hv] at h
    cases h
  | cons first more =>
    rw [hv] at h
    cases h
    exact ⟨first, more, rfl, rfl⟩

theorem foldl_none {α β : Type*} {f : Option β → α → Option β} (h : ∀ c, f none c = none) (l : List α) :
    l.foldl f none = none := by
  induction l with
  | nil => rfl
  | cons c l ih => rw [foldl_cons, h, ih]

theorem decimalU64_some {n : Nat} (h : decimalU64 digits = some n) :
    (∀ c ∈ digits, isDigit c = true) ∧ decimalNumber digits = n := by
  unfold decimalU64 decimalNumber at *
  generalize 0 = start at h ⊢
  induction digits generalizing start with
  | nil =>
    cases h
    exact ⟨nofun, rfl⟩
  | cons c digits ih =>
    rw [foldl_cons] at h ⊢
    dsimp only at h
    split at h
    next hc =>
      split at h
      · obtain ⟨hdigits, hn⟩ := ih _ h
        exact ⟨forall_mem_cons.mpr ⟨hc, hdigits⟩, hn⟩
      · rw [foldl_none fun _ => rfl] at h
        cases h
    · rw [foldl_none fun _ => rfl] at h
      cases h

theorem agree_of_first {first : Bytes} {more : List Bytes} {name : Bytes} (hlines : fieldValues head name = first :: more)
    (h : headerValuesDisagree head name = false) {v : Bytes} (hv : v ∈ fieldValues head name) : trimOws v = trimOws first := by
  unfold headerValuesDisagree at h
  rw [hlines, map_cons] at h
  dsimp only at h
  rw [hlines] at hv
  rcases mem_cons.mp hv with rfl | hv
  · rfl
  · have hsame := any_eq_false.mp h _ (List.mem_map_of_mem hv)
    rw [bne_iff_ne, ne_eq, not_not] at hsame
    exact hsame

theorem codings_ne_nil (v : Bytes) : codings v ≠ [] := by
  rw [codings, ne_eq, map_eq_nil_iff]
  exact List.splitOn_ne_nil COMMA v

theorem codings_combined_one (first : Bytes) : codings (combined [first]) = codings (trimOws first) := by
  rw [combined, map_singleton, intercalate_singleton]

theorem codings_combined_cons (first second : Bytes) (more : List Bytes) :
    codings (combined (first :: second :: more)) = codings (trimOws first) ++ codings (combined (second :: more)) := by
  have hjoin : combined (first :: second :: more) = trimOws first ++ COMMA :: combined (second :: more) := by
    simp [combined, List.intercalate]
  rw [hjoin, codings, List.splitOn_append_cons_self, map_append]
  rfl

theorem getLastD_mem {α : Type*} {l : List α} {d : α} (h : l ≠ []) : l.getLastD d ∈ l := by
  rw [List.getLastD_eq_getLast?, List.getLast?_eq_some_getLast h]
  exact List.getLast_mem h

/-- With `chunked` at the end of the first line it comes once in all of them just if there is no second line. -/
theorem chunkedOnce_combined {first : Bytes} {more : List Bytes} (hlast : ChunkedLast (codings (trimOws first))) :
    ChunkedOnce (codings (combined (first :: more))) ↔
      more = [] ∧ ∀ c ∈ (codings (trimOws first)).dropLast, isChunked c = false := by
  cases more with
  | nil =>
    rw [codings_combined_one]
    exact ⟨fun h => ⟨rfl, h.2⟩, fun h => ⟨hlast, h.2⟩⟩
  | cons second more =>
    refine ⟨fun h => ?_, fun h => absurd h.1 nofun⟩
    rw [codings_combined_cons] at h
    have hmem : (codings (trimOws first)).getLastD [] ∈
        (codings (trimOws first) ++ codings (combined (second :: more))).dropLast := by
      rw [List.dropLast_append_of_ne_nil (codings_ne_nil _)]
      exact mem_append_left _ (getLastD_mem (codings_ne_nil _))
    exact absurd hlast (by rw [ChunkedLast, h.2 _ hmem]; exact nofun)

theorem bodyFraming_lengths (h : fieldValues head TE = []) : Accounted head (bodyFraming head) := by
  unfold bodyFraming
  dsimp only
  rw [show findHeader head (ascii "transfer-encoding") = none from findHeader_none.mpr h]
  dsimp only
  cases hcl : findHeader head (ascii "content-length") with
  | none => exact ⟨h, findHeader_none.mp hcl⟩
  | some v =>
    obtain ⟨first, more, hlines, rfl⟩ := findHeader_some hcl
    dsimp only
    by_cases hempty : trimOws first = []
    · rw [if_pos hempty]
      exact trivial
    rw [if_neg hempty]
    split
    · exact trivial
    next hagree =>
      rw [not_eq_true, or_eq_false_iff] at hagree
      cases hn : decimalU64 (trimOws first) with
      | none => exact trivial
      | some n =>
        refine ⟨h, fun v hv => ?_⟩
        rw [agree_of_first hlines hagree.1 hv]
        exact ⟨hempty, decimalU64_some hn⟩

/-- The framing accounts for every framing line just if `chunked`, where it ends the first line, is named once. -/
theorem bodyFraming_accounted (head : Bytes) : Accounted head (bodyFraming head) ↔ OneEncoding head := by
  cases hte : findHeader head TE with
  | none =>
    have hnone := findHeader_none.mp hte
    refine ⟨fun _ _ first more hlines => ?_, fun _ => bodyFraming_lengths hnone⟩
    rw [hnone] at hlines
    cases hlines
  | some v =>
    obtain ⟨first, more, hlines, rfl⟩ := findHeader_some hte
    have hframing : bodyFraming head = if (findHeader head CL).isSome then .invalid
        else if isChunked ((codings (trimOws first)).getLastD []) then .chunked else .invalid := by
      unfold bodyFraming
      rw [TE] at hte
      rw [hte]
      rfl
    cases hcl : findHeader head CL with
    | some w =>
      obtain ⟨_, _, hlength, -⟩ := findHeader_some hcl
      rw [hframing, hcl]
      refine ⟨fun _ hnone => ?_, fun _ => trivial⟩
      rw [hlength] at hnone
      cases hnone
    | none =>
      have hnone := findHeader_none.mp hcl
      rw [hframing, hcl, if_neg nofun]
      split
      next hlast =>
        rw [Accounted, hlines, chunkedOnce_combined hlast]
        refine ⟨fun h _ first' more' hlines' _ => ?_, fun h => ⟨hnone, h hnone first more hlines hlast⟩⟩
        rw [hlines] at hlines'
        cases hlines'
        exact h.2
      next hlast =>
        refine ⟨fun _ _ first' more' hlines' hlast' => ?_, fun _ => trivial⟩
        rw [hlines] at hlines'
        cases hlines'
        exact absurd hlast' hlast

/-- A second line changes what the first says, and is not read. -/
theorem bodyFraming_second_line :
    ¬ ∀ head, Accounted head (bodyFraming head) := by
  intro h
  have hhead := h (ascii "POST / HTTP/1.1\r\nTransfer-Encoding: chunked\r\nTransfer-Encoding: gzip\r\n\r\n")
  revert hhead
  decide

end Wave.Http
