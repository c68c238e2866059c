import Wave.Http.BodyDecode
import Mathlib.Data.List.TakeWhile

/-! # The lines before chunks (`http/wire/h1.rs`)

`parseChunkHeader_ok_iff` says what is accepted; a chunk-size line of the standard is less. -/

namespace Wave.Http

open Lib

def SEMICOLON : UInt8 := 0x3B

def Extension (ext : Bytes) : Prop :=
  ext = [] ∨ ∃ blank value, ext = blank ++ SEMICOLON :: value ∧ (∀ c ∈ blank, c = 0x20 ∨ c = 0x09) ∧ CR ∉ value ∧ LF ∉ value

/-- A chunk-size line of RFC 9112 §7.1, within `MAX_CHUNK_LINE`. -/
def ChunkLine (line : Bytes) (size : Nat) : Prop :=
  ∃ digits ext, line = digits ++ ext ++ crlf ∧ line.length ≤ MAX_CHUNK_LINE ∧ digits ≠ [] ∧
    (∀ c ∈ digits, hexDigit c ≠ none) ∧ hexNumber digits = size ∧ Extension ext

theorem chunkSize_some {l : Bytes} {s k size digits : Nat} (h : chunkSize l s k = some (size, digits)) (hs : s < 2 ^ 64) :
    ∃ ds tail, l = ds ++ tail ∧ digits = k + ds.length ∧ (∀ c ∈ ds, hexDigit c ≠ none) ∧
      ds.foldl (fun n c => n * 16 + (hexDigit c).getD 0) s = size ∧ size < 2 ^ 64 ∧ ∀ c ∈ tail.head?, hexDigit c = none := by
  induction l generalizing s k with
  | nil =>
    cases h
    exact ⟨[], [], rfl, rfl, (by rintro _ ⟨⟩), rfl, hs, (by rintro _ ⟨⟩)⟩
  | cons c l ih =>
    rw [chunkSize] at h
    cases hc : hexDigit c with
    | none =>
      rw [hc] at h
      cases h
      refine ⟨[], c :: l, rfl, rfl, (by rintro _ ⟨⟩), rfl, hs, fun b hb => ?_⟩
      cases hb
      exact hc
    | some d =>
      rw [hc] at h
      dsimp only at h
      split_ifs at h with hfits
      obtain ⟨ds, tail, rfl, rfl, hhex, hsize, hlt, htail⟩ := ih h hfits
      refine ⟨c :: ds, tail, rfl, by rw [length_cons]; omega, ?_, ?_, hlt, htail⟩
      · rw [forall_mem_cons, hc]
        exact ⟨(by rintro ⟨⟩), hhex⟩
      · rw [foldl_cons, hc]
        exact hsize

theorem takeWhile_cut {l : Bytes} (h : (l.takeWhile (· != CR)).length < l.length) :
    ∃ behind, l = l.takeWhile (· != CR) ++ CR :: behind := by
  have hsplit : l.takeWhile (· != CR) ++ l.dropWhile (· != CR) = l := takeWhile_append_dropWhile
  have hstop := List.head?_dropWhile_not (· != CR) l
  cases hb : l.dropWhile (· != CR) with
  | nil =>
    rw [hb, append_nil] at hsplit
    rw [hsplit] at h
    exact absurd h (Nat.lt_irrefl _)
  | cons b behind =>
    rw [hb] at hstop hsplit
    have hcr : b = CR := by simpa using hstop
    rw [hcr] at hsplit
    exact ⟨behind, hsplit.symm⟩

theorem sizeLine_of_ok {buf : Bytes} {size consumed : Nat} (h : parseChunkHeader buf = .ok size consumed) :
    SizeLine (buf.take consumed) size := by
  unfold parseChunkHeader at h
  dsimp only at h
  cases hs : chunkSize (buf.take MAX_CHUNK_LINE) 0 0 with
  | none =>
    rw [hs] at h
    cases h
  | some r =>
    obtain ⟨n, digits⟩ := r
    rw [hs] at h
    dsimp only at h
    obtain ⟨ds, tail, hline, hdigits, hhex, hsize, hlt, htail⟩ := chunkSize_some hs (by decide)
    rw [Nat.zero_add] at hdigits
    subst hdigits
    rw [hline, drop_left] at h
    split_ifs at h with hzero hwait hend hwhole
    have hshort : ds.length + tail.length ≤ MAX_CHUNK_LINE := by
      rw [← length_append, ← hline, length_take]
      omega
    rw [length_append] at hend
    obtain ⟨behind, hsplit⟩ := takeWhile_cut (l := tail) (by omega)
    have hcr : CR ∉ tail.takeWhile (· != CR) := fun hin => by simpa using List.mem_takeWhile_imp hin
    generalize tail.takeWhile (· != CR) = ext at h hend hsplit hcr
    subst hsplit
    have hbuf : buf = (ds ++ ext ++ [CR]) ++ (behind ++ buf.drop MAX_CHUNK_LINE) := by
      conv_lhs => rw [← take_append_drop MAX_CHUNK_LINE buf, hline]
      simp
    have hlen : (ds ++ ext ++ [CR]).length = ds.length + ext.length + 1 := by
      rw [length_append, length_append]
      rfl
    have hlf : (behind ++ buf.drop MAX_CHUNK_LINE).head? = buf[ds.length + ext.length + 1]? := by
      conv_rhs => rw [hbuf]
      rw [List.getElem?_append_right (by omega), hlen, Nat.sub_self, List.head?_eq_getElem?]
    cases hrest : behind ++ buf.drop MAX_CHUNK_LINE with
    | nil =>
      rw [← hlf, hrest] at h
      cases h
    | cons c rest =>
      rw [← hlf, hrest, List.head?_cons] at h
      dsimp only at h
      split_ifs at h with hc
      cases h
      subst hc
      have htake : buf.take (ds.length + ext.length + 2) = ds ++ ext ++ crlf := by
        have hlength : (ds ++ ext ++ crlf).length = ds.length + ext.length + 2 := by
          rw [length_append, length_append]
          rfl
        have hwhole : buf = (ds ++ ext ++ crlf) ++ rest := by
          rw [hbuf, hrest]
          simp [crlf]
        rw [hwhole, ← hlength, take_left]
      have hfirst : ∀ c ∈ ext.head?, hexDigit c = none := by
        cases ext with
        | nil => rintro _ ⟨⟩
        | cons x ext => exact htail
      refine ⟨ds, ext, htake, ?_, fun hnil => hzero (by rw [hnil]; rfl), hhex, hsize, hlt, hfirst, hcr⟩
      rw [length_append, length_cons] at hshort
      rw [length_take]
      omega

theorem parseChunkHeader_ok_iff (buf : Bytes) (size consumed : Nat) :
    parseChunkHeader buf = .ok size consumed ↔ consumed ≤ buf.length ∧ SizeLine (buf.take consumed) size := by
  constructor
  · intro h
    exact ⟨(parseChunkHeader_ok_le h).2, sizeLine_of_ok h⟩
  · rintro ⟨hle, hline⟩
    have hok := parseChunkHeader_line hline
    rw [length_take, Nat.min_eq_left hle] at hok
    have happend := parseChunkHeader_append (by rw [hok]; nofun) (buf.drop consumed)
    rw [take_append_drop, hok] at happend
    exact happend

/-- A buffer starts with a line that is no line of the standard: its line end is a byte too far, or an extension is
none. -/
def Slack (buf : Bytes) : Prop :=
  ∃ digits ext rest, buf = digits ++ ext ++ crlf ++ rest ∧ digits ≠ [] ∧ (∀ c ∈ digits, hexDigit c ≠ none) ∧
    hexNumber digits < 2 ^ 64 ∧ (∀ c ∈ ext.head?, hexDigit c = none) ∧ CR ∉ ext ∧
    (digits.length + ext.length + 1 = MAX_CHUNK_LINE ∨ digits.length + ext.length + 1 < MAX_CHUNK_LINE ∧ ¬ Extension ext)

theorem extension_head {ext : Bytes} (h : Extension ext) : ∀ c ∈ ext.head?, hexDigit c = none := by
  obtain rfl | ⟨blank, value, rfl, hblank, -, -⟩ := h
  · exact nofun
  · cases blank with
    | nil =>
      intro c hc
      cases hc
      decide
    | cons b blank =>
      intro c hc
      rw [← show b = c from Option.some.inj hc]
      rcases hblank b mem_cons_self with h | h <;> rw [h] <;> decide

theorem digits_unique {digits ext digits' ext' : Bytes} (h : digits ++ ext = digits' ++ ext')
    (hhex : ∀ c ∈ digits, hexDigit c ≠ none) (hhex' : ∀ c ∈ digits', hexDigit c ≠ none)
    (hext : ∀ c ∈ ext.head?, hexDigit c = none) (hext' : ∀ c ∈ ext'.head?, hexDigit c = none) : ext = ext' := by
  have hrun : ∀ {ds tail : Bytes}, (∀ c ∈ ds, hexDigit c ≠ none) → (∀ c ∈ tail.head?, hexDigit c = none) →
      (ds ++ tail).dropWhile (fun c => hexDigit c ≠ none) = tail := by
    intro ds tail hds htail
    rw [List.dropWhile_append_of_pos fun c hc => by simpa using hds c hc]
    cases tail with
    | nil => rfl
    | cons c tail => exact dropWhile_cons_of_neg (by simpa using htail c rfl)
  rw [← hrun hhex hext, h, hrun hhex' hext']

/-- Only lines of the standard are accepted, and an answer stands, exactly when the buffer starts with no text of
those kinds. -/
theorem parseChunkHeader_strict_iff (buf : Bytes) :
    ((∀ size consumed, parseChunkHeader buf = .ok size consumed →
        consumed ≤ MAX_CHUNK_LINE ∧ ChunkLine (buf.take consumed) size) ∧
      (parseChunkHeader buf ≠ .need → ∀ more, parseChunkHeader (buf ++ more) = parseChunkHeader buf)) ↔ ¬ Slack buf := by
  rw [and_iff_left fun h more => parseChunkHeader_append h more]
  constructor
  · rintro hstrict ⟨digits, ext, rest, rfl, hne, hhex, hfits, hext, hcr, hslack⟩
    have hlen : (digits ++ ext ++ crlf).length = digits.length + ext.length + 2 := by
      rw [length_append, length_append]
      rfl
    have hok : parseChunkHeader (digits ++ ext ++ crlf ++ rest) = .ok (hexNumber digits) (digits ++ ext ++ crlf).length := by
      rw [parseChunkHeader_ok_iff, take_left]
      exact ⟨(prefix_append _ _).length_le, digits, ext, rfl, by omega, hne, hhex, rfl, hfits, hext, hcr⟩
    obtain ⟨hle, digits', ext', hline, -, -, hhex', -, hextension⟩ := hstrict _ _ hok
    rw [take_left, List.append_left_inj] at hline
    obtain rfl := digits_unique hline hhex hhex' hext (extension_head hextension)
    rcases hslack with hlong | ⟨-, hjunk⟩
    · omega
    · exact hjunk hextension
  · intro hstrict size consumed hok
    obtain ⟨digits, ext, hline, hlen, hne, hhex, hsize, hfits, hext, hcr⟩ := sizeLine_of_ok hok
    have hbuf : buf = digits ++ ext ++ crlf ++ buf.drop consumed := by rw [← hline, take_append_drop]
    have hconsumed : consumed = digits.length + ext.length + 2 := by
      have hlength := congrArg List.length hline
      rw [length_take, Nat.min_eq_left (parseChunkHeader_ok_le hok).2, length_append, length_append] at hlength
      exact hlength
    have hnot : ¬ (digits.length + ext.length + 1 = MAX_CHUNK_LINE ∨
        digits.length + ext.length + 1 < MAX_CHUNK_LINE ∧ ¬ Extension ext) := fun hslack =>
      hstrict ⟨digits, ext, _, hbuf, hne, hhex, by rw [hsize]; exact hfits, hext, hcr, hslack⟩
    have hle : consumed ≤ MAX_CHUNK_LINE + 1 := by
      rw [length_take, Nat.min_eq_left (parseChunkHeader_ok_le hok).2] at hlen
      exact hlen
    have hshort : consumed ≤ MAX_CHUNK_LINE := by omega
    refine ⟨hshort, digits, ext, hline, by rw [length_take]; omega, hne, hhex, hsize, ?_⟩
    by_contra hjunk
    exact hnot (.inr ⟨by omega, hjunk⟩)

/-- Junk behind a size, with a line feed in it, is accepted; and so is a line that ends at byte 65. -/
theorem chunk_slack_accepted :
    (¬ ∀ buf size consumed, parseChunkHeader buf = .ok size consumed → ChunkLine (buf.take consumed) size) ∧
      ¬ ∀ buf size consumed, parseChunkHeader buf = .ok size consumed → consumed ≤ MAX_CHUNK_LINE := by
  constructor
  · intro hstrict
    have hok : parseChunkHeader [0x35, 0x78, LF, CR, LF] = .ok 5 5 := by decide
    obtain ⟨digits, ext, hline, -, -, hhex, -, hextension⟩ := hstrict _ 5 5 hok
    have hcut : [0x35] ++ [0x78, LF] ++ crlf = digits ++ ext ++ crlf := hline
    rw [List.append_left_inj] at hcut
    obtain rfl := digits_unique hcut (by decide +kernel) hhex (by decide +kernel) (extension_head hextension)
    rcases hextension with h | ⟨blank, value, h, hblank, -, -⟩
    · cases h
    · cases blank with
      | nil => cases h
      | cons b blank =>
        injection h with hb
        exact absurd (hblank b mem_cons_self) (by rw [← hb]; decide)
  · intro hshort
    have hok : parseChunkHeader (0x31 :: SEMICOLON :: List.replicate 61 0x61 ++ crlf) = .ok 1 65 := by decide +kernel
    exact absurd (hshort _ 1 65 hok) (by decide)

end Wave.Http
