import Wave.Http.Routes

/-! # Directory-list routes (`http/server/h1.rs`, `HANDLER_FS_LIST` dispatch)

The list-or-file decision, the composed name and the traversal check measure the target with its query; the
matcher stops at the `?`. -/

namespace Wave.Http

open Lib Lib.Paths

variable {r : Route}

variable {target : Bytes}

def DOT : UInt8 := 0x2E

/-- What the dispatch hands on: the directory to walk, the file to open, or the
status and text of an error response. -/
inductive FsOutcome where
  | list (dir : Bytes)
  | openFile (name : Bytes)
  | refuse (status body : String)
deriving DecidableEq

/-- The percent-decoding loop over the suffix; a NUL or a backslash stops it. -/
def decodeSuffix : Bytes → Option Bytes
  | b :: h :: l :: rest =>
    if b = 0x25 then
      match unescape h l with
      | some v => if v = 0 ∨ v = 0x5C then none else (decodeSuffix rest).map (v :: ·)
      | none => (decodeSuffix (h :: l :: rest)).map (b :: ·)
    else if b = 0 ∨ b = 0x5C then none
    else (decodeSuffix (h :: l :: rest)).map (b :: ·)
  | b :: rest => if b = 0 ∨ b = 0x5C then none else (decodeSuffix rest).map (b :: ·)
  | [] => some []

/-- The scan for a `..` between separators. `start` holds at the first byte of the suffix or behind a `/`. -/
def traversalScan : (start : Bool) → Bytes → Bool
  | start, a :: b :: rest =>
    (a = DOT && b = DOT && start && (rest.isEmpty || rest.head? = some SLASH)) ||
      traversalScan (a = SLASH) (b :: rest)
  | _, _ => false

/-- `is_file_request`: measured on the whole target. -/
def isFileRequest (r : Route) (target : Bytes) : Bool :=
  decide (target.length > r.path.length + 1)

/-- The file branch: `<fs_path><suffix>`, where the suffix is what follows the
route's path in the target. -/
def fsListFile (p : Profile) (r : Route) (target : Bytes) : FsOutcome :=
  let suffix := target.drop r.path.length
  if r.fsPath = [] ∨ r.fsPath.length + suffix.length > p.maxFsPath then
    .refuse "500 Internal Server Error" "FS_LIST file path too long\n"
  else
    match decodeSuffix suffix with
    | none => .refuse "400 Bad Request" "bad path\n"
    | some decoded =>
      if traversalScan true decoded then .refuse "400 Bad Request" "path traversal rejected\n"
      else .openFile (r.fsPath ++ decoded)

def fsListDispatch (p : Profile) (r : Route) (target : Bytes) : FsOutcome :=
  if target.length > p.maxPath then .refuse "414 URI Too Long" "URI Too Long\n"
  else if isFileRequest r target then fsListFile p r target
  else if r.fsPath = [] ∨ r.fsPath.length > p.maxFsPath then
    .refuse "500 Internal Server Error" "FS_LIST route missing path\n"
  else .list r.fsPath

def fsListRefuses (p : Profile) (r : Route) (target : Bytes) : Bool :=
  let suffix := target.drop r.path.length
  decide (target.length > p.maxPath) ||
    if isFileRequest r target then
      decide (r.fsPath.length + suffix.length > p.maxFsPath) ||
        (decodeSuffix suffix).elim true (traversalScan true)
    else decide (r.fsPath.length > p.maxFsPath)

theorem decodeSuffix_eq {s d : Bytes} (h : decodeSuffix s = some d) : d = percentDecode s := by
  induction s using decodeSuffix.induct generalizing d with
  | case1 hi lo rest v hv hbad => simp [decodeSuffix, hv, hbad] at h
  | case2 hi lo rest v hv hok ih =>
    simp only [decodeSuffix, hv, if_true, if_neg hok, map_eq_some_iff] at h
    obtain ⟨t, ht, rfl⟩ := h
    rw [percentDecode, hv, ih ht]
    rfl
  | case3 hi lo rest hnone ih =>
    simp only [decodeSuffix, hnone, if_true, map_eq_some_iff] at h
    obtain ⟨t, ht, rfl⟩ := h
    rw [percentDecode, hnone, ih ht]
    rfl
  | case4 b hi lo rest hb hbad => simp [decodeSuffix, hb, hbad] at h
  | case5 b hi lo rest hb hok ih =>
    simp only [decodeSuffix, if_neg hb, if_neg hok, map_eq_some_iff] at h
    obtain ⟨t, ht, rfl⟩ := h
    rw [percentDecode_cons (.inl hb), ih ht]
  | case6 b rest hshort hbad =>
    rw [decodeSuffix.eq_2 b rest hshort, if_pos hbad] at h
    cases h
  | case7 b rest hshort hok ih =>
    rw [decodeSuffix.eq_2 b rest hshort, if_neg hok, map_eq_some_iff] at h
    obtain ⟨t, ht, rfl⟩ := h
    rw [percentDecode_cons (.inr fun x y t heq => (hshort x y t heq).elim), ih ht]
  | case8 =>
    obtain rfl := Option.some.inj h
    rfl

theorem traversalScan_of_segment {start : Bool} {a b : Bytes}
    (ha : (a = [] ∧ start = true) ∨ ∃ c, a = c ++ [SLASH]) (hb : Boundary SLASH b) :
    traversalScan start (a ++ ([DOT, DOT] ++ b)) = true := by
  induction a generalizing start with
  | nil =>
    rcases ha with ⟨-, rfl⟩ | ⟨c, hc⟩
    · rcases hb with rfl | ⟨c, rfl⟩ <;> simp [traversalScan]
    · simp at hc
  | cons x xs ih =>
    have htail : traversalScan (x = SLASH) (xs ++ ([DOT, DOT] ++ b)) = true := by
      apply ih
      rcases ha with ⟨h, -⟩ | ⟨c, hc⟩
      · cases h
      · cases c with
        | nil =>
          simp only [nil_append, List.cons.injEq] at hc
          exact .inl ⟨hc.2, by simp [hc.1]⟩
        | cons y ys =>
          simp only [cons_append, List.cons.injEq] at hc
          exact .inr ⟨ys, hc.2⟩
    cases hrest : xs ++ ([DOT, DOT] ++ b) with
    | nil => simp at hrest
    | cons y ys =>
      rw [hrest] at htail
      rw [cons_append, hrest, traversalScan, htail, Bool.or_true]

theorem no_dotdot_of_scan {d : Bytes} (h : traversalScan true d = false) :
    [DOT, DOT] ∉ d.splitOn SLASH := by
  intro hmem
  obtain ⟨a, b, rfl, ha, hb⟩ := mem_splitOn hmem
  have hscan := traversalScan_of_segment (ha.imp_left (⟨·, rfl⟩)) hb
  rw [h] at hscan
  cases hscan

theorem fsListDispatch_refused {p : Profile} (h : fsListRefuses p r target = true) :
    ∃ status body, fsListDispatch p r target = .refuse status body := by
  unfold fsListRefuses at h
  unfold fsListDispatch fsListFile
  by_cases hlong : target.length > p.maxPath
  · exact ⟨_, _, if_pos hlong⟩
  rw [if_neg hlong]
  rw [decide_eq_false hlong, Bool.false_or] at h
  by_cases hfile : isFileRequest r target = true
  · rw [if_pos hfile] at h ⊢
    by_cases hname : r.fsPath = [] ∨
        r.fsPath.length + (target.drop r.path.length).length > p.maxFsPath
    · exact ⟨_, _, if_pos hname⟩
    dsimp only
    rw [if_neg hname]
    rw [decide_eq_false (not_or.mp hname).2, Bool.false_or] at h
    cases hd : decodeSuffix (target.drop r.path.length) with
    | none => exact ⟨_, _, rfl⟩
    | some decoded =>
      rw [hd] at h
      exact ⟨_, _, if_pos h⟩
  · rw [if_neg hfile] at h ⊢
    exact ⟨_, _, if_pos (.inr (of_decide_eq_true h))⟩

theorem fsListDispatch_served {p : Profile} (hfs : r.fsPath ≠ []) (h : fsListRefuses p r target = false) :
    if isFileRequest r target then
      fsListDispatch p r target =
        .openFile (r.fsPath ++ percentDecode (target.drop r.path.length)) ∧
      [DOT, DOT] ∉ (percentDecode (target.drop r.path.length)).splitOn SLASH
    else fsListDispatch p r target = .list r.fsPath := by
  unfold fsListRefuses at h
  unfold fsListDispatch fsListFile
  rw [or_eq_false_iff] at h
  obtain ⟨hlong, h⟩ := h
  rw [if_neg (of_decide_eq_false hlong)]
  by_cases hfile : isFileRequest r target = true
  · rw [if_pos hfile] at h
    rw [if_pos hfile, if_pos hfile]
    rw [or_eq_false_iff] at h
    obtain ⟨hname, h⟩ := h
    rw [if_neg (not_or.mpr ⟨hfs, of_decide_eq_false hname⟩)]
    cases hd : decodeSuffix (target.drop r.path.length) with
    | none => rw [hd] at h; cases h
    | some decoded =>
      rw [hd] at h
      have hscan : traversalScan true decoded = false := h
      rw [← decodeSuffix_eq hd]
      refine ⟨?_, no_dotdot_of_scan hscan⟩
      simp only [hscan, false_eq_true, if_false]
  · rw [if_neg hfile] at h
    rw [if_neg hfile, if_neg hfile]
    exact if_neg (not_or.mpr ⟨hfs, of_decide_eq_false h⟩)

/-- What follows the route's path and a separator, its own last byte when the route ends in `/`. -/
def Route.rest (r : Route) (path : Bytes) : Bytes :=
  path.drop (if r.isPrefix then r.path.length else r.path.length + 1)

/-- The route's path lists its directory; every other target is turned away or opens the file its decoded rest names.
-/
def FsServed (r : Route) (target : Bytes) : FsOutcome → Prop
  | .list dir => targetPath target = r.path ∧ dir = r.fsPath
  | .openFile name =>
    targetPath target ≠ r.path ∧
      name = r.fsPath ++ SLASH :: percentDecode (r.rest (targetPath target)) ∧
      [DOT, DOT] ∉ (percentDecode (r.rest (targetPath target))).splitOn SLASH
  | .refuse _ _ => targetPath target ≠ r.path

theorem percentDecode_query (a target : Bytes) :
    percentDecode (a ++ targetQuery target) = percentDecode a ++ percentDecode (targetQuery target) := by
  rcases targetQuery_cases target with h | ⟨c, h⟩
  · rw [h]; simp [percentDecode]
  · rw [h, percentDecode_append_stop rfl (by decide), percentDecode_cons (.inl (by decide))]

theorem percentDecode_query_eq_nil (h : percentDecode (targetQuery target) = []) :
    targetQuery target = [] := by
  rcases targetQuery_cases target with hq | ⟨c, hq⟩
  · exact hq
  · rw [hq, percentDecode_cons (.inl (by decide))] at h
    cases h

theorem shifted_query_ne (x target : Bytes) :
    x ++ percentDecode (targetQuery target) ≠ SLASH :: x := by
  intro h
  rcases targetQuery_cases target with hq | ⟨c, hq⟩
  · have hlen := congrArg List.length h
    rw [hq] at hlen
    simp [percentDecode] at hlen
  · have hcount := congrArg (List.count QUESTION) h
    rw [hq, percentDecode_cons (.inl (by decide)), count_append,
      List.count_cons_self, List.count_cons_of_ne (by decide)] at hcount
    omega

theorem drop_target (h : r.path.length ≤ (targetPath target).length) :
    target.drop r.path.length =
      (targetPath target).drop r.path.length ++ targetQuery target := by
  conv_lhs => rw [← targetPath_append_query target]
  exact drop_append_of_le_length h

/-- A file request past the checks opens the right file exactly when the route is no prefix route and no query
follows. -/
theorem file_served_iff (hmatch : r.Matches (targetPath target)) (hfile : isFileRequest r target = true)
    (hdots : [DOT, DOT] ∉ (percentDecode (target.drop r.path.length)).splitOn SLASH) :
    FsServed r target (.openFile (r.fsPath ++ percentDecode (target.drop r.path.length))) ↔
      r.isPrefix = false ∧ targetQuery target = [] := by
  have hlong : target.length > r.path.length + 1 := of_decide_eq_true hfile
  have htarget := congrArg List.length (targetPath_append_query target)
  rw [length_append] at htarget
  obtain ⟨-, hexact | ⟨n, hprefix⟩ | ⟨n, hmatched⟩⟩ := hmatch
  · -- the exact path: the code opens a file although it should list
    constructor
    · intro h
      exact absurd hexact.symm h.1
    · rintro ⟨-, hq⟩
      rw [hq, ← hexact] at htarget
      simp only [length_nil] at htarget
      omega
  · simp only [Route.prefixMatch, and_eq_true, decide_eq_true_eq] at hprefix
    obtain ⟨⟨⟨hpre, hlt⟩, -⟩, -⟩ := hprefix
    rw [drop_target (Nat.le_of_lt hlt), percentDecode_query]
    constructor
    · -- the slash of the route is not part of the composed name
      rintro ⟨-, hname, -⟩
      rw [Route.rest, if_pos hpre] at hname
      exact absurd (append_cancel_left hname) (shifted_query_ne _ _)
    · rintro ⟨hno, -⟩
      rw [hpre] at hno
      cases hno
  · simp only [Route.fileMatch, and_eq_true, decide_eq_true_eq, Bool.not_eq_true'] at hmatched
    obtain ⟨⟨⟨⟨⟨hpre, -⟩, hlt⟩, -⟩, hslash⟩, -⟩ := hmatched
    have hdrop : (targetPath target).drop r.path.length =
        SLASH :: (targetPath target).drop (r.path.length + 1) := by
      have hin : r.path.length < (targetPath target).length := by omega
      rw [drop_eq_getElem_cons hin]
      congr 1
      rwa [Bytes.at0, List.getD_eq_getElem?_getD, List.getElem?_eq_getElem hin] at hslash
    rw [drop_target (by omega), hdrop, cons_append, percentDecode_cons (.inl (by decide)),
      percentDecode_query] at hdots ⊢
    constructor
    · rintro ⟨-, hname, -⟩
      rw [Route.rest, if_neg (by rw [hpre]; exact false_ne_true)] at hname
      have hcancel := (List.cons.inj (append_cancel_left hname)).2
      exact ⟨hpre, percentDecode_query_eq_nil (List.append_right_eq_self.mp hcancel)⟩
    · rintro ⟨-, hq⟩
      have hrest : r.rest (targetPath target) = (targetPath target).drop (r.path.length + 1) := by
        rw [Route.rest, if_neg (by rw [hpre]; exact false_ne_true)]
      rw [hq] at hdots ⊢
      simp only [percentDecode, append_nil] at hdots ⊢
      refine ⟨?_, by rw [hrest], ?_⟩
      · intro heq
        rw [heq] at hlt
        omega
      · rw [hrest]
        intro hmem
        apply hdots
        rw [splitOn_sep_cons]
        exact mem_cons_of_mem _ hmem

/-- A matched target is listed or opened as it should be exactly when a check turns it away that is not the route's
path, or it is the bare route path, or the route does not end in `/` and the target has no query. -/
theorem fs_list_serves_iff {p : Profile} {routes : List Route} {target : Bytes} {i : Nat}
    {r : Route} (hi : matchRoutePath routes target = some i) (hr : routes[i]? = some r)
    (hfs : r.fsPath ≠ []) :
    FsServed r target (fsListDispatch p r target) ↔
      if fsListRefuses p r target then targetPath target ≠ r.path
      else (targetPath target = r.path ∧ target.length ≤ r.path.length + 1) ∨
        (r.isPrefix = false ∧ targetQuery target = []) := by
  obtain ⟨r', hr', hmatch⟩ := matchRoutePath_sound hi
  obtain rfl : r' = r := Option.some.inj (hr'.symm.trans hr)
  cases href : fsListRefuses p r' target with
  | true =>
    obtain ⟨status, body, hout⟩ := fsListDispatch_refused href
    rw [hout]
    rfl
  | false =>
    rw [if_neg false_ne_true]
    have hserved := fsListDispatch_served hfs href
    by_cases hfile : isFileRequest r' target = true
    · rw [if_pos hfile] at hserved
      rw [hserved.1, file_served_iff hmatch hfile hserved.2]
      have hlong : target.length > r'.path.length + 1 := of_decide_eq_true hfile
      exact ⟨.inr, fun h => h.resolve_left fun hlist => absurd hlist.2 (Nat.not_le.mpr hlong)⟩
    · rw [if_neg hfile] at hserved
      rw [hserved]
      have hshort : target.length ≤ r'.path.length + 1 := by
        simpa [isFileRequest] using hfile
      constructor
      · rintro ⟨hpath, -⟩
        exact .inl ⟨hpath, hshort⟩
      · rintro (⟨hpath, -⟩ | ⟨hpre, hq⟩)
        · exact ⟨hpath, rfl⟩
        · refine ⟨?_, rfl⟩
          have htarget := targetPath_append_query target
          rw [hq, append_nil] at htarget
          obtain ⟨-, hexact | ⟨n, hprefix⟩ | ⟨n, hmatched⟩⟩ := hmatch
          · exact hexact.symm
          · simp [Route.prefixMatch, hpre] at hprefix
          · simp only [Route.fileMatch, and_eq_true, decide_eq_true_eq] at hmatched
            rw [htarget] at hmatched
            omega

def galleryRoute : Route := { path := ascii "/list", handler := .fsList, fsPath := ascii "/data" }

theorem fs_list_serves_iff_escaped :
    matchRoutePath [galleryRoute] (ascii "/list/a%20b") = some 0 ∧
      FsServed galleryRoute (ascii "/list/a%20b") (fsListDispatch smallProfile galleryRoute (ascii "/list/a%20b")) ∧
      ¬ FsServed galleryRoute (ascii "/list?a=%5C") (fsListDispatch smallProfile galleryRoute (ascii "/list?a=%5C")) := by
  have hescaped : matchRoutePath [galleryRoute] (ascii "/list/a%20b") = some 0 := by decide
  have hquery : matchRoutePath [galleryRoute] (ascii "/list?a=%5C") = some 0 := by decide
  exact ⟨hescaped, (fs_list_serves_iff hescaped rfl (by decide)).mpr (by decide),
    fun h => absurd ((fs_list_serves_iff hquery rfl (by decide)).mp h) (by decide)⟩

/-- A route that ends in a slash composes the name without one, and opens a
sibling of its directory. -/
theorem trailing_slash_leaves_directory :
    ∃ r target, matchRoutePath [r] target = some 0 ∧ r.handler = .fsList ∧ r.fsPath ≠ [] ∧
      fsListDispatch smallProfile r target = .openFile (ascii "/data-private") ∧
      ¬ FsServed r target (fsListDispatch smallProfile r target) := by
  refine ⟨{ path := ascii "/list/", handler := .fsList, fsPath := ascii "/data" },
    ascii "/list/-private", by decide, rfl, by decide, by decide, ?_⟩
  intro h
  have hname := h.2.1
  revert hname
  decide

end Wave.Http
