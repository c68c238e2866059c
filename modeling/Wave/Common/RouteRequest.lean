import Wave.Common.RouteHost
import Wave.Common.RoutePath
import Mathlib.Data.List.ReduceOption

/-! # Route keys of requests (`common/http_route_key.rs`)

`route_key` classifies the target, has all sources of the authority agree and normalises the path. -/

namespace Wave.Common

open Lib Segments

def QUESTION_BYTE : UInt8 := 0x3F
def HASH_BYTE : UInt8 := 0x23
def ROUTE_KEY_DOMAIN : Bytes := ascii "wave-http-route-key" ++ [0]
def ROUTE_KEY_CANON_BYTES : Nat := ROUTE_KEY_DOMAIN.length + MAX_ROUTE_HOST + 4 + MAX_ROUTE_PATH

structure RouteKey where
  host : Bytes
  port : UInt16
  path : Bytes
  query : Bytes
deriving DecidableEq

inductive TargetForm where
  | origin (path query : Bytes)
  | absolute (authority path query : Bytes)
  | authority (src : Bytes)
  | asterisk
deriving DecidableEq

def splitQuery (s : Bytes) : Bytes × Bytes :=
  (s.takeWhile (· ≠ QUESTION_BYTE), (s.dropWhile (· ≠ QUESTION_BYTE)).drop 1)

def schemeEnd : Bytes → Option Nat
  | [] => none
  | b :: rest =>
    let scheme := rest.takeWhile (· ≠ COLON_BYTE)
    if isAlphaByte b && scheme.all (fun c => isAlphaByte c || isDigitByte c || c = 0x2B || c = 0x2D || c = 0x2E) &&
        (ascii "://").isPrefixOf (rest.drop scheme.length) then some (1 + scheme.length)
    else none

def classifyTarget (target : Bytes) : Except RouteKeyError TargetForm :=
  if target = [] then .error .badTarget
  else if target.contains HASH_BYTE then .error .badTarget
  else if target = ascii "*" then .ok .asterisk
  else if target.head? = some SLASH_BYTE then
    if (target.drop 1).head? = some SLASH_BYTE then .error .badTarget
    else .ok (.origin (splitQuery target).1 (splitQuery target).2)
  else
    match schemeEnd target with
    | some scheme =>
      let rest := target.drop (scheme + 3)
      let authority := rest.takeWhile fun b => b ≠ SLASH_BYTE && b ≠ QUESTION_BYTE
      let tail := splitQuery (rest.drop authority.length)
      .ok (.absolute authority tail.1 tail.2)
    | none => .ok (.authority target)

namespace TargetForm

def admitted (method : Bytes) : TargetForm → Bool
  | asterisk => method = ascii "OPTIONS"
  | authority _ => method = ascii "CONNECT"
  | origin _ _ | absolute _ _ _ => method ≠ ascii "CONNECT"

def named : TargetForm → Option Bytes
  | absolute src _ _ | authority src => some src
  | origin _ _ | asterisk => none

def pathQuery : TargetForm → Except RouteKeyError (Bytes × Bytes)
  | asterisk => .ok (ascii "*", [])
  | authority _ => .ok ([], [])
  | origin path query | absolute _ path query => (normPath path).map fun path => (path, query)

end TargetForm

/-- Whether an authority that `norm_host` takes names its port. -/
def portExplicit (src : Bytes) : Bool :=
  match hostEnd src with
  | .ok e => decide (1 < (src.drop e).length)
  | .error _ => false

/-- The first source fills the key, every other one has to agree with it. -/
def agree (isConnect : Bool) (defaultPort : Nat) (found : Option (Bytes × Nat)) (src : Bytes) :
    Except RouteKeyError (Option (Bytes × Nat)) :=
  match found, normHost src defaultPort with
  | none, .error e => .error e
  | none, .ok r => if isConnect && !portExplicit src then .error .badTarget else .ok (some r)
  | some r, .ok r' => if r' = r then .ok (some r) else .error .ambiguous
  | some _, .error .emptyHost => .error .ambiguous
  | some _, .error e => .error e

def routeKey (method target : Bytes) (hostHeader authorityPseudo : Option Bytes) (defaultPort : UInt16) :
    Except RouteKeyError RouteKey :=
  (classifyTarget target).bind fun form =>
    if !form.admitted method then .error .badTarget
    else
      let sources := [form.named, authorityPseudo, hostHeader].reduceOption
      (sources.foldlM (agree (method = ascii "CONNECT") defaultPort.toNat) none).bind fun found =>
        match found with
        | none => .error .emptyHost
        | some (host, port) => form.pathQuery.map fun (path, query) => ⟨host, UInt16.ofNat port, path, query⟩

/-- The digest input: `domain | host | 0 | port BE | 0 | path`. -/
def routeKeyCanonical (key : RouteKey) (room : Nat) : Option Bytes :=
  if ROUTE_KEY_DOMAIN.length + key.host.length + 4 + key.path.length > room then none
  else some (ROUTE_KEY_DOMAIN ++ key.host ++ 0 :: (Bytes.be16 key.port ++ 0 :: key.path))

namespace RouteKey

def authority (key : RouteKey) : Bytes := key.host ++ COLON_BYTE :: decimal key.port.toNat

/-- The canonical path with the query; with `mark` the question mark stands before an empty query too. -/
def target (key : RouteKey) (mark : Bool) : Bytes :=
  if key.query = [] ∧ mark = false then key.path else key.path ++ QUESTION_BYTE :: key.query

end RouteKey

def Names (src : Bytes) (hostHeader authorityPseudo : Option Bytes) : Prop :=
  (∀ x ∈ hostHeader, x = src) ∧ (∀ x ∈ authorityPseudo, x = src) ∧ (hostHeader ≠ none ∨ authorityPseudo ≠ none)

def targetPath (target : Bytes) : Option Bytes :=
  match classifyTarget target with
  | .ok (.origin path _) | .ok (.absolute _ path _) => some path
  | _ => none

/-- The path of the target leads to an empty segment with another one behind it. -/
def Doubled (target : Bytes) : Prop :=
  ∃ path text s segs, targetPath target = some path ∧ normEscapes path = .ok text ∧ resolved text = [] :: s :: segs

example : routeKey (ascii "GET") (ascii "http://Edge.Local./a/%7eb/../c?q") none none 80 =
    .ok ⟨ascii "edge.local", 80, ascii "/a/c", ascii "q"⟩ := by decide +kernel

/-! ### Targets read and written -/

section Targets

variable {target path query method : Bytes}

theorem splitQuery_bare (h : QUESTION_BYTE ∉ path) : splitQuery path = (path, []) := by
  have hspan : ∀ b ∈ path, decide (b ≠ QUESTION_BYTE) = true := fun b hb => decide_eq_true fun heq => h (heq ▸ hb)
  rw [splitQuery, ← append_nil path, takeWhile_append_of_pos hspan, List.dropWhile_append_of_pos hspan]
  rfl

theorem splitQuery_mark (h : QUESTION_BYTE ∉ path) (query : Bytes) :
    splitQuery (path ++ QUESTION_BYTE :: query) = (path, query) := by
  have hspan : ∀ b ∈ path, decide (b ≠ QUESTION_BYTE) = true := fun b hb => decide_eq_true fun heq => h (heq ▸ hb)
  rw [splitQuery, takeWhile_stop hspan (by simp), List.dropWhile_append_of_pos hspan, dropWhile_cons_of_neg (by simp)]
  rfl

theorem splitQuery_parts (s : Bytes) : (∀ b ∈ (splitQuery s).2, b ∈ s) ∧
    ((splitQuery s).1 = [] ∨ (splitQuery s).1.head? = s.head?) := by
  refine ⟨fun b hb => (List.dropWhile_suffix _).subset (List.drop_subset _ _ hb), ?_⟩
  cases s with
  | nil => exact Or.inl rfl
  | cons b s =>
    rw [splitQuery]
    dsimp only
    rw [List.takeWhile_cons]
    split
    · exact Or.inr rfl
    · exact Or.inl rfl

theorem schemeEnd_none (h : SLASH_BYTE ∉ target) : schemeEnd target = none := by
  cases target with
  | nil => rfl
  | cons b rest =>
    rw [schemeEnd]
    refine if_neg ?_
    rw [and_eq_true, not_and]
    intro _ hprefix
    have hslash : SLASH_BYTE ∈ ascii "://" := by decide
    exact h (mem_cons_of_mem _ (List.drop_subset _ _ ((List.isPrefixOf_iff_prefix.mp hprefix).subset hslash)))

theorem classify_authority {src : Bytes} (hne : src ≠ []) (hstar : src ≠ ascii "*") (hhash : HASH_BYTE ∉ src)
    (hslash : SLASH_BYTE ∉ src) : classifyTarget src = .ok (.authority src) := by
  have hcontains : src.contains HASH_BYTE = false := by
    rw [eq_false_iff, ne_eq, contains_iff_mem]
    exact hhash
  have hhead : src.head? ≠ some SLASH_BYTE := fun h => hslash (List.mem_of_head? h)
  rw [classifyTarget, if_neg hne, hcontains, if_neg nofun, if_neg hstar, if_neg hhead, schemeEnd_none hslash]

theorem classify_path (h : classifyTarget target = .ok (.origin path query) ∨
      ∃ src, classifyTarget target = .ok (.absolute src path query)) :
    (path = [] ∨ path.head? = some SLASH_BYTE) ∧ HASH_BYTE ∉ query := by
  unfold classifyTarget at h
  by_cases hempty : target = []
  · rw [if_pos hempty] at h
    obtain h | ⟨_, h⟩ := h <;> cases h
  rw [if_neg hempty] at h
  by_cases hhash : target.contains HASH_BYTE = true
  · rw [if_pos hhash] at h
    obtain h | ⟨_, h⟩ := h <;> cases h
  rw [if_neg hhash] at h
  rw [contains_iff_mem] at hhash
  by_cases hstar : target = ascii "*"
  · rw [if_pos hstar] at h
    obtain h | ⟨_, h⟩ := h <;> cases h
  rw [if_neg hstar] at h
  by_cases hslash : target.head? = some SLASH_BYTE
  · rw [if_pos hslash] at h
    obtain ⟨hquery, hpath⟩ := splitQuery_parts target
    by_cases hdouble : (target.drop 1).head? = some SLASH_BYTE
    · rw [if_pos hdouble] at h
      obtain h | ⟨_, h⟩ := h <;> cases h
    · rw [if_neg hdouble] at h
      obtain h | ⟨_, h⟩ := h
      · cases h
        exact ⟨hpath.imp_right fun heq => heq.trans hslash, fun hin => hhash (hquery _ hin)⟩
      · cases h
  · rw [if_neg hslash] at h
    cases hscheme : schemeEnd target with
    | none =>
      rw [hscheme] at h
      obtain h | ⟨_, h⟩ := h <;> cases h
    | some scheme =>
      rw [hscheme] at h
      dsimp only at h
      have hsub : ∀ b ∈ target.drop (scheme + 3), b ∈ target := fun b hb => List.drop_subset _ _ hb
      generalize target.drop (scheme + 3) = rest at h hsub
      obtain h | ⟨_, h⟩ := h
      · cases h
      · cases h
        obtain ⟨hquery, hpath⟩ := splitQuery_parts
          (rest.drop (rest.takeWhile fun b => b ≠ SLASH_BYTE && b ≠ QUESTION_BYTE).length)
        refine ⟨?_, fun hin => hhash (hsub _ (List.drop_subset _ _ (hquery _ hin)))⟩
        obtain hnil | hhead := hpath
        · exact Or.inl hnil
        generalize hmore : rest.drop (rest.takeWhile fun b => b ≠ SLASH_BYTE && b ≠ QUESTION_BYTE).length = more at hhead ⊢
        cases more with
        | nil => exact Or.inl rfl
        | cons b more =>
          have hb := head_drop_takeWhile (x := b) (by rw [hmore]; rfl)
          rw [Bool.and_eq_false_iff, decide_eq_false_iff_not, decide_eq_false_iff_not, not_not, not_not] at hb
          obtain rfl | rfl := hb
          · exact Or.inr hhead
          · exact Or.inl rfl

end Targets

section Sources

variable {isConnect : Bool} {defaultPort : Nat} {found : Option (Bytes × Nat)} {src : Bytes} {r : Bytes × Nat}

def Sound (defaultPort : Nat) (r : Bytes × Nat) : Prop :=
  CanonHost r.1 ∧ r.1.length ≤ MAX_ROUTE_HOST ∧ (r.2 = defaultPort ∨ 0 < r.2 ∧ r.2 ≤ 65535)

theorem agree_sound (hfound : ∀ r ∈ found, Sound defaultPort r) (h : agree isConnect defaultPort found src = .ok (some r)) :
    Sound defaultPort r := by
  unfold agree at h
  split at h
  · cases h
  next r' hnorm =>
    split at h
    · cases h
    · cases h
      exact normHost_ok hnorm
  next r₁ r' hnorm =>
    split at h
    · cases h
      exact hfound _ rfl
    · cases h
  · cases h
  · cases h

theorem agree_some {found' : Option (Bytes × Nat)} (h : agree isConnect defaultPort found src = .ok found') :
    ∃ r, found' = some r := by
  unfold agree at h
  split at h
  · cases h
  · split at h
    · cases h
    · cases h
      exact ⟨_, rfl⟩
  · split at h
    · cases h
      exact ⟨_, rfl⟩
    · cases h
  · cases h
  · cases h

theorem foldlM_agree_sound {sources : List Bytes} (found : Option (Bytes × Nat)) (hfound : ∀ r ∈ found, Sound defaultPort r)
    (h : sources.foldlM (agree isConnect defaultPort) found = .ok (some r)) : Sound defaultPort r := by
  induction sources generalizing found with
  | nil =>
    cases h
    exact hfound r rfl
  | cons src sources ih =>
    rw [foldlM_cons] at h
    cases hagree : agree isConnect defaultPort found src with
    | error e =>
      rw [hagree] at h
      cases h
    | ok found' =>
      rw [hagree] at h
      obtain ⟨r', rfl⟩ := agree_some hagree
      refine ih (some r') (fun r'' hr'' => ?_) h
      obtain rfl := Option.some.inj hr''
      exact agree_sound hfound hagree

theorem foldlM_agree_same {sources : List Bytes} (hnorm : normHost src defaultPort = .ok r) (hport : portExplicit src = true)
    (hall : ∀ x ∈ sources, x = src) (hfound : found = some r ∨ found = none ∧ sources ≠ []) :
    sources.foldlM (agree isConnect defaultPort) found = .ok (some r) := by
  induction sources generalizing found with
  | nil =>
    obtain rfl | ⟨-, hne⟩ := hfound
    · rfl
    · exact absurd rfl hne
  | cons x sources ih =>
    obtain ⟨rfl, hrest⟩ := forall_mem_cons.mp hall
    have hstep : agree isConnect defaultPort found x = .ok (some r) := by
      unfold agree
      obtain rfl | ⟨rfl, -⟩ := hfound
      · rw [hnorm]
        exact if_pos rfl
      · rw [hnorm, hport]
        dsimp only
        rw [Bool.not_true, Bool.and_false]
        rfl
    rw [foldlM_cons, hstep]
    exact ih hrest (Or.inl rfl)

end Sources

/-! ### Keys derived again -/

section Again

variable {method target : Bytes} {hostHeader authorityPseudo hostHeader' authorityPseudo' : Option Bytes} {defaultPort : UInt16}
  {key : RouteKey} {mark : Bool} {form : TargetForm}

theorem routeKey_ok (h : routeKey method target hostHeader authorityPseudo defaultPort = .ok key) :
    ∃ form, classifyTarget target = .ok form ∧ form.admitted method = true ∧
      form.pathQuery = .ok (key.path, key.query) ∧ CanonHost key.host ∧ key.host.length ≤ MAX_ROUTE_HOST ∧
      (defaultPort ≠ 0 → key.port ≠ 0) := by
  unfold routeKey at h
  cases hform : classifyTarget target with
  | error e =>
    rw [hform] at h
    cases h
  | ok form =>
    rw [hform] at h
    dsimp only [Except.bind] at h
    cases hadmitted : form.admitted method with
    | false =>
      rw [hadmitted] at h
      cases h
    | true =>
      rw [hadmitted, if_neg nofun] at h
      cases hfound : [form.named, authorityPseudo, hostHeader].reduceOption.foldlM
          (agree (decide (method = ascii "CONNECT")) defaultPort.toNat) none with
      | error e =>
        rw [hfound] at h
        cases h
      | ok found =>
        rw [hfound] at h
        cases found with
        | none => cases h
        | some r =>
          obtain ⟨host, port⟩ := r
          obtain ⟨hcanon, hlength, hport⟩ := foldlM_agree_sound none nofun hfound
          dsimp only at h hcanon hlength hport
          obtain ⟨⟨path, query⟩, hpath, rfl⟩ := ok_of_map h
          refine ⟨form, rfl, hadmitted, hpath, hcanon, hlength, fun hdefault hzero => ?_⟩
          have hdefault' : defaultPort.toNat ≠ 0 := fun heq => hdefault (UInt16.toNat_inj.mp heq)
          have hlt := defaultPort.toNat_lt
          have hvalue : (UInt16.ofNat port).toNat = port := by
            rw [UInt16.toNat_ofNat']
            omega
          rw [show UInt16.ofNat port = 0 from hzero] at hvalue
          change 0 = port at hvalue
          omega

theorem portExplicit_authority (h : CanonHost key.host) : portExplicit key.authority = true := by
  rw [portExplicit, RouteKey.authority, hostEnd_canon h (portSuffix_decimal _)]
  dsimp only
  rw [drop_left, length_cons]
  exact decide_eq_true (Nat.succ_lt_succ (length_pos_of_ne_nil (decimal_ne_nil _)))

/-- A request whose sources all spell a canonical authority has the host and the port of it. -/
theorem routeKey_authority (hform : classifyTarget target = .ok form) (hadmitted : form.admitted method = true)
    (hcanon : CanonHost key.host) (hlength : key.host.length ≤ MAX_ROUTE_HOST) (hport : key.port ≠ 0)
    (hall : ∀ x ∈ [form.named, authorityPseudo, hostHeader].reduceOption, x = key.authority)
    (hsome : [form.named, authorityPseudo, hostHeader].reduceOption ≠ []) :
    routeKey method target hostHeader authorityPseudo defaultPort =
      form.pathQuery.map fun (path, query) => ⟨key.host, key.port, path, query⟩ := by
  have hpos : 0 < key.port.toNat := Nat.pos_of_ne_zero fun heq => hport (UInt16.toNat_inj.mp heq)
  have hmax : key.port.toNat ≤ 65535 := Nat.le_of_lt_succ key.port.toNat_lt
  have hnorm : normHost key.authority defaultPort.toNat = .ok (key.host, key.port.toNat) :=
    normHost_port hcanon hlength hpos hmax _
  rw [routeKey, hform]
  dsimp only [Except.bind]
  rw [hadmitted, if_neg nofun, foldlM_agree_same hnorm (portExplicit_authority hcanon) hall (Or.inr ⟨rfl, hsome⟩)]
  dsimp only
  rw [UInt16.ofNat_toNat]

theorem names_sources (form : TargetForm) (h : Names key.authority hostHeader authorityPseudo) (hnamed : ∀ x ∈ form.named, x = key.authority) :
    (∀ x ∈ [form.named, authorityPseudo, hostHeader].reduceOption, x = key.authority) ∧
      [form.named, authorityPseudo, hostHeader].reduceOption ≠ [] := by
  obtain ⟨hheader, hpseudo, hsome⟩ := h
  refine ⟨fun x hx => ?_, fun hnil => ?_⟩
  · rw [List.reduceOption_mem_iff] at hx
    simp only [mem_cons, not_mem_nil, or_false] at hx
    obtain hx | hx | hx := hx
    · exact hnamed x hx.symm
    · exact hpseudo x hx.symm
    · exact hheader x hx.symm
  · cases hostHeader <;> cases authorityPseudo <;> cases hform : form.named <;>
      simp [hform, List.reduceOption] at hnil hsome

theorem mem_authority (h : CanonHost key.host) {b : UInt8} (hb : b ∈ key.authority) : b ≠ SLASH_BYTE ∧ b ≠ HASH_BYTE := by
  rcases mem_append.mp hb with hb | hb
  · obtain ⟨-, hslash, hhash, -⟩ := h.plain hb
    exact ⟨hslash, hhash⟩
  · exact ((portSuffix_decimal _).plain hb).2

theorem connect_again (hcanon : CanonHost key.host) (hlength : key.host.length ≤ MAX_ROUTE_HOST) (hport : key.port ≠ 0)
    (hnames : Names key.authority hostHeader authorityPseudo) :
    routeKey (ascii "CONNECT") key.authority hostHeader authorityPseudo defaultPort =
      .ok ⟨key.host, key.port, [], []⟩ := by
  have hne : key.authority ≠ [] := append_ne_nil_of_right_ne_nil _ (cons_ne_nil _ _)
  have hstar : key.authority ≠ ascii "*" := by
    intro heq
    have hcolon : COLON_BYTE ∈ key.authority := mem_append_right _ mem_cons_self
    rw [heq] at hcolon
    exact absurd hcolon (by decide)
  have hform := classify_authority hne hstar (fun hin => (mem_authority hcanon hin).2 rfl) fun hin => (mem_authority hcanon hin).1 rfl
  have hsources := names_sources (.authority key.authority) hnames (fun x hx => (Option.some.inj hx).symm)
  rw [routeKey_authority hform rfl hcanon hlength hport hsources.1 hsources.2]
  rfl

theorem Normal.plain_bytes {path : Bytes} (h : Normal path) : QUESTION_BYTE ∉ path ∧ HASH_BYTE ∉ path := by
  have hplain : ∀ b : UInt8, pcharOk b = true → b ≠ QUESTION_BYTE ∧ b ≠ HASH_BYTE := of_every_byte (by decide +kernel)
  have hhex : ∀ b : UInt8, Paths.hexVal b ≠ none → b ≠ QUESTION_BYTE ∧ b ≠ HASH_BYTE := of_every_byte (by decide +kernel)
  have hall := h.all hplain (by decide) hhex
  exact ⟨fun hin => (hall _ hin).1 rfl, fun hin => (hall _ hin).2 rfl⟩

theorem classify_target (hhead : key.path.head? = some SLASH_BYTE) (hnormal : Normal key.path) (hquery : HASH_BYTE ∉ key.query)
    (mark : Bool) : classifyTarget (key.target mark) =
      if (key.path.drop 1).head? = some SLASH_BYTE then .error .badTarget else .ok (.origin key.path key.query) := by
  obtain ⟨hquestion, hhash⟩ := hnormal.plain_bytes
  obtain ⟨rest, hpath⟩ := List.head?_eq_some_iff.mp hhead
  have hcut : ∃ tail, key.target mark = key.path ++ tail ∧ splitQuery (key.path ++ tail) = (key.path, key.query) ∧
      HASH_BYTE ∉ tail ∧ tail.head? ≠ some SLASH_BYTE := by
    unfold RouteKey.target
    split
    next hbare =>
      refine ⟨[], (append_nil _).symm, ?_, not_mem_nil, nofun⟩
      rw [append_nil, splitQuery_bare hquestion, hbare.1]
    · refine ⟨QUESTION_BYTE :: key.query, rfl, splitQuery_mark hquestion _, fun hin => ?_, ?_⟩
      · rcases mem_cons.mp hin with heq | hin
        · exact absurd heq (by decide)
        · exact hquery hin
      · intro heq
        exact absurd (Option.some.inj heq) (by decide)
  obtain ⟨tail, htarget, hsplit, htail, htailhead⟩ := hcut
  have hne : key.path ++ tail ≠ [] := by
    rw [hpath]
    exact cons_ne_nil _ _
  have hcontains : (key.path ++ tail).contains HASH_BYTE = false := by
    rw [eq_false_iff, ne_eq, contains_iff_mem, mem_append, not_or]
    exact ⟨hhash, htail⟩
  have hstar : key.path ++ tail ≠ ascii "*" := by
    rw [hpath]
    exact fun heq => absurd (List.cons.inj heq).1 (by decide)
  have hslash : (key.path ++ tail).head? = some SLASH_BYTE := by
    rw [hpath]
    rfl
  have hsecond : ((key.path ++ tail).drop 1).head? = some SLASH_BYTE ↔ (key.path.drop 1).head? = some SLASH_BYTE := by
    rw [hpath]
    cases rest with
    | nil => exact ⟨fun h => absurd h htailhead, nofun⟩
    | cons b rest => exact Iff.rfl
  rw [htarget, classifyTarget, if_neg hne, hcontains, if_neg nofun, if_neg hstar, if_pos hslash, hsplit]
  exact if_congr hsecond rfl rfl

theorem path_again {path query : Bytes} (hform : classifyTarget target = .ok form)
    (hpath : form = .origin path query ∨ ∃ src, form = .absolute src path query) (hconnect : method ≠ ascii "CONNECT")
    (hnorm : form.pathQuery = .ok (key.path, key.query)) (hcanon : CanonHost key.host)
    (hlength : key.host.length ≤ MAX_ROUTE_HOST) (hport : key.port ≠ 0)
    (hnames : Names key.authority hostHeader authorityPseudo) (mark : Bool) :
    routeKey method (key.target mark) hostHeader authorityPseudo defaultPort = .ok key ↔ ¬ Doubled target := by
  have hclass : classifyTarget target = .ok (.origin path query) ∨ ∃ src, classifyTarget target = .ok (.absolute src path query) := by
    obtain rfl | ⟨src, rfl⟩ := hpath
    · exact Or.inl hform
    · exact Or.inr ⟨src, hform⟩
  have htarget : targetPath target = some path := by
    unfold targetPath
    obtain h | ⟨src, h⟩ := hclass <;> rw [h]
  have hmap : (normPath path).map (fun p => (p, query)) = .ok (key.path, key.query) := by
    obtain rfl | ⟨src, rfl⟩ := hpath <;> exact hnorm
  obtain ⟨p, hp, heq⟩ := ok_of_map hmap
  obtain ⟨rfl, rfl⟩ := Prod.mk.inj heq
  obtain ⟨hsrc, hquery⟩ := classify_path hclass
  obtain ⟨hfixed, hhead, hnormal, -⟩ := normPath_fixed hsrc hp
  obtain ⟨text, htext, hrender⟩ := normPath_resolved hsrc hp
  have hdoubled : Doubled target ↔ (key.path.drop 1).head? = some SLASH_BYTE := by
    rw [hrender, double_slash]
    constructor
    · rintro ⟨path', text', s, segs, hpath', htext', hsegs⟩
      rw [htarget] at hpath'
      cases hpath'
      rw [htext] at htext'
      cases htext'
      exact ⟨s, segs, hsegs⟩
    · rintro ⟨s, segs, hsegs⟩
      exact ⟨path, text, s, segs, htarget, htext, hsegs⟩
  have hagain := classify_target hhead hnormal hquery mark
  rw [hdoubled]
  by_cases hdouble : (key.path.drop 1).head? = some SLASH_BYTE
  · rw [if_pos hdouble] at hagain
    refine ⟨fun h => ?_, fun h => absurd hdouble h⟩
    rw [routeKey, hagain] at h
    cases h
  · rw [if_neg hdouble] at hagain
    refine ⟨fun _ => hdouble, fun _ => ?_⟩
    have hsources := names_sources (.origin key.path key.query) hnames nofun
    rw [routeKey_authority hagain (decide_eq_true hconnect) hcanon hlength hport hsources.1 hsources.2, TargetForm.pathQuery,
      hfixed]
    rfl

/-- A key is derived again from its own spelling just if the path does not lead to an empty segment before another. -/
theorem routeKey_again (hdefault : defaultPort ≠ 0)
    (h : routeKey method target hostHeader authorityPseudo defaultPort = .ok key)
    (hnames : Names key.authority hostHeader' authorityPseudo') (hmark : mark = true → key.path ≠ ascii "*") :
    routeKey method (if method = ascii "CONNECT" then key.authority else key.target mark) hostHeader' authorityPseudo'
      defaultPort = .ok key ↔ ¬ Doubled target := by
  obtain ⟨form, hform, hadmitted, hpath, hcanon, hlength, hport⟩ := routeKey_ok h
  have hundoubled : targetPath target = none → ¬ Doubled target := by
    rintro hnone ⟨path, text, s, segs, hsome, -⟩
    rw [hnone] at hsome
    cases hsome
  cases form with
  | origin path query =>
    have hconnect : method ≠ ascii "CONNECT" := of_decide_eq_true hadmitted
    rw [if_neg hconnect]
    exact path_again hform (Or.inl rfl) hconnect hpath hcanon hlength (hport hdefault) hnames mark
  | absolute src path query =>
    have hconnect : method ≠ ascii "CONNECT" := of_decide_eq_true hadmitted
    rw [if_neg hconnect]
    exact path_again hform (Or.inr ⟨src, rfl⟩) hconnect hpath hcanon hlength (hport hdefault) hnames mark
  | authority src =>
    obtain rfl : method = ascii "CONNECT" := of_decide_eq_true hadmitted
    obtain ⟨hnopath, hnoquery⟩ := Prod.mk.inj (Except.ok.inj hpath)
    rw [if_pos rfl, connect_again hcanon hlength (hport hdefault) hnames]
    refine ⟨fun _ => hundoubled (by rw [targetPath, hform]), fun _ => ?_⟩
    obtain ⟨host, port, path, query⟩ := key
    dsimp only at hnopath hnoquery
    rw [← hnopath, ← hnoquery]
  | asterisk =>
    obtain rfl : method = ascii "OPTIONS" := of_decide_eq_true hadmitted
    obtain ⟨hstar, hnoquery⟩ := Prod.mk.inj (Except.ok.inj hpath)
    have hplain : mark = false := by
      cases mark with
      | false => rfl
      | true => exact absurd hstar.symm (hmark rfl)
    have hasterisk : classifyTarget (ascii "*") = .ok .asterisk := rfl
    have htarget : key.target mark = ascii "*" := by
      rw [RouteKey.target, if_pos ⟨hnoquery.symm, hplain⟩, ← hstar]
    have hsources := names_sources .asterisk hnames nofun
    rw [if_neg (by decide), htarget, routeKey_authority hasterisk rfl hcanon hlength (hport hdefault) hsources.1
      hsources.2]
    refine ⟨fun _ => hundoubled (by rw [targetPath, hform]), fun _ => ?_⟩
    obtain ⟨host, port, path, query⟩ := key
    dsimp only at hstar hnoquery
    rw [← hstar, ← hnoquery]
    rfl

/-- A request whose key is not derived again from its own spelling. -/
theorem routeKey_again_dots :
    routeKey (ascii "GET") (ascii "/.//x") (some (ascii "h")) none 80 = .ok ⟨ascii "h", 80, ascii "//x", []⟩ ∧
      routeKey (ascii "GET") (ascii "//x") (some (ascii "h:80")) none 80 ≠ .ok ⟨ascii "h", 80, ascii "//x", []⟩ := by
  decide +kernel

theorem routeKey_again_plain :
    routeKey (ascii "GET") (ascii "/a/c?q") (some (ascii "edge.local:80")) none 80 =
        .ok ⟨ascii "edge.local", 80, ascii "/a/c", ascii "q"⟩ ↔
      ¬ Doubled (ascii "http://Edge.Local./a/%7eb/../c?q") := by
  have hkey : routeKey (ascii "GET") (ascii "http://Edge.Local./a/%7eb/../c?q") none none 80 =
      .ok ⟨ascii "edge.local", 80, ascii "/a/c", ascii "q"⟩ := by decide +kernel
  have hnames : Names (ascii "edge.local:80") (some (ascii "edge.local:80")) none :=
    ⟨fun _ hx => (Option.some.inj hx).symm, nofun, Or.inl nofun⟩
  have hmark : false = true → (⟨ascii "edge.local", 80, ascii "/a/c", ascii "q"⟩ : RouteKey).path ≠ ascii "*" := nofun
  exact routeKey_again (by decide) hkey hnames hmark

end Again

section Digest

variable {k₁ k₂ : RouteKey}

theorem split_zero {a b x y : Bytes} (ha : (0 : UInt8) ∉ a) (hb : (0 : UInt8) ∉ b) (h : a ++ 0 :: x = b ++ 0 :: y) :
    a = b ∧ x = y := by
  have hspan : ∀ l : Bytes, (0 : UInt8) ∉ l → ∀ c ∈ l, decide (c ≠ 0) = true :=
    fun l hl c hc => decide_eq_true fun heq => hl (heq ▸ hc)
  have hab : a = b := by
    have htake := congrArg (List.takeWhile fun c : UInt8 => decide (c ≠ 0)) h
    rwa [takeWhile_stop (hspan a ha) rfl, takeWhile_stop (hspan b hb) rfl] at htake
  subst hab
  exact ⟨rfl, (List.cons.inj (append_cancel_left h)).2⟩

theorem routeKeyCanonical_inj (h₁ : CanonHost k₁.host) (h₂ : CanonHost k₂.host) {room₁ room₂ : Nat} {b₁ b₂ : Bytes}
    (hb₁ : routeKeyCanonical k₁ room₁ = some b₁) (hb₂ : routeKeyCanonical k₂ room₂ = some b₂) :
    b₁ = b₂ ↔ k₁.host = k₂.host ∧ k₁.port = k₂.port ∧ k₁.path = k₂.path := by
  unfold routeKeyCanonical at hb₁ hb₂
  split at hb₁
  · cases hb₁
  split at hb₂
  · cases hb₂
  cases hb₁
  cases hb₂
  constructor
  · intro heq
    rw [append_assoc, append_assoc] at heq
    obtain ⟨hhost, hrest⟩ := split_zero (fun hin => (h₁.plain hin).2.2.2 rfl) (fun hin => (h₂.plain hin).2.2.2 rfl)
      (append_cancel_left heq)
    obtain ⟨hport, hpath⟩ := append_inj hrest rfl
    exact ⟨hhost, Bytes.be16_injective hport, (List.cons.inj hpath).2⟩
  · rintro ⟨hhost, hport, hpath⟩
    rw [hhost, hport, hpath]

theorem routeKeyCanonical_fits {method target : Bytes} {hostHeader authorityPseudo : Option Bytes} {defaultPort : UInt16}
    (h : routeKey method target hostHeader authorityPseudo defaultPort = .ok k₁) :
    routeKeyCanonical k₁ ROUTE_KEY_CANON_BYTES ≠ none := by
  obtain ⟨form, hform, -, hpath, -, hlength, -⟩ := routeKey_ok h
  have hshort : k₁.path.length ≤ MAX_ROUTE_PATH := by
    have hnorm : ∀ path query, (path = [] ∨ path.head? = some SLASH_BYTE) →
        (normPath path).map (fun p => (p, query)) = .ok (k₁.path, k₁.query) → k₁.path.length ≤ MAX_ROUTE_PATH := by
      intro path query hsrc hmap
      obtain ⟨p, hp, heq⟩ := ok_of_map hmap
      rw [← (Prod.mk.inj heq).1]
      exact (normPath_fixed hsrc hp).2.2.2
    cases form with
    | origin path query => exact hnorm path query (classify_path (Or.inl hform)).1 hpath
    | absolute src path query => exact hnorm path query (classify_path (Or.inr ⟨src, hform⟩)).1 hpath
    | authority src =>
      rw [← (Prod.mk.inj (Except.ok.inj hpath)).1]
      exact Nat.zero_le _
    | asterisk =>
      rw [← (Prod.mk.inj (Except.ok.inj hpath)).1]
      decide
  rw [routeKeyCanonical, if_neg]
  · exact nofun
  · unfold ROUTE_KEY_CANON_BYTES
    omega

/-- Two requests have one digest input just if they have one host, port and path; and a canonical authority is its own
canonical form. -/
theorem routeKey_canonical :
    (∀ method₁ target₁ hostHeader₁ authorityPseudo₁ defaultPort₁ method₂ target₂ hostHeader₂ authorityPseudo₂ defaultPort₂
        (k₁ k₂ : RouteKey),
      routeKey method₁ target₁ hostHeader₁ authorityPseudo₁ defaultPort₁ = .ok k₁ →
      routeKey method₂ target₂ hostHeader₂ authorityPseudo₂ defaultPort₂ = .ok k₂ →
      routeKeyCanonical k₁ ROUTE_KEY_CANON_BYTES ≠ none ∧
        ∀ room₁ room₂ b₁ b₂, routeKeyCanonical k₁ room₁ = some b₁ → routeKeyCanonical k₂ room₂ = some b₂ →
          (b₁ = b₂ ↔ k₁.host = k₂.host ∧ k₁.port = k₂.port ∧ k₁.path = k₂.path)) ∧
    (∀ room src defaultPort out, canonicalAuthority room src defaultPort = .ok out →
      canonicalAuthority room out defaultPort = .ok out) := by
  refine ⟨fun m₁ t₁ hh₁ ap₁ dp₁ m₂ t₂ hh₂ ap₂ dp₂ k₁ k₂ h₁ h₂ => ⟨routeKeyCanonical_fits h₁, ?_⟩,
    fun room src defaultPort out => canonicalAuthority_idem⟩
  obtain ⟨-, -, -, -, hcanon₁, -⟩ := routeKey_ok h₁
  obtain ⟨-, -, -, -, hcanon₂, -⟩ := routeKey_ok h₂
  exact fun room₁ room₂ b₁ b₂ => routeKeyCanonical_inj hcanon₁ hcanon₂

theorem routeKey_canonical_edge :
    (routeKeyCanonical ⟨ascii "h", 80, ascii "/a", []⟩ ROUTE_KEY_CANON_BYTES ≠ none ∧
      ∀ room₁ room₂ b₁ b₂, routeKeyCanonical ⟨ascii "h", 80, ascii "/a", []⟩ room₁ = some b₁ →
        routeKeyCanonical ⟨ascii "h", 443, ascii "/a", ascii "q"⟩ room₂ = some b₂ →
        (b₁ = b₂ ↔ ascii "h" = ascii "h" ∧ (80 : UInt16) = 443 ∧ ascii "/a" = ascii "/a")) ∧
      canonicalAuthority 64 (ascii "edge.local:8080") 80 = .ok (ascii "edge.local:8080") := by
  have h₁ : routeKey (ascii "GET") (ascii "/a") (some (ascii "H.")) none 80 = .ok ⟨ascii "h", 80, ascii "/a", []⟩ := by
    decide +kernel
  have h₂ : routeKey (ascii "GET") (ascii "/./a?q") (some (ascii "h")) none 443 =
      .ok ⟨ascii "h", 443, ascii "/a", ascii "q"⟩ := by decide +kernel
  have hauthority : canonicalAuthority 64 (ascii "Edge.Local.:08080") 80 = .ok (ascii "edge.local:8080") := by decide +kernel
  exact ⟨routeKey_canonical.1 _ _ _ _ _ _ _ _ _ _ _ _ h₁ h₂, routeKey_canonical.2 _ _ _ _ hauthority⟩

end Digest

end Wave.Common
