import Wave.Http.H1Wire
import Wave.Common.RouteKey

/-! # The dynamic route table (`http/server/routes.rs`)

Rows programmed at run time: a host, a path prefix and a weighted set of backends. -/

namespace Wave.Http.Routing

open Lib Common

def MAX_DYN_KEY : Nat := 64
def MAX_DYN_HOST : Nat := 64
def MAX_BACKEND_AUTHORITY : Nat := 64
def DYN_ROUTE_DEFAULT_PORT : Nat := 80

/-- What the table needs from outside: its capacities, lengths kept in eight bits, and the transport's
`Target::parse`. -/
structure TableProfile extends Profile where
  maxDynRoutes : Nat
  maxRouteBackends : Nat
  targetParses : Bytes → Bool
  maxDynRoutes_le : maxDynRoutes ≤ 32768
  maxRouteBackends_lt : maxRouteBackends < 256
  maxPath_lt : maxPath < 256

structure Backend where
  authority : BoundedBytes MAX_BACKEND_AUTHORITY := ⟨[], Nat.zero_le _⟩
  weight : UInt8 := 0
  ready : Bool := false

structure DynRoute where
  key : Bytes := []
  host : Bytes := []
  path : Bytes := []
  backends : List Backend := []
  rrCursor : UInt16 := 0
  used : Bool := false

structure DynRoutes where
  live : List DynRoute
  shadow : List DynRoute
  dropped : UInt32 := 0

def DynRoutes.init (p : TableProfile) : DynRoutes where
  live := List.replicate p.maxDynRoutes {}
  shadow := List.replicate p.maxDynRoutes {}

def Backend.share (b : Backend) : Nat := if b.ready && 0 < b.weight then b.weight.toNat else 0

def totalWeight (backends : List Backend) : Nat := (backends.map Backend.share).sum

def backendAt : List Backend → (i : Nat) → (target : Nat) → Option Nat
  | [], _, _ => none
  | b :: rest, i, target =>
    if b.ready && 0 < b.weight then
      if target < b.weight.toNat then some i else backendAt rest (i + 1) (target - b.weight.toNat)
    else backendAt rest (i + 1) target

def DynRoute.selectBackend (r : DynRoute) : Option Nat × DynRoute :=
  let total := totalWeight r.backends
  if total = 0 then (none, r)
  else (backendAt r.backends 0 (r.rrCursor.toNat % total), { r with rrCursor := r.rrCursor + 1 })

def DynRoute.backendAuthority (r : DynRoute) (i : Nat) : Bytes := (r.backends.getD i {}).authority.val

def Backend.Serves (b : Backend) : Prop := b.ready = true ∧ 0 < b.weight

instance (b : Backend) : Decidable b.Serves := inferInstanceAs (Decidable (_ ∧ _))

theorem backendAt_sound {all rest : List Backend} {i target k : Nat} (hrest : all.drop i = rest)
    (h : backendAt rest i target = some k) : ∃ b, all[k]? = some b ∧ b.Serves := by
  induction rest generalizing i target with
  | nil => cases h
  | cons b rest ih =>
    have hnext : all.drop (i + 1) = rest := by rw [← drop_drop, hrest, drop_one, tail_cons]
    rw [backendAt] at h
    by_cases hb : (b.ready && 0 < b.weight) = true
    · rw [if_pos hb] at h
      split_ifs at h with hlt
      · cases h
        refine ⟨b, ?_, by simpa [Backend.Serves] using hb⟩
        rw [← List.head?_drop, hrest, List.head?_cons]
      · exact ih hnext h
    · rw [if_neg hb] at h
      exact ih hnext h

theorem backendAt_isSome {backends : List Backend} {i target : Nat}
    (h : target < totalWeight backends) : (backendAt backends i target).isSome = true := by
  induction backends generalizing i target with
  | nil => exact absurd h (Nat.not_lt_zero _)
  | cons b rest ih =>
    have hsum : totalWeight (b :: rest) = b.share + totalWeight rest := rfl
    rw [backendAt]
    by_cases hb : (b.ready && 0 < b.weight) = true
    · have hshare : b.share = b.weight.toNat := if_pos hb
      rw [if_pos hb]
      split_ifs with hlt
      · rfl
      · exact ih (by omega)
    · have hshare : b.share = 0 := if_neg hb
      rw [if_neg hb]
      exact ih (by omega)

theorem selectBackend_ready {r : DynRoute} {k : Nat} (h : r.selectBackend.1 = some k) :
    ∃ b, r.backends[k]? = some b ∧ b.Serves := by
  unfold DynRoute.selectBackend at h
  simp only at h
  split_ifs at h
  exact backendAt_sound drop_zero h

theorem selectBackend_isSome (r : DynRoute) :
    r.selectBackend.1.isSome = decide (totalWeight r.backends ≠ 0) := by
  unfold DynRoute.selectBackend
  simp only
  split_ifs with htotal
  · simp [htotal]
  · rw [backendAt_isSome (Nat.mod_lt _ (Nat.pos_of_ne_zero htotal)), decide_eq_true htotal]

def dynField (value tag : Bytes) : Option Bytes :=
  ((value.splitOn 0x3B).find? fun seg => tag.isPrefixOf seg).map (·.drop tag.length)

def dynU32 (b : Bytes) : UInt32 :=
  (b.takeWhile isDigitByte).foldl (fun n c => n * 10 + (c - 0x30).toUInt32) 0

/-- One `be=` entry, split from the right: authority, weight and readiness. -/
def parseBackend (p : TableProfile) (seg : Bytes) : Option Backend :=
  match (seg.splitOn 0x3A).reverse with
  | ready :: weight :: front =>
    if front = [] then none
    else
      let authority := [0x3A].intercalate front.reverse
      if h : authority.length ≤ MAX_BACKEND_AUTHORITY then
        if !p.targetParses authority then none
        else some
          { authority := ⟨authority, h⟩
            weight := UInt8.ofNat (min (dynU32 weight).toNat 255)
            ready := dynU32 ready ≠ 0 }
      else none
  | _ => none

def fillBackends (p : TableProfile) : List Bytes → List Backend → List Backend
  | [], backends => backends
  | seg :: rest, backends =>
    match parseBackend p seg with
    | some b =>
      if backends.length < p.maxRouteBackends then fillBackends p rest (backends ++ [b])
      else fillBackends p rest backends
    | none => fillBackends p rest backends

/-- The row of a key and its value, and how many backends were dropped; `none` for a host without a canonical form. -/
def dynFill (p : TableProfile) (key value : Bytes) : Option (DynRoute × Nat) :=
  let host := match dynField value (ascii "host=") with
    | none | some [] => some []
    | some h => (canonicalAuthority MAX_DYN_HOST h DYN_ROUTE_DEFAULT_PORT).toOption
  let segs := (((dynField value (ascii "be=")).getD []).splitOn 0x2C).filter (· ≠ [])
  let backends := fillBackends p segs []
  host.map fun host =>
    ({ key := key.take MAX_DYN_KEY
       host := host
       path := ((dynField value (ascii "path=")).getD []).take p.maxPath
       backends := backends
       used := true }, segs.length - backends.length)

def upsertSlot {α : Type} (used : α → Bool) (keyOf : α → Bytes) (arena : List α) (key : Bytes) :
    Option Nat :=
  (arena.findIdx? fun r => used r && keyOf r = key).or (arena.findIdx? fun r => !used r)

def withdraw {α : Type} (used : α → Bool) (keyOf : α → Bytes) (free : α → α) (key : Bytes) :
    List α → List α
  | [] => []
  | r :: rest =>
    if used r && keyOf r = key then free r :: rest else r :: withdraw used keyOf free key rest

def DynRoutes.arena (t : DynRoutes) (shadow : Bool) : List DynRoute := if shadow then t.shadow else t.live

def DynRoutes.setArena (t : DynRoutes) (shadow : Bool) (rows : List DynRoute) : DynRoutes :=
  if shadow then { t with shadow := rows } else { t with live := rows }

def DynRoutes.upsert (p : TableProfile) (t : DynRoutes) (key value : Bytes) (shadow : Bool) : DynRoutes :=
  let rows := t.arena shadow
  match upsertSlot DynRoute.used DynRoute.key rows key with
  | none => { t with dropped := t.dropped + 1 }
  | some i =>
    match dynFill p key value with
    | some (row, dropped) =>
      { t.setArena shadow (rows.set i row) with dropped := t.dropped + UInt32.ofNat dropped }
    | none =>
      { t.setArena shadow (rows.set i { key := key.take MAX_DYN_KEY }) with dropped := t.dropped + 1 }

def DynRoute.freed (r : DynRoute) : DynRoute := { r with used := false }

def DynRoutes.remove (t : DynRoutes) (key : Bytes) (shadow : Bool) : DynRoutes :=
  t.setArena shadow (withdraw DynRoute.used DynRoute.key DynRoute.freed key (t.arena shadow))

def DynRoutes.clearShadow (t : DynRoutes) : DynRoutes :=
  { t with shadow := t.shadow.map DynRoute.freed }

def DynRoutes.swapShadow (t : DynRoutes) : DynRoutes := { t with live := t.shadow }

inductive TableOp where
  | upsert (key value : Bytes) (shadow : Bool)
  | remove (key : Bytes) (shadow : Bool)
  | clearShadow
  | swapShadow

def DynRoutes.apply (p : TableProfile) (t : DynRoutes) : TableOp → DynRoutes
  | .upsert key value shadow => t.upsert p key value shadow
  | .remove key shadow => t.remove key shadow
  | .clearShadow => t.clearShadow
  | .swapShadow => t.swapShadow

def DynRoute.Matches (r : DynRoute) (host path : Bytes) : Prop :=
  r.used = true ∧ r.host = host ∧ r.path <+: path

instance (r : DynRoute) (host path : Bytes) : Decidable (r.Matches host path) :=
  inferInstanceAs (Decidable (_ ∧ _ ∧ _))

def matchDynLoop (host path : Bytes) : List DynRoute → (i : Nat) → (best : Option (Nat × Nat)) →
    Option Nat
  | [], _, best => best.map (·.1)
  | r :: rest, i, best =>
    if r.Matches host path ∧ ∀ b ∈ best, b.2 < r.path.length then
      matchDynLoop host path rest (i + 1) (some (i, r.path.length))
    else matchDynLoop host path rest (i + 1) best

def matchDynRoute (t : DynRoutes) (host path : Bytes) : Option Nat := matchDynLoop host path t.live 0 none

theorem matchDynLoop_sound {host path : Bytes} {all rest : List DynRoute} {i k : Nat}
    {best : Option (Nat × Nat)} (hrest : all.drop i = rest)
    (hbest : ∀ b ∈ best, ∃ r, all[b.1]? = some r ∧ r.Matches host path)
    (h : matchDynLoop host path rest i best = some k) :
    ∃ r, all[k]? = some r ∧ r.Matches host path := by
  induction rest generalizing i best with
  | nil =>
    obtain ⟨b, hb, rfl⟩ := map_eq_some_iff.mp h
    exact hbest b hb
  | cons r rest ih =>
    have hnext : all.drop (i + 1) = rest := by rw [← drop_drop, hrest, drop_one, tail_cons]
    have hrow : all[i]? = some r := by rw [← List.head?_drop, hrest, List.head?_cons]
    rw [matchDynLoop] at h
    split_ifs at h with hr
    · refine ih hnext ?_ h
      rintro b ⟨⟩
      exact ⟨r, hrow, hr.1⟩
    · exact ih hnext hbest h

theorem matchDynRoute_sound {t : DynRoutes} {host path : Bytes} {k : Nat}
    (h : matchDynRoute t host path = some k) : ∃ r, t.live[k]? = some r ∧ r.Matches host path :=
  matchDynLoop_sound drop_zero (fun _ hb => by cases hb) h

end Wave.Http.Routing
