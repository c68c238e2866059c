import Wave.Lib.Paths

/-! # The static route table (`http/server/routes.rs`)

The capacities of a board profile, the route rows and `match_route_path` (`matchRoutePath_sound`). -/

namespace Wave.Http

open Lib

/-- The capacities of one board, with the bounds the module relies on: lengths in sixteen bits, a request line in the
receive buffer, and a fingerprint's length in eight bits. -/
structure Profile where
  maxPath : Nat
  maxFsPath : Nat
  recvBufSize : Nat
  sendBufSize : Nat
  maxConcurrentConns : Nat
  maxPeerSvid : Nat
  recvBufSize_lt : recvBufSize < 65536
  recvBufSize_ge : 64 ≤ recvBufSize
  sendBufSize_lt : sendBufSize < 65536
  sendBufSize_ge : 2560 ≤ sendBufSize
  maxPeerSvid_lt : maxPeerSvid < 256

/-- `Route.handler`. -/
inductive Handler where
  | static
  | template
  | file
  | proxy
  | websocket
  | websocketFanout
  | stream
  | fsFile
  | fsList
  | websocketSession
  | grpc
  | app
  | websocketAdmit
deriving DecidableEq

structure Route where
  path : Bytes
  handler : Handler
  fsPath : Bytes := []
  proxyIp : UInt32 := 0
  proxyPort : UInt16 := 0
  maxBodyKib : Nat := 0

def SLASH : UInt8 := 0x2F
def QUESTION : UInt8 := 0x3F

/-- The target up to its query: routing stops at the first `?`. -/
def targetPath (target : Bytes) : Bytes := target.takeWhile (· != QUESTION)

/-- The query, with its `?`, empty when there is none. -/
def targetQuery (target : Bytes) : Bytes := target.dropWhile (· != QUESTION)

theorem targetPath_append_query (target : Bytes) :
    targetPath target ++ targetQuery target = target :=
  takeWhile_append_dropWhile

theorem targetQuery_cases (target : Bytes) :
    targetQuery target = [] ∨ ∃ rest, targetQuery target = QUESTION :: rest := by
  unfold targetQuery
  induction target with
  | nil => exact .inl rfl
  | cons b rest ih =>
    by_cases hb : b = QUESTION
    · subst hb
      exact .inr ⟨rest, by simp⟩
    · rw [List.dropWhile_cons_of_pos (by simpa using hb)]
      exact ih

/-- The route path matches everything under it: it ends in `/`, and is more than
a bare `/` unless an application serves it. -/
def Route.isPrefix (r : Route) : Bool :=
  (2 ≤ r.path.length || r.handler = .app) && r.path.getLast? = some SLASH

def Route.prefixMatch (r : Route) (path : Bytes) (bestLen : Nat) : Bool :=
  r.isPrefix && decide (path.length > r.path.length) && decide (r.path.length > bestLen) &&
    r.path.isPrefixOf path

/-- The implicit-prefix test: a directory listing serves the files under it. -/
def Route.fileMatch (r : Route) (path : Bytes) (bestLen : Nat) : Bool :=
  !r.isPrefix && r.handler = .fsList && decide (path.length > r.path.length + 1) &&
    decide (r.path.length > bestLen) && Bytes.at0 path r.path.length = SLASH &&
    r.path.isPrefixOf path

/-- The table walk: an exact match wins outright, the longest prefix otherwise. -/
def matchLoop (path : Bytes) : List Route → (i : Nat) → (best : Option Nat) → (bestLen : Nat) →
    Option Nat
  | [], _, best, _ => best
  | r :: rs, i, best, bestLen =>
    if r.path = [] then matchLoop path rs (i + 1) best bestLen
    else if r.path = path then some i
    else if r.prefixMatch path bestLen || r.fileMatch path bestLen then
      matchLoop path rs (i + 1) (some i) r.path.length
    else matchLoop path rs (i + 1) best bestLen

def matchRoutePath (routes : List Route) (target : Bytes) : Option Nat :=
  matchLoop (targetPath target) routes 0 none 0

def Route.Matches (r : Route) (path : Bytes) : Prop :=
  r.path ≠ [] ∧ (r.path = path ∨ (∃ n, r.prefixMatch path n = true) ∨
    ∃ n, r.fileMatch path n = true)

theorem matchLoop_sound {path : Bytes} {all rs : List Route} {i : Nat} {best : Option Nat}
    {bestLen j : Nat} (hrs : all.drop i = rs)
    (hbest : ∀ k, best = some k → ∃ r, all[k]? = some r ∧ r.Matches path)
    (h : matchLoop path rs i best bestLen = some j) :
    ∃ r, all[j]? = some r ∧ r.Matches path := by
  induction rs generalizing i best bestLen with
  | nil => exact hbest j h
  | cons r rs ih =>
    have hget : all[i]? = some r := by
      rw [← List.head?_drop, hrs]; rfl
    have hrest : all.drop (i + 1) = rs := by
      rw [← drop_drop, hrs]; rfl
    rw [matchLoop] at h
    split_ifs at h with hempty hexact hmatch
    · exact ih hrest hbest h
    · obtain rfl := Option.some.inj h
      exact ⟨r, hget, hempty, .inl hexact⟩
    · refine ih hrest (fun k hk => ?_) h
      obtain rfl := Option.some.inj hk
      rw [or_eq_true] at hmatch
      exact ⟨r, hget, hempty, .inr (hmatch.imp (⟨_, ·⟩) (⟨_, ·⟩))⟩
    · exact ih hrest hbest h

theorem matchRoutePath_sound {routes : List Route} {target : Bytes} {i : Nat}
    (h : matchRoutePath routes target = some i) :
    ∃ r, routes[i]? = some r ∧ r.Matches (targetPath target) := by
  rw [matchRoutePath] at h
  exact matchLoop_sound drop_zero (fun _ hk => by cases hk) h

def smallProfile : Profile where
  maxPath := 64
  maxFsPath := 64
  recvBufSize := 2048
  sendBufSize := 4100
  maxConcurrentConns := 2
  maxPeerSvid := 64
  recvBufSize_lt := by decide
  recvBufSize_ge := by decide
  sendBufSize_lt := by decide
  sendBufSize_ge := by decide
  maxPeerSvid_lt := by decide

end Wave.Http
