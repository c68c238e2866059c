import Wave.Lib.Machine
import Wave.Lib.Table
import Wave.Http.Slots

/-! # The content cache and who reads from it (`http/server/cache.rs`, `h1.rs`, `h2.rs`)

An entry counts the responses read from its region: retained on a hit or when a fetch ends, released at
`DrainSend`, on close or in `free_slot`. -/

namespace Wave.Http

inductive SlotState where
  | idle
  | open
  | pending
  | sending
  | fetching
  | wsActive
  | app
deriving DecidableEq

end Wave.Http

namespace Wave.Http.BodyCache

open Lib

/-- The routes as the cache sees them: `source` is `source_index >= 0`, `inlineEnd` the end of the inline bodies. -/
structure Site where
  handler : Nat → Handler
  source : Nat → Bool
  fileChan : Bool := true
  inlineEnd : Nat := 0
  poolCap : Nat := 65536
  sendBufSize : Nat := 4100
  streamLimit : Nat := 16

def rendered : Handler → Bool
  | .static | .template => true
  | _ => false

def Site.cached (t : Site) (r : Nat) : Bool := t.source r && t.fileChan && rendered (t.handler r)

/-- An entry with `CACHE_VALID`; `complete` is `CACHE_COMPLETE`. -/
structure CacheEntry where
  routeIndex : Nat
  complete : Bool := false
  retain : Nat := 0
  arenaOffset : Nat := 0
  length : Nat := 0

/-- `cache_alloc` empties the table and takes its first entry, so there is at most one. `owner` is
`file_chan_owner`. -/
structure Store where
  cache : Option CacheEntry := none
  owner : Option Nat := none

/-- `u8::saturating_add(1)`. -/
def saturatingInc (n : Nat) : Nat := min 255 (n + 1)

def CacheEntry.retained (e : CacheEntry) : CacheEntry := { e with retain := saturatingInc e.retain }

def cacheLookup (st : Store) (r : Nat) : Option CacheEntry :=
  st.cache.filter fun e => e.complete && e.routeIndex == r

def cacheReleaseForRoute (st : Store) (r : Nat) : Store :=
  match st.cache with
  | none => st
  | some e =>
    if e.routeIndex = r then { st with cache := some { e with retain := e.retain - 1 } } else st

def cacheEvictable (st : Store) : Bool := st.cache.all fun e => e.retain = 0

def cacheAlloc (t : Site) (st : Store) (r : Nat) : Option Store :=
  if cacheEvictable st then
    some { st with cache := some { routeIndex := r, arenaOffset := t.inlineEnd } }
  else none

def tryAcquireFileChan (st : Store) (k : Nat) : Option Store :=
  match st.owner with
  | none => some { st with owner := some k }
  | some j => if j = k then some st else none

def releaseFileChan (st : Store) (k : Nat) : Store :=
  if st.owner = some k then { st with owner := none } else st

inductive CacheLookup where
  | hit
  | pending
  | noSource
  | busy

def cacheTryOrFetch (t : Site) (k : Nat) (st : Store) (r : Nat) : CacheLookup × Store :=
  if !(t.source r && t.fileChan) then (.noSource, st)
  else
    match cacheLookup st r with
    | some e => (.hit, { st with cache := some e.retained })
    | none =>
      match tryAcquireFileChan st k with
      | none => (.busy, st)
      | some st =>
        match cacheAlloc t st r with
        | none => (.busy, releaseFileChan st k)
        | some st => (.pending, st)

/-- What the file channel shows in one tick: the poll before the read, what the read brings and the
poll after it. -/
structure Poll where
  inReady : Bool := false
  hupPre : Bool := false
  got : Nat := 0
  inAfter : Bool := false
  hupAfter : Bool := false

def CacheEntry.fill (t : Site) (e : CacheEntry) (got : Nat) : CacheEntry :=
  let space := t.poolCap - (e.arenaOffset + e.length)
  { e with length := e.length + min got (min space t.sendBufSize) }

inductive CacheStepResult where
  | pending
  | ready
  | error
deriving DecidableEq

/-- The end of a fetch tick, common to `cache_fetch_step` and `Phase::CacheStream`. -/
def settleFill (t : Site) (st : Store) (e : CacheEntry) (p : Poll) : CacheStepResult × Store :=
  let eof := p.hupAfter && !p.inAfter
  let full := t.poolCap ≤ e.arenaOffset + e.length
  if full ∧ !eof then
    if p.inAfter then (.error, { st with cache := none })
    else (.pending, { st with cache := some e })
  else if eof then (.ready, { st with cache := some { e.retained with complete := true } })
  else (.pending, { st with cache := some e })

def cacheFetchStep (t : Site) (st : Store) (p : Poll) : CacheStepResult × Store :=
  match st.cache with
  | none => (.error, st)
  | some e =>
    if !t.fileChan then (.error, st)
    else if !p.inReady && !p.hupPre then (.pending, st)
    else settleFill t st (if p.inReady then e.fill t p.got else e) p

/-- The fields of a `StreamSlot` that decide what `free_slot` releases. -/
structure StreamSlot where
  id : Nat := 0
  state : SlotState := .idle
  bodyHandler : Handler := .static
  matchedRoute : Option Nat := none

/-- What `step_sending_body` holds of a stream over a window stall. -/
structure Captured where
  slot : Nat
  id : Nat
  matchedRoute : Option Nat

/-- The fields of a `ConnSlot`, its `H2State` among them, that the cache depends on. -/
structure Conn where
  phase : Phase := .init
  matchedRoute : Option Nat := none
  cacheRetained : Bool := false
  streams : List StreamSlot := []
  lastStreamId : Nat := 0
  fileOwner : Option Nat := none
  captured : Option Captured := none

def MAX_STREAMS : Nat := 16

namespace Conn

def stream (c : Conn) (i : Nat) : StreamSlot := c.streams.getD i {}

def setStream (c : Conn) (i : Nat) (s : StreamSlot) : Conn := { c with streams := c.streams.set i s }

def fetchingSlot (c : Conn) : Option Nat :=
  c.streams.findIdx? fun s => s.state = .fetching

def allocSlot (t : Site) (c : Conn) (id : Nat) : Option Conn :=
  if t.streamLimit ≤ c.streams.countP (fun s => s.state ≠ .idle) then none
  else
    (c.streams.findIdx? fun s => s.state = .idle).map fun i =>
      c.setStream i { c.stream i with id := id, state := .open }

/-- `arm_slot_for_emission`. -/
def armSlot (c : Conn) (i : Nat) (h : Handler) (r : Nat) : Conn :=
  c.setStream i { c.stream i with state := .sending, bodyHandler := h, matchedRoute := some r }

end Conn

/-- What `free_slot` takes off the cache: the route the slot's fields name. -/
def StreamSlot.releases (s : StreamSlot) : Option Nat :=
  if rendered s.bodyHandler then s.matchedRoute else none

def freeSlot (k : Nat) (st : Store) (c : Conn) (i : Nat) : Store × Conn :=
  let (st, c) :=
    if c.fileOwner = some i then (releaseFileChan st k, { c with fileOwner := none }) else (st, c)
  let s := c.stream i
  let st :=
    match s.releases with
    | some r => cacheReleaseForRoute st r
    | none => st
  (st, c.setStream i { s with id := 0, state := .idle })

def beginCachedResponse (t : Site) (k : Nat) (st : Store) (c : Conn) (i : Nat) (h : Handler) (r : Nat) :
    Store × Conn :=
  match cacheTryOrFetch t k st r with
  | (.hit, st) | (.noSource, st) => (st, c.armSlot i h r)
  | (.pending, st) | (.busy, st) =>
    (st, { c.setStream i { c.stream i with state := .fetching, bodyHandler := h, matchedRoute := some r } with
      fileOwner := some i })

/-- `begin_file_response`: a listing, or the file at an index, once `FLUSH` and `NOTIFY` went through. -/
def beginFileResponse (k : Nat) (st : Store) (c : Conn) (i : Nat) (r : Nat) (listing : Bool) : Store × Conn :=
  if listing then (st, { c.armSlot i .file r with fileOwner := some i })
  else
    match tryAcquireFileChan st k with
    | none => freeSlot k st c i
    | some st => (st, { c.armSlot i .file r with fileOwner := some i })

/-- `needs_exclusive_for_request`. -/
def Site.exclusive (t : Site) (r : Nat) : Bool :=
  t.handler r = .file || (rendered (t.handler r) && t.source r)

/-- `dispatch_request` for a request that matched a route the server can serve on a stream. -/
def dispatchRequest (t : Site) (k : Nat) (st : Store) (c : Conn) (i r : Nat) (listing : Bool) : Store × Conn :=
  let c := { c with matchedRoute := some r }
  match t.handler r with
  | .static | .template =>
    if t.source r then beginCachedResponse t k st c i (t.handler r) r
    else (st, c.armSlot i (t.handler r) r)
  | .file => beginFileResponse k st c i r listing
  | .app => (st, c.setStream i { c.stream i with state := .app })
  | _ => freeSlot k st c i

/-- The end of a fetch for stream `i`, whichever way `cache_fetch_step` goes. -/
def settleFetch (t : Site) (k : Nat) (st : Store) (c : Conn) (i r : Nat) (p : Poll) : Store × Conn :=
  match cacheFetchStep t st p with
  | (.pending, st) => (st, c)
  | (.ready, st) =>
    (releaseFileChan st k, { c.armSlot i (c.stream i).bodyHandler r with fileOwner := none })
  | (.error, st) =>
    let (st, c) := freeSlot k st c i
    (releaseFileChan st k, { c with fileOwner := none })

def driveCacheFetch (t : Site) (k : Nat) (st : Store) (c : Conn) (p : Poll) : Store × Conn :=
  match c.fetchingSlot with
  | none => (st, c)
  | some i =>
    match (c.stream i).matchedRoute with
    | none => (st, c)
    | some r =>
      if st.owner = some k then settleFetch t k st c i r p
      else
        match cacheTryOrFetch t k st r with
        | (.hit, st) | (.noSource, st) =>
          (releaseFileChan st k, { c.armSlot i (c.stream i).bodyHandler r with fileOwner := none })
        | (.busy, st) => (st, c)
        | (.pending, st) => settleFetch t k st c i r p

/-- `Phase::DispatchRoute` for a static or template route. -/
def h1Dispatch (t : Site) (k : Nat) (st : Store) (c : Conn) (r : Nat) : Store × Conn :=
  let c := { c with matchedRoute := some r }
  if !rendered (t.handler r) then (st, c)
  else if t.source r && t.fileChan then
    match cacheLookup st r with
    | some e => ({ st with cache := some e.retained }, { c with cacheRetained := true, phase := .sendHeaders })
    | none =>
      match tryAcquireFileChan st k with
      | none => (st, c)
      | some st =>
        match cacheAlloc t st r with
        | none => (releaseFileChan st k, c)
        | some st => (st, { c with phase := .fetchContent })
  else (st, { c with phase := .sendHeaders })

/-- `Phase::CacheStream`, which reads before it polls. -/
def h1CacheStream (t : Site) (st : Store) (c : Conn) (p : Poll) : Store × Conn :=
  match st.cache with
  | none => (st, { c with phase := .closeConn })
  | some e =>
    if !t.fileChan then (st, { c with phase := .closeConn })
    else
      match settleFill t st (e.fill t p.got) p with
      | (.pending, st) => (st, c)
      | (.ready, st) => (st, { c with cacheRetained := true, phase := .sendHeaders })
      | (.error, st) => (st, { c with phase := .drainSend })

def finishResponse (c : Conn) (keepalive : Bool) : Conn :=
  if keepalive then { c with matchedRoute := none, phase := .recvRequest } else { c with phase := .closeConn }

/-- `Phase::DrainSend`. -/
def h1DrainSend (k : Nat) (st : Store) (c : Conn) (drained keepalive : Bool) : Store × Conn :=
  let st := releaseFileChan st k
  let (st, c) :=
    match c.matchedRoute with
    | some r =>
      if c.cacheRetained then (cacheReleaseForRoute st r, { c with cacheRetained := false }) else (st, c)
    | none => (st, c)
  (st, if drained then finishResponse c keepalive else c)

/-- `slot_release_buffers`. -/
def slotRelease (k : Nat) (st : Store) (c : Conn) : Store × Conn :=
  let st := releaseFileChan st k
  let st :=
    match c.matchedRoute with
    | some r => if c.cacheRetained then cacheReleaseForRoute st r else st
    | none => st
  (st, {})

inductive Op where
  | accept
  | h1Dispatch (r : Nat)
  /-- `Phase::FetchContent` sees the channel ready. -/
  | h1FetchContent
  | h1CacheStream (p : Poll)
  /-- The head has drained; `head` when the method has no body. -/
  | h1SendHeaders (head : Bool)
  | h1SendBody (keepalive : Bool)
  | h1DrainSend (drained keepalive : Bool)
  | h1Move (p : Phase) (unroute : Bool)
  | enterH2
  | close
  | h2Open (id : Nat)
  /-- The request is whole and `try_dispatch_pending` takes it. -/
  | h2Dispatch (i r : Nat) (listing : Bool)
  | h2Upgrade (i r : Nat)
  | h2Fetch (p : Poll)
  /-- A DATA frame of stream `i`, `last` with END_STREAM. -/
  | h2Emit (i : Nat) (last : Bool)
  /-- `step_sending_body` finds the window shut and turns to the frames that have arrived. -/
  | h2Stall (i : Nat)
  /-- It comes back, with the window open, to the slot it had picked. -/
  | h2Resume (last : Bool)
  | h2End (i : Nat)

/-- The phases a fetch is under way in, and those whose steps the other handlers share. -/
def fetchPhase (p : Phase) : Bool := p = .fetchContent || p = .cacheStream

def sendPhase (p : Phase) : Bool := p = .sendHeaders || p = .sendBody

/-- The h1 connection is being answered from the cache with route `r`. -/
def Conn.h1Reads (t : Site) (c : Conn) (r : Nat) : Bool :=
  sendPhase c.phase && c.matchedRoute = some r && t.cached r

/-- The stream is being answered from the cache with route `r`. -/
def StreamSlot.reads (t : Site) (s : StreamSlot) (r : Nat) : Bool :=
  s.state = .sending && s.releases = some r && t.cached r

def Conn.onH2 (c : Conn) (st : Store) (f : Store × Conn) : Store × Conn :=
  if c.phase = .h2Active then f else (st, c)

/-- `step_sending_body` past the window: the slot is freed behind END_STREAM. -/
def emitBody (k : Nat) (st : Store) (c : Conn) (i : Nat) (matched : Option Nat) (last : Bool) :
    Store × Conn :=
  let c := { c with matchedRoute := matched, captured := none }
  if last then freeSlot k st c i else (st, c)

def Conn.step (t : Site) (k : Nat) (st : Store) (c : Conn) : Op → Store × Conn
  | .accept => if c.phase = .init then (st, { c with phase := .recvRequest }) else (st, c)
  | .h1Dispatch r => if c.phase = .dispatchRoute then BodyCache.h1Dispatch t k st c r else (st, c)
  | .h1FetchContent => if c.phase = .fetchContent then (st, { c with phase := .cacheStream }) else (st, c)
  | .h1CacheStream p => if c.phase = .cacheStream then BodyCache.h1CacheStream t st c p else (st, c)
  | .h1SendHeaders head =>
    if c.phase = .sendHeaders then (st, { c with phase := if head then .drainSend else .sendBody }) else (st, c)
  | .h1SendBody keepalive =>
    match c.phase, c.matchedRoute with
    | .sendBody, some r =>
      match t.handler r with
      | .static => (st, finishResponse c keepalive)
      | .template => (st, { c with phase := .closeConn })
      | _ => (st, c)
    | _, _ => (st, c)
  | .h1DrainSend drained keepalive =>
    if c.phase = .drainSend then BodyCache.h1DrainSend k st c drained keepalive else (st, c)
  | .h1Move p unroute =>
    let matched := if unroute then none else c.matchedRoute
    let inert := matched.all fun r => !rendered (t.handler r)
    if c.phase = .init ∨ c.phase = .h2Active ∨ fetchPhase c.phase ∨ p = .init ∨ p = .h2Active ∨ fetchPhase p then
      (st, c)
    else if (sendPhase c.phase ∨ sendPhase p) ∧ !inert then (st, c)
    else (st, { c with phase := p, matchedRoute := matched })
  | .enterH2 =>
    if c.phase = .recvRequest then
      (st, { c with
        phase := .h2Active
        streams := List.replicate MAX_STREAMS {}
        lastStreamId := 0
        fileOwner := none
        captured := none })
    else (st, c)
  | .close => if c.phase = .init then (st, c) else slotRelease k st c
  | .h2Open id =>
    c.onH2 st <|
      if id ≤ c.lastStreamId then (st, c)
      else ((c.allocSlot t id).map fun c => (st, { c with lastStreamId := id })).getD (st, c)
  | .h2Dispatch i r listing =>
    c.onH2 st <|
      if (c.stream i).state = .open ∨ (c.stream i).state = .pending then
        if t.exclusive r ∧ c.fileOwner ≠ none then (st, c.setStream i { c.stream i with state := .pending })
        else dispatchRequest t k st c i r listing
      else (st, c)
  | .h2Upgrade i r =>
    c.onH2 st <|
      if (c.stream i).state = .open then
        (st, { c.setStream i { c.stream i with state := .wsActive } with matchedRoute := some r })
      else (st, c)
  | .h2Fetch p => c.onH2 st (driveCacheFetch t k st c p)
  | .h2Emit i last =>
    c.onH2 st <|
      if (c.stream i).state = .sending then emitBody k st c i (c.stream i).matchedRoute last else (st, c)
  | .h2Stall i =>
    c.onH2 st <|
      if (c.stream i).state = .sending then
        (st, { c with captured := some ⟨i, (c.stream i).id, (c.stream i).matchedRoute⟩ })
      else (st, c)
  | .h2Resume last =>
    c.onH2 st <|
      match c.captured with
      | none => (st, c)
      | some cap => emitBody k st c cap.slot cap.matchedRoute last
  | .h2End i => c.onH2 st <| if (c.stream i).state = .idle then (st, c) else freeSlot k st c i

structure Server where
  store : Store := {}
  conns : List Conn

namespace Server

def conn (s : Server) (k : Nat) : Conn := s.conns.getD k {}

def init (slots : Nat) : Server := { conns := List.replicate slots {} }

end Server

structure Event where
  conn : Nat
  op : Op

section

variable (t : Site)

def machine : Machine Server Event Unit where
  step s ev :=
    if ev.conn < s.conns.length then
      let r := (s.conn ev.conn).step t ev.conn s.store ev.op
      ({ store := r.1, conns := s.conns.set ev.conn r.2 }, [])
    else (s, [])

/-- The responses of a connection that are read from route `r`'s region. -/
def Conn.readers (r : Nat) (c : Conn) : Nat :=
  (c.h1Reads t r).toNat + (c.streams.map fun s => (s.reads t r).toNat).sum

def Server.readers (s : Server) (r : Nat) : Nat := (s.conns.map (Conn.readers t r)).sum

/-- The count of an entry covers the responses read from it, whose region is whole and no other route's. -/
def Retained (s : Server) : Prop :=
  ∀ r, s.readers t r ≠ 0 →
    ∃ e, s.store.cache = some e ∧ e.routeIndex = r ∧ e.complete = true ∧ s.readers t r ≤ e.retain

def StreamSlot.holds (s : StreamSlot) : Bool := s.state = .sending && s.releases.any t.cached

/-- The counts a connection holds: its own flag, and one for each of its streams under way. -/
def Conn.holds (c : Conn) : Nat :=
  c.cacheRetained.toNat + (c.streams.map fun s => (s.holds t).toNat).sum

def Server.holders (s : Server) : Nat := (s.conns.map (Conn.holds t)).sum

/-- Freeing the slot gives back a count its own stream took, or none at all. -/
def FreesOwn (st : Store) (s : StreamSlot) : Prop :=
  s.holds t = true ∨ ∀ e ∈ st.cache, s.releases = some e.routeIndex → e.retain = 0

def Countable (s : Server) (r : Nat) : Prop :=
  s.holders t < 255 ∨ cacheLookup s.store r = none

/-- No slot is freed with another stream's route in it while that entry is held; no body is resumed after its stream;
at most 255 hold an entry. -/
def Balanced (s : Server) (ev : Event) : Prop :=
  let c := s.conn ev.conn
  match ev.op with
  | .h1Dispatch r => Countable t s r
  | .h2Dispatch i r listing =>
    Countable t s r ∧
      (rendered (t.handler r) ∨ t.handler r = .app ∨
        (t.handler r = .file ∧ (listing ∨ (tryAcquireFileChan s.store ev.conn).isSome)) ∨
        FreesOwn t s.store (c.stream i))
  | .h2Fetch _ => ∀ i ∈ c.fetchingSlot, ∀ r ∈ (c.stream i).matchedRoute, Countable t s r
  | .h2Resume _ =>
    ∀ cap ∈ c.captured, (c.stream cap.slot).id = cap.id ∧ (c.stream cap.slot).state = .sending
  | .h2End i => FreesOwn t s.store (c.stream i)
  | _ => True

end

instance (t : Site) (st : Store) (s : StreamSlot) : Decidable (FreesOwn t st s) :=
  inferInstanceAs (Decidable (_ ∨ _))

instance (t : Site) (s : Server) (r : Nat) : Decidable (Countable t s r) :=
  inferInstanceAs (Decidable (_ ∨ _))

instance (t : Site) (s : Server) : (ev : Event) → Decidable (Balanced t s ev)
  | ⟨_, .h1Dispatch r⟩ => inferInstanceAs (Decidable (Countable t s r))
  | ⟨_, .h2Dispatch _ _ _⟩ => inferInstanceAs (Decidable (_ ∧ _))
  | ⟨k, .h2Fetch _⟩ =>
    inferInstanceAs (Decidable (∀ i ∈ (s.conn k).fetchingSlot, ∀ r ∈ ((s.conn k).stream i).matchedRoute, Countable t s r))
  | ⟨k, .h2Resume _⟩ =>
    inferInstanceAs (Decidable (∀ cap ∈ (s.conn k).captured,
      ((s.conn k).stream cap.slot).id = cap.id ∧ ((s.conn k).stream cap.slot).state = .sending))
  | ⟨k, .h2End i⟩ => inferInstanceAs (Decidable (FreesOwn t s.store ((s.conn k).stream i)))
  | ⟨_, .accept⟩ | ⟨_, .h1FetchContent⟩ | ⟨_, .h1CacheStream _⟩ | ⟨_, .h1SendHeaders _⟩ | ⟨_, .h1SendBody _⟩
  | ⟨_, .h1DrainSend _ _⟩ | ⟨_, .h1Move _ _⟩ | ⟨_, .enterH2⟩ | ⟨_, .close⟩ | ⟨_, .h2Open _⟩ | ⟨_, .h2Upgrade _ _⟩
  | ⟨_, .h2Emit _ _⟩ | ⟨_, .h2Stall _⟩ => isTrue trivial

end Wave.Http.BodyCache
