import Wave.Http.Routes

/-! # Connection slots and verified peers (`http/server/mod.rs`)

The slot table and the table of verified peers, both keyed by the transport's connection id. -/

namespace Wave.Http

open Lib

variable {i : Nat} {cmds : List NetCmd}

inductive Phase where
  | init
  | binding
  | waitBound
  | waitAccept
  | recvRequest
  | dispatchRoute
  | recvBody
  | appExchange
  | sendHeaders
  | sendBody
  | drainSend
  | closeConn
  | fetchContent
  | cacheStream
  | proxyConnect
  | proxyWaitConnect
  | proxySendRequest
  | proxyRelayHeaders
  | proxyRelayBody
  | wsAwaitAdmit
  | wsHandshake
  | wsActive
  | wsClose
  | h2Active
  | awaitFsStat
  | fsList
  | h3Tunnel
  | error
deriving DecidableEq

/-- `phase > WaitAccept`: the slot has been past the bind sequence. -/
def Phase.accepted : Phase → Bool
  | .init | .binding | .waitBound | .waitAccept => false
  | _ => true

/-- The part of a `ConnSlot` that decides who holds it and what it dials. An id
of `-1` is `none`. -/
structure ConnSlot where
  connId : Option UInt16 := none
  phase : Phase := .init
  peerClosed : Bool := false
  served : Bool := false
  recvLen : Nat := 0
  progressMs : Nat := 0
  backendConnId : Option UInt16 := none
  backendClosed : Bool := false
  proxyConnected : Bool := false
  proxyConnectFailed : Bool := false
  proxyAttempt : Nat := 0
  proxyDynIdx : Option Nat := none
  proxyConnectStartMs : UInt32 := 0

def ConnSlot.isFree (c : ConnSlot) : Bool :=
  c.connId.isNone && (c.phase = .init || c.phase = .waitAccept)

/-- One verified peer, keyed by connection; `none` is `PEER_EMPTY`. -/
structure PeerEntry where
  connId : Option UInt16 := none
  svid : Bytes := []
deriving DecidableEq

structure Server where
  slots : List ConnSlot
  peers : List PeerEntry
  proxyConnectOwner : Option Nat := none
  bound : Bool := false
  draining : Bool := false

def Server.init (p : Profile) : Server where
  slots := List.replicate p.maxConcurrentConns {}
  peers := List.replicate p.maxConcurrentConns {}

/-- A command written to `net_out`. -/
inductive NetCmd where
  | close (conn : UInt16)
  | connect (slot : Nat)

def peerSvid (peers : List PeerEntry) (conn : UInt16) : Option Bytes :=
  (peers.find? fun e => e.connId = some conn && !e.svid.isEmpty).map (·.svid)

def forgetPeer (peers : List PeerEntry) (conn : UInt16) : List PeerEntry :=
  peers.map fun e => if e.connId = some conn then {} else e

def bindFirstFree (entry : PeerEntry) : List PeerEntry → Option (List PeerEntry)
  | [] => none
  | e :: es =>
    if e.connId.isSome then (bindFirstFree entry es).map (e :: ·) else some (entry :: es)

/-- A record always clears its connection first, and binds only a fingerprint
that fits and finds a free entry. -/
def notePeerIdentity (p : Profile) (peers : List PeerEntry) (conn : UInt16)
    (fingerprint : Option Bytes) : List PeerEntry × Bool :=
  let cleared := forgetPeer peers conn
  match fingerprint with
  | none => (cleared, false)
  | some fp =>
    if fp.length > p.maxPeerSvid then (cleared, false)
    else
      match bindFirstFree { connId := some conn, svid := fp } cleared with
      | some peers' => (peers', true)
      | none => (cleared, false)

def peerBound (peers : List PeerEntry) (conn : UInt16) : Bool :=
  peers.any fun e => e.connId = some conn

def findSlotByConnId (slots : List ConnSlot) (conn : UInt16) : Option Nat :=
  slots.findIdx? fun c => c.connId = some conn

def findSlotByBackendConn (slots : List ConnSlot) (conn : UInt16) : Option Nat :=
  slots.findIdx? fun c => c.backendConnId = some conn

/-- Every path that ends a connection comes here: the peer and the slot's connect handshake go. -/
def slotReleaseBuffers (s : Server) (idx : Nat) : Server :=
  let c := s.slots.getD idx {}
  { s with
    peers := match c.connId with
      | some conn => forgetPeer s.peers conn
      | none => s.peers
    proxyConnectOwner := if s.proxyConnectOwner = some idx then none else s.proxyConnectOwner
    slots := s.slots.set idx {} }

def resetConnection (s : Server) (idx : Nat) : Server × List NetCmd :=
  let c := s.slots.getD idx {}
  let client := if c.phase.accepted then [NetCmd.close (c.connId.getD 0xFFFF)] else []
  let backend := match c.backendConnId with
    | some conn => if c.backendClosed then [] else [NetCmd.close conn]
    | none => []
  (slotReleaseBuffers s idx, client ++ backend)

/-- A slot between requests that `evict_idle_keepalive` may reclaim. -/
def ConnSlot.evictable (c : ConnSlot) : Bool :=
  c.connId.isSome && c.phase = .recvRequest && c.served && c.recvLen = 0 && !c.peerClosed

/-- Idle for longer than the victim found so far (`oldest` starts at `u64::MAX`). -/
def ConnSlot.olderThan (c : ConnSlot) (victim : Option (Nat × Nat)) : Bool :=
  decide (c.progressMs < (victim.map (·.2)).getD (2 ^ 64 - 1))

def evictVictim : List ConnSlot → (i : Nat) → (victim : Option (Nat × Nat)) → Option (Nat × Nat)
  | [], _, victim => victim
  | c :: cs, i, victim =>
    evictVictim cs (i + 1)
      (if c.evictable && c.olderThan victim then some (i, c.progressMs) else victim)

/-- The index chosen by `alloc_free_slot` and the eviction that frees it. -/
def chooseSlot (s : Server) : Option (Nat × Server × List NetCmd) :=
  match s.slots.findIdx? ConnSlot.isFree with
  | some i => some (i, s, [])
  | none =>
    match evictVictim s.slots 0 none with
    | some (i, _) => let r := resetConnection s i; some (i, r.1, r.2)
    | none => none

/-- `heap` says whether the arena supplied the slot's buffers. -/
def allocFreeSlot (s : Server) (conn : UInt16) (nowMs : Nat) (heap : Bool) :
    Server × List NetCmd × Option Nat :=
  match chooseSlot s with
  | none => (s, [], none)
  | some (i, s', cmds) =>
    if !heap then (s', cmds, none)
    else
      let c := s'.slots.getD i {}
      ({ s' with
        slots := s'.slots.set i { c with connId := some conn, progressMs := nowMs, served := false } },
        cmds, some i)

def chosenSlot (s : Server) : Option Nat :=
  if s.bound && s.draining then none else (chooseSlot s).map (·.1)

/-- A `MSG_ACCEPTED` of this server's listener. Admission stops at a drain, which
the bind sequence does not look at yet. -/
def acceptConn (s : Server) (conn : UInt16) (nowMs : Nat) (heap : Bool) :
    Server × List NetCmd × Option Nat :=
  if s.bound && s.draining then (s, [.close conn], none)
  else
    match allocFreeSlot s conn nowMs heap with
    | (s', cmds, some i) =>
      ({ s' with slots := s'.slots.set i { s'.slots.getD i {} with phase := .recvRequest } },
        cmds, some i)
    | (s', cmds, none) => (s', cmds ++ [NetCmd.close conn], none)

theorem getD_set_default (slots : List ConnSlot) (i j : Nat) :
    (slots.set i {}).getD j {} = if i = j then {} else slots.getD j {} := by
  simp only [List.getD_eq_getElem?_getD, List.getElem?_set]
  by_cases h : i = j
  · by_cases hlt : i < slots.length <;> simp [h, h ▸ hlt]
  · simp [h]

theorem getD_set_lt {slots : List ConnSlot} (hi : i < slots.length) (c : ConnSlot) (j : Nat) : (slots.set i c).getD j {} = if i = j then c else slots.getD j {} := by
  simp only [List.getD_eq_getElem?_getD, List.getElem?_set]
  by_cases h : i = j
  · simp [h, h ▸ hi]
  · simp [h]

theorem getD_set_connId {slots : List ConnSlot} {c : ConnSlot} (hc : c.connId = (slots.getD i {}).connId) (j : Nat) :
    ((slots.set i c).getD j {}).connId = (slots.getD j {}).connId := by
  by_cases hi : i < slots.length
  · rw [getD_set_lt hi]
    split
    · subst j
      exact hc
    · rfl
  · rw [set_eq_of_length_le (Nat.le_of_not_lt hi)]

theorem evictVictim_sound {all cs : List ConnSlot} {i j m : Nat} {victim : Option (Nat × Nat)}
    (hcs : all.drop i = cs)
    (hv : ∀ k n, victim = some (k, n) → ∃ c, all[k]? = some c ∧ c.evictable = true)
    (h : evictVictim cs i victim = some (j, m)) : ∃ c, all[j]? = some c ∧ c.evictable = true := by
  induction cs generalizing i victim with
  | nil => exact hv j m h
  | cons c cs ih =>
    have hget : all[i]? = some c := by
      rw [← List.head?_drop, hcs]; rfl
    have hrest : all.drop (i + 1) = cs := by
      rw [← drop_drop, hcs]; rfl
    rw [evictVictim] at h
    refine ih hrest ?_ h
    intro k n hk
    split_ifs at hk with hold
    · obtain ⟨rfl, -⟩ := Prod.mk.inj (Option.some.inj hk)
      exact ⟨c, hget, (and_eq_true_iff.mp hold).1⟩
    · exact hv k n hk

theorem chooseSlot_cases {s s' : Server} (h : chooseSlot s = some (i, s', cmds)) :
    i < s.slots.length ∧
      ((s' = s ∧ cmds = [] ∧ (s.slots.getD i {}).isFree = true) ∨
        (s' = slotReleaseBuffers s i ∧ cmds = (resetConnection s i).2 ∧
          (s.slots.getD i {}).evictable = true)) := by
  unfold chooseSlot at h
  cases hfree : s.slots.findIdx? ConnSlot.isFree with
  | some k =>
    rw [hfree] at h
    obtain ⟨rfl, rfl, rfl⟩ : k = i ∧ s = s' ∧ [] = cmds := by simpa using h
    obtain ⟨hlt, hk, -⟩ := List.findIdx?_eq_some_iff_getElem.mp hfree
    refine ⟨hlt, .inl ⟨rfl, rfl, ?_⟩⟩
    rwa [List.getD_eq_getElem?_getD, List.getElem?_eq_getElem hlt]
  | none =>
    rw [hfree] at h
    cases hev : evictVictim s.slots 0 none with
    | none => rw [hev] at h; cases h
    | some victim =>
      obtain ⟨k, m⟩ := victim
      rw [hev] at h
      obtain ⟨rfl, rfl, rfl⟩ : k = i ∧ slotReleaseBuffers s k = s' ∧ (resetConnection s k).2 = cmds := by
        simpa [resetConnection] using h
      obtain ⟨c, hget, hc⟩ := evictVictim_sound drop_zero (fun _ _ hk => by cases hk) hev
      refine ⟨(List.getElem?_eq_some_iff.mp hget).1, .inr ⟨rfl, rfl, ?_⟩⟩
      rwa [List.getD_eq_getElem?_getD, hget]

theorem slotReleaseBuffers_slots_length (s : Server) (i : Nat) :
    (slotReleaseBuffers s i).slots.length = s.slots.length := by
  simp [slotReleaseBuffers]

theorem acceptConn_drained {s : Server} (h : (s.bound && s.draining) = true) (conn : UInt16)
    (nowMs : Nat) (heap : Bool) : acceptConn s conn nowMs heap = (s, [.close conn], none) := by
  rw [acceptConn, if_pos h]

theorem acceptConn_full {s : Server} (h : (s.bound && s.draining) = false)
    (hc : chooseSlot s = none) (conn : UInt16) (nowMs : Nat) (heap : Bool) :
    acceptConn s conn nowMs heap = (s, [.close conn], none) := by
  simp [acceptConn, h, allocFreeSlot, hc]

theorem acceptConn_no_heap {s s' : Server}
    (h : (s.bound && s.draining) = false) (hc : chooseSlot s = some (i, s', cmds)) (conn : UInt16)
    (nowMs : Nat) : acceptConn s conn nowMs false = (s', cmds ++ [NetCmd.close conn], none) := by
  simp [acceptConn, h, allocFreeSlot, hc]

theorem chooseSlot_lt {s s' : Server} (h : chooseSlot s = some (i, s', cmds)) : i < s'.slots.length := by
  obtain ⟨hi, ⟨rfl, -⟩ | ⟨rfl, -⟩⟩ := chooseSlot_cases h
  · exact hi
  · rwa [slotReleaseBuffers_slots_length]

theorem acceptConn_taken {s s' : Server}
    (h : (s.bound && s.draining) = false) (hc : chooseSlot s = some (i, s', cmds)) (conn : UInt16)
    (nowMs : Nat) :
    acceptConn s conn nowMs true =
      ({ s' with slots := s'.slots.set i { s'.slots.getD i {} with
        connId := some conn, progressMs := nowMs, served := false, phase := .recvRequest } },
        cmds, some i) := by
  simp only [acceptConn, h, false_eq_true, if_false, allocFreeSlot, hc, Bool.not_true]
  rw [getD_set_lt (chooseSlot_lt hc), if_pos rfl, List.set_set]

end Wave.Http
