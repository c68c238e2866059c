import Wave.Http.DynRoutes
import Wave.Http.ProxyOwner

/-! # Backends of dynamic routes, at first and on failover

Between the dial and the failover the row is remembered by its index, and the table may change. -/

namespace Wave.Http.Routing

open Lib Common
open Function (update update_eq_self update_self update_of_ne)

variable {i : Nat} {s : Server} {inp : DialInput}

variable {w : EdgeWorld} {log : List EdgeOut}

/-- A dispatched request: its head, with the blank line, and the target in it. -/
structure ProxyRequest where
  head : Bytes := []
  target : Bytes := []

/-- What the `Host` of a head says about dynamic routes. -/
inductive HostKey where
  | refused
  | unmatched
  | host (h : Bytes)

def hostKey (head : Bytes) : HostKey :=
  if head = [] then .unmatched
  else
    match h1Host head with
    | none => .refused
    | some none | some (some []) => .host []
    | some (some raw) =>
      match canonicalAuthority MAX_DYN_HOST raw DYN_ROUTE_DEFAULT_PORT with
      | .ok h => .host h
      | .error _ => .unmatched

structure Pick where
  slot : Nat
  request : ProxyRequest
  table : DynRoutes
  route : Nat
  backend : Nat

def Pick.authority (k : Pick) : Bytes := (k.table.live.getD k.route {}).backendAuthority k.backend

def Pick.Sound (k : Pick) : Prop :=
  ∃ row b host, k.table.live[k.route]? = some row ∧ hostKey k.request.head = .host host ∧
    row.Matches host k.request.target ∧ row.backends[k.backend]? = some b ∧ b.Serves ∧
    k.authority = b.authority.val

structure BackendDial where
  slot : Nat
  request : ProxyRequest
  authority : Bytes
  dynamic : Bool

inductive EdgeOut where
  | picked (k : Pick)
  | dialled (d : BackendDial)

/-- Every selection is sound, and every dial of a dynamic route is for one. -/
structure BackendsSound (log : List EdgeOut) : Prop where
  picks : ∀ k, .picked k ∈ log → k.Sound
  dials : ∀ d, .dialled d ∈ log → d.dynamic = true →
    ∃ k, .picked k ∈ log ∧ k.slot = d.slot ∧ k.request = d.request ∧ k.authority = d.authority

/-! ## The server with its table -/

/-- `request` has what each slot was last dispatched with, `proxyBe` the authority it dials. -/
structure EdgeWorld where
  server : Server
  table : DynRoutes
  request : Nat → ProxyRequest := fun _ => {}
  proxyBe : Nat → Bytes := fun _ => []

def EdgeWorld.init (p : TableProfile) : EdgeWorld where
  server := Server.init p.toProfile
  table := DynRoutes.init p

def EdgeWorld.row (w : EdgeWorld) (di : Nat) : DynRoute := w.table.live.getD di {}

/-- `selected_backend`: the row's cursor moves on a selection. -/
def EdgeWorld.selectedBackend (w : EdgeWorld) (i di : Nat) : Option (Pick × EdgeWorld) :=
  let r := (w.row di).selectBackend
  r.1.map fun backend =>
    let k : Pick := { slot := i, request := w.request i, table := w.table, route := di, backend := backend }
    (k, { w with
      table := { w.table with live := w.table.live.set di r.2 }
      proxyBe := update w.proxyBe i (k.authority.take MAX_BACKEND_AUTHORITY) })

def EdgeWorld.answered (w : EdgeWorld) (i : Nat) : EdgeWorld :=
  { w with server := w.server.setSlot i { w.server.slot i with phase := .drainSend } }

/-- `try_begin_dyn_proxy` on a slot whose request no static route took. -/
def EdgeWorld.tryBeginDynProxy (p : TableProfile) (w : EdgeWorld) (i : Nat) : EdgeWorld × List EdgeOut :=
  let req := w.request i
  match hostKey req.head with
  | .refused => (w.answered i, [])
  | .unmatched => (w, [])
  | .host host =>
    match matchDynRoute w.table host (req.target.take p.maxPath) with
    | none => (w, [])
    | some di =>
      match w.selectedBackend i di with
      | some (k, w) => ({ w with server := beginProxy w.server i (some di) }, [.picked k])
      | none => (w.answered i, [])

def connectFails (s : Server) (i : Nat) (inp : DialInput) : Bool :=
  let c := s.slot i
  !(c.peerClosed && c.phase.isProxy) && !(inp.stalled && c.phase.forwards) &&
    ((c.phase = .proxyWaitConnect && (c.proxyConnectFailed ||
        (!c.proxyConnected && inp.nowMs - c.proxyConnectStartMs ≥ PROXY_CONNECT_TIMEOUT_MS))) ||
      (c.phase = .proxySendRequest && c.backendConnId.isNone))

def failoverRow (s : Server) (i : Nat) (inp : DialInput) : Option Nat :=
  if connectFails s i inp && (s.slot i).proxyAttempt = 0 then (s.slot i).proxyDynIdx else none

def EdgeWorld.dials (w : EdgeWorld) : List NetCmd → List EdgeOut :=
  List.filterMap fun
    | .connect i => some (.dialled
        { slot := i
          request := w.request i
          authority := w.proxyBe i
          dynamic := (w.server.slot i).proxyDynIdx.isSome })
    | .close _ => none

/-- A step of a proxying slot; the table decides whether there is another backend. -/
def EdgeWorld.stepSlot (w : EdgeWorld) (i : Nat) (inp : DialInput) : EdgeWorld × List EdgeOut :=
  match (failoverRow w.server i inp).bind (w.selectedBackend i) with
  | some (k, w) =>
    ({ w with server := (stepProxy w.server i { inp with nextBackend := true }).1 }, [.picked k])
  | none =>
    let r := stepProxy w.server i { inp with nextBackend := false }
    ({ w with server := r.1 }, w.dials r.2)

inductive EdgeEvent where
  | table (op : TableOp)
  | msg (m : NetMsg)
  | accepted (conn : UInt16) (nowMs : Nat) (heap : Bool)
  | dispatch (slot : Nat) (request : ProxyRequest)
  | staticProxy (slot : Nat) (request : ProxyRequest) (authority : Bytes)
  | step (slot : Nat) (inp : DialInput)
  | work (slot : Nat) (c : ConnSlot)

def edgeStep (p : TableProfile) (me : UInt16) (w : EdgeWorld) : EdgeEvent → EdgeWorld × List EdgeOut
  | .table op => ({ w with table := w.table.apply p op }, [])
  | .msg m => ({ w with server := demuxMsg me w.server m }, [])
  | .accepted conn nowMs heap => ({ w with server := (acceptConn w.server conn nowMs heap).1 }, [])
  | .dispatch i request =>
    if (w.server.slot i).phase = .dispatchRoute then
      { w with request := update w.request i request }.tryBeginDynProxy p i
    else (w, [])
  | .staticProxy i request authority =>
    if (w.server.slot i).phase = .dispatchRoute then
      ({ w with
        request := update w.request i request
        proxyBe := update w.proxyBe i authority
        server := beginProxy w.server i none }, [])
    else (w, [])
  | .step i inp => w.stepSlot i inp
  | .work i c =>
    let old := w.server.slot i
    if old.phase.isProxy || old.phase = .closeConn || c.phase.isProxy then (w, [])
    else
      ({ w with
        server := w.server.setSlot i { old with
          phase := c.phase, served := c.served, recvLen := c.recvLen, progressMs := c.progressMs } }, [])

def edgeMachine (p : TableProfile) (me : UInt16) : Machine EdgeWorld EdgeEvent EdgeOut := ⟨edgeStep p me⟩

def RowMatches (row : DynRoute) (request : ProxyRequest) : Prop :=
  ∃ host, hostKey request.head = .host host ∧ row.Matches host request.target

instance (row : DynRoute) (request : ProxyRequest) : Decidable (RowMatches row request) :=
  match h : hostKey request.head with
  | .host host =>
    decidable_of_iff (row.Matches host request.target)
      ⟨fun hm => ⟨host, h, hm⟩, fun ⟨_, hh, hm⟩ => HostKey.host.inj (h.symm.trans hh) ▸ hm⟩
  | .refused | .unmatched => isFalse fun ⟨_, hh, _⟩ => HostKey.noConfusion (h.symm.trans hh)

/-- A failover that finds a backend finds it in a live row that matches the request. -/
def FailoverOk (w : EdgeWorld) : EdgeEvent → Prop
  | .step i inp => ∀ di ∈ failoverRow w.server i inp, totalWeight (w.row di).backends ≠ 0 →
      RowMatches (w.row di) (w.request i)
  | _ => True

instance (w : EdgeWorld) (e : EdgeEvent) : Decidable (FailoverOk w e) :=
  match e with
  | .step i inp => inferInstanceAs (Decidable (∀ di ∈ failoverRow w.server i inp, _ → _))
  | .table _ | .msg _ | .accepted _ _ _ | .dispatch _ _ | .staticProxy _ _ _ | .work _ _ => isTrue trivial

/-! ## Selections -/

theorem mem_selectedBackend {w w' : EdgeWorld} {i di : Nat} {k : Pick} (h : w.selectedBackend i di = some (k, w')) :
    (w.row di).selectBackend.1 = some k.backend ∧ k.slot = i ∧ k.request = w.request i ∧
      k.table = w.table ∧ k.route = di ∧ w'.server = w.server ∧ w'.request = w.request ∧
      w'.proxyBe = update w.proxyBe i k.authority := by
  unfold EdgeWorld.selectedBackend at h
  obtain ⟨backend, hsel, heq⟩ := map_eq_some_iff.mp h
  cases heq
  refine ⟨hsel, rfl, rfl, rfl, rfl, rfl, rfl, ?_⟩
  simp only
  rw [take_of_length_le]
  exact ((w.table.live.getD di {}).backends.getD backend {}).authority.property

theorem selectedBackend_isSome (w : EdgeWorld) (i di : Nat) :
    (w.selectedBackend i di).isSome = decide (totalWeight (w.row di).backends ≠ 0) := by
  unfold EdgeWorld.selectedBackend
  rw [Option.isSome_map, selectBackend_isSome]

theorem pick_sound_iff {w w' : EdgeWorld} {i di : Nat} {k : Pick} (h : w.selectedBackend i di = some (k, w')) :
    k.Sound ↔ RowMatches (w.row di) (w.request i) := by
  obtain ⟨hsel, -, hreq, htable, hroute, -⟩ := mem_selectedBackend h
  obtain ⟨b, hb, hserves⟩ := selectBackend_ready hsel
  have hrow : w.table.live[di]? = some (w.row di) := by
    rw [EdgeWorld.row, List.getD_eq_getElem?_getD]
    cases hlive : w.table.live[di]? with
    | some row => rfl
    | none =>
      rw [EdgeWorld.row, List.getD_eq_getElem?_getD, hlive] at hb
      cases hb
  constructor
  · rintro ⟨row, -, host, hlive, hhost, hmatch, -⟩
    rw [htable, hroute, hrow] at hlive
    cases hlive
    rw [hreq] at hhost hmatch
    exact ⟨host, hhost, hmatch⟩
  · rintro ⟨host, hhost, hmatch⟩
    refine ⟨w.row di, b, host, by rw [htable, hroute]; exact hrow, by rw [hreq]; exact hhost,
      by rw [hreq]; exact hmatch, hb, hserves, ?_⟩
    rw [Pick.authority, htable, hroute, DynRoute.backendAuthority, List.getD_eq_getElem?_getD]
    rw [EdgeWorld.row] at hb
    rw [hb]
    rfl

theorem Matches_of_take {r : DynRoute} {host target : Bytes} {n : Nat}
    (h : r.Matches host (target.take n)) : r.Matches host target :=
  ⟨h.1, h.2.1, h.2.2.trans (List.take_prefix n target)⟩

theorem tryBeginDynProxy_sound {p : TableProfile} {k : Pick} (h : .picked k ∈ (w.tryBeginDynProxy p i).2) : k.Sound := by
  unfold EdgeWorld.tryBeginDynProxy at h
  cases hhost : hostKey (w.request i).head with
  | refused => simp only [hhost, not_mem_nil] at h
  | unmatched => simp only [hhost, not_mem_nil] at h
  | host host =>
    simp only [hhost] at h
    cases hmatch : matchDynRoute w.table host ((w.request i).target.take p.maxPath) with
    | none => simp only [hmatch, not_mem_nil] at h
    | some di =>
      simp only [hmatch] at h
      cases hsel : w.selectedBackend i di with
      | none => simp only [hsel, not_mem_nil] at h
      | some r =>
        obtain ⟨k', w'⟩ := r
        simp only [hsel, mem_singleton, EdgeOut.picked.injEq] at h
        subst h
        obtain ⟨row, hlive, hrow⟩ := matchDynRoute_sound hmatch
        refine (pick_sound_iff hsel).mpr ⟨host, hhost, ?_⟩
        rw [EdgeWorld.row, List.getD_eq_getElem?_getD, hlive]
        exact Matches_of_take hrow

theorem picked_notMem_dials (w : EdgeWorld) (cmds : List NetCmd) (k : Pick) :
    .picked k ∉ w.dials cmds := by
  intro h
  obtain ⟨cmd, -, hcmd⟩ := mem_filterMap.mp h
  cases cmd <;> cases hcmd

theorem edgeStep_picks_iff (p : TableProfile) (me : UInt16) (w : EdgeWorld) (e : EdgeEvent) :
    (∀ k, .picked k ∈ (edgeStep p me w e).2 → k.Sound) ↔ FailoverOk w e := by
  cases e with
  | step i inp =>
    show (∀ k, .picked k ∈ (w.stepSlot i inp).2 → k.Sound) ↔ ∀ di ∈ failoverRow w.server i inp, _
    unfold EdgeWorld.stepSlot
    cases hrow : failoverRow w.server i inp with
    | none =>
      simp only [Option.bind_none, picked_notMem_dials, false_imp_iff, implies_true, Option.not_mem_none]
    | some di =>
      have hweight := selectedBackend_isSome w i di
      simp only [bind_some, Option.mem_some_iff, forall_eq']
      cases hsel : w.selectedBackend i di with
      | none =>
        rw [hsel] at hweight
        simp only [picked_notMem_dials, false_imp_iff, implies_true, true_iff]
        intro hne
        rw [decide_eq_true hne] at hweight
        cases hweight
      | some r =>
        obtain ⟨k, w'⟩ := r
        rw [hsel] at hweight
        have hne := of_decide_eq_true hweight.symm
        simp only [mem_singleton, EdgeOut.picked.injEq, forall_eq, hne, ne_eq, not_false_eq_true,
          forall_const]
        exact pick_sound_iff hsel
  | dispatch i request =>
    refine iff_of_true (fun k hk => ?_) trivial
    rw [edgeStep] at hk
    split_ifs at hk
    · exact tryBeginDynProxy_sound hk
    · cases hk
  | table op => exact iff_of_true (fun k hk => by cases hk) trivial
  | msg m => exact iff_of_true (fun k hk => by cases hk) trivial
  | accepted conn nowMs heap => exact iff_of_true (fun k hk => by cases hk) trivial
  | staticProxy i request authority =>
    refine iff_of_true (fun k hk => ?_) trivial
    rw [edgeStep] at hk
    split_ifs at hk <;> cases hk
  | work i c =>
    refine iff_of_true (fun k hk => ?_) trivial
    rw [edgeStep] at hk
    split_ifs at hk <;> cases hk

theorem run_picks_iff (p : TableProfile) (me : UInt16) (events : List EdgeEvent) (w : EdgeWorld) :
    (∀ k, .picked k ∈ ((edgeMachine p me).run w events).2 → k.Sound) ↔
      (edgeMachine p me).Along FailoverOk w events := by
  induction events generalizing w with
  | nil => exact iff_of_true (fun k hk => by cases hk) trivial
  | cons e events ih =>
    rw [Machine.run_cons, Machine.along_cons, ← ih, ← edgeStep_picks_iff p me w e]
    simp only [mem_append, or_imp, forall_and]
    rfl

/-! ## Dials -/

def Quiet (s s' : Server) : Prop :=
  ∀ j, (s'.slot j).phase = .proxyConnect →
    (s.slot j).phase = .proxyConnect ∧ (s'.slot j).proxyDynIdx = (s.slot j).proxyDynIdx

theorem Quiet.refl (s : Server) : Quiet s s := fun _ h => ⟨h, rfl⟩

theorem Quiet.trans {s t u : Server} (h : Quiet s t) (h' : Quiet t u) : Quiet s u := by
  intro j hj
  obtain ⟨hphase, hdyn⟩ := h' j hj
  obtain ⟨hphase', hdyn'⟩ := h j hphase
  exact ⟨hphase', hdyn.trans hdyn'⟩

theorem setSlot_cases (s : Server) (i : Nat) (c : ConnSlot) (j : Nat) :
    (j = i ∧ (s.setSlot i c).slot j = c) ∨ (s.setSlot i c).slot j = s.slot j := by
  by_cases hi : i < s.slots.length
  · rw [slot_setSlot hi]
    exact (update_cases s.slot i c j).imp id And.right
  · refine .inr ?_
    rw [Server.setSlot, set_eq_of_length_le (Nat.le_of_not_lt hi)]

theorem quiet_setSlot (s : Server) (i : Nat) (c : ConnSlot)
    (h : c.phase = .proxyConnect →
      (s.slot i).phase = .proxyConnect ∧ c.proxyDynIdx = (s.slot i).proxyDynIdx) :
    Quiet s (s.setSlot i c) := by
  intro j hj
  obtain ⟨rfl, heq⟩ | heq := setSlot_cases s i c j <;> rw [heq] at hj ⊢
  · exact h hj
  · exact ⟨hj, rfl⟩

theorem quiet_phase (s : Server) (i : Nat) (c : ConnSlot) (h : c.phase ≠ .proxyConnect) :
    Quiet s (s.setSlot i c) := quiet_setSlot s i c fun hc => absurd hc h

theorem quiet_disown (s : Server) (i : Nat) : Quiet s (s.disown i) := Quiet.refl s

theorem quiet_release (s : Server) (i : Nat) : Quiet s (slotReleaseBuffers s i) := by
  intro j hj
  rw [slot_release] at hj ⊢
  obtain ⟨-, heq⟩ | ⟨-, heq⟩ := update_cases s.slot i {} j <;> rw [heq] at hj ⊢
  · cases hj
  · exact ⟨hj, rfl⟩

theorem quiet_demuxClosed (s : Server) (conn : UInt16) {orElse : Server} (h : Quiet s orElse) :
    Quiet s (demuxClosed s conn orElse) := by
  unfold demuxClosed
  split
  · exact quiet_setSlot s _ _ fun hc => ⟨hc, rfl⟩
  · split
    · exact quiet_setSlot s _ _ fun hc => ⟨hc, rfl⟩
    · exact h

theorem quiet_onOwner (s : Server) {f : ConnSlot → ConnSlot}
    (h : ∀ c, (f c).phase = c.phase ∧ (f c).proxyDynIdx = c.proxyDynIdx) : Quiet s (onOwner s f) := by
  unfold onOwner
  split
  · refine quiet_setSlot s _ _ fun hc => ?_
    rw [(h _).1] at hc
    exact ⟨hc, (h _).2⟩
  · exact Quiet.refl s

theorem quiet_demuxMsg (me : UInt16) (s : Server) (m : NetMsg) : Quiet s (demuxMsg me s m) := by
  cases m with
  | connected conn tag =>
    rw [demuxMsg]
    split_ifs
    · exact quiet_onOwner s fun _ => ⟨rfl, rfl⟩
    · exact Quiet.refl s
  | error conn tag =>
    have hfailed : Quiet s (onOwner s fun c => { c with proxyConnectFailed := true }) :=
      quiet_onOwner s fun _ => ⟨rfl, rfl⟩
    rw [demuxMsg]
    split_ifs
    · exact hfailed
    · exact Quiet.refl s
    · exact quiet_demuxClosed s conn hfailed
    · exact quiet_demuxClosed s conn (Quiet.refl s)
  | closed conn => exact quiet_demuxClosed s conn (Quiet.refl s)

theorem quiet_acceptConn (s : Server) (conn : UInt16) (nowMs : Nat) (heap : Bool) :
    Quiet s (acceptConn s conn nowMs heap).1 := by
  by_cases hdrain : (s.bound && s.draining) = true
  · rw [acceptConn_drained hdrain]
    exact Quiet.refl s
  have hdrain := eq_false_iff.mpr hdrain
  cases hc : chooseSlot s with
  | none =>
    rw [acceptConn_full hdrain hc]
    exact Quiet.refl s
  | some r =>
    obtain ⟨i, s', cmds⟩ := r
    have hchosen : Quiet s s' := by
      obtain ⟨-, ⟨rfl, -⟩ | ⟨rfl, -⟩⟩ := chooseSlot_cases hc
      · exact Quiet.refl s'
      · exact quiet_release s i
    cases heap with
    | false =>
      rw [acceptConn_no_heap hdrain hc]
      exact hchosen
    | true =>
      rw [acceptConn_taken hdrain hc]
      exact hchosen.trans (quiet_phase s' i _ Phase.noConfusion)

theorem quiet_connectFailed (s : Server) (i : Nat) : Quiet s (proxyConnectFailed s i false) := by
  unfold proxyConnectFailed
  simp only [Bool.and_false, false_eq_true, if_false]
  exact (quiet_disown s i).trans (quiet_phase _ i _ Phase.noConfusion)

theorem quiet_stepProxy (s : Server) (i : Nat) (inp : DialInput) (h : inp.nextBackend = false) :
    Quiet s (stepProxy s i inp).1 := by
  unfold stepProxy
  simp only
  split_ifs
  · exact quiet_release s i
  · exact quiet_phase s i _ Phase.noConfusion
  · split
    · -- The owner of the connect is set, and a dial that is taken leaves the phase.
      unfold stepProxyConnect
      split_ifs
      · exact Quiet.refl s
      · exact Quiet.refl s
      · exact quiet_phase { s with proxyConnectOwner := some i } i _ Phase.noConfusion
    · simp only [stepProxyWaitConnect, h]
      split_ifs
      · exact quiet_connectFailed s i
      · exact quiet_phase (s.disown i) i _ Phase.noConfusion
      · exact quiet_connectFailed s i
      · exact Quiet.refl s
    · simp only [stepProxySendRequest, h]
      split_ifs
      · exact quiet_connectFailed s i
      · exact quiet_phase s i _ Phase.noConfusion
      · exact Quiet.refl s
    · simp only [stepProxyRelay]
      split_ifs
      · exact quiet_phase s i _ Phase.noConfusion
      · exact Quiet.refl s
    · simp only [stepProxyRelay]
      split_ifs
      · exact quiet_phase s i _ Phase.noConfusion
      · exact Quiet.refl s
    · exact quiet_release s i
    · exact Quiet.refl s

theorem stepProxy_connectFails (h : connectFails s i inp = true) (next : Bool) : stepProxy s i { inp with nextBackend := next } = (proxyConnectFailed s i next, []) := by
  unfold connectFails at h
  simp only [and_eq_true, Bool.not_eq_true', or_eq_true, decide_eq_true_eq] at h
  obtain ⟨⟨hpeer, hstall⟩, hphase⟩ := h
  unfold stepProxy
  simp only
  rw [if_neg (by rw [hpeer]; exact false_ne_true), if_neg (by rw [hstall]; exact false_ne_true)]
  rcases hphase with ⟨hphase, hfailed⟩ | ⟨hphase, hnone⟩
  · rw [hphase]
    simp only [stepProxyWaitConnect]
    rcases hfailed with hfailed | ⟨hwaiting, hlate⟩
    · rw [if_pos hfailed]
    · simp only [hwaiting, false_eq_true, if_false, if_pos hlate, ite_self]
  · rw [hphase]
    simp only [stepProxySendRequest]
    rw [if_pos hnone]

theorem connect_mem_stepProxy {i j : Nat} (h : .connect j ∈ (stepProxy s i inp).2) : j = i ∧ (s.slot i).phase = .proxyConnect := by
  unfold stepProxy at h
  simp only at h
  split_ifs at h
  · obtain ⟨conn, hconn⟩ := resetConnection_closes s i _ h
    cases hconn
  · cases h
  · split at h
    · rename_i hphase
      unfold stepProxyConnect at h
      split_ifs at h
      · cases h
      · cases h
      · exact ⟨NetCmd.connect.inj (mem_singleton.mp h), hphase⟩
    · cases h
    · cases h
    · cases h
    · cases h
    · obtain ⟨conn, hconn⟩ := resetConnection_closes s i _ h
      cases hconn
    · cases h

/-- A slot that is ready to dial a dynamic route dials what was selected for its request. -/
def Behind (w : EdgeWorld) (log : List EdgeOut) : Prop :=
  ∀ i, (w.server.slot i).phase = .proxyConnect → (w.server.slot i).proxyDynIdx.isSome = true →
    ∃ k, .picked k ∈ log ∧ k.slot = i ∧ k.request = w.request i ∧ k.authority = w.proxyBe i

theorem Behind.quiet {w w' : EdgeWorld} {log out : List EdgeOut} (h : Behind w log)
    (hq : Quiet w.server w'.server) (hreq : w'.request = w.request) (hbe : w'.proxyBe = w.proxyBe) :
    Behind w' (log ++ out) := by
  intro i hphase hdyn
  obtain ⟨hphase', hdyn'⟩ := hq i hphase
  rw [hdyn'] at hdyn
  obtain ⟨k, hk, hrest⟩ := h i hphase' hdyn
  rw [hreq, hbe]
  exact ⟨k, mem_append_left _ hk, hrest⟩

theorem Behind.ready {log out : List EdgeOut} (h : Behind w log)
    {c : ConnSlot} {req : ProxyRequest} {be : Bytes} {table : DynRoutes} (hslot : s.slot = w.server.slot)
    (hi : i < s.slots.length)
    (hc : c.proxyDynIdx.isSome = true →
      ∃ k, .picked k ∈ out ∧ k.slot = i ∧ k.request = req ∧ k.authority = be) :
    Behind { server := s.setSlot i c, table := table
             request := update w.request i req, proxyBe := update w.proxyBe i be }
      (log ++ out) := by
  intro j hphase hdyn
  simp only [slot_setSlot hi] at hphase hdyn ⊢
  by_cases hj : j = i
  · subst hj
    rw [update_self] at hdyn ⊢
    rw [update_self]
    obtain ⟨k, hk, hrest⟩ := hc hdyn
    exact ⟨k, mem_append_right _ hk, hrest⟩
  · rw [update_of_ne hj, hslot] at hphase hdyn
    rw [update_of_ne hj, update_of_ne hj]
    obtain ⟨k, hk, hrest⟩ := h j hphase hdyn
    exact ⟨k, mem_append_left _ hk, hrest⟩

theorem Behind.dispatched (h : Behind w log)
    (request : ProxyRequest) (hq : Quiet w.server s) (hi : (s.slot i).phase ≠ .proxyConnect) :
    Behind { w with server := s, request := update w.request i request } (log ++ []) := by
  intro j hphase hdyn
  have hj : j ≠ i := by
    rintro rfl
    exact hi hphase
  obtain ⟨hphase', hdyn'⟩ := hq j hphase
  rw [hdyn'] at hdyn
  rw [append_nil]
  simp only [update_of_ne hj]
  exact h j hphase' hdyn

theorem Behind.tryBegin {p : TableProfile}
    {request : ProxyRequest} (h : Behind w log) (hphase : (w.server.slot i).phase = .dispatchRoute) :
    Behind (EdgeWorld.tryBeginDynProxy p { w with request := update w.request i request } i).1
      (log ++ (EdgeWorld.tryBeginDynProxy p
        { w with request := update w.request i request } i).2) := by
  have hi : i < w.server.slots.length := slot_lt (by rw [hphase]; exact Phase.noConfusion)
  have hstay : Behind { w with request := update w.request i request } (log ++ []) :=
    h.dispatched request (Quiet.refl _) (by rw [hphase]; exact Phase.noConfusion)
  have hanswered : Behind
      (EdgeWorld.answered { w with request := update w.request i request } i) (log ++ []) := by
    refine h.dispatched request (quiet_phase _ _ _ Phase.noConfusion) ?_
    rw [slot_setSlot hi, update_self]
    exact Phase.noConfusion
  unfold EdgeWorld.tryBeginDynProxy
  simp only
  split
  · exact hanswered
  · exact hstay
  · split
    · exact hstay
    · split
      · rename_i di _ k w' hsel
        obtain ⟨-, hslot, hreq, -, -, hserver, hreq', hbe⟩ := mem_selectedBackend hsel
        obtain ⟨server, table, request', proxyBe⟩ := w'
        subst hserver hreq' hbe
        refine h.ready rfl hi fun _ => ⟨k, mem_singleton_self _, hslot, ?_, rfl⟩
        exact hreq.trans (update_self i request w.request)
      · exact hanswered

theorem Behind.failover {w w' : EdgeWorld} {i di : Nat} {k : Pick} (h : Behind w log) (hrow : failoverRow w.server i inp = some di)
    (hsel : w.selectedBackend i di = some (k, w')) :
    Behind { w' with server := (stepProxy w'.server i { inp with nextBackend := true }).1 }
      (log ++ [EdgeOut.picked k]) := by
  obtain ⟨-, hslot, hreq, -, -, hserver, hreq', hbe⟩ := mem_selectedBackend hsel
  unfold failoverRow at hrow
  split_ifs at hrow with hfails
  obtain ⟨hfails, hattempt⟩ : connectFails w.server i inp = true ∧ (w.server.slot i).proxyAttempt = 0 := by
    simpa only [and_eq_true, decide_eq_true_eq] using hfails
  have hi : i < w.server.slots.length := by
    refine slot_lt fun hphase => ?_
    unfold connectFails at hfails
    simp [hphase] at hfails
  obtain ⟨server, table, request', proxyBe⟩ := w'
  subst hserver hreq' hbe
  rw [stepProxy_connectFails hfails]
  have hdyn : (w.server.slot i).proxyDynIdx.isSome = true := by rw [hrow]; rfl
  have hagain : proxyConnectFailed w.server i true = (w.server.disown i).setSlot i
      { w.server.slot i with
        proxyAttempt := 1, backendConnId := none, proxyConnected := false, proxyConnectFailed := false,
        phase := .proxyConnect } := by
    have hslot : (w.server.disown i).slot i = w.server.slot i := rfl
    simp only [proxyConnectFailed, hslot, hattempt, hdyn, decide_true, Bool.and_self, if_true]
  rw [hagain, ← update_eq_self i w.request]
  exact h.ready rfl hi fun _ => ⟨k, mem_singleton_self _, hslot, hreq, rfl⟩

/-! ## Runs -/

def EdgeInv (w : EdgeWorld) (log : List EdgeOut) : Prop :=
  Behind w log ∧ ∀ d, .dialled d ∈ log → d.dynamic = true →
    ∃ k, .picked k ∈ log ∧ k.slot = d.slot ∧ k.request = d.request ∧ k.authority = d.authority

theorem EdgeInv.picked {w w' : EdgeWorld} {log out : List EdgeOut} (h : EdgeInv w log)
    (hb : Behind w' (log ++ out)) (hout : ∀ d, .dialled d ∉ out) : EdgeInv w' (log ++ out) := by
  refine ⟨hb, fun d hd hdyn => ?_⟩
  rcases mem_append.mp hd with hd | hd
  · obtain ⟨k, hk, hrest⟩ := h.2 d hd hdyn
    exact ⟨k, mem_append_left _ hk, hrest⟩
  · exact absurd hd (hout d)

theorem dialled_notMem_tryBegin (p : TableProfile) (w : EdgeWorld) (i : Nat) (d : BackendDial) :
    .dialled d ∉ (w.tryBeginDynProxy p i).2 := by
  unfold EdgeWorld.tryBeginDynProxy
  simp only
  split
  · exact not_mem_nil
  · exact not_mem_nil
  · split
    · exact not_mem_nil
    · split
      · exact fun h => EdgeOut.noConfusion (mem_singleton.mp h)
      · exact not_mem_nil

theorem EdgeInv.stepSlot (h : EdgeInv w log) (i : Nat) (inp : DialInput) : EdgeInv (w.stepSlot i inp).1 (log ++ (w.stepSlot i inp).2) := by
  unfold EdgeWorld.stepSlot
  split
  · rename_i k w' hsel
    obtain ⟨di, hrow, hsel⟩ := bind_eq_some_iff.mp hsel
    refine h.picked (h.1.failover hrow hsel) fun d hd => ?_
    exact EdgeOut.noConfusion (mem_singleton.mp hd)
  · refine ⟨h.1.quiet (quiet_stepProxy _ _ _ rfl) rfl rfl, fun d hd hdyn => ?_⟩
    rcases mem_append.mp hd with hd | hd
    · obtain ⟨k, hk, hrest⟩ := h.2 d hd hdyn
      exact ⟨k, mem_append_left _ hk, hrest⟩
    · obtain ⟨cmd, hcmd, heq⟩ := mem_filterMap.mp hd
      cases cmd with
      | close conn => cases heq
      | connect j =>
        cases heq
        obtain ⟨rfl, hphase⟩ := connect_mem_stepProxy hcmd
        obtain ⟨k, hk, hrest⟩ := h.1 j hphase hdyn
        exact ⟨k, mem_append_left _ hk, hrest⟩

theorem EdgeInv.step (h : EdgeInv w log) (p : TableProfile) (me : UInt16) (e : EdgeEvent) : EdgeInv (edgeStep p me w e).1 (log ++ (edgeStep p me w e).2) := by
  cases e with
  | step i inp => exact h.stepSlot i inp
  | table op => exact h.picked (h.1.quiet (Quiet.refl _) rfl rfl) fun _ => not_mem_nil
  | msg m => exact h.picked (h.1.quiet (quiet_demuxMsg me _ m) rfl rfl) fun _ => not_mem_nil
  | accepted conn nowMs heap =>
    exact h.picked (h.1.quiet (quiet_acceptConn _ conn nowMs heap) rfl rfl) fun _ => not_mem_nil
  | dispatch i request =>
    rw [edgeStep]
    split_ifs with hphase
    · exact h.picked (h.1.tryBegin hphase) (dialled_notMem_tryBegin p _ i)
    · exact h.picked (h.1.quiet (Quiet.refl _) rfl rfl) fun _ => not_mem_nil
  | staticProxy i request authority =>
    rw [edgeStep]
    split_ifs with hphase
    · have hi : i < w.server.slots.length := slot_lt (by rw [hphase]; exact Phase.noConfusion)
      exact h.picked (h.1.ready rfl hi nofun) fun _ => not_mem_nil
    · exact h.picked (h.1.quiet (Quiet.refl _) rfl rfl) fun _ => not_mem_nil
  | work i c =>
    rw [edgeStep]
    split_ifs with hskip
    · exact h.picked (h.1.quiet (Quiet.refl _) rfl rfl) fun _ => not_mem_nil
    · have hc : c.phase ≠ .proxyConnect := by
        intro hc
        rw [hc] at hskip
        simp [Phase.isProxy] at hskip
      exact h.picked (h.1.quiet (quiet_phase _ i _ hc) rfl rfl) fun _ => not_mem_nil

/-- All backends are selected and dialled soundly exactly when every failover finds its backend in a live row that
matches. -/
theorem backends_sound_iff (p : TableProfile) (me : UInt16) (events : List EdgeEvent) :
    BackendsSound ((edgeMachine p me).run (EdgeWorld.init p) events).2 ↔
      (edgeMachine p me).Along FailoverOk (EdgeWorld.init p) events := by
  have hstart : EdgeInv (EdgeWorld.init p) [] := by
    refine ⟨fun i hphase => ?_, fun d hd => by cases hd⟩
    have hslot : (EdgeWorld.init p).server.slot i = {} := by
      simp [EdgeWorld.init, Server.init, Server.slot, List.getD_eq_getElem?_getD, List.getElem?_replicate]
      split_ifs <;> rfl
    rw [hslot] at hphase
    cases hphase
  have hdials := ((edgeMachine p me).run_log_invariant (P := fun _ _ => True) (I := EdgeInv)
    (fun w log e h _ => EdgeInv.step h p me e) hstart
    ((edgeMachine p me).along_of_forall (fun _ _ => trivial) _ events)).2
  rw [← run_picks_iff]
  exact ⟨fun h => h.picks, fun h => ⟨h, hdials⟩⟩

def edgeProfile : TableProfile where
  toProfile := smallProfile
  maxDynRoutes := 2
  maxRouteBackends := 4
  targetParses := fun authority => authority ≠ []
  maxDynRoutes_le := by decide
  maxRouteBackends_lt := by decide
  maxPath_lt := by decide

def shopRequest : ProxyRequest where
  head := ascii "GET /cart HTTP/1.1\r\nHost: shop\r\n\r\n"
  target := ascii "/cart"

/-- A connect to the only backend of `shop` fails after the table was changed by `ops`. -/
def retryAfter (ops : List TableOp) : List EdgeEvent :=
  [EdgeEvent.table (.upsert (ascii "a") (ascii "host=shop;path=/;be=10.0.0.1:80:1:1") false),
    .accepted 3 0 true, .work 0 { phase := .dispatchRoute }, .dispatch 0 shopRequest, .step 0 {}] ++
    ops.map EdgeEvent.table ++ [EdgeEvent.msg (.error 9 5), .step 0 {}, .step 0 {}]

def otherTenant : List TableOp :=
  [.remove (ascii "a") false, .upsert (ascii "b") (ascii "host=bank;path=/;be=10.0.0.9:80:1:1") false]

def edgeLog (events : List EdgeEvent) : List EdgeOut :=
  ((edgeMachine edgeProfile 5).run (EdgeWorld.init edgeProfile) events).2

def EdgeOut.authority : EdgeOut → Bytes
  | .picked k => k.authority
  | .dialled d => d.authority

example : (edgeLog (retryAfter [])).map EdgeOut.authority = List.replicate 4 (ascii "10.0.0.1:80") := by
  decide +kernel

/-- The request for `shop` is sent to the backend of `bank`. -/
theorem failover_other_tenant :
    (edgeLog (retryAfter otherTenant)).map EdgeOut.authority =
      [ascii "10.0.0.1:80", ascii "10.0.0.1:80", ascii "10.0.0.9:80", ascii "10.0.0.9:80"] ∧
    ¬ ∀ (p : TableProfile) (me : UInt16) (events : List EdgeEvent),
      BackendsSound ((edgeMachine p me).run (EdgeWorld.init p) events).2 := by
  refine ⟨by decide +kernel, fun hall => ?_⟩
  have hok := (run_picks_iff edgeProfile 5 (retryAfter otherTenant) (EdgeWorld.init edgeProfile)).mp
    (hall edgeProfile 5 (retryAfter otherTenant)).picks
  exact absurd hok (by decide +kernel)

end Wave.Http.Routing
