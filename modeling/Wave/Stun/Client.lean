import Wave.Stun.Answers

/-! # What the client asks and reports

The client asks once, waits its intervals, and reports the outcome in one record. -/

namespace Wave.Stun

open Lib Lib.Bytes Common.Turn Common.Stun

variable {cfg : StunConfig} {w w' : StunWorld} {t : Turn}

/-- The id of the client's one transaction. -/
def ownId (cfg : StunConfig) : FixedBytes 12 := stunTxnId 1 cfg.txnSeed.toUInt64

/-- A source the client takes a response from, as its configuration has it. -/
def FromServer (cfg : StunConfig) (ip : UInt32) (port : UInt16) : Prop :=
  ∃ server ∈ cfg.server, port = server.port ∧ ∀ own, server.host = .literal own → ip = own

/-- The longest interval, behind the sixth transmission. -/
def LONGEST_MS : Nat := 16000

/-- Each transmission waits for the interval of the one before it. -/
def Spaced (times : List Nat) : Prop :=
  ∀ k now next, times[k]? = some now → times[k + 1]? = some next →
    min (now + StunTxn.intervalMs (k + 1)) U64_MAX ≤ next

/-- The last wait is over. -/
def Lapsed (times : List Nat) (clock : Nat) : Prop :=
  times.length = STUN_RC ∧ ∀ last, times.getLast? = some last → min (last + STUN_RM * STUN_RTO_MS) U64_MAX ≤ clock

/-- Why a record is given: nothing came in time, or a whole response to the request from the server it was sent to. -/
inductive Grounds (cfg : StunConfig) (w : StunWorld) (r : StunResult) : Prop
  | timeout (hr : r = { status := STUN_RES_TIMEOUT, ip := 0, port := 0, code := 0 })
      (hlapsed : Lapsed (w.requests.map (·.at_)) w.clock)
  | response (ip : UInt32) (port : UInt16) (raw : Bytes) (header : StunHeader)
      (hheard : Frame.rxFrom ip port raw ∈ w.heard) (hfrom : FromServer cfg ip port)
      (hparse : parseStunHeader (raw.take MSG_BUF) = some header)
      (hcls : header.cls = STUN_CLASS_SUCCESS ∨ header.cls = STUN_CLASS_ERROR)
      (htxn : header.txn = (ownId cfg).1) (hwhole : misprinted (raw.take MSG_BUF) header = false)
      (hr : r = responseResult (raw.take MSG_BUF) header)

/-- The records given and the one that is owed. -/
def records (w : StunWorld) : List Bytes := w.results ++ w.res.toList

/-- Where the transaction is. -/
inductive Stage (cfg : StunConfig) (w : StunWorld) : Prop
  | unasked (hcount : w.txnCount = 0) (hactive : w.txnActive = false) (hnone : w.requests = [])
      (hrecords : records w = [])
  | asking (hcount : w.txnCount = 1) (hactive : w.txnActive = true) (hdone : w.txn.done = false)
      (hid : w.txn.id = ownId cfg) (hsent : w.txn.sent = w.requests.length) (hfew : w.requests.length ≤ STUN_RC)
      (hdue : ∀ last, w.requests.getLast? = some last →
        w.txn.dueMs = min (last.at_ + StunTxn.intervalMs w.requests.length) U64_MAX)
      (hsoon : w.txn.dueMs ≤ w.clock + LONGEST_MS) (hrecords : records w = [])
  | ended (hcount : w.txnCount = 1) (hactive : w.txnActive = false) (hfew : w.requests.length ≤ STUN_RC)
      (hrecords : ∃ r, Grounds cfg w r ∧ ∀ bytes, bytes ∈ records w → writeStunResult r STUN_RESULT_LEN = some bytes)
      (hone : (records w).length = if cfg.resultOut then 1 else 0)

/-- What was sent, to whom and when. -/
structure Sends (cfg : StunConfig) (w : StunWorld) : Prop where
  server : w.server.map (fun a => (a.host, a.port)) = cfg.server.map fun a => (a.host, a.port)
  spaced : Spaced (w.requests.map (·.at_))
  asked : ∀ q ∈ w.requests, q.at_ ≤ w.clock ∧
    q.bytes = closed STUN_CLASS_REQUEST STUN_METHOD_BINDING (ownId cfg).1 [] ∧
    ∃ server ∈ cfg.server, q.host = server.host ∧ q.port = server.port

structure ClientInv (cfg : StunConfig) (w : StunWorld) : Prop extends Sends cfg w where
  stage : Stage cfg w

structure Asking where
  server : Option DgAuthority
  txn : StunTxn
  txnActive : Bool
  txnCount : UInt64
  requests : List Request
  records : List Bytes

def asking (w : StunWorld) : Asking := ⟨w.server, w.txn, w.txnActive, w.txnCount, w.requests, records w⟩

theorem Grounds.mono {r : StunResult} (h : Grounds cfg w r) (hrequests : w'.requests = w.requests)
    (hheard : ∀ f ∈ w.heard, f ∈ w'.heard) (hclock : w.clock ≤ w'.clock) : Grounds cfg w' r := by
  cases h with
  | timeout hr hlapsed =>
    refine .timeout hr ?_
    rw [hrequests]
    exact ⟨hlapsed.1, fun last hlast => (hlapsed.2 last hlast).trans hclock⟩
  | response ip port raw header hmem hfrom hparse hcls htxn hwhole hr =>
    exact .response ip port raw header (hheard _ hmem) hfrom hparse hcls htxn hwhole hr

theorem ClientInv.mono (h : ClientInv cfg w) (hsame : asking w' = asking w) (hheard : ∀ f ∈ w.heard, f ∈ w'.heard)
    (hclock : w.clock ≤ w'.clock) : ClientInv cfg w' := by
  simp only [asking, Asking.mk.injEq] at hsame
  obtain ⟨hserver, htxn, hactive', hcount', hrequests, hrecords'⟩ := hsame
  refine ⟨⟨by rw [hserver]; exact h.server, by rw [hrequests]; exact h.spaced, fun q hq => ?_⟩, ?_⟩
  · rw [hrequests] at hq
    obtain ⟨hat, hbytes, hto⟩ := h.asked q hq
    exact ⟨hat.trans hclock, hbytes, hto⟩
  · cases h.stage with
    | unasked hcount hactive hnone hrecords =>
      exact .unasked (hcount'.trans hcount) (hactive'.trans hactive) (hrequests.trans hnone) (hrecords'.trans hrecords)
    | asking hcount hactive hdone hid hsent hfew hdue hsoon hrecords =>
      refine .asking (hcount'.trans hcount) (hactive'.trans hactive) ?_ ?_ ?_ ?_ ?_ ?_ (hrecords'.trans hrecords)
      · rw [htxn]
        exact hdone
      · rw [htxn]
        exact hid
      · rw [htxn, hrequests]
        exact hsent
      · rw [hrequests]
        exact hfew
      · rw [htxn, hrequests]
        exact hdue
      · rw [htxn]
        exact hsoon.trans (Nat.add_le_add_right hclock _)
    | ended hcount hactive hfew hrecords hone =>
      obtain ⟨r, hr, hall⟩ := hrecords
      refine .ended (hcount'.trans hcount) (hactive'.trans hactive) (by rw [hrequests]; exact hfew)
        ⟨r, hr.mono hrequests hheard hclock, ?_⟩ (by rw [hrecords']; exact hone)
      rw [hrecords']
      exact hall

theorem records_nil : records w = [] ↔ w.results = [] ∧ w.res = none := by
  rw [records, append_eq_nil_iff, Option.toList_eq_nil_iff]

theorem Sends.finishTxn (h : Sends cfg w) (hcount : w.txnCount = 1) (hfew : w.requests.length ≤ STUN_RC)
    (hrecords : records w = []) {r : StunResult} (hr : Grounds cfg w r) : ClientInv cfg (w.finishTxn cfg r) := by
  obtain ⟨hresults, hres⟩ := records_nil.mp hrecords
  have hwrite : ∃ bytes, writeStunResult r STUN_RESULT_LEN = some bytes := ⟨_, rfl⟩
  obtain ⟨bytes, hbytes⟩ := hwrite
  unfold StunWorld.finishTxn
  dsimp only
  rw [hbytes]
  by_cases hout : cfg.resultOut = true
  · rw [if_neg (by rw [hout, hres]; decide)]
    refine ⟨⟨h.server, h.spaced, h.asked⟩,
      .ended hcount rfl hfew ⟨r, hr.mono rfl (fun _ hf => hf) le_rfl, fun b hb => ?_⟩ ?_⟩
    · rw [records, hresults] at hb
      rw [hbytes]
      exact congrArg some (mem_singleton.mp hb).symm
    · rw [records, hresults, if_pos hout]
      rfl
  · rw [if_pos (.inl (by simpa using hout))]
    refine ⟨⟨h.server, h.spaced, h.asked⟩,
      .ended hcount rfl hfew ⟨r, hr.mono rfl (fun _ hf => hf) le_rfl, fun b hb => ?_⟩ ?_⟩
    · rw [records, hresults, hres] at hb
      cases hb
    · rw [records, hresults, hres, if_neg hout]
      rfl

theorem matches_from {server : DgAuthority} (hsame : w.server.map (fun a => (a.host, a.port)) =
      cfg.server.map fun a => (a.host, a.port)) (hserver : w.server = some server) {ip : UInt32} {port : UInt16}
    (h : server.matches_ ip port = true) : FromServer cfg ip port := by
  rw [hserver, map_some] at hsame
  obtain ⟨own, hown, hpair⟩ := map_eq_some_iff.mp hsame.symm
  obtain ⟨hhost, hport⟩ := Prod.mk.inj hpair
  unfold DgAuthority.matches_ at h
  split_ifs at h with hne
  refine ⟨own, hown, (not_not.mp hne).trans hport.symm, fun addr haddr => ?_⟩
  rw [← hhost, haddr] at h
  exact of_decide_eq_true h

theorem learn_same (server : DgAuthority) (ip : UInt32) :
    ((server.learn ip).host, (server.learn ip).port) = (server.host, server.port) := by
  unfold DgAuthority.learn
  split
  · rfl
  · split_ifs <;> rfl

theorem ClientInv.clientOnResponse (h : ClientInv cfg w) {ip : UInt32} {port : UInt16} {raw : Bytes} {header : StunHeader}
    (hheard : Frame.rxFrom ip port raw ∈ w.heard) (hparse : parseStunHeader (raw.take MSG_BUF) = some header)
    (hcls : header.cls = STUN_CLASS_SUCCESS ∨ header.cls = STUN_CLASS_ERROR) :
    ClientInv cfg (w.clientOnResponse cfg header (raw.take MSG_BUF) ip port) := by
  unfold StunWorld.clientOnResponse
  split
  · exact h
  next server hserver =>
    split_ifs with harmed hmatches hid hprint
    iterate 4 exact h
    have hstage := h.stage
    rw [not_or] at harmed
    cases hstage with
    | unasked hcount hactive => exact absurd (by rw [hactive]; rfl) harmed.1
    | ended hcount hactive => exact absurd (by rw [hactive]; rfl) harmed.1
    | asking hcount hactive hdone hid' hsent hfew hdue hsoon hrecords =>
      have haccept : w.txn.accept = some { w.txn with done := true } := by
        unfold StunTxn.accept
        rw [hdone]
        rfl
      have hgrounds : Grounds cfg w (responseResult (raw.take MSG_BUF) header) := by
        refine .response ip port raw header hheard (matches_from h.server hserver (by simpa using hmatches)) hparse hcls ?_
          (by simpa using hprint) rfl
        rw [← hid']
        exact StunTxn.matches_iff.mp (by simpa using hid)
      dsimp only
      rw [haccept]
      dsimp only
      refine Sends.finishTxn (w := { w with server := some (server.learn ip), txn := { w.txn with done := true } })
        ⟨?_, h.spaced, h.asked⟩ hcount hfew hrecords (hgrounds.mono rfl (fun _ hf => hf) le_rfl)
      rw [← h.server, hserver, map_some, map_some]
      exact congrArg some (learn_same server ip)

theorem owe_frame (w : StunWorld) (message : Option Bytes) (ip : UInt32) (port : UInt16) :
    ∃ reply, w.owe message ip port = { w with reply := reply } := by
  cases message <;> exact ⟨_, rfl⟩

theorem ClientInv.onFrame (h : ClientInv cfg w) {f : Frame} (hheard : f ∈ w.heard) : ClientInv cfg (w.onFrame cfg f) := by
  have howe : ∀ message ip port, ClientInv cfg (w.owe message ip port) := fun message ip port => by
    obtain ⟨reply, hsame⟩ := owe_frame w message ip port
    rw [hsame]
    exact h.mono rfl (fun _ hf => hf) le_rfl
  cases f with
  | bound ep port => exact h
  | other => exact h
  | rxFrom ip port raw =>
    unfold StunWorld.onFrame StunWorld.onDatagram
    dsimp only
    split
    · exact h
    next header hparse =>
      split_ifs with hcls
      · exact h.clientOnResponse hheard hparse hcls
      · exact h
      · exact h
      · exact howe _ _ _
      · exact h
      · split <;> exact howe _ _ _

theorem ClientInv.pump (h : ClientInv cfg w) : ClientInv cfg (w.pump cfg) := by
  unfold StunWorld.pump
  split_ifs
  · exact h
  · split
    · exact h
    next f rest _ =>
      refine ClientInv.onFrame (w := { w with netIn := rest, heard := w.heard ++ [f] }) ?_
        (mem_append_right _ (mem_singleton_self f))
      exact h.mono rfl (fun _ hf => mem_append_left _ hf) le_rfl

theorem intervalMs_le (sent : Nat) : StunTxn.intervalMs sent ≤ LONGEST_MS := by
  unfold StunTxn.intervalMs
  split_ifs with hlast
  · decide
  · have hfew : min (sent - 1) 16 ≤ 5 := by
      unfold STUN_RC at hlast
      omega
    exact (Nat.min_le_left _ _).trans (Nat.mul_le_mul_left 500 (Nat.pow_le_pow_right (by decide) hfew))

theorem Spaced.concat {times : List Nat} (h : Spaced times) {now : Nat}
    (hlast : ∀ last, times.getLast? = some last → min (last + StunTxn.intervalMs times.length) U64_MAX ≤ now) :
    Spaced (times ++ [now]) := by
  intro k a b ha hb
  have hk : k + 1 < (times ++ [now]).length := (List.getElem?_eq_some_iff.mp hb).1
  rw [length_append, length_singleton] at hk
  rcases Nat.lt_or_ge (k + 1) times.length with hlt | hge
  · rw [List.getElem?_append_left (by omega)] at ha hb
    exact h k a b ha hb
  · have hlen : times.length = k + 1 := by omega
    rw [List.getElem?_append_left (by omega)] at ha
    rw [List.getElem?_append_right hge, hlen, Nat.sub_self] at hb
    cases hb
    rw [← hlen]
    refine hlast a ?_
    rw [List.getLast?_eq_getElem?, hlen]
    exact ha

theorem ClientInv.startTxn (h : ClientInv cfg w) (hfree : w.txnActive = true ∨ w.txnCount = 0) {now : Nat}
    (hnow : now ≤ w.clock) : ClientInv cfg (w.startTxn cfg now) ∧ (w.startTxn cfg now).txnActive = true ∧
      (w.startTxn cfg now).server = w.server ∧ (w.startTxn cfg now).clock = w.clock := by
  unfold StunWorld.startTxn
  by_cases hactive : w.txnActive = true
  · rw [if_pos hactive]
    exact ⟨h, hactive, rfl, rfl⟩
  · have hzero : w.txnCount = 0 := hfree.resolve_left hactive
    rw [if_neg hactive, hzero]
    refine ⟨⟨⟨h.server, h.spaced, h.asked⟩, ?_⟩, rfl, rfl, rfl⟩
    cases h.stage with
    | unasked hcount hactive' hnone hrecords =>
      refine .asking rfl rfl rfl rfl ?_ ?_ ?_ (hnow.trans (Nat.le_add_right _ _)) hrecords
      · exact (congrArg List.length hnone).symm
      · dsimp only
        rw [hnone]
        exact Nat.zero_le _
      · dsimp only
        rw [hnone]
        rintro _ ⟨⟩
    | asking hcount hactive' => exact absurd hactive' hactive
    | ended hcount => exact absurd (hcount.symm.trans hzero) (by decide)

theorem ClientInv.driveTxn (h : ClientInv cfg w) (hactive : w.txnActive = true) {server : DgAuthority}
    (hserver : w.server = some server) (hnow : t.now ≤ w.clock) : ClientInv cfg (w.driveTxn cfg server t) := by
  cases h.stage with
  | unasked hcount hactive' => exact absurd (hactive.symm.trans hactive') (by decide)
  | ended hcount hactive' => exact absurd (hactive.symm.trans hactive') (by decide)
  | asking hcount hactive' hdone hid hsent hfew hdue hsoon hrecords =>
    have hlast : ∀ last, (w.requests.map (·.at_)).getLast? = some last → w.txn.dueMs ≤ t.now →
        min (last + StunTxn.intervalMs w.requests.length) U64_MAX ≤ t.now := by
      intro last hlast hle
      rw [List.getLast?_map] at hlast
      obtain ⟨q, hq, rfl⟩ := map_eq_some_iff.mp hlast
      rw [← hdue q hq]
      exact hle
    unfold StunWorld.driveTxn StunTxn.poll
    rw [if_neg (by rw [hdone]; decide)]
    by_cases hearly : t.now < w.txn.dueMs
    · rw [if_pos hearly]
      exact h
    have hle : w.txn.dueMs ≤ t.now := Nat.not_lt.mp hearly
    rw [if_neg hearly]
    by_cases hover : w.txn.sent ≥ STUN_RC
    · -- the last wait is over
      have hseven : w.requests.length = STUN_RC := Nat.le_antisymm hfew (hsent ▸ hover)
      rw [if_pos hover]
      refine h.toSends.finishTxn hcount hfew hrecords (.timeout rfl ⟨by rw [length_map]; exact hseven, ?_⟩)
      intro last hq
      have hdue' := hlast last hq hle
      rw [hseven, StunTxn.intervalMs, if_pos le_rfl] at hdue'
      exact hdue'.trans hnow
    rw [if_neg hover]
    dsimp only
    rw [requestMessage_eq]
    dsimp only
    split_ifs
    · have hlen : ∀ q : Request, (w.requests ++ [q]).length = w.requests.length + 1 := fun _ => length_append
      have hone : w.txn.sentAt t.now =
          { w.txn with sent := w.txn.sent + 1, dueMs := min (t.now + StunTxn.intervalMs (w.txn.sent + 1)) U64_MAX } := by
        unfold StunTxn.sentAt
        rw [if_neg]
        rw [hdone, not_or]
        exact ⟨false_ne_true, hover⟩
      refine ⟨⟨h.server, ?_, fun q hq => ?_⟩, .asking hcount hactive' ?_ ?_ ?_ ?_ ?_ ?_ hrecords⟩
      · dsimp only
        rw [map_append]
        refine h.spaced.concat fun last hq => ?_
        rw [length_map]
        exact hlast last hq hle
      · rcases mem_append.mp hq with hold | hnew
        · exact h.asked q hold
        · cases mem_singleton.mp hnew
          refine ⟨hnow, by rw [hid], ?_⟩
          have hsame := h.server
          rw [hserver, map_some] at hsame
          obtain ⟨own, hown, hpair⟩ := map_eq_some_iff.mp hsame.symm
          obtain ⟨hhost, hport⟩ := Prod.mk.inj hpair
          exact ⟨own, hown, hhost.symm, hport.symm⟩
      · rw [hone]
        exact hdone
      · rw [hone]
        exact hid
      · rw [hone, hlen, ← hsent]
      · rw [hlen]
        omega
      · intro last hq
        rw [List.getLast?_concat] at hq
        cases hq
        rw [hone, hlen, ← hsent]
      · rw [hone]
        exact (Nat.min_le_left _ _).trans (Nat.add_le_add hnow (intervalMs_le _))
    · exact h

theorem ClientInv.pumpClient (h : ClientInv cfg w) (hnow : t.now ≤ w.clock) : ClientInv cfg (w.pumpClient cfg t) := by
  unfold StunWorld.pumpClient
  split
  · exact h
  next server hserver =>
    split_ifs with harmed hres hfree
    iterate 3 exact h
    have hstart : w.txnActive = true ∨ w.txnCount = 0 := by
      by_cases hactive : w.txnActive = true
      · exact .inl hactive
      · refine .inr (by_contra fun hcount => hfree ⟨by simpa using hactive, .inr hcount⟩)
    obtain ⟨hnext, hactive, hserver', hclock⟩ := h.startTxn hstart hnow
    exact hnext.driveTxn hactive (hserver'.trans hserver) (hclock ▸ hnow)

theorem ensureBound_frame (t : Turn) : ∃ bound epId netIn early,
    (w.ensureBound cfg t).1 = { w with bound := bound, epId := epId, netIn := netIn, early := early } := by
  unfold StunWorld.ensureBound
  split_ifs
  · exact ⟨_, _, _, _, rfl⟩
  · split
    · exact ⟨_, _, _, _, rfl⟩
    · dsimp only
      split
      · split_ifs <;> exact ⟨_, _, _, _, rfl⟩
      · exact ⟨_, _, _, _, rfl⟩
  · exact ⟨_, _, _, _, rfl⟩

theorem flushReply_frame (w : StunWorld) (t : Turn) :
    ∃ reply replies, w.flushReply t = { w with reply := reply, replies := replies } := by
  unfold StunWorld.flushReply
  split
  · exact ⟨_, _, rfl⟩
  · split_ifs <;> exact ⟨_, _, rfl⟩

theorem ClientInv.flushReply (h : ClientInv cfg w) (t : Turn) :
    ClientInv cfg (w.flushReply t) ∧ (w.flushReply t).clock = w.clock := by
  obtain ⟨reply, replies, hsame⟩ := flushReply_frame w t
  rw [hsame]
  exact ⟨h.mono rfl (fun _ hf => hf) le_rfl, rfl⟩

theorem ClientInv.flushResult (h : ClientInv cfg w) (t : Turn) : ClientInv cfg (w.flushResult t) := by
  unfold StunWorld.flushResult
  split
  · exact h
  next r hr =>
    split_ifs
    · refine h.mono ?_ (fun _ hf => hf) le_rfl
      rw [asking, asking, records, records, hr, Option.toList_some, Option.toList_none, append_nil]
    · exact h

theorem pump_kept : (w.pump cfg).clock = w.clock ∧ (w.pump cfg).draining = w.draining ∧
    (w.pump cfg).epId = w.epId := by
  unfold StunWorld.pump
  split_ifs
  · exact ⟨rfl, rfl, rfl⟩
  · split
    · exact ⟨rfl, rfl, rfl⟩
    · exact onFrame_kept _

theorem ClientInv.turn (h : ClientInv cfg w) (ev : StunEvent) : ClientInv cfg (turn cfg w ev) := by
  cases ev with
  | arrive f => exact h.mono rfl (fun _ hf => hf) le_rfl
  | drain => exact h.mono rfl (fun _ hf => hf) le_rfl
  | step t =>
    change ClientInv cfg (w.moduleStep cfg t)
    unfold StunWorld.moduleStep
    dsimp only
    have hclock : ClientInv cfg { w with clock := max w.clock t.now } :=
      h.mono rfl (fun _ hf => hf) (Nat.le_max_left _ _)
    split_ifs with hknown
    · obtain ⟨bound, epId, netIn, early, hsame⟩ := @ensureBound_frame cfg { w with clock := max w.clock t.now } t
      rw [hsame]
      exact hclock.mono rfl (fun _ hf => hf) le_rfl
    · obtain ⟨hsame, -⟩ := ensureBound_known (by simpa using hknown)
      rw [hsame]
      obtain ⟨hflush, htime⟩ := hclock.pump.flushReply t
      refine (hflush.pumpClient ?_).flushResult t
      rw [htime, pump_kept.1]
      exact Nat.le_max_right _ _

theorem client_inv (cfg : StunConfig) (evs : List StunEvent) : ClientInv cfg ((machine cfg).run (start cfg) evs).1 :=
  (machine cfg).run_invariant (P := fun _ _ => True) (fun _ ev h _ => h.turn ev)
    ⟨⟨rfl, fun _ _ _ hnow => absurd hnow.symm (some_ne_none _), forall_mem_nil _⟩, .unasked rfl rfl rfl rfl⟩
    ((machine cfg).along_of_forall (fun _ _ => trivial) _ _)

/-- Transmissions that wait their intervals are as far behind the first as the doubling makes them. -/
theorem Spaced.earliest {times : List Nat} (h : Spaced times) (hlen : times.length ≤ STUN_RC) {first : Nat}
    (hfirst : times[0]? = some first) {k now : Nat} (hk : times[k]? = some now) :
    min (first + STUN_RTO_MS * (2 ^ k - 1)) U64_MAX ≤ now := by
  induction k generalizing now with
  | zero =>
    cases hfirst.symm.trans hk
    exact Nat.min_le_left _ _
  | succ k ih =>
    have hlt : k + 1 < times.length := (List.getElem?_eq_some_iff.mp hk).1
    obtain ⟨before, hbefore⟩ : ∃ before, times[k]? = some before := ⟨_, List.getElem?_eq_getElem (by omega)⟩
    have hlow := ih hbefore
    have hnext := h k before now hbefore hk
    have hinterval : StunTxn.intervalMs (k + 1) = STUN_RTO_MS * 2 ^ k := by
      have hpow : (2 : Nat) ^ k ≤ 2 ^ 16 := Nat.pow_le_pow_right (by decide) (by unfold STUN_RC at hlen; omega)
      unfold StunTxn.intervalMs
      rw [if_neg (by omega), Nat.add_sub_cancel, Nat.min_eq_left (a := k) (by unfold STUN_RC at hlen; omega),
        Nat.min_eq_left]
      unfold STUN_RTO_MS U64_MAX
      omega
    rw [hinterval] at hnext
    have hpos : 1 ≤ 2 ^ k := Nat.one_le_two_pow
    have hdouble : (2 : Nat) ^ (k + 1) = 2 * 2 ^ k := by rw [Nat.pow_succ, Nat.mul_comm]
    rw [hdouble]
    unfold STUN_RTO_MS at hlow hnext ⊢
    omega

theorem responseResult_status (data : Bytes) (header : StunHeader) :
    (responseResult data header).status ≠ STUN_RES_TIMEOUT := by
  have hother : ∀ status, status = STUN_RES_OK ∨ status = STUN_RES_ERROR ∨ status = STUN_RES_NO_ADDRESS →
      status ≠ STUN_RES_TIMEOUT := by
    rintro status (rfl | rfl | rfl) <;> decide
  unfold responseResult
  split_ifs
  · exact hother _ (.inr (.inl rfl))
  · split
    · exact hother _ (.inr (.inr rfl))
    · split_ifs
      · exact hother _ (.inr (.inr rfl))
      · exact hother _ (.inl rfl)

theorem ClientInv.grounds (h : ClientInv cfg w) {bytes : Bytes} (hbytes : bytes ∈ records w) :
    ∃ r, parseStunResult bytes = some r ∧ Grounds cfg w r := by
  cases h.stage with
  | unasked hcount hactive hnone hrecords =>
    rw [hrecords] at hbytes
    cases hbytes
  | asking hcount hactive hdone hid hsent hfew hdue hsoon hrecords =>
    rw [hrecords] at hbytes
    cases hbytes
  | ended hcount hactive hfew hrecords hone =>
    obtain ⟨r, hr, hall⟩ := hrecords
    exact ⟨r, parse_writeStunResult (hall bytes hbytes), hr⟩

/-- At most seven transmissions of one request to its server, each in its time. Its transaction is reported once, when
it ends: as timed out, or as a whole response from its server says. -/
theorem client_asks_once (cfg : StunConfig) (evs : List StunEvent) :
    let w := ((machine cfg).run (start cfg) evs).1
    (w.requests.length ≤ STUN_RC ∧
      (∀ q ∈ w.requests, (∃ server ∈ cfg.server, q.host = server.host ∧ q.port = server.port) ∧
        parseStunHeader q.bytes = some ⟨STUN_CLASS_REQUEST, STUN_METHOD_BINDING, 8, (ownId cfg).1⟩ ∧
        verifyFingerprint q.bytes ⟨STUN_CLASS_REQUEST, STUN_METHOD_BINDING, 8, (ownId cfg).1⟩ = true) ∧
      ∀ k first q, w.requests[0]? = some first → w.requests[k]? = some q →
        min (first.at_ + STUN_RTO_MS * (2 ^ k - 1)) U64_MAX ≤ q.at_) ∧
      (records w).length ≤ 1 ∧
      (w.txnCount = 1 → w.txnActive = false → (records w).length = if cfg.resultOut then 1 else 0) ∧
      ∀ bytes ∈ records w, ∃ r, parseStunResult bytes = some r ∧ Grounds cfg w r ∧
        (r.status = STUN_RES_TIMEOUT → w.requests.length = STUN_RC ∧
          ∀ first, w.requests[0]? = some first → min (first.at_ + 39500) U64_MAX ≤ w.clock) := by
  intro w
  have h : ClientInv cfg w := client_inv cfg evs
  have hfew : w.requests.length ≤ STUN_RC := by
    cases h.stage with
    | unasked hcount hactive hnone hrecords =>
      rw [hnone]
      exact Nat.zero_le _
    | asking hcount hactive hdone hid hsent hfew hdue hsoon hrecords => exact hfew
    | ended hcount hactive hfew hrecords hone => exact hfew
  have htimes : (w.requests.map (·.at_)).length ≤ STUN_RC := by
    rw [length_map]
    exact hfew
  have hearliest : ∀ (k : Nat) (first q : Request), w.requests[0]? = some first → w.requests[k]? = some q →
      min (first.at_ + STUN_RTO_MS * (2 ^ k - 1)) U64_MAX ≤ q.at_ := fun k first q hfirst hq =>
    h.spaced.earliest htimes (by rw [List.getElem?_map, hfirst]; rfl) (by rw [List.getElem?_map, hq]; rfl)
  refine ⟨⟨hfew, fun q hq => ?_, hearliest⟩, ?_, ?_, ?_⟩
  · obtain ⟨-, hbytes, hto⟩ := h.asked q hq
    obtain ⟨hparse, -, hverify⟩ := closed_read (show STUN_CLASS_REQUEST < 4 by decide)
      (show STUN_METHOD_BINDING < 4096 by decide) (ownId cfg).2
      (show (listed []).length + 8 ≤ U16_MAX by decide) (forall_mem_nil _)
    rw [hbytes]
    exact ⟨hto, hparse, hverify⟩
  · cases h.stage with
    | unasked hcount hactive hnone hrecords =>
      rw [hrecords]
      exact Nat.zero_le _
    | asking hcount hactive hdone hid hsent hfew hdue hsoon hrecords =>
      rw [hrecords]
      exact Nat.zero_le _
    | ended hcount hactive hfew hrecords hone =>
      rw [hone]
      split_ifs <;> decide
  · intro hcount hactive
    cases h.stage with
    | unasked hcount' => exact absurd (hcount'.symm.trans hcount) (by decide)
    | asking hcount' hactive' => exact absurd (hactive'.symm.trans hactive) (by decide)
    | ended hcount' hactive' hfew hrecords hone => exact hone
  · intro bytes hbytes
    obtain ⟨r, hr, hgrounds⟩ := h.grounds hbytes
    refine ⟨r, hr, hgrounds, fun hstatus => ?_⟩
    cases hgrounds with
    | response ip port raw header hmem hfrom hparse hcls htxn hwhole hr =>
      rw [hr] at hstatus
      exact absurd hstatus (responseResult_status _ _)
    | timeout hr hlapsed =>
      obtain ⟨hseven, hlast⟩ := hlapsed
      rw [length_map] at hseven
      refine ⟨hseven, fun first hfirst => ?_⟩
      obtain ⟨last, hat⟩ : ∃ last, w.requests[6]? = some last :=
        ⟨_, List.getElem?_eq_getElem (by rw [hseven]; decide)⟩
      have hlow := hearliest 6 first last hfirst hat
      have hwait := hlast last.at_ (by
        rw [List.getLast?_map, List.getLast?_eq_getElem?, hseven]
        exact congrArg (Option.map _) hat)
      unfold STUN_RM STUN_RTO_MS at hwait
      unfold STUN_RTO_MS at hlow
      omega

end Wave.Stun
