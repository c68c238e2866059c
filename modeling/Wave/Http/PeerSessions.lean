import Wave.Http.Slots
import Wave.Lib.Machine

/-! # Whose fingerprint a request carries

The peer table follows a channel that is not ordered with accepts and closes. `World` adds which session holds
a slot and which record was read for it. -/

namespace Wave.Http

open Lib
open Function (update update_eq_self update_self update_of_ne)

variable {p : Profile} {conn : UInt16}

variable {w : World} {ses : Session}

theorem forgetPeer_cons (e : PeerEntry) (es : List PeerEntry) (conn : UInt16) :
    forgetPeer (e :: es) conn =
      (if e.connId = some conn then {} else e) :: forgetPeer es conn := rfl

theorem peerSvid_cons (e : PeerEntry) (es : List PeerEntry) (conn : UInt16) :
    peerSvid (e :: es) conn =
      if e.connId = some conn ∧ e.svid ≠ [] then some e.svid else peerSvid es conn := by
  unfold peerSvid
  by_cases hc : e.connId = some conn
  · by_cases hs : e.svid = [] <;> simp [hc, hs]
  · simp [hc]

theorem peerBound_cons (e : PeerEntry) (es : List PeerEntry) (conn : UInt16) :
    peerBound (e :: es) conn = (decide (e.connId = some conn) || peerBound es conn) := rfl

theorem peerBound_forgetPeer (peers : List PeerEntry) (conn c : UInt16) :
    peerBound (forgetPeer peers conn) c = (decide (c ≠ conn) && peerBound peers c) := by
  induction peers with
  | nil => simp [forgetPeer, peerBound]
  | cons e es ih =>
    rw [forgetPeer_cons, peerBound_cons, peerBound_cons, ih]
    by_cases he : e.connId = some conn
    · by_cases hc : c = conn
      · simp [he, hc]
      · simp [he, hc, Ne.symm hc]
    · by_cases hc : c = conn
      · simp [hc, he]
      · simp [he, hc]

theorem peerSvid_of_not_bound {peers : List PeerEntry} (h : peerBound peers conn = false) : peerSvid peers conn = none := by
  induction peers with
  | nil => rfl
  | cons e es ih =>
    rw [peerBound_cons, or_eq_false_iff, decide_eq_false_iff_not] at h
    rw [peerSvid_cons, if_neg (fun hc => h.1 hc.1), ih h.2]

theorem peerSvid_forgetPeer (peers : List PeerEntry) {conn c : UInt16} (h : c ≠ conn) :
    peerSvid (forgetPeer peers conn) c = peerSvid peers c := by
  induction peers with
  | nil => rfl
  | cons e es ih =>
    rw [forgetPeer_cons, peerSvid_cons, peerSvid_cons, ih]
    by_cases he : e.connId = some conn
    · simp [he, Ne.symm h]
    · simp [he]

theorem bindFirstFree_isSome {peers : List PeerEntry} (entry : PeerEntry)
    (h : ∃ e ∈ peers, e.connId = none) : ∃ peers', bindFirstFree entry peers = some peers' := by
  induction peers with
  | nil => obtain ⟨e, he, -⟩ := h; cases he
  | cons e es ih =>
    rw [bindFirstFree]
    cases hc : e.connId with
    | none => exact ⟨_, rfl⟩
    | some c =>
      obtain ⟨e', he', hfree⟩ := h
      rcases mem_cons.mp he' with rfl | he'
      · rw [hc] at hfree; cases hfree
      · obtain ⟨peers', hp⟩ := ih ⟨e', he', hfree⟩
        exact ⟨e :: peers', by simp [hp]⟩

theorem bindFirstFree_spec {peers peers' : List PeerEntry} {fp : Bytes}
    (hb : bindFirstFree { connId := some conn, svid := fp } peers = some peers')
    (hfree : peerBound peers conn = false) (hfp : fp ≠ []) (c : UInt16) :
    peerSvid peers' c = (if c = conn then some fp else peerSvid peers c) ∧
      peerBound peers' c = (decide (c = conn) || peerBound peers c) := by
  induction peers generalizing peers' with
  | nil => cases hb
  | cons e es ih =>
    rw [bindFirstFree] at hb
    rw [peerBound_cons, or_eq_false_iff, decide_eq_false_iff_not] at hfree
    cases hc : e.connId with
    | none =>
      rw [hc] at hb
      obtain rfl := Option.some.inj hb
      rw [peerSvid_cons, peerSvid_cons, peerBound_cons, peerBound_cons, hc]
      by_cases h : c = conn
      · simp [h, hfp]
      · simp [h, Ne.symm h]
    | some c' =>
      rw [hc, Option.isSome_some, if_pos rfl, map_eq_some_iff] at hb
      obtain ⟨rest, hrest, rfl⟩ := hb
      obtain ⟨hsvid, hbound⟩ := ih hrest hfree.2
      rw [peerSvid_cons, peerSvid_cons, peerBound_cons, peerBound_cons, hsvid, hbound]
      by_cases h : c = conn
      · subst h
        simp [hfree.1]
      · simp [h]

/-- A record that fits and finds room is what its connection's lookup gives, and
no other connection's lookup changes. -/
theorem notePeerIdentity_spec {peers : List PeerEntry} {fingerprint : Option Bytes}
    (hfits : ∀ fp, fingerprint = some fp → fp ≠ [] ∧ fp.length ≤ p.maxPeerSvid ∧
      ∃ e ∈ peers, e.connId = none ∨ e.connId = some conn) (c : UInt16) :
    let peers' := (notePeerIdentity p peers conn fingerprint).1
    peerSvid peers' c = (if c = conn then fingerprint else peerSvid peers c) ∧
      (c ≠ conn → peerBound peers' c = peerBound peers c) := by
  intro peers'
  have hgone : peerBound (forgetPeer peers conn) conn = false := by
    simp [peerBound_forgetPeer]
  cases fingerprint with
  | none =>
    show peerSvid (forgetPeer peers conn) c = _ ∧ (_ → peerBound (forgetPeer peers conn) c = _)
    by_cases h : c = conn
    · subst h
      exact ⟨by rw [if_pos rfl, peerSvid_of_not_bound hgone], fun hne => absurd rfl hne⟩
    · exact ⟨by rw [if_neg h, peerSvid_forgetPeer _ h], by simp [peerBound_forgetPeer, h]⟩
  | some fp =>
    obtain ⟨hne, hlen, e, he, hfree⟩ := hfits fp rfl
    have hroom : ∃ e' ∈ forgetPeer peers conn, e'.connId = none := by
      refine ⟨_, mem_map.mpr ⟨e, he, rfl⟩, ?_⟩
      rcases hfree with hfree | hfree <;> simp [hfree]
    obtain ⟨bound, hbind⟩ := bindFirstFree_isSome ⟨some conn, fp⟩ hroom
    have hpeers : peers' = bound := by
      simp only [peers', notePeerIdentity, if_neg (Nat.not_lt.mpr hlen), hbind]
    obtain ⟨hsvid, hb⟩ := bindFirstFree_spec hbind hgone hne c
    rw [hpeers, hsvid, hb]
    by_cases h : c = conn
    · simp [h]
    · simp [h, peerSvid_forgetPeer _ h, peerBound_forgetPeer]

/-- One TLS session. The transport gives its connection id to another session
once it is over. -/
structure Session where
  id : Nat
  conn : UInt16
deriving DecidableEq

/-- How far the server has seen a session: nothing of it, a record before its
accept, a slot, or its refusal or release. -/
inductive Life where
  | unseen
  | pending
  | opened
  | ended
deriving DecidableEq

def Life.live : Life → Bool
  | .pending | .opened => true
  | _ => false

structure World where
  server : Server
  holder : Nat → Option Session := fun _ => none
  recorded : Session → Option Bytes := fun _ => none
  life : Session → Life := fun _ => .unseen

def World.init (p : Profile) : World := { server := Server.init p }

inductive PeerEvent where
  /-- A `peer_identity` record, with the fingerprint the contract vouches for. -/
  | record (ses : Session) (fingerprint : Option Bytes)
  /-- A `MSG_ACCEPTED`; `ours` when it names one of this server's listeners. -/
  | accepted (ses : Session) (ours : Bool) (nowMs : Nat) (heap : Bool)
  /-- A `MSG_CLOSED` or an untagged `MSG_ERROR`. -/
  | closed (conn : UInt16)
  | work (idx : Nat) (slot : ConnSlot)
  | reset (idx : Nat)
  | bound
  | drain

def World.endAt (w : World) (idx : Nat) : World :=
  { w with
    life := match w.holder idx with
      | some t => update w.life t .ended
      | none => w.life
    holder := update w.holder idx none }

def peerStep (p : Profile) (w : World) : PeerEvent → World × List NetCmd
  | .record ses fingerprint =>
    ({ w with
      server := { w.server with
        peers := (notePeerIdentity p w.server.peers ses.conn fingerprint).1 }
      recorded := update w.recorded ses fingerprint
      life := update w.life ses (if w.life ses = .unseen then .pending else w.life ses) },
      [])
  | .accepted ses ours nowMs heap =>
    if !ours then ({ w with life := update w.life ses .ended }, [])
    else
      let (server, cmds, slot) := acceptConn w.server ses.conn nowMs heap
      let w' := match chosenSlot w.server with
        | some i => w.endAt i
        | none => w
      match slot with
      | some i =>
        ({ w' with
          server
          holder := update w'.holder i (some ses)
          life := update w'.life ses .opened }, cmds)
      | none => ({ w' with server, life := update w'.life ses .ended }, cmds)
  | .closed conn =>
    match findSlotByConnId w.server.slots conn with
    | some i =>
      let c := w.server.slots.getD i {}
      ({ w with server := { w.server with slots := w.server.slots.set i { c with peerClosed := true } } },
        [])
    | none => (w, [])
  | .work idx slot =>
    let c := w.server.slots.getD idx {}
    ({ w with server := { w.server with slots := w.server.slots.set idx { slot with connId := c.connId } } },
      [])
  | .reset idx =>
    let r := resetConnection w.server idx
    ({ w.endAt idx with server := r.1 }, r.2)
  | .bound => ({ w with server := { w.server with bound := true } }, [])
  | .drain => ({ w with server := { w.server with draining := true } }, [])

def peerMachine (p : Profile) : Machine World PeerEvent NetCmd := ⟨peerStep p⟩

def World.soleHolder (w : World) (ses : Session) : Prop :=
  ∀ t, t ≠ ses → t.conn = ses.conn → (w.life t).live = false

/-- The accept gets no slot: it is another server's, or a drain, a full table or
an exhausted arena turns it away. -/
def refusesAccept (s : Server) (ours heap : Bool) : Bool :=
  !ours || (chosenSlot s).isNone || !heap

def PeerStepOk (p : Profile) (w : World) : PeerEvent → Prop
  | .record ses fingerprint =>
    w.life ses ≠ .ended ∧ w.soleHolder ses ∧
      ∀ fp, fingerprint = some fp → fp ≠ [] ∧ fp.length ≤ p.maxPeerSvid ∧
        ∃ e ∈ w.server.peers, e.connId = none ∨ e.connId = some ses.conn
  | .accepted ses ours _ heap =>
    (w.life ses = .unseen ∨ w.life ses = .pending) ∧ w.soleHolder ses ∧
      (refusesAccept w.server ours heap = true → peerBound w.server.peers ses.conn = false)
  | _ => True

/-- The table holds the last record of each session under way, under an id of its own, and nothing else. -/
structure TableInv (peers : List PeerEntry) (recorded : Session → Option Bytes)
    (life : Session → Life) : Prop where
  sole : ∀ t u, (life t).live = true → (life u).live = true → t.conn = u.conn → t = u
  svid : ∀ t, (life t).live = true → peerSvid peers t.conn = recorded t
  stray : ∀ c, (∀ t, (life t).live = true → t.conn ≠ c) → peerBound peers c = false
  unseen : ∀ t, life t = .unseen → recorded t = none

section TableInv

variable {peers peers' : List PeerEntry} {recorded recorded' : Session → Option Bytes}
  {life : Session → Life} {ses : Session}

def OthersKept (peers peers' : List PeerEntry) (conn : UInt16) : Prop :=
  ∀ c, c ≠ conn → peerSvid peers' c = peerSvid peers c ∧ peerBound peers' c = peerBound peers c

theorem OthersKept.refl (peers : List PeerEntry) (conn : UInt16) : OthersKept peers peers conn :=
  fun _ _ => ⟨rfl, rfl⟩

theorem othersKept_forgetPeer (peers : List PeerEntry) (conn : UInt16) :
    OthersKept peers (forgetPeer peers conn) conn :=
  fun c hc => ⟨peerSvid_forgetPeer peers hc, by simp [peerBound_forgetPeer, hc]⟩

theorem conn_ne_of_live (hsole : ∀ t, t ≠ ses → t.conn = ses.conn → (life t).live = false)
    {t : Session} (hne : t ≠ ses) (ht : (life t).live = true) : t.conn ≠ ses.conn := by
  intro heq
  rw [hsole t hne heq] at ht
  cases ht

theorem TableInv.revive (h : TableInv peers recorded life)
    (hsole : ∀ t, t ≠ ses → t.conn = ses.conn → (life t).live = false) {l : Life}
    (hl : l.live = true) (hkept : OthersKept peers peers' ses.conn)
    (hself : peerSvid peers' ses.conn = recorded' ses)
    (hrec : ∀ t, t ≠ ses → recorded' t = recorded t) :
    TableInv peers' recorded' (update life ses l) where
  sole t u ht hu hconn := by
    by_cases hts : t = ses
    · by_cases hus : u = ses
      · rw [hts, hus]
      · rw [update_of_ne hus] at hu
        exact absurd (hconn.symm.trans (congrArg _ hts)) (conn_ne_of_live hsole hus hu)
    · rw [update_of_ne hts] at ht
      by_cases hus : u = ses
      · exact absurd (hconn.trans (congrArg _ hus)) (conn_ne_of_live hsole hts ht)
      · rw [update_of_ne hus] at hu
        exact h.sole t u ht hu hconn
  svid t ht := by
    by_cases hts : t = ses
    · rw [hts, hself]
    · rw [update_of_ne hts] at ht
      rw [(hkept _ (conn_ne_of_live hsole hts ht)).1, h.svid t ht, hrec t hts]
  stray c hc := by
    have hne : c ≠ ses.conn := by
      intro heq
      exact hc ses (by rw [update_self]; exact hl) heq.symm
    rw [(hkept c hne).2]
    refine h.stray c fun t ht => ?_
    by_cases hts : t = ses
    · exact fun heq => hne (heq.symm.trans (congrArg _ hts))
    · exact hc t (by rw [update_of_ne hts]; exact ht)
  unseen t ht := by
    by_cases hts : t = ses
    · rw [hts, update_self] at ht
      rw [ht] at hl
      cases hl
    · rw [update_of_ne hts] at ht
      rw [hrec t hts, h.unseen t ht]

theorem TableInv.finish (h : TableInv peers recorded life)
    (hsole : ∀ t, t ≠ ses → t.conn = ses.conn → (life t).live = false)
    (hkept : OthersKept peers peers' ses.conn) (hgone : peerBound peers' ses.conn = false) :
    TableInv peers' recorded (update life ses .ended) := by
  have hold {t : Session} (ht : (update life ses .ended t).live = true) :
      t ≠ ses ∧ (life t).live = true := by
    by_cases hts : t = ses
    · rw [hts, update_self] at ht
      cases ht
    · rw [update_of_ne hts] at ht
      exact ⟨hts, ht⟩
  refine ⟨?_, ?_, ?_, ?_⟩
  · intro t u ht hu hconn
    exact h.sole t u (hold ht).2 (hold hu).2 hconn
  · intro t ht
    obtain ⟨hts, ht⟩ := hold ht
    rw [(hkept _ (conn_ne_of_live hsole hts ht)).1, h.svid t ht]
  · intro c hc
    by_cases hne : c = ses.conn
    · rw [hne, hgone]
    · rw [(hkept c hne).2]
      refine h.stray c fun t ht => ?_
      by_cases hts : t = ses
      · exact fun heq => hne (heq.symm.trans (congrArg _ hts))
      · exact hc t (by rw [update_of_ne hts]; exact ht)
  · intro t ht
    by_cases hts : t = ses
    · rw [hts, update_self] at ht
      cases ht
    · rw [update_of_ne hts] at ht
      exact h.unseen t ht

end TableInv

structure PeerInv (w : World) : Prop where
  slots : ∀ i, (w.server.slots.getD i {}).connId = (w.holder i).map (·.conn)
  opened : ∀ i t, w.holder i = some t → w.life t = .opened
  inj : ∀ i j t, w.holder i = some t → w.holder j = some t → i = j
  table : TableInv w.server.peers w.recorded w.life

theorem peerInv_init (p : Profile) : PeerInv (World.init p) where
  slots i := by
    have hfree : (Server.init p).slots.getD i {} = {} := by
      simp only [Server.init, List.getD_eq_getElem?_getD, List.getElem?_replicate]
      split <;> rfl
    exact congrArg ConnSlot.connId hfree
  opened i t h := by cases h
  inj i j t h := by cases h
  table :=
    { sole := fun t u h => by cases h
      svid := fun t h => by cases h
      stray := fun c _ => by
        rw [peerBound, any_eq_false]
        intro e he
        rw [eq_of_mem_replicate he]
        simp
      unseen := fun t _ => rfl }

theorem PeerInv.frame {s : Server} (h : PeerInv w) (hp : s.peers = w.server.peers)
    (hs : ∀ i, (s.slots.getD i {}).connId = (w.server.slots.getD i {}).connId) :
    PeerInv { w with server := s } where
  slots i := (hs i).trans (h.slots i)
  opened := h.opened
  inj := h.inj
  table := hp ▸ h.table

theorem PeerInv.record {fingerprint : Option Bytes} (h : PeerInv w) (hok : PeerStepOk p w (.record ses fingerprint)) :
    PeerInv (peerStep p w (.record ses fingerprint)).1 := by
  obtain ⟨hended, hsole, hfits⟩ := hok
  have hspec := notePeerIdentity_spec hfits
  have hlive : (if w.life ses = .unseen then Life.pending else w.life ses).live = true := by
    cases hl : w.life ses with
    | ended => exact absurd hl hended
    | _ => rfl
  refine ⟨h.slots, ?_, h.inj, ?_⟩
  · intro i t ht
    show update _ _ _ _ = _
    by_cases hts : t = ses
    · rw [← hts, update_self, h.opened i t ht]
      rfl
    · rw [update_of_ne hts]
      exact h.opened i t ht
  · refine h.table.revive hsole hlive ?_ ?_ fun t ht => update_of_ne ht _ _
    · intro c hc
      have hc' := hspec c
      rw [if_neg hc] at hc'
      exact ⟨hc'.1, hc'.2 hc⟩
    · have hc' := (hspec ses.conn).1
      rw [if_pos rfl] at hc'
      exact hc'.trans (update_self ses fingerprint w.recorded).symm

theorem slotReleaseBuffers_peers (s : Server) (i : Nat) : (slotReleaseBuffers s i).peers =
    (s.slots.getD i {}).connId.elim s.peers (forgetPeer s.peers) := by
  unfold slotReleaseBuffers
  dsimp only
  cases (s.slots.getD i {}).connId <;> rfl

theorem World.endAt_life (w : World) (i : Nat) : (w.endAt i).life =
    (w.holder i).elim w.life fun t => update w.life t .ended := by
  unfold World.endAt
  cases w.holder i <;> rfl

theorem PeerInv.release (h : PeerInv w) (i : Nat) :
    PeerInv { w.endAt i with server := slotReleaseBuffers w.server i } := by
  have hslot := h.slots i
  refine ⟨?_, ?_, ?_, ?_⟩
  · intro j
    show ((w.server.slots.set i {}).getD j {}).connId = (update w.holder i none j).map _
    rw [getD_set_default]
    by_cases hij : i = j
    · rw [if_pos hij, hij, update_self]
      rfl
    · rw [if_neg hij, update_of_ne (Ne.symm hij)]
      exact h.slots j
  · intro j t hj
    obtain ⟨hne, hj⟩ : j ≠ i ∧ w.holder j = some t := by
      have hj' : update w.holder i none j = some t := hj
      by_cases hji : j = i
      · rw [hji, update_self] at hj'
        cases hj'
      · rw [update_of_ne hji] at hj'
        exact ⟨hji, hj'⟩
    show (w.endAt i).life t = .opened
    rw [World.endAt_life]
    cases hi : w.holder i with
    | none => exact h.opened j t hj
    | some u =>
      have htu : t ≠ u := fun heq => hne (h.inj j i t hj (hi.trans (congrArg some heq.symm)))
      show update w.life u .ended t = .opened
      rw [update_of_ne htu]
      exact h.opened j t hj
  · intro j k t hj hk
    have hold {m : Nat} (hm : update w.holder i none m = some t) : w.holder m = some t := by
      by_cases hmi : m = i
      · rw [hmi, update_self] at hm
        cases hm
      · rwa [update_of_ne hmi] at hm
    exact h.inj j k t (hold hj) (hold hk)
  · show TableInv (slotReleaseBuffers w.server i).peers w.recorded (w.endAt i).life
    rw [slotReleaseBuffers_peers, World.endAt_life, hslot]
    cases hi : w.holder i with
    | none => exact h.table
    | some u =>
      have hu : (w.life u).live = true := by rw [h.opened i u hi]; rfl
      refine h.table.finish ?_ (othersKept_forgetPeer _ _) (by simp [peerBound_forgetPeer])
      intro t htu hconn
      cases ht : (w.life t).live with
      | false => rfl
      | true => exact absurd (h.table.sole t u ht hu hconn) htu

theorem PeerInv.choose (h : PeerInv w) {i : Nat} {s : Server} {cmds : List NetCmd}
    (hc : chooseSlot w.server = some (i, s, cmds)) : PeerInv { w.endAt i with server := s } := by
  obtain ⟨-, ⟨rfl, -, hfree⟩ | ⟨rfl, -⟩⟩ := chooseSlot_cases hc
  · have hnone : w.holder i = none := by
      rw [ConnSlot.isFree, and_eq_true, h.slots i] at hfree
      simpa using hfree.1
    have hholder : update w.holder i none = w.holder := by
      rw [← hnone, update_eq_self]
    have hend : w.endAt i = w := by
      simp only [World.endAt, hnone, hholder]
    rw [hend]
    exact h
  · exact h.release i

theorem PeerInv.refuse (h : PeerInv w) (hnew : w.life ses = .unseen ∨ w.life ses = .pending) (hsole : w.soleHolder ses)
    (hgone : peerBound w.server.peers ses.conn = false) :
    PeerInv { w with life := update w.life ses .ended } where
  slots := h.slots
  opened i t ht := by
    have hlife := h.opened i t ht
    have hts : t ≠ ses := by
      rintro rfl
      rw [hlife] at hnew
      rcases hnew with hnew | hnew <;> cases hnew
    exact (update_of_ne hts _ _).trans hlife
  inj := h.inj
  table := h.table.finish hsole (OthersKept.refl _ _) hgone

theorem PeerInv.take (h : PeerInv w)
    (hnew : w.life ses = .unseen ∨ w.life ses = .pending) (hsole : w.soleHolder ses) {i : Nat}
    (hi : i < w.server.slots.length) {c : ConnSlot} (hc : c.connId = some ses.conn) :
    PeerInv { w with
      server := { w.server with slots := w.server.slots.set i c }
      holder := update w.holder i (some ses)
      life := update w.life ses .opened } := by
  have hnot (j : Nat) : w.holder j ≠ some ses := by
    intro hj
    have hlife := h.opened j ses hj
    rw [hlife] at hnew
    rcases hnew with hnew | hnew <;> cases hnew
  have hold {j : Nat} {t : Session} (hj : update w.holder i (some ses) j = some t) :
      (j = i ∧ t = ses) ∨ (j ≠ i ∧ t ≠ ses ∧ w.holder j = some t) := by
    by_cases hji : j = i
    · rw [hji, update_self] at hj
      exact .inl ⟨hji, (Option.some.inj hj).symm⟩
    · rw [update_of_ne hji] at hj
      exact .inr ⟨hji, fun hts => hnot j (hj.trans (congrArg some hts)), hj⟩
  refine ⟨?_, ?_, ?_, ?_⟩
  · intro j
    show ((w.server.slots.set i c).getD j {}).connId = (update w.holder i (some ses) j).map _
    rw [getD_set_lt hi]
    by_cases hij : i = j
    · rw [if_pos hij, ← hij, update_self, hc]
      rfl
    · rw [if_neg hij, update_of_ne (Ne.symm hij)]
      exact h.slots j
  · intro j t hj
    show update w.life ses .opened t = .opened
    obtain ⟨-, rfl⟩ | ⟨-, hts, hj⟩ := hold hj
    · exact update_self ..
    · rw [update_of_ne hts]
      exact h.opened j t hj
  · intro j k t hj hk
    obtain ⟨hji, hts⟩ | ⟨-, hts, hj'⟩ := hold hj
    · obtain ⟨hki, -⟩ | ⟨-, hts', -⟩ := hold hk
      · rw [hji, hki]
      · exact absurd hts hts'
    · obtain ⟨-, hts'⟩ | ⟨-, -, hk'⟩ := hold hk
      · exact absurd hts' hts
      · exact h.inj j k t hj' hk'
  · refine h.table.revive hsole rfl (OthersKept.refl _ _) ?_ fun _ _ => rfl
    rcases hnew with hnew | hnew
    · -- nothing was read for the session, and nothing is under way on its id
      rw [h.table.unseen ses hnew]
      refine peerSvid_of_not_bound (h.table.stray _ fun t ht heq => ?_)
      by_cases hts : t = ses
      · rw [hts, hnew] at ht
        cases ht
      · exact conn_ne_of_live hsole hts ht heq
    · exact h.table.svid ses (by rw [hnew]; rfl)

theorem endAt_life (i : Nat) (t : Session) :
    (w.endAt i).life t = w.life t ∨ ((w.endAt i).life t = .ended ∧ w.holder i = some t) := by
  unfold World.endAt
  cases hi : w.holder i with
  | none => exact .inl rfl
  | some u =>
    by_cases htu : t = u
    · exact .inr ⟨by rw [htu]; exact update_self .., by rw [htu]⟩
    · exact .inl (update_of_ne htu _ _)

theorem PeerInv.accepted {ours heap : Bool}
    {nowMs : Nat} (h : PeerInv w) (hok : PeerStepOk p w (.accepted ses ours nowMs heap)) :
    PeerInv (peerStep p w (.accepted ses ours nowMs heap)).1 := by
  obtain ⟨hnew, hsole, hrefused⟩ := hok
  unfold peerStep
  cases ours with
  | false => exact h.refuse hnew hsole (hrefused rfl)
  | true =>
    cases hdrain : w.server.bound && w.server.draining with
    | true =>
      have hchosen : chosenSlot w.server = none := by rw [chosenSlot, if_pos hdrain]
      simp only [Bool.not_true, false_eq_true, if_false, acceptConn_drained hdrain, hchosen]
      exact h.refuse hnew hsole (hrefused (by simp [refusesAccept, hchosen]))
    | false =>
      have hchosen : chosenSlot w.server = (chooseSlot w.server).map (·.1) := by
        rw [chosenSlot, if_neg (by rw [hdrain]; exact false_ne_true)]
      cases hc : chooseSlot w.server with
      | none =>
        rw [hc] at hchosen
        simp only [Bool.not_true, false_eq_true, if_false, acceptConn_full hdrain hc, hchosen]
        exact h.refuse hnew hsole (hrefused (by simp [refusesAccept, hchosen]))
      | some chosen =>
        obtain ⟨i, s', cmds⟩ := chosen
        rw [hc] at hchosen
        have hw := h.choose hc
        have hlife (t : Session) : (w.endAt i).life t = w.life t ∨ (w.endAt i).life t = .ended :=
          (endAt_life i t).imp_right (·.1)
        have hnew' : (w.endAt i).life ses = .unseen ∨ (w.endAt i).life ses = .pending := by
          rcases endAt_life (w := w) i ses with heq | ⟨-, hheld⟩
          · rwa [heq]
          · rw [h.opened i ses hheld] at hnew
            rcases hnew with hnew | hnew <;> cases hnew
        have hsole' : ({ w.endAt i with server := s' } : World).soleHolder ses := by
          intro t hts hconn
          rcases hlife t with heq | heq
          · exact (congrArg Life.live heq).trans (hsole t hts hconn)
          · exact congrArg Life.live heq
        cases heap with
        | false =>
          have hgone := hrefused (by simp [refusesAccept])
          have hgone' : peerBound s'.peers ses.conn = false := by
            obtain ⟨-, ⟨rfl, -⟩ | ⟨rfl, -⟩⟩ := chooseSlot_cases hc
            · exact hgone
            · rw [slotReleaseBuffers_peers]
              cases (w.server.slots.getD i {}).connId with
              | none => exact hgone
              | some conn => simp [peerBound_forgetPeer, hgone]
          simp only [Bool.not_true, false_eq_true, if_false, acceptConn_no_heap hdrain hc, hchosen,
            map_some]
          exact hw.refuse hnew' hsole' hgone'
        | true =>
          have hacc := acceptConn_taken hdrain hc ses.conn nowMs
          simp only [Bool.not_true, false_eq_true, if_false, hacc, hchosen, map_some]
          exact hw.take hnew' hsole' (chooseSlot_lt hc) rfl

theorem PeerInv.step {e : PeerEvent} (h : PeerInv w) (hok : PeerStepOk p w e) : PeerInv (peerStep p w e).1 := by
  cases e with
  | record ses fingerprint => exact h.record hok
  | accepted ses ours nowMs heap => exact h.accepted hok
  | closed conn =>
    simp only [peerStep]
    cases findSlotByConnId w.server.slots conn with
    | none => exact h
    | some i =>
      refine h.frame rfl fun j => getD_set_connId ?_ j
      rfl
  | work idx slot =>
    refine h.frame rfl fun j => getD_set_connId ?_ j
    rfl
  | reset idx => exact h.release idx
  | bound => exact h.frame rfl fun _ => rfl
  | drain => exact h.frame rfl fun _ => rfl

/-- In a run that keeps to the conditions a slot's lookup gives what was recorded for its session, or nothing. -/
theorem peer_identity_of_session (p : Profile) (events : List PeerEvent)
    (hal : (peerMachine p).Along (PeerStepOk p) (World.init p) events) :
    let w := ((peerMachine p).run (World.init p) events).1
    ∀ i t, w.holder i = some t →
      (w.server.slots.getD i {}).connId = some t.conn ∧
        peerSvid w.server.peers t.conn = w.recorded t := by
  intro w i t hi
  have hinv : PeerInv w :=
    (peerMachine p).run_invariant (fun _ _ => PeerInv.step) (peerInv_init p) hal
  refine ⟨by rw [hinv.slots i, hi]; rfl, hinv.table.svid t ?_⟩
  rw [hinv.opened i t hi]
  rfl

/-- The record before the accept of its connection. -/
theorem peer_identity_of_session_early_record :
    let events := [PeerEvent.record ⟨0, 5⟩ (some [1]), .accepted ⟨0, 5⟩ true 0 true]
    (peerMachine smallProfile).Along (PeerStepOk smallProfile) (World.init smallProfile) events ∧
      ∀ i t, ((peerMachine smallProfile).run (World.init smallProfile) events).1.holder i = some t →
        peerSvid ((peerMachine smallProfile).run (World.init smallProfile) events).1.server.peers
          t.conn =
        ((peerMachine smallProfile).run (World.init smallProfile) events).1.recorded t := by
  intro events
  have hal : (peerMachine smallProfile).Along (PeerStepOk smallProfile)
      (World.init smallProfile) events := by
    refine ⟨⟨by decide, fun _ _ _ => rfl, ?_⟩, ⟨.inr rfl, ?_, ?_⟩, trivial⟩
    · intro fp hfp
      obtain rfl := Option.some.inj hfp
      exact ⟨by decide, by decide, {}, by decide, .inl rfl⟩
    · intro t hts _
      have hlife : ((peerMachine smallProfile).step (World.init smallProfile)
          (.record ⟨0, 5⟩ (some [1]))).1.life t = .unseen := update_of_ne hts _ _
      rw [hlife]
      rfl
    · intro hrefused
      revert hrefused
      decide
  refine ⟨hal, fun i t ht => ?_⟩
  exact (peer_identity_of_session smallProfile events hal i t ht).2

/-- A refused session's record answers for the next session of its id. -/
theorem refused_session_lends_identity :
    let events := [PeerEvent.record ⟨0, 5⟩ (some [1]), .accepted ⟨0, 5⟩ true 0 false,
      .accepted ⟨1, 5⟩ true 0 true]
    let w := ((peerMachine smallProfile).run (World.init smallProfile) events).1
    w.holder 0 = some ⟨1, 5⟩ ∧ w.recorded ⟨1, 5⟩ = none ∧
      peerSvid w.server.peers 5 = some [1] := by
  decide

end Wave.Http
