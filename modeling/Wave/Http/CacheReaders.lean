import Mathlib.Algebra.Order.BigOperators.Group.List
import Wave.Http.BodyCache

/-! # The reader count covers every response under way (`http/server/cache.rs`)

One step touches one connection and the store; `Kept` says what the others see of it. -/

namespace Wave.Http.BodyCache

open Lib

variable {t : Site} {k n i r : Nat} {st st' : Store} {c : Conn}
  {e : CacheEntry} {p : Poll} {h : Handler} {srv : Server}

def Counted (t : Site) (n : Nat) (st : Store) : Prop :=
  match st.cache with
  | none => n = 0
  | some e => n ≤ e.retain ∧ t.cached e.routeIndex = true ∧ (e.complete = false → e.retain = 0)

def Names (st : Store) (r : Nat) : Prop := ∀ e ∈ st.cache, e.routeIndex = r

def Filling (st : Store) (r : Nat) : Prop := ∀ e ∈ st.cache, e.routeIndex = r ∧ e.complete = false

/-- Stream `i` waits for its fetch, and where its connection has the file channel the fetch is its
own. -/
def Fetches (t : Site) (k : Nat) (st : Store) (c : Conn) (i : Nat) : Prop :=
  c.fileOwner = some i ∧ rendered (c.stream i).bodyHandler = true ∧
    ∃ r, (c.stream i).matchedRoute = some r ∧ t.cached r = true ∧ (st.owner = some k → Filling st r)

structure ConnOk (t : Site) (k : Nat) (st : Store) (c : Conn) : Prop where
  h1 : c.phase ≠ .h2Active → c.streams = []
  reads1 : ∀ r, c.h1Reads t r = true → c.cacheRetained = true ∧ Names st r
  fetch1 : fetchPhase c.phase = true →
    st.owner = some k ∧ ∃ r, c.matchedRoute = some r ∧ t.cached r = true ∧ Filling st r
  reads2 : ∀ s ∈ c.streams, ∀ r, s.reads t r = true → Names st r
  fetch2 : ∀ i, (c.stream i).state = .fetching → Fetches t k st c i

/-- What a step of connection `k` leaves of the store to the others, `n` counting the holders before
it. -/
structure Kept (k n : Nat) (st st' : Store) : Prop where
  owner : ∀ j, j ≠ k → (st'.owner = some j ↔ st.owner = some j)
  names : n ≠ 0 → ∀ r, Names st r → Names st' r
  filling : ∀ j, j ≠ k → st.owner = some j → ∀ r, Filling st r → Filling st' r

structure StepOk (t : Site) (k rest : Nat) (st : Store) (c : Conn) (res : Store × Conn) : Prop where
  counted : Counted t (rest + res.2.holds t) res.1
  conn : ConnOk t k res.1 res.2
  kept : Kept k (rest + c.holds t) st res.1

structure Quiet (k : Nat) (st st' : Store) : Prop where
  owner : ∀ j, j ≠ k → (st'.owner = some j ↔ st.owner = some j)
  self : st'.owner = some k → st.owner = some k
  names : ∀ r, Names st r → Names st' r
  filling : ∀ r, Filling st r → Filling st' r

theorem Quiet.refl : Quiet k st st := ⟨fun _ _ => .rfl, id, fun _ h => h, fun _ h => h⟩

theorem Quiet.trans {st'' : Store} (h : Quiet k st st') (h' : Quiet k st' st'') : Quiet k st st'' :=
  ⟨fun j hj => (h'.owner j hj).trans (h.owner j hj), h.self ∘ h'.self, fun r hr => h'.names r (h.names r hr),
    fun r hr => h'.filling r (h.filling r hr)⟩

theorem Quiet.kept (h : Quiet k st st') : Kept k n st st' :=
  ⟨h.owner, fun _ => h.names, fun _ _ _ => h.filling⟩

theorem Kept.trans {st'' : Store} (h : Kept k n st st') (h' : Kept k n st' st'') : Kept k n st st'' :=
  ⟨fun j hj => (h'.owner j hj).trans (h.owner j hj), fun hn r hr => h'.names hn r (h.names hn r hr),
    fun j hj ho r hr => h'.filling j hj ((h.owner j hj).mpr ho) r (h.filling j hj ho r hr)⟩

theorem quiet_releaseFileChan : Quiet k st (releaseFileChan st k) := by
  unfold releaseFileChan
  split_ifs with h
  · refine ⟨fun j hj => ?_, nofun, fun r hr => hr, fun r hr => hr⟩
    rw [h]
    exact ⟨nofun, fun hk => absurd (Option.some.inj hk).symm hj⟩
  · exact .refl

theorem quiet_cacheReleaseForRoute : Quiet k st (cacheReleaseForRoute st r) := by
  unfold cacheReleaseForRoute
  split
  · exact .refl
  · rename_i e he
    split_ifs
    · refine ⟨fun _ _ => .rfl, id, fun r hr e' he' => ?_, fun r hr e' he' => ?_⟩ <;>
        obtain rfl := Option.some.inj he'
      · exact hr e he
      · exact hr e he
    · exact .refl

theorem quiet_retained (h : st.cache = some e) :
    Quiet k st { st with cache := some e.retained } := by
  refine ⟨fun _ _ => .rfl, id, fun r hr e' he' => ?_, fun r hr e' he' => ?_⟩ <;>
    obtain rfl := Option.some.inj he'
  · exact hr e h
  · exact hr e h

theorem cacheLookup_some (h : cacheLookup st r = some e) :
    st.cache = some e ∧ e.complete = true ∧ e.routeIndex = r := by
  obtain ⟨hc, hp⟩ := Option.filter_eq_some_iff.mp h
  simpa [hc] using hp

theorem Counted.mono {m : Nat} (h : Counted t n st) (hm : m ≤ n) : Counted t m st := by
  unfold Counted at *
  split at h
  · omega
  · exact ⟨by omega, h.2⟩

theorem Counted.of_cache (h : Counted t n st) (hc : st'.cache = st.cache) : Counted t n st' := by
  simpa only [Counted, hc] using h

theorem counted_release (h : Counted t (n + 1) st) : Counted t n (cacheReleaseForRoute st r) := by
  unfold cacheReleaseForRoute
  split
  · exact h.mono (by omega)
  · rename_i e he
    simp only [Counted, he] at h
    split_ifs
    · exact ⟨Nat.le_sub_of_add_le h.1, h.2.1, fun hi => by simp [h.2.2 hi]⟩
    · simp only [Counted, he]
      exact ⟨by omega, h.2⟩

theorem cacheReleaseForRoute_idle (h : ∀ e ∈ st.cache, e.routeIndex = r → e.retain = 0) :
    cacheReleaseForRoute st r = st := by
  unfold cacheReleaseForRoute
  split
  · rfl
  · rename_i e he
    split_ifs with hr
    · have := h e he hr
      obtain ⟨cache, owner⟩ := st
      simp only at he
      subst he
      simp [this]
      rw [← this]
    · rfl

theorem counted_retained (h : Counted t n st) (hs : st.cache = some e) (hc : e.complete = true) (hn : n < 255) :
    Counted t (n + 1) { st with cache := some e.retained } := by
  simp only [Counted, hs] at h
  refine ⟨?_, h.2.1, fun hi => ?_⟩
  · simp only [CacheEntry.retained, saturatingInc]
    omega
  · simp [CacheEntry.retained, hc] at hi

/-! ## A fetch -/

theorem alloc_spec {st₁ st₂ : Store} (hacq : tryAcquireFileChan st k = some st₁)
    (hal : cacheAlloc t st₁ r = some st₂) (h : Counted t n st) (hr : t.cached r = true) :
    n = 0 ∧ Counted t 0 st₂ ∧ Kept k n st st₂ ∧ st₂.owner = some k ∧ Filling st₂ r := by
  have hown : st₁.cache = st.cache ∧ st₁.owner = some k ∧ ∀ j, j ≠ k → st.owner ≠ some j := by
    unfold tryAcquireFileChan at hacq
    split at hacq
    · rename_i ho
      obtain rfl := Option.some.inj hacq
      exact ⟨rfl, rfl, fun j _ => by simp [ho]⟩
    · rename_i j ho
      split_ifs at hacq with hj
      obtain rfl := Option.some.inj hacq
      subst hj
      exact ⟨rfl, ho, fun j' hj' => by simp [ho, Ne.symm hj']⟩
  obtain ⟨hcache, howner, hother⟩ := hown
  unfold cacheAlloc at hal
  split_ifs at hal with hev
  obtain rfl := Option.some.inj hal
  have hn : n = 0 := by
    unfold Counted at h
    split at h
    · exact h
    · rename_i e he
      have : e.retain = 0 := by simpa [cacheEvictable, hcache, he] using hev
      omega
  refine ⟨hn, ⟨Nat.zero_le _, hr, fun _ => rfl⟩, ⟨?_, fun h0 => absurd hn h0, ?_⟩, howner, ?_⟩
  · intro j hj
    exact ⟨fun hk => absurd (Option.some.inj (howner.symm.trans hk)).symm hj, fun hk => absurd hk (hother j hj)⟩
  · exact fun j hj ho => absurd ho (hother j hj)
  · intro e he
    obtain rfl := Option.some.inj he
    exact ⟨rfl, rfl⟩

theorem not_acquired (h : tryAcquireFileChan st k = none) : st.owner ≠ some k := by
  intro ho
  simp [tryAcquireFileChan, ho] at h

theorem quiet_denied {st₁ : Store} (hacq : tryAcquireFileChan st k = some st₁) :
    Quiet k st (releaseFileChan st₁ k) ∧ (releaseFileChan st₁ k).cache = st.cache ∧
      (releaseFileChan st₁ k).owner = none := by
  unfold tryAcquireFileChan at hacq
  split at hacq
  · rename_i ho
    obtain rfl := Option.some.inj hacq
    refine ⟨⟨fun j hj => ?_, ?_, fun r hr => ?_, fun r hr => ?_⟩, by simp [releaseFileChan], by simp [releaseFileChan]⟩
    · simp [releaseFileChan, ho]
    · simp [releaseFileChan]
    · simpa [releaseFileChan, Names] using hr
    · simpa [releaseFileChan, Filling] using hr
  · rename_i j ho
    split_ifs at hacq with hj
    obtain rfl := Option.some.inj hacq
    refine ⟨quiet_releaseFileChan, ?_, ?_⟩ <;> simp [releaseFileChan, ho, hj]

inductive Settled (t : Site) (st : Store) (r : Nat) : CacheStepResult × Store → Prop
  | pending {s : Store} (owner : s.owner = st.owner) (fill : Filling s r) (counted : Counted t 0 s) :
    Settled t st r (.pending, s)
  | ready {s : Store} (owner : s.owner = st.owner) (names : Names s r) (counted : Counted t 1 s) :
    Settled t st r (.ready, s)
  | error {s : Store} (owner : s.owner = st.owner) (empty : s.cache = none) : Settled t st r (.error, s)

theorem settleFill_settled (hr : t.cached r = true) (he : e.routeIndex = r)
    (hi : e.complete = false) (hz : e.retain = 0) : Settled t st r (settleFill t st e p) := by
  have hfill : Filling { st with cache := some e } r := by
    intro e' he'
    obtain rfl := Option.some.inj he'
    exact ⟨he, hi⟩
  have hzero : Counted t 0 { st with cache := some e } := ⟨Nat.zero_le _, he ▸ hr, fun _ => hz⟩
  unfold settleFill
  simp only
  split_ifs
  · exact .error rfl rfl
  · exact .pending rfl hfill hzero
  · refine .ready rfl ?_ ⟨?_, he ▸ hr, by simp⟩
    · intro e' he'
      obtain rfl := Option.some.inj he'
      exact he
    · simp [CacheEntry.retained, saturatingInc]
  · exact .pending rfl hfill hzero

theorem filling_free (h : Counted t n st) (hf : Filling st r) : n = 0 := by
  unfold Counted at h
  split at h
  · exact h
  · rename_i e he
    have := h.2.2 (hf e he).2
    omega

theorem cacheFetchStep_settled (h : Counted t n st) (hf : Filling st r) (hr : t.cached r = true) :
    Settled t st r (cacheFetchStep t st p) := by
  have hn := filling_free h hf
  have hchan : t.fileChan = true := by simp [Site.cached] at hr; exact hr.1.2
  unfold cacheFetchStep
  split
  · rename_i hnone
    exact .error rfl hnone
  · rename_i e he
    have hce := h
    simp only [Counted, he] at hce
    obtain ⟨hroute, hinc⟩ := hf e he
    have hz := hce.2.2 hinc
    simp only [hchan, Bool.not_true, false_eq_true, if_false]
    split_ifs
    · exact .pending rfl hf (hn ▸ h)
    · exact settleFill_settled hr hroute hinc hz
    · exact settleFill_settled hr hroute hinc hz

theorem kept_of_settled {res : CacheStepResult × Store} (h : Settled t st r res) (ho : st.owner = some k)
    (hn : n = 0) : Kept k n st res.2 := by
  have howner : res.2.owner = st.owner := by cases h <;> assumption
  refine ⟨fun j _ => by rw [howner], fun h0 => absurd hn h0, fun j hj hj' => ?_⟩
  exact absurd (Option.some.inj (ho.symm.trans hj')).symm hj

/-! ## One stream's slot is set -/

variable {rest j : Nat} {s : StreamSlot} {c' : Conn}

theorem holds_set (hi : i < c.streams.length) (hs : c'.streams = c.streams.set i s)
    (hf : c'.cacheRetained = c.cacheRetained) :
    c'.holds t + ((c.stream i).holds t).toNat = c.holds t + (s.holds t).toNat := by
  have := Table.sum_map_set (fun s : StreamSlot => (s.holds t).toNat) s {} hi
  simp only [Conn.holds, hs, hf, Conn.stream]
  omega

theorem lt_of_state_ne (h : (c.stream i).state ≠ .idle) : i < c.streams.length :=
  Table.lt_of_getD_ne fun hd => h (by rw [Conn.stream, hd])

theorem reads_holds (h : s.reads t r = true) : s.holds t = true := by
  simp only [StreamSlot.reads, and_eq_true, decide_eq_true_eq] at h
  simp [StreamSlot.holds, h.1.1, h.1.2, h.2]

theorem holds_pos (hs : s ∈ c.streams) (h : s.holds t = true) : c.holds t ≠ 0 := by
  have hle : ∀ x ∈ c.streams.map fun s => (s.holds t).toNat, 0 ≤ x := fun _ _ => Nat.zero_le _
  have := List.single_le_sum hle 1 (mem_map.mpr ⟨s, hs, by simp [h]⟩)
  simp only [Conn.holds]
  omega

theorem ConnOk.names_kept (hc : ConnOk t k st c) (rest : Nat) (hk : Kept k (rest + c.holds t) st st') :
    ∀ s ∈ c.streams, ∀ r, s.reads t r = true → Names st' r := by
  intro s hs r hr
  have := holds_pos hs (reads_holds hr)
  exact hk.names (by omega) r (hc.reads2 s hs r hr)

theorem Fetches.quiet (h : Fetches t k st c j) (q : Quiet k st st') (hf : c'.fileOwner = c.fileOwner)
    (hs : c'.stream j = c.stream j) : Fetches t k st' c' j := by
  obtain ⟨ho, hb, r, hr, hcached, hfill⟩ := h
  exact ⟨hf.trans ho, by rwa [hs], r, by rwa [hs], hcached, fun hk => q.filling r (hfill (q.self hk))⟩

theorem connOk_set (rest : Nat) (hc : ConnOk t k st c) (hk : Kept k (rest + c.holds t) st st') (hph : c'.phase = .h2Active)
    (hs : c'.streams = c.streams.set i s) (hreads : ∀ r, s.reads t r = true → Names st' r)
    (hself : s.state = .fetching → Fetches t k st' c' i)
    (hother : ∀ j, j ≠ i → c'.stream j = c.stream j → (c.stream j).state = .fetching → Fetches t k st' c' j) :
    ConnOk t k st' c' where
  h1 := fun h => absurd hph h
  reads1 := by simp [Conn.h1Reads, hph, sendPhase]
  fetch1 := by simp [hph, fetchPhase]
  reads2 := by
    intro s' hs' r hr
    rw [hs] at hs'
    rcases List.mem_or_eq_of_mem_set hs' with hmem | rfl
    · exact hc.names_kept rest hk s' hmem r hr
    · exact hreads r hr
  fetch2 := by
    intro j hj
    by_cases hji : j = i
    · subst hji
      rcases Table.getD_set_cases c.streams j j s {} with ⟨-, heq⟩ | heq
      · exact hself (by rwa [Conn.stream, hs, heq] at hj)
      · have hold : c'.stream j = c.stream j := by rw [Conn.stream, hs, heq]; rfl
        -- Past the table's end every slot is idle, so `set` put `s` there.
        have hlt := lt_of_state_ne (c := c) (i := j) (by rw [← hold, hj]; simp)
        have : c'.stream j = s := by rw [Conn.stream, hs, Table.getD_set_self hlt]
        exact hself (this ▸ hj)
    · have hold : c'.stream j = c.stream j := by rw [Conn.stream, hs, Table.getD_set_ne hji]; rfl
      exact hother j hji hold (hold ▸ hj)

theorem no_other_fetch (hc : ConnOk t k st c) (ho : c.fileOwner = none ∨ c.fileOwner = some i) (hj : j ≠ i)
    (hf : (c.stream j).state = .fetching) : False := by
  have := (hc.fetch2 j hf).1
  rcases ho with h | h
  · rw [h] at this; cases this
  · rw [h] at this; exact hj (Option.some.inj this).symm

theorem freesOwn_of_sending (hn : Counted t n st) (h : s.state = .sending) : FreesOwn t st s := by
  by_cases hh : s.holds t = true
  · exact .inl hh
  · refine .inr fun e he hr => ?_
    simp only [Counted, Option.mem_def.mp he] at hn
    exact absurd (by simp [StreamSlot.holds, h, hr, hn.2.1]) hh

/-- What `free_slot` leaves: the file channel given up, the slot emptied but for what says what it served. -/
theorem freeSlot_spec (k : Nat) (st : Store) (c : Conn) (i : Nat) :
    ∃ st₁ c', Quiet k st st₁ ∧ st₁.cache = st.cache ∧ c'.phase = c.phase ∧
      c'.cacheRetained = c.cacheRetained ∧
      c'.streams = c.streams.set i { c.stream i with id := 0, state := .idle } ∧
      (∀ j, j ≠ i → c.fileOwner = some j → c'.fileOwner = c.fileOwner) ∧
      freeSlot k st c i = (((c.stream i).releases.map (cacheReleaseForRoute st₁)).getD st₁, c') := by
  by_cases h : c.fileOwner = some i
  · refine ⟨releaseFileChan st k, { c with fileOwner := none, streams := _ }, quiet_releaseFileChan, ?_, rfl, rfl,
      rfl, ?_, ?_⟩
    · unfold releaseFileChan
      split_ifs <;> rfl
    · intro j hj hj'
      exact absurd (Option.some.inj (h.symm.trans hj')).symm hj
    · simp only [freeSlot, h, if_true]
      cases hrel : (c.stream i).releases <;>
        simp only [show (Conn.stream { c with fileOwner := none } i).releases = _ from hrel] <;> rfl
  · refine ⟨st, c.setStream i { c.stream i with id := 0, state := .idle }, .refl, rfl, rfl, rfl, rfl, fun _ _ _ => rfl, ?_⟩
    simp only [freeSlot, h, if_false]
    cases (c.stream i).releases <;> rfl

theorem stepOk_freeSlot (hn : Counted t (rest + c.holds t) st) (hc : ConnOk t k st c)
    (hph : c.phase = .h2Active) (hidle : (c.stream i).state ≠ .idle) (hown : FreesOwn t st (c.stream i)) :
    StepOk t k rest st c (freeSlot k st c i) := by
  obtain ⟨st₁, c', hq, hcache, hph', hflag, hstreams, hfo, heq⟩ := freeSlot_spec k st c i
  rw [heq]
  have hn₁ := hn.of_cache hcache
  have hh := holds_set (t := t) (lt_of_state_ne hidle) hstreams hflag
  have hz : ({ c.stream i with id := 0, state := .idle } : StreamSlot).holds t = false := by
    simp [StreamSlot.holds]
  rw [hz] at hh
  have hq₂ : Quiet k st (((c.stream i).releases.map (cacheReleaseForRoute st₁)).getD st₁) := by
    cases (c.stream i).releases with
    | none => exact hq
    | some r => exact hq.trans quiet_cacheReleaseForRoute
  refine ⟨?_, ?_, hq₂.kept⟩
  · show Counted t (rest + c'.holds t) _
    rcases hown with hhold | hfree
    · rw [hhold] at hh
      have hn₂ : Counted t (rest + c'.holds t + 1) st₁ := hn₁.mono (by simp at hh; omega)
      cases (c.stream i).releases with
      | none => exact hn₂.mono (Nat.le_succ _)
      | some r => exact counted_release hn₂
    · have hn₂ : Counted t (rest + c'.holds t) st₁ := hn₁.mono (by simp at hh; omega)
      cases hr : (c.stream i).releases with
      | none => exact hn₂
      | some r =>
        have : cacheReleaseForRoute st₁ r = st₁ := cacheReleaseForRoute_idle fun e he her =>
          hfree e (hcache ▸ he) (by rw [hr, her])
        simpa [this] using hn₂
  · refine connOk_set rest hc hq₂.kept (hph'.trans hph) hstreams ?_ nofun ?_
    · simp [StreamSlot.reads]
    · intro j hj hold hfetch
      have hf := hc.fetch2 j hfetch
      exact hf.quiet hq₂ (hfo j hj hf.1) hold

/-! ## A response begins -/

abbrev StreamSlot.Asked (s : StreamSlot) : Prop := s.state = .open ∨ s.state = .pending

abbrev StreamSlot.Unanswered (s : StreamSlot) : Prop := s.state = .open ∨ s.state = .pending ∨ s.state = .fetching

theorem holds_set_fresh (c' : Conn) (hi : (c.stream i).Unanswered)
    (hs : c'.streams = c.streams.set i s) (hf : c'.cacheRetained = c.cacheRetained) :
    c'.holds t = c.holds t + (s.holds t).toNat := by
  have hidle : (c.stream i).state ≠ .idle := by rcases hi with h | h | h <;> simp [h]
  have hz : (c.stream i).holds t = false := by rcases hi with h | h | h <;> simp [StreamSlot.holds, h]
  have := holds_set (t := t) (lt_of_state_ne hidle) hs hf
  simpa [hz] using this

theorem armed_holds (h : Handler) (t : Site) (s : StreamSlot) (r : Nat) :
    ({ s with state := .sending, bodyHandler := h, matchedRoute := some r } : StreamSlot).holds t =
      (rendered h && t.cached r) := by
  cases hr : rendered h <;> simp [StreamSlot.holds, StreamSlot.releases, hr]

theorem armed_reads {t : Site} {s : StreamSlot} {r r' : Nat}
    (hr : ({ s with state := .sending, bodyHandler := h, matchedRoute := some r } : StreamSlot).reads t r' = true) :
    r' = r ∧ t.cached r = true ∧ rendered h = true := by
  simp only [StreamSlot.reads, StreamSlot.releases, and_eq_true, decide_eq_true_eq] at hr
  obtain ⟨⟨-, hr⟩, hcached⟩ := hr
  split_ifs at hr with hh
  obtain rfl := Option.some.inj hr
  exact ⟨rfl, hcached, hh⟩

theorem holds_set_le (hi : (c.stream i).Unanswered)
    (hs : c'.streams = c.streams.set i s) (hf : c'.cacheRetained = c.cacheRetained) :
    c'.holds t ≤ c.holds t + 1 := by
  have := holds_set_fresh (t := t) c' hi hs hf
  have := Bool.toNat_le (s.holds t)
  omega

theorem stepOk_armInline (hn : Counted t (rest + c.holds t) st) (hc : ConnOk t k st c)
    (hi : (c.stream i).Unanswered)
    (hr : (rendered h && t.cached r) = false) (hq : Quiet k st st') (hcache : st'.cache = st.cache)
    (hph : c'.phase = .h2Active) (hf : c'.cacheRetained = c.cacheRetained)
    (hs : c'.streams = c.streams.set i
      { c.stream i with state := .sending, bodyHandler := h, matchedRoute := some r })
    (hother : ∀ j, j ≠ i → (c.stream j).state = .fetching → c'.fileOwner = c.fileOwner) :
    StepOk t k rest st c (st', c') := by
  refine ⟨?_, ?_, hq.kept⟩
  · have := holds_set_fresh (t := t) c' hi hs hf
    rw [armed_holds, hr] at this
    exact (hn.of_cache hcache).mono (by simp at this; simp [this])
  · refine connOk_set rest hc hq.kept hph hs ?_ nofun ?_
    · intro r' hr'
      obtain ⟨-, h1, h2⟩ := armed_reads hr'
      simp [h1, h2] at hr
    · intro j hj hold hfetch
      exact (hc.fetch2 j hfetch).quiet hq (hother j hj hfetch) hold

theorem stepOk_armHit (hn : Counted t (rest + c.holds t) st) (hc : ConnOk t k st c)
    (hi : (c.stream i).Unanswered)
    (he : cacheLookup st r = some e) (hlt : rest + c.holds t < 255)
    (hq : Quiet k { st with cache := some e.retained } st') (hcache : st'.cache = some e.retained)
    (hph : c'.phase = .h2Active) (hf : c'.cacheRetained = c.cacheRetained)
    (hs : c'.streams = c.streams.set i
      { c.stream i with state := .sending, bodyHandler := h, matchedRoute := some r })
    (hother : ∀ j, j ≠ i → (c.stream j).state = .fetching → c'.fileOwner = c.fileOwner) :
    StepOk t k rest st c (st', c') := by
  obtain ⟨hcur, hcomplete, hroute⟩ := cacheLookup_some he
  have hq' : Quiet k st st' := (quiet_retained hcur).trans hq
  refine ⟨?_, ?_, hq'.kept⟩
  · have := holds_set_le (t := t) hi hs hf
    have hn' : Counted t _ st' := (counted_retained hn hcur hcomplete hlt).of_cache hcache
    exact hn'.mono (by simp only; omega)
  · refine connOk_set rest hc hq'.kept hph hs ?_ nofun ?_
    · intro r' hr' e' he'
      obtain ⟨rfl, -, -⟩ := armed_reads hr'
      rw [hcache] at he'
      obtain rfl := Option.some.inj he'
      exact hroute
    · intro j hj hold hfetch
      exact (hc.fetch2 j hfetch).quiet hq' (hother j hj hfetch) hold

inductive Tried (t : Site) (k n : Nat) (st : Store) (r : Nat) : CacheLookup × Store → Prop
  | hit {e : CacheEntry} (found : cacheLookup st r = some e) :
    Tried t k n st r (.hit, { st with cache := some e.retained })
  | busy {s : Store} (quiet : Quiet k st s) (cache : s.cache = st.cache) (owner : s.owner ≠ some k) :
    Tried t k n st r (.busy, s)
  | pending {s : Store} (free : n = 0) (counted : Counted t 0 s) (kept : Kept k n st s) (owner : s.owner = some k)
    (fill : Filling s r) : Tried t k n st r (.pending, s)

theorem cacheTryOrFetch_tried (h : Counted t n st) (hr : t.cached r = true) :
    Tried t k n st r (cacheTryOrFetch t k st r) := by
  have hsrc : (t.source r && t.fileChan) = true := by
    simp only [Site.cached, and_eq_true] at hr ⊢
    exact hr.1
  unfold cacheTryOrFetch
  simp only [hsrc, Bool.not_true, false_eq_true, if_false]
  split
  · rename_i e he
    exact .hit he
  · split
    · rename_i hacq
      exact .busy .refl rfl (not_acquired hacq)
    · rename_i st₁ hacq
      split
      · obtain ⟨hq, hcache, ho⟩ := quiet_denied hacq
        exact .busy hq hcache (by simp [ho])
      · rename_i st₂ hal
        obtain ⟨hn, hcount, hkept, ho, hfill⟩ := alloc_spec hacq hal h hr
        exact .pending hn hcount hkept ho hfill

theorem stepOk_wait (hc : ConnOk t k st c) (hcount : Counted t (rest + c.holds t) st')
    (hkept : Kept k (rest + c.holds t) st st') (hi : (c.stream i).Asked)
    (hph : c.phase = .h2Active) (hfo : c.fileOwner = none) (hh : rendered h = true) (hcached : t.cached r = true)
    (hfill : st'.owner = some k → Filling st' r)
    (hs : s = { c.stream i with state := .fetching, bodyHandler := h, matchedRoute := some r }) :
    StepOk t k rest st c (st', { c.setStream i s with fileOwner := some i }) := by
  have hi' : (c.stream i).Unanswered := by tauto
  have hlt : i < c.streams.length := lt_of_state_ne (by rcases hi with h | h <;> simp [h])
  have hstream : ({ c.setStream i s with fileOwner := some i } : Conn).stream i = s := Table.getD_set_self hlt
  refine ⟨?_, ?_, hkept⟩
  · have := holds_set_fresh (t := t) (s := s) { c.setStream i s with fileOwner := some i } hi' rfl rfl
    have hz : s.holds t = false := by simp [StreamSlot.holds, hs]
    rw [hz, Bool.toNat_false, Nat.add_zero] at this
    rwa [this]
  · refine connOk_set rest hc hkept hph rfl (by simp [StreamSlot.reads, hs]) (fun _ => ?_)
      fun j hj _ hf => (no_other_fetch hc (.inl hfo) hj hf).elim
    exact ⟨rfl, by rw [hstream, hs]; exact hh, r, by rw [hstream, hs], hcached, hfill⟩

theorem stepOk_beginCached (hn : Counted t (rest + c.holds t) st) (hc : ConnOk t k st c)
    (hph : c.phase = .h2Active) (hi : (c.stream i).Asked)
    (hfo : c.fileOwner = none) (hh : rendered h = true) (hsrc : t.source r = true) (hht : t.handler r = h)
    (hlt : rest + c.holds t < 255 ∨ cacheLookup st r = none) :
    StepOk t k rest st c (beginCachedResponse t k st c i h r) := by
  have hi' : (c.stream i).Unanswered := by tauto
  have hnone : ∀ j, j ≠ i → (c.stream j).state = .fetching → False := fun j hj => no_other_fetch hc (.inl hfo) hj
  unfold beginCachedResponse
  by_cases hchan : t.fileChan = true
  · have hcached : t.cached r = true := by simp [Site.cached, hsrc, hchan, hht, hh]
    have htried := cacheTryOrFetch_tried (k := k) hn hcached
    generalize hres : cacheTryOrFetch t k st r = res at htried
    cases htried with
    | hit he =>
      exact stepOk_armHit hn hc hi' he (hlt.resolve_right (by simp [he])) .refl rfl hph rfl rfl
        fun j hj hf => (hnone j hj hf).elim
    | busy hq hcache ho =>
      exact stepOk_wait hc (hn.of_cache hcache) hq.kept hi hph hfo hh hcached (fun hk => absurd hk ho) rfl
    | pending hz hcount hkept ho hfill =>
      exact stepOk_wait hc (hz ▸ hcount) hkept hi hph hfo hh hcached (fun _ => hfill) rfl
  · have hres : cacheTryOrFetch t k st r = (.noSource, st) := by simp [cacheTryOrFetch, hchan]
    rw [hres]
    exact stepOk_armInline hn hc hi' (by simp [Site.cached, hchan]) .refl rfl hph rfl rfl
      fun j hj hf => (hnone j hj hf).elim

theorem releaseFileChan_cache : (releaseFileChan st k).cache = st.cache := by
  unfold releaseFileChan
  split_ifs <;> rfl

theorem tryAcquire_quiet {st₁ : Store} (h : tryAcquireFileChan st k = some st₁) :
    st₁.cache = st.cache ∧ ∀ j, j ≠ k → (st₁.owner = some j ↔ st.owner = some j) := by
  unfold tryAcquireFileChan at h
  split at h
  · rename_i ho
    obtain rfl := Option.some.inj h
    exact ⟨rfl, fun j hj => by simp [ho, Ne.symm hj]⟩
  · split_ifs at h
    obtain rfl := Option.some.inj h
    exact ⟨rfl, fun _ _ => .rfl⟩

theorem stepOk_armFile (hn : Counted t (rest + c.holds t) st) (hc : ConnOk t k st c)
    (hph : c.phase = .h2Active) (hi : (c.stream i).Asked)
    (hfo : c.fileOwner = none) (hcache : st'.cache = st.cache)
    (hown : ∀ j, j ≠ k → (st'.owner = some j ↔ st.owner = some j)) :
    StepOk t k rest st c (st', { c.armSlot i .file r with fileOwner := some i }) := by
  have hi' : (c.stream i).Unanswered := by tauto
  have hkept : Kept k (rest + c.holds t) st st' := by
    refine ⟨hown, fun _ r hr e he => ?_, fun _ _ _ r hr e he => ?_⟩
    · exact hr e (hcache ▸ he)
    · exact hr e (hcache ▸ he)
  refine ⟨?_, ?_, hkept⟩
  · have := holds_set_fresh (t := t) { c.armSlot i .file r with fileOwner := some i } hi' rfl rfl
    rw [armed_holds] at this
    exact (hn.of_cache hcache).mono (by simp [rendered] at this; simp [this])
  · refine connOk_set rest hc hkept hph rfl ?_ nofun fun j hj _ hf => (no_other_fetch hc (.inl hfo) hj hf).elim
    intro r' hr'
    have := (armed_reads hr').2.2
    simp [rendered] at this

theorem stepOk_dispatchRequest {listing : Bool} (hn : Counted t (rest + c.holds t) st) (hc : ConnOk t k st c)
    (hph : c.phase = .h2Active) (hi : (c.stream i).Asked)
    (hfo : t.exclusive r = true → c.fileOwner = none)
    (hlt : rest + c.holds t < 255 ∨ cacheLookup st r = none)
    (hfree : rendered (t.handler r) ∨ t.handler r = .app ∨
      (t.handler r = .file ∧ (listing ∨ (tryAcquireFileChan st k).isSome)) ∨ FreesOwn t st (c.stream i)) :
    StepOk t k rest st c (dispatchRequest t k st c i r listing) := by
  have hi' : (c.stream i).Unanswered := by tauto
  have hidle : (c.stream i).state ≠ .idle := by rcases hi with h | h <;> simp [h]
  -- The route noted on the connection is scratch: neither the count nor the streams see it.
  obtain ⟨d, hd⟩ : ∃ d : Conn, d = { c with matchedRoute := some r } := ⟨_, rfl⟩
  have hcd : ConnOk t k st d := by
    subst hd
    refine ⟨hc.h1, ?_, ?_, hc.reads2, hc.fetch2⟩
    · simp [Conn.h1Reads, hph, sendPhase]
    · simp [hph, fetchPhase]
  have hdn : d.holds t = c.holds t := by subst hd; rfl
  have hds : d.stream i = c.stream i := by subst hd; rfl
  have hdph : d.phase = .h2Active := by subst hd; exact hph
  have hdfo : d.fileOwner = c.fileOwner := by subst hd; rfl
  suffices StepOk t k rest st d (dispatchRequest t k st c i r listing) by
    exact ⟨this.counted, this.conn, hdn ▸ this.kept⟩
  rw [← hdn] at hn hlt
  rw [← hds] at hi hi' hidle hfree
  rw [← hdfo] at hfo
  have hstill : ∀ (c' : Conn), c'.fileOwner = d.fileOwner → ∀ j, j ≠ i → (d.stream j).state = .fetching →
      c'.fileOwner = d.fileOwner := fun c' h _ _ _ => h
  unfold dispatchRequest
  rw [← hd]
  simp only
  split
  case h_1 hs =>
    split_ifs with hsrc
    · exact stepOk_beginCached hn hcd hdph hi (hfo (by simp [Site.exclusive, hs, rendered, hsrc])) (by simp [hs, rendered])
        hsrc rfl hlt
    · exact stepOk_armInline hn hcd hi' (by simp [Site.cached, hsrc]) .refl rfl hdph rfl rfl (hstill _ rfl)
  case h_2 hs =>
    split_ifs with hsrc
    · exact stepOk_beginCached hn hcd hdph hi (hfo (by simp [Site.exclusive, hs, rendered, hsrc])) (by simp [hs, rendered])
        hsrc rfl hlt
    · exact stepOk_armInline hn hcd hi' (by simp [Site.cached, hsrc]) .refl rfl hdph rfl rfl (hstill _ rfl)
  case h_3 hs =>
    have hnone : d.fileOwner = none := hfo (by simp [Site.exclusive, hs])
    unfold beginFileResponse
    split_ifs with hl
    · exact stepOk_armFile hn hcd hdph hi hnone rfl fun _ _ => .rfl
    · split
      · rename_i hacq
        refine stepOk_freeSlot hn hcd hdph hidle ?_
        simpa [hs, rendered, hacq, hl] using hfree
      · rename_i hacq
        obtain ⟨hcache, hown⟩ := tryAcquire_quiet hacq
        exact stepOk_armFile hn hcd hdph hi hnone hcache hown
  case h_4 hs =>
    refine ⟨?_, ?_, Quiet.refl.kept⟩
    · have := holds_set_fresh (t := t) (s := { d.stream i with state := .app })
        (d.setStream i { d.stream i with state := .app }) hi' rfl rfl
      have hz : ({ d.stream i with state := .app } : StreamSlot).holds t = false := by simp [StreamSlot.holds]
      rw [hz] at this
      exact hn.mono (by simp at this; simp [this])
    · refine connOk_set rest hcd Quiet.refl.kept hdph rfl (by simp [StreamSlot.reads]) nofun ?_
      exact fun j hj hold hf => (hcd.fetch2 j hf).quiet .refl rfl hold
  case h_5 =>
    refine stepOk_freeSlot hn hcd hdph hidle ?_
    have hnr : rendered (t.handler r) = false := by
      unfold rendered
      split <;> simp_all
    rcases hfree with h | h | h | h
    · simp [hnr] at h
    · exact absurd h (by assumption)
    · exact absurd h.1 (by assumption)
    · exact h

theorem fetchingSlot_some (h : c.fetchingSlot = some i) : (c.stream i).state = .fetching := by
  obtain ⟨hlt, hp, -⟩ := List.findIdx?_eq_some_iff_getElem.mp h
  rw [Conn.stream, List.getD_eq_getElem _ _ hlt]
  simpa using hp

theorem stepOk_settleFetch (hn : Counted t (rest + c.holds t) st) (hc : ConnOk t k st c)
    (hph : c.phase = .h2Active) (hi : (c.stream i).state = .fetching)
    (hm : (c.stream i).matchedRoute = some r) (hcached : t.cached r = true) (ho : st.owner = some k)
    (hfill : Filling st r) : StepOk t k rest st c (settleFetch t k st c i r p) := by
  have hi' : (c.stream i).Unanswered := .inr (.inr hi)
  have hz := filling_free hn hfill
  obtain ⟨hfo, hrend, -⟩ := hc.fetch2 i hi
  have hnone : ∀ j, j ≠ i → (c.stream j).state = .fetching → False := fun j hj => no_other_fetch hc (.inr hfo) hj
  have hsettled := cacheFetchStep_settled (p := p) hn hfill hcached
  have hkept := kept_of_settled hsettled ho hz
  unfold settleFetch
  generalize hres : cacheFetchStep t st p = res at hsettled hkept
  cases hsettled with
  | pending howner hfill' hcount =>
    refine ⟨hz ▸ hcount, ?_, hkept⟩
    refine ⟨hc.h1, by simp [Conn.h1Reads, hph, sendPhase], by simp [hph, fetchPhase], hc.names_kept rest hkept, ?_⟩
    intro j hj
    by_cases hji : j = i
    · subst hji
      exact ⟨hfo, hrend, r, hm, hcached, fun _ => hfill'⟩
    · exact (hnone j hji hj).elim
  | ready howner hnames hcount =>
    refine ⟨?_, ?_, hkept.trans quiet_releaseFileChan.kept⟩
    · have hle : ({ c.armSlot i (c.stream i).bodyHandler r with fileOwner := none } : Conn).holds t ≤ c.holds t + 1 :=
        holds_set_le hi' rfl rfl
      refine (hcount.of_cache releaseFileChan_cache).mono (Nat.le_trans (Nat.add_le_add_left hle _) ?_)
      omega
    · refine connOk_set rest hc (hkept.trans quiet_releaseFileChan.kept) hph rfl ?_ nofun
        fun j hj _ hf => (hnone j hj hf).elim
      intro r' hr' e he
      obtain ⟨rfl, -, -⟩ := armed_reads hr'
      exact hnames e (releaseFileChan_cache ▸ he)
  | error howner hempty =>
    rename_i st₁
    obtain ⟨st₂, c', hq, hcache, hph', hflag, hstreams, -, heq⟩ := freeSlot_spec k st₁ c i
    have hcache₂ : (((c.stream i).releases.map (cacheReleaseForRoute st₂)).getD st₂).cache = none := by
      rw [hempty] at hcache
      cases (c.stream i).releases <;> simp [cacheReleaseForRoute, hcache]
    have hquiet : Quiet k st₁ (((c.stream i).releases.map (cacheReleaseForRoute st₂)).getD st₂) := by
      cases (c.stream i).releases with
      | none => exact hq
      | some r => exact hq.trans quiet_cacheReleaseForRoute
    simp only [heq]
    have hkept' := hkept.trans (hquiet.trans quiet_releaseFileChan).kept
    refine ⟨?_, ?_, hkept'⟩
    · have hh := holds_set_fresh (t := t) _ hi' hstreams hflag
      have hzero : ({ c.stream i with id := 0, state := .idle } : StreamSlot).holds t = false := by
        simp [StreamSlot.holds]
      rw [hzero] at hh
      have hc'0 : rest + ({ c' with fileOwner := none } : Conn).holds t = 0 := by
        show rest + c'.holds t = 0
        simp at hh
        omega
      simp only [hc'0]
      simp only [Counted, releaseFileChan_cache, hcache₂]
    · refine connOk_set rest (s := { c.stream i with id := 0, state := .idle }) hc hkept'
        (hph'.trans hph) hstreams (by simp [StreamSlot.reads]) nofun
        fun j hj _ hf => (hnone j hj hf).elim

theorem stepOk_driveCacheFetch (hn : Counted t (rest + c.holds t) st) (hc : ConnOk t k st c) (hph : c.phase = .h2Active)
    (hlt : ∀ i ∈ c.fetchingSlot, ∀ r ∈ (c.stream i).matchedRoute,
      rest + c.holds t < 255 ∨ cacheLookup st r = none) :
    StepOk t k rest st c (driveCacheFetch t k st c p) := by
  have hsame : StepOk t k rest st c (st, c) := ⟨hn, hc, Quiet.refl.kept⟩
  unfold driveCacheFetch
  split
  · exact hsame
  · rename_i i hslot
    have hi := fetchingSlot_some hslot
    obtain ⟨hfo, hrend, r, hm, hcached, hfill⟩ := hc.fetch2 i hi
    have hi' : (c.stream i).Unanswered := .inr (.inr hi)
    have hnone : ∀ j, j ≠ i → (c.stream j).state = .fetching → False := fun j hj => no_other_fetch hc (.inr hfo) hj
    simp only [hm]
    split_ifs with ho
    · exact stepOk_settleFetch hn hc hph hi hm hcached ho (hfill ho)
    · have htried := cacheTryOrFetch_tried (k := k) hn hcached
      generalize hres : cacheTryOrFetch t k st r = res at htried
      cases htried with
      | hit he =>
        exact stepOk_armHit hn hc hi' he ((hlt i hslot r hm).resolve_right (by simp [he])) quiet_releaseFileChan
          releaseFileChan_cache hph rfl rfl fun j hj hf => (hnone j hj hf).elim
      | busy hq hcache ho' =>
        refine ⟨hn.of_cache hcache, ?_, hq.kept⟩
        refine ⟨hc.h1, by simp [Conn.h1Reads, hph, sendPhase], by simp [hph, fetchPhase],
          hc.names_kept rest hq.kept, fun j hj => (hc.fetch2 j hj).quiet hq rfl rfl⟩
      | pending hz hcount hkept ho' hfill' =>
        rename_i st₂
        have hc₂ : ConnOk t k st₂ c := by
          refine ⟨hc.h1, by simp [Conn.h1Reads, hph, sendPhase], by simp [hph, fetchPhase],
            hc.names_kept rest hkept, fun j hj => ?_⟩
          by_cases hji : j = i
          · subst hji
            exact ⟨hfo, hrend, r, hm, hcached, fun _ => hfill'⟩
          · exact (hnone j hji hj).elim
        have := stepOk_settleFetch (p := p) (hz ▸ hcount) hc₂ hph hi hm hcached ho' hfill'
        exact ⟨this.counted, this.conn, hkept.trans this.kept⟩

/-! ## HTTP/1 connections -/

theorem holds_h1 (h : c.streams = []) : c.holds t = c.cacheRetained.toNat := by
  simp [Conn.holds, h]

theorem connOk_h1 (hs : c.streams = []) (hr : ∀ r, c.h1Reads t r = true → c.cacheRetained = true ∧ Names st r)
    (hf : fetchPhase c.phase = true →
      st.owner = some k ∧ ∃ r, c.matchedRoute = some r ∧ t.cached r = true ∧ Filling st r) : ConnOk t k st c where
  h1 := fun _ => hs
  reads1 := hr
  fetch1 := hf
  reads2 := by simp [hs]
  fetch2 := by intro i hi; simp [Conn.stream, hs] at hi

theorem connOk_still (hs : c.streams = []) (hp : sendPhase c.phase = false) (hf : fetchPhase c.phase = false) :
    ConnOk t k st c :=
  connOk_h1 hs (by simp [Conn.h1Reads, hp]) (by simp [hf])

theorem h1Reads_cached (h : c.h1Reads t r = true) : sendPhase c.phase = true ∧ c.matchedRoute = some r ∧ t.cached r = true := by
  simpa [Conn.h1Reads, and_assoc] using h

theorem stepOk_h1Dispatch (hn : Counted t (rest + c.holds t) st) (hc : ConnOk t k st c)
    (hph : c.phase = .dispatchRoute) (hlt : rest + c.holds t < 255 ∨ cacheLookup st r = none) :
    StepOk t k rest st c (h1Dispatch t k st c r) := by
  have hs : c.streams = [] := hc.h1 (by simp [hph])
  have hstill : ∀ st', ConnOk t k st' { c with matchedRoute := some r } := fun st' =>
    connOk_still hs (by simp [hph, sendPhase]) (by simp [hph, fetchPhase])
  unfold h1Dispatch
  simp only
  split_ifs with hrend hsrc
  · exact ⟨hn, hstill _, Quiet.refl.kept⟩
  · have hcached : t.cached r = true := by
      simp only [not_eq_true, Bool.not_eq_false'] at hrend
      simp only [Site.cached, hsrc, hrend, Bool.and_self]
    split
    · rename_i e he
      obtain ⟨hcur, hcomplete, hroute⟩ := cacheLookup_some he
      have hcount := counted_retained hn hcur hcomplete (hlt.resolve_right (by simp [he]))
      refine ⟨?_, connOk_h1 hs ?_ (by simp [fetchPhase]), (quiet_retained hcur).kept⟩
      · have hone : ({ c with matchedRoute := some r, cacheRetained := true, phase := .sendHeaders } : Conn).holds t = 1 :=
          holds_h1 hs
        exact hcount.mono (Nat.le_trans (Nat.add_le_add_left (Nat.le_of_eq hone) _) (by omega))
      · intro r' hr'
        refine ⟨rfl, fun e' he' => ?_⟩
        obtain rfl := Option.some.inj he'
        have : some r = some r' := (h1Reads_cached hr').2.1
        exact hroute.trans (Option.some.inj this)
    · split
      · exact ⟨hn, hstill _, Quiet.refl.kept⟩
      · rename_i st₁ hacq
        split
        · obtain ⟨hq, hcache, -⟩ := quiet_denied hacq
          exact ⟨hn.of_cache hcache, hstill _, hq.kept⟩
        · rename_i st₂ hal
          obtain ⟨hz, hcount, hkept, ho, hfill⟩ := alloc_spec hacq hal hn hcached
          refine ⟨?_, connOk_h1 hs (by simp [Conn.h1Reads, sendPhase]) fun _ => ⟨ho, r, rfl, hcached, hfill⟩, hkept⟩
          exact hcount.mono (Nat.le_of_eq hz)
  · refine ⟨hn, connOk_h1 hs ?_ (by simp [fetchPhase]), Quiet.refl.kept⟩
    intro r' hr'
    obtain ⟨-, hm, hcached⟩ := h1Reads_cached hr'
    obtain rfl := Option.some.inj hm
    simp only [Site.cached, and_eq_true] at hcached
    simp [hcached.1.1, hcached.1.2] at hsrc

theorem stepOk_h1CacheStream (hn : Counted t (rest + c.holds t) st) (hc : ConnOk t k st c)
    (hph : c.phase = .cacheStream) : StepOk t k rest st c (h1CacheStream t st c p) := by
  have hs : c.streams = [] := hc.h1 (by simp [hph])
  obtain ⟨ho, r, hm, hcached, hfill⟩ := hc.fetch1 (by simp [hph, fetchPhase])
  have hz := filling_free hn hfill
  unfold h1CacheStream
  split
  · exact ⟨hn, connOk_still hs (by simp [sendPhase]) (by simp [fetchPhase]), Quiet.refl.kept⟩
  · rename_i e he
    split_ifs with hchan
    · exact ⟨hn, connOk_still hs (by simp [sendPhase]) (by simp [fetchPhase]), Quiet.refl.kept⟩
    · obtain ⟨hroute, hinc⟩ := hfill e he
      have hret : e.retain = 0 := by
        simp only [Counted, he] at hn
        exact hn.2.2 hinc
      have hsettled : Settled t st _ (settleFill t st (e.fill t p.got) p) := settleFill_settled hcached hroute hinc hret
      have hkept := kept_of_settled hsettled ho hz
      generalize settleFill t st (e.fill t p.got) p = res at hsettled hkept
      cases hsettled with
      | pending howner hfill' hcount =>
        refine ⟨hz ▸ hcount, connOk_h1 hs ?_ fun _ => ⟨howner.trans ho, r, hm, hcached, hfill'⟩, hkept⟩
        simp [Conn.h1Reads, hph, sendPhase]
      | ready howner hnames hcount =>
        refine ⟨?_, connOk_h1 hs ?_ (by simp [fetchPhase]), hkept⟩
        · have hone : ({ c with cacheRetained := true, phase := .sendHeaders } : Conn).holds t = 1 := holds_h1 hs
          exact hcount.mono (Nat.le_trans (Nat.add_le_add_left (Nat.le_of_eq hone) _) (by omega))
        · intro r' hr'
          obtain ⟨-, hm', -⟩ := h1Reads_cached hr'
          obtain rfl := Option.some.inj (hm.symm.trans hm')
          exact ⟨rfl, hnames⟩
      | error howner hempty =>
        refine ⟨?_, connOk_still hs (by simp [sendPhase]) (by simp [fetchPhase]), hkept⟩
        show Counted t (rest + c.holds t) _
        rw [hz]
        simp only [Counted, hempty]

theorem counted_unflag {o : Option Nat} {b : Bool} (hn : Counted t (rest + b.toNat) st) :
    Counted t rest (match o with
      | some r => if b then cacheReleaseForRoute st r else st
      | none => st) := by
  cases o with
  | none => exact hn.mono (Nat.le_add_right _ _)
  | some r =>
    cases b with
    | false => exact hn
    | true => exact counted_release hn

theorem quiet_unflag {o : Option Nat} {b : Bool} : Quiet k st (match o with
      | some r => if b then cacheReleaseForRoute st r else st
      | none => st) := by
  cases o with
  | none => exact .refl
  | some r =>
    cases b with
    | false => exact .refl
    | true => exact quiet_cacheReleaseForRoute

theorem finishResponse_still (c : Conn) (b : Bool) :
    (finishResponse c b).streams = c.streams ∧ (finishResponse c b).cacheRetained = c.cacheRetained ∧
      sendPhase (finishResponse c b).phase = false ∧ fetchPhase (finishResponse c b).phase = false := by
  cases b <;> exact ⟨rfl, rfl, rfl, rfl⟩

theorem stepOk_h1DrainSend {drained keepalive : Bool} (hn : Counted t (rest + c.holds t) st) (hc : ConnOk t k st c)
    (hph : c.phase = .drainSend) : StepOk t k rest st c (h1DrainSend k st c drained keepalive) := by
  have hs : c.streams = [] := hc.h1 (by simp [hph])
  have hn₁ := hn.of_cache (releaseFileChan_cache : (releaseFileChan st k).cache = st.cache)
  rw [holds_h1 hs] at hn₁
  have hq : Quiet k st (releaseFileChan st k) := quiet_releaseFileChan
  -- The flag either stays, with the count, or goes down with it.
  have hflag : ∀ (st' : Store) (d : Conn), d.streams = [] → d.phase = .drainSend →
      Counted t (rest + d.cacheRetained.toNat) st' → Quiet k st st' →
      StepOk t k rest st c (st', if drained then finishResponse d keepalive else d) := by
    intro st' d hd hdp hcount hquiet
    refine ⟨?_, ?_, hquiet.kept⟩
    · cases drained with
      | false => simpa [holds_h1 hd] using hcount
      | true =>
        obtain ⟨h1, h2, -, -⟩ := finishResponse_still d keepalive
        simpa [holds_h1 (h1.trans hd), h2] using hcount
    · cases drained with
      | false => exact connOk_still hd (by simp [hdp, sendPhase]) (by simp [hdp, fetchPhase])
      | true =>
        obtain ⟨h1, -, h3, h4⟩ := finishResponse_still d keepalive
        exact connOk_still (h1.trans hd) h3 h4
  obtain ⟨phase, matched, flag, streams, last, fileOwner, captured⟩ := c
  cases matched with
  | none => exact hflag _ _ hs hph hn₁ hq
  | some r =>
    cases flag with
    | false => exact hflag _ _ hs hph hn₁ hq
    | true =>
      exact hflag _ ⟨phase, some r, false, streams, last, fileOwner, captured⟩ hs hph (counted_release hn₁)
        (hq.trans quiet_cacheReleaseForRoute)

theorem stepOk_slotRelease (hn : Counted t (rest + c.holds t) st) :
    StepOk t k rest st c (slotRelease k st c) := by
  have hn₁ : Counted t (rest + c.cacheRetained.toNat) (releaseFileChan st k) :=
    (hn.of_cache releaseFileChan_cache).mono (by simp only [Conn.holds]; omega)
  refine ⟨?_, connOk_still rfl rfl rfl, (quiet_releaseFileChan.trans quiet_unflag).kept⟩
  show Counted t (rest + (({} : Conn).holds t)) _
  rw [holds_h1 rfl]
  exact counted_unflag hn₁

/-! ## Every step -/

theorem stepOk_same (hn : Counted t (rest + c.holds t) st) (hc : ConnOk t k st c) : StepOk t k rest st c (st, c) :=
  ⟨hn, hc, Quiet.refl.kept⟩

theorem stepOk_setInert (hn : Counted t (rest + c.holds t) st) (hc : ConnOk t k st c) (hph : c'.phase = .h2Active)
    (hs : c'.streams = c.streams.set i s) (hf : c'.cacheRetained = c.cacheRetained)
    (hfo : c'.fileOwner = c.fileOwner) (hsend : s.state ≠ .sending) (hfetch : s.state ≠ .fetching)
    (hle : i < c.streams.length) : StepOk t k rest st c (st, c') := by
  refine ⟨?_, ?_, Quiet.refl.kept⟩
  · have := holds_set (t := t) hle hs hf
    have hz : s.holds t = false := by simp [StreamSlot.holds, hsend]
    rw [hz, Bool.toNat_false] at this
    refine hn.mono (Nat.add_le_add_left ?_ _)
    show c'.holds t ≤ c.holds t
    omega
  · refine connOk_set rest hc Quiet.refl.kept hph hs (by simp [StreamSlot.reads, hsend])
      (fun h => absurd h hfetch) ?_
    exact fun j hj hold hf => (hc.fetch2 j hf).quiet .refl hfo hold

theorem connOk_scratch (hc : ConnOk t k st c) (hph : c.phase = .h2Active) (m : Option Nat) (cap : Option Captured) :
    ConnOk t k st { c with matchedRoute := m, captured := cap } :=
  ⟨hc.h1, by simp [Conn.h1Reads, hph, sendPhase], by simp [hph, fetchPhase], hc.reads2, hc.fetch2⟩

theorem stepOk_emitBody {m : Option Nat} {last : Bool} (hn : Counted t (rest + c.holds t) st) (hc : ConnOk t k st c)
    (hph : c.phase = .h2Active) (hi : (c.stream i).state = .sending) :
    StepOk t k rest st c (emitBody k st c i m last) := by
  have hc' := connOk_scratch hc hph m none
  unfold emitBody
  simp only
  split_ifs
  · have := stepOk_freeSlot (c := { c with matchedRoute := m, captured := none }) (i := i) hn hc' hph
      (by show (c.stream i).state ≠ _; simp [hi]) (freesOwn_of_sending hn hi)
    exact ⟨this.counted, this.conn, this.kept⟩
  · exact ⟨hn, hc', Quiet.refl.kept⟩

theorem stepOk_h2Open {id : Nat} (hn : Counted t (rest + c.holds t) st) (hc : ConnOk t k st c)
    (hph : c.phase = .h2Active) : StepOk t k rest st c (c.step t k st (.h2Open id)) := by
  simp only [Conn.step, Conn.onH2, hph, if_true]
  split_ifs
  · exact stepOk_same hn hc
  · unfold Conn.allocSlot
    split_ifs
    · exact stepOk_same hn hc
    · cases hfind : c.streams.findIdx? fun s => s.state = .idle with
      | none => exact stepOk_same hn hc
      | some i =>
        obtain ⟨hlt, -, -⟩ := List.findIdx?_eq_some_iff_getElem.mp hfind
        exact stepOk_setInert (s := { c.stream i with id := id, state := .open }) hn hc hph rfl rfl rfl (by simp)
          (by simp) hlt

theorem stepOk_h1Move {p : Phase} {unroute : Bool} (hn : Counted t (rest + c.holds t) st) (hc : ConnOk t k st c) :
    StepOk t k rest st c (c.step t k st (.h1Move p unroute)) := by
  obtain ⟨m, hm⟩ : ∃ m, m = if unroute then none else c.matchedRoute := ⟨_, rfl⟩
  simp only [Conn.step, ← hm]
  split_ifs with hout hinert
  · exact stepOk_same hn hc
  · exact stepOk_same hn hc
  · have hs : c.streams = [] := hc.h1 (by tauto)
    refine ⟨hn, connOk_h1 hs ?_ ?_, Quiet.refl.kept⟩
    · intro r hr
      obtain ⟨hp, hmr, hcached⟩ := h1Reads_cached hr
      refine absurd ⟨.inr hp, ?_⟩ hinert
      simp only [Site.cached, and_eq_true] at hcached
      simp only at hmr
      simp [hmr, hcached.2]
    · intro hp
      exact absurd (by simp [hp]) hout

theorem stepOk_h1SendHeaders {head : Bool} (hn : Counted t (rest + c.holds t) st) (hc : ConnOk t k st c)
    (hph : c.phase = .sendHeaders) :
    StepOk t k rest st c (st, { c with phase := if head then .drainSend else .sendBody }) := by
  have hs : c.streams = [] := hc.h1 (by simp [hph])
  refine ⟨hn, connOk_h1 hs ?_ (by cases head <;> simp [fetchPhase]), Quiet.refl.kept⟩
  intro r hr
  obtain ⟨-, hm, hcached⟩ := h1Reads_cached hr
  exact hc.reads1 r (by simp only at hm; simp [Conn.h1Reads, hph, sendPhase, hm, hcached])

theorem stepOk_h1SendBody {keepalive : Bool} (hn : Counted t (rest + c.holds t) st) (hc : ConnOk t k st c) :
    StepOk t k rest st c (c.step t k st (.h1SendBody keepalive)) := by
  simp only [Conn.step]
  split
  · rename_i r hph hm
    have hs : c.streams = [] := hc.h1 (by simp [hph])
    split
    · obtain ⟨h1, h2, h3, h4⟩ := finishResponse_still c keepalive
      refine ⟨?_, connOk_still (h1.trans hs) h3 h4, Quiet.refl.kept⟩
      simpa [Conn.holds, h1, h2] using hn
    · exact ⟨hn, connOk_still hs (by simp [sendPhase]) (by simp [fetchPhase]), Quiet.refl.kept⟩
    · exact stepOk_same hn hc
  · exact stepOk_same hn hc

theorem stepOk_enterH2 (hn : Counted t (rest + c.holds t) st) (hc : ConnOk t k st c) :
    StepOk t k rest st c (c.step t k st .enterH2) := by
  simp only [Conn.step]
  split_ifs with hph
  · have hs : c.streams = [] := hc.h1 (by simp [hph])
    have hmem : ∀ s ∈ List.replicate MAX_STREAMS ({} : StreamSlot), s = {} := fun s h => (List.mem_replicate.mp h).2
    refine ⟨?_, ⟨by simp, by simp [Conn.h1Reads, sendPhase], by simp [fetchPhase], ?_, ?_⟩, Quiet.refl.kept⟩
    · rw [holds_h1 hs] at hn
      refine hn.mono (Nat.le_of_eq ?_)
      simp [Conn.holds, StreamSlot.holds]
    · intro s hs' r hr
      rw [hmem s hs'] at hr
      simp [StreamSlot.reads] at hr
    · intro i hi
      simp only [Conn.stream] at hi
      by_cases hlt : i < (List.replicate MAX_STREAMS ({} : StreamSlot)).length
      · rw [List.getD_eq_getElem _ _ hlt, List.getElem_replicate] at hi
        cases hi
      · rw [List.getD_eq_default _ _ (Nat.le_of_not_lt hlt)] at hi
        cases hi
  · exact stepOk_same hn hc

theorem stepOk_step {op : Op} (hn : Counted t (rest + c.holds t) st) (hc : ConnOk t k st c)
    (hb : Balanced t srv ⟨k, op⟩) (hst : srv.store = st) (hcn : srv.conn k = c)
    (hrest : srv.holders t = rest + c.holds t) : StepOk t k rest st c (c.step t k st op) := by
  subst hst
  have hsame := stepOk_same hn hc
  have honH2 : ∀ res : Store × Conn, (c.phase = .h2Active → StepOk t k rest srv.store c res) →
      StepOk t k rest srv.store c (c.onH2 srv.store res) := by
    intro res hres
    unfold Conn.onH2
    split_ifs with h
    · exact hres h
    · exact hsame
  simp only [Balanced, hcn, Countable, hrest] at hb
  cases op with
  | accept =>
    simp only [Conn.step]
    split_ifs with h
    · exact ⟨hn, connOk_still (hc.h1 (by simp [h])) rfl rfl, Quiet.refl.kept⟩
    · exact hsame
  | h1Dispatch r =>
    simp only [Conn.step]
    split_ifs with h
    · exact stepOk_h1Dispatch hn hc h hb
    · exact hsame
  | h1FetchContent =>
    simp only [Conn.step]
    split_ifs with h
    · refine ⟨hn, connOk_h1 (hc.h1 (by simp [h])) (by simp [Conn.h1Reads, sendPhase]) fun _ => ?_, Quiet.refl.kept⟩
      exact hc.fetch1 (by simp [h, fetchPhase])
    · exact hsame
  | h1CacheStream p =>
    simp only [Conn.step]
    split_ifs with h
    · exact stepOk_h1CacheStream hn hc h
    · exact hsame
  | h1SendHeaders head =>
    by_cases h : c.phase = .sendHeaders
    · simp only [Conn.step, if_pos h]
      exact stepOk_h1SendHeaders hn hc h
    · simp only [Conn.step, if_neg h]
      exact hsame
  | h1SendBody keepalive => exact stepOk_h1SendBody hn hc
  | h1DrainSend drained keepalive =>
    simp only [Conn.step]
    split_ifs with h
    · exact stepOk_h1DrainSend hn hc h
    · exact hsame
  | h1Move p unroute => exact stepOk_h1Move hn hc
  | enterH2 => exact stepOk_enterH2 hn hc
  | close =>
    simp only [Conn.step]
    split_ifs
    · exact hsame
    · exact stepOk_slotRelease hn
  | h2Open id =>
    by_cases h : c.phase = .h2Active
    · exact stepOk_h2Open hn hc h
    · simp only [Conn.step, Conn.onH2, if_neg h]
      exact hsame
  | h2Dispatch i r listing =>
    refine honH2 _ fun h => ?_
    split_ifs with hi hx
    · refine stepOk_setInert (s := { c.stream i with state := .pending }) hn hc h rfl rfl rfl (by simp) (by simp) ?_
      exact lt_of_state_ne (by rcases hi with hi | hi <;> simp [hi])
    · exact stepOk_dispatchRequest hn hc h hi (fun he => by simpa [he] using hx) hb.1 hb.2
    · exact hsame
  | h2Upgrade i r =>
    refine honH2 _ fun h => ?_
    split_ifs with hi
    · exact stepOk_setInert (s := { c.stream i with state := .wsActive }) hn hc h rfl rfl rfl (by simp) (by simp)
        (lt_of_state_ne (by simp [hi]))
    · exact hsame
  | h2Fetch p => exact honH2 _ fun h => stepOk_driveCacheFetch hn hc h hb
  | h2Emit i last =>
    refine honH2 _ fun h => ?_
    split_ifs with hi
    · exact stepOk_emitBody hn hc h hi
    · exact hsame
  | h2Stall i =>
    refine honH2 _ fun h => ?_
    split_ifs
    · exact ⟨hn, connOk_scratch hc h _ _, Quiet.refl.kept⟩
    · exact hsame
  | h2Resume last =>
    refine honH2 _ fun h => ?_
    split
    · exact hsame
    · rename_i cap hcap
      exact stepOk_emitBody hn hc h (hb cap hcap).2
  | h2End i =>
    refine honH2 _ fun h => ?_
    split_ifs with hi
    · exact hsame
    · exact stepOk_freeSlot hn hc h hi hb

theorem ConnOk.kept (hc : ConnOk t j st c) (hk : Kept k n st st') (hj : j ≠ k) (hle : c.holds t ≤ n) :
    ConnOk t j st' c where
  h1 := hc.h1
  reads1 := by
    intro r hr
    obtain ⟨hf, hnames⟩ := hc.reads1 r hr
    refine ⟨hf, hk.names ?_ r hnames⟩
    simp only [Conn.holds, hf, Bool.toNat_true] at hle
    omega
  fetch1 := by
    intro hp
    obtain ⟨ho, r, hm, hcached, hfill⟩ := hc.fetch1 hp
    exact ⟨(hk.owner j hj).mpr ho, r, hm, hcached, hk.filling j hj ho r hfill⟩
  reads2 := by
    intro s hs r hr
    have := holds_pos hs (reads_holds hr)
    exact hk.names (by omega) r (hc.reads2 s hs r hr)
  fetch2 := by
    intro i hi
    obtain ⟨hfo, hrend, r, hm, hcached, hfill⟩ := hc.fetch2 i hi
    refine ⟨hfo, hrend, r, hm, hcached, fun ho => ?_⟩
    have ho' := (hk.owner j hj).mp ho
    exact hk.filling j hj ho' r (hfill ho')

structure Inv (t : Site) (srv : Server) : Prop where
  counted : Counted t (srv.holders t) srv.store
  conns : ∀ k, k < srv.conns.length → ConnOk t k srv.store (srv.conn k)

theorem holds_le_holders (hk : k < srv.conns.length) : (srv.conn k).holds t ≤ srv.holders t := by
  have hle : ∀ x ∈ srv.conns.map (Conn.holds t), 0 ≤ x := fun _ _ => Nat.zero_le _
  refine List.single_le_sum hle _ (mem_map.mpr ⟨srv.conn k, ?_, rfl⟩)
  rw [Server.conn, List.getD_eq_getElem _ _ hk]
  exact getElem_mem hk

theorem inv_step {ev : Event} (h : Inv t srv) (hb : Balanced t srv ev) :
    Inv t ((machine t).step srv ev).1 := by
  obtain ⟨k, op⟩ := ev
  simp only [machine]
  split_ifs with hk
  · have hle := holds_le_holders (t := t) hk
    obtain ⟨rest, hrest⟩ : ∃ rest, srv.holders t = rest + (srv.conn k).holds t := ⟨srv.holders t - (srv.conn k).holds t, by omega⟩
    have hstep := stepOk_step (hrest ▸ h.counted) (h.conns k hk) hb rfl rfl hrest
    generalize (srv.conn k).step t k srv.store op = res at hstep
    have hsum := Table.sum_map_set (Conn.holds t) res.2 {} hk
    refine ⟨?_, ?_⟩
    · show Counted t ((srv.conns.set k res.2).map (Conn.holds t)).sum res.1
      have hnew : ((srv.conns.set k res.2).map (Conn.holds t)).sum = rest + res.2.holds t := by
        simp only [Server.holders, Server.conn] at hrest
        omega
      rw [hnew]
      exact hstep.counted
    · intro j hj
      simp only [length_set] at hj
      show ConnOk t j res.1 ((srv.conns.set k res.2).getD j {})
      by_cases hjk : j = k
      · rw [hjk, Table.getD_set_self hk]
        exact hstep.conn
      · rw [Table.getD_set_ne hjk]
        exact (h.conns j hj).kept hstep.kept hjk (hrest ▸ holds_le_holders hj)
  · exact h

theorem inv_init (slots : Nat) : Inv t (Server.init slots) := by
  have hmem : ∀ k, (Server.init slots).conn k = {} := by
    intro k
    simp only [Server.conn, Server.init]
    by_cases hk : k < (List.replicate slots ({} : Conn)).length
    · rw [List.getD_eq_getElem _ _ hk, List.getElem_replicate]
    · rw [List.getD_eq_default _ _ (Nat.le_of_not_lt hk)]
  refine ⟨?_, fun k _ => by rw [hmem]; exact connOk_still rfl rfl rfl⟩
  show Counted t ((List.replicate slots ({} : Conn)).map (Conn.holds t)).sum {}
  rw [List.map_replicate, List.sum_replicate]
  simp [Counted, Conn.holds]

theorem readers_le_holds (hc : ConnOk t k st c) (r : Nat) : c.readers t r ≤ c.holds t := by
  have h1 : (c.h1Reads t r).toNat ≤ c.cacheRetained.toNat := by
    cases h : c.h1Reads t r with
    | false => exact Nat.zero_le _
    | true => rw [(hc.reads1 r h).1]
  have h2 : (c.streams.map fun s => (s.reads t r).toNat).sum ≤ (c.streams.map fun s => (s.holds t).toNat).sum := by
    refine List.sum_le_sum fun s _ => ?_
    cases h : s.reads t r with
    | false => exact Nat.zero_le _
    | true => rw [reads_holds h]
  exact Nat.add_le_add h1 h2

theorem readers_names (hc : ConnOk t k st c) (h : c.readers t r ≠ 0) : Names st r := by
  by_cases h1 : c.h1Reads t r = true
  · exact (hc.reads1 r h1).2
  · have hsum : (c.streams.map fun s => (s.reads t r).toNat).sum ≠ 0 := by
      simpa [Conn.readers, h1] using h
    obtain ⟨x, hx, hx0⟩ : ∃ x ∈ c.streams.map fun s => (s.reads t r).toNat, x ≠ 0 := by
      by_contra hall
      push Not at hall
      exact hsum (List.sum_eq_zero hall)
    obtain ⟨s, hs, rfl⟩ := mem_map.mp hx
    exact hc.reads2 s hs r (by simpa using hx0)

theorem retained_of_inv (h : Inv t srv) : Retained t srv := by
  intro r hr
  have hall : ∀ c ∈ srv.conns, ∃ k, ConnOk t k srv.store c := by
    intro c hc
    obtain ⟨k, hk, rfl⟩ := mem_iff_getElem.mp hc
    have := h.conns k hk
    rw [Server.conn, List.getD_eq_getElem _ _ hk] at this
    exact ⟨k, this⟩
  have hle : srv.readers t r ≤ srv.holders t := by
    refine List.sum_le_sum fun c hc => ?_
    obtain ⟨k, hk⟩ := hall c hc
    exact readers_le_holds hk r
  obtain ⟨x, hx, hx0⟩ : ∃ x ∈ srv.conns.map (Conn.readers t r), x ≠ 0 := by
    by_contra hno
    push Not at hno
    exact hr (List.sum_eq_zero hno)
  obtain ⟨c, hc, rfl⟩ := mem_map.mp hx
  obtain ⟨k, hk⟩ := hall c hc
  have hnames := readers_names hk hx0
  have hcount := h.counted
  unfold Counted at hcount
  split at hcount
  · omega
  · rename_i e he
    refine ⟨e, he, hnames e he, ?_, by omega⟩
    by_contra hinc
    have := hcount.2.2 (by simpa using hinc)
    omega

/-- In every run in which no slot is freed with a route that is not its stream's own response while that entry is
held, no body is resumed after its stream and at most 255 hold an entry, the count covers the readers. -/
theorem readers_retained (t : Site) (slots : Nat) (evs : List Event)
    (h : (machine t).Along (Balanced t) (Server.init slots) evs) :
    Retained t ((machine t).run (Server.init slots) evs).1 :=
  retained_of_inv ((machine t).run_invariant (fun _ _ hs hb => inv_step hs hb) (inv_init slots) h)

def exampleSite : Site where
  handler r := if r < 2 then .static else .app
  source r := r < 2

def twoReaders : List Event :=
  [⟨0, .accept⟩, ⟨0, .enterH2⟩, ⟨0, .h2Open 1⟩, ⟨0, .h2Dispatch 0 0 false⟩,
    ⟨0, .h2Fetch { inReady := true, got := 100, hupAfter := true }⟩, ⟨0, .h2Emit 0 true⟩,
    ⟨1, .accept⟩, ⟨1, .enterH2⟩, ⟨1, .h2Open 1⟩, ⟨1, .h2Dispatch 0 0 false⟩, ⟨1, .h2Emit 0 false⟩]

/-- A request for the other route on the first connection then waits for the second's response. -/
theorem readers_retained_twoReaders :
    (machine exampleSite).Along (Balanced exampleSite) (Server.init 2)
        (twoReaders ++ [⟨0, .h2Open 3⟩, ⟨0, .h2Dispatch 0 1 false⟩]) ∧
      ((machine exampleSite).run (Server.init 2)
        (twoReaders ++ [⟨0, .h2Open 3⟩, ⟨0, .h2Dispatch 0 1 false⟩])).1.readers exampleSite 0 = 1 ∧
      Retained exampleSite ((machine exampleSite).run (Server.init 2)
        (twoReaders ++ [⟨0, .h2Open 3⟩, ⟨0, .h2Dispatch 0 1 false⟩])).1 :=
  have h : (machine exampleSite).Along (Balanced exampleSite) (Server.init 2)
      (twoReaders ++ [⟨0, .h2Open 3⟩, ⟨0, .h2Dispatch 0 1 false⟩]) := by decide +kernel
  ⟨h, by decide +kernel, readers_retained _ _ _ h⟩

/-- A slot still names route 0 when its next stream is freed: another's count is given back, and the region its
response is read from is evicted. -/
theorem reader_evicted_reusedSlot :
    ¬ ∀ (t : Site) (slots : Nat) (evs : List Event), Retained t ((machine t).run (Server.init slots) evs).1 := by
  intro h
  obtain ⟨e, he, hr, -, -⟩ := h exampleSite 2
    (twoReaders ++ [⟨0, .h2Open 3⟩, ⟨0, .h2End 0⟩, ⟨0, .h2Open 5⟩, ⟨0, .h2Dispatch 0 1 false⟩]) 0 (by decide +kernel)
  have hcache : (((machine exampleSite).run (Server.init 2) (twoReaders ++
      [⟨0, .h2Open 3⟩, ⟨0, .h2End 0⟩, ⟨0, .h2Open 5⟩, ⟨0, .h2Dispatch 0 1 false⟩])).1.store.cache.map
        CacheEntry.routeIndex) = some 1 := by decide +kernel
  rw [he] at hcache
  simp [hr] at hcache

end Wave.Http.BodyCache
