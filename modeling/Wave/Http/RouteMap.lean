import Wave.Http.DynRoutes
import Wave.Lib.Keyed
import Wave.Lib.Machine
import Mathlib.Data.List.AList
import Mathlib.Data.List.Perm.Basic

/-! # The dynamic route table as a map (`http/server/routes.rs`)

Each key has the row of the value it was last given, until it is removed or refused (`table_map_iff`). -/

namespace Wave.Http.Routing

open Lib Common

def hostOf (value : Bytes) : Option Bytes :=
  match dynField value (ascii "host=") with
  | none | some [] => some []
  | some h => (canonicalAuthority MAX_DYN_HOST h DYN_ROUTE_DEFAULT_PORT).toOption

def pathOf (value : Bytes) : Bytes := (dynField value (ascii "path=")).getD []

def entriesOf (value : Bytes) : List Bytes := (((dynField value (ascii "be=")).getD []).splitOn 0x2C).filter (· ≠ [])

/-- The row of a key: host and path in full, and the backends among its entries, as many as a row holds. -/
def wholeRow (p : TableProfile) (key value host : Bytes) : DynRoute where
  key := key
  host := host
  path := pathOf value
  backends := ((entriesOf value).filterMap (parseBackend p)).take p.maxRouteBackends
  used := true

abbrev RouteMap := AList fun _ : Bytes => DynRoute

structure TableMaps where
  live : RouteMap := ∅
  shadow : RouteMap := ∅
  dropped : Nat := 0

namespace TableMaps

def arena (m : TableMaps) (shadow : Bool) : RouteMap := if shadow then m.shadow else m.live

def setArena (m : TableMaps) (shadow : Bool) (rows : RouteMap) : TableMaps :=
  if shadow then { m with shadow := rows } else { m with live := rows }

/-- A new key is dropped when the table is full; a value is refused when its host or path does not fit, and its key is
dropped. -/
def upsert (p : TableProfile) (m : TableMaps) (key value : Bytes) (shadow : Bool) : TableMaps :=
  let rows := m.arena shadow
  if key ∉ rows ∧ p.maxDynRoutes ≤ rows.keys.length then { m with dropped := m.dropped + 1 }
  else
    match hostOf value with
    | none => { m.setArena shadow (rows.erase key) with dropped := m.dropped + 1 }
    | some host =>
      if (pathOf value).length > p.maxPath then
        { m.setArena shadow (rows.erase key) with dropped := m.dropped + 1 }
      else
        let row := wholeRow p key value host
        { m.setArena shadow (rows.insert key row) with
          dropped := m.dropped + ((entriesOf value).length - row.backends.length) }

def apply (p : TableProfile) (m : TableMaps) : TableOp → TableMaps
  | .upsert key value shadow => m.upsert p key value shadow
  | .remove key shadow => m.setArena shadow ((m.arena shadow).erase key)
  | .clearShadow => { m with shadow := ∅ }
  | .swapShadow => { m with live := m.shadow }

end TableMaps

def rowKey (r : DynRoute) : Option Bytes := if r.used then some r.key else none

/-- An arena that is a map: each key has at most one row, and it is the map's. -/
structure IsMap (p : TableProfile) (rows : List DynRoute) (m : RouteMap) : Prop where
  slots : rows.length = p.maxDynRoutes
  apart : Keyed.Apart rowKey rows
  lookup : ∀ k, Keyed.lookup rowKey rows k = m.lookup k

structure IsMaps (p : TableProfile) (t : DynRoutes) (m : TableMaps) : Prop where
  live : IsMap p t.live m.live
  shadow : IsMap p t.shadow m.shadow
  dropped : t.dropped = UInt32.ofNat m.dropped

def tableMachine (p : TableProfile) : Machine (DynRoutes × TableMaps) TableOp Unit where
  step s op := ((s.1.apply p op, s.2.apply p op), [])

def Holdable (p : TableProfile) (s : DynRoutes × TableMaps) : TableOp → Prop
  | .upsert key value shadow =>
    upsertSlot DynRoute.used DynRoute.key (s.1.arena shadow) key ≠ none → hostOf value ≠ none →
      key.length ≤ MAX_DYN_KEY ∧ (pathOf value).length ≤ p.maxPath
  | _ => True

theorem fillBackends_eq (p : TableProfile) (segs : List Bytes) {backends : List Backend}
    (h : backends.length ≤ p.maxRouteBackends) :
    fillBackends p segs backends = (backends ++ segs.filterMap (parseBackend p)).take p.maxRouteBackends := by
  induction segs generalizing backends with
  | nil => rw [fillBackends, List.filterMap_nil, append_nil, take_of_length_le h]
  | cons seg segs ih =>
    rw [fillBackends]
    cases hseg : parseBackend p seg with
    | none => rw [List.filterMap_cons_none hseg]; exact ih h
    | some b =>
      rw [List.filterMap_cons_some hseg]
      dsimp only
      split
      next hroom =>
        rw [ih (by rw [length_append, length_singleton]; omega), append_assoc, singleton_append]
      next hfull =>
        have hall : backends.length = p.maxRouteBackends := by omega
        rw [ih h, ← hall, take_left, take_left]

theorem dynFill_eq (p : TableProfile) (key value : Bytes) :
    dynFill p key value = (hostOf value).map fun host =>
      ({ wholeRow p key value host with key := key.take MAX_DYN_KEY, path := (pathOf value).take p.maxPath },
        (entriesOf value).length - (wholeRow p key value host).backends.length) := by
  have hfill : fillBackends p (entriesOf value) [] =
      ((entriesOf value).filterMap (parseBackend p)).take p.maxRouteBackends := fillBackends_eq p _ (Nat.zero_le _)
  unfold dynFill
  dsimp only
  rw [← entriesOf, hfill]
  rfl

section Slots

variable {p : TableProfile} {rows : List DynRoute} {m : RouteMap} {k : Bytes} {i : Nat} {old new : DynRoute}

theorem rowKey_eq_some {r : DynRoute} : rowKey r = some k ↔ (r.used && r.key = k) = true := by
  unfold rowKey
  cases r.used <;> simp

theorem rowKey_eq_none {r : DynRoute} : rowKey r = none ↔ (!r.used) = true := by
  unfold rowKey
  cases r.used <;> simp

theorem upsertSlot_some (h : upsertSlot DynRoute.used DynRoute.key rows k = some i) :
    ∃ old, rows[i]? = some old ∧
      (rowKey old = some k ∨ (Keyed.lookup rowKey rows k = none ∧ rowKey old = none)) := by
  unfold upsertSlot at h
  cases hfound : rows.findIdx? fun r => r.used && r.key = k with
  | some j =>
    rw [hfound, Option.some_or] at h
    obtain ⟨hlt, hat, -⟩ := List.findIdx?_eq_some_iff_getElem.mp hfound
    cases h
    exact ⟨_, List.getElem?_eq_getElem hlt, .inl (rowKey_eq_some.mpr hat)⟩
  | none =>
    rw [hfound, Option.none_or] at h
    obtain ⟨hlt, hat, -⟩ := List.findIdx?_eq_some_iff_getElem.mp h
    refine ⟨_, List.getElem?_eq_getElem hlt, .inr ⟨Keyed.lookup_eq_none.mpr fun r hr hkey => ?_, rowKey_eq_none.mpr hat⟩⟩
    exact absurd (rowKey_eq_some.mp hkey) (by simpa using List.findIdx?_eq_none_iff.mp hfound r hr)

theorem upsertSlot_none (h : upsertSlot DynRoute.used DynRoute.key rows k = none) :
    Keyed.lookup rowKey rows k = none ∧ ∀ r ∈ rows, (rowKey r).isSome = true := by
  unfold upsertSlot at h
  rw [Option.or_eq_none_iff] at h
  refine ⟨Keyed.lookup_eq_none.mpr fun r hr hkey => ?_, fun r hr => ?_⟩
  · exact absurd (rowKey_eq_some.mp hkey) (by simpa using List.findIdx?_eq_none_iff.mp h.1 r hr)
  · have hused := List.findIdx?_eq_none_iff.mp h.2 r hr
    rw [← Option.ne_none_iff_isSome, ne_eq, rowKey_eq_none]
    simpa using hused

theorem IsMap.length_keys (h : IsMap p rows m) : (rows.filterMap rowKey).length = m.keys.length := by
  refine List.Perm.length_eq ((List.perm_ext_iff_of_nodup (Keyed.nodup_keys h.apart) m.keys_nodup).mpr fun k => ?_)
  rw [← AList.mem_keys, ← AList.lookup_isSome, ← h.lookup, mem_filterMap, isSome_iff_ne_none, ne_eq,
    Keyed.lookup_eq_none]
  simp only [ne_eq, not_forall, not_not, exists_prop]

theorem IsMap.slot_none_iff (h : IsMap p rows m) :
    upsertSlot DynRoute.used DynRoute.key rows k = none ↔ k ∉ m ∧ p.maxDynRoutes ≤ m.keys.length := by
  rw [← AList.lookup_eq_none, ← h.lookup, ← h.length_keys, ← h.slots, List.length_filterMap_eq_countP]
  constructor
  · intro hnone
    obtain ⟨hlookup, hall⟩ := upsertSlot_none hnone
    exact ⟨hlookup, le_of_eq (List.countP_eq_length.mpr hall).symm⟩
  · rintro ⟨hlookup, hfull⟩
    have hall := List.countP_eq_length.mp (le_antisymm List.countP_le_length hfull)
    cases hslot : upsertSlot DynRoute.used DynRoute.key rows k with
    | none => rfl
    | some i =>
      obtain ⟨old, hold, hkey | ⟨-, hkey⟩⟩ := upsertSlot_some hslot
      · exact absurd hkey (Keyed.lookup_eq_none.mp hlookup old (List.mem_of_getElem? hold))
      · have hused := hall old (List.mem_of_getElem? hold)
        rw [hkey] at hused
        cases hused

theorem IsMap.insert (h : IsMap p rows m) (hslot : upsertSlot DynRoute.used DynRoute.key rows k = some i)
    (hnew : rowKey new = some k) : IsMap p (rows.set i new) (m.insert k new) := by
  obtain ⟨old, hold, hkey⟩ := upsertSlot_some hslot
  have hfree : ∀ k', rowKey new = some k' → Keyed.lookup rowKey rows k' = none ∨ rowKey old = some k' := by
    intro k' hk'
    cases hnew.symm.trans hk'
    exact hkey.elim .inr fun hnone => .inl hnone.1
  refine ⟨length_set.trans h.slots, Keyed.apart_set h.apart hold hfree, fun k' => ?_⟩
  rw [Keyed.lookup_set h.apart hold hfree, hnew]
  by_cases hk : k = k'
  · rw [if_pos (congrArg some hk), ← hk, AList.lookup_insert]
  · have hother : rowKey old ≠ some k' := by
      rcases hkey with hkey | ⟨-, hkey⟩
      · rw [hkey]
        exact fun heq => hk (Option.some.inj heq)
      · rw [hkey]
        exact nofun
    rw [if_neg (fun heq => hk (Option.some.inj heq)), if_neg hother, h.lookup, AList.lookup_insert_ne (Ne.symm hk)]

theorem IsMap.erase (h : IsMap p rows m) (hold : rows[i]? = some old)
    (hkey : rowKey old = some k ∨ (Keyed.lookup rowKey rows k = none ∧ rowKey old = none)) (hnew : rowKey new = none) :
    IsMap p (rows.set i new) (m.erase k) := by
  have hfree : ∀ k', rowKey new = some k' → Keyed.lookup rowKey rows k' = none ∨ rowKey old = some k' := by
    intro k' hk'
    rw [hnew] at hk'
    cases hk'
  refine ⟨length_set.trans h.slots, Keyed.apart_set h.apart hold hfree, fun k' => ?_⟩
  rw [Keyed.lookup_set h.apart hold hfree, hnew, if_neg nofun]
  rcases hkey with hkey | ⟨hnone, hkey⟩
  · rw [hkey]
    by_cases hk : k = k'
    · rw [if_pos (congrArg some hk), ← hk, AList.lookup_erase]
    · rw [if_neg (fun heq => hk (Option.some.inj heq)), h.lookup, AList.lookup_erase_ne (Ne.symm hk)]
  · rw [hkey, if_neg nofun]
    by_cases hk : k = k'
    · rw [← hk, hnone, AList.lookup_erase]
    · rw [h.lookup, AList.lookup_erase_ne (Ne.symm hk)]

theorem withdraw_cases (k : Bytes) (rows : List DynRoute) :
    (Keyed.lookup rowKey rows k = none ∧
      withdraw DynRoute.used DynRoute.key DynRoute.freed k rows = rows) ∨
      ∃ i old, rows[i]? = some old ∧ rowKey old = some k ∧
        withdraw DynRoute.used DynRoute.key DynRoute.freed k rows = rows.set i old.freed := by
  induction rows with
  | nil => exact .inl ⟨rfl, rfl⟩
  | cons r rows ih =>
    rw [withdraw]
    by_cases hr : (r.used && r.key = k) = true
    · rw [if_pos hr]
      exact .inr ⟨0, r, rfl, rowKey_eq_some.mpr hr, rfl⟩
    · rw [if_neg hr]
      have hother : rowKey r ≠ some k := fun hkey => hr (rowKey_eq_some.mp hkey)
      rcases ih with ⟨hnone, hsame⟩ | ⟨i, old, hold, hkey, hset⟩
      · refine .inl ⟨?_, by rw [hsame]⟩
        rw [Keyed.lookup_eq_none, forall_mem_cons]
        exact ⟨hother, Keyed.lookup_eq_none.mp hnone⟩
      · exact .inr ⟨i + 1, old, hold, hkey, by rw [hset]; rfl⟩

theorem IsMap.withdrawn (h : IsMap p rows m) (k : Bytes) :
    IsMap p (withdraw DynRoute.used DynRoute.key DynRoute.freed k rows) (m.erase k) := by
  rcases withdraw_cases k rows with ⟨hnone, hsame⟩ | ⟨i, old, hold, hkey, hset⟩
  · rw [hsame]
    refine ⟨h.slots, h.apart, fun k' => ?_⟩
    by_cases hk : k = k'
    · rw [← hk, hnone, AList.lookup_erase]
    · rw [h.lookup, AList.lookup_erase_ne (Ne.symm hk)]
  · rw [hset]
    exact h.erase hold (.inl hkey) rfl

theorem isMap_free (hslots : rows.length = p.maxDynRoutes) (hfree : ∀ r ∈ rows, r.used = false) : IsMap p rows ∅ := by
  have hnone : ∀ r ∈ rows, rowKey r = none := fun r hr => by rw [rowKey, hfree r hr]; rfl
  refine ⟨hslots, fun i j a b k hi _ ha _ => ?_, fun k => ?_⟩
  · rw [hnone a (List.mem_of_getElem? hi)] at ha
    cases ha
  · rw [AList.lookup_empty, Keyed.lookup_eq_none]
    exact fun r hr => by rw [hnone r hr]; exact nofun

end Slots

section Steps

variable {p : TableProfile} {t : DynRoutes} {m : TableMaps} {shadow : Bool}

theorem IsMaps.arena (h : IsMaps p t m) (shadow : Bool) : IsMap p (t.arena shadow) (m.arena shadow) := by
  cases shadow
  · exact h.live
  · exact h.shadow

theorem IsMaps.set_iff (h : IsMaps p t m) (shadow : Bool) (rows : List DynRoute) (held : RouteMap) (n : Nat) :
    IsMaps p { t.setArena shadow rows with dropped := t.dropped + UInt32.ofNat n }
        { m.setArena shadow held with dropped := m.dropped + n } ↔ IsMap p rows held := by
  have hdropped : t.dropped + UInt32.ofNat n = UInt32.ofNat (m.dropped + n) := by rw [UInt32.ofNat_add, h.dropped]
  cases shadow
  · exact ⟨fun hset => hset.live, fun hmap => ⟨hmap, h.shadow, hdropped⟩⟩
  · exact ⟨fun hset => hset.shadow, fun hmap => ⟨h.live, hmap, hdropped⟩⟩

/-- What is stored of a row is another row than the map's, or has another key, when it was cut. -/
theorem IsMap.not_cut {rows : List DynRoute} {held : RouteMap} (h : IsMap p rows held) {key : Bytes} {i : Nat}
    (value host : Bytes) (hslot : upsertSlot DynRoute.used DynRoute.key rows key = some i) {row : DynRoute}
    (hrow : rowKey row = some (key.take MAX_DYN_KEY)) {held' : RouteMap}
    (hcut : (held' = held.erase key) ∨ (key.take MAX_DYN_KEY ≠ key ∧ held' = held.insert key (wholeRow p key value host))) :
    ¬ IsMap p (rows.set i row) held' := by
  intro hset
  obtain ⟨old, hold, hkey⟩ := upsertSlot_some hslot
  have hlt : i < rows.length := (List.getElem?_eq_some_iff.mp hold).1
  have hat : (rows.set i row)[i]? = some row := by rw [List.getElem?_set_self hlt]
  have hfound : held'.lookup (key.take MAX_DYN_KEY) = some row := by
    rw [← hset.lookup]
    exact (Keyed.lookup_eq_some hset.apart).mpr ⟨i, hat, hrow⟩
  -- The map has this row under a key that is not the one that was given, so it was there before.
  have hbefore : key.take MAX_DYN_KEY ≠ key ∧ held.lookup (key.take MAX_DYN_KEY) = some row := by
    rcases hcut with rfl | ⟨hne, rfl⟩
    · by_cases hne : key.take MAX_DYN_KEY = key
      · rw [hne, AList.lookup_erase] at hfound
        cases hfound
      · rw [AList.lookup_erase_ne hne] at hfound
        exact ⟨hne, hfound⟩
    · rw [AList.lookup_insert_ne hne] at hfound
      exact ⟨hne, hfound⟩
  obtain ⟨j, hj, hrowj⟩ := (Keyed.lookup_eq_some h.apart).mp ((h.lookup _).trans hbefore.2)
  by_cases hij : i = j
  · rw [← hij, hold] at hj
    cases hj
    rw [hrow] at hkey
    exact hkey.elim (fun heq => hbefore.1 (Option.some.inj heq)) fun hnone => nomatch hnone.2
  · exact hij (hset.apart i j row row _ hat (by rw [List.getElem?_set_ne hij]; exact hj) hrow hrow)

theorem upsert_iff (h : IsMaps p t m) (key value : Bytes) (shadow : Bool) :
    IsMaps p (t.upsert p key value shadow) (m.upsert p key value shadow) ↔
      Holdable p (t, m) (.upsert key value shadow) := by
  have hmap := h.arena shadow
  unfold DynRoutes.upsert TableMaps.upsert Holdable
  dsimp only
  cases hslot : upsertSlot DynRoute.used DynRoute.key (t.arena shadow) key with
  | none =>
    rw [if_pos (hmap.slot_none_iff.mp hslot)]
    refine iff_of_true ⟨h.live, h.shadow, ?_⟩ fun hne => absurd rfl hne
    rw [UInt32.ofNat_add, ← h.dropped]
    rfl
  | some i =>
    have hroom : ¬ (key ∉ m.arena shadow ∧ p.maxDynRoutes ≤ (m.arena shadow).keys.length) := by
      rw [← hmap.slot_none_iff, hslot]
      exact nofun
    rw [if_neg hroom, dynFill_eq]
    cases hhost : hostOf value with
    | none =>
      obtain ⟨old, hold, hkey⟩ := upsertSlot_some hslot
      refine iff_of_true ?_ fun _ hne => absurd rfl hne
      exact (h.set_iff shadow _ _ 1).mpr (hmap.erase hold hkey rfl)
    | some host =>
      dsimp only [map_some]
      by_cases hpath : (pathOf value).length > p.maxPath
      · rw [if_pos hpath]
        refine iff_of_false (fun hset => ?_) fun hfits => absurd (hfits nofun nofun).2 (Nat.not_le.mpr hpath)
        have hwhole : IsMap p ((t.arena shadow).set i { wholeRow p key value host with
            key := key.take MAX_DYN_KEY, path := (pathOf value).take p.maxPath }) ((m.arena shadow).erase key) := by
          cases shadow
          · exact hset.live
          · exact hset.shadow
        exact hmap.not_cut value host hslot rfl (.inl rfl) hwhole
      · rw [if_neg hpath, h.set_iff]
        by_cases hkey : key.length ≤ MAX_DYN_KEY
        · refine iff_of_true ?_ fun _ _ => ⟨hkey, Nat.not_lt.mp hpath⟩
          rw [take_of_length_le hkey, take_of_length_le (Nat.not_lt.mp hpath)]
          exact hmap.insert hslot rfl
        · refine iff_of_false (fun hset => ?_) fun hfits => absurd (hfits nofun nofun).1 hkey
          have hne : key.take MAX_DYN_KEY ≠ key := fun heq => hkey (heq ▸ length_take_le _ _)
          exact hmap.not_cut value host hslot rfl (.inr ⟨hne, rfl⟩) hset

theorem step_isMaps_iff {s : DynRoutes × TableMaps} (h : IsMaps p s.1 s.2) (op : TableOp) :
    IsMaps p ((tableMachine p).step s op).1.1 ((tableMachine p).step s op).1.2 ↔ Holdable p s op := by
  cases op with
  | upsert key value shadow => exact upsert_iff h key value shadow
  | remove key shadow =>
    refine iff_of_true ?_ trivial
    have hmap := (h.arena shadow).withdrawn key
    cases shadow
    · exact ⟨hmap, h.shadow, h.dropped⟩
    · exact ⟨h.live, hmap, h.dropped⟩
  | clearShadow =>
    refine iff_of_true ⟨h.live, isMap_free ?_ fun r hr => ?_, h.dropped⟩ trivial
    · exact (length_map _).trans h.shadow.slots
    · obtain ⟨old, -, rfl⟩ := mem_map.mp hr
      rfl
  | swapShadow => exact iff_of_true ⟨h.shadow, h.shadow, h.dropped⟩ trivial

end Steps

theorem isMaps_init (p : TableProfile) : IsMaps p (.init p) {} := by
  have hfree : IsMap p (List.replicate p.maxDynRoutes {}) ∅ :=
    isMap_free length_replicate fun r hr => by rw [eq_of_mem_replicate hr]
  exact ⟨hfree, hfree, rfl⟩

/-- In every state of a run the arenas are the maps exactly when each row that was taken can be held whole. -/
theorem table_map_iff (p : TableProfile) (ops : List TableOp) :
    (∀ calls, calls <+: ops →
      IsMaps p ((tableMachine p).run (.init p, {}) calls).1.1 ((tableMachine p).run (.init p, {}) calls).1.2) ↔
      (tableMachine p).Along (Holdable p) (.init p, {}) ops :=
  (tableMachine p).run_invariant_iff (I := fun s => IsMaps p s.1 s.2) (fun _ op h => step_isMaps_iff h op) (isMaps_init p)
    ops

theorem two_le_rows : 2 ≤ 32768 := by decide

theorem four_lt_backends : 4 < 256 := by decide

theorem path_lt_byte : 200 < 256 := by decide

def twoRows : TableProfile where
  maxPath := 200
  maxFsPath := 64
  recvBufSize := 2048
  sendBufSize := 4096
  maxConcurrentConns := 2
  maxPeerSvid := 100
  recvBufSize_lt := smallProfile.recvBufSize_lt
  recvBufSize_ge := smallProfile.recvBufSize_ge
  sendBufSize_lt := by decide
  sendBufSize_ge := by decide
  maxPeerSvid_lt := by decide
  maxDynRoutes := 2
  maxRouteBackends := 4
  targetParses := fun authority => authority ≠ []
  maxDynRoutes_le := two_le_rows
  maxRouteBackends_lt := four_lt_backends
  maxPath_lt := path_lt_byte

/-- A key of 65 bytes that is given twice and removed: it takes two rows, both under its first 64 bytes, and keeps
them. -/
theorem long_key_rows :
    let key := List.replicate 65 0x61
    let value := ascii "host=shop;path=/"
    (((tableMachine twoRows).run (.init twoRows, {}) [.upsert key value false, .upsert key value false,
      .remove key false]).1.1.live.filterMap rowKey) = [key.take 64, key.take 64] := by
  decide +kernel

end Wave.Http.Routing
