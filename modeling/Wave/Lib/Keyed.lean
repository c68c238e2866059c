import Mathlib.Data.List.Basic

/-! # Tables of slots found by key

A table is a list of slots, each with a key or free. `Apart`: no two have one key. -/

namespace Wave.Lib.Keyed

variable {α κ : Type*} [DecidableEq κ] (key : α → Option κ)

def lookup (l : List α) (k : κ) : Option α := l.find? fun a => key a = some k

def Apart (l : List α) : Prop :=
  ∀ (i j : Nat) (a b : α) (k : κ), l[i]? = some a → l[j]? = some b → key a = some k →
    key b = some k → i = j

variable {key} {l : List α}

theorem mem_of_lookup {k : κ} {a : α} (h : lookup key l k = some a) : a ∈ l ∧ key a = some k := by
  refine ⟨List.mem_of_find?_eq_some h, ?_⟩
  simpa using List.find?_some h

theorem lookup_eq_none {k : κ} : lookup key l k = none ↔ ∀ a ∈ l, key a ≠ some k := by
  unfold lookup
  rw [List.find?_eq_none]
  simp only [decide_eq_true_eq, ne_eq]

theorem lookup_eq_some (h : Apart key l) {k : κ} {a : α} :
    lookup key l k = some a ↔ ∃ i : Nat, l[i]? = some a ∧ key a = some k := by
  constructor
  · intro ha
    obtain ⟨hmem, hkey⟩ := mem_of_lookup ha
    obtain ⟨i, hi⟩ := List.mem_iff_getElem?.mp hmem
    exact ⟨i, hi, hkey⟩
  · rintro ⟨i, hi, hkey⟩
    cases hfind : lookup key l k with
    | none => exact absurd hkey (lookup_eq_none.mp hfind a (List.mem_of_getElem? hi))
    | some b =>
      obtain ⟨hmem, hb⟩ := mem_of_lookup hfind
      obtain ⟨j, hj⟩ := List.mem_iff_getElem?.mp hmem
      obtain rfl := h i j a b k hi hj hkey hb
      exact hj.symm.trans hi

omit [DecidableEq κ] in
theorem nodup_keys (h : Apart key l) : (l.filterMap key).Nodup := by
  induction l with
  | nil => exact List.nodup_nil
  | cons a l ih =>
    have htail : Apart key l := fun i j a b k hi hj ha hb =>
      Nat.succ.inj (h (i + 1) (j + 1) a b k hi hj ha hb)
    cases hk : key a with
    | none => rw [List.filterMap_cons_none hk]; exact ih htail
    | some k =>
      rw [List.filterMap_cons_some hk, List.nodup_cons]
      refine ⟨fun hmem => ?_, ih htail⟩
      obtain ⟨b, hb, hbk⟩ := List.mem_filterMap.mp hmem
      obtain ⟨j, hj⟩ := List.mem_iff_getElem?.mp hb
      exact absurd (h 0 (j + 1) a b k rfl hj hk hbk) (Nat.succ_ne_zero j).symm

theorem apart_set (h : Apart key l) {i : Nat} {old new : α} (hi : l[i]? = some old)
    (hnew : ∀ k, key new = some k → lookup key l k = none ∨ key old = some k) :
    Apart key (l.set i new) := by
  have hlt : i < l.length := (List.getElem?_eq_some_iff.mp hi).1
  -- Another slot with the new key would have been found before.
  have hother : ∀ (j : Nat) (b : α) (k : κ), i ≠ j → l[j]? = some b → key b = some k →
      key new ≠ some k := by
    intro j b k hj hb hkey hk
    rcases hnew k hk with hnone | hold
    · exact lookup_eq_none.mp hnone b (List.mem_of_getElem? hb) hkey
    · exact hj (h i j old b k hi hb hold hkey)
  intro j m a b k ha hb hka hkb
  rw [List.getElem?_set] at ha hb
  by_cases hj : i = j <;> by_cases hm : i = m
  · exact hj.symm.trans hm
  · rw [if_pos hj, if_pos (hj ▸ hlt), Option.some.injEq] at ha
    rw [if_neg hm] at hb
    subst ha
    exact absurd hka (hother m b k hm hb hkb)
  · rw [if_pos hm, if_pos (hm ▸ hlt), Option.some.injEq] at hb
    rw [if_neg hj] at ha
    subst hb
    exact absurd hkb (hother j a k hj ha hka)
  · rw [if_neg hj] at ha
    rw [if_neg hm] at hb
    exact h j m a b k ha hb hka hkb

theorem lookup_set (h : Apart key l) {i : Nat} {old new : α} (hi : l[i]? = some old)
    (hnew : ∀ k, key new = some k → lookup key l k = none ∨ key old = some k) (k : κ) :
    lookup key (l.set i new) k =
      if key new = some k then some new else if key old = some k then none else lookup key l k := by
  have hset := apart_set h hi hnew
  have hlt : i < l.length := (List.getElem?_eq_some_iff.mp hi).1
  by_cases hk : key new = some k
  · rw [if_pos hk]
    exact (lookup_eq_some hset).mpr ⟨i, by rw [List.getElem?_set, if_pos rfl, if_pos hlt], hk⟩
  · rw [if_neg hk]
    -- The slots with key `k` are now those of before other than `i`.
    have hiff : ∀ a, lookup key (l.set i new) k = some a ↔
        ∃ j, i ≠ j ∧ l[j]? = some a ∧ key a = some k := by
      intro a
      rw [lookup_eq_some hset]
      constructor
      · rintro ⟨j, hj, hka⟩
        rw [List.getElem?_set] at hj
        by_cases hij : i = j
        · rw [if_pos hij, if_pos (hij ▸ hlt), Option.some.injEq] at hj
          exact absurd (hj ▸ hka) hk
        · rw [if_neg hij] at hj
          exact ⟨j, hij, hj, hka⟩
      · rintro ⟨j, hij, hj, hka⟩
        exact ⟨j, by rw [List.getElem?_set, if_neg hij]; exact hj, hka⟩
    refine Option.ext fun a => ?_
    rw [hiff]
    by_cases hold : key old = some k
    · rw [if_pos hold]
      refine iff_of_false ?_ (Option.not_mem_none a)
      rintro ⟨j, hij, hj, hka⟩
      exact hij (h i j old a k hi hj hold hka)
    · rw [if_neg hold, lookup_eq_some h]
      constructor
      · rintro ⟨j, -, hj, hka⟩
        exact ⟨j, hj, hka⟩
      · rintro ⟨j, hj, hka⟩
        refine ⟨j, ?_, hj, hka⟩
        rintro rfl
        exact hold (Option.some.inj (hi.symm.trans hj) ▸ hka)

end Wave.Lib.Keyed
