import Mathlib.Data.List.Basic

/-! # The first occurrence of a pattern

`findPat` gives the offset; what was found stays found when the list grows or is cut behind it. -/

namespace Wave.Lib

variable {i : Nat}

variable {α : Type*} [DecidableEq α]

def findPat (pat : List α) : List α → Option Nat
  | [] => none
  | x :: xs => if pat.isPrefixOf (x :: xs) then some 0 else (findPat pat xs).map (· + 1)

theorem findPat_cons_hit {pat : List α} {x : α} {xs : List α}
    (h : pat.isPrefixOf (x :: xs) = true) : findPat pat (x :: xs) = some 0 := by
  rw [findPat, if_pos h]

theorem findPat_cons_miss {pat : List α} {x : α} {xs : List α}
    (h : pat.isPrefixOf (x :: xs) = false) :
    findPat pat (x :: xs) = (findPat pat xs).map (· + 1) := by
  rw [findPat, if_neg (by rw [h]; exact Bool.false_ne_true)]

theorem findPat_split {pat l : List α} (h : findPat pat l = some i) :
    ∃ a b, l = a ++ pat ++ b ∧ a.length = i := by
  induction l generalizing i with
  | nil => cases h
  | cons x xs ih =>
    cases hp : pat.isPrefixOf (x :: xs) with
    | true =>
      rw [findPat_cons_hit hp] at h
      obtain rfl := Option.some.inj h
      obtain ⟨b, hb⟩ := List.isPrefixOf_iff_prefix.mp hp
      exact ⟨[], b, by rw [List.nil_append, hb], rfl⟩
    | false =>
      rw [findPat_cons_miss hp, Option.map_eq_some_iff] at h
      obtain ⟨j, hj, rfl⟩ := h
      obtain ⟨a, b, rfl, ha⟩ := ih hj
      exact ⟨x :: a, b, rfl, by rw [List.length_cons, ha]⟩

theorem findPat_le {pat l : List α} (h : findPat pat l = some i) :
    i + pat.length ≤ l.length := by
  obtain ⟨a, b, rfl, rfl⟩ := findPat_split h
  simp

theorem findPat_append {pat l : List α} (h : findPat pat l = some i) (more : List α) :
    findPat pat (l ++ more) = some i := by
  induction l generalizing i with
  | nil => cases h
  | cons x xs ih =>
    cases hp : pat.isPrefixOf (x :: xs) with
    | true =>
      rw [findPat_cons_hit hp] at h
      obtain rfl := Option.some.inj h
      refine findPat_cons_hit ?_
      rw [List.isPrefixOf_iff_prefix] at hp ⊢
      exact hp.trans (List.prefix_append _ _)
    | false =>
      rw [findPat_cons_miss hp, Option.map_eq_some_iff] at h
      obtain ⟨j, hj, rfl⟩ := h
      have hlong : pat.length ≤ (x :: xs).length := by
        have := findPat_le hj
        simp only [List.length_cons]
        omega
      have hp' : pat.isPrefixOf (x :: (xs ++ more)) = false := by
        rw [Bool.eq_false_iff] at hp ⊢
        intro hyes
        apply hp
        rw [List.isPrefixOf_iff_prefix] at hyes ⊢
        exact List.prefix_of_prefix_length_le hyes (List.prefix_append (x :: xs) more) hlong
      rw [List.cons_append, findPat_cons_miss hp', ih hj]
      rfl

theorem findPat_take {pat l : List α} {i n : Nat} (hpat : pat ≠ []) (h : findPat pat l = some i)
    (hn : i + pat.length ≤ n) : findPat pat (l.take n) = some i := by
  induction l generalizing i n with
  | nil => cases h
  | cons x xs ih =>
    cases hp : pat.isPrefixOf (x :: xs) with
    | true =>
      rw [findPat_cons_hit hp] at h
      obtain rfl := Option.some.inj h
      cases n with
      | zero => exact absurd (List.length_eq_zero_iff.mp (by omega)) hpat
      | succ n =>
        refine findPat_cons_hit ?_
        rw [List.isPrefixOf_iff_prefix] at hp ⊢
        rw [← List.take_succ_cons]
        exact List.prefix_take_iff.mpr ⟨hp, by omega⟩
    | false =>
      rw [findPat_cons_miss hp, Option.map_eq_some_iff] at h
      obtain ⟨j, hj, rfl⟩ := h
      cases n with
      | zero => omega
      | succ n =>
        have hp' : pat.isPrefixOf (x :: xs.take n) = false := by
          rw [Bool.eq_false_iff] at hp ⊢
          intro hyes
          apply hp
          rw [List.isPrefixOf_iff_prefix] at hyes ⊢
          rw [← List.take_succ_cons] at hyes
          exact hyes.trans (List.take_prefix _ _)
        rw [List.take_succ_cons, findPat_cons_miss hp', ih hj (by omega)]
        rfl

theorem findPat_of_occurs {pat : List α} (hpat : pat ≠ []) (a b : List α) :
    ∃ i, findPat pat (a ++ (pat ++ b)) = some i ∧ i ≤ a.length := by
  induction a with
  | nil =>
    obtain ⟨x, xs, rfl⟩ := List.exists_cons_of_ne_nil hpat
    refine ⟨0, findPat_cons_hit ?_, Nat.le_refl _⟩
    rw [List.isPrefixOf_iff_prefix]
    exact List.prefix_append _ _
  | cons x a ih =>
    obtain ⟨i, hi, hle⟩ := ih
    rw [List.cons_append]
    cases hp : pat.isPrefixOf (x :: (a ++ (pat ++ b))) with
    | true => exact ⟨0, findPat_cons_hit hp, Nat.zero_le _⟩
    | false =>
      refine ⟨i + 1, ?_, by simpa using hle⟩
      rw [findPat_cons_miss hp, hi]
      rfl

theorem findPat_le_of_longer {pat more l : List α} (hpat : pat ≠ []) (h : findPat (pat ++ more) l = some i) : ∃ j, findPat pat l = some j ∧ j ≤ i := by
  obtain ⟨a, b, rfl, rfl⟩ := findPat_split h
  have := findPat_of_occurs hpat a (more ++ b)
  simpa [List.append_assoc] using this

/-- No occurrence of the pattern starts in the list, whatever stands behind it. -/
def Apart (pat : List α) : List α → Prop
  | [] => True
  | y :: a => (¬(y :: a) <+: pat ∧ ¬pat <+: y :: a) ∧ Apart pat a

instance decidableApart (pat : List α) : (a : List α) → Decidable (Apart pat a)
  | [] => isTrue trivial
  | _ :: a => @instDecidableAnd _ _ _ (decidableApart pat a)

omit [DecidableEq α] in
theorem Apart.append {pat a b : List α} (ha : Apart pat a) (hb : Apart pat b) : Apart pat (a ++ b) := by
  induction a with
  | nil => exact hb
  | cons y a ih =>
    obtain ⟨⟨hshort, hlong⟩, hrest⟩ := ha
    refine ⟨⟨fun h => hshort ((List.prefix_append (y :: a) b).trans h), fun h => ?_⟩, ih hrest⟩
    exact (List.prefix_or_prefix_of_prefix h (List.prefix_append (y :: a) b)).elim hlong hshort

omit [DecidableEq α] in
theorem apart_of_notMem {x : α} {pat a : List α} (h : x ∉ a) : Apart (x :: pat) a := by
  induction a with
  | nil => trivial
  | cons y a ih =>
    obtain ⟨hy, ha⟩ := not_or.mp (List.mem_cons.not.mp h)
    exact ⟨⟨fun hp => hy (List.cons_prefix_cons.mp hp).1.symm, fun hp => hy (List.cons_prefix_cons.mp hp).1⟩, ih ha⟩

theorem findPat_skip {pat a : List α} (h : Apart pat a) (b : List α) :
    findPat pat (a ++ b) = (findPat pat b).map (· + a.length) := by
  induction a with
  | nil => simp
  | cons y a ih =>
    obtain ⟨⟨hshort, hlong⟩, hrest⟩ := h
    have hmiss : pat.isPrefixOf (y :: (a ++ b)) = false := by
      rw [Bool.eq_false_iff]
      intro hyes
      have hp := List.isPrefixOf_iff_prefix.mp hyes
      exact (List.prefix_or_prefix_of_prefix hp (List.prefix_append (y :: a) b)).elim hlong hshort
    rw [List.cons_append, findPat_cons_miss hmiss, ih hrest, Option.map_map]
    rfl

theorem findPat_none {pat a : List α} (h : Apart pat a) : findPat pat a = none := by
  have hskip := findPat_skip h []
  rwa [List.append_nil] at hskip

theorem findPat_behind {pat a : List α} (hpat : pat ≠ []) (h : Apart pat a) (b : List α) :
    findPat pat (a ++ (pat ++ b)) = some a.length := by
  obtain ⟨x, xs, rfl⟩ := List.exists_cons_of_ne_nil hpat
  have hhere : findPat (x :: xs) (x :: xs ++ b) = some 0 :=
    findPat_cons_hit (List.isPrefixOf_iff_prefix.mpr (List.prefix_append _ _))
  rw [findPat_skip h, hhere]
  simp

theorem findPat_first {x : α} {pat a : List α} (h : x ∉ a) (b : List α) :
    findPat (x :: pat) (a ++ (x :: pat ++ b)) = some a.length :=
  findPat_behind (List.cons_ne_nil x pat) (apart_of_notMem h) b

end Wave.Lib
