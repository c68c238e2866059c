import Wave.Lib.Scan
import Mathlib.Data.List.Infix

/-! # Text cut at a two-element separator

`split a b` cuts a list at each `a` followed by `b`. -/

namespace Wave.Lib.Lines

variable {α : Type*} {a b : α}

def consHead (x : α) : List (List α) → List (List α)
  | [] => [[x]]
  | p :: ps => (x :: p) :: ps

def split [DecidableEq α] (a b : α) : List α → List (List α)
  | [] => [[]]
  | [x] => [[x]]
  | x :: y :: l => if x = a ∧ y = b then [] :: split a b l else consHead x (split a b (y :: l))

def Whole (a b : α) (l : List α) : Prop := ¬ [a, b] <:+: l

instance [DecidableEq α] (l : List α) : Decidable (Whole a b l) := inferInstanceAs (Decidable (¬ _))

theorem whole_cons {x : α} {l : List α} :
    Whole a b (x :: l) ↔ ¬ (x = a ∧ l.head? = some b) ∧ Whole a b l := by
  have hprefix : [a, b] <+: x :: l ↔ x = a ∧ l.head? = some b := by
    cases l with
    | nil => simp
    | cons y l => simp [List.cons_prefix_cons, eq_comm]
  rw [Whole, List.infix_cons_iff, hprefix, not_or]
  rfl

theorem whole_nil : Whole a b [] := by simp [Whole]

theorem Whole.mono {l m : List α} (h : Whole a b l) (hm : m <:+: l) : Whole a b m :=
  fun hsep => h (hsep.trans hm)

variable [DecidableEq α]

theorem split_append (hab : a ≠ b) {l : List α} (h : Whole a b l) (rest : List α) :
    split a b (l ++ a :: b :: rest) = l :: split a b rest := by
  induction l with
  | nil => simp [split]
  | cons x l ih =>
    obtain ⟨hx, hl⟩ := whole_cons.mp h
    cases l with
    | nil =>
      rw [List.singleton_append, split, if_neg fun heq => hab heq.2]
      simp [split, consHead]
    | cons y l =>
      have hxy : ¬ (x = a ∧ y = b) := by simpa using hx
      rw [List.cons_append, List.cons_append, split, if_neg hxy, ← List.cons_append, ih hl]
      rfl

theorem head_split {l p : List α} {ps : List (List α)} (h : split a b l = p :: ps) :
    p.head? = l.head? ∨ p = [] := by
  cases l with
  | nil =>
    cases h
    exact .inr rfl
  | cons x l =>
    cases l with
    | nil =>
      cases h
      exact .inl rfl
    | cons y l =>
      rw [split] at h
      split_ifs at h with hxy
      · cases h
        exact .inr rfl
      · left
        cases hrest : split a b (y :: l) <;> rw [hrest] at h <;> cases h <;> rfl

theorem whole_of_mem_split {l p : List α} (h : p ∈ split a b l) : Whole a b p := by
  fun_induction split a b l generalizing p with
  | case1 =>
    cases List.mem_singleton.mp h
    exact whole_nil
  | case2 x =>
    cases List.mem_singleton.mp h
    exact whole_cons.mpr ⟨by simp, whole_nil⟩
  | case3 x y l hxy ih =>
    rcases List.mem_cons.mp h with rfl | h
    · exact whole_nil
    · exact ih h
  | case4 x y l hxy ih =>
    cases hrest : split a b (y :: l) with
    | nil =>
      rw [hrest] at h
      cases List.mem_singleton.mp h
      exact whole_cons.mpr ⟨by simp, whole_nil⟩
    | cons q qs =>
      rw [hrest] at h ih
      rcases List.mem_cons.mp h with rfl | h
      · refine whole_cons.mpr ⟨fun hsep => ?_, ih List.mem_cons_self⟩
        rcases head_split hrest with hq | rfl
        · rw [hq] at hsep
          exact hxy (by simpa using hsep)
        · simp at hsep
      · exact ih (List.mem_cons_of_mem _ h)

theorem split_lines (hab : a ≠ b) {lines : List (List α)} (h : ∀ l ∈ lines, Whole a b l) :
    split a b (lines.flatMap fun l => l ++ [a, b]) = lines ++ [[]] := by
  induction lines with
  | nil => rfl
  | cons l lines ih =>
    rw [List.flatMap_cons, List.append_assoc]
    have hrest := split_append hab (h l List.mem_cons_self) (lines.flatMap fun l => l ++ [a, b])
    rw [show [a, b] ++ lines.flatMap (fun l => l ++ [a, b]) =
      a :: b :: lines.flatMap fun l => l ++ [a, b] from rfl, hrest,
      ih fun m hm => h m (List.mem_cons_of_mem _ hm)]
    rfl

theorem findPat_whole (hab : a ≠ b) {l : List α} (h : Whole a b l) (rest : List α) :
    findPat [a, b] (l ++ a :: b :: rest) = some l.length := by
  induction l with
  | nil =>
    refine findPat_cons_hit ?_
    rw [List.isPrefixOf_iff_prefix]
    exact ⟨rest, rfl⟩
  | cons x l ih =>
    obtain ⟨hx, hl⟩ := whole_cons.mp h
    rw [List.cons_append, findPat_cons_miss, ih hl]
    · rfl
    · rw [Bool.eq_false_iff, Ne, List.isPrefixOf_iff_prefix]
      intro hsep
      obtain ⟨rfl, hb⟩ := List.cons_prefix_cons.mp hsep
      cases l with
      | nil => exact hab (List.cons_prefix_cons.mp hb).1.symm
      | cons y l => exact hx ⟨rfl, congrArg some (List.cons_prefix_cons.mp hb).1.symm⟩

end Wave.Lib.Lines
