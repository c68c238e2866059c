import Mathlib.Data.List.GetD
import Mathlib.Algebra.Ring.Nat

/-! # Tables of slots found by index -/

namespace Wave.Lib.Table

variable {α : Type*} {l : List α} {i j : Nat} {x d : α}

theorem getD_set_ne (h : j ≠ i) : (l.set i x).getD j d = l.getD j d := by
  simp [List.getD_eq_getElem?_getD, List.getElem?_set_ne h.symm]

theorem getD_set_self (h : i < l.length) : (l.set i x).getD i d = x := by
  simp [List.getD_eq_getElem?_getD, h]

theorem getD_set_cases (l : List α) (i j : Nat) (x d : α) :
    (j = i ∧ (l.set i x).getD j d = x) ∨ (l.set i x).getD j d = l.getD j d := by
  by_cases hj : j = i
  · subst hj
    by_cases hlt : j < l.length
    · exact .inl ⟨rfl, getD_set_self hlt⟩
    · exact .inr (by rw [List.set_eq_of_length_le (Nat.le_of_not_lt hlt)])
  · exact .inr (getD_set_ne hj)

theorem sum_map_set (f : α → Nat) (x d : α) (h : i < l.length) :
    ((l.set i x).map f).sum + f (l.getD i d) = (l.map f).sum + f x := by
  induction l generalizing i with
  | nil => simp at h
  | cons a l ih =>
    cases i with
    | zero =>
      simp only [List.set_cons_zero, List.map_cons, List.sum_cons, List.getD_cons_zero]
      omega
    | succ i =>
      have := ih (i := i) (by simpa using h)
      simp only [List.set_cons_succ, List.map_cons, List.sum_cons, List.getD_cons_succ]
      omega

theorem lt_of_getD_ne (h : l.getD i d ≠ d) : i < l.length :=
  Nat.lt_of_not_le fun hlen => h (List.getD_eq_default _ _ hlen)

end Wave.Lib.Table
