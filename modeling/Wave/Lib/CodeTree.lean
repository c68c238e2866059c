import Mathlib.Data.List.Basic

/-! # Binary codes as trees

The code of a symbol is the path to its leaf; `read` follows bits and starts over at each leaf. -/

namespace Wave.Lib

/-- A node always has two children, so that no path leaves the tree except at a leaf. -/
inductive CodeTree (α : Type*) where
  | leaf (sym : α)
  | node (zero one : CodeTree α)

namespace CodeTree

variable {α : Type*}

def child : CodeTree α → Bool → Option (CodeTree α)
  | leaf _, _ => none
  | node l r, b => some (if b then r else l)

def walk : CodeTree α → List Bool → Option (CodeTree α)
  | t, [] => some t
  | t, b :: bs =>
    match t.child b with
    | none => none
    | some t' => t'.walk bs

def codes : CodeTree α → List (α × List Bool)
  | leaf a => [(a, [])]
  | node l r =>
    (l.codes.map fun c => (c.1, false :: c.2)) ++ r.codes.map fun c => (c.1, true :: c.2)

variable {t t' : CodeTree α} {p q : List Bool} {a : α}

theorem walk_append (t : CodeTree α) (p q : List Bool) : t.walk (p ++ q) = (t.walk p).bind fun t' => t'.walk q := by
  induction p generalizing t with
  | nil => rfl
  | cons b p ih =>
    rw [List.cons_append, walk, walk]
    cases t.child b with
    | none => rfl
    | some t' => exact ih t'

theorem walk_concat (h : t.walk p = some t') (b : Bool) : t.walk (p ++ [b]) = t'.child b := by
  rw [walk_append, h, Option.bind_some, walk]
  cases t'.child b <;> rfl

theorem mem_codes_iff : (a, p) ∈ t.codes ↔ t.walk p = some (leaf a) := by
  induction t generalizing p with
  | leaf a' =>
    cases p with
    | nil => simp [codes, walk, eq_comm]
    | cons b p => simp [codes, walk, child]
  | node l r ihl ihr =>
    cases p with
    | nil => simp [codes, walk]
    | cons b p =>
      rw [codes, walk, child, List.mem_append, List.mem_map, List.mem_map]
      cases b with
      | false => simp [← ihl]
      | true => simp [← ihr]

theorem exists_leaf (t : CodeTree α) : ∃ q a, t.walk q = some (leaf a) := by
  induction t with
  | leaf a => exact ⟨[], a, rfl⟩
  | node l r ihl ihr =>
    obtain ⟨q, a, hq⟩ := ihl
    exact ⟨false :: q, a, hq⟩

theorem walk_front_node {l r : CodeTree α} (h : t.walk (p ++ q) = some (node l r)) :
    ∃ l' r', t.walk p = some (node l' r') := by
  rw [walk_append] at h
  cases hp : t.walk p with
  | none =>
    rw [hp] at h
    cases h
  | some t' =>
    rw [hp, Option.bind_some] at h
    cases t' with
    | node l' r' => exact ⟨l', r', rfl⟩
    | leaf a' => cases q <;> cases h

theorem walk_front (h : t.walk (p ++ q) = some (leaf a)) (hq : q ≠ []) : ∃ l r, t.walk p = some (node l r) := by
  rw [walk_append] at h
  cases hp : t.walk p with
  | none =>
    rw [hp] at h
    cases h
  | some t' =>
    rw [hp, Option.bind_some] at h
    cases t' with
    | node l r => exact ⟨l, r, rfl⟩
    | leaf a' =>
      cases q with
      | nil => exact absurd rfl hq
      | cons b q => cases h

/-- The tree with leaves at these depths, from left to right, and the leaves it leaves over; `fuel` bounds its height. -/
def ofDepths [Inhabited α] : (fuel depth : Nat) → List (α × Nat) → CodeTree α × List (α × Nat)
  | 0, _, ls => (leaf default, ls)
  | _, _, [] => (leaf default, [])
  | fuel + 1, depth, (a, len) :: ls =>
    if len = depth then (leaf a, ls)
    else
      match ofDepths fuel (depth + 1) ((a, len) :: ls) with
      | (zero, ls) =>
        match ofDepths fuel (depth + 1) ls with
        | (one, ls) => (node zero one, ls)

end CodeTree

end Wave.Lib
