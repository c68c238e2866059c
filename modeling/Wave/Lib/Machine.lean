import Mathlib.Data.List.Basic

/-! # Machines: step functions with outputs, and what holds along their runs

A run is the fold of a step over inputs. `Along` says that each step was taken under a condition;
`run_log_invariant` carries an invariant of state and log over such a run. -/

namespace Wave.Lib

structure Machine (σ ι ω : Type*) where
  step : σ → ι → σ × List ω

namespace Machine

variable {σ ι ω : Type*} (m : Machine σ ι ω)

/-- The final state of a run, with its outputs in order. -/
def run : σ → List ι → σ × List ω
  | s, [] => (s, [])
  | s, i :: is =>
    let r := m.step s i
    let rest := run r.1 is
    (rest.1, r.2 ++ rest.2)

/-- Every step of the run was taken from a state and on an input that meet `P`. -/
def Along (P : σ → ι → Prop) : σ → List ι → Prop
  | _, [] => True
  | s, i :: is => P s i ∧ Along P (m.step s i).1 is

instance decidableAlong (P : σ → ι → Prop) [∀ s i, Decidable (P s i)] :
    ∀ s is, Decidable (m.Along P s is)
  | _, [] => isTrue trivial
  | s, i :: is => @instDecidableAnd (P s i) _ _ (decidableAlong P (m.step s i).1 is)

@[simp] theorem run_nil (s : σ) : m.run s [] = (s, []) := rfl

theorem run_cons (s : σ) (i : ι) (is : List ι) :
    m.run s (i :: is) =
      ((m.run (m.step s i).1 is).1, (m.step s i).2 ++ (m.run (m.step s i).1 is).2) := rfl

theorem run_append (s : σ) (is js : List ι) :
    m.run s (is ++ js) =
      ((m.run (m.run s is).1 js).1, (m.run s is).2 ++ (m.run (m.run s is).1 js).2) := by
  induction is generalizing s with
  | nil => simp
  | cons i is ih => simp [run_cons, ih]

theorem run_concat (s : σ) (is : List ι) (i : ι) :
    m.run s (is ++ [i]) =
      ((m.step (m.run s is).1 i).1, (m.run s is).2 ++ (m.step (m.run s is).1 i).2) := by
  simp [run_append, run_cons]

@[simp] theorem along_nil (P : σ → ι → Prop) (s : σ) : m.Along P s [] := trivial

theorem along_cons (P : σ → ι → Prop) (s : σ) (i : ι) (is : List ι) :
    m.Along P s (i :: is) ↔ P s i ∧ m.Along P (m.step s i).1 is := Iff.rfl

theorem along_append (P : σ → ι → Prop) (s : σ) (is js : List ι) :
    m.Along P s (is ++ js) ↔ m.Along P s is ∧ m.Along P (m.run s is).1 js := by
  induction is generalizing s with
  | nil => simp
  | cons i is ih => simp [along_cons, run_cons, ih, and_assoc]

theorem along_of_forall {P : σ → ι → Prop} (h : ∀ s i, P s i) (s : σ) (is : List ι) :
    m.Along P s is := by
  induction is generalizing s with
  | nil => trivial
  | cons i is ih => exact ⟨h s i, ih _⟩

/-- An invariant of the state and of everything put out so far survives a run
whose steps all meet `P`. -/
theorem run_log_invariant {P : σ → ι → Prop} {I : σ → List ω → Prop}
    (hstep : ∀ s l i, I s l → P s i → I (m.step s i).1 (l ++ (m.step s i).2))
    {s : σ} {l : List ω} {is : List ι} (h : I s l) (hal : m.Along P s is) :
    I (m.run s is).1 (l ++ (m.run s is).2) := by
  induction is generalizing s l with
  | nil => simpa using h
  | cons i is ih =>
    obtain ⟨hP, hrest⟩ := hal
    have := ih (hstep s l i h hP) hrest
    simpa [run_cons] using this

theorem run_invariant {P : σ → ι → Prop} {I : σ → Prop}
    (hstep : ∀ s i, I s → P s i → I (m.step s i).1)
    {s : σ} {is : List ι} (h : I s) (hal : m.Along P s is) : I (m.run s is).1 :=
  m.run_log_invariant (I := fun s _ => I s) (l := [])
    (fun s _ i hs hP => hstep s i hs hP) h hal

/-- Where a step keeps what held before it exactly under a condition, a whole run does exactly when each of its steps
meets it. -/
theorem run_invariant_iff {P : σ → ι → Prop} {I : σ → Prop}
    (hstep : ∀ s i, I s → (I (m.step s i).1 ↔ P s i)) {s : σ} (h : I s) (is : List ι) :
    (∀ js, js <+: is → I (m.run s js).1) ↔ m.Along P s is := by
  constructor
  · intro hall
    induction is generalizing s with
    | nil => trivial
    | cons i is ih =>
      have hone := hall [i] (by rw [List.cons_prefix_cons]; exact ⟨rfl, List.nil_prefix⟩)
      refine ⟨(hstep s i h).mp hone, ih hone fun js hjs => ?_⟩
      exact hall (i :: js) (by rw [List.cons_prefix_cons]; exact ⟨rfl, hjs⟩)
  · rintro hal js ⟨rest, rfl⟩
    exact m.run_invariant (fun s i hs => (hstep s i hs).mpr) h ((m.along_append P s js rest).mp hal).1

end Machine

end Wave.Lib
