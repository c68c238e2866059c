import Mathlib.Data.List.Basic

/-! # Computations with a trace

`Spec P Q`: every event satisfies `P` and a result `Q`. `Follows` compares two computations. -/

namespace Wave.Lib

structure Traced (ε α : Type) where
  events : List ε
  result : Option α

namespace Traced

variable {ε α β : Type}

def err : Traced ε α := { events := [], result := none }

def andThen (t : Traced ε α) (f : α → Traced ε β) : Traced ε β :=
  match t.result with
  | none => { events := t.events, result := none }
  | some a => { events := t.events ++ (f a).events, result := (f a).result }

instance : Monad (Traced ε) where
  pure a := { events := [], result := some a }
  bind := andThen

def emit (e : ε) : Traced ε Unit := { events := [e], result := some () }

def ofOption (o : Option α) : Traced ε α := { events := [], result := o }

variable {t u : Traced ε α} {f g : α → Traced ε β} {a : α}

theorem bind_ok (h : t.result = some a) : t >>= f = { events := t.events ++ (f a).events, result := (f a).result } := by
  change andThen t f = _
  rw [andThen, h]

theorem bind_err (h : t.result = none) : t >>= f = { events := t.events, result := none } := by
  change andThen t f = _
  rw [andThen, h]

@[simp] theorem result_err : (err : Traced ε α).result = none := rfl
@[simp] theorem result_pure : (pure a : Traced ε α).result = some a := rfl
@[simp] theorem result_emit (e : ε) : (emit e).result = some () := rfl
@[simp] theorem result_ofOption (o : Option α) : (ofOption o : Traced ε α).result = o := rfl

theorem result_bind : (t >>= f).result = t.result.bind fun a => (f a).result := by
  cases hr : t.result with
  | none => rw [bind_err hr, Option.bind_none]
  | some a => rw [bind_ok hr, Option.bind_some]

def Shows (X : ε → Prop) (t : Traced ε α) : Prop := ∃ e ∈ t.events, X e

instance (X : ε → Prop) [DecidablePred X] (t : Traced ε α) : Decidable (Shows X t) :=
  inferInstanceAs (Decidable (∃ e ∈ t.events, X e))

section Shows

variable {X : ε → Prop}

@[simp] theorem shows_err : Shows X (err : Traced ε α) ↔ False := by simp [Shows, err]

@[simp] theorem shows_pure : Shows X (pure a : Traced ε α) ↔ False :=
  ⟨fun ⟨_, he, _⟩ => absurd he List.not_mem_nil, False.elim⟩

@[simp] theorem shows_emit (e : ε) : Shows X (emit e) ↔ X e := by simp [Shows, emit]

@[simp] theorem shows_ofOption (o : Option α) : Shows X (ofOption o : Traced ε α) ↔ False := by simp [Shows, ofOption]

@[simp] theorem shows_bind : Shows X (t >>= f) ↔ Shows X t ∨ ∃ a, t.result = some a ∧ Shows X (f a) := by
  cases hr : t.result with
  | none => simp [Shows, bind_err hr]
  | some a => simp [Shows, bind_ok hr, or_and_right, exists_or]

theorem shows_bind_of (h : ¬ Shows X t) : Shows X (t >>= f) ↔ ∃ a, t.result = some a ∧ Shows X (f a) := by
  rw [shows_bind, or_iff_right h]

end Shows

def Spec (P : ε → Prop) (Q : α → Prop) (t : Traced ε α) : Prop := (∀ e ∈ t.events, P e) ∧ ∀ a, t.result = some a → Q a

variable {P : ε → Prop} {Q Q' : α → Prop} {R : β → Prop}

theorem Spec.not_shows (h : Spec (fun e => ¬ P e) Q t) : ¬ t.Shows P := fun ⟨e, he, hp⟩ => h.1 e he hp

theorem Spec.bind (h : Spec P Q t) (hf : ∀ a, Q a → Spec P R (f a)) : Spec P R (t >>= f) := by
  cases hr : t.result with
  | none =>
    rw [bind_err hr]
    exact ⟨h.1, nofun⟩
  | some a =>
    rw [bind_ok hr]
    obtain ⟨hevents, hresult⟩ := hf a (h.2 a hr)
    refine ⟨fun e he => ?_, hresult⟩
    obtain he | he := List.mem_append.mp he
    · exact h.1 e he
    · exact hevents e he

theorem Spec.weaken (h : Spec P Q t) (hq : ∀ a, Q a → Q' a) : Spec P Q' t := ⟨h.1, fun a ha => hq a (h.2 a ha)⟩

theorem Spec.pure (h : Q a) : Spec P Q (Pure.pure a : Traced ε α) := by
  refine ⟨fun e he => absurd he List.not_mem_nil, fun b hb => ?_⟩
  cases hb
  exact h

theorem Spec.err : Spec P Q (Traced.err : Traced ε α) := ⟨fun _ he => absurd he List.not_mem_nil, nofun⟩

theorem Spec.emit {e : ε} (h : P e) : Spec P (fun _ => True) (Traced.emit e) := by
  refine ⟨fun e' he => ?_, fun _ _ => trivial⟩
  rw [List.mem_singleton.mp he]
  exact h

theorem Spec.ofOption {o : Option α} (h : ∀ a, o = some a → Q a) : Spec P Q (Traced.ofOption o) :=
  ⟨fun _ he => absurd he List.not_mem_nil, h⟩

/-- It succeeds with `a`, and what `g` picks from its events is `out`. -/
def Gives {γ : Type} (g : ε → Option γ) (t : Traced ε α) (out : List γ) (a : α) : Prop :=
  t.result = some a ∧ t.events.filterMap g = out

section Gives

variable {γ : Type} {g : ε → Option γ} {out out' : List γ} {k : α → Traced ε β} {b : β}

theorem Gives.pure : Gives g (Pure.pure a : Traced ε α) [] a := ⟨rfl, rfl⟩

theorem Gives.emit (e : ε) : Gives g (Traced.emit e) (g e).toList () := by
  refine ⟨rfl, ?_⟩
  cases h : g e <;> simp [Traced.emit, h]

theorem Gives.ofOption {o : Option α} (h : o = some a) : Gives g (Traced.ofOption o) [] a := ⟨h, rfl⟩

theorem Gives.silent (h : Spec (fun e => g e = none) Q t) (hr : t.result = some a) : Gives g t [] a :=
  ⟨hr, List.filterMap_eq_nil_iff.mpr h.1⟩

theorem Gives.bind (h : Gives g t out a) (hk : Gives g (k a) out' b) : Gives g (t >>= k) (out ++ out') b := by
  rw [Gives, bind_ok h.1]
  exact ⟨hk.1, by rw [List.filterMap_append, h.2, hk.2]⟩

end Gives

/-- The two do the same and `X` does not come up, or it comes up in the second and `Y` in the first. -/
def Follows (X Y : ε → Prop) (t u : Traced ε α) : Prop :=
  (t = u ∧ ∀ e ∈ t.events, ¬ X e) ∨ (∃ e ∈ t.events, Y e) ∧ ∃ e ∈ u.events, X e

variable {X Y : ε → Prop}

theorem Follows.refl (h : Spec (fun e => ¬ X e) Q t) : Follows X Y t t := Or.inl ⟨rfl, h.1⟩

theorem mem_bind {e : ε} (h : e ∈ t.events) : e ∈ (t >>= f).events := by
  cases hr : t.result with
  | none =>
    rw [bind_err hr]
    exact h
  | some a =>
    rw [bind_ok hr]
    exact List.mem_append_left _ h

theorem mem_bind_right {e : ε} (hr : t.result = some a) (h : e ∈ (f a).events) : e ∈ (t >>= f).events := by
  rw [bind_ok hr]
  exact List.mem_append_right _ h

theorem Follows.bind (h : Follows X Y t u) (hf : ∀ a, t.result = some a → Follows X Y (f a) (g a)) :
    Follows X Y (t >>= f) (u >>= g) := by
  obtain ⟨rfl, hclean⟩ | ⟨⟨e, he, hy⟩, e', he', hx⟩ := h
  · cases hr : t.result with
    | none =>
      rw [bind_err hr, bind_err hr]
      exact Or.inl ⟨rfl, hclean⟩
    | some a =>
      obtain ⟨heq, hrest⟩ | ⟨⟨e, he, hy⟩, e', he', hx⟩ := hf a hr
      · rw [bind_ok hr, bind_ok hr, ← heq]
        refine Or.inl ⟨rfl, fun e he => ?_⟩
        obtain he | he := List.mem_append.mp he
        · exact hclean e he
        · exact hrest e he
      · exact Or.inr ⟨⟨e, mem_bind_right hr he, hy⟩, e', mem_bind_right hr he', hx⟩
  · exact Or.inr ⟨⟨e, mem_bind he, hy⟩, e', mem_bind he', hx⟩

end Traced

end Wave.Lib
