import Mathlib.Data.List.Basic

/-! # Producers that are called until they have nothing to give

A producer is called again with what it left of a piece. `Sends` is what its caller gets; `TakesAll` makes the cut
indifferent. -/

namespace Wave.Lib.Pump

variable {σ β κ : Type*}

section Calls

variable (next : Bool → σ → List β → Option κ × σ × List β)

/-- The calls for one piece. -/
inductive Drained (last : Bool) : σ → List β → List κ → σ → Prop
  | spent {s t : σ} {rest left : List β} (h : next last s rest = (none, t, left)) : Drained last s rest [] t
  | given {s m t : σ} {rest left : List β} {k : κ} {ks : List κ} (h : next last s rest = (some k, m, left))
    (hrest : Drained last m left ks t) : Drained last s rest (k :: ks) t

/-- The calls for every piece of a sequence. -/
inductive Sends : σ → List (List β) → List κ → σ → Prop
  | final {s t : σ} {piece : List β} {ks : List κ} (h : Drained next true s piece ks t) : Sends s [piece] ks t
  | more {s m t : σ} {piece : List β} {pieces : List (List β)} {ks ks' : List κ} (h : Drained next false s piece ks m)
    (hrest : Sends m pieces ks' t) : Sends s (piece :: pieces) (ks ++ ks') t

inductive Takes : σ → β → List κ → σ → Prop
  | quiet {s t : σ} {b : β} (h : ∀ last rest, next last s (b :: rest) = next last t rest) : Takes s b [] t
  | gives {s m t : σ} {b : β} {k : κ} {ks : List κ} (h : ∀ last rest, next last s (b :: rest) = (some k, m, b :: rest))
    (hrest : Takes m b ks t) : Takes s b (k :: ks) t

inductive Opens : σ → List κ → σ → Prop
  | ready {s t : σ} (h : ∀ last rest, next last s rest = next last t rest) : Opens s [] t
  | gives {s m t : σ} {k : κ} {ks : List κ} (h : ∀ last rest, next last s rest = (some k, m, rest))
    (hrest : Opens m ks t) : Opens s (k :: ks) t

inductive TakesAll (Q : σ → Prop) : σ → List β → List κ → σ → Prop
  | nil {s : σ} (hs : Q s) : TakesAll Q s [] [] s
  | cons {s m t : σ} {b : β} {bs : List β} {ks ks' : List κ} (hs : Q s) (h : Takes next s b ks m)
    (hrest : TakesAll Q m bs ks' t) : TakesAll Q s (b :: bs) (ks ++ ks') t

end Calls

variable {next : Bool → σ → List β → Option κ × σ × List β} {last : Bool} {s m t : σ} {b : β} {bs cs rest : List β}
  {ks ks' : List κ} {pieces : List (List β)} {Q : σ → Prop}

theorem Opens.drained (h : Opens next s ks m) (h' : Drained next last m rest ks' t) :
    Drained next last s rest (ks ++ ks') t := by
  induction h with
  | ready h =>
    cases h' with
    | spent h' => exact .spent ((h last rest).trans h')
    | given h' hrest => exact .given ((h last rest).trans h') hrest
  | gives h _ ih => exact .given (h last rest) (ih h')

theorem Opens.sends (h : Opens next s ks m) (h' : Sends next m pieces ks' t) : Sends next s pieces (ks ++ ks') t := by
  cases h' with
  | final h' => exact .final (h.drained h')
  | more h' hrest =>
    rw [← List.append_assoc]
    exact .more (h.drained h') hrest

theorem TakesAll.append (h : TakesAll next Q s bs ks m) (h' : TakesAll next Q m cs ks' t) :
    TakesAll next Q s (bs ++ cs) (ks ++ ks') t := by
  induction h with
  | nil => exact h'
  | cons hs hb _ ih =>
    rw [List.cons_append, List.append_assoc]
    exact .cons hs hb (ih h')

theorem TakesAll.start (h : TakesAll next Q s bs ks t) : Q s := by
  cases h <;> assumption

theorem TakesAll.split (h : TakesAll next Q s (bs ++ cs) ks t) :
    ∃ ks₁ ks₂ m, ks = ks₁ ++ ks₂ ∧ TakesAll next Q s bs ks₁ m ∧ TakesAll next Q m cs ks₂ t := by
  induction bs generalizing s ks with
  | nil => exact ⟨[], ks, s, rfl, .nil h.start, h⟩
  | cons b bs ih =>
    rw [List.cons_append] at h
    cases h with
    | @cons _ m _ _ _ ks ks' hs hb hrest =>
      obtain ⟨ks₁, ks₂, m', rfl, h₁, h₂⟩ := ih hrest
      exact ⟨ks ++ ks₁, ks₂, m', (List.append_assoc _ _ _).symm, .cons hs hb h₁, h₂⟩

theorem TakesAll.one (hs : Q s) (h : Takes next s b ks t) (ht : Q t) : TakesAll next Q s [b] ks t := by
  have hone : TakesAll next Q s [b] (ks ++ []) t := .cons hs h (.nil ht)
  rwa [List.append_nil] at hone

theorem Takes.drained (h : Takes next s b ks m) (h' : Drained next last m rest ks' t) :
    Drained next last s (b :: rest) (ks ++ ks') t := by
  induction h with
  | quiet h =>
    cases h' with
    | spent h' => exact .spent ((h last rest).trans h')
    | given h' hrest => exact .given ((h last rest).trans h') hrest
  | gives h _ ih => exact .given (h last rest) (ih h')

theorem TakesAll.drained (h : TakesAll next Q s bs ks m) (h' : Drained next last m [] ks' t) :
    Drained next last s bs (ks ++ ks') t := by
  induction h with
  | nil => exact h'
  | cons _ hb _ ih =>
    rw [List.append_assoc]
    exact hb.drained (ih h')

/-- However the input is cut, its symbols are taken one after another and the last call closes. -/
theorem TakesAll.sends (hwait : ∀ s, Q s → next false s [] = (none, s, [])) (hne : pieces ≠ [])
    (h : TakesAll next Q s pieces.flatten ks m) (hlast : Drained next true m [] ks' t) :
    Sends next s pieces (ks ++ ks') t := by
  induction pieces generalizing s ks with
  | nil => exact absurd rfl hne
  | cons piece pieces ih =>
    cases pieces with
    | nil =>
      rw [List.flatten_cons, List.flatten_nil, List.append_nil] at h
      exact .final (h.drained hlast)
    | cons piece' pieces =>
      rw [List.flatten_cons] at h
      obtain ⟨ks₁, ks₂, w, rfl, h₁, h₂⟩ := h.split
      have hpiece := h₁.drained (.spent (hwait w h₂.start))
      rw [List.append_nil] at hpiece
      rw [List.append_assoc]
      exact .more hpiece (ih (by simp) h₂)

end Wave.Lib.Pump
