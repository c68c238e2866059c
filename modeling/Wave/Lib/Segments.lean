import Wave.Lib.Paths

/-! # Paths with steps back

Some segments of a path stay, some go one back; `resolve` follows them. -/

namespace Wave.Lib.Segments

variable {α : Type*}

def render (sep : α) (segs : List (List α)) : List α := segs.flatMap (sep :: ·)

inductive Kind where
  | name
  | stay
  | up
deriving DecidableEq

def push (kind : List α → Kind) (stack : List (List α)) (s : List α) : List (List α) :=
  match kind s with
  | .name => stack ++ [s]
  | .stay => stack
  | .up => stack.dropLast

def resolve (kind : List α → Kind) : (stack segs : List (List α)) → List (List α)
  | stack, [] => stack
  | stack, [s] => if kind s = .name then stack ++ [s] else push kind stack s ++ [[]]
  | stack, s :: t :: segs => resolve kind (push kind stack s) (t :: segs)

variable {sep : α} {kind : List α → Kind} {stack segs : List (List α)} {s : List α}

theorem render_append (stack segs : List (List α)) : render sep (stack ++ segs) = render sep stack ++ render sep segs :=
  flatMap_append

theorem render_cons (s : List α) (segs : List (List α)) : render sep (s :: segs) = sep :: (s ++ render sep segs) := by
  rw [render, flatMap_cons, cons_append]
  rfl

theorem render_singleton (s : List α) : render sep [s] = sep :: s := by
  rw [render_cons, render, flatMap_nil, append_nil]

theorem resolve_names (h : ∀ s ∈ segs, kind s = .name) (stack : List (List α)) : resolve kind stack segs = stack ++ segs := by
  induction segs generalizing stack with
  | nil => exact (append_nil _).symm
  | cons s segs ih =>
    obtain ⟨hs, hrest⟩ := forall_mem_cons.mp h
    cases segs with
    | nil => rw [resolve, if_pos hs]
    | cons t segs =>
      rw [resolve, ih hrest, push, hs, append_assoc]
      rfl

theorem mem_push {t : List α} (h : t ∈ push kind stack s) : t ∈ stack ∨ t = s ∧ kind s = .name := by
  unfold push at h
  cases hs : kind s with
  | name =>
    rw [hs] at h
    rcases mem_append.mp h with h | h
    · exact Or.inl h
    · exact Or.inr ⟨mem_singleton.mp h, rfl⟩
  | stay =>
    rw [hs] at h
    exact Or.inl h
  | up =>
    rw [hs] at h
    exact Or.inl (List.dropLast_subset _ h)

theorem mem_resolve {t : List α} (h : t ∈ resolve kind stack segs) :
    t ∈ stack ∨ t = [] ∨ t ∈ segs ∧ kind t = .name := by
  induction segs generalizing stack with
  | nil => exact Or.inl h
  | cons s segs ih =>
    cases segs with
    | nil =>
      rw [resolve] at h
      split at h
      next hs =>
        rcases mem_append.mp h with h | h
        · exact Or.inl h
        · rw [mem_singleton.mp h]
          exact Or.inr (Or.inr ⟨mem_cons_self, hs⟩)
      next hs =>
        rcases mem_append.mp h with h | h
        · rcases mem_push h with h | ⟨-, hname⟩
          · exact Or.inl h
          · exact absurd hname hs
        · exact Or.inr (Or.inl (mem_singleton.mp h))
    | cons u segs =>
      rw [resolve] at h
      rcases ih h with h | h | ⟨h, hname⟩
      · rcases mem_push h with h | ⟨rfl, hname⟩
        · exact Or.inl h
        · exact Or.inr (Or.inr ⟨mem_cons_self, hname⟩)
      · exact Or.inr (Or.inl h)
      · exact Or.inr (Or.inr ⟨mem_cons_of_mem _ h, hname⟩)

theorem resolve_ne_nil (h : segs ≠ []) (stack : List (List α)) : resolve kind stack segs ≠ [] := by
  induction segs generalizing stack with
  | nil => exact absurd rfl h
  | cons s segs ih =>
    cases segs with
    | nil =>
      rw [resolve]
      split <;> exact append_ne_nil_of_right_ne_nil _ (cons_ne_nil _ _)
    | cons t segs => exact ih (cons_ne_nil _ _) _

theorem resolve_resolve (hempty : kind [] = .name) (segs : List (List α)) :
    resolve kind [] (resolve kind [] segs) = resolve kind [] segs := by
  refine resolve_names (fun s hs => ?_) []
  rcases mem_resolve hs with h | rfl | ⟨-, hname⟩
  · cases h
  · exact hempty
  · exact hname

theorem render_dropLast_length (stack : List (List α)) : (render sep stack.dropLast).length ≤ (render sep stack).length := by
  rcases eq_or_ne stack [] with rfl | hne
  · exact le_rfl
  · rw [← congrArg (render sep) (List.dropLast_append_getLast hne), render_append, length_append]
    exact Nat.le_add_right _ _

theorem render_push_length (s : List α) : (render sep (push kind stack s)).length ≤ (render sep stack).length + s.length + 1 := by
  unfold push
  cases kind s with
  | name =>
    rw [render_append, render_singleton, length_append, length_cons]
    exact le_of_eq (Nat.add_assoc _ _ _).symm
  | stay => exact Nat.le_add_right_of_le (Nat.le_add_right _ _)
  | up =>
    have hle : (render sep stack.dropLast).length ≤ (render sep stack).length := render_dropLast_length stack
    dsimp only
    omega

theorem render_resolve_length (stack segs : List (List α)) :
    (render sep (resolve kind stack segs)).length ≤ (render sep stack).length + (render sep segs).length := by
  induction segs generalizing stack with
  | nil => exact Nat.le_add_right _ _
  | cons s segs ih =>
    cases segs with
    | nil =>
      rw [resolve, render_singleton, length_cons]
      split
      · rw [render_append, render_singleton, length_append, length_cons]
      next hs =>
        rw [render_append, render_singleton, length_append, length_singleton]
        have hpush : (render sep (push kind stack s)).length ≤ (render sep stack).length := by
          unfold push
          cases hk : kind s with
          | name => exact absurd hk hs
          | stay => exact le_rfl
          | up => exact render_dropLast_length stack
        omega
    | cons t segs =>
      have hpush : (render sep (push kind stack s)).length ≤ (render sep stack).length + s.length + 1 :=
        render_push_length s
      have hrest := ih (push kind stack s)
      rw [resolve, render_cons, length_cons, length_append]
      omega

variable [DecidableEq α]

theorem render_splitOn (sep : α) (l : List α) : render sep (l.splitOn sep) = sep :: l := by
  have hjoin : ∀ parts : List (List α), parts ≠ [] → render sep parts = sep :: [sep].intercalate parts := by
    intro parts hne
    induction parts with
    | nil => exact absurd rfl hne
    | cons s parts ih =>
      cases parts with
      | nil => rw [render_singleton, intercalate_singleton]
      | cons t parts =>
        rw [render_cons, ih (cons_ne_nil _ _), List.intercalate_cons_cons, append_assoc]
        rfl
  rw [hjoin _ (List.splitOn_ne_nil sep l), List.intercalate_splitOn]

theorem not_mem_of_mem_splitOn {l s : List α} (h : s ∈ l.splitOn sep) : sep ∉ s := by
  induction l generalizing s with
  | nil =>
    rw [List.splitOn_nil, mem_singleton] at h
    rw [h]
    exact not_mem_nil
  | cons x l ih =>
    rw [List.splitOn, List.splitOnP_cons_eq_if_modifyHead] at h
    split at h
    · rcases mem_cons.mp h with rfl | h
      · exact not_mem_nil
      · exact ih h
    next hx =>
      obtain ⟨t, ts, hts⟩ := exists_cons_of_ne_nil (List.splitOn_ne_nil sep l)
      rw [← List.splitOn, hts, List.modifyHead_cons] at h
      rw [hts] at ih
      rcases mem_cons.mp h with rfl | h
      · intro hin
        rcases mem_cons.mp hin with rfl | hin
        · exact hx (beq_self_eq_true _)
        · exact ih mem_cons_self hin
      · exact ih (mem_cons_of_mem _ h)

theorem splitOn_whole (h : sep ∉ s) : s.splitOn sep = [s] := by
  have hone : ([sep].intercalate [s]).splitOn sep = [s] :=
    List.splitOn_intercalate sep (fun l hl => mem_singleton.mp hl ▸ h) (cons_ne_nil _ _)
  rwa [intercalate_singleton] at hone

theorem splitOn_render (hs : sep ∉ s) (h : ∀ t ∈ segs, sep ∉ t) : (s ++ render sep segs).splitOn sep = s :: segs := by
  induction segs generalizing s with
  | nil =>
    rw [render, flatMap_nil, append_nil]
    exact splitOn_whole hs
  | cons t segs ih =>
    obtain ⟨ht, hrest⟩ := forall_mem_cons.mp h
    rw [render_cons, List.splitOn_append_cons_self, splitOn_whole hs, ih ht hrest]
    rfl

end Wave.Lib.Segments
