import Mathlib.Data.List.Basic

/-! # Readers that are fed in pieces

A turn takes some of the input, waits for more, or fails. Where more input does not change it (`Loop.GrowsAt`),
pieces are read as the whole would be. -/

namespace Wave.Lib.Feed

variable {σ β γ ε : Type*}

abbrev Fed (σ γ ε : Type*) := List γ × Except ε σ

def Fed.andThen (r : Fed σ γ ε) (call : σ → Fed σ γ ε) : Fed σ γ ε :=
  match r.2 with
  | .ok s => (r.1 ++ (call s).1, (call s).2)
  | .error e => (r.1, .error e)

def feedAll (feed : σ → List β → Fed σ γ ε) : σ → List (List β) → Fed σ γ ε
  | s, [] => ([], .ok s)
  | s, piece :: pieces => Fed.andThen (feed s piece) fun t => feedAll feed t pieces

inductive Turn (σ β γ ε : Type*) where
  | wait (out : List γ) (s : σ)
  | next (out : List γ) (s : σ) (rest : List β)
  | fail (out : List γ) (e : ε)

def Turn.after (given : List γ) : Turn σ β γ ε → Turn σ β γ ε
  | .wait out s => .wait (given ++ out) s
  | .next out s rest => .next (given ++ out) s rest
  | .fail out e => .fail (given ++ out) e

theorem Turn.after_nil (r : Turn σ β γ ε) : r.after [] = r := by
  cases r <;> rfl

/-- A reader by its turns. One that goes on took some input, or brought the state further down. -/
structure Loop (σ β γ ε : Type*) where
  turn : σ → List β → Turn σ β γ ε
  rank : σ → Nat
  less : ∀ {s l out t rest}, turn s l = .next out t rest →
    rest.length < l.length ∨ (rest.length = l.length ∧ rank t < rank s)

namespace Loop

variable (L : Loop σ β γ ε)

def feed (s : σ) (l : List β) : Fed σ γ ε :=
  match _h : L.turn s l with
  | .wait out t => (out, .ok t)
  | .fail out e => (out, .error e)
  | .next out t rest => ((out ++ (feed t rest).1), (feed t rest).2)
termination_by (l.length, L.rank s)
decreasing_by
  all_goals
    rcases L.less _h with hlt | ⟨heq, hlt⟩
    · exact .left _ _ hlt
    · rw [heq]
      exact .right _ hlt

/-- More input does not change what a turn did: what it left has more behind it, or the next turn and this one are one
turn. -/
def GrowsAt (s : σ) (l m : List β) : Prop :=
  match L.turn s l with
  | .wait out t => L.turn s (l ++ m) = (L.turn t m).after out
  | .fail out e => L.turn s (l ++ m) = .fail out e
  | .next out t rest =>
    L.turn s (l ++ m) = .next out t (rest ++ m) ∨ (rest = [] ∧ (m ≠ [] → L.turn s (l ++ m) = (L.turn t m).after out))

/-- So it is in the states of `Live`. -/
structure Grows (Live : σ → Prop) : Prop where
  keep : ∀ {s l out t rest}, Live s → L.turn s l = .next out t rest → Live t
  stay : ∀ {s l out t}, Live s → L.turn s l = .wait out t → Live t
  empty : ∀ {s}, Live s → L.turn s [] = .wait [] s
  grow : ∀ {s}, Live s → ∀ l m, L.GrowsAt s l m

variable {L} {s t : σ} {l m rest : List β} {out : List γ} {e : ε} {Live : σ → Prop}

theorem feed_wait (h : L.turn s l = .wait out t) : L.feed s l = (out, .ok t) := by
  rw [feed]
  split
  next h' => rw [h] at h'; cases h'; rfl
  next h' => rw [h] at h'; cases h'
  next h' => rw [h] at h'; cases h'

theorem feed_fail (h : L.turn s l = .fail out e) : L.feed s l = (out, .error e) := by
  rw [feed]
  split
  next h' => rw [h] at h'; cases h'
  next h' => rw [h] at h'; cases h'; rfl
  next h' => rw [h] at h'; cases h'

theorem feed_next (h : L.turn s l = .next out t rest) :
    L.feed s l = (out ++ (L.feed t rest).1, (L.feed t rest).2) := by
  rw [feed]
  split
  next h' => rw [h] at h'; cases h'
  next h' => rw [h] at h'; cases h'
  next h' => rw [h] at h'; cases h'; rfl

theorem feed_after {given : List γ} (h : L.turn s l = (L.turn t m).after given) :
    L.feed s l = (given ++ (L.feed t m).1, (L.feed t m).2) := by
  cases hturn : L.turn t m with
  | wait out u =>
    rw [hturn] at h
    rw [feed_wait h, feed_wait hturn]
  | fail out e =>
    rw [hturn] at h
    rw [feed_fail h, feed_fail hturn]
  | next out u rest =>
    rw [hturn] at h
    rw [feed_next h, feed_next hturn, List.append_assoc]

theorem feed_invariant {I : σ → List β → List γ → Prop}
    (hnext : ∀ {s l out t rest}, L.turn s l = .next out t rest →
      ∃ took, l = took ++ rest ∧ ∀ seen given, I s seen given → I t (seen ++ took) (given ++ out))
    (hwait : ∀ {s l out t}, L.turn s l = .wait out t → ∀ seen given, I s seen given → I t (seen ++ l) (given ++ out))
    {s t : σ} {l seen : List β} {given out : List γ} (hs : I s seen given) (h : L.feed s l = (out, .ok t)) :
    I t (seen ++ l) (given ++ out) := by
  induction s, l using feed.induct L generalizing seen given out with
  | case1 s l o u hturn =>
    rw [feed_wait hturn] at h
    cases h
    exact hwait hturn _ _ hs
  | case2 s l o e hturn =>
    rw [feed_fail hturn] at h
    cases h
  | case3 s l o u rest hturn ih =>
    rw [feed_next hturn] at h
    obtain ⟨took, rfl, hkeep⟩ := hnext hturn
    obtain ⟨rfl, hu⟩ := Prod.mk.inj h
    rw [← List.append_assoc, ← List.append_assoc]
    exact ih (hkeep _ _ hs) (Prod.ext rfl hu)

namespace Grows

variable (hL : L.Grows Live)

include hL

theorem feed_empty (hs : Live s) : L.feed s [] = ([], .ok s) := feed_wait (hL.empty hs)

theorem feed_live (hs : Live s) (h : L.feed s l = (out, .ok t)) : Live t := by
  induction s, l using feed.induct L generalizing out with
  | case1 s l o u hturn =>
    rw [feed_wait hturn] at h
    cases h
    exact hL.stay hs hturn
  | case2 s l o e hturn =>
    rw [feed_fail hturn] at h
    cases h
  | case3 s l o u rest hturn ih =>
    rw [feed_next hturn] at h
    exact ih (hL.keep hs hturn) (Prod.ext rfl (Prod.mk.inj h).2)

theorem feed_append (hs : Live s) (l m : List β) :
    L.feed s (l ++ m) = Fed.andThen (L.feed s l) fun t => L.feed t m := by
  induction s, l using feed.induct L with
  | case1 s l out t hturn =>
    have hgrow := hL.grow hs l m
    rw [GrowsAt, hturn] at hgrow
    rw [feed_after hgrow, feed_wait hturn]
    rfl
  | case2 s l out e hturn =>
    have hgrow := hL.grow hs l m
    rw [GrowsAt, hturn] at hgrow
    rw [feed_fail hgrow, feed_fail hturn]
    rfl
  | case3 s l out t rest hturn ih =>
    have ht := hL.keep hs hturn
    have hgrow := hL.grow hs l m
    rw [GrowsAt, hturn] at hgrow
    rw [feed_next hturn]
    rcases hgrow with hgrow | ⟨rfl, hgrow⟩
    · rw [feed_next hgrow, ih ht]
      cases hfed : L.feed t rest with
      | mk given r =>
        cases r with
        | ok u => exact Prod.ext (List.append_assoc _ _ _).symm rfl
        | error e => rfl
    · rw [hL.feed_empty ht]
      cases m with
      | nil =>
        rw [List.append_nil, feed_next hturn, hL.feed_empty ht]
        change _ = (out ++ [] ++ (L.feed t []).1, (L.feed t []).2)
        rw [hL.feed_empty ht, List.append_nil, List.append_nil]
      | cons b m =>
        rw [feed_after (hgrow (List.cons_ne_nil b m))]
        change _ = (out ++ [] ++ (L.feed t (b :: m)).1, (L.feed t (b :: m)).2)
        rw [List.append_nil]

/-- However the input is cut, it is read as the whole. -/
theorem feedAll_eq (hs : Live s) (pieces : List (List β)) : feedAll L.feed s pieces = L.feed s pieces.flatten := by
  induction pieces generalizing s with
  | nil => exact (hL.feed_empty hs).symm
  | cons piece pieces ih =>
    rw [feedAll, List.flatten_cons, hL.feed_append hs]
    cases hfed : L.feed s piece with
    | mk out r =>
      cases r with
      | ok t =>
        change (out ++ (feedAll L.feed t pieces).1, (feedAll L.feed t pieces).2) =
          (out ++ (L.feed t pieces.flatten).1, (L.feed t pieces.flatten).2)
        rw [ih (hL.feed_live hs hfed)]
      | error e => rfl

end Grows

end Loop

section Marks

theorem take_mark (a rest : List β) (x : β) : (a ++ x :: rest).take (a.length + 1) = a ++ [x] := by
  rw [List.take_length_add_append]
  rfl

theorem drop_mark (a rest : List β) (x : β) : (a ++ x :: rest).drop (a.length + 1) = rest := by
  rw [List.drop_length_add_append]
  rfl

variable [DecidableEq β] {x : β} {a : List β}

theorem mark_cases (x : β) (l : List β) : x ∉ l ∨ ∃ a rest, x ∉ a ∧ l = a ++ x :: rest := by
  by_cases h : x ∈ l
  · obtain ⟨a, rest, heq, ha⟩ := List.eq_append_cons_of_mem h
    exact .inr ⟨a, rest, ha, heq⟩
  · exact .inl h

theorem findIdx?_no_mark (h : x ∉ a) : a.findIdx? (· = x) = none :=
  List.findIdx?_eq_none_iff.mpr fun b hb => by
    rw [decide_eq_false_iff_not]
    rintro rfl
    exact h hb

theorem findIdx?_mark (h : x ∉ a) (rest : List β) : (a ++ x :: rest).findIdx? (· = x) = some a.length := by
  rw [List.findIdx?_append, findIdx?_no_mark h]
  simp [List.findIdx?_cons]

end Marks

end Wave.Lib.Feed
