import Mathlib.Data.List.Basic

/-! # Decoders that take their input as it comes

What a decoder takes does not change when more comes behind (`Intake.grow`), so its cuts do not matter
(`Intake.drive_eq`). -/

namespace Wave.Lib.Intake

variable {σ β γ ε : Type*}

/-- What a decoder does with the input in front of it. -/
inductive Turn (σ γ ε : Type*) where
  | wait
  | take (n : Nat) (out : List γ) (next : σ)
  | refuse (e : ε) (next : σ)

end Wave.Lib.Intake

namespace Wave.Lib

open Intake

/-- A decoder by its turns, in the states that `Live` says; one that is taken decodes at most one element. -/
structure Intake (σ β γ ε : Type*) where
  Live : σ → Prop
  turn : σ → List β → Turn σ γ ε
  keep : ∀ {s l n out t}, Live s → turn s l = .take n out t → Live t
  grow : ∀ {s l} (more : List β), turn s l ≠ .wait → turn s (l ++ more) = turn s l
  within : ∀ {s l n out t}, turn s l = .take n out t → 0 < n ∧ n ≤ l.length ∧ out.length ≤ 1

namespace Intake

variable {σ β γ ε : Type*}

structure Outcome (σ γ ε : Type*) where
  state : σ
  taken : Nat
  out : List γ
  bad : Option ε

variable (D : Intake σ β γ ε)

/-- The turns over the first `taken` elements of the input. -/
inductive Reads : σ → List β → Nat → List γ → σ → Prop
  | nil (s : σ) (l : List β) : Reads s l 0 [] s
  | cons {s t u : σ} {l : List β} {n k : Nat} {out os : List γ} (h : D.turn s l = .take n out t)
    (hrest : Reads t (l.drop n) k os u) : Reads s l (n + k) (out ++ os) u

/-- The turns take all of `bytes`, whatever is behind. -/
def Took (s : σ) (bytes : List β) (out : List γ) (t : σ) : Prop := Reads D s bytes bytes.length out t

/-- A call with room for `room` elements: it takes turns until it waits, refuses, or has no room for the next one. -/
def Called (s : σ) (l : List β) (room : Nat) (o : Outcome σ γ ε) : Prop :=
  ∃ t, Reads D s l o.taken o.out t ∧ o.out.length ≤ room ∧
    match o.bad with
    | some e => D.turn t (l.drop o.taken) = .refuse e o.state
    | none => o.state = t ∧ (D.turn t (l.drop o.taken) = .wait ∨
        ∃ n out u, D.turn t (l.drop o.taken) = .take n out u ∧ room < o.out.length + out.length)

def Outcome.after (o : Outcome σ γ ε) (n : Nat) (out : List γ) : Outcome σ γ ε :=
  { o with taken := n + o.taken, out := out ++ o.out }

def drive (call : σ → List β → Nat → Outcome σ γ ε) : σ → List β → List (List β × Nat) → Outcome σ γ ε
  | s, _, [] => { state := s, taken := 0, out := [], bad := none }
  | s, left, (more, room) :: calls =>
    let o := call s (left ++ more) room
    match o.bad with
    | some _ => o
    | none => (drive call o.state ((left ++ more).drop o.taken) calls).after o.taken o.out

def given (calls : List (List β × Nat)) : List β := calls.flatMap Prod.fst

variable {D} {s t u : σ} {l more : List β} {k k' n room : Nat} {out out' os os' : List γ} {e : ε} {o : Outcome σ γ ε}
  {call : σ → List β → Nat → Outcome σ γ ε}

theorem Reads.le (h : Reads D s l k os t) : k ≤ l.length ∧ os.length ≤ k := by
  induction h with
  | nil => exact ⟨Nat.zero_le _, Nat.le_refl _⟩
  | cons h _ ih =>
    obtain ⟨hpos, hle, hout⟩ := D.within h
    rw [List.length_drop] at ih
    rw [List.length_append]
    omega

theorem Reads.live (h : Reads D s l k os t) (hs : D.Live s) : D.Live t := by
  induction h with
  | nil => exact hs
  | cons h _ ih => exact ih (D.keep hs h)

theorem Reads.grow (h : Reads D s l k os t) (more : List β) : Reads D s (l ++ more) k os t := by
  induction h with
  | nil => exact .nil _ _
  | cons h _ ih =>
    refine .cons ((D.grow more (by rw [h]; exact nofun)).trans h) ?_
    rw [List.drop_append_of_le_length (D.within h).2.1]
    exact ih

theorem Reads.trans (h : Reads D s l k os t) (h' : Reads D t (l.drop k) k' os' u) :
    Reads D s l (k + k') (os ++ os') u := by
  induction h with
  | nil =>
    rw [Nat.zero_add]
    exact h'
  | cons h _ ih =>
    rw [Nat.add_assoc, List.append_assoc]
    rw [← List.drop_drop] at h'
    exact .cons h (ih h')

theorem Took.append {bytes bytes' : List β} (h : Took D s bytes os t) (h' : Took D t bytes' os' u) :
    Took D s (bytes ++ bytes') (os ++ os') u := by
  rw [Took, List.length_append]
  refine (Reads.grow h bytes').trans ?_
  rw [List.drop_left]
  exact h'

theorem Took.one {bytes : List β} (h : D.turn s bytes = .take bytes.length out t) : Took D s bytes out t := by
  have hone : Reads D s bytes (bytes.length + 0) (out ++ []) t := .cons h (.nil _ _)
  rwa [List.append_nil] at hone

/-- Two rows of turns over one input, the second to where the decoder stops: the first is the beginning of it. -/
theorem Reads.stop (h : Reads D s l k os t) (h' : Reads D s l k' os' u)
    (hstop : ∀ n out v, D.turn u (l.drop k') ≠ .take n out v) :
    ∃ k₁ os₁, k' = k + k₁ ∧ os' = os ++ os₁ ∧ Reads D t (l.drop k) k₁ os₁ u := by
  induction h generalizing k' os' with
  | nil => exact ⟨k', os', (Nat.zero_add _).symm, rfl, h'⟩
  | @cons s t v l n k out os h _ ih =>
    cases h' with
    | nil => exact absurd h (hstop n out t)
    | @cons _ t' _ _ n' k' out' os' h' hrest =>
      rw [h] at h'
      cases h'
      rw [← List.drop_drop] at hstop
      obtain ⟨k₁, os₁, rfl, rfl, hread⟩ := ih hrest hstop
      refine ⟨k₁, os₁, (Nat.add_assoc _ _ _).symm, (List.append_assoc _ _ _).symm, ?_⟩
      rwa [← List.drop_drop]

theorem Reads.stop_short (h : Reads D s (l ++ more) k os t) (h' : Reads D s l k' os' u)
    (hstop : ∀ l n out v, D.turn u l ≠ .take n out v) :
    ∃ k₁ os₁, k' = k + k₁ ∧ Reads D t (l.drop k) k₁ os₁ u := by
  generalize hall : l ++ more = all at h
  induction h generalizing l k' os' with
  | nil => exact ⟨k', os', (Nat.zero_add _).symm, h'⟩
  | @cons s t v all n k out os h _ ih =>
    subst hall
    cases h' with
    | nil => exact absurd h (hstop _ n out t)
    | @cons _ t' _ _ n' k' out' os' h' hrest =>
      rw [D.grow more (by rw [h']; exact nofun), h'] at h
      cases h
      obtain ⟨k₁, os₁, rfl, hread⟩ := ih hrest (List.drop_append_of_le_length (D.within h').2.1).symm
      exact ⟨k₁, os₁, (Nat.add_assoc _ _ _).symm, by rwa [← List.drop_drop]⟩

theorem Reads.unique (h : Reads D s l k os t) (h' : Reads D s l k' os' u)
    (hstop : ∀ n out v, D.turn t (l.drop k) ≠ .take n out v) (hstop' : ∀ n out v, D.turn u (l.drop k') ≠ .take n out v) :
    k = k' ∧ os = os' ∧ t = u := by
  obtain ⟨k₁, os₁, rfl, rfl, hread⟩ := h.stop h' hstop'
  cases hread with
  | nil => exact ⟨rfl, (List.append_nil _).symm, rfl⟩
  | cons hturn => exact absurd hturn (hstop _ _ _)

theorem drive_reads (hcall : ∀ s l room, D.Live s → Called D s l room (call s l room)) (hs : D.Live s) (left : List β)
    (calls : List (List β × Nat)) :
    ∃ t, Reads D s (left ++ given calls) (drive call s left calls).taken (drive call s left calls).out t ∧
      match (drive call s left calls).bad with
      | some e => D.turn t ((left ++ given calls).drop (drive call s left calls).taken) =
          .refuse e (drive call s left calls).state
      | none => (drive call s left calls).state = t := by
  induction calls generalizing s left with
  | nil => exact ⟨s, .nil _ _, rfl⟩
  | cons c calls ih =>
    obtain ⟨more, room⟩ := c
    obtain ⟨t, hread, -, hverdict⟩ := hcall s (left ++ more) room hs
    have ht := hread.live hs
    have hall : left ++ given ((more, room) :: calls) = left ++ more ++ given calls := by
      rw [given, List.flatMap_cons, List.append_assoc]
      rfl
    have hle := hread.le.1
    rw [hall, drive]
    cases hbad : (call s (left ++ more) room).bad with
    | some e =>
      rw [hbad] at hverdict
      refine ⟨t, hread.grow _, ?_⟩
      dsimp only at hverdict ⊢
      rw [hbad]
      dsimp only
      rw [List.drop_append_of_le_length hle, D.grow _ (by rw [hverdict]; exact nofun), hverdict]
    | none =>
      rw [hbad] at hverdict
      dsimp only at hverdict ⊢
      obtain ⟨u, hrest, hend⟩ := ih (hverdict.1 ▸ ht) ((left ++ more).drop (call s (left ++ more) room).taken)
      rw [← List.drop_append_of_le_length hle] at hrest hend
      refine ⟨u, (hread.grow _).trans (by rw [← hverdict.1]; exact hrest), ?_⟩
      rw [List.drop_drop] at hend
      exact hend

theorem Outcome.after_zero (o : Outcome σ γ ε) : o.after 0 [] = o := by
  rw [Outcome.after, Nat.zero_add]
  rfl

theorem Called.after (h : Reads D s l n out t) (hout : out.length ≤ room)
    (h' : Called D t (l.drop n) (room - out.length) o) : Called D s l room (o.after n out) := by
  obtain ⟨u, hread, hfits, hverdict⟩ := h'
  refine ⟨u, h.trans hread, ?_, ?_⟩
  · change (out ++ o.out).length ≤ room
    rw [List.length_append]
    omega
  · change match o.bad with
      | some e => D.turn u (l.drop (n + o.taken)) = .refuse e o.state
      | none => o.state = u ∧ (D.turn u (l.drop (n + o.taken)) = .wait ∨
          ∃ n' out' v, D.turn u (l.drop (n + o.taken)) = .take n' out' v ∧ room < (out ++ o.out).length + out'.length)
    rw [← List.drop_drop]
    cases hbad : o.bad with
    | some e =>
      rw [hbad] at hverdict
      exact hverdict
    | none =>
      rw [hbad] at hverdict
      obtain ⟨hstate, hwait | ⟨n', out', v, hturn, hfull⟩⟩ := hverdict
      · exact ⟨hstate, Or.inl hwait⟩
      · refine ⟨hstate, Or.inr ⟨n', out', v, hturn, ?_⟩⟩
        rw [List.length_append]
        omega

theorem Called.stops (h : Called D s l room o) (hroom : l.length ≤ room) :
    ∃ t, Reads D s l o.taken o.out t ∧ (∀ n out v, D.turn t (l.drop o.taken) ≠ .take n out v) ∧
      match o.bad with
      | some e => D.turn t (l.drop o.taken) = .refuse e o.state
      | none => o.state = t ∧ D.turn t (l.drop o.taken) = .wait := by
  obtain ⟨t, hread, -, hverdict⟩ := h
  obtain ⟨hle, hout⟩ := hread.le
  refine ⟨t, hread, ?_⟩
  cases hbad : o.bad with
  | some e =>
    rw [hbad] at hverdict
    dsimp only at hverdict ⊢
    exact ⟨fun n out v => by rw [hverdict]; exact nofun, hverdict⟩
  | none =>
    rw [hbad] at hverdict
    obtain ⟨hstate, hwait | ⟨n, out, u, hturn, hfull⟩⟩ := hverdict
    · exact ⟨fun n out v => by rw [hwait]; exact nofun, hstate, hwait⟩
    · have hwithin := D.within hturn
      rw [List.length_drop] at hwithin
      omega

/-- The calls are through with what they were given: one refused, or another, with room for one element, takes nothing. -/
def Through (call : σ → List β → Nat → Outcome σ γ ε) (l : List β) (o : Outcome σ γ ε) : Prop :=
  o.bad = none → (call o.state (l.drop o.taken) 1).taken = 0 ∧ (call o.state (l.drop o.taken) 1).bad = none

theorem Called.wait (h : Called D s l room o) (hroom : 0 < room) (htaken : o.taken = 0) (hbad : o.bad = none) :
    D.turn s l = .wait := by
  obtain ⟨t, hread, -, hverdict⟩ := h
  rw [hbad, htaken] at hverdict
  rw [htaken] at hread
  dsimp only at hverdict
  rw [List.drop_zero] at hverdict
  generalize hk : 0 = k at hread
  generalize o.out = os at hread hverdict
  cases hread with
  | nil =>
    obtain ⟨-, hwait | ⟨n, out, u, hturn, hfull⟩⟩ := hverdict
    · exact hwait
    · have hwithin := D.within hturn
      rw [List.length_nil] at hfull
      omega
  | cons hturn =>
    have hwithin := D.within hturn
    omega

/-- However the input is cut and whatever room the calls have, they leave what one call with room enough leaves. -/
theorem drive_eq (hcall : ∀ s l room, D.Live s → Called D s l room (call s l room)) (hs : D.Live s) {calls : List (List β × Nat)}
    (hthrough : Through call (given calls) (drive call s [] calls)) (hroom : (given calls).length ≤ room) :
    drive call s [] calls = call s (given calls) room := by
  obtain ⟨t, hread, hend⟩ := drive_reads hcall hs [] calls
  obtain ⟨u, hread', hstop', hend'⟩ := (hcall s (given calls) room hs).stops hroom
  rw [List.nil_append] at hread hend
  have hlive := hread.live hs
  have hstop : ∀ n out v, D.turn t ((given calls).drop (drive call s [] calls).taken) ≠ .take n out v := by
    intro n out v
    cases hbad : (drive call s [] calls).bad with
    | some e =>
      rw [hbad] at hend
      dsimp only at hend
      rw [hend]
      exact nofun
    | none =>
      rw [hbad] at hend
      dsimp only at hend
      obtain ⟨htaken, hnone⟩ := hthrough hbad
      rw [← hend, (hcall _ _ _ (by rw [hend]; exact hlive)).wait Nat.one_pos htaken hnone]
      exact nofun
  obtain ⟨htaken, hout, rfl⟩ := hread.unique hread' hstop hstop'
  rw [htaken] at hend
  generalize drive call s [] calls = o at hend htaken hout hstop hthrough
  generalize call s (given calls) room = o' at hend' htaken hout hstop' hend
  obtain ⟨state, taken, out, bad⟩ := o
  obtain ⟨state', taken', out', bad'⟩ := o'
  dsimp only at htaken hout hend hend'
  subst htaken hout
  cases bad with
  | some e =>
    cases bad' with
    | some e' =>
      rw [hend] at hend'
      cases hend'
      rfl
    | none => exact absurd (hend.symm.trans hend'.2) nofun
  | none =>
    cases bad' with
    | some e' =>
      obtain ⟨hzero, hnone⟩ := hthrough rfl
      dsimp only at hzero hnone hend hend'
      rw [← hend, (hcall _ _ _ (by rw [hend]; exact hlive)).wait Nat.one_pos hzero hnone] at hend'
      cases hend'
    | none =>
      obtain rfl := hend
      obtain rfl := hend'.1
      rfl

end Intake

end Wave.Lib
