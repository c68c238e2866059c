import Wave.Lib.Bytes

/-! # The record queue (`http/server/app.rs`)

One heap buffer; held bytes slide to its start or move to a larger one. `none` is an access outside of it. -/

namespace Wave.Http.App

open Lib

variable {rec : Bytes}

variable {L : Limits} {q : RecordQueue} {records : List Bytes}

/-- The SDK's record sizes, and the records a response's credit is worth (4 on aarch64, else 1). -/
structure Limits where
  recordMax : Nat
  bodyMax : Nat
  windowRecords : Nat
  /-- `QUEUE_LIMIT` and one more record fit a `u32`. -/
  small : windowRecords * bodyMax + 3 * (recordMax + 4) < 2 ^ 32

def Limits.respWindow (L : Limits) : Nat := L.windowRecords * L.bodyMax

def Limits.queueLimit (L : Limits) : Nat := L.respWindow + 2 * (L.recordMax + 4)

/-- `heap_alloc` at one call: no buffer, or one of the size asked for with whatever it held. -/
structure Arena where
  alloc : Nat → Option Bytes
  sized : ∀ n buf, alloc n = some buf → buf.length = n

def load (buf : Bytes) (i n : Nat) : Option Bytes :=
  if i + n ≤ buf.length then some ((buf.drop i).take n) else none

def store (buf : Bytes) (i : Nat) (new : Bytes) : Option Bytes :=
  if i + new.length ≤ buf.length then some (buf.splice i new) else none

theorem load_append (pre mid post : Bytes) :
    load (pre ++ mid ++ post) pre.length mid.length = some mid := by
  rw [load, if_pos (by simp only [length_append]; omega), append_assoc, drop_left,
    take_left]

theorem store_append (pre old new post : Bytes) (h : new.length = old.length) :
    store (pre ++ old ++ post) pre.length new = some (pre ++ new ++ post) := by
  rw [store, if_pos (by simp only [length_append]; omega), append_assoc, Bytes.splice_middle h,
    append_assoc]

/-- `start` is the source's `at`; `cap` is the length of `buf`, and no buffer is an empty one. -/
structure RecordQueue where
  buf : Bytes := []
  start : Nat := 0
  len : Nat := 0
  frontTaken : Nat := 0
  frontHeadDone : Bool := false

namespace RecordQueue

def cap (q : RecordQueue) : Nat := q.buf.length

def isEmpty (q : RecordQueue) : Bool := q.len = 0

/-- The held bytes go back to the start of the buffer when the tail has no room. -/
def compact (q : RecordQueue) (need : Nat) : Option RecordQueue :=
  if q.start ≠ 0 ∧ q.start + q.len + need > q.cap then do
    let held ← load q.buf q.start q.len
    let buf ← store q.buf 0 held
    pure { q with buf := buf, start := 0 }
  else pure q

/-- `while cap < want { cap = cap.saturating_mul(2) }`. -/
def doubled (want : Nat) : Nat → Nat → Nat
  | 0, cap => cap
  | fuel + 1, cap => if cap < want then doubled want fuel (min (cap * 2) (2 ^ 32 - 1)) else cap

def nextCap (L : Limits) (cap want : Nat) : Nat :=
  min (doubled want 32 (if cap = 0 then L.recordMax + 4 else cap)) L.queueLimit

def moveTo (q : RecordQueue) (fresh : Bytes) : Option RecordQueue := do
  let held ← load q.buf q.start q.len
  let buf ← store fresh 0 held
  pure { q with buf := buf, start := 0 }

def encode (rec : Bytes) : Bytes := Bytes.le32 (UInt32.ofNat rec.length) ++ rec

/-- `4 + rec.len() as u32`. Past it no sum wraps: a buffer of `QUEUE_LIMIT` and one record fit. -/
def need (rec : Bytes) : Nat := (4 + rec.length) % 2 ^ 32

def append (q : RecordQueue) (rec : Bytes) : Option RecordQueue := do
  let buf ← store q.buf (q.start + q.len) (encode rec)
  pure { q with buf := buf, len := q.len + need rec }

def push (L : Limits) (arena : Arena) (q : RecordQueue) (rec : Bytes) : Option (Bool × RecordQueue) := do
  let need := need rec
  let q ← q.compact need
  let want := q.len + need
  if want > L.queueLimit then pure (false, q)
  else if want > q.cap then
    match arena.alloc (nextCap L q.cap want) with
    | none => pure (false, q)
    | some fresh => do
      let q ← q.moveTo fresh
      let q ← q.append rec
      pure (true, q)
  else do
    let q ← q.append rec
    pure (true, q)

/-- `none` when an access leaves the buffer, `some none` when nothing waits. -/
def front (q : RecordQueue) : Option (Option Bytes) :=
  if q.len < 4 then some none
  else do
    let word ← load q.buf q.start 4
    let n := (Bytes.u32le (word.at0 0) (word.at0 1) (word.at0 2) (word.at0 3)).toNat
    if 4 + n > q.len then some none
    else do
      let rec ← load q.buf (q.start + 4) n
      pure (some rec)

def takeFrontHead (q : RecordQueue) : RecordQueue := { q with frontHeadDone := true }

def takeFrontBody (q : RecordQueue) (n : Nat) : RecordQueue := { q with frontTaken := q.frontTaken + n }

def release (_ : RecordQueue) : RecordQueue := {}

def pop (q : RecordQueue) : Option RecordQueue := do
  let rec ← q.front
  let n := match rec with
    | some rec => 4 + rec.length
    | none => 0
  let q := { q with start := q.start + n, len := q.len - n, frontTaken := 0, frontHeadDone := false }
  pure (if q.len = 0 then q.release else q)

def clear (q : RecordQueue) : RecordQueue :=
  { q with start := 0, len := 0, frontTaken := 0, frontHeadDone := false }

/-- The buffer of `q` holds `records`, oldest first, from `start` on. -/
structure Holds (L : Limits) (q : RecordQueue) (records : List Bytes) : Prop where
  content : ∃ pre post, q.buf = pre ++ records.flatMap encode ++ post ∧ pre.length = q.start
  len : q.len = (records.flatMap encode).length
  capped : q.cap ≤ L.queueLimit

@[simp] theorem length_encode (rec : Bytes) : (encode rec).length = 4 + rec.length := by
  simp [encode]

theorem need_eq (h : rec.length ≤ L.recordMax) : need rec = 4 + rec.length := by
  have := L.small
  exact Nat.mod_eq_of_lt (by omega)

theorem holds_empty (L : Limits) : Holds L {} [] := ⟨⟨[], [], rfl, rfl⟩, rfl, Nat.zero_le _⟩

theorem Holds.mark (h : Holds L q records) (taken : Nat) (done : Bool) : Holds L { q with frontTaken := taken, frontHeadDone := done } records :=
  ⟨h.content, h.len, h.capped⟩

theorem Holds.bound (h : Holds L q records) :
    q.start + q.len ≤ q.cap := by
  obtain ⟨pre, post, hbuf, hpre⟩ := h.content
  rw [cap, hbuf, h.len, ← hpre]
  simp only [length_append]
  omega

theorem Holds.moved (h : Holds L q records)
    {fresh : Bytes} (hlen : q.len ≤ fresh.length) (hcap : fresh.length ≤ L.queueLimit) :
    ∃ q', q.moveTo fresh = some q' ∧ Holds L q' records ∧ q'.cap = fresh.length ∧ q'.start = 0 ∧
      q'.frontTaken = q.frontTaken ∧ q'.frontHeadDone = q.frontHeadDone := by
  obtain ⟨pre, post, hbuf, hpre⟩ := h.content
  have hload : load q.buf q.start q.len = some (records.flatMap encode) := by
    rw [hbuf, ← hpre, h.len]
    exact load_append pre _ post
  have hstore : store fresh 0 (records.flatMap encode) =
      some (records.flatMap encode ++ fresh.drop q.len) := by
    have := store_append [] (fresh.take q.len) (records.flatMap encode) (fresh.drop q.len)
      (by rw [length_take, ← h.len]; omega)
    simpa using this
  refine ⟨{ q with buf := records.flatMap encode ++ fresh.drop q.len, start := 0 }, ?_, ⟨?_, h.len, ?_⟩,
    ?_, rfl, rfl, rfl⟩
  · rw [moveTo, hload, bind_eq_bind, bind_some, hstore]
    rfl
  · exact ⟨[], _, rfl, rfl⟩
  · have := h.len
    simp only [cap, length_append, length_drop]
    omega
  · have := h.len
    simp only [cap, length_append, length_drop]
    omega

theorem compact_eq (q : RecordQueue) (need : Nat) :
    q.compact need = if q.start ≠ 0 ∧ q.start + q.len + need > q.cap then q.moveTo q.buf else some q := rfl

theorem Holds.compacted (h : Holds L q records) (need : Nat) :
    ∃ q', q.compact need = some q' ∧ Holds L q' records ∧ q'.cap = q.cap ∧
      (q'.len + need ≤ q'.cap → q'.start + q'.len + need ≤ q'.cap) ∧
      q'.frontTaken = q.frontTaken ∧ q'.frontHeadDone = q.frontHeadDone := by
  rw [compact_eq]
  by_cases hfull : q.start ≠ 0 ∧ q.start + q.len + need > q.cap
  · have hbound := h.bound
    obtain ⟨q', hmove, hq', hcap, hstart, hflags⟩ := h.moved (show q.len ≤ q.buf.length by
      rw [cap] at hbound
      omega) h.capped
    exact ⟨q', by rw [if_pos hfull, hmove], hq', hcap, by rw [hstart]; omega, hflags⟩
  · exact ⟨q, if_neg hfull, h, rfl, by omega, rfl, rfl⟩

theorem Holds.appended (h : Holds L q records)
    (hrec : rec.length ≤ L.recordMax) (hfits : q.start + q.len + (4 + rec.length) ≤ q.cap) :
    ∃ q', q.append rec = some q' ∧ Holds L q' (records ++ [rec]) ∧
      q'.frontTaken = q.frontTaken ∧ q'.frontHeadDone = q.frontHeadDone := by
  obtain ⟨pre, post, hbuf, hpre⟩ := h.content
  have hlen := h.len
  have hroom : 4 + rec.length ≤ post.length := by
    have hcap : q.cap = q.start + q.len + post.length := by
      rw [cap, hbuf, hlen, ← hpre]
      simp only [length_append]
    omega
  have hstore : store q.buf (q.start + q.len) (encode rec) =
      some (pre ++ records.flatMap encode ++ encode rec ++ post.drop (4 + rec.length)) := by
    have := store_append (pre ++ records.flatMap encode) (post.take (4 + rec.length)) (encode rec)
      (post.drop (4 + rec.length)) (by simp only [length_encode, length_take]; omega)
    rwa [append_assoc (pre ++ _), take_append_drop, length_append, hpre, ← hlen, ← hbuf] at this
  refine ⟨{ q with
      buf := pre ++ records.flatMap encode ++ encode rec ++ post.drop (4 + rec.length)
      len := q.len + (4 + rec.length) }, by rw [append, hstore, need_eq hrec]; rfl, ⟨?_, ?_, ?_⟩, rfl, rfl⟩
  · exact ⟨pre, post.drop (4 + rec.length), by simp, hpre⟩
  · simp only [flatMap_append, flatMap_singleton, length_append, length_encode, hlen]
  · have hsame := h.capped
    simp only [cap, hbuf, length_append, length_encode, length_drop] at hsame ⊢
    omega

theorem le_doubled {want : Nat} (hwant : want < 2 ^ 32) (fuel cap : Nat)
    (h : want ≤ cap * 2 ^ fuel) : want ≤ doubled want fuel cap := by
  induction fuel generalizing cap with
  | zero => simpa [doubled] using h
  | succ fuel ih =>
    rw [doubled]
    split_ifs with hlt
    · refine ih _ ?_
      rw [pow_succ] at h
      have hpos : 0 < 2 ^ fuel := Nat.two_pow_pos fuel
      rcases Nat.le_total (cap * 2) (2 ^ 32 - 1) with hle | hle
      · rw [Nat.min_eq_left hle]
        calc want ≤ cap * (2 ^ fuel * 2) := h
          _ = cap * 2 * 2 ^ fuel := by rw [Nat.mul_comm (2 ^ fuel), Nat.mul_assoc]
      · rw [Nat.min_eq_right hle]
        calc want ≤ 2 ^ 32 - 1 := by omega
          _ ≤ (2 ^ 32 - 1) * 2 ^ fuel := Nat.le_mul_of_pos_right _ hpos
    · omega

theorem le_nextCap (cap : Nat) {want : Nat} (h : want ≤ L.queueLimit) : want ≤ nextCap L cap want := by
  have hsmall := L.small
  have hwant : want < 2 ^ 32 := by
    simp only [Limits.queueLimit, Limits.respWindow] at h
    omega
  refine Nat.le_min.mpr ⟨le_doubled hwant 32 _ ?_, h⟩
  have hpos : 1 ≤ if cap = 0 then L.recordMax + 4 else cap := by split_ifs <;> omega
  calc want ≤ 1 * 2 ^ 32 := by omega
    _ ≤ _ := Nat.mul_le_mul_right _ hpos

/-- `push` never leaves the buffer. It takes the record, or keeps all as it was. -/
theorem Holds.pushed (h : Holds L q records) (arena : Arena) (hrec : rec.length ≤ L.recordMax) :
    ∃ ok q', q.push L arena rec = some (ok, q') ∧ Holds L q' (if ok then records ++ [rec] else records) ∧
      q'.frontTaken = q.frontTaken ∧ q'.frontHeadDone = q.frontHeadDone ∧
      (ok = true ↔ q.len + (4 + rec.length) ≤ L.queueLimit ∧
        (q.len + (4 + rec.length) ≤ q.cap ∨
          (arena.alloc (nextCap L q.cap (q.len + (4 + rec.length)))).isSome)) := by
  obtain ⟨q₁, hcompact, h₁, hcap, hroom, htaken, hdone⟩ := h.compacted (4 + rec.length)
  have hlen : q₁.len = q.len := h₁.len.trans h.len.symm
  rw [hlen] at hroom
  simp only [push, need_eq hrec, hcompact, bind_eq_bind, bind_some, hlen, hcap]
  by_cases hlimit : q.len + (4 + rec.length) > L.queueLimit
  · exact ⟨false, q₁, by rw [if_pos hlimit]; rfl, h₁, htaken, hdone, by simp; omega⟩
  rw [if_neg hlimit]
  by_cases hgrow : q.len + (4 + rec.length) > q.cap
  · rw [if_pos hgrow]
    cases halloc : arena.alloc (nextCap L q.cap (q.len + (4 + rec.length))) with
    | none => exact ⟨false, q₁, rfl, h₁, htaken, hdone, by simp; omega⟩
    | some fresh =>
      have hfresh := arena.sized _ _ halloc
      have hwant := le_nextCap q.cap (Nat.le_of_not_lt hlimit)
      obtain ⟨q₂, hmove, h₂, hcap₂, hstart₂, htaken₂, hdone₂⟩ := h₁.moved (show q₁.len ≤ fresh.length by omega)
        (by rw [hfresh]; exact Nat.min_le_right _ _)
      have hlen₂ : q₂.len = q.len := h₂.len.trans h.len.symm
      obtain ⟨q₃, happend, h₃, htaken₃, hdone₃⟩ := h₂.appended hrec (by omega)
      refine ⟨true, q₃, ?_, h₃, by omega, by rw [hdone₃, hdone₂, hdone], by simp; omega⟩
      simp only [hmove, bind_some, happend]
      rfl
  · rw [if_neg hgrow]
    obtain ⟨q₃, happend, h₃, htaken₃, hdone₃⟩ := h₁.appended hrec (by omega)
    refine ⟨true, q₃, ?_, h₃, by omega, by rw [hdone₃, hdone], by simp; omega⟩
    simp only [happend, bind_some]
    rfl

theorem u32le_le32 {n : Nat} (h : n < 2 ^ 32) :
    (Bytes.u32le ((Bytes.le32 (UInt32.ofNat n)).at0 0) ((Bytes.le32 (UInt32.ofNat n)).at0 1)
      ((Bytes.le32 (UInt32.ofNat n)).at0 2) ((Bytes.le32 (UInt32.ofNat n)).at0 3)).toNat = n := by
  have hword := Bytes.u32be_be32 (UInt32.ofNat n)
  simp only [Bytes.le32, Bytes.at0, List.getD_cons_zero, List.getD_cons_succ, Bytes.u32le, hword]
  exact UInt32.toNat_ofNat_of_lt' h

theorem Holds.front_eq (h : Holds L q records) :
    q.front = some records.head? := by
  obtain ⟨pre, post, hbuf, hpre⟩ := h.content
  have hlen := h.len
  cases records with
  | nil =>
    rw [front, if_pos (by rw [hlen]; simp)]
    rfl
  | cons rec records =>
    rw [flatMap_cons] at hbuf hlen
    have hlong : q.len = 4 + rec.length + (records.flatMap encode).length := by
      rw [hlen, length_append, length_encode]
    have hsmall : rec.length < 2 ^ 32 := by
      have hbound := h.bound
      have hcap := h.capped
      have := L.small
      simp only [Limits.queueLimit, Limits.respWindow] at hcap
      omega
    have hword : load q.buf q.start 4 = some (Bytes.le32 (UInt32.ofNat rec.length)) := by
      have := load_append pre (Bytes.le32 (UInt32.ofNat rec.length)) (rec ++ records.flatMap encode ++ post)
      rw [hbuf, ← hpre]
      simpa [encode] using this
    have hrec : load q.buf (q.start + 4) rec.length = some rec := by
      have := load_append (pre ++ Bytes.le32 (UInt32.ofNat rec.length)) rec (records.flatMap encode ++ post)
      rw [hbuf, ← hpre]
      simpa [encode] using this
    rw [front, if_neg (by omega), hword]
    simp only [bind_eq_bind, bind_some, u32le_le32 hsmall]
    rw [if_neg (by omega), hrec]
    rfl

theorem Holds.popped (h : Holds L q records) :
    ∃ q', q.pop = some q' ∧ Holds L q' records.tail ∧ q'.frontTaken = 0 ∧ q'.frontHeadDone = false := by
  have hlen := h.len
  obtain ⟨pre, post, hbuf, hpre⟩ := h.content
  rw [pop, h.front_eq]
  cases records with
  | nil =>
    have hzero : q.len = 0 := by simpa using hlen
    refine ⟨{}, ?_, holds_empty L, rfl, rfl⟩
    simp [hzero, release]
  | cons rec records =>
    rw [flatMap_cons, length_append, length_encode] at hlen
    have hrest : q.len - (4 + rec.length) = (records.flatMap encode).length := by omega
    simp only [bind_eq_bind, bind_some, List.head?_cons]
    by_cases hzero : q.len - (4 + rec.length) = 0
    · refine ⟨{}, by rw [if_pos hzero]; rfl, ?_, rfl, rfl⟩
      have hnil : records = [] := by
        rw [hzero] at hrest
        cases records with
        | nil => rfl
        | cons r rs =>
          rw [flatMap_cons, length_append, length_encode] at hrest
          omega
      rw [hnil]
      exact holds_empty L
    · refine ⟨{ buf := q.buf, start := q.start + (4 + rec.length), len := q.len - (4 + rec.length) },
        by rw [if_neg hzero]; rfl, ⟨?_, hrest, h.capped⟩, rfl, rfl⟩
      refine ⟨pre ++ encode rec, post, ?_, ?_⟩
      · rw [hbuf, flatMap_cons]
        simp
      · rw [length_append, length_encode, hpre]

theorem Holds.cleared (h : Holds L q records) :
    Holds L q.clear [] := ⟨⟨[], q.buf, rfl, rfl⟩, rfl, h.capped⟩

theorem Holds.isEmpty_eq (h : Holds L q records) :
    q.isEmpty = records.isEmpty := by
  have hlen := h.len
  cases records with
  | nil => simpa [isEmpty] using hlen
  | cons rec records =>
    rw [flatMap_cons, length_append, length_encode] at hlen
    simp only [isEmpty, isEmpty_cons, decide_eq_false_iff_not]
    omega

inductive Op where
  | push (arena : Arena) (rec : Bytes)
  | takeFrontHead
  | takeFrontBody (n : Nat)
  | pop
  | clear

/-- A record is what one read of `RECORD_MAX` bytes gave. -/
def Op.Sized (L : Limits) : Op → Prop
  | .push _ rec => rec.length ≤ L.recordMax
  | _ => True

def call (L : Limits) (q : RecordQueue) : Op → Option (Bool × RecordQueue)
  | .push arena rec => q.push L arena rec
  | .takeFrontHead => some (true, q.takeFrontHead)
  | .takeFrontBody n => some (true, q.takeFrontBody n)
  | .pop => q.pop.map (true, ·)
  | .clear => some (true, q.clear)

/-- What a caller can see: the front record, how much of it was taken, and whether any waits. -/
structure View where
  front : Option Bytes
  frontTaken : Nat
  frontHeadDone : Bool
  isEmpty : Bool

def view (q : RecordQueue) : Option View := do
  let rec ← q.front
  pure { front := rec, frontTaken := q.frontTaken, frontHeadDone := q.frontHeadDone, isEmpty := q.isEmpty }

def calls (L : Limits) : RecordQueue → List Op → Option (List (Bool × View))
  | _, [] => some []
  | q, op :: ops => do
    let (ok, q) ← q.call L op
    let seen ← q.view
    let rest ← calls L q ops
    pure ((ok, seen) :: rest)

end RecordQueue

structure Fifo where
  records : List Bytes := []
  frontTaken : Nat := 0
  frontHeadDone : Bool := false

namespace Fifo

def call (f : Fifo) : RecordQueue.Op → Bool → Fifo
  | .push _ rec, ok => if ok then { f with records := f.records ++ [rec] } else f
  | .takeFrontHead, _ => { f with frontHeadDone := true }
  | .takeFrontBody n, _ => { f with frontTaken := f.frontTaken + n }
  | .pop, _ => { records := f.records.tail }
  | .clear, _ => {}

def view (f : Fifo) : RecordQueue.View where
  front := f.records.head?
  frontTaken := f.frontTaken
  frontHeadDone := f.frontHeadDone
  isEmpty := f.records.isEmpty

def views : Fifo → List RecordQueue.Op → List Bool → List RecordQueue.View
  | f, op :: ops, ok :: oks => (f.call op ok).view :: (f.call op ok).views ops oks
  | _, _, _ => []

/-- A push is accepted within the limit alone, and refused within it only when the arena has no larger buffer. -/
def Answers (L : Limits) (f : Fifo) : RecordQueue.Op → Bool → Prop
  | .push arena rec, ok =>
    let fits := (f.records.flatMap RecordQueue.encode).length + (4 + rec.length) ≤ L.queueLimit
    (ok = true → fits) ∧ (ok = false → fits → ∃ n, arena.alloc n = none)
  | _, ok => ok = true

def AllAnswer (L : Limits) : Fifo → List RecordQueue.Op → List Bool → Prop
  | f, op :: ops, ok :: oks => f.Answers L op ok ∧ (f.call op ok).AllAnswer L ops oks
  | _, _, _ => True

end Fifo

namespace RecordQueue

structure Models (L : Limits) (q : RecordQueue) (f : Fifo) : Prop where
  holds : Holds L q f.records
  taken : q.frontTaken = f.frontTaken
  done : q.frontHeadDone = f.frontHeadDone

theorem models_empty (L : Limits) : Models L {} {} := ⟨holds_empty L, rfl, rfl⟩

theorem Models.view_eq {f : Fifo} (h : Models L q f) :
    q.view = some f.view := by
  rw [view, h.holds.front_eq, h.taken, h.done, h.holds.isEmpty_eq]
  rfl

theorem Models.called {f : Fifo} (h : Models L q f) {op : Op} (hop : op.Sized L) :
    ∃ ok q', q.call L op = some (ok, q') ∧ Models L q' (f.call op ok) ∧ f.Answers L op ok := by
  cases op with
  | push arena rec =>
    obtain ⟨ok, q', hpush, hq', htaken, hdone, hok⟩ := h.holds.pushed arena hop
    rw [h.holds.len] at hok
    refine ⟨ok, q', hpush, ?_, fun haccepted => (hok.mp haccepted).1, fun hrefused hfits => ?_⟩
    · cases ok
      · exact ⟨hq', htaken.trans h.taken, hdone.trans h.done⟩
      · exact ⟨hq', htaken.trans h.taken, hdone.trans h.done⟩
    · refine ⟨nextCap L q.cap ((f.records.flatMap encode).length + (4 + rec.length)), ?_⟩
      by_contra hne
      exact false_ne_true (hrefused.symm.trans (hok.mpr ⟨hfits, .inr (isSome_iff_ne_none.mpr hne)⟩))
  | takeFrontHead => exact ⟨true, _, rfl, ⟨h.holds.mark _ _, h.taken, rfl⟩, rfl⟩
  | takeFrontBody n => exact ⟨true, _, rfl, ⟨h.holds.mark _ _, by rw [takeFrontBody, h.taken]; rfl, h.done⟩, rfl⟩
  | pop =>
    obtain ⟨q', hpop, hq', htaken, hdone⟩ := h.holds.popped
    exact ⟨true, q', by rw [call, hpop]; rfl, ⟨hq', htaken, hdone⟩, rfl⟩
  | clear => exact ⟨true, _, rfl, ⟨h.holds.cleared, rfl, rfl⟩, rfl⟩

theorem Models.calls_eq {f : Fifo} (h : Models L q f) {ops : List Op} (hops : ∀ op ∈ ops, op.Sized L) :
    ∃ results, q.calls L ops = some results ∧ results.length = ops.length ∧
      results.map Prod.snd = f.views ops (results.map Prod.fst) ∧ f.AllAnswer L ops (results.map Prod.fst) := by
  induction ops generalizing q f with
  | nil => exact ⟨[], rfl, rfl, rfl, trivial⟩
  | cons op ops ih =>
    obtain ⟨ok, q', hcall, hq', hanswer⟩ := h.called (hops op mem_cons_self)
    obtain ⟨results, hcalls, hlen, hviews, hanswers⟩ := ih hq' fun o ho => hops o (mem_cons_of_mem _ ho)
    refine ⟨(ok, (f.call op ok).view) :: results, ?_, by simp [hlen], ?_, hanswer, hanswers⟩
    · simp only [calls, hcall, hq'.view_eq, hcalls, bind_eq_bind, bind_some]
      rfl
    · simp only [map_cons, Fifo.views, hviews]

end RecordQueue

end Wave.Http.App
