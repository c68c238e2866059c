import Wave.Http.BodyFraming
import Mathlib.Data.FinEnum

/-! # Byte ranges (`http/wire/h1.rs`, `common/s3_serve_core.rs`)

A `Range` value asks for one of three forms. Of a number too long, one parser keeps the largest, the other none. -/

namespace Wave.Http

open Lib

inductive ByteRange where
  | fromTo (a b : Nat)
  | start (a : Nat)
  | suffix (n : Nat)

def DASH : UInt8 := 0x2D

def Asks (spec : Bytes) : ByteRange → Prop
  | .fromTo a b => ∃ x y, spec = x ++ DASH :: y ∧ Decimal x a ∧ Decimal y b
  | .start a => ∃ x, spec = x ++ [DASH] ∧ Decimal x a
  | .suffix n => ∃ y, spec = DASH :: y ∧ Decimal y n

/-- The first and the last byte of the range that the resource has, if it has one. -/
def ByteRange.clip (size : Nat) : ByteRange → Option (Nat × Nat)
  | .fromTo a b => if a ≤ b ∧ a < size then some (a, min b (size - 1)) else none
  | .start a => if a < size then some (a, size - 1) else none
  | .suffix n => if 0 < n ∧ 0 < size then some (size - n, size - 1) else none

theorem clip_inside {size : Nat} {r : ByteRange} {first last : Nat} (h : r.clip size = some (first, last)) :
    first ≤ last ∧ last < size := by
  cases r with
  | fromTo a b =>
    dsimp only [ByteRange.clip] at h
    split at h
    · obtain ⟨rfl, rfl⟩ := Prod.mk.inj (Option.some.inj h)
      omega
    · cases h
  | start a =>
    dsimp only [ByteRange.clip] at h
    split at h
    · obtain ⟨rfl, rfl⟩ := Prod.mk.inj (Option.some.inj h)
      omega
    · cases h
  | suffix n =>
    dsimp only [ByteRange.clip] at h
    split at h
    · obtain ⟨rfl, rfl⟩ := Prod.mk.inj (Option.some.inj h)
      omega
    · cases h

inductive RangeParse where
  | none
  | satisfiable (start stop : UInt32)
  | unsatisfiable
deriving DecidableEq

def saturatingU64 (n : Nat) : Nat := min n (2 ^ 64 - 1)

def saturatingDecimal (digits : Bytes) : Option Nat :=
  if digits = [] then none
  else digits.foldlM (fun acc c =>
    if isDigit c then some (saturatingU64 (saturatingU64 (acc * 10) + (c - 0x30).toNat)) else none) 0

def parseRangeHeader (value : Bytes) (size : UInt32) : RangeParse :=
  if size = 0 then .none
  else if value.length < (ascii "bytes=").length then .none
  else if (value.take 6).map asciiLower ≠ ascii "bytes=" then .none
  else
    let spec := value.drop 6
    if spec.contains COMMA then .none
    else
      match findPat [DASH] spec with
      | none => .none
      | some dash =>
        let last := size - 1
        let startBytes := spec.take dash
        let endBytes := spec.drop (dash + 1)
        if startBytes = [] then
          match saturatingDecimal endBytes with
          | some n =>
            if n > 0 then .satisfiable (UInt32.ofNat (size.toNat - min n size.toNat)) last else .unsatisfiable
          | none => .none
        else
          match saturatingDecimal startBytes with
          | none => .none
          | some start =>
            if start ≥ size.toNat then .unsatisfiable
            else
              match if endBytes = [] then some last.toNat else saturatingDecimal endBytes with
              | none => .none
              | some stop =>
                if stop < start then .unsatisfiable
                else .satisfiable (UInt32.ofNat start) (UInt32.ofNat (min stop last.toNat))

inductive S3Range where
  | whole
  | part (start stop : UInt64)
  | unsatisfiable
deriving DecidableEq

def s3Num (s : Bytes) : Option Nat := if s = [] ∨ !s.all isDigit then none else decimalU64 s

def s3Range (value : Option Bytes) (size : UInt64) : S3Range :=
  match value with
  | none => .whole
  | some v =>
    if !(ascii "bytes=").isPrefixOf v then .whole
    else
      let spec := v.drop 6
      if spec.contains COMMA then .whole
      else
        match findPat [DASH] spec with
        | none => .whole
        | some dash =>
          let a := spec.take dash
          let b := spec.drop (dash + 1)
          match s3Num a, s3Num b with
          | some start, some stop =>
            if start > stop then .whole
            else if start ≥ size.toNat then .unsatisfiable
            else .part (UInt64.ofNat start) (UInt64.ofNat (min stop (size.toNat - 1)))
          | some start, none =>
            if b = [] then
              if start ≥ size.toNat then .unsatisfiable else .part (UInt64.ofNat start) (size - 1)
            else .whole
          | none, some n =>
            if a = [] then
              if n = 0 ∨ size = 0 then .unsatisfiable else .part (UInt64.ofNat (size.toNat - n)) (size - 1)
            else .whole
          | none, none => .whole

section Numbers

variable {digits : Bytes} {n : Nat}

theorem saturating_step (acc : Nat) (d : Nat) (hd : d < 10) :
    saturatingU64 (saturatingU64 (saturatingU64 acc * 10) + d) = saturatingU64 (acc * 10 + d) := by
  unfold saturatingU64
  omega

theorem digit_lt {c : UInt8} (h : isDigit c = true) : (c - 0x30).toNat < 10 := by
  have hall : ∀ c : UInt8, isDigit c = true → (c - 0x30).toNat < 10 := of_every_byte (by decide +kernel)
  exact hall c h

theorem foldlM_saturating (acc : Nat) (digits : Bytes) :
    digits.foldlM (fun acc c =>
        if isDigit c then some (saturatingU64 (saturatingU64 (acc * 10) + (c - 0x30).toNat)) else none) (saturatingU64 acc) =
      if ∀ c ∈ digits, isDigit c = true then some (saturatingU64 (digits.foldl (fun n c => n * 10 + (c - 0x30).toNat) acc))
      else none := by
  induction digits generalizing acc with
  | nil =>
    rw [if_pos nofun]
    rfl
  | cons c digits ih =>
    rw [foldlM_cons]
    by_cases hc : isDigit c = true
    · rw [if_pos hc, bind_eq_bind, bind_some, saturating_step _ _ (digit_lt hc), ih, foldl_cons]
      simp only [forall_mem_cons, hc, true_and]
    · rw [if_neg hc, if_neg fun h => hc (h c mem_cons_self)]
      rfl

theorem saturatingDecimal_some : saturatingDecimal digits = some n ↔ ∃ k, Decimal digits k ∧ n = saturatingU64 k := by
  unfold saturatingDecimal Decimal decimalNumber
  have hall := foldlM_saturating 0 digits
  rw [show saturatingU64 0 = 0 from rfl] at hall
  by_cases hempty : digits = []
  · rw [if_pos hempty]
    exact ⟨nofun, fun ⟨_, ⟨hne, _⟩, _⟩ => absurd hempty hne⟩
  · rw [if_neg hempty, hall]
    split
    next hdigits =>
      constructor
      · intro h
        exact ⟨_, ⟨hempty, hdigits, rfl⟩, (Option.some.inj h).symm⟩
      · rintro ⟨k, ⟨-, -, rfl⟩, rfl⟩
        rfl
    next hdigits => exact ⟨nofun, fun ⟨_, ⟨_, h, _⟩, _⟩ => absurd h hdigits⟩

theorem s3Num_some (h : s3Num digits = some n) : Decimal digits n := by
  unfold s3Num at h
  split at h
  · cases h
  next hne =>
    obtain ⟨hsome, -⟩ := not_or.mp hne
    obtain ⟨hdigits, hvalue⟩ := decimalU64_some h
    exact ⟨hsome, hdigits, hvalue⟩

end Numbers

section Served

variable {value : Bytes} {spec : Bytes} {dash : Nat}

theorem dash_split (h : findPat [DASH] spec = some dash) : spec = spec.take dash ++ DASH :: spec.drop (dash + 1) := by
  obtain ⟨a, b, rfl, rfl⟩ := findPat_split h
  rw [append_assoc, take_left, ← drop_drop, drop_left]
  rfl

theorem parseRangeHeader_clip {size start stop : UInt32} (h : parseRangeHeader value size = .satisfiable start stop) :
    (value.take 6).map asciiLower = ascii "bytes=" ∧
      ∃ r, Asks (value.drop 6) r ∧ r.clip size.toNat = some (start.toNat, stop.toNat) := by
  have hsize := size.toNat_lt
  unfold parseRangeHeader at h
  by_cases hzero : size = 0
  · rw [if_pos hzero] at h
    cases h
  rw [if_neg hzero] at h
  have hpos : 0 < size.toNat := Nat.pos_of_ne_zero fun heq => hzero (UInt32.toNat.inj heq)
  have hlast : (size - 1).toNat = size.toNat - 1 := by
    rw [UInt32.toNat_sub, show (1 : UInt32).toNat = 1 from rfl]
    omega
  by_cases hshort : value.length < (ascii "bytes=").length
  · rw [if_pos hshort] at h
    cases h
  rw [if_neg hshort] at h
  by_cases hunit : (value.take 6).map asciiLower ≠ ascii "bytes="
  · rw [if_pos hunit] at h
    cases h
  rw [if_neg hunit] at h
  refine ⟨not_not.mp hunit, ?_⟩
  dsimp only at h
  generalize value.drop 6 = spec at h ⊢
  by_cases hcomma : spec.contains COMMA = true
  · rw [if_pos hcomma] at h
    cases h
  rw [if_neg hcomma] at h
  cases hdash : findPat [DASH] spec with
  | none =>
    rw [hdash] at h
    cases h
  | some dash =>
    rw [hdash] at h
    have hsplit := dash_split hdash
    dsimp only at h
    generalize spec.take dash = x at h hsplit
    generalize spec.drop (dash + 1) = y at h hsplit
    by_cases hx : x = []
    · rw [if_pos hx] at h
      rw [hx, nil_append] at hsplit
      cases hn : saturatingDecimal y with
      | none =>
        rw [hn] at h
        cases h
      | some n =>
        rw [hn] at h
        dsimp only at h
        by_cases hsome : n > 0
        · rw [if_pos hsome] at h
          obtain ⟨rfl, rfl⟩ := RangeParse.satisfiable.inj h
          obtain ⟨k, hk, rfl⟩ := saturatingDecimal_some.mp hn
          refine ⟨.suffix k, ⟨y, hsplit, hk⟩, ?_⟩
          unfold saturatingU64 at hsome ⊢
          rw [ByteRange.clip, if_pos ⟨by omega, hpos⟩, hlast, UInt32.toNat_ofNat']
          refine congrArg some (Prod.ext ?_ rfl)
          dsimp only
          omega
        · rw [if_neg hsome] at h
          cases h
    · rw [if_neg hx] at h
      cases hstart : saturatingDecimal x with
      | none =>
        rw [hstart] at h
        cases h
      | some first =>
        rw [hstart] at h
        dsimp only at h
        obtain ⟨a, ha, rfl⟩ := saturatingDecimal_some.mp hstart
        by_cases hbehind : saturatingU64 a ≥ size.toNat
        · rw [if_pos hbehind] at h
          cases h
        rw [if_neg hbehind] at h
        -- a number that was cut off is past any resource
        have hexact : saturatingU64 a = a := by
          unfold saturatingU64 at hbehind ⊢
          omega
        rw [hexact] at h hbehind
        by_cases hy : y = []
        · rw [if_pos hy] at h
          dsimp only at h
          rw [if_neg (by omega)] at h
          obtain ⟨rfl, rfl⟩ := RangeParse.satisfiable.inj h
          rw [hy] at hsplit
          refine ⟨.start a, ⟨x, hsplit, ha⟩, ?_⟩
          rw [ByteRange.clip, if_pos (by omega), UInt32.toNat_ofNat', UInt32.toNat_ofNat', hlast]
          refine congrArg some (Prod.ext ?_ ?_)
          · dsimp only
            omega
          · dsimp only
            omega
        · rw [if_neg hy] at h
          cases hstop : saturatingDecimal y with
          | none =>
            rw [hstop] at h
            cases h
          | some last =>
            rw [hstop] at h
            dsimp only at h
            obtain ⟨b, hb, rfl⟩ := saturatingDecimal_some.mp hstop
            by_cases horder : saturatingU64 b < a
            · rw [if_pos horder] at h
              cases h
            rw [if_neg horder] at h
            obtain ⟨rfl, rfl⟩ := RangeParse.satisfiable.inj h
            refine ⟨.fromTo a b, ⟨x, y, hsplit, ha, hb⟩, ?_⟩
            unfold saturatingU64 at horder ⊢
            rw [ByteRange.clip, if_pos (by omega), UInt32.toNat_ofNat', UInt32.toNat_ofNat', hlast]
            refine congrArg some (Prod.ext ?_ ?_)
            · dsimp only
              omega
            · dsimp only
              omega

theorem s3Range_clip {size start stop : UInt64} {value : Option Bytes} (h : s3Range value size = .part start stop) :
    ∃ spec r, value = some (ascii "bytes=" ++ spec) ∧ Asks spec r ∧ r.clip size.toNat = some (start.toNat, stop.toNat) := by
  have hsize := size.toNat_lt
  unfold s3Range at h
  cases value with
  | none => cases h
  | some v =>
    dsimp only at h
    cases hunit : (ascii "bytes=").isPrefixOf v with
    | false =>
      rw [hunit] at h
      cases h
    | true =>
      obtain ⟨spec, rfl⟩ := isPrefixOf_iff_prefix.mp hunit
      rw [hunit, if_neg nofun, show (ascii "bytes=" ++ spec).drop 6 = spec from rfl] at h
      refine ⟨spec, ?_⟩
      by_cases hcomma : spec.contains COMMA = true
      · rw [if_pos hcomma] at h
        cases h
      rw [if_neg hcomma] at h
      cases hdash : findPat [DASH] spec with
      | none =>
        rw [hdash] at h
        cases h
      | some dash =>
        rw [hdash] at h
        have hsplit := dash_split hdash
        dsimp only at h
        generalize spec.take dash = x at h hsplit
        generalize spec.drop (dash + 1) = y at h hsplit
        have hlast : 0 < size.toNat → (size - 1).toNat = size.toNat - 1 := by
          intro hpos
          rw [UInt64.toNat_sub, show (1 : UInt64).toNat = 1 from rfl]
          omega
        cases ha : s3Num x with
        | some a =>
          rw [ha] at h
          cases hb : s3Num y with
          | some b =>
            rw [hb] at h
            dsimp only at h
            by_cases horder : a > b
            · rw [if_pos horder] at h
              cases h
            rw [if_neg horder] at h
            by_cases hbehind : a ≥ size.toNat
            · rw [if_pos hbehind] at h
              cases h
            rw [if_neg hbehind] at h
            obtain ⟨rfl, rfl⟩ := S3Range.part.inj h
            refine ⟨.fromTo a b, rfl, ⟨x, y, hsplit, s3Num_some ha, s3Num_some hb⟩, ?_⟩
            rw [ByteRange.clip, if_pos (by omega), UInt64.toNat_ofNat', UInt64.toNat_ofNat']
            refine congrArg some (Prod.ext ?_ ?_)
            · dsimp only
              omega
            · dsimp only
              omega
          | none =>
            rw [hb] at h
            dsimp only at h
            by_cases hy : y = []
            · rw [if_pos hy] at h
              by_cases hbehind : a ≥ size.toNat
              · rw [if_pos hbehind] at h
                cases h
              rw [if_neg hbehind] at h
              obtain ⟨rfl, rfl⟩ := S3Range.part.inj h
              rw [hy] at hsplit
              refine ⟨.start a, rfl, ⟨x, hsplit, s3Num_some ha⟩, ?_⟩
              rw [ByteRange.clip, if_pos (by omega), UInt64.toNat_ofNat', hlast (by omega)]
              refine congrArg some (Prod.ext ?_ rfl)
              dsimp only
              omega
            · rw [if_neg hy] at h
              cases h
        | none =>
          rw [ha] at h
          cases hb : s3Num y with
          | none =>
            rw [hb] at h
            cases h
          | some n =>
            rw [hb] at h
            dsimp only at h
            by_cases hx : x = []
            · rw [if_pos hx] at h
              by_cases hnone : n = 0 ∨ size = 0
              · rw [if_pos hnone] at h
                cases h
              rw [if_neg hnone] at h
              obtain ⟨rfl, rfl⟩ := S3Range.part.inj h
              obtain ⟨hn, hzero⟩ := not_or.mp hnone
              have hpos : 0 < size.toNat := Nat.pos_of_ne_zero fun heq => hzero (UInt64.toNat.inj heq)
              rw [hx, nil_append] at hsplit
              refine ⟨.suffix n, rfl, ⟨y, hsplit, s3Num_some hb⟩, ?_⟩
              rw [ByteRange.clip, if_pos (by omega), UInt64.toNat_ofNat', hlast hpos]
              refine congrArg some (Prod.ext ?_ rfl)
              dsimp only
              omega
            · rw [if_neg hx] at h
              cases h

/-- What either parser serves is the part asked for that the resource has; its length is a number of its type. -/
theorem ranges_clipped :
    (∀ (value : Bytes) (size start stop : UInt32), parseRangeHeader value size = .satisfiable start stop →
      start ≤ stop ∧ stop < size ∧ (value.take 6).map asciiLower = ascii "bytes=" ∧
        ∃ r, Asks (value.drop 6) r ∧ r.clip size.toNat = some (start.toNat, stop.toNat)) ∧
      ∀ (value : Option Bytes) (size start stop : UInt64), s3Range value size = .part start stop →
        start ≤ stop ∧ stop < size ∧ stop.toNat - start.toNat + 1 < 2 ^ 64 ∧
          ∃ spec r, value = some (ascii "bytes=" ++ spec) ∧ Asks spec r ∧ r.clip size.toNat = some (start.toNat, stop.toNat) := by
  constructor
  · intro value size start stop h
    obtain ⟨hunit, r, hasks, hclip⟩ := parseRangeHeader_clip h
    obtain ⟨hle, hlt⟩ := clip_inside hclip
    exact ⟨UInt32.le_iff_toNat_le.mpr hle, UInt32.lt_iff_toNat_lt.mpr hlt, hunit, r, hasks, hclip⟩
  · intro value size start stop h
    obtain ⟨spec, r, hvalue, hasks, hclip⟩ := s3Range_clip h
    obtain ⟨hle, hlt⟩ := clip_inside hclip
    have hsize := size.toNat_lt
    exact ⟨UInt64.le_iff_toNat_le.mpr hle, UInt64.lt_iff_toNat_lt.mpr hlt, by omega, spec, r, hvalue, hasks, hclip⟩

theorem ranges_clipped_long :
    (∃ r, Asks (ascii "5-99999999999999999999") r ∧ r.clip 10 = some (5, 9)) ∧
      ∃ spec r, some (ascii "bytes=-3") = some (ascii "bytes=" ++ spec) ∧ Asks spec r ∧ r.clip 10 = some (7, 9) := by
  obtain ⟨hwire, hs3⟩ := ranges_clipped
  have hlong := hwire (ascii "Bytes=5-99999999999999999999") 10 5 9 (by decide +kernel)
  have hsuffix := hs3 (some (ascii "bytes=-3")) 10 7 9 (by decide +kernel)
  exact ⟨hlong.2.2.2, hsuffix.2.2.2⟩

end Served

end Wave.Http
