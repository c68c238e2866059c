import Wave.Common.S3Core
import Wave.Lib.Calendar
import Wave.Lib.Decimal

/-! # Timestamps (`common/sigv4_core.rs`, `common/s3_serve_core.rs`)

The two calendar algorithms are checked against days counted one after the other (`Lib/Calendar`). -/

namespace Wave.Common

open Lib Bytes Calendar

def sv4DigitsFrom (v : Nat) : Bytes → Option Nat
  | [] => some v
  | c :: s =>
    if ¬(0x30 ≤ c ∧ c ≤ 0x39) then none
    else do
      let v ← checkedMul v 10
      let v ← checkedAdd v (c - 0x30).toNat
      sv4DigitsFrom v s

/-- A decimal number of bytes; `none` if there are none, or past 64 bits. -/
def sv4Digits (s : Bytes) : Option Nat := if s = [] then none else sv4DigitsFrom 0 s

/-- `put` of `sv4_format_amz_date`: the last digits, as many as there is room for. -/
def putDigits : (width : Nat) → (v : Nat) → Bytes
  | 0, _ => []
  | width + 1, v => putDigits width (v / 10) ++ [digitByte (v % 10)]

def sv4DaysFromCivil (y m d : Int) : Int :=
  let y := if m ≤ 2 then y - 1 else y
  let era := (if y ≥ 0 then y else y - 399).tdiv 400
  let yoe := y - era * 400
  let mp := if m > 2 then m - 3 else m + 9
  let doy := (153 * mp + 2).tdiv 5 + d - 1
  let doe := yoe * 365 + yoe.tdiv 4 - yoe.tdiv 100 + doy
  era * 146097 + doe - 719468

/-- The year, month and day in `sv4_format_amz_date`. None is below zero where it is cast. -/
def amzCivil (days : Int) : Nat × Nat × Nat :=
  let z := days + 719468
  let era := z.tdiv 146097
  let doe := z - era * 146097
  let yoe := (doe - doe.tdiv 1460 + doe.tdiv 36524 - doe.tdiv 146096).tdiv 365
  let doy := doe - (365 * yoe + yoe.tdiv 4 - yoe.tdiv 100)
  let mp := (5 * doy + 2).tdiv 153
  let d := (doy - (153 * mp + 2).tdiv 5 + 1).toNat
  let m := (if mp < 10 then mp + 3 else mp - 9).toNat
  let y := (yoe + era * 400 + if m ≤ 2 then 1 else 0).toNat
  (y, m, d)

/-- Seconds as `YYYYMMDDTHHMMSSZ` and `YYYYMMDD`. -/
def sv4FormatAmzDate (secs : Nat) : Bytes × Bytes :=
  let (y, m, d) := amzCivil ((secs / 86400 : Nat) : Int)
  let sod := secs % 86400
  let date := putDigits 4 y ++ putDigits 2 m ++ putDigits 2 d
  (date ++ ascii "T" ++ putDigits 2 (sod / 3600) ++ putDigits 2 (sod % 3600 / 60) ++ putDigits 2 (sod % 60) ++ ascii "Z", date)

/-- `YYYYMMDDTHHMMSSZ` to seconds. -/
def sv4ParseAmzDate (s : Bytes) : Option Nat :=
  if s.length ≠ 16 ∨ at0 s 8 ≠ 0x54 ∨ at0 s 15 ≠ 0x5A then none
  else do
    let year ← sv4Digits (slice s 0 4)
    let month ← sv4Digits (slice s 4 6)
    let day ← sv4Digits (slice s 6 8)
    let hour ← sv4Digits (slice s 9 11)
    let min ← sv4Digits (slice s 11 13)
    let sec ← sv4Digits (slice s 13 15)
    if ¬(1 ≤ month ∧ month ≤ 12) ∨ ¬(1 ≤ day ∧ day ≤ 31) ∨ hour > 23 ∨ min > 59 ∨ sec > 60 then none
    else
      let days := sv4DaysFromCivil year month day
      if days < 0 then none else some (days.toNat * 86400 + hour * 3600 + min * 60 + sec)

/-- The writer of `s3_serve_core.rs` keeps to its buffer as the one of `s3_core.rs` does. -/
abbrev S3Out := S3Put

def DAYS : Bytes := ascii "ThuFriSatSunMonTueWed"

def MONTHS : Bytes := ascii "JanFebMarAprMayJunJulAugSepOctNovDec"

/-- An RFC 7231 HTTP date (`Sun, 06 Nov 1994 08:49:37 GMT`). -/
def s3HttpDate (secs : Nat) (out : S3Out) : S3Out :=
  let (ts, date) := sv4FormatAmzDate secs
  let wd := secs / 86400 % 7
  let month := ((at0 date 4 - 0x30) * 10 + (at0 date 5 - 0x30)).toNat
  let m := min (max month 1) 12 - 1
  let parts := [slice DAYS (wd * 3) (wd * 3 + 3), ascii ", ", slice date 6 8, ascii " ", slice MONTHS (m * 3) (m * 3 + 3),
    ascii " ", slice date 0 4, ascii " ", slice ts 9 11, ascii ":", slice ts 11 13, ascii ":", slice ts 13 15, ascii " GMT"]
  parts.foldl S3Put.put out

theorem sv4DigitsFrom_put (width : Nat) {v : Nat} (more : Bytes) (hwidth : v < 10 ^ width) (hfits : v < 2 ^ 64) :
    sv4DigitsFrom 0 (putDigits width v ++ more) = sv4DigitsFrom v more := by
  induction width generalizing v more with
  | zero =>
    obtain rfl : v = 0 := by omega
    rfl
  | succ width ih =>
    have hdigit : v % 10 < 10 := Nat.mod_lt v (by decide)
    have hbyte : (0x30 ≤ digitByte (v % 10) ∧ digitByte (v % 10) ≤ 0x39) ∧ (digitByte (v % 10) - 0x30).toNat = v % 10 := by
      have hall : ∀ d < 10, (0x30 ≤ digitByte d ∧ digitByte d ≤ 0x39) ∧ (digitByte d - 0x30).toNat = d := by decide
      exact hall _ hdigit
    rw [putDigits, append_assoc, ih _ (by rw [Nat.pow_succ] at hwidth; omega) (by omega), singleton_append,
      sv4DigitsFrom, if_neg (not_not.mpr hbyte.1), hbyte.2, checkedMul, if_pos (by omega)]
    dsimp only [bind_eq_bind, bind_some]
    rw [checkedAdd, if_pos (by omega), bind_some]
    congr 1
    omega

theorem sv4Digits_put (width : Nat) {v : Nat} (hwidth : v < 10 ^ (width + 1)) (hfits : v < 2 ^ 64) :
    sv4Digits (putDigits (width + 1) v) = some v := by
  have hall := sv4DigitsFrom_put (width + 1) [] hwidth hfits
  rw [append_nil] at hall
  have hsome : putDigits (width + 1) v ≠ [] := append_ne_nil_of_right_ne_nil _ (cons_ne_nil _ _)
  rw [sv4Digits, if_neg hsome, hall, sv4DigitsFrom]

section Calendar

variable {d : Date}

theorem sv4DaysFromCivil_eq (hyear : 1 ≤ d.year) : sv4DaysFromCivil d.year d.month d.day = (d.number : Int) - 719468 := by
  obtain ⟨hm, -⟩ := d.hmonth
  obtain ⟨hday, -⟩ := d.hday
  have hmarch : (if (d.month : Int) ≤ 2 then (d.year : Int) - 1 else d.year) = (marchYear d.year d.month : Nat) := by
    unfold marchYear
    split <;> split <;> omega
  have hmonth : (if (d.month : Int) > 2 then (d.month : Int) - 3 else d.month + 9) = (marchMonth d.month : Nat) := by
    unfold marchMonth
    split <;> split <;> omega
  have hnumber : d.number = 365 * marchYear d.year d.month + leapDays (marchYear d.year d.month) + marchDay d.month d.day := rfl
  unfold sv4DaysFromCivil
  simp only [hmarch, hmonth]
  rw [hnumber, if_pos (Int.natCast_nonneg _)]
  unfold leapDays marchDay
  generalize marchYear d.year d.month = y
  generalize marchMonth d.month = mp
  have hera : (y : Int).tdiv 400 = (y : Int) / 400 := Int.tdiv_eq_ediv_of_nonneg (by omega)
  rw [hera]
  have hyoe : 0 ≤ (y : Int) - y / 400 * 400 := by omega
  rw [Int.tdiv_eq_ediv_of_nonneg hyoe, Int.tdiv_eq_ediv_of_nonneg hyoe, Int.tdiv_eq_ediv_of_nonneg (by omega)]
  omega

theorem tdiv_cast (a : Nat) (k : Int) : (a : Int).tdiv k = (a : Int) / k :=
  Int.tdiv_eq_ediv_of_nonneg (Int.natCast_nonneg a)

theorem eraYear_cast {doe y : Nat} (h : (doe - doe / 1460 + doe / 36524 - doe / 146096) / 365 = y) :
    ((doe : Int) - (doe : Int).tdiv 1460 + (doe : Int).tdiv 36524 - (doe : Int).tdiv 146096).tdiv 365 = y := by
  have hcount : (doe : Int) - (doe : Int).tdiv 1460 + (doe : Int).tdiv 36524 - (doe : Int).tdiv 146096 =
      ((doe - doe / 1460 + doe / 36524 - doe / 146096 : Nat) : Int) := by
    simp only [tdiv_cast]
    omega
  rw [hcount, tdiv_cast]
  omega

theorem yearDay_cast {doe y doy : Nat} (h : doe = 365 * y + y / 4 - y / 100 + doy) :
    (doe : Int) - (365 * (y : Int) + (y : Int).tdiv 4 - (y : Int).tdiv 100) = doy := by
  simp only [tdiv_cast]
  omega

theorem eraParts {y doy days : Nat} (hdoy : doy ≤ 365) (hleap : doy = 365 → isLeap (y + 1) = true)
    (hdays : days = 365 * y + leapDays y + doy) :
    ∃ e yoe doe, y = 400 * e + yoe ∧ days = 146097 * e + doe ∧ doe < 146097 ∧
      (doe - doe / 1460 + doe / 36524 - doe / 146096) / 365 = yoe ∧ doe = 365 * yoe + yoe / 4 - yoe / 100 + doy := by
  obtain ⟨e, c, q, r, rfl, hc, hq, hr⟩ := year_parts y
  obtain ⟨hless, hyoe⟩ := yearOfEra_eq hc hq hr hdoy (fun h => leap_parts hc hq hr (hleap h)) rfl
  refine ⟨e, _, _, rfl, ?_, hless, hyoe, ?_⟩
  · rw [hdays, leapDays_parts hc hq hr]
    omega
  · have h₄ : (100 * c + 4 * q + r) / 4 = 25 * c + q := by omega
    have h₁₀₀ : (100 * c + 4 * q + r) / 100 = c := by omega
    rw [h₄, h₁₀₀]
    omega

theorem amzCivil_eq (hyear : 1 ≤ d.year) : amzCivil ((d.number : Int) - 719468) = (d.year, d.month, d.day) := by
  obtain ⟨hdoy, hleap, -, -⟩ := marchDay_le d.hmonth d.hday hyear
  obtain ⟨hmonth, hday⟩ := marchMonth_eq d.hmonth d.hday
  have hy : d.year = marchYear d.year d.month + if d.month ≤ 2 then 1 else 0 := by
    unfold marchYear
    split <;> omega
  have hmarch : d.month = if marchMonth d.month < 10 then marchMonth d.month + 3 else marchMonth d.month - 9 := by
    have hm := d.hmonth
    unfold marchMonth
    split <;> split <;> omega
  obtain ⟨e, yoe, doe, hsplit, hdays, hless, hyoe, hdoe⟩ := eraParts hdoy hleap rfl
  rw [hsplit] at hy
  have hnumber : d.number = 146097 * e + doe := hdays
  generalize marchDay d.month d.day = doy at hmonth hday hdoe
  generalize marchMonth d.month = mp at hmonth hday hmarch
  have hera : (d.number : Int).tdiv 146097 = e := by
    rw [hnumber, tdiv_cast]
    omega
  have hrest : (d.number : Int) - (e : Int) * 146097 = doe := by
    rw [hnumber]
    omega
  have hmp : (5 * (doy : Int) + 2).tdiv 153 = mp := by
    rw [Int.tdiv_eq_ediv_of_nonneg (by omega)]
    omega
  have hspan : (153 * (mp : Int) + 2).tdiv 5 = ((153 * mp + 2) / 5 : Nat) := by
    rw [Int.tdiv_eq_ediv_of_nonneg (by omega)]
    omega
  unfold amzCivil
  simp only [Int.sub_add_cancel, hera, hrest, eraYear_cast hyoe, yearDay_cast hdoe, hmp, hspan]
  have hm : (if (mp : Int) < 10 then (mp : Int) + 3 else mp - 9).toNat = d.month := by
    split <;> split at hmarch <;> omega
  rw [hm]
  refine Prod.ext ?_ (Prod.ext rfl ?_)
  · dsimp only
    split at hy <;> omega
  · dsimp only
    omega

theorem days_dayAt (n : Nat) : ((dayAt n).date.number : Int) - 719468 = n := by
  have hnumber := number_dayAt n
  generalize (dayAt n).date.number = days at hnumber ⊢
  omega

theorem daysFromCivil_dayAt (n : Nat) :
    sv4DaysFromCivil (dayAt n).date.year (dayAt n).date.month (dayAt n).date.day = n :=
  (sv4DaysFromCivil_eq (le_trans (by decide) (year_dayAt n))).trans (days_dayAt n)

theorem amzCivil_dayAt (n : Nat) : amzCivil n = ((dayAt n).date.year, (dayAt n).date.month, (dayAt n).date.day) := by
  have hcivil := amzCivil_eq (le_trans (by decide : 1 ≤ 1970) (year_dayAt n))
  rwa [days_dayAt] at hcivil

end Calendar

def YEAR_10000 : Nat := 253402300800

theorem before_year_10000 (secs : Nat) : secs < YEAR_10000 ↔ (dayAt (secs / 86400)).date.year < 10000 := by
  have hfirst : dayNumber 10000 1 1 = 3652365 := by simp [dayNumber, marchYear, leapDays, marchDay, marchMonth]
  have hyear := Date.year_lt_iff (le_trans (by decide : 1 ≤ 1970) (year_dayAt (secs / 86400))) (by decide : 1 ≤ 10000)
  have hnumber := number_dayAt (secs / 86400)
  rw [hnumber, hfirst] at hyear
  rw [hyear]
  unfold YEAR_10000
  omega

def dayName : Weekday → Bytes
  | .monday => ascii "Mon"
  | .tuesday => ascii "Tue"
  | .wednesday => ascii "Wed"
  | .thursday => ascii "Thu"
  | .friday => ascii "Fri"
  | .saturday => ascii "Sat"
  | .sunday => ascii "Sun"

theorem days_slice (n : Nat) : slice DAYS (n % 7 * 3) (n % 7 * 3 + 3) = dayName (dayAt n).weekday := by
  have hall : ∀ k < 7, slice DAYS (k * 3) (k * 3 + 3) = dayName (Weekday.next^[k] .thursday) := by decide
  rw [weekday_dayAt]
  exact hall _ (Nat.mod_lt n (by decide))

theorem prefix_puts (parts : List Bytes) (out : S3Out) : out.out <+: (parts.foldl S3Put.put out).out := by
  induction parts generalizing out with
  | nil => exact prefix_rfl
  | cons part parts ih =>
    have hput : out.out <+: (out.put part).out := by
      unfold S3Put.put
      split
      · exact prefix_append _ _
      · exact prefix_rfl
    exact hput.trans (ih _)

theorem sv4FormatAmzDate_eq (secs : Nat) :
    let date := (dayAt (secs / 86400)).date
    (sv4FormatAmzDate secs).2 = putDigits 4 date.year ++ putDigits 2 date.month ++ putDigits 2 date.day ∧
      (sv4FormatAmzDate secs).1 = (sv4FormatAmzDate secs).2 ++ ascii "T" ++ putDigits 2 (secs % 86400 / 3600) ++
        putDigits 2 (secs % 86400 % 3600 / 60) ++ putDigits 2 (secs % 86400 % 60) ++ ascii "Z" := by
  unfold sv4FormatAmzDate
  rw [amzCivil_dayAt]
  exact ⟨rfl, rfl⟩

theorem sv4ParseAmzDate_fields (y m d hour min sec : Nat) :
    sv4ParseAmzDate (putDigits 4 y ++ putDigits 2 m ++ putDigits 2 d ++ ascii "T" ++ putDigits 2 hour ++ putDigits 2 min ++
        putDigits 2 sec ++ ascii "Z") =
      (do
        let year ← sv4Digits (putDigits 4 y)
        let month ← sv4Digits (putDigits 2 m)
        let day ← sv4Digits (putDigits 2 d)
        let hour ← sv4Digits (putDigits 2 hour)
        let min ← sv4Digits (putDigits 2 min)
        let sec ← sv4Digits (putDigits 2 sec)
        if ¬(1 ≤ month ∧ month ≤ 12) ∨ ¬(1 ≤ day ∧ day ≤ 31) ∨ hour > 23 ∨ min > 59 ∨ sec > 60 then none
        else
          let days := sv4DaysFromCivil year month day
          if days < 0 then none else some (days.toNat * 86400 + hour * 3600 + min * 60 + sec)) := by
  unfold sv4ParseAmzDate
  rw [if_neg (by rintro (h | h | h) <;> exact h rfl)]
  rfl

theorem sv4ParseAmzDate_format {secs : Nat} (h : secs < YEAR_10000) : sv4ParseAmzDate (sv4FormatAmzDate secs).1 = some secs := by
  obtain ⟨hdate, hts⟩ := sv4FormatAmzDate_eq secs
  have hyear := (before_year_10000 secs).mp h
  have hdays := daysFromCivil_dayAt (secs / 86400)
  generalize (dayAt (secs / 86400)).date = d at hdate hyear hdays
  obtain ⟨hm₁, hm₂⟩ := d.hmonth
  obtain ⟨hday₁, hday₂⟩ := d.hday
  have hlong : monthDays d.year d.month ≤ 31 := by
    unfold monthDays
    split
    · split <;> decide
    · split <;> decide
  have hy := sv4Digits_put 3 (show d.year < 10 ^ 4 by omega) (by omega)
  have hm := sv4Digits_put 1 (show d.month < 10 ^ 2 by omega) (by omega)
  have hd := sv4Digits_put 1 (show d.day < 10 ^ 2 by omega) (by omega)
  have hhour := sv4Digits_put 1 (show secs % 86400 / 3600 < 10 ^ 2 by omega) (by omega)
  have hmin := sv4Digits_put 1 (show secs % 86400 % 3600 / 60 < 10 ^ 2 by omega) (by omega)
  have hsec := sv4Digits_put 1 (show secs % 86400 % 60 < 10 ^ 2 by omega) (by omega)
  have hclock : ¬(¬(1 ≤ d.month ∧ d.month ≤ 12) ∨ ¬(1 ≤ d.day ∧ d.day ≤ 31) ∨ secs % 86400 / 3600 > 23 ∨
      secs % 86400 % 3600 / 60 > 59 ∨ secs % 86400 % 60 > 60) := by
    omega
  rw [hts, hdate, sv4ParseAmzDate_fields, hy, hm, hd, hhour, hmin, hsec]
  dsimp only [bind_eq_bind, bind_some]
  rw [if_neg hclock, hdays, if_neg (by omega), Int.toNat_natCast]
  congr 1
  omega

/-- A time before the year 10000 is read back from its timestamp; the date is the day's, and an HTTP date has its
name. -/
theorem amzDate_roundTrip {secs : Nat} (h : secs < YEAR_10000) :
    let day := dayAt (secs / 86400)
    let out := sv4FormatAmzDate secs
    sv4ParseAmzDate out.1 = some secs ∧ out.2 = out.1.take 8 ∧ day.date.year < 10000 ∧
      out.2 = putDigits 4 day.date.year ++ putDigits 2 day.date.month ++ putDigits 2 day.date.day ∧
      ∀ w : S3Out, w.out.length + 3 ≤ w.room → ∃ more, (s3HttpDate secs w).out = w.out ++ (dayName day.weekday ++ more) := by
  obtain ⟨hdate, hts⟩ := sv4FormatAmzDate_eq secs
  refine ⟨sv4ParseAmzDate_format h, ?_, (before_year_10000 secs).mp h, hdate, fun w hw => ?_⟩
  · rw [hts, hdate]
    rfl
  · have hname : (slice DAYS (secs / 86400 % 7 * 3) (secs / 86400 % 7 * 3 + 3)).length = 3 := by
      have hall : ∀ k < 7, (slice DAYS (k * 3) (k * 3 + 3)).length = 3 := by decide
      exact hall _ (Nat.mod_lt _ (by decide))
    unfold s3HttpDate
    dsimp only
    rw [foldl_cons, S3Put.put, if_pos (by omega), days_slice]
    obtain ⟨more, hmore⟩ := prefix_puts _ ({ w with out := w.out ++ dayName (dayAt (secs / 86400)).weekday } : S3Out)
    exact ⟨more, by rw [← hmore, append_assoc]⟩

theorem amzDate_roundTrip_leap :
    sv4ParseAmzDate (sv4FormatAmzDate 951782400).1 = some 951782400 ∧ (sv4FormatAmzDate 951782400).2 = ascii "20000229" :=
  ⟨(amzDate_roundTrip (by decide)).1, by decide +kernel⟩

end Wave.Common
