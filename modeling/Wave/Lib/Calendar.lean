import Mathlib.Tactic.IntervalCases
import Mathlib.Dynamics.PeriodicPts.Defs

/-! # The Gregorian calendar

`number_dayAt` ties the days counted one by one to a closed form over years that begin in March. -/

namespace Wave.Lib.Calendar

def isLeap (y : Nat) : Bool := y % 4 = 0 && (y % 100 ≠ 0 || y % 400 = 0)

def monthDays (y m : Nat) : Nat :=
  if m = 2 then if isLeap y then 29 else 28
  else if m = 4 ∨ m = 6 ∨ m = 9 ∨ m = 11 then 30
  else 31

theorem isLeap_iff (y : Nat) : isLeap y = true ↔ y % 4 = 0 ∧ (y % 100 ≠ 0 ∨ y % 400 = 0) := by
  simp [isLeap]

theorem monthDays_pos (y m : Nat) : 1 ≤ monthDays y m := by
  unfold monthDays
  split <;> split <;> decide

@[ext]
structure Date where
  year : Nat
  month : Nat
  day : Nat
  hmonth : 1 ≤ month ∧ month ≤ 12
  hday : 1 ≤ day ∧ day ≤ monthDays year month

def Date.next (d : Date) : Date :=
  if h : d.day < monthDays d.year d.month then ⟨d.year, d.month, d.day + 1, d.hmonth, Nat.le_add_left _ _, h⟩
  else if h : d.month < 12 then ⟨d.year, d.month + 1, 1, ⟨Nat.le_add_left _ _, h⟩, le_rfl, monthDays_pos _ _⟩
  else ⟨d.year + 1, 1, 1, by decide, le_rfl, monthDays_pos _ _⟩

inductive Weekday where
  | monday
  | tuesday
  | wednesday
  | thursday
  | friday
  | saturday
  | sunday
deriving DecidableEq

def Weekday.next : Weekday → Weekday
  | monday => tuesday
  | tuesday => wednesday
  | wednesday => thursday
  | thursday => friday
  | friday => saturday
  | saturday => sunday
  | sunday => monday

structure Day where
  date : Date
  weekday : Weekday

def Day.next (d : Day) : Day := ⟨d.date.next, d.weekday.next⟩

/-- 1970-01-01 was a Thursday. -/
def epochDay : Day := ⟨⟨1970, 1, 1, by decide, by decide⟩, .thursday⟩

def dayAt (n : Nat) : Day := Day.next^[n] epochDay

theorem dayAt_succ (n : Nat) : dayAt (n + 1) = (dayAt n).next := Function.iterate_succ_apply' _ _ _

def marchYear (y m : Nat) : Nat := if m ≤ 2 then y - 1 else y

def marchMonth (m : Nat) : Nat := if 2 < m then m - 3 else m + 9

def marchDay (m day : Nat) : Nat := (153 * marchMonth m + 2) / 5 + day - 1

def leapDays (y : Nat) : Nat := y / 4 - y / 100 + y / 400

def dayNumber (y m day : Nat) : Nat := 365 * marchYear y m + leapDays (marchYear y m) + marchDay m day

section Months

variable {y m : Nat}

theorem dayNumber_succ (y m : Nat) {day : Nat} (hday : 1 ≤ day) : dayNumber y m (day + 1) = dayNumber y m day + 1 := by
  unfold dayNumber marchDay
  omega

theorem leapDays_succ (y : Nat) : leapDays (y + 1) = leapDays y + if isLeap (y + 1) then 1 else 0 := by
  have hless : y / 100 ≤ y / 4 := Nat.div_le_div_left (by decide) (by decide)
  unfold leapDays
  rw [Nat.succ_div, Nat.succ_div, Nat.succ_div]
  by_cases h₄ : 4 ∣ y + 1
  · by_cases h₁₀₀ : 100 ∣ y + 1
    · by_cases h₄₀₀ : 400 ∣ y + 1
      · rw [if_pos h₄, if_pos h₁₀₀, if_pos h₄₀₀, if_pos ((isLeap_iff _).mpr (by omega))]
        omega
      · rw [if_pos h₄, if_pos h₁₀₀, if_neg h₄₀₀, if_neg (mt (isLeap_iff _).mp (by omega))]
        omega
    · have h₄₀₀ : ¬400 ∣ y + 1 := fun h => h₁₀₀ (Dvd.dvd.trans (by decide) h)
      rw [if_pos h₄, if_neg h₁₀₀, if_neg h₄₀₀, if_pos ((isLeap_iff _).mpr (by omega))]
      omega
  · have h₁₀₀ : ¬100 ∣ y + 1 := fun h => h₄ (Dvd.dvd.trans (by decide) h)
    have h₄₀₀ : ¬400 ∣ y + 1 := fun h => h₄ (Dvd.dvd.trans (by decide) h)
    rw [if_neg h₄, if_neg h₁₀₀, if_neg h₄₀₀, if_neg (mt (isLeap_iff _).mp (by omega))]
    rfl

theorem dayNumber_february (hyear : 1 ≤ y) : dayNumber y 3 1 = dayNumber y 2 (monthDays y 2) + 1 := by
  obtain ⟨y, rfl⟩ : ∃ k, y = k + 1 := ⟨y - 1, by omega⟩
  have hleap := leapDays_succ y
  have hmarch : dayNumber (y + 1) 3 1 = 365 * (y + 1) + leapDays (y + 1) := rfl
  have hfebruary : dayNumber (y + 1) 2 (monthDays (y + 1) 2) = 365 * y + leapDays y + (337 + monthDays (y + 1) 2 - 1) := rfl
  rw [hmarch, hfebruary, hleap, monthDays, if_pos rfl]
  split <;> omega

theorem dayNumber_month (hyear : 1 ≤ y) (hm : 1 ≤ m) (h : m < 12) :
    dayNumber y (m + 1) 1 = dayNumber y m (monthDays y m) + 1 := by
  by_cases hfeb : m = 2
  · rw [hfeb]
    exact dayNumber_february hyear
  · unfold monthDays
    rw [if_neg hfeb]
    unfold dayNumber marchYear marchDay marchMonth
    interval_cases m <;> first | exact absurd rfl hfeb | simp

theorem dayNumber_year (y : Nat) : dayNumber (y + 1) 1 1 = dayNumber y 12 31 + 1 := by
  have hdecember : dayNumber y 12 31 = 365 * y + leapDays y + 305 := rfl
  have hjanuary : dayNumber (y + 1) 1 1 = 365 * y + leapDays y + 306 := rfl
  rw [hdecember, hjanuary]

theorem leapDays_mono : Monotone leapDays :=
  monotone_nat_of_le_succ fun y => by
    rw [leapDays_succ]
    exact Nat.le_add_right _ _

theorem marchMonth_eq {day : Nat} (hm : 1 ≤ m ∧ m ≤ 12) (hday : 1 ≤ day ∧ day ≤ monthDays y m) :
    (5 * marchDay m day + 2) / 153 = marchMonth m ∧ marchDay m day - (153 * marchMonth m + 2) / 5 + 1 = day := by
  obtain ⟨hm₁, hm₂⟩ := hm
  obtain ⟨hday₁, hday₂⟩ := hday
  have hlength : monthDays y m ≤ if m = 2 then 29 else if m = 4 ∨ m = 6 ∨ m = 9 ∨ m = 11 then 30 else 31 := by
    unfold monthDays
    split
    · split <;> decide
    · exact le_rfl
  have hle := hday₂.trans hlength
  unfold marchDay marchMonth
  interval_cases m <;> simp at hle ⊢ <;> omega

theorem marchDay_le {day : Nat} (hm : 1 ≤ m ∧ m ≤ 12) (hday : 1 ≤ day ∧ day ≤ monthDays y m) (hyear : 1 ≤ y) :
    marchDay m day ≤ 365 ∧ (marchDay m day = 365 → isLeap (marchYear y m + 1) = true) ∧ (2 < m → marchDay m day < 306) ∧
      (m ≤ 2 → 306 ≤ marchDay m day) := by
  obtain ⟨hm₁, hm₂⟩ := hm
  obtain ⟨hday₁, hday₂⟩ := hday
  by_cases hfeb : m = 2
  · subst hfeb
    have hlast : marchDay 2 day = 336 + day := by
      change 337 + day - 1 = _
      omega
    have hsame : marchYear y 2 + 1 = y := Nat.sub_add_cancel hyear
    rw [hlast, hsame]
    unfold monthDays at hday₂
    rw [if_pos rfl] at hday₂
    refine ⟨?_, fun h => ?_, fun h => absurd h (by decide), fun _ => ?_⟩
    · split at hday₂ <;> omega
    · split at hday₂
      next hyes => exact hyes
      · omega
    · omega
  · have hle : day ≤ if m = 4 ∨ m = 6 ∨ m = 9 ∨ m = 11 then 30 else 31 := by
      unfold monthDays at hday₂
      rwa [if_neg hfeb] at hday₂
    unfold marchDay marchMonth
    interval_cases m <;> first | exact absurd rfl hfeb | (simp at hle ⊢; omega)

end Months

theorem year_parts (y : Nat) : ∃ e c q r, y = 400 * e + (100 * c + 4 * q + r) ∧ c < 4 ∧ q < 25 ∧ r < 4 :=
  ⟨y / 400, y % 400 / 100, y % 400 % 100 / 4, y % 400 % 100 % 4, by omega, by omega, by omega, by omega⟩

section Era

variable {e c q r doy doe : Nat}

theorem leapDays_parts (hc : c < 4) (hq : q < 25) (hr : r < 4) :
    leapDays (400 * e + (100 * c + 4 * q + r)) = 97 * e + 24 * c + q := by
  have h₄ : (400 * e + (100 * c + 4 * q + r)) / 4 = 100 * e + 25 * c + q := by omega
  have h₁₀₀ : (400 * e + (100 * c + 4 * q + r)) / 100 = 4 * e + c := by omega
  have h₄₀₀ : (400 * e + (100 * c + 4 * q + r)) / 400 = e := by omega
  rw [leapDays, h₄, h₁₀₀, h₄₀₀]
  omega

theorem leap_parts (hc : c < 4) (hq : q < 25) (hr : r < 4) (h : isLeap (400 * e + (100 * c + 4 * q + r) + 1) = true) :
    r = 3 ∧ (q ≠ 24 ∨ c = 3) := by
  obtain ⟨hfour, hcentury⟩ := (isLeap_iff _).mp h
  have hr₃ : r = 3 := by omega
  refine ⟨hr₃, ?_⟩
  by_cases hq₂₄ : q = 24
  · right
    subst hr₃ hq₂₄
    rcases hcentury with hcentury | hera <;> omega
  · exact Or.inl hq₂₄

theorem yearOfEra_eq (hc : c < 4) (hq : q < 25) (hr : r < 4) (hdoy : doy ≤ 365)
    (hleap : doy = 365 → r = 3 ∧ (q ≠ 24 ∨ c = 3)) (hdoe : doe = 36524 * c + 1461 * q + 365 * r + doy) :
    doe < 146097 ∧ (doe - doe / 1460 + doe / 36524 - doe / 146096) / 365 = 100 * c + 4 * q + r := by
  by_cases hlast : 1461 * q + 365 * r + doy = 36524
  · obtain ⟨rfl, rfl, rfl, rfl⟩ : q = 24 ∧ r = 3 ∧ doy = 365 ∧ c = 3 := by omega
    rw [hdoe]
    decide
  · have hless : 1461 * q + 365 * r + doy < 36524 := by omega
    have hera : doe / 146096 = 0 := by omega
    have hcentury : doe / 36524 = c := by omega
    have hfour : doe / 1460 = 25 * c + q + (24 * c + q + 365 * r + doy) / 1460 := by omega
    have hmore : (24 * c + q + 365 * r + doy) / 1460 ≤ 1 := by omega
    rw [hera, hcentury, hfour]
    omega

end Era

namespace Date

variable {d : Date}

def number (d : Date) : Nat := dayNumber d.year d.month d.day

theorem number_next (hyear : 1 ≤ d.year) : d.next.number = d.number + 1 := by
  obtain ⟨hm₁, hm₂⟩ := d.hmonth
  obtain ⟨hday₁, hday₂⟩ := d.hday
  unfold next
  split
  · exact dayNumber_succ _ _ hday₁
  next hlast =>
    have hend : d.day = monthDays d.year d.month := by omega
    unfold number
    rw [hend]
    split
    next h12 => exact dayNumber_month hyear hm₁ h12
    next h12 =>
      have hdec : d.month = 12 := by omega
      rw [hdec]
      exact dayNumber_year _

theorem year_lt_iff {y : Nat} (hyear : 1 ≤ d.year) (hy : 1 ≤ y) : d.year < y ↔ d.number < dayNumber y 1 1 := by
  obtain ⟨hle, -, hspring, hwinter⟩ := marchDay_le d.hmonth d.hday hyear
  have hfirst : dayNumber y 1 1 = 365 * (y - 1) + leapDays (y - 1) + 306 := rfl
  have hnumber : d.number = 365 * marchYear d.year d.month + leapDays (marchYear d.year d.month) + marchDay d.month d.day := rfl
  rw [hfirst, hnumber, marchYear]
  constructor
  · intro h
    have hmono := leapDays_mono (by omega : d.year ≤ y - 1)
    have hbefore := leapDays_mono (by omega : d.year - 1 ≤ y - 1)
    split <;> omega
  · intro h
    by_contra hge
    have hmono := leapDays_mono (by omega : y - 1 ≤ d.year)
    have hbefore := leapDays_mono (by omega : y - 1 ≤ d.year - 1)
    split at h <;> omega

theorem year_next (d : Date) : d.year ≤ d.next.year := by
  unfold next
  split
  · exact le_rfl
  · split
    · exact le_rfl
    · exact Nat.le_add_right _ _

end Date

theorem year_dayAt (n : Nat) : 1970 ≤ (dayAt n).date.year := by
  induction n with
  | zero => exact le_rfl
  | succ n ih =>
    rw [dayAt_succ]
    exact ih.trans (dayAt n).date.year_next

theorem number_dayAt (n : Nat) : (dayAt n).date.number = 719468 + n := by
  induction n with
  | zero => rfl
  | succ n ih =>
    have hyear : 1 ≤ (dayAt n).date.year := le_trans (by decide) (year_dayAt n)
    rw [dayAt_succ, Day.next, Date.number_next hyear, ih]
    rfl

theorem weekday_dayAt (n : Nat) : (dayAt n).weekday = Weekday.next^[n % 7] .thursday := by
  have hweek : Function.IsPeriodicPt Weekday.next 7 .thursday := rfl
  rw [hweek.iterate_mod_apply]
  induction n with
  | zero => rfl
  | succ n ih =>
    rw [dayAt_succ, Day.next, ih, Function.iterate_succ_apply']

end Wave.Lib.Calendar
