import Mathlib.Tactic.IntervalCases
import Mathlib.Data.Int.Order.Basic

/-!
# The calendar

Days are counted from the first of March of the year 0, so that a leap day is the last of its
year of twelve months.
-/
namespace Persatrix

structure Date where
  year : ℤ
  month : ℤ
  day : ℤ
deriving DecidableEq

/-- The day of a year of twelve months from March, as a month and a day. -/
def monthDay (dayOfYear : ℤ) : ℤ × ℤ :=
  let m := (5 * dayOfYear + 2) / 153
  (if m < 10 then m + 3 else m - 9, dayOfYear - (153 * m + 2) / 5 + 1)

/-- The day of a calendar of 400 years, as a year and a day of it. -/
def yearDay (dayOfEra : ℤ) : ℤ × ℤ :=
  let century := min 3 (dayOfEra / 36524)
  let dayOfCentury := dayOfEra - 36524 * century
  let dayOfQuad := dayOfCentury % 1461
  let year := min 3 (dayOfQuad / 365)
  (100 * century + 4 * (dayOfCentury / 1461) + year, dayOfQuad - 365 * year)

def civil (days : ℤ) : Date :=
  let y := yearDay (days % 146097)
  let m := monthDay y.2
  ⟨400 * (days / 146097) + y.1 + (if m.1 ≤ 2 then 1 else 0), m.1, m.2⟩

def isLeap (year : ℤ) : Bool := year % 4 = 0 && (year % 100 ≠ 0 || year % 400 = 0)

def daysIn (month year : ℤ) : ℤ :=
  if month = 2 then if isLeap year then 29 else 28
  else if month = 4 ∨ month = 6 ∨ month = 9 ∨ month = 11 then 30
  else 31

def daysOf (d : Date) : ℤ :=
  let year := if d.month ≤ 2 then d.year - 1 else d.year
  let m := (d.month + 9) % 12
  146097 * (year / 400) + 365 * (year % 400) + year % 400 / 4 - year % 400 / 100 +
    ((153 * m + 2) / 5 + d.day - 1)

theorem yearDay_spec {n : ℤ} (hlow : 0 ≤ n) (hhigh : n < 146097) :
    0 ≤ (yearDay n).1 ∧ (yearDay n).1 < 400 ∧ 0 ≤ (yearDay n).2 ∧ (yearDay n).2 ≤ 365 ∧
      365 * (yearDay n).1 + (yearDay n).1 / 4 - (yearDay n).1 / 100 + (yearDay n).2 = n ∧
      ((yearDay n).2 = 365 → isLeap ((yearDay n).1 + 1) = true) := by
  have hcentury : 0 ≤ min 3 (n / 36524) ∧ min 3 (n / 36524) ≤ 3 := by omega
  unfold yearDay
  dsimp only
  generalize hc : min 3 (n / 36524) = c at hcentury
  generalize hdoc : n - 36524 * c = doc
  have hdocrange : 0 ≤ doc ∧ doc ≤ 36524 := by omega
  have hdoclast : doc = 36524 → c = 3 := by omega
  generalize hq : doc / 1461 = q
  generalize hdoq : doc % 1461 = doq
  have hqrange : 0 ≤ q ∧ q ≤ 24 := by omega
  have hdoqrange : 0 ≤ doq ∧ doq ≤ 1460 := by omega
  have hdoqlast : doq = 1460 → q = 24 → c = 3 := by omega
  generalize hy : min 3 (doq / 365) = y
  have hyrange : 0 ≤ y ∧ y ≤ 3 ∧ 0 ≤ doq - 365 * y ∧ doq - 365 * y ≤ 365 := by omega
  have hylast : doq - 365 * y = 365 → y = 3 ∧ doq = 1460 := by omega
  refine ⟨by omega, by omega, by omega, by omega, ?_, ?_⟩
  · have hquarter : (100 * c + 4 * q + y) / 4 = 25 * c + q := by omega
    have hhundred : (100 * c + 4 * q + y) / 100 = c := by omega
    rw [hquarter, hhundred]
    omega
  · intro hlast
    obtain ⟨hthree, hend⟩ := hylast hlast
    simp only [isLeap, Bool.and_eq_true, Bool.or_eq_true, decide_eq_true_eq, ne_eq]
    omega

theorem monthDay_spec {n : ℤ} (hlow : 0 ≤ n) (hhigh : n ≤ 365) :
    1 ≤ (monthDay n).1 ∧ (monthDay n).1 ≤ 12 ∧ 1 ≤ (monthDay n).2 ∧
      (153 * (((monthDay n).1 + 9) % 12) + 2) / 5 + (monthDay n).2 - 1 = n ∧
      ((monthDay n).1 ≠ 2 → (monthDay n).2 ≤ daysIn (monthDay n).1 0) ∧
      ((monthDay n).1 = 2 → (monthDay n).2 ≤ 29 ∧ ((monthDay n).2 = 29 → n = 365)) := by
  unfold monthDay
  dsimp only
  generalize hm : (5 * n + 2) / 153 = m
  have hrange : 0 ≤ m ∧ m ≤ 11 := by omega
  unfold daysIn
  obtain ⟨hzero, heleven⟩ := hrange
  interval_cases m <;> norm_num <;> omega

theorem isLeap_add_era (era year : ℤ) : isLeap (400 * era + year) = isLeap year := by
  unfold isLeap
  have h4 : (400 * era + year) % 4 = year % 4 := by omega
  have h100 : (400 * era + year) % 100 = year % 100 := by omega
  have h400 : (400 * era + year) % 400 = year % 400 := by omega
  rw [h4, h100, h400]

theorem daysOf_era {y : ℤ} (hlow : 0 ≤ y) (hhigh : y < 400) (era m d : ℤ) :
    daysOf ⟨400 * era + y + (if m ≤ 2 then 1 else 0), m, d⟩ =
      146097 * era + (365 * y + y / 4 - y / 100) + ((153 * ((m + 9) % 12) + 2) / 5 + d - 1) := by
  have hyear : (if m ≤ 2 then 400 * era + y + (if m ≤ 2 then 1 else 0) - 1
      else 400 * era + y + (if m ≤ 2 then 1 else 0)) = 400 * era + y := by
    split_ifs <;> omega
  have hera : (400 * era + y) / 400 = era := by omega
  have hrest : (400 * era + y) % 400 = y := by omega
  unfold daysOf
  dsimp only
  rw [hyear, hera, hrest]
  omega

/-- A date counts the days it was made from. -/
theorem daysOf_civil (days : ℤ) : daysOf (civil days) = days := by
  obtain ⟨hyear0, hyear400, hday0, hday365, hdays, -⟩ :=
    @yearDay_spec (days % 146097) (by omega) (by omega)
  obtain ⟨-, -, -, hmonth, -⟩ := monthDay_spec hday0 hday365
  unfold civil
  dsimp only
  rw [daysOf_era hyear0 hyear400, hmonth, add_assoc, hdays]
  omega

theorem daysIn_of_ne {month : ℤ} (h : month ≠ 2) (a b : ℤ) : daysIn month a = daysIn month b := by
  rw [daysIn, daysIn, if_neg h, if_neg h]

/-- A date has a month of the year and a day of the month. -/
theorem civil_valid (days : ℤ) :
    1 ≤ (civil days).month ∧ (civil days).month ≤ 12 ∧ 1 ≤ (civil days).day ∧
      (civil days).day ≤ daysIn (civil days).month (civil days).year := by
  obtain ⟨-, -, hday0, hday365, -, hleap⟩ := @yearDay_spec (days % 146097) (by omega) (by omega)
  obtain ⟨hmonth1, hmonth12, hday1, -, hdays, hfebruary⟩ := monthDay_spec hday0 hday365
  unfold civil
  dsimp only
  generalize hy : yearDay (days % 146097) = y at *
  generalize hm : monthDay y.2 = m at hmonth1 hmonth12 hday1 hdays hfebruary ⊢
  refine ⟨hmonth1, hmonth12, hday1, ?_⟩
  by_cases hm : m.1 = 2
  · obtain ⟨h29, hlast⟩ := hfebruary hm
    rw [hm, if_pos (by norm_num), daysIn, if_pos rfl]
    by_cases hday : m.2 = 29
    · have hy := hleap (hlast hday)
      rw [add_assoc, isLeap_add_era, hy, if_pos rfl]
      exact h29
    · split_ifs <;> omega
  · rw [daysIn_of_ne hm _ 0]
    exact hdays hm

end Persatrix
