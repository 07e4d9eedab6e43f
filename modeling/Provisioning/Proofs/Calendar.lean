import Mathlib.Tactic.ByContra
import Mathlib.Tactic.SplitIfs
import Provisioning.Instant

/-!
# The calendar day of a number of days

Four hundred years are an era of 146097 days. Years are counted from March here, so that the day a
leap year adds is the last of its year: `year_of_day` finds the year of a day within its era, and
`month_of_day` the month of a day within its year. From these `ofDays` gives days of the calendar,
each with its own number.
-/
namespace Provisioning.CivilDate

/-- The century of a day of an era; the last day belongs to the fourth. -/
theorem century_of_day {d y : Nat} (hd : d < 146097)
    (hy : y = (d - d / 1460 + d / 36524 - d / 146096) / 365) :
    d = 146096 ∧ y = 399 ∨ d / 146096 = 0 ∧ y / 100 = d / 36524 ∧ d / 36524 < 4 := by
  have hcentury : d / 36524 = 0 ∨ d / 36524 = 1 ∨ d / 36524 = 2 ∨ d / 36524 = 3 ∨ d = 146096 := by
    omega
  rcases hcentury with h | h | h | h | h
  · omega
  · omega
  · omega
  · omega
  · subst h
    omega

/-- A day of an era is the `n`-th of its year, which has a 366th day only in a leap year. -/
theorem year_of_day {d y : Nat} (hd : d < 146097)
    (hy : y = (d - d / 1460 + d / 36524 - d / 146096) / 365) :
    y < 400 ∧ ∃ n, d + y / 100 = 365 * y + y / 4 + n ∧ n ≤ 365 ∧
      (n = 365 → (y + 1) % 4 = 0 ∧ ((y + 1) % 100 ≠ 0 ∨ (y + 1) % 400 = 0)) := by
  rcases century_of_day hd hy with ⟨h, hlast⟩ | ⟨hfirst, hcentury, hlt⟩
  · refine ⟨by omega, 365, by omega, by omega, fun _ => by omega⟩
  · have hlow : 365 * y + y / 4 ≤ d + y / 100 := by omega
    have hhigh : d + y / 100 ≤ 365 * y + y / 4 + 365 := by omega
    refine ⟨by omega, d + y / 100 - (365 * y + y / 4), by omega, by omega, fun hn => ?_⟩
    have hleap : y % 4 = 3 := by
      by_contra hy4
      have hquad : d / 1460 = y / 4 := by omega
      omega
    refine ⟨by omega, ?_⟩
    by_contra hboth
    obtain ⟨k, hk⟩ : ∃ k, y = 100 * k + 99 := ⟨y / 100, by omega⟩
    have hk4 : k = 0 ∨ k = 1 ∨ k = 2 ∨ k = 3 := by omega
    rcases hk4 with rfl | rfl | rfl | rfl <;> omega

/-- The `n`-th day of a year is a day of its `m`-th month. -/
theorem month_of_day {n m : Nat} (hn : n ≤ 365) (hm : m = (5 * n + 2) / 153) :
    m ≤ 11 ∧ (153 * m + 2) / 5 ≤ n ∧ n < (153 * m + 2) / 5 + 31 ∧
      (m = 1 ∨ m = 3 ∨ m = 6 ∨ m = 8 → n < (153 * m + 2) / 5 + 30) := by
  refine ⟨by omega, by omega, by omega, fun hshort => ?_⟩
  rcases hshort with h | h | h | h
  · omega
  · omega
  · omega
  · omega

/-- How the number of a day comes apart into era, year, day of the year and month. -/
theorem ofDays_parts (days : Int) :
    ∃ (era : Int) (y n m : Nat), y < 400 ∧ n ≤ 365 ∧ m ≤ 11 ∧
      days + 719468 + y / 100 = era * 146097 + 365 * y + y / 4 + n ∧
      (n = 365 → (y + 1) % 4 = 0 ∧ ((y + 1) % 100 ≠ 0 ∨ (y + 1) % 400 = 0)) ∧
      m = (5 * n + 2) / 153 ∧
      ofDays days =
        ⟨era * 400 + y + (if m < 10 then 0 else 1), if m < 10 then m + 3 else m - 9,
          n - (153 * m + 2) / 5 + 1⟩ := by
  obtain ⟨d, hd, hdays⟩ : ∃ d : Nat, d < 146097 ∧ ((days + 719468) % 146097).toNat = d :=
    ⟨_, by omega, rfl⟩
  obtain ⟨y, hy⟩ : ∃ y, y = (d - d / 1460 + d / 36524 - d / 146096) / 365 := ⟨_, rfl⟩
  obtain ⟨hy400, n, hn, hn365, hleap⟩ := year_of_day hd hy
  have hday : d - (365 * y + y / 4 - y / 100) = n := by omega
  obtain ⟨m, hm⟩ : ∃ m, m = (5 * n + 2) / 153 := ⟨_, rfl⟩
  obtain ⟨hm11, -, -⟩ := month_of_day hn365 hm
  refine ⟨(days + 719468) / 146097, y, n, m, hy400, hn365, hm11, by omega, hleap, hm, ?_⟩
  simp only [ofDays, hdays, ← hy, hday, ← hm]
  congr 1
  · split_ifs <;> omega

theorem toDays_ofDays (days : Int) : (ofDays days).toDays = days := by
  obtain ⟨era, y, n, m, hy, hn, hm11, hdays, -, hm, hparts⟩ := ofDays_parts days
  obtain ⟨-, hstart, -, -⟩ := month_of_day hn hm
  rw [hparts]
  unfold toDays
  by_cases hm10 : m < 10
  · have hmarch : ¬ m + 3 ≤ 2 := by omega
    have hmonth : (m + 3 + 9) % 12 = m := by omega
    simp only [hm10, hmarch, hmonth, ↓reduceIte]
    omega
  · have hmarch : m - 9 ≤ 2 := by omega
    have hmonth : (m - 9 + 9) % 12 = m := by omega
    simp only [hm10, hmarch, hmonth, ↓reduceIte]
    omega

/-- A day of the `m`-th month of a year, counted from March, is at most the last of its month. -/
theorem day_le_daysInMonth (era : Int) {y n m : Nat} (hn : n ≤ 365)
    (hleap : n = 365 → (y + 1) % 4 = 0 ∧ ((y + 1) % 100 ≠ 0 ∨ (y + 1) % 400 = 0))
    (hm : m = (5 * n + 2) / 153) :
    n - (153 * m + 2) / 5 + 1 ≤
      daysInMonth (era * 400 + y + if m < 10 then 0 else 1) (if m < 10 then m + 3 else m - 9) := by
  obtain ⟨hm11, hstart, hlong, hshort⟩ := month_of_day hn hm
  unfold daysInMonth
  by_cases hm10 : m < 10
  · simp only [hm10, ↓reduceIte]
    split_ifs <;> omega
  · simp only [hm10, ↓reduceIte]
    by_cases hfeb : m = 11
    · by_cases hend : n = 365
      · have hyear : isLeapYear (era * 400 + y + 1) = true := by
          simp only [isLeapYear, Bool.and_eq_true, Bool.or_eq_true, beq_iff_eq, bne_iff_ne]
          omega
        simp only [hyear, hfeb, ↓reduceIte]
        omega
      · split_ifs <;> omega
    · split_ifs <;> omega

/-- The days between the bounds of the calendar have years between them. -/
theorem year_of_bounded {days era : Int} {y n m : Nat} (hy : y < 400) (hn : n ≤ 365)
    (hdays : days + 719468 + y / 100 = era * 146097 + 365 * y + y / 4 + n)
    (hm : m = (5 * n + 2) / 153) (hfirst : -96465292 ≤ days) (hlast : days ≤ 95026236) :
    -262143 ≤ era * 400 + y + (if m < 10 then 0 else 1) ∧
      era * 400 + y + (if m < 10 then 0 else 1) ≤ 262142 := by
  have hera : era = -656 ∨ -655 ≤ era ∧ era ≤ 654 ∨ era = 655 := by omega
  rcases hera with rfl | ⟨hlow, hhigh⟩ | rfl
  · split_ifs <;> omega
  · split_ifs <;> omega
  · split_ifs <;> omega

theorem isValid_ofDays {days : Int} (hfirst : (mk minYear 1 1).toDays ≤ days)
    (hlast : days ≤ (mk maxYear 12 31).toDays) : (ofDays days).isValid = true := by
  obtain ⟨era, y, n, m, hy, hn, hm11, hdays, hleap, hm, hparts⟩ := ofDays_parts days
  obtain ⟨hyear, hyear'⟩ := year_of_bounded hy hn hdays hm hfirst hlast
  have hday := day_le_daysInMonth era hn hleap hm
  rw [hparts]
  simp only [isValid, Bool.and_eq_true, decide_eq_true_eq]
  refine ⟨⟨⟨⟨⟨hyear, hyear'⟩, ?_⟩, ?_⟩, by omega⟩, hday⟩
  · split_ifs <;> omega
  · split_ifs <;> omega

end Provisioning.CivilDate
