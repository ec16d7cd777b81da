import Mathlib.Data.Nat.Find
import Mathlib.Tactic.Common
import Mathlib.Tactic.NormNum

/-!
# Calendar — days and dates of the Gregorian calendar

Days are counted from the first day of year 0, also where the calendar was not in use.  The date of a
day is found by the greatest year and then the greatest month that does not begin after it
(`ofNumber`); it is a valid date, and the day it numbers is the one it was found for
(`number_ofNumber`).
-/

namespace InfraDemo.Calendar

/-! ### Years and months -/

def IsLeap (year : ℕ) : Prop := 4 ∣ year ∧ (¬ 100 ∣ year ∨ 400 ∣ year)

instance (year : ℕ) : Decidable (IsLeap year) := inferInstanceAs (Decidable (_ ∧ _))

def yearLength (year : ℕ) : ℕ := if IsLeap year then 366 else 365

/-- The days from the first day of year 0 to the first of `year`. -/
def daysBeforeYear (year : ℕ) : ℕ :=
  365 * year + (year + 3) / 4 - (year + 99) / 100 + (year + 399) / 400

def monthLength (year : ℕ) : ℕ → ℕ
  | 2 => if IsLeap year then 29 else 28
  | 4 | 6 | 9 | 11 => 30
  | _ => 31

/-- The days of the year before its `month`. -/
def daysBeforeMonth (year : ℕ) : ℕ → ℕ
  | 0 | 1 => 0
  | month + 2 => daysBeforeMonth year (month + 1) + monthLength year (month + 1)

/-- Before the next year there is one more multiple of `k + 1` if the year is one. -/
theorem multiples_succ (year k : ℕ) :
    (year + 1 + k) / (k + 1) = (year + k) / (k + 1) + if k + 1 ∣ year then 1 else 0 := by
  rw [show year + 1 + k = year + k + 1 by omega, Nat.succ_div]
  simp only [add_assoc, Nat.dvd_add_self_right]

theorem daysBeforeYear_succ (year : ℕ) :
    daysBeforeYear (year + 1) = daysBeforeYear year + yearLength year := by
  have h₄ := multiples_succ year 3
  have h₁₀₀ := multiples_succ year 99
  have h₄₀₀ := multiples_succ year 399
  have hle : (year + 99) / 100 ≤ 365 * year := by omega
  norm_num only at h₄ h₁₀₀ h₄₀₀
  unfold daysBeforeYear yearLength IsLeap
  rw [h₄, h₁₀₀, h₄₀₀]
  generalize (year + 3) / 4 = fours, (year + 99) / 100 = centuries,
    (year + 399) / 400 = cycles at hle ⊢
  -- the four kinds of years
  by_cases hcycle : 400 ∣ year
  · have hcentury : 100 ∣ year := Dvd.dvd.trans ⟨4, rfl⟩ hcycle
    have hfour : 4 ∣ year := Dvd.dvd.trans ⟨25, rfl⟩ hcentury
    simp only [hcycle, hcentury, hfour, if_true, not_true, or_true, and_true]
    omega
  · by_cases hcentury : 100 ∣ year
    · have hfour : 4 ∣ year := Dvd.dvd.trans ⟨25, rfl⟩ hcentury
      simp only [hcycle, hcentury, hfour, if_true, if_false, not_true, or_false, and_false]
      omega
    · by_cases hfour : 4 ∣ year
      · simp only [hcycle, hcentury, hfour, if_true, if_false, not_false_iff, true_or, and_true]
        omega
      · simp only [hcycle, hcentury, hfour, if_false, false_and]
        omega

theorem le_daysBeforeYear (year : ℕ) : 365 * year ≤ daysBeforeYear year := by
  unfold daysBeforeYear
  omega

theorem daysBeforeYear_mono : Monotone daysBeforeYear :=
  monotone_nat_of_le_succ fun year => by
    rw [daysBeforeYear_succ]
    exact Nat.le_add_right _ _

/-- The twelve months make the year. -/
theorem daysBeforeMonth_thirteen (year : ℕ) : daysBeforeMonth year 13 = yearLength year := by
  unfold yearLength
  simp only [daysBeforeMonth, monthLength]
  split_ifs <;> rfl

theorem monthLength_le (year month : ℕ) : monthLength year month ≤ 31 := by
  unfold monthLength
  split
  · split_ifs <;> omega
  all_goals omega

/-! ### Dates -/

structure Date where
  year : ℕ
  month : ℕ
  day : ℕ
  deriving DecidableEq

namespace Date

structure Valid (d : Date) : Prop where
  month_pos : 1 ≤ d.month
  month_le : d.month ≤ 12
  day_pos : 1 ≤ d.day
  day_le : d.day ≤ monthLength d.year d.month

instance (d : Date) : Decidable d.Valid :=
  decidable_of_iff (1 ≤ d.month ∧ d.month ≤ 12 ∧ 1 ≤ d.day ∧ d.day ≤ monthLength d.year d.month)
    ⟨fun ⟨h₁, h₂, h₃, h₄⟩ => ⟨h₁, h₂, h₃, h₄⟩,
      fun h => ⟨h.month_pos, h.month_le, h.day_pos, h.day_le⟩⟩

/-- The days from the first day of year 0 to the date. -/
def number (d : Date) : ℕ := daysBeforeYear d.year + daysBeforeMonth d.year d.month + (d.day - 1)

end Date

/-- The year of a day. -/
def yearOf (n : ℕ) : ℕ := Nat.findGreatest (fun year => daysBeforeYear year ≤ n) (n / 365)

/-- The month of a day of the year. -/
def monthOf (year rest : ℕ) : ℕ :=
  Nat.findGreatest (fun month => daysBeforeMonth year month ≤ rest) 12

/-- The date of a day. -/
def ofNumber (n : ℕ) : Date :=
  let year := yearOf n
  let rest := n - daysBeforeYear year
  let month := monthOf year rest
  { year, month, day := rest - daysBeforeMonth year month + 1 }

section OfNumber

variable {n year rest : ℕ}

theorem daysBeforeYear_yearOf_le : daysBeforeYear (yearOf n) ≤ n :=
  Nat.findGreatest_spec (P := fun year => daysBeforeYear year ≤ n) (Nat.zero_le _) (Nat.zero_le n)

theorem lt_daysBeforeYear_succ : n < daysBeforeYear (yearOf n + 1) := by
  by_cases h : yearOf n + 1 ≤ n / 365
  · exact not_le.mp (Nat.findGreatest_is_greatest (P := fun year => daysBeforeYear year ≤ n)
      (Nat.lt_succ_self (yearOf n)) h)
  · have hle := le_daysBeforeYear (yearOf n + 1)
    omega

theorem daysBeforeMonth_monthOf_le (year rest : ℕ) :
    daysBeforeMonth year (monthOf year rest) ≤ rest :=
  Nat.findGreatest_spec (P := fun month => daysBeforeMonth year month ≤ rest) (Nat.zero_le _)
    (Nat.zero_le rest)

theorem monthOf_pos : 1 ≤ monthOf year rest :=
  Nat.le_findGreatest (by omega) (Nat.zero_le rest)

theorem monthOf_le : monthOf year rest ≤ 12 := Nat.findGreatest_le 12

theorem lt_daysBeforeMonth_succ (h : rest < yearLength year) :
    rest < daysBeforeMonth year (monthOf year rest + 1) := by
  by_cases hm : monthOf year rest + 1 ≤ 12
  · exact not_le.mp (Nat.findGreatest_is_greatest (P := fun m => daysBeforeMonth year m ≤ rest)
      (Nat.lt_succ_self (monthOf year rest)) hm)
  · have hle : monthOf year rest ≤ 12 := monthOf_le
    have htwelve : monthOf year rest = 12 := by omega
    rwa [htwelve, daysBeforeMonth_thirteen]

theorem daysBeforeMonth_succ {month : ℕ} (h : 1 ≤ month) : daysBeforeMonth year (month + 1) =
    daysBeforeMonth year month + monthLength year month := by
  obtain ⟨m, rfl⟩ : ∃ m, month = m + 1 := ⟨month - 1, by omega⟩
  rfl

/-- The date of a day is in the calendar. -/
theorem valid_ofNumber (n : ℕ) : (ofNumber n).Valid := by
  have hyear := daysBeforeYear_yearOf_le (n := n)
  have hnext := lt_daysBeforeYear_succ (n := n)
  rw [daysBeforeYear_succ] at hnext
  have hrest : n - daysBeforeYear (yearOf n) < yearLength (yearOf n) := by omega
  have hmonth := lt_daysBeforeMonth_succ hrest
  rw [daysBeforeMonth_succ monthOf_pos] at hmonth
  have hle := daysBeforeMonth_monthOf_le (yearOf n) (n - daysBeforeYear (yearOf n))
  exact ⟨monthOf_pos, monthOf_le, Nat.le_add_left 1 _, by simp only [ofNumber]; omega⟩

/-- **The date of a day numbers that day.** -/
theorem number_ofNumber (n : ℕ) : (ofNumber n).number = n := by
  have hyear := daysBeforeYear_yearOf_le (n := n)
  have hmonth := daysBeforeMonth_monthOf_le (yearOf n) (n - daysBeforeYear (yearOf n))
  simp only [Date.number, ofNumber]
  omega

/-- Days before a year have an earlier year. -/
theorem year_ofNumber_lt (h : n < daysBeforeYear year) : (ofNumber n).year < year := by
  by_contra hle
  have hmono := daysBeforeYear_mono (not_lt.mp hle)
  have hyear : daysBeforeYear (ofNumber n).year ≤ n := daysBeforeYear_yearOf_le
  omega

end OfNumber

example : ofNumber 739310 = ⟨2024, 2, 29⟩ := by decide +kernel

end InfraDemo.Calendar
