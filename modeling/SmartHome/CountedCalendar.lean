import Mathlib.Algebra.BigOperators.Intervals
import Mathlib.Algebra.Order.BigOperators.Group.Finset

/-!
# Counting days in consecutive units of varying length

A day number is located inside consecutive units (years, months) whose
lengths vary. Every number lies in some unit when no unit is empty, and the
unit and the remainder inside it are unique. The proleptic Gregorian calendar
is the instance used for civil dates counted from an arbitrary base year.
-/

namespace SmartHome.CountedCalendar

/-- Total length of the units before index k. -/
def elapsed (len : ℕ → ℕ) (k : ℕ) : ℕ := ∑ i ∈ Finset.range k, len i

@[simp] theorem elapsed_zero (len : ℕ → ℕ) : elapsed len 0 = 0 := by simp [elapsed]

theorem elapsed_succ (len : ℕ → ℕ) (k : ℕ) : elapsed len (k + 1) = elapsed len k + len k :=
  Finset.sum_range_succ len k

/-- Later units start no earlier. -/
theorem elapsed_mono (len : ℕ → ℕ) {j k : ℕ} (h : j ≤ k) : elapsed len j ≤ elapsed len k :=
  Finset.sum_le_sum_of_subset (Finset.range_mono h)

/-- Units of at least c each take at least c per unit. -/
theorem mul_le_elapsed (len : ℕ → ℕ) {c : ℕ} (h : ∀ i, c ≤ len i) (k : ℕ) :
    c * k ≤ elapsed len k := by
  induction k with
  | zero => simp
  | succ k ih =>
    rw [elapsed_succ, Nat.mul_succ]
    exact Nat.add_le_add ih (h k)

/-- Counting may start at any unit. -/
theorem elapsed_add (len : ℕ → ℕ) (b k : ℕ) :
    elapsed len (b + k) = elapsed len b + elapsed (fun i => len (b + i)) k := by
  induction k with
  | zero => simp
  | succ k ih => rw [← Nat.add_assoc, elapsed_succ, ih, elapsed_succ, Nat.add_assoc]

/-- A unit index and a remainder inside that unit are ordered like their sum. -/
theorem elapsed_lex (len : ℕ → ℕ) {j k r s : ℕ} (hs : s < len k)
    (h : elapsed len j + r ≤ elapsed len k + s) : j < k ∨ j = k ∧ r ≤ s := by
  have hk := elapsed_succ len k
  rcases Nat.lt_trichotomy j k with hlt | heq | hgt
  · exact Or.inl hlt
  · subst heq
    exact Or.inr ⟨rfl, by omega⟩
  · have hm := elapsed_mono len (Nat.succ_le_of_lt hgt)
    simp only [Nat.succ_eq_add_one] at hm
    omega

/-- Every number lies in some unit when no unit is empty. -/
theorem exists_unit (len : ℕ → ℕ) (hpos : ∀ i, 0 < len i) (n : ℕ) :
    ∃ k r, r < len k ∧ elapsed len k + r = n := by
  induction n with
  | zero => exact ⟨0, 0, hpos 0, by simp⟩
  | succ n ih =>
    obtain ⟨k, r, hr, hn⟩ := ih
    by_cases hlast : r + 1 < len k
    · exact ⟨k, r + 1, hlast, by omega⟩
    · have hs := elapsed_succ len k
      exact ⟨k + 1, 0, hpos _, by omega⟩

/-- Leap years of the proleptic Gregorian calendar. -/
def IsLeap (year : ℕ) : Prop := year % 4 = 0 ∧ (year % 100 ≠ 0 ∨ year % 400 = 0)

instance (year : ℕ) : Decidable (IsLeap year) := inferInstanceAs (Decidable (_ ∧ _))

/-- Number of days of a year. -/
def yearLength (year : ℕ) : ℕ := if IsLeap year then 366 else 365

/-- Number of days of a month, January being month 0. -/
def monthLength (year : ℕ) : ℕ → ℕ
  | 1 => if IsLeap year then 29 else 28
  | 3 | 5 | 8 | 10 => 30
  | _ => 31

theorem yearLength_bounds (year : ℕ) : 365 ≤ yearLength year ∧ yearLength year ≤ 366 := by
  unfold yearLength
  split <;> omega

theorem monthLength_bounds (year m : ℕ) : 28 ≤ monthLength year m ∧ monthLength year m ≤ 31 := by
  unfold monthLength
  split
  · split <;> omega
  all_goals omega

/-- Twelve months make a year. -/
theorem elapsed_monthLength (year : ℕ) : elapsed (monthLength year) 12 = yearLength year := by
  by_cases h : IsLeap year <;>
    simp [elapsed, Finset.sum_range_succ, monthLength, yearLength, h]

/-- A date that exists in the Gregorian calendar. -/
structure CivilDate where
  /-- Calendar year. -/
  year : ℕ
  /-- Month from 1 to 12. -/
  month : ℕ
  /-- Day of the month from 1 on. -/
  day : ℕ
  month_pos : 1 ≤ month
  month_le : month ≤ 12
  day_pos : 1 ≤ day
  day_le : day ≤ monthLength year (month - 1)
  deriving DecidableEq

/-- Days of the year before the date. -/
def CivilDate.dayOfYear (d : CivilDate) : ℕ :=
  elapsed (monthLength d.year) (d.month - 1) + (d.day - 1)

/-- Days from the first of January of the base year to the date. -/
def CivilDate.dayNumber (base : ℕ) (d : CivilDate) : ℕ :=
  elapsed (fun i => yearLength (base + i)) (d.year - base) + d.dayOfYear

/-- The month and the day of a date lie in the ranges of a calendar sheet. -/
theorem CivilDate.bounds (d : CivilDate) :
    1 ≤ d.month ∧ d.month ≤ 12 ∧ 1 ≤ d.day ∧ d.day ≤ 31 :=
  ⟨d.month_pos, d.month_le, d.day_pos, d.day_le.trans (monthLength_bounds d.year _).2⟩

/-- A date stays inside its own year. -/
theorem CivilDate.dayOfYear_lt (d : CivilDate) : d.dayOfYear < yearLength d.year := by
  have hs := elapsed_succ (monthLength d.year) (d.month - 1)
  have hm := elapsed_mono (monthLength d.year) (show d.month - 1 + 1 ≤ 12 by
    have := d.month_le; have := d.month_pos; omega)
  rw [elapsed_monthLength] at hm
  have := d.day_le
  have := d.day_pos
  unfold CivilDate.dayOfYear
  omega

/-- Dates are ordered like their day numbers. -/
theorem CivilDate.lex_of_dayNumber_le {base : ℕ} {d e : CivilDate} (hd : base ≤ d.year)
    (he : base ≤ e.year) (h : d.dayNumber base ≤ e.dayNumber base) :
    d.year < e.year ∨ d.year = e.year ∧
      (d.month < e.month ∨ d.month = e.month ∧ d.day ≤ e.day) := by
  have hye : base + (e.year - base) = e.year := by omega
  have hlast := e.dayOfYear_lt
  rcases elapsed_lex (fun i => yearLength (base + i)) (by rwa [hye]) h with hlt | ⟨heq, hday⟩
  · exact Or.inl (by omega)
  · have hsame : d.year = e.year := by omega
    have hdp := d.day_pos
    have hep := e.day_pos
    have hel := e.day_le
    have hmp := d.month_pos
    have hnp := e.month_pos
    unfold CivilDate.dayOfYear at hday
    rw [hsame] at hday
    have hmonth := elapsed_lex (monthLength e.year) (by omega) hday
    exact Or.inr ⟨hsame, by omega⟩

/-- Two dates with one day number are the same date. -/
theorem CivilDate.dayNumber_inj {base : ℕ} {d e : CivilDate} (hd : base ≤ d.year)
    (he : base ≤ e.year) (h : d.dayNumber base = e.dayNumber base) : d = e := by
  have hle := CivilDate.lex_of_dayNumber_le hd he h.le
  have hge := CivilDate.lex_of_dayNumber_le he hd h.ge
  cases d
  cases e
  dsimp only at *
  simp only [CivilDate.mk.injEq]
  omega

/-- Every day number from the base year on belongs to a date. -/
theorem exists_date (base n : ℕ) : ∃ d : CivilDate, base ≤ d.year ∧ d.dayNumber base = n := by
  obtain ⟨k, r, hr, hn⟩ := exists_unit (fun i => yearLength (base + i))
    (fun i => by have := yearLength_bounds (base + i); omega) n
  obtain ⟨m, t, ht, hrt⟩ := exists_unit (monthLength (base + k))
    (fun i => by have := monthLength_bounds (base + k) i; omega) r
  have hm : m < 12 := by
    by_contra hge
    have hmono := elapsed_mono (monthLength (base + k)) (show 12 ≤ m by omega)
    rw [elapsed_monthLength] at hmono
    omega
  refine ⟨⟨base + k, m + 1, t + 1, by omega, by omega, by omega, by simpa using ht⟩, ?_, ?_⟩
  · simp
  · simp only [CivilDate.dayNumber, CivilDate.dayOfYear, Nat.add_sub_cancel_left,
      Nat.add_sub_cancel]
    omega

/-- Day of the week of a day number when day 0 falls on the given weekday. -/
def weekday (first n : ℕ) : ℕ := (n + first) % 7

end SmartHome.CountedCalendar
