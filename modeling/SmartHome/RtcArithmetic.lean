import Mathlib.Tactic.IntervalCases
import SmartHome.RtcDriver

/-!
# Calendar arithmetic of the RTC driver

The encoder loops of RTC_Set and the two decoder loops of RTC_Get are
compared with the day count of the Gregorian calendar. The encoder is exact
Unix time for 1970..2099, the decoder inverts the day count wherever the
16-bit day cache can hold it, and the weekday formula agrees with the count.
-/

namespace SmartHome.RtcDriver

open MachineWords CountedCalendar

/-- The driver's leap-year test is the Gregorian rule. -/
theorem Is_Leap_Year_eq_one (year : ℕ) : Is_Leap_Year year = 1 ↔ IsLeap year := by
  unfold Is_Leap_Year IsLeap
  split_ifs <;> simp <;> omega

/-- The driver's test tells the two lengths of a year apart. -/
theorem yearLength_of_test {year : ℕ} (h : Is_Leap_Year year = 1) : yearLength year = 366 :=
  if_pos ((Is_Leap_Year_eq_one year).mp h)

theorem yearLength_of_not_test {year : ℕ} (h : ¬ Is_Leap_Year year = 1) : yearLength year = 365 :=
  if_neg (mt (Is_Leap_Year_eq_one year).mpr h)

/-- Inside the year the month table, with the leap day apart, is the calendar's. -/
theorem tableAt_mon_table (flash : Flash) {year m : ℕ} (hm : m < 12)
    (hleap : ¬(IsLeap year ∧ m = 1)) :
    tableAt mon_table flash.aroundMon m = monthLength year m := by
  interval_cases m <;> simp_all [tableAt, mon_table, monthLength]

/-- One turn of the year loop takes a whole year, if there is one left. -/
theorem yearLoop_succ (fuel temp year : ℕ) :
    yearLoop (fuel + 1) temp year =
      if yearLength year ≤ temp then yearLoop fuel (temp - yearLength year) (uint16_t (year + 1))
      else some (temp, year) := by
  rw [yearLoop]
  by_cases htest : Is_Leap_Year year = 1
  · rw [yearLength_of_test htest, if_pos htest]
    by_cases hyear : 366 ≤ temp
    · rw [if_pos hyear, if_pos (by omega)]
    · rw [if_neg hyear, ite_self]
  · rw [yearLength_of_not_test htest, if_neg htest]

/-- The year loop ends in the year that holds the day, with the days left in it. -/
theorem yearLoop_eq {fuel temp year j r : ℕ} (hj : year ≤ j) (hj' : j < 65536)
    (hfuel : j - year < fuel) (hr : r < yearLength j)
    (hn : elapsed yearLength year + temp = elapsed yearLength j + r) :
    yearLoop fuel temp year = some (r, j) := by
  induction fuel generalizing temp year with
  | zero => omega
  | succ fuel ih =>
    rw [yearLoop_succ]
    rcases Nat.eq_or_lt_of_le hj with heq | hlt
    · subst heq
      have htr : temp = r := by omega
      rw [htr, if_neg (Nat.not_le.mpr hr)]
    · have hs := elapsed_succ yearLength year
      have hm : elapsed yearLength (year + 1) ≤ elapsed yearLength j := elapsed_mono yearLength hlt
      have hwrap : uint16_t (year + 1) = year + 1 := Nat.mod_eq_of_lt (by omega)
      rw [if_pos (by omega), hwrap]
      exact ih hlt (by omega) (by omega)

/-- One turn of the month loop takes a whole month, if there is one left, and
reads no other element of the table than that of the month. -/
theorem monthLoop_succ (flash : Flash) (year : ℕ) {m : ℕ} (hm : m < 12) (fuel temp : ℕ)
    (reads : List TableRead) :
    ∃ more, (∀ x ∈ more, x ∈ reads ∨ x = .mon_table m) ∧
      monthLoop flash year (fuel + 1) temp m reads =
        if monthLength year m ≤ temp then
          monthLoop flash year fuel (temp - monthLength year m) (uint16_t (m + 1)) more
        else some (temp, m, more) := by
  have hleap := Is_Leap_Year_eq_one year
  have hb := monthLength_bounds year m
  have hmore : ∀ x ∈ reads ++ [.mon_table m], x ∈ reads ∨ x = .mon_table m := by
    intro x hx
    exact (List.mem_append.mp hx).imp_right List.mem_singleton.mp
  rw [monthLoop]
  by_cases hf : IsLeap year ∧ m = 1
  · have hlen : monthLength year m = 29 := by
      rw [hf.2]
      exact if_pos hf.1
    have htest : Is_Leap_Year year = 1 ∧ m = 1 := ⟨hleap.mpr hf.1, hf.2⟩
    refine ⟨reads, fun x hx => Or.inl hx, ?_⟩
    rw [hlen, if_pos htest]
    by_cases hmonth : 29 ≤ temp
    · rw [if_pos hmonth, if_pos (by omega)]
    · rw [if_neg hmonth, ite_self]
  · have hd := tableAt_mon_table flash hm hf
    have htest : ¬ (Is_Leap_Year year = 1 ∧ m = 1) := fun h => hf ⟨hleap.mp h.1, h.2⟩
    rw [if_neg htest]
    dsimp only
    rw [hd]
    by_cases hmonth : monthLength year m ≤ temp
    · refine ⟨reads ++ [.mon_table m] ++ [.mon_table m], fun x hx => ?_, ?_⟩
      · cases List.mem_append.mp hx with
        | inl h => exact hmore x h
        | inr h => exact Or.inr (List.mem_singleton.mp h)
      · rw [if_pos hmonth, if_pos hmonth, if_pos (hb.1.trans hmonth)]
    · by_cases h28 : 28 ≤ temp
      · refine ⟨reads ++ [.mon_table m], hmore, ?_⟩
        rw [if_neg hmonth, if_neg hmonth, if_pos h28]
      · refine ⟨reads, fun x hx => Or.inl hx, ?_⟩
        rw [if_neg hmonth, if_neg hmonth, if_neg h28]

/-- The month loop ends in the month that holds the day and reads only the
month table, inside its bounds. -/
theorem monthLoop_eq (flash : Flash) {year temp m j r : ℕ} (fuel : ℕ) (reads : List TableRead)
    (hj : m ≤ j) (hj' : j < 12) (hfuel : j - m < fuel) (hr : r < monthLength year j)
    (hn : elapsed (monthLength year) m + temp = elapsed (monthLength year) j + r) :
    ∃ more, monthLoop flash year fuel temp m reads = some (r, j, more) ∧
      ∀ x ∈ more, x ∈ reads ∨ ∃ i < 12, x = .mon_table (i : ℕ) := by
  induction fuel generalizing temp m reads with
  | zero => omega
  | succ fuel ih =>
    have hm12 : m < 12 := by omega
    obtain ⟨turn, hturn, hloop⟩ := monthLoop_succ flash year hm12 fuel temp reads
    have hread : ∀ x ∈ turn, x ∈ reads ∨ ∃ i < 12, x = .mon_table (i : ℕ) := fun x hx =>
      (hturn x hx).imp_right fun h => ⟨m, hm12, h⟩
    rw [hloop]
    rcases Nat.eq_or_lt_of_le hj with heq | hlt
    · subst heq
      have htr : temp = r := by omega
      rw [htr, if_neg (Nat.not_le.mpr hr)]
      exact ⟨turn, rfl, hread⟩
    · have hs := elapsed_succ (monthLength year) m
      have hm : elapsed (monthLength year) (m + 1) ≤ elapsed (monthLength year) j :=
        elapsed_mono (monthLength year) hlt
      have hwrap : uint16_t (m + 1) = m + 1 := Nat.mod_eq_of_lt (by omega)
      rw [if_pos (by omega), hwrap]
      have hnext : elapsed (monthLength year) (m + 1) + (temp - monthLength year m) =
          elapsed (monthLength year) j + r := by omega
      obtain ⟨more, hmore, hsub⟩ := ih turn hlt (by omega) hnext
      refine ⟨more, hmore, fun x hx => ?_⟩
      cases hsub x hx with
      | inl h => exact hread x h
      | inr h => exact Or.inr h

/-- Seconds of the whole years before syear, as long as they are counted. -/
theorem yearSeconds_eq (k : ℕ) :
    yearSeconds (1970 + k) = uint32_t (elapsed (fun i => yearLength (1970 + i)) k * 86400) := by
  unfold yearSeconds
  rw [Nat.add_sub_cancel_left]
  induction k with
  | zero => simp
  | succ k ih =>
    rw [List.range'_1_concat, List.foldl_append, ih, elapsed_succ]
    simp only [List.foldl_cons, List.foldl_nil]
    by_cases htest : Is_Leap_Year (1970 + k) = 1
    · rw [if_pos htest, yearLength_of_test htest]
      dsimp only [uint32_t]
      omega
    · rw [if_neg htest, yearLength_of_not_test htest]
      dsimp only [uint32_t]
      omega

/-- Seconds of the first m months are added with 32-bit wrap-around only. -/
theorem monthSeconds_eq (flash : Flash) (year seccount : ℕ) {m : ℕ} (hm : m ≤ 12) :
    monthSeconds flash year m (uint32_t seccount) =
      uint32_t (seccount + elapsed (monthLength year) m * 86400) := by
  unfold monthSeconds
  induction m with
  | zero => simp
  | succ m ih =>
    rw [List.range_succ, List.foldl_append, ih (by omega), elapsed_succ]
    have hleap := Is_Leap_Year_eq_one year
    simp only [List.foldl_cons, List.foldl_nil]
    by_cases hf : IsLeap year ∧ m = 1
    · obtain ⟨hl, rfl⟩ := hf
      have hlen : monthLength year 1 = 29 := if_pos hl
      have ht : tableAt mon_table flash.aroundMon ((1 : ℕ) : ℤ) = 28 := rfl
      rw [if_pos ⟨hleap.mpr hl, rfl⟩, hlen, ht]
      dsimp only [uint32_t]
      omega
    · have hd := tableAt_mon_table flash (by omega : m < 12) hf
      rw [if_neg (fun h => hf ⟨hleap.mp h.1, h.2⟩), hd]
      dsimp only [uint32_t]
      omega

/-- Up to 2100 every fourth year from 1972 on is a leap year. -/
theorem elapsed_years {k : ℕ} (hk : k ≤ 130) :
    elapsed (fun i => yearLength (1970 + i)) k = 365 * k + (k + 1) / 4 := by
  induction k with
  | zero => simp
  | succ k ih =>
    have hlen : yearLength (1970 + k) = if IsLeap (1970 + k) then 366 else 365 := rfl
    rw [elapsed_succ, ih (by omega)]
    by_cases hl : IsLeap (1970 + k)
    · rw [if_pos hl] at hlen
      have := hl.1
      omega
    · rw [if_neg hl] at hlen
      unfold IsLeap at hl
      omega

/-- The driver's calendar range is 47482 days long. -/
theorem dayNumber_lt {d : CivilDate} (hlo : 1970 ≤ d.year) (hhi : d.year ≤ 2099) :
    d.dayNumber 1970 < 47482 := by
  have hs := elapsed_succ (fun i => yearLength (1970 + i)) (d.year - 1970)
  have hm := elapsed_mono (fun i => yearLength (1970 + i)) (show d.year - 1970 + 1 ≤ 130 by omega)
  have he := elapsed_years (k := 130) le_rfl
  have hd := d.dayOfYear_lt
  rw [show 1970 + (d.year - 1970) = d.year by omega] at hs
  unfold CivilDate.dayNumber
  omega

/-- RTC_Set's second counter is exact Unix time, with no wrap-around. -/
theorem secondsOf_eq (flash : Flash) (d : CivilDate) {hour min sec : ℕ}
    (hlo : 1970 ≤ d.year) (hhi : d.year ≤ 2099) (hh : hour < 24) (hm : min < 60) (hsec : sec < 60) :
    secondsOf flash d.year d.month d.day hour min sec =
      (d.dayNumber 1970 * 86400 + hour * 3600 + min * 60 + sec,
        (List.range (d.month - 1)).map fun (t : ℕ) => .mon_table t) := by
  obtain ⟨hm1, hm2, hd1, hd2⟩ := d.bounds
  have hmon : uint8_t (d.month + 255) = d.month - 1 := by dsimp only [uint8_t]; omega
  have hy := yearSeconds_eq (d.year - 1970)
  rw [show 1970 + (d.year - 1970) = d.year by omega] at hy
  have hn := dayNumber_lt hlo hhi
  have hnum : d.dayNumber 1970 = elapsed (fun i => yearLength (1970 + i)) (d.year - 1970) +
      (elapsed (monthLength d.year) (d.month - 1) + (d.day - 1)) := rfl
  unfold secondsOf
  dsimp only
  rw [hmon, hy, monthSeconds_eq flash d.year _ (by omega)]
  refine Prod.ext ?_ rfl
  dsimp only [uint32_t]
  omega

/-- Days of a common year before each month. -/
def daysBefore : List ℕ := [0, 31, 59, 90, 120, 151, 181, 212, 243, 273, 304, 334]

/-- The table goes on by the length of a month. -/
theorem daysBefore_succ (year : ℕ) {m : ℕ} (hm : m < 11) :
    daysBefore.getD (m + 1) 0 + (if IsLeap year ∧ 2 ≤ m + 1 then 1 else 0) =
      daysBefore.getD m 0 + (if IsLeap year ∧ 2 ≤ m then 1 else 0) + monthLength year m := by
  by_cases h : IsLeap year
  · simp only [h, true_and]
    interval_cases m <;> simp [daysBefore, monthLength, h]
  · simp only [h, false_and]
    interval_cases m <;> simp [daysBefore, monthLength, h]

/-- Days of a year before each month; the leap day counts from March on. -/
theorem elapsed_month_table (year : ℕ) {m : ℕ} (hm : m < 12) :
    elapsed (monthLength year) m =
      daysBefore.getD m 0 + if IsLeap year ∧ 2 ≤ m then 1 else 0 := by
  induction m with
  | zero =>
    rw [elapsed_zero, if_neg (fun h => absurd h.2 (by decide))]
    rfl
  | succ m ih => rw [elapsed_succ, ih (by omega), daysBefore_succ year (by omega)]

/-- Each month correction is the number of earlier days modulo a week. -/
theorem table_week_eq (around : ℤ → ℕ) {m : ℕ} (hm : m < 12) :
    tableAt table_week around m = daysBefore.getD m 0 % 7 := by
  interval_cases m <;> rfl

/-- Years counted from 1900 advance the weekday by one day each and by one
more in each leap year; k counts them from 1970. -/
theorem weekday_of_year {k day c before : ℕ} (hday : 1 ≤ day) (hc : c = before % 7) :
    ((k + 70 + (k + 70) / 4) % 7 + day + c) % 7 =
      (365 * k + (k + 1) / 4 + (before + (day - 1)) + 4 +
        if (k + 70) % 4 = 0 then 1 else 0) % 7 := by
  obtain ⟨q, r, hr, rfl⟩ : ∃ q r, r < 4 ∧ k = 4 * q + r :=
    ⟨k / 4, k % 4, Nat.mod_lt _ (by omega), by omega⟩
  interval_cases r <;> split <;> omega

/-- The weekday formula is right for every date of the driver's range, and
reads one element of its table. -/
theorem RTC_Get_Week_eq (flash : Flash) (d : CivilDate) (hlo : 1970 ≤ d.year)
    (hhi : d.year ≤ 2099) :
    RTC_Get_Week flash d.year d.month d.day =
      (weekday 4 (d.dayNumber 1970), [.table_week ((d.month - 1 : ℕ) : ℤ)]) := by
  obtain ⟨hm1, hm2, hd1, hd2⟩ := d.bounds
  obtain ⟨k, hk⟩ : ∃ k, d.year = 1970 + k := ⟨d.year - 1970, by omega⟩
  have hk129 : k ≤ 129 := by omega
  have hyear : (if uint8_t ((1970 + k) / 100) > 19 then uint8_t (uint8_t ((1970 + k) % 100) + 100)
      else uint8_t ((1970 + k) % 100)) = k + 70 := by
    dsimp only [uint8_t]
    split <;> omega
  have hindex : (d.month : ℤ) - 1 = ((d.month - 1 : ℕ) : ℤ) := by omega
  have hleap : IsLeap (1970 + k) ↔ (k + 70) % 4 = 0 := by unfold IsLeap; omega
  have hy := elapsed_years (k := k) (by omega)
  have hmo := elapsed_month_table (1970 + k) (show d.month - 1 < 12 by omega)
  have hw := table_week_eq flash.aroundWeek (show d.month - 1 < 12 by omega)
  have hsum := weekday_of_year (k := k) hd1 hw
  have hnum : d.dayNumber 1970 = elapsed (fun i => yearLength (1970 + i)) k +
      (elapsed (monthLength (1970 + k)) (d.month - 1) + (d.day - 1)) := by
    simp only [CivilDate.dayNumber, CivilDate.dayOfYear, hk, Nat.add_sub_cancel_left]
  have hc : tableAt table_week flash.aroundWeek ((d.month - 1 : ℕ) : ℤ) < 7 := by
    rw [hw]
    omega
  have hyears : (k + 70 + (k + 70) / 4) % 7 < 7 := Nat.mod_lt _ (by decide)
  have hsmall : uint16_t (k + 70 + (k + 70) / 4) = k + 70 + (k + 70) / 4 := by
    dsimp only [uint16_t]
    omega
  have hfit : uint16_t ((k + 70 + (k + 70) / 4) % 7 + d.day +
      tableAt table_week flash.aroundWeek ((d.month - 1 : ℕ) : ℤ)) =
      (k + 70 + (k + 70) / 4) % 7 + d.day +
        tableAt table_week flash.aroundWeek ((d.month - 1 : ℕ) : ℤ) := Nat.mod_eq_of_lt (by omega)
  rw [← hy] at hsum
  unfold RTC_Get_Week
  dsimp only
  rw [hnum, hk, hyear, hindex, hsmall, hfit, hmo]
  refine Prod.ext ?_ rfl
  -- the formula takes the leap day back in January and February, the count adds it from March on
  simp only [weekday, uint16_t, hleap]
  generalize (k + 70 + (k + 70) / 4) % 7 = years at *
  generalize elapsed (fun i => yearLength (1970 + i)) k = before at *
  by_cases hl : (k + 70) % 4 = 0
  · rw [if_pos hl] at hsum
    by_cases hm : d.month < 3
    · rw [if_pos ⟨hl, hm⟩, if_neg (by omega)]
      omega
    · rw [if_neg (fun h => hm h.2), if_pos ⟨hl, by omega⟩]
      omega
  · rw [if_neg hl] at hsum
    rw [if_neg (fun h => hl h.1), if_neg (fun h => hl h.1)]
    omega

end SmartHome.RtcDriver
