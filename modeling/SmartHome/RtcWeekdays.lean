import SmartHome.RtcReadout

/-!
# The weekdays of successive dates

The weekday formula is right from 1970 to 2099, inside the range that its
comment allows. The counter reaches on to 2106, where the formula takes 2100
for 2000; there it skips a weekday at the two ends of its missing leap day.
-/

namespace SmartHome.RtcWeekdays

open MachineWords CountedCalendar TransitionRuns RtcDriver RtcReadout

/-- Years since 1900, or since 2000 minus 100 after the change of the century. -/
def yearL (year : ℕ) : ℕ :=
  if uint8_t (year / 100) > 19 then uint8_t (uint8_t (year % 100) + 100) else uint8_t (year % 100)

/-- The value of the weekday formula before the correction. -/
def uncorrected (flash : Flash) (year month day : ℕ) : ℕ :=
  uint16_t (uint16_t (yearL year + yearL year / 4) % 7 + day +
    tableAt table_week flash.aroundWeek (month - 1))

/-- The weekday that the driver computes for a date. -/
def driverWeekday (flash : Flash) (d : CivilDate) : ℕ :=
  (RTC_Get_Week flash d.year d.month d.day).1

/-- RTC_Get leaves the date in the calendar in some reachable state. -/
def Produced (flash : Flash) (d : CivilDate) : Prop :=
  ∃ s, Reachable PowerOn (step flash) s ∧
    (RTC_Get flash s).map (fun r => (r.1.calendar.w_year, r.1.calendar.w_month,
      r.1.calendar.w_date)) = some (d.year, d.month, d.day)

/-- One date is the day after the other. -/
def Next (d e : CivilDate) : Prop := e.dayNumber 1970 = d.dayNumber 1970 + 1

/-- The date of a year, a month and a day. -/
def dateOf (year month day : ℕ) (h : (1 ≤ month ∧ month ≤ 12) ∧
    1 ≤ day ∧ day ≤ monthLength year (month - 1)) : CivilDate :=
  ⟨year, month, day, h.1.1, h.1.2, h.2.1, h.2.2⟩

/-- The last day of the documented range. -/
def lastDay : CivilDate := dateOf 2099 12 31 (by decide)

/-- The day after the documented range. -/
def centuryDay : CivilDate := dateOf 2100 1 1 (by decide)

/-- The last day of February 2100, which the formula takes for a leap year. -/
def lastOfFebruary : CivilDate := dateOf 2100 2 28 (by decide)

/-- How far the formula has run ahead of the weekdays on a day. -/
def ahead (day : ℕ) : ℕ := (if 47482 ≤ day then 1 else 0) + if 47541 ≤ day then 1 else 0

/-! ### The correction -/

/-- In January and February of a leap year the formula subtracts one. -/
theorem driverWeekday_eq (flash : Flash) (d : CivilDate) :
    driverWeekday flash d =
      (if yearL d.year % 4 = 0 ∧ d.month < 3 then
        uint16_t (uncorrected flash d.year d.month d.day + 65535)
      else uncorrected flash d.year d.month d.day) % 7 := rfl

/-- There is something to subtract from. -/
theorem uncorrected_pos (flash : Flash) (d : CivilDate) :
    0 < uncorrected flash d.year d.month d.day := by
  obtain ⟨hm1, hm2, hd1, hd2⟩ := d.bounds
  have hindex : (d.month : ℤ) - 1 = ((d.month - 1 : ℕ) : ℤ) := by omega
  have htable := table_week_eq flash.aroundWeek (show d.month - 1 < 12 by omega)
  unfold uncorrected
  rw [hindex, htable]
  dsimp only [uint16_t]
  omega

/-! ### The dates of the counter -/

/-- The 32-bit counter ends in the year 2106. -/
theorem year_le_of_dayNumber {d : CivilDate} (hday : d.dayNumber 1970 ≤ 49710) :
    d.year ≤ 2106 := by
  by_contra hgt
  have hmono := elapsed_mono (fun i => yearLength (1970 + i)) (show 137 ≤ d.year - 1970 by omega)
  have hend : elapsed (fun i => yearLength (1970 + i)) 137 = 50038 := by decide +kernel
  unfold CivilDate.dayNumber at hday
  omega

/-- RTC_Get produces dates from 1970 to 2106. -/
theorem Produced.year_bounds {flash : Flash} {d : CivilDate} (hd : Produced flash d) :
    1970 ≤ d.year ∧ d.year ≤ 2106 := by
  obtain ⟨s, hs, hget⟩ := hd
  have hv := valid_of_reachable flash hs
  have hh := hv.high
  have hl := hv.low
  have hcount : s.CNTH * 65536 + s.CNTL < 4294967296 := by omega
  rw [RTC_Get_eq flash hh hl] at hget
  by_cases hu : s.Undecoded ∧ s.CNTH * 65536 + s.CNTL < 86400
  · obtain ⟨t, ht, ⟨-, -, hmonth, -⟩, -, -⟩ := getFrom_undecoded flash _ hu.1 hu.2
    rw [ht, Option.map_some, Option.some.injEq, Prod.mk.injEq, Prod.mk.injEq] at hget
    exact absurd (hmonth.symm.trans hget.2.1) (Nat.ne_of_lt d.month_pos)
  · obtain ⟨t, reads, ht, -, -, htime, -⟩ := getFrom_time flash hv hcount
    obtain ⟨e, hlo, hday, hfields⟩ := htime hu
    rw [ht, Option.map_some, Option.some.injEq, Prod.mk.injEq, Prod.mk.injEq] at hget
    have hyear : e.year = d.year := by
      rw [← hget.1]
      exact (List.cons.inj hfields).1.symm
    have hhi := year_le_of_dayNumber (d := e) (by omega)
    omega

/-! ### The weekdays after the documented range -/

/-- A century has 36525 days if it starts with a leap year. -/
theorem elapsed_century : ∀ k < 7,
    elapsed (fun i => yearLength (1970 + i)) (130 + k) + (if k = 0 then 0 else 1) =
      elapsed (fun i => yearLength (1970 + i)) (30 + k) + 36525 := by
  decide +kernel

/-- The months of 2000 to 2006 and of 2100 to 2106 differ in one leap day. -/
theorem elapsed_month_century : ∀ k < 7, ∀ m < 12,
    elapsed (monthLength (2000 + k)) m =
      elapsed (monthLength (2100 + k)) m + if k = 0 ∧ 2 ≤ m then 1 else 0 := by
  decide +kernel

/-- No month is shorter a century before. -/
theorem monthLength_century : ∀ k < 7, ∀ m < 12,
    monthLength (2100 + k) m ≤ monthLength (2000 + k) m := by
  decide +kernel

/-- Only January and February 2100 come before the formula's second slip. -/
theorem dayNumber_century {day k m r : ℕ}
    (hday : day = elapsed (fun i => yearLength (1970 + i)) (130 + k) +
      (elapsed (monthLength (2100 + k)) m + (r - 1))) (hr : r ≤ monthLength (2100 + k) m) :
    47482 ≤ day ∧ (47541 ≤ day ↔ ¬(k = 0 ∧ m < 2)) := by
  have hfirst : elapsed (fun i => yearLength (1970 + i)) 130 = 47482 := by decide +kernel
  have hsecond : elapsed (fun i => yearLength (1970 + i)) 131 = 47847 := by decide +kernel
  have hmarch : elapsed (monthLength 2100) 2 = 59 := by decide +kernel
  have hmono := elapsed_mono (fun i => yearLength (1970 + i)) (Nat.le_add_right 130 k)
  refine ⟨by omega, ?_⟩
  rcases Nat.eq_zero_or_pos k with rfl | hk
  · rcases Nat.lt_or_ge m 2 with hm | hm
    · have hnext := elapsed_mono (monthLength 2100) (Nat.succ_le_of_lt hm)
      have hsucc := elapsed_succ (monthLength 2100) m
      have hlength := monthLength_bounds 2100 m
      simp only [Nat.succ_eq_add_one, Nat.add_zero] at hday hr hnext
      omega
    · have hnext := elapsed_mono (monthLength 2100) hm
      simp only [Nat.add_zero] at hday
      omega
  · have hnext := elapsed_mono (fun i => yearLength (1970 + i)) (show 131 ≤ 130 + k by omega)
    omega

/-- The formula takes 2100 to 2106 for 2000 to 2006. -/
theorem driverWeekday_late (flash : Flash) {d : CivilDate} (hlo : 2100 ≤ d.year)
    (hhi : d.year ≤ 2106) :
    driverWeekday flash d = weekday 4 (d.dayNumber 1970 + ahead (d.dayNumber 1970)) := by
  obtain ⟨hm1, hm2, hd1, hd2⟩ := d.bounds
  obtain ⟨k, hk, hyear⟩ : ∃ k < 7, d.year = 2100 + k := ⟨d.year - 2100, by omega, by omega⟩
  have hday := d.day_le
  rw [hyear] at hday
  have hmonth := monthLength_century k hk (d.month - 1) (by omega)
  let e : CivilDate := ⟨2000 + k, d.month, d.day, hm1, hm2, hd1, hday.trans hmonth⟩
  have hsame : driverWeekday flash d = driverWeekday flash e := by
    have hyearL : yearL d.year = yearL e.year := by
      unfold yearL
      rw [hyear, if_pos (by dsimp only [uint8_t]; omega),
        if_pos (by dsimp only [uint8_t, e]; omega)]
      dsimp only [e]
      congr 3
      omega
    rw [driverWeekday_eq, driverWeekday_eq]
    unfold uncorrected
    rw [hyearL]
  have hweek : driverWeekday flash e = weekday 4 (e.dayNumber 1970) :=
    congrArg Prod.fst (RTC_Get_Week_eq flash e (show 1970 ≤ 2000 + k by omega)
      (show 2000 + k ≤ 2099 by omega))
  have hd : d.dayNumber 1970 = elapsed (fun i => yearLength (1970 + i)) (130 + k) +
      (elapsed (monthLength (2100 + k)) (d.month - 1) + (d.day - 1)) := by
    unfold CivilDate.dayNumber CivilDate.dayOfYear
    rw [hyear, show 2100 + k - 1970 = 130 + k by omega]
  have he : e.dayNumber 1970 = elapsed (fun i => yearLength (1970 + i)) (30 + k) +
      (elapsed (monthLength (2000 + k)) (d.month - 1) + (d.day - 1)) := by
    unfold CivilDate.dayNumber CivilDate.dayOfYear
    rw [show e.year = 2000 + k from rfl, show 2000 + k - 1970 = 30 + k by omega]
  have hyears := elapsed_century k hk
  have hmonths := elapsed_month_century k hk (d.month - 1) (by omega)
  have hahead : ahead (d.dayNumber 1970) = if k = 0 ∧ d.month < 3 then 1 else 2 := by
    have hbefore := dayNumber_century hd hday
    unfold ahead
    split_ifs <;> omega
  rw [hsame, hweek, hahead]
  unfold weekday
  split_ifs at hyears hmonths ⊢ <;> omega

/-- The formula is right until 2099 and runs ahead from 2100 on. -/
theorem driverWeekday_day (flash : Flash) {d : CivilDate} (hd : Produced flash d) :
    driverWeekday flash d = weekday 4 (d.dayNumber 1970 + ahead (d.dayNumber 1970)) := by
  obtain ⟨hlo, hhi⟩ := hd.year_bounds
  rcases Nat.lt_or_ge 2099 d.year with hlate | hrange
  · exact driverWeekday_late flash hlate hhi
  · have hday := congrArg Prod.fst (RTC_Get_Week_eq flash d hlo hrange)
    have hlt := dayNumber_lt hlo hrange
    have hahead : ahead (d.dayNumber 1970) = 0 := by
      unfold ahead
      rw [if_neg (by omega), if_neg (by omega)]
    rw [hahead]
    exact hday

/-- Dates from 1970 on are equal exactly if their day numbers are. -/
theorem eq_iff_dayNumber {d e : CivilDate} (hd : 1970 ≤ d.year) (he : 1970 ≤ e.year) :
    d = e ↔ d.dayNumber 1970 = e.dayNumber 1970 :=
  ⟨fun h => h ▸ rfl, CivilDate.dayNumber_inj hd he⟩

/-- The correction never subtracts from zero; from 1970 to 2099 the weekday is
that of the day count; and of the dates that RTC_Get produces only two are
followed by one without the next weekday. -/
theorem weekdays_of_dates (flash : Flash) :
    (∀ d : CivilDate, 0 < uncorrected flash d.year d.month d.day) ∧
      (∀ d : CivilDate, 1970 ≤ d.year → d.year ≤ 2099 →
        driverWeekday flash d = weekday 4 (d.dayNumber 1970)) ∧
      ∀ d e, Produced flash d → Produced flash e → Next d e →
        (driverWeekday flash e = (driverWeekday flash d + 1) % 7 ↔
          d ≠ lastDay ∧ d ≠ lastOfFebruary) := by
  refine ⟨uncorrected_pos flash,
    fun d hlo hhi => congrArg Prod.fst (RTC_Get_Week_eq flash d hlo hhi), fun d e hd he hnext => ?_⟩
  have hlo := hd.year_bounds.1
  have hlast : lastDay.dayNumber 1970 = 47481 := by decide +kernel
  have hfebruary : lastOfFebruary.dayNumber 1970 = 47540 := by decide +kernel
  rw [driverWeekday_day flash hd, driverWeekday_day flash he, hnext, Ne, Ne,
    eq_iff_dayNumber hlo (by decide), eq_iff_dayNumber hlo (by decide), hlast, hfebruary]
  unfold weekday ahead
  split_ifs <;> omega

/-- A leap day. -/
def leapDay : CivilDate := dateOf 2000 2 29 (by decide)

/-- RTC_Get produces the leap day and the day after it, a Wednesday. -/
theorem weekdays_of_leapDay :
    driverWeekday ⟨fun _ => 0, fun _ => 0⟩ (dateOf 2000 3 1 (by decide)) =
      (driverWeekday ⟨fun _ => 0, fun _ => 0⟩ leapDay + 1) % 7 := by
  have hleap : Reachable PowerOn (step ⟨fun _ => 0, fun _ => 0⟩)
      ⟨⟨0, 0, 0, 0, 0, 0, 0⟩, 0, 14523, 3072⟩ :=
    Reachable.of_init ⟨rfl, rfl, by decide, by decide⟩
  have hmarch : Reachable PowerOn (step ⟨fun _ => 0, fun _ => 0⟩)
      ⟨⟨0, 0, 0, 0, 0, 0, 0⟩, 0, 14524, 23936⟩ :=
    Reachable.of_init ⟨rfl, rfl, by decide, by decide⟩
  have hnext : (dateOf 2000 3 1 (by decide)).dayNumber 1970 = leapDay.dayNumber 1970 + 1 := by
    decide +kernel
  exact ((weekdays_of_dates _).2.2 leapDay _ ⟨_, hleap, by decide +kernel⟩
    ⟨_, hmarch, by decide +kernel⟩ hnext).mpr ⟨by decide, by decide⟩

/-- RTC_Get produces the last day of the range and the day after it, and the
weekday advances by two. -/
theorem not_next_after_lastDay :
    Produced ⟨fun _ => 0, fun _ => 0⟩ lastDay ∧ Produced ⟨fun _ => 0, fun _ => 0⟩ centuryDay ∧
      Next lastDay centuryDay ∧ driverWeekday ⟨fun _ => 0, fun _ => 0⟩ centuryDay ≠
        (driverWeekday ⟨fun _ => 0, fun _ => 0⟩ lastDay + 1) % 7 := by
  have hlast : Reachable PowerOn (step ⟨fun _ => 0, fun _ => 0⟩)
      ⟨⟨0, 0, 0, 0, 0, 0, 0⟩, 0, 62597, 1408⟩ :=
    Reachable.of_init ⟨rfl, rfl, by decide, by decide⟩
  have hcentury : Reachable PowerOn (step ⟨fun _ => 0, fun _ => 0⟩)
      ⟨⟨0, 0, 0, 0, 0, 0, 0⟩, 0, 62598, 22272⟩ :=
    Reachable.of_init ⟨rfl, rfl, by decide, by decide⟩
  have hnext : centuryDay.dayNumber 1970 = lastDay.dayNumber 1970 + 1 := by decide +kernel
  exact ⟨⟨_, hlast, by decide +kernel⟩, ⟨_, hcentury, by decide +kernel⟩, hnext,
    by decide +kernel⟩

end SmartHome.RtcWeekdays
