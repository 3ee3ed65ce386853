import SmartHome.RtcReadout

/-!
# The counter and the calendar

For every 32-bit counter value that starts a new day, RTC_Get decodes the
Gregorian date and the time of the day. RTC_Set and RTC_Alarm_Set encode a
real moment as the seconds since the epoch, in the order of time.
-/

namespace SmartHome.RtcUnixTime

open MachineWords CountedCalendar RtcDriver RtcReadout

/-- The calendar shows a counter value. -/
structure Decodes (count : ℕ) (t : Driver) : Prop where
  /-- The date is a Gregorian one, so many days after the epoch. -/
  date : ∃ d : CivilDate, 1970 ≤ d.year ∧ d.dayNumber 1970 = count / 86400 ∧
    t.calendar.w_year = d.year ∧ t.calendar.w_month = d.month ∧ t.calendar.w_date = d.day
  hour : t.calendar.hour = count % 86400 / 3600
  min : t.calendar.min = count % 86400 % 3600 / 60
  sec : t.calendar.sec = count % 86400 % 3600 % 60

/-- The registers with a counter value. -/
def withCount (s : Driver) (count : ℕ) : Driver :=
  { s with CNTH := count / 65536, CNTL := count % 65536 }

/-- Value of the alarm registers. -/
def alarmCounter (a : Alarm) : ℕ := a.ALRH * 65536 + a.ALRL

/-- Seconds from the epoch to a moment. -/
def unixTime (m : Moment) : ℕ := m.toCivilDate.dayNumber 1970 * 86400 + m.second

/-- The fields of a moment in the order of their weight. -/
def fields (m : Moment) : List ℕ := [m.year, m.month, m.day, m.hour, m.min, m.sec]

/-! ### Decoding -/

/-- RTC_Get reads a counter value back from its registers. -/
theorem RTC_Get_withCount (flash : Flash) (s : Driver) {count : ℕ} (hcount : count < 4294967296) :
    RTC_Get flash (withCount s count) = getFrom flash (withCount s count) count := by
  have hsplit : count / 65536 * 65536 + count % 65536 = count := by omega
  have hget := RTC_Get_eq flash (s := withCount s count) (show count / 65536 < 65536 by omega)
    (Nat.mod_lt count (by decide))
  exact hget.trans (congrArg (getFrom flash _) hsplit)

/-- On a new day RTC_Get returns with the date and time of the counter value in
the calendar, and reads the month table inside its bounds. -/
theorem RTC_Get_decodes (flash : Flash) (s : Driver) (count : UInt32)
    (hday : s.daycnt ≠ count.toNat / 86400) :
    ∃ t reads, RTC_Get flash (withCount s count.toNat) = some (t, reads) ∧
      Decodes count.toNat t ∧ ∀ i, .mon_table i ∈ reads → 0 ≤ i ∧ i < 12 := by
  have hcount := count.toNat_lt
  obtain ⟨d, hlo, hd⟩ := exists_date 1970 (count.toNat / 86400)
  have hsplit : d.dayNumber 1970 * 86400 + count.toNat % 86400 = count.toNat := by omega
  obtain ⟨reads, hget, hreads⟩ := getFrom_eq flash (withCount s count.toNat)
    (count.toNat % 86400) hlo (Nat.mod_lt _ (by decide)) (by omega) (Or.inl (hd ▸ hday))
  rw [hsplit] at hget
  refine ⟨_, reads, (RTC_Get_withCount flash s hcount).trans hget,
    ⟨⟨d, hlo, hd, rfl, rfl, rfl⟩, rfl, rfl, rfl⟩, fun i hi => ?_⟩
  rcases hreads _ hi with ⟨m, hm, hx⟩ | hx
  · cases hx
    omega
  · cases hx

/-- The counter value right after the leap day of a century year. -/
theorem RTC_Get_decodes_century : ∃ t reads,
    RTC_Get ⟨fun _ => 0, fun _ => 0⟩ (withCount powerOn 951868800) = some (t, reads) ∧
      Decodes 951868800 t ∧ ∀ i, .mon_table i ∈ reads → 0 ≤ i ∧ i < 12 :=
  RTC_Get_decodes ⟨fun _ => 0, fun _ => 0⟩ powerOn 951868800 (by decide)

/-- RTC_Get returns for every state of the cache, leaves the registers and
reads the month table inside its bounds. -/
theorem getFrom_returns (flash : Flash) (s : Driver) {count : ℕ} (hcount : count < 4294967296) :
    ∃ t reads, getFrom flash s count = some (t, reads) ∧ t.CNTH = s.CNTH ∧ t.CNTL = s.CNTL ∧
      ∀ i, .mon_table i ∈ reads → 0 ≤ i ∧ i < 12 := by
  by_cases hday : s.daycnt = count / 86400
  · unfold getFrom
    dsimp only
    rw [if_neg (not_not.mpr hday)]
    refine ⟨_, _, rfl, rfl, rfl, fun i hi => ?_⟩
    rw [List.nil_append, RTC_Get_Week_reads, List.mem_singleton] at hi
    cases hi
  · obtain ⟨d, hlo, hd⟩ := exists_date 1970 (count / 86400)
    have hsplit : d.dayNumber 1970 * 86400 + count % 86400 = count := by omega
    obtain ⟨reads, hget, hreads⟩ := getFrom_eq flash s (count % 86400) hlo
      (Nat.mod_lt _ (by decide)) (by omega) (Or.inl (hd ▸ hday))
    rw [hsplit] at hget
    refine ⟨_, reads, hget, rfl, rfl, fun i hi => ?_⟩
    rcases hreads _ hi with ⟨m, hm, hx⟩ | hx
    · cases hx
      omega
    · cases hx

/-! ### Encoding -/

/-- In a year of its range RTC_Set writes its sum to the counter registers. The
reads are those of the sum and some inside the month table. -/
theorem RTC_Set_returns (flash : Flash) (s : Driver) {syear : ℕ} (smon sday hour min sec : ℕ)
    (hlo : 1970 ≤ syear) (hhi : syear ≤ 2099) :
    ∃ t more, RTC_Set flash s syear smon sday hour min sec =
        some (0, t, (secondsOf flash syear smon sday hour min sec).2 ++ more) ∧
      counter t = (secondsOf flash syear smon sday hour min sec).1 ∧
      t.CNTH < 65536 ∧ t.CNTL < 65536 ∧ ∀ i, .mon_table i ∈ more → 0 ≤ i ∧ i < 12 := by
  have hlt := secondsOf_lt flash syear smon sday hour min sec
  obtain ⟨t, more, hget, hth, htl, hmore⟩ := getFrom_returns flash
    (withCount s (secondsOf flash syear smon sday hour min sec).1) hlt
  rw [← RTC_Get_withCount flash s hlt] at hget
  have hhigh : t.CNTH = (secondsOf flash syear smon sday hour min sec).1 / 65536 := hth
  have hlow : t.CNTL = (secondsOf flash syear smon sday hour min sec).1 % 65536 := htl
  refine ⟨t, more, ?_, ?_, by omega, by omega, hmore⟩
  · unfold RTC_Set
    rw [if_neg (by omega)]
    exact congrArg (Option.map _) hget
  · unfold counter
    omega

/-- In a year of its range RTC_Alarm_Set writes the same sum to its registers. -/
theorem RTC_Alarm_Set_returns (flash : Flash) (a : Alarm) {syear : ℕ}
    (smon sday hour min sec : ℕ) (hlo : 1970 ≤ syear) (hhi : syear ≤ 2099) :
    ∃ b, RTC_Alarm_Set flash a syear smon sday hour min sec =
        (0, b, (secondsOf flash syear smon sday hour min sec).2) ∧
      alarmCounter b = (secondsOf flash syear smon sday hour min sec).1 ∧
      b.ALRH < 65536 ∧ b.ALRL < 65536 := by
  have hlt := secondsOf_lt flash syear smon sday hour min sec
  have hhigh : (secondsOf flash syear smon sday hour min sec).1 / 65536 < 65536 := by omega
  have hsplit : (secondsOf flash syear smon sday hour min sec).1 / 65536 * 65536 +
      (secondsOf flash syear smon sday hour min sec).1 % 65536 =
        (secondsOf flash syear smon sday hour min sec).1 := by omega
  unfold RTC_Alarm_Set
  rw [if_neg (by omega)]
  exact ⟨_, rfl, hsplit, hhigh, Nat.mod_lt _ (by decide)⟩

/-- The sum for a real moment is its time since the epoch. -/
theorem secondsOf_moment (flash : Flash) (m : Moment) :
    (secondsOf flash m.year m.month m.day m.hour m.min m.sec).1 = unixTime m := by
  rw [secondsOf_eq flash m.toCivilDate m.year_ge m.year_le m.hour_lt m.min_lt m.sec_lt]
  unfold unixTime Moment.second
  dsimp only
  omega

theorem second_lt (m : Moment) : m.second < 86400 := by
  have hhour := m.hour_lt
  have hmin := m.min_lt
  have hsec := m.sec_lt
  unfold Moment.second
  omega

/-- Later moments have later counter values. -/
theorem unixTime_lt {m m' : Moment} (h : fields m < fields m') : unixTime m < unixTime m' := by
  by_contra hle
  have hsecond := second_lt m
  have hsecond' := second_lt m'
  have hmin := m.min_lt
  have hmin' := m'.min_lt
  have hsec := m.sec_lt
  have hsec' := m'.sec_lt
  unfold unixTime at hle
  have hdays : m'.toCivilDate.dayNumber 1970 ≤ m.toCivilDate.dayNumber 1970 := by omega
  have hdate := CivilDate.lex_of_dayNumber_le m'.year_ge m.year_ge hdays
  simp only [fields, List.cons_lt_cons_iff, List.not_lt_nil, and_false, or_false] at h
  -- the dates are the same then, and the order is that of the times of the day
  have hsame : m.toCivilDate.dayNumber 1970 = m'.toCivilDate.dayNumber 1970 := by
    unfold CivilDate.dayNumber CivilDate.dayOfYear
    rw [show m.year = m'.year by omega, show m.month = m'.month by omega,
      show m.day = m'.day by omega]
  unfold Moment.second at hle
  omega

/-- For every real moment RTC_Set and RTC_Alarm_Set write the seconds since the
epoch, which fit into 32 bits and grow with the moment. -/
theorem RTC_Set_unixTime (flash : Flash) (s : Driver) (a : Alarm) (m : Moment) :
    (∃ t reads, RTC_Set flash s m.year m.month m.day m.hour m.min m.sec = some (0, t, reads) ∧
      counter t = unixTime m ∧ t.CNTH < 65536 ∧ t.CNTL < 65536) ∧
    (∃ b reads, RTC_Alarm_Set flash a m.year m.month m.day m.hour m.min m.sec = (0, b, reads) ∧
      alarmCounter b = unixTime m ∧ b.ALRH < 65536 ∧ b.ALRL < 65536) ∧
    unixTime m < 4294967296 ∧ ∀ m', fields m < fields m' → unixTime m < unixTime m' := by
  obtain ⟨t, more, hset, hcount, hth, htl, -⟩ := RTC_Set_returns flash s m.month m.day m.hour m.min
    m.sec m.year_ge m.year_le
  obtain ⟨b, halarm, hprogrammed, hbh, hbl⟩ := RTC_Alarm_Set_returns flash a m.month m.day m.hour
    m.min m.sec m.year_ge m.year_le
  have hsum := secondsOf_moment flash m
  refine ⟨⟨t, _, hset, hcount.trans hsum, hth, htl⟩,
    ⟨b, _, halarm, hprogrammed.trans hsum, hbh, hbl⟩, ?_, fun m' => unixTime_lt⟩
  rw [← hsum]
  exact secondsOf_lt flash m.year m.month m.day m.hour m.min m.sec

end SmartHome.RtcUnixTime
