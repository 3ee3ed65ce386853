import SmartHome.RtcArithmetic

/-!
# The round trip of RTC_Set and RTC_Get

RTC_Get decodes a day only when it differs from the cached one. The coherence
of calendar and cache is an invariant of the driver from power-on; the cache
value at power-on equals a real day number, and the two cases are separated
here. Every argument tuple of RTC_Set is allowed in the earlier calls, also
those that are no date.
-/

namespace SmartHome.RtcDriver

open MachineWords CountedCalendar TransitionRuns

/-- The cached day has been decoded into the calendar as this date. -/
structure Driver.Shows (s : Driver) (d : CivilDate) : Prop where
  year_ge : 1970 ≤ d.year
  cached : s.daycnt = d.dayNumber 1970
  year : s.calendar.w_year = d.year
  month : s.calendar.w_month = d.month
  date : s.calendar.w_date = d.day

/-- No day has been decoded since power-on: cache and date are still zero. -/
def Driver.Undecoded (s : Driver) : Prop :=
  s.daycnt = 0 ∧ s.calendar.w_year = 0 ∧ s.calendar.w_month = 0 ∧ s.calendar.w_date = 0

/-- The counter registers are 16 bits wide and the calendar's date is that of
the cached day, unless no day has been decoded yet. -/
structure Driver.Valid (s : Driver) : Prop where
  high : s.CNTH < 65536
  low : s.CNTL < 65536
  dated : s.Undecoded ∨ ∃ d, s.Shows d

/-- Coherence of calendar and cache depends on these two components only. -/
theorem Driver.dated_congr {s t : Driver} (hcal : t.calendar = s.calendar)
    (hday : t.daycnt = s.daycnt) (h : s.Undecoded ∨ ∃ d, s.Shows d) :
    t.Undecoded ∨ ∃ d, t.Shows d := by
  rcases h with hu | ⟨d, hd⟩
  · exact Or.inl (by unfold Driver.Undecoded at *; rwa [hcal, hday])
  · exact Or.inr ⟨d, hd.year_ge, hday ▸ hd.cached, hcal ▸ hd.year, hcal ▸ hd.month, hcal ▸ hd.date⟩

/-- The weekday formula reads the month table once, at the month minus one. -/
theorem RTC_Get_Week_reads (flash : Flash) (year month day : ℕ) :
    (RTC_Get_Week flash year month day).2 = [.table_week ((month : ℤ) - 1)] := rfl

/-- Every day number that fits the cache is decoded to its own date. -/
theorem decodeDay_eq (flash : Flash) (s : Driver) {d : CivilDate} (hlo : 1970 ≤ d.year)
    (hn : d.dayNumber 1970 < 65536) :
    ∃ reads, decodeDay flash s (d.dayNumber 1970) =
        some ({ s with calendar := { s.calendar with
          w_year := d.year, w_month := d.month, w_date := d.day } }, reads) ∧
      ∀ x ∈ reads, ∃ i < 12, x = .mon_table (i : ℕ) := by
  obtain ⟨hm1, hm2, hd1, hd2⟩ := d.bounds
  have hday := d.day_le
  have hyears := mul_le_elapsed (fun i => yearLength (1970 + i))
    (fun i => (yearLength_bounds _).1) (d.year - 1970)
  have hmonths := mul_le_elapsed (monthLength d.year)
    (fun i => (monthLength_bounds d.year i).1) (d.month - 1)
  have hshift := elapsed_add yearLength 1970 (d.year - 1970)
  rw [show 1970 + (d.year - 1970) = d.year by omega] at hshift
  have hnum : d.dayNumber 1970 =
      elapsed (fun i => yearLength (1970 + i)) (d.year - 1970) + d.dayOfYear := rfl
  have hdoy : d.dayOfYear = elapsed (monthLength d.year) (d.month - 1) + (d.day - 1) := rfl
  have hy : yearLoop (d.dayNumber 1970 + 1) (d.dayNumber 1970) 1970 = some (d.dayOfYear, d.year) :=
    yearLoop_eq hlo (by omega) (by omega) d.dayOfYear_lt (by omega)
  have hstart : elapsed (monthLength d.year) 0 + d.dayOfYear =
      elapsed (monthLength d.year) (d.month - 1) + (d.day - 1) := by rw [elapsed_zero]; omega
  obtain ⟨reads, hm, hreads⟩ := monthLoop_eq flash (d.dayOfYear + 1) [] (Nat.zero_le _)
    (by omega) (by omega) (by omega) hstart
  refine ⟨reads, ?_, fun x h => (hreads x h).resolve_left List.not_mem_nil⟩
  have hmonth : uint8_t (d.month - 1 + 1) = d.month := by dsimp only [uint8_t]; omega
  have hdate : uint8_t (d.day - 1 + 1) = d.day := by dsimp only [uint8_t]; omega
  unfold decodeDay
  rw [hy, Option.bind_some]
  dsimp only
  rw [hm, Option.map_some]
  dsimp only
  rw [hmonth, hdate]

/-- The state RTC_Get leaves for a date and a second of the day. -/
def Driver.showing (s : Driver) (d : CivilDate) (second week : ℕ) : Driver :=
  { s with daycnt := d.dayNumber 1970,
           calendar := ⟨second / 3600, second % 3600 / 60, second % 3600 % 60,
             d.year, d.month, d.day, week⟩ }

theorem Driver.showing_shows (s : Driver) {d : CivilDate} (second week : ℕ) (h : 1970 ≤ d.year) :
    (s.showing d second week).Shows d := ⟨h, rfl, rfl, rfl, rfl⟩

theorem Driver.showing_valid {s : Driver} (hh : s.CNTH < 65536) (hl : s.CNTL < 65536)
    {d : CivilDate} (second week : ℕ) (h : 1970 ≤ d.year) : (s.showing d second week).Valid :=
  ⟨hh, hl, Or.inr ⟨d, s.showing_shows second week h⟩⟩

/-- Once the calendar can be trusted for the cached day, or the day differs
from the cached one, RTC_Get shows the counter's own date and time. -/
theorem getFrom_eq (flash : Flash) (s : Driver) {d : CivilDate} (second : ℕ)
    (hlo : 1970 ≤ d.year) (hsec : second < 86400)
    (hn : d.dayNumber 1970 * 86400 + second < 4294967296)
    (hcache : s.daycnt ≠ d.dayNumber 1970 ∨ s.Shows d) :
    ∃ reads, getFrom flash s (d.dayNumber 1970 * 86400 + second) =
        some (s.showing d second (uint8_t (RTC_Get_Week flash d.year d.month d.day).1), reads) ∧
      ∀ x ∈ reads, (∃ i < 12, x = .mon_table (i : ℕ)) ∨ x = .table_week ((d.month : ℤ) - 1) := by
  have hday : (d.dayNumber 1970 * 86400 + second) / 86400 = d.dayNumber 1970 := by omega
  have hrest : (d.dayNumber 1970 * 86400 + second) % 86400 = second := by omega
  have hfit : uint16_t (d.dayNumber 1970) = d.dayNumber 1970 := by dsimp only [uint16_t]; omega
  have hhour : uint8_t (second / 3600) = second / 3600 := by dsimp only [uint8_t]; omega
  have hmin : uint8_t (second % 3600 / 60) = second % 3600 / 60 := by dsimp only [uint8_t]; omega
  have hs : uint8_t (second % 3600 % 60) = second % 3600 % 60 := by dsimp only [uint8_t]; omega
  have hweek : ∀ x ∈ (RTC_Get_Week flash d.year d.month d.day).2,
      x = .table_week ((d.month : ℤ) - 1) := by simp [RTC_Get_Week_reads]
  unfold getFrom
  dsimp only
  rw [hday, hrest, hfit, hhour, hmin, hs]
  by_cases hc : s.daycnt = d.dayNumber 1970
  · have hshow := hcache.resolve_left (fun h => h hc)
    refine ⟨(RTC_Get_Week flash d.year d.month d.day).2, ?_, fun x hx => Or.inr (hweek x hx)⟩
    rw [if_neg (fun h => h hc), Option.map_some]
    simp [Driver.showing, hshow.year, hshow.month, hshow.date, hc]
  · obtain ⟨reads, hdec, hreads⟩ := decodeDay_eq flash { s with daycnt := d.dayNumber 1970 } hlo
      (show d.dayNumber 1970 < 65536 by omega)
    refine ⟨reads ++ (RTC_Get_Week flash d.year d.month d.day).2, ?_, fun x hx => ?_⟩
    · rw [if_pos hc, hdec, Option.map_some]
      rfl
    · exact (List.mem_append.mp hx).imp (hreads x) (hweek x)

/-- The reads for a date correct its weekday with the entry of its month. -/
theorem week_of_reads {reads : List TableRead} {month : ℤ}
    (h : ∀ x ∈ reads, (∃ i < 12, x = .mon_table (i : ℕ)) ∨ x = .table_week month) {i : ℤ}
    (hi : .table_week i ∈ reads) : i = month := by
  rcases h _ hi with ⟨_, _, hx⟩ | hx
  · cases hx
  · exact TableRead.table_week.inj hx

/-- With nothing decoded yet, day 0 is taken for the cached day: the date
stays zero and the weekday is computed from the byte before the table. -/
theorem getFrom_undecoded (flash : Flash) {s : Driver} (second : ℕ) (hu : s.Undecoded)
    (hsec : second < 86400) :
    ∃ t, getFrom flash s second = some (t, [.table_week (-1)]) ∧ t.Undecoded ∧
      t.CNTH = s.CNTH ∧ t.CNTL = s.CNTL := by
  obtain ⟨hday, hy, hm, hd⟩ := hu
  have hzero : second / 86400 = 0 := by omega
  unfold getFrom
  dsimp only
  rw [hzero, if_neg (fun h => h hday), Option.map_some]
  refine ⟨_, congrArg some (Prod.ext rfl ?_), ⟨hday, hy, hm, hd⟩, rfl, rfl⟩
  rw [List.nil_append, RTC_Get_Week_reads, hm]
  rfl

/-- RTC_Get decodes the 32-bit value of the two registers. -/
theorem RTC_Get_eq (flash : Flash) {s : Driver} (hh : s.CNTH < 65536) (hl : s.CNTL < 65536) :
    RTC_Get flash s = getFrom flash s (s.CNTH * 65536 + s.CNTL) := by
  unfold RTC_Get
  congr 1
  dsimp only [uint32_t]
  omega

/-- Except for day 0 before anything has been decoded, the calendar can be
trusted for a day, or the day differs from the cached one. -/
theorem Driver.Valid.cache {s : Driver} (hs : s.Valid) {d : CivilDate} (hlo : 1970 ≤ d.year)
    (hu : ¬(s.Undecoded ∧ d.dayNumber 1970 = 0)) :
    s.daycnt ≠ d.dayNumber 1970 ∨ s.Shows d := by
  rcases hs.dated with hun | ⟨e, he⟩
  · exact Or.inl fun h => hu ⟨hun, h ▸ hun.1⟩
  · by_cases hc : s.daycnt = d.dayNumber 1970
    · have hed := CivilDate.dayNumber_inj he.year_ge hlo (he.cached.symm.trans hc)
      exact Or.inr (hed ▸ he)
    · exact Or.inl hc

/-- RTC_Get returns for every counter value and keeps the cache coherent. -/
theorem RTC_Get_valid (flash : Flash) {s : Driver} (hs : s.Valid) :
    ∃ t reads, RTC_Get flash s = some (t, reads) ∧ t.Valid := by
  have hh := hs.high
  have hl := hs.low
  rw [RTC_Get_eq flash hh hl]
  obtain ⟨d, hlo, hd⟩ := exists_date 1970 ((s.CNTH * 65536 + s.CNTL) / 86400)
  have hsplit : s.CNTH * 65536 + s.CNTL =
      d.dayNumber 1970 * 86400 + (s.CNTH * 65536 + s.CNTL) % 86400 := by omega
  by_cases hu : s.Undecoded ∧ d.dayNumber 1970 = 0
  · obtain ⟨t, ht, htu, hth, htl⟩ := getFrom_undecoded flash
      (s.CNTH * 65536 + s.CNTL) hu.1 (by omega)
    exact ⟨t, _, ht, ⟨by omega, by omega, Or.inl htu⟩⟩
  · obtain ⟨reads, hget, _⟩ := getFrom_eq flash s _ hlo
      (Nat.mod_lt (s.CNTH * 65536 + s.CNTL) (by decide)) (by omega) (hs.cache hlo hu)
    rw [hsplit]
    exact ⟨_, reads, hget, Driver.showing_valid hh hl _ _ hlo⟩

/-- The computed second counter always fits the two registers. -/
theorem secondsOf_lt (flash : Flash) (syear smon sday hour min sec : ℕ) :
    (secondsOf flash syear smon sday hour min sec).1 < 4294967296 :=
  Nat.mod_lt _ (by decide)

/-- Writing the counter registers keeps the cache coherent. -/
theorem Driver.Valid.setCounter {s : Driver} (hs : s.Valid) {count : ℕ}
    (h : count < 4294967296) :
    Driver.Valid { s with CNTL := count % 65536, CNTH := count / 65536 } :=
  ⟨show count / 65536 < 65536 by omega, Nat.mod_lt _ (by decide), s.dated_congr rfl rfl hs.dated⟩

/-- RTC_Set keeps the cache coherent for every argument tuple. -/
theorem RTC_Set_valid (flash : Flash) {s : Driver} (hs : s.Valid)
    (syear smon sday hour min sec : ℕ) :
    ∃ code t reads, RTC_Set flash s syear smon sday hour min sec = some (code, t, reads) ∧
      t.Valid := by
  unfold RTC_Set
  split
  · exact ⟨1, s, [], rfl, hs⟩
  · have hlt := secondsOf_lt flash syear smon sday hour min sec
    obtain ⟨t, more, ht, hv⟩ := RTC_Get_valid flash (hs.setCounter hlt)
    exact ⟨0, t, _, by dsimp only; rw [ht]; rfl, hv⟩

/-- Every event keeps the cache coherent. -/
theorem step_valid (flash : Flash) (s : Driver) (e : Event) (t : Driver) (hs : s.Valid)
    (ht : step flash s e = some t) : t.Valid := by
  cases e with
  | RTC_Set syear smon sday hour min sec =>
    obtain ⟨code, u, reads, hu, hv⟩ := RTC_Set_valid flash hs syear.toNat smon.toNat sday.toNat
      hour.toNat min.toNat sec.toNat
    simp only [step, hu, Option.map_some, Option.some.injEq] at ht
    exact ht ▸ hv
  | RTC_Get =>
    obtain ⟨u, reads, hu, hv⟩ := RTC_Get_valid flash hs
    simp only [step, hu, Option.map_some, Option.some.injEq] at ht
    exact ht ▸ hv
  | tick =>
    simp only [step, Option.some.injEq] at ht
    subst ht
    exact hs.setCounter (Nat.mod_lt _ (by decide))

/-- Whatever was called before, the calendar belongs to the cached day or
nothing has been decoded since power-on. -/
theorem valid_of_reachable (flash : Flash) {s : Driver}
    (hs : Reachable PowerOn (step flash) s) : s.Valid :=
  hs.invariant
    (fun s h => ⟨h.2.2.1, h.2.2.2, Or.inl ⟨h.2.1, by rw [h.1], by rw [h.1], by rw [h.1]⟩⟩)
    (step_valid flash)

/-- A real date and time of the years the driver accepts. -/
structure Moment extends CivilDate where
  hour : ℕ
  min : ℕ
  sec : ℕ
  year_ge : 1970 ≤ year
  year_le : year ≤ 2099
  hour_lt : hour < 24
  min_lt : min < 60
  sec_lt : sec < 60

/-- RTC_Set followed by RTC_Get leaves the moment with its weekday in the
calendar, and the weekday table is read inside its bounds only. -/
def RoundTrip (flash : Flash) (s : Driver) (m : Moment) : Prop :=
  ∃ t reads u more,
    RTC_Set flash s m.year m.month m.day m.hour m.min m.sec = some (0, t, reads) ∧
    RTC_Get flash t = some (u, more) ∧
    u.calendar = ⟨m.hour, m.min, m.sec, m.year, m.month, m.day,
      weekday 4 (m.toCivilDate.dayNumber 1970)⟩ ∧
    ∀ i, .table_week i ∈ reads ++ more → 0 ≤ i ∧ i ≤ 11

/-- RTC_Set on a real moment writes its Unix time and refreshes from it. -/
theorem RTC_Set_moment (flash : Flash) (s : Driver) (m : Moment) :
    ∃ reads, (∀ i, .table_week i ∉ reads) ∧ ∃ t, t.daycnt = s.daycnt ∧ t.calendar = s.calendar ∧
      t.CNTH < 65536 ∧ t.CNTL < 65536 ∧ t.CNTH * 65536 + t.CNTL =
        m.toCivilDate.dayNumber 1970 * 86400 + (m.hour * 3600 + m.min * 60 + m.sec) ∧
      RTC_Set flash s m.year m.month m.day m.hour m.min m.sec =
        (RTC_Get flash t).map fun r => (0, r.1, reads ++ r.2) := by
  have hsec := secondsOf_eq flash m.toCivilDate m.year_ge m.year_le m.hour_lt m.min_lt m.sec_lt
  have hlt := secondsOf_lt flash m.year m.month m.day m.hour m.min m.sec
  have hyear : ¬(m.year < 1970 ∨ m.year > 2099) := by
    have := m.year_ge
    have := m.year_le
    omega
  refine ⟨(secondsOf flash m.year m.month m.day m.hour m.min m.sec).2, ?_, { s with
      CNTL := (secondsOf flash m.year m.month m.day m.hour m.min m.sec).1 % 65536,
      CNTH := (secondsOf flash m.year m.month m.day m.hour m.min m.sec).1 / 65536 },
    rfl, rfl, show _ / 65536 < 65536 by omega, Nat.mod_lt _ (by decide), ?_, ?_⟩
  · rw [hsec]
    simp
  · rw [hsec]
    dsimp only
    omega
  · unfold RTC_Set
    rw [if_neg hyear]

/-- Second of the day of a moment. -/
def Moment.second (m : Moment) : ℕ := m.hour * 3600 + m.min * 60 + m.sec

/-- The only date with day number 0 is the first of January 1970. -/
theorem dayNumber_eq_zero {d : CivilDate} (hlo : 1970 ≤ d.year) :
    d.dayNumber 1970 = 0 ↔ d.year = 1970 ∧ d.month = 1 ∧ d.day = 1 := by
  constructor
  · intro h
    have he := CivilDate.dayNumber_inj hlo
      (e := ⟨1970, 1, 1, by decide, by decide, by decide, by decide⟩) (by decide)
      (h.trans (by decide))
    rw [he]
    exact ⟨rfl, rfl, rfl⟩
  · rintro ⟨hy, hm, hd⟩
    unfold CivilDate.dayNumber CivilDate.dayOfYear
    rw [hy, hm, hd]
    rfl

/-- When the day cache can be trusted for the moment's day, RTC_Set and
RTC_Get both leave the moment in the calendar. -/
theorem roundTrip_of_cache (flash : Flash) {s : Driver} {m : Moment}
    (hcache : s.daycnt ≠ m.toCivilDate.dayNumber 1970 ∨ s.Shows m.toCivilDate) :
    RoundTrip flash s m := by
  have hm1 := m.month_pos
  have hm2 := m.month_le
  have hh := m.hour_lt
  have hmin := m.min_lt
  have hsec := m.sec_lt
  have hn := dayNumber_lt m.year_ge m.year_le
  have hweek := RTC_Get_Week_eq flash m.toCivilDate m.year_ge m.year_le
  have hweek7 : weekday 4 (m.toCivilDate.dayNumber 1970) < 7 := Nat.mod_lt _ (by decide)
  obtain ⟨setReads, hset, t, hday, hcal, hth, htl, hcount, hcall⟩ := RTC_Set_moment flash s m
  have htc : t.daycnt ≠ m.toCivilDate.dayNumber 1970 ∨ t.Shows m.toCivilDate := by
    rw [hday]
    exact hcache.imp id fun h => ⟨h.year_ge, hday ▸ h.cached, hcal ▸ h.year, hcal ▸ h.month,
      hcal ▸ h.date⟩
  obtain ⟨reads, hget, hreads⟩ := getFrom_eq flash t m.second m.year_ge
    (by unfold Moment.second; omega) (by unfold Moment.second; omega) htc
  have hu := t.showing_shows m.second (uint8_t (RTC_Get_Week flash m.year m.month m.day).1)
    (d := m.toCivilDate) m.year_ge
  obtain ⟨more, hagain, hmore⟩ := getFrom_eq flash
    (t.showing m.toCivilDate m.second (uint8_t (RTC_Get_Week flash m.year m.month m.day).1))
    m.second m.year_ge
    (by unfold Moment.second; omega) (by unfold Moment.second; omega) (Or.inr hu)
  refine ⟨t.showing m.toCivilDate m.second (uint8_t (RTC_Get_Week flash m.year m.month m.day).1),
    setReads ++ reads,
    t.showing m.toCivilDate m.second (uint8_t (RTC_Get_Week flash m.year m.month m.day).1),
    more, ?_, ?_, ?_, ?_⟩
  · rw [hcall, RTC_Get_eq flash hth htl, hcount]
    exact congrArg (Option.map fun r => (0, r.1, setReads ++ r.2)) hget
  · exact ((RTC_Get_eq flash (s := t.showing _ _ _) hth htl).trans
      (congrArg (getFrom flash _) hcount)).trans hagain
  · rw [hweek]
    have h8 : uint8_t (weekday 4 (m.toCivilDate.dayNumber 1970)) =
        weekday 4 (m.toCivilDate.dayNumber 1970) := by dsimp only [uint8_t]; omega
    have h1 : m.second / 3600 = m.hour := by unfold Moment.second; omega
    have h2 : m.second % 3600 / 60 = m.min := by unfold Moment.second; omega
    have h3 : m.second % 3600 % 60 = m.sec := by unfold Moment.second; omega
    simp only [Driver.showing, h8, h1, h2, h3]
  · intro i hi
    have hmonth : i = (m.month : ℤ) - 1 := by
      rcases List.mem_append.mp hi with h | h
      · rcases List.mem_append.mp h with h | h
        · exact absurd h (hset i)
        · exact week_of_reads hreads h
      · exact week_of_reads hmore h
    omega

/-- Setting the epoch day while nothing has been decoded indexes the weekday
table at -1. -/
theorem not_roundTrip_of_undecoded (flash : Flash) {s : Driver} {m : Moment} (hu : s.Undecoded)
    (hday : m.toCivilDate.dayNumber 1970 = 0) : ¬RoundTrip flash s m := by
  rintro ⟨_, _, _, _, hcall, _, _, hbounds⟩
  have hh := m.hour_lt
  have hmin := m.min_lt
  have hsec := m.sec_lt
  obtain ⟨setReads, _, t, htd, htc, hth, htl, hcount, hset⟩ := RTC_Set_moment flash s m
  have htu : t.Undecoded := by
    unfold Driver.Undecoded at hu ⊢
    rwa [htd, htc]
  rw [hday] at hcount
  obtain ⟨u, hget, _⟩ := getFrom_undecoded flash (t.CNTH * 65536 + t.CNTL) htu (by omega)
  rw [hset, RTC_Get_eq flash hth htl, hget] at hcall
  simp only [Option.map_some, Option.some.injEq, Prod.mk.injEq] at hcall
  have hread := hbounds (-1) (by simp [← hcall.2.2])
  omega

/-- Over every reachable driver state and every real moment from 1970 to
2099, the round trip succeeds except for the first of January 1970 set while
nothing has been decoded since power-on. -/
theorem roundTrip_iff (flash : Flash) {s : Driver} (hs : Reachable PowerOn (step flash) s)
    (m : Moment) :
    RoundTrip flash s m ↔ ¬(s.Undecoded ∧ m.year = 1970 ∧ m.month = 1 ∧ m.day = 1) := by
  rw [← dayNumber_eq_zero (d := m.toCivilDate) m.year_ge]
  constructor
  · rintro htrip ⟨hu, hday⟩
    exact not_roundTrip_of_undecoded flash hu hday htrip
  · intro hfresh
    exact roundTrip_of_cache flash ((valid_of_reachable flash hs).cache m.year_ge hfresh)

/-- The driver at power-on with a counter of zero. -/
def powerOn : Driver := ⟨⟨0, 0, 0, 0, 0, 0, 0⟩, 0, 0, 0⟩

/-- The first second of the epoch. -/
def epoch : Moment :=
  ⟨⟨1970, 1, 1, by decide, by decide, by decide, by decide⟩, 0, 0, 0,
    by decide, by decide, by decide, by decide, by decide⟩

/-- A leap day, in the afternoon. -/
def leapDay : Moment :=
  ⟨⟨2024, 2, 29, by decide, by decide, by decide, by decide⟩, 13, 30, 59,
    by decide, by decide, by decide, by decide, by decide⟩

/-- A leap day is set and read back right after power-on. -/
theorem roundTrip_leapDay :
    Reachable PowerOn (step ⟨fun _ => 0, fun _ => 0⟩) powerOn ∧
      RoundTrip ⟨fun _ => 0, fun _ => 0⟩ powerOn leapDay :=
  have hs : Reachable PowerOn (step ⟨fun _ => 0, fun _ => 0⟩) powerOn :=
    Reachable.of_init ⟨rfl, rfl, by decide, by decide⟩
  ⟨hs, (roundTrip_iff _ hs leapDay).mpr fun h => absurd h.2.1 (by decide)⟩

/-- The epoch set right after power-on is not read back. -/
theorem epoch_not_roundTrip :
    ¬∀ (flash : Flash) (s : Driver), Reachable PowerOn (step flash) s →
      ∀ m : Moment, RoundTrip flash s m := fun h =>
  not_roundTrip_of_undecoded (m := epoch) (s := powerOn) ⟨fun _ => 0, fun _ => 0⟩
    ⟨rfl, rfl, rfl, rfl⟩ (by decide)
    (h _ _ (Reachable.of_init ⟨rfl, rfl, by decide, by decide⟩) epoch)

end SmartHome.RtcDriver
