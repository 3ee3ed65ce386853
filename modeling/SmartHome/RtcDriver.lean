import Mathlib.Tactic.IntervalCases
import SmartHome.CountedCalendar
import SmartHome.MachineWords
import SmartHome.TransitionRuns

/-!
# The RTC calendar driver

RTC_Set turns a civil date and time into a 32-bit second counter, and
RTC_Alarm_Set does the same for the alarm; RTC_Get decodes the counter into
the global calendar behind a static day cache. Reads of the two constant
tables are logged, so that an index outside a table is visible; what such a
read returns is left to the surrounding flash. The registers CNTH and CNTL
hold the value written; only second ticks and RTC_Set change them.
-/

namespace SmartHome.RtcDriver

open MachineWords CountedCalendar TransitionRuns

/-- The calendar object that RTC_Get fills. -/
structure Calendar where
  hour : ℕ
  min : ℕ
  sec : ℕ
  w_year : ℕ
  w_month : ℕ
  w_date : ℕ
  week : ℕ
  deriving DecidableEq, Repr

/-- The calendar, the static day cache of RTC_Get and the counter registers. -/
structure Driver where
  calendar : Calendar
  /-- Day number of the last decoded counter value. -/
  daycnt : ℕ
  /-- High half of the second counter. -/
  CNTH : ℕ
  /-- Low half of the second counter. -/
  CNTL : ℕ
  deriving DecidableEq, Repr

/-- One evaluation of an element of a constant table. -/
inductive TableRead where
  | mon_table (index : ℤ)
  | table_week (index : ℤ)
  deriving DecidableEq, Repr

/-- Bytes found when a table is indexed outside its bounds. -/
structure Flash where
  aroundMon : ℤ → ℕ
  aroundWeek : ℤ → ℕ

/-- Month correction table of the weekday formula. -/
def table_week : List ℕ := [0, 3, 3, 6, 1, 4, 6, 2, 5, 0, 3, 5]

/-- Month lengths of a common year. -/
def mon_table : List ℕ := [31, 28, 31, 30, 31, 30, 31, 31, 30, 31, 30, 31]

/-- Element of a constant byte table, or the surrounding byte outside it. -/
def tableAt (table : List ℕ) (around : ℤ → ℕ) (index : ℤ) : ℕ :=
  if 0 ≤ index ∧ index < table.length then table.getD index.toNat 0 else uint8_t (around index)

/-- Leap-year test of the driver; 1 for a leap year. -/
def Is_Leap_Year (year : ℕ) : ℕ :=
  if year % 4 = 0 then
    if year % 100 = 0 then
      if year % 400 = 0 then 1 else 0
    else 1
  else 0

/-- Weekday formula for 1901 to 2099, Sunday being 0. -/
def RTC_Get_Week (flash : Flash) (year month day : ℕ) : ℕ × List TableRead :=
  let yearH := uint8_t (year / 100)
  let yearL := uint8_t (year % 100)
  let yearL := if yearH > 19 then uint8_t (yearL + 100) else yearL
  let temp2 := uint16_t (yearL + yearL / 4)
  let temp2 := temp2 % 7
  let index : ℤ := month - 1
  let temp2 := uint16_t (temp2 + day + tableAt table_week flash.aroundWeek index)
  let temp2 := if yearL % 4 = 0 ∧ month < 3 then uint16_t (temp2 + 65535) else temp2
  (temp2 % 7, [.table_week index])

/-- Year loop of RTC_Get on the remaining days and the current year. -/
def yearLoop : ℕ → ℕ → ℕ → Option (ℕ × ℕ)
  | 0, _, _ => none
  | fuel + 1, temp, temp1 =>
    if 365 ≤ temp then
      if Is_Leap_Year temp1 = 1 then
        if 366 ≤ temp then yearLoop fuel (temp - 366) (uint16_t (temp1 + 1))
        else some (temp, temp1)
      else yearLoop fuel (temp - 365) (uint16_t (temp1 + 1))
    else some (temp, temp1)

/-- Month loop of RTC_Get; the leap February is decided by the stored year. -/
def monthLoop (flash : Flash) (w_year : ℕ) :
    ℕ → ℕ → ℕ → List TableRead → Option (ℕ × ℕ × List TableRead)
  | 0, _, _, _ => none
  | fuel + 1, temp, temp1, reads =>
    if 28 ≤ temp then
      if Is_Leap_Year w_year = 1 ∧ temp1 = 1 then
        if 29 ≤ temp then monthLoop flash w_year fuel (temp - 29) (uint16_t (temp1 + 1)) reads
        else some (temp, temp1, reads)
      else
        let days := tableAt mon_table flash.aroundMon temp1
        let reads := reads ++ [.mon_table temp1]
        if days ≤ temp then
          monthLoop flash w_year fuel (temp - days) (uint16_t (temp1 + 1))
            (reads ++ [.mon_table temp1])
        else some (temp, temp1, reads)
    else some (temp, temp1, reads)

/-- Decode a day number into the calendar and remember it in the cache.
Each loop gets one more step of fuel than there are days to subtract. -/
def decodeDay (flash : Flash) (s : Driver) (temp : ℕ) : Option (Driver × List TableRead) :=
  (yearLoop (temp + 1) temp 1970).bind fun (temp, temp1) =>
    let w_year := temp1
    (monthLoop flash w_year (temp + 1) temp 0 []).map fun (rest, temp1, reads) =>
      ({ s with calendar := { s.calendar with
          w_year := w_year, w_month := uint8_t (temp1 + 1), w_date := uint8_t (rest + 1) } }, reads)

/-- RTC_Get on a counter value that has been read from the registers. -/
def getFrom (flash : Flash) (s : Driver) (timecount : ℕ) : Option (Driver × List TableRead) :=
  let temp := timecount / 86400
  let dated := if s.daycnt ≠ temp then decodeDay flash { s with daycnt := uint16_t temp } temp
    else some (s, [])
  dated.map fun (s, reads) =>
    let temp := timecount % 86400
    let week := RTC_Get_Week flash s.calendar.w_year s.calendar.w_month s.calendar.w_date
    ({ s with calendar := { s.calendar with
        hour := uint8_t (temp / 3600), min := uint8_t (temp % 3600 / 60),
        sec := uint8_t (temp % 3600 % 60), week := uint8_t week.1 } }, reads ++ week.2)

/-- Read the counter, high half first, and refresh the calendar. -/
def RTC_Get (flash : Flash) (s : Driver) : Option (Driver × List TableRead) :=
  getFrom flash s (uint32_t (uint32_t (s.CNTH * 65536) + s.CNTL))

/-- Seconds of the years before syear. -/
def yearSeconds (syear : ℕ) : ℕ :=
  (List.range' 1970 (syear - 1970)).foldl (fun seccount t =>
    if Is_Leap_Year t = 1 then uint32_t (seccount + 31622400)
    else uint32_t (seccount + 31536000)) 0

/-- Add the seconds of the first smon months of syear. -/
def monthSeconds (flash : Flash) (syear smon seccount : ℕ) : ℕ :=
  (List.range smon).foldl (fun seccount (t : ℕ) =>
    let seccount := uint32_t (seccount + tableAt mon_table flash.aroundMon t * 86400)
    if Is_Leap_Year syear = 1 ∧ t = 1 then uint32_t (seccount + 86400) else seccount) seccount

/-- Second counter computed from the six fields, with the table reads made. -/
def secondsOf (flash : Flash) (syear smon sday hour min sec : ℕ) : ℕ × List TableRead :=
  let seccount := yearSeconds syear
  let smon := uint8_t (smon + 255)
  let seccount := monthSeconds flash syear smon seccount
  let seccount := uint32_t (seccount + uint32_t (uint32_t (sday + 4294967295) * 86400))
  let seccount := uint32_t (seccount + hour * 3600)
  let seccount := uint32_t (seccount + min * 60)
  (uint32_t (seccount + sec), (List.range smon).map fun (t : ℕ) => .mon_table t)

/-- Write the counter registers from a date and time and refresh the
calendar; 1 is returned for a year outside 1970..2099, without effect. -/
def RTC_Set (flash : Flash) (s : Driver) (syear smon sday hour min sec : ℕ) :
    Option (ℕ × Driver × List TableRead) :=
  if syear < 1970 ∨ syear > 2099 then some (1, s, [])
  else
    let (seccount, reads) := secondsOf flash syear smon sday hour min sec
    let s := { s with CNTL := seccount % 65536, CNTH := seccount / 65536 }
    (RTC_Get flash s).map fun (s, more) => (0, s, reads ++ more)

/-- The alarm registers. -/
structure Alarm where
  /-- High half of the alarm counter. -/
  ALRH : ℕ
  /-- Low half of the alarm counter. -/
  ALRL : ℕ
  deriving DecidableEq, Repr

/-- Write the alarm registers from a date and time. The computation is a copy of
the one in RTC_Set. -/
def RTC_Alarm_Set (flash : Flash) (a : Alarm) (syear smon sday hour min sec : ℕ) :
    ℕ × Alarm × List TableRead :=
  if syear < 1970 ∨ syear > 2099 then (1, a, [])
  else
    let (seccount, reads) := secondsOf flash syear smon sday hour min sec
    (0, { ALRL := seccount % 65536, ALRH := seccount / 65536 }, reads)

/-- One second of the hardware counter. -/
def tick (s : Driver) : Driver :=
  let count := uint32_t (s.CNTH * 65536 + s.CNTL + 1)
  { s with CNTH := count / 65536, CNTL := count % 65536 }

/-- What can happen to the driver between two observations. -/
inductive Event where
  | RTC_Set (syear : UInt16) (smon sday hour min sec : UInt8)
  | RTC_Get
  | tick
  deriving DecidableEq, Repr

/-- Effect of one event on the driver state. -/
def step (flash : Flash) (s : Driver) : Event → Option Driver
  | .RTC_Set syear smon sday hour min sec =>
    (RTC_Set flash s syear.toNat smon.toNat sday.toNat hour.toNat min.toNat sec.toNat).map
      fun r => r.2.1
  | .RTC_Get => (RTC_Get flash s).map fun r => r.1
  | .tick => some (tick s)

/-- Zeroed statics at power-on; the backed-up counter holds any value. -/
def PowerOn (s : Driver) : Prop :=
  s.calendar = ⟨0, 0, 0, 0, 0, 0, 0⟩ ∧ s.daycnt = 0 ∧ s.CNTH < 65536 ∧ s.CNTL < 65536

end SmartHome.RtcDriver
