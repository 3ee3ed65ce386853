import SmartHome.RtcUnixTime

/-!
# Arguments that RTC_Set and RTC_Alarm_Set refuse

Both functions check the year only. A month, day, hour, minute or second that
does not exist is computed with as it is, and a month of zero or above
thirteen makes the loop over the months run past the end of the month table.
-/

namespace SmartHome.RtcRefusal

open MachineWords CountedCalendar RtcDriver RtcReadout RtcUnixTime

/-- Arguments of RTC_Set and RTC_Alarm_Set. -/
structure Arguments where
  syear : UInt16
  smon : UInt8
  sday : UInt8
  hour : UInt8
  min : UInt8
  sec : UInt8
  deriving DecidableEq, Repr

/-- The values of the arguments. -/
def Arguments.values (x : Arguments) : List ℕ :=
  [x.syear.toNat, x.smon.toNat, x.sday.toNat, x.hour.toNat, x.min.toNat, x.sec.toNat]

/-- The arguments are a date and time of the years 1970 to 2099. -/
def Real (x : Arguments) : Prop := ∃ m : Moment, x.values = fields m

/-- RTC_Set with the arguments. -/
def Arguments.set (flash : Flash) (s : Driver) (x : Arguments) :
    Option (ℕ × Driver × List TableRead) :=
  RTC_Set flash s x.syear.toNat x.smon.toNat x.sday.toNat x.hour.toNat x.min.toNat x.sec.toNat

/-- RTC_Alarm_Set with the arguments. -/
def Arguments.setAlarm (flash : Flash) (a : Alarm) (x : Arguments) : ℕ × Alarm × List TableRead :=
  RTC_Alarm_Set flash a x.syear.toNat x.smon.toNat x.sday.toNat x.hour.toNat x.min.toNat
    x.sec.toNat

/-- A call that takes real arguments only, with its return value, its reads and
the register before and after it. -/
structure Strict (x : Arguments) (code before after : ℕ) (reads : List TableRead) : Prop where
  inside : ∀ i, .mon_table i ∈ reads → 0 ≤ i ∧ i ≤ 11
  accepts : code = 0 → Real x
  refuses : ¬Real x → code ≠ 0 ∧ after = before

/-- Both functions take real arguments only. -/
def BothStrict (flash : Flash) (s : Driver) (a : Alarm) (x : Arguments) : Prop :=
  (∃ code t reads, x.set flash s = some (code, t, reads) ∧
    Strict x code (counter s) (counter t) reads) ∧
  ∃ code b reads, x.setAlarm flash a = (code, b, reads) ∧
    Strict x code (alarmCounter a) (alarmCounter b) reads

/-- The loop over the months stays inside its table exactly for the months 1
to 13; the month 13 adds up the whole year. -/
theorem month_reads_iff (flash : Flash) (syear : ℕ) {smon : ℕ} (hmon : smon < 256)
    (sday hour min sec : ℕ) :
    (∀ i, .mon_table i ∈ (secondsOf flash syear smon sday hour min sec).2 → 0 ≤ i ∧ i ≤ 11) ↔
      1 ≤ smon ∧ smon ≤ 13 := by
  have hreads : ∀ i, .mon_table i ∈ (secondsOf flash syear smon sday hour min sec).2 ↔
      ∃ t < uint8_t (smon + 255), (t : ℤ) = i := by
    intro i
    simp [secondsOf]
  have hwrap : uint8_t (smon + 255) = if smon = 0 then 255 else smon - 1 := by
    dsimp only [uint8_t]
    split <;> omega
  simp only [hreads, hwrap]
  constructor
  · intro h
    by_contra hout
    have htwelve := h 12 ⟨12, by split <;> omega, rfl⟩
    omega
  · rintro ⟨hlo, hhi⟩ i ⟨t, ht, rfl⟩
    rw [if_neg (by omega)] at ht
    omega

/-- In a year of the range the calls are strict for real arguments only. -/
theorem strict_of_real (flash : Flash) (s : Driver) (a : Alarm) {x : Arguments} (h : Real x) :
    BothStrict flash s a x := by
  obtain ⟨m, hm⟩ := id h
  simp only [Arguments.values, fields, List.cons.injEq, and_true] at hm
  obtain ⟨hyear, hmonth, -⟩ := hm
  have hlo := m.year_ge
  have hhi := m.year_le
  obtain ⟨hm1, hm2, -⟩ := m.toCivilDate.bounds
  have hinside := (month_reads_iff flash x.syear.toNat x.smon.toNat_lt x.sday.toNat x.hour.toNat
    x.min.toNat x.sec.toNat).mpr (by omega)
  obtain ⟨t, more, hset, -, -, -, hmore⟩ := RTC_Set_returns flash s x.smon.toNat x.sday.toNat
    x.hour.toNat x.min.toNat x.sec.toNat (hyear ▸ hlo) (hyear ▸ hhi)
  obtain ⟨b, halarm, -⟩ := RTC_Alarm_Set_returns flash a x.smon.toNat x.sday.toNat
    x.hour.toNat x.min.toNat x.sec.toNat (hyear ▸ hlo) (hyear ▸ hhi)
  refine ⟨⟨0, t, _, hset, ⟨fun i hi => ?_, fun _ => h, fun hno => absurd h hno⟩⟩,
    ⟨0, b, _, halarm, ⟨hinside, fun _ => h, fun hno => absurd h hno⟩⟩⟩
  rcases List.mem_append.mp hi with hi | hi
  · exact hinside i hi
  · have := hmore i hi
    omega

/-- Both functions read inside their table, succeed for real arguments only and
leave their register alone otherwise, exactly if the year is out of range or
the arguments are real. -/
theorem bothStrict_iff (flash : Flash) (s : Driver) (a : Alarm) (x : Arguments) :
    BothStrict flash s a x ↔ x.syear.toNat < 1970 ∨ 2099 < x.syear.toNat ∨ Real x := by
  constructor
  · rintro ⟨⟨code, t, reads, hset, hstrict⟩, -⟩
    by_contra hin
    rw [not_or, not_or] at hin
    obtain ⟨u, more, hall, -⟩ := RTC_Set_returns flash s x.smon.toNat x.sday.toNat x.hour.toNat
      x.min.toNat x.sec.toNat (show 1970 ≤ x.syear.toNat by omega) (by omega)
    have hcode : code = 0 := congrArg Prod.fst (Option.some.inj (hset.symm.trans hall))
    exact hin.2.2 (hstrict.accepts hcode)
  · intro h
    by_cases hyear : x.syear.toNat < 1970 ∨ x.syear.toNat > 2099
    · have hstrict : ∀ value, Strict x 1 value value [] := fun value =>
        ⟨fun i hi => by simp at hi, fun hcode => absurd hcode (by decide),
          fun _ => ⟨by decide, rfl⟩⟩
      exact ⟨⟨1, s, [], if_pos hyear, hstrict _⟩, ⟨1, a, [], if_pos hyear, hstrict _⟩⟩
    · exact strict_of_real flash s a (by tauto)

/-- With month zero the month table is read up to its element 254. -/
theorem not_strict_month_zero :
    ¬∀ (flash : Flash) (s : Driver) (a : Alarm) (x : Arguments), BothStrict flash s a x := by
  intro h
  obtain ⟨⟨code, t, reads, hset, hstrict⟩, -⟩ :=
    h ⟨fun _ => 0, fun _ => 0⟩ powerOn ⟨0, 0⟩ ⟨2024, 0, 1, 0, 0, 0⟩
  have hread : (Arguments.set ⟨fun _ => 0, fun _ => 0⟩ powerOn ⟨2024, 0, 1, 0, 0, 0⟩).any
      fun r => .mon_table 254 ∈ r.2.2 := by
    decide +kernel
  rw [hset, Option.any_some] at hread
  exact absurd (hstrict.inside 254 (of_decide_eq_true hread)).2 (by decide)

end SmartHome.RtcRefusal
