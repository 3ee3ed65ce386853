import SmartHome.RtcRoundTrip

/-!
# Reading the clock while it runs

RTC_Get reads the two halves of the counter one after the other, and a second
may pass in between. The readings of a run are compared with the counter
values during each call and with one another. Runs here have no RTC_Set and
end before the 32-bit counter wraps.
-/

namespace SmartHome.RtcReadout

open MachineWords CountedCalendar TransitionRuns RtcDriver

/-- Value of the counter registers. -/
def counter (s : Driver) : ℕ := s.CNTH * 65536 + s.CNTL

/-- RTC_Get with or without an increment between its two reads. -/
def RTC_Get_split (flash : Flash) (between : Bool) (s : Driver) :
    Option (Driver × List TableRead) :=
  let high := s.CNTH
  let s := if between then tick s else s
  getFrom flash s (uint32_t (uint32_t (high * 65536) + s.CNTL))

/-- A call of RTC_Get: what it leaves in the calendar, and the counter before
and after it. -/
structure Reading where
  /-- Year, month, date, hour, minute and second. -/
  time : List ℕ
  before : ℕ
  after : ℕ
  deriving DecidableEq, Repr

/-- The driver and the readings made so far. -/
structure Clock where
  driver : Driver
  readings : List Reading
  deriving DecidableEq, Repr

/-- What happens to a running clock. -/
inductive Run where
  /-- One second passes. -/
  | tick
  /-- RTC_Get, with an increment between its reads or without. -/
  | get (between : Bool)
  deriving DecidableEq, Repr

/-- The tuple in the calendar. -/
def timeOf (c : Calendar) : List ℕ := [c.w_year, c.w_month, c.w_date, c.hour, c.min, c.sec]

/-- Seconds that pass during an event. -/
def Run.seconds : Run → ℕ
  | .tick => 1
  | .get between => between.toNat

/-- One event of a clock whose counter does not wrap. -/
def observe (flash : Flash) (s : Clock) (e : Run) : Option Clock :=
  if counter s.driver + e.seconds < 4294967296 then
    match e with
    | .tick => some { s with driver := tick s.driver }
    | .get between =>
      (RTC_Get_split flash between s.driver).map fun (t, _) =>
        ⟨t, s.readings ++ [⟨timeOf t.calendar, counter s.driver, counter t⟩]⟩
  else none

/-- The date and time of a counter value. -/
def IsTimeOf (count : ℕ) (time : List ℕ) : Prop :=
  ∃ d : CivilDate, 1970 ≤ d.year ∧ d.dayNumber 1970 = count / 86400 ∧
    time = [d.year, d.month, d.day, count / 3600 % 24, count / 60 % 60, count % 60]

/-- The reading is the date and time of a counter value during its call. -/
def Reading.Genuine (r : Reading) : Prop := ∃ count, r.before ≤ count ∧ count ≤ r.after ∧
  IsTimeOf count r.time

/-- Lexicographic order of tuples. -/
def NotLater : List ℕ → List ℕ → Prop
  | a :: as, b :: bs => a < b ∨ a = b ∧ NotLater as bs
  | _, _ => True

/-- Every reading is genuine, and no reading is before an earlier one. -/
structure Orderly (s : Clock) : Prop where
  genuine : ∀ r ∈ s.readings, r.Genuine
  sorted : (s.readings.map Reading.time).Pairwise NotLater

/-- A call does not fall on the carry into the high half, and does not ask for
the first day while nothing has been decoded. -/
def Clean (s : Clock) : Run → Prop
  | .tick => True
  | .get between =>
    ¬(between = true ∧ s.driver.CNTL = 65535) ∧
      (s.driver.Undecoded → 86400 ≤ counter s.driver + between.toNat)

instance (s : Driver) : Decidable s.Undecoded := inferInstanceAs (Decidable (_ ∧ _))

instance (s : Clock) : ∀ e, Decidable (Clean s e)
  | .tick => inferInstanceAs (Decidable True)
  | .get _ => inferInstanceAs (Decidable (¬_ ∧ (_ → _)))

/-! ### Times and counter values -/

/-- Within a day the times of the clock are ordered like the counter. -/
theorem clock_lex {count count' : ℕ} (hday : count / 86400 = count' / 86400)
    (hle : count ≤ count') :
    NotLater [count / 3600 % 24, count / 60 % 60, count % 60]
      [count' / 3600 % 24, count' / 60 % 60, count' % 60] := by
  have hlex : count / 3600 % 24 < count' / 3600 % 24 ∨ count / 3600 % 24 = count' / 3600 % 24 ∧
      (count / 60 % 60 < count' / 60 % 60 ∨ count / 60 % 60 = count' / 60 % 60 ∧
        count % 60 ≤ count' % 60) := by omega
  rcases hlex with hhour | ⟨hhour, hmin | ⟨hmin, hsec⟩⟩
  · exact Or.inl hhour
  · exact Or.inr ⟨hhour, Or.inl hmin⟩
  · exact Or.inr ⟨hhour, Or.inr ⟨hmin, (Nat.lt_or_eq_of_le hsec).imp id fun h => ⟨h, trivial⟩⟩⟩

/-- Times are ordered like their counter values. -/
theorem IsTimeOf.mono {count count' : ℕ} {time time' : List ℕ} (h : IsTimeOf count time)
    (h' : IsTimeOf count' time') (hle : count ≤ count') : NotLater time time' := by
  obtain ⟨d, hlo, hday, rfl⟩ := h
  obtain ⟨e, hlo', hday', rfl⟩ := h'
  have hdays : d.dayNumber 1970 ≤ e.dayNumber 1970 := by
    rw [hday, hday']
    exact Nat.div_le_div_right hle
  have hdate := CivilDate.lex_of_dayNumber_le hlo hlo' hdays
  have hclock : d.year = e.year ∧ d.month = e.month ∧ d.day = e.day →
      count / 86400 = count' / 86400 := by
    rintro ⟨hy, hm, hd⟩
    rw [← hday, ← hday']
    unfold CivilDate.dayNumber CivilDate.dayOfYear
    rw [hy, hm, hd]
  rcases hdate with hy | ⟨hy, hm | ⟨hm, hd⟩⟩
  · exact Or.inl hy
  · exact Or.inr ⟨hy, Or.inl hm⟩
  · refine Or.inr ⟨hy, Or.inr ⟨hm, ?_⟩⟩
    rcases Nat.lt_or_eq_of_le hd with hd | hd
    · exact Or.inl hd
    · exact Or.inr ⟨hd, clock_lex (hclock ⟨hy, hm, hd⟩) hle⟩

/-- A time belongs to one counter value. -/
theorem IsTimeOf.unique {count count' : ℕ} {time : List ℕ} (h : IsTimeOf count time)
    (h' : IsTimeOf count' time) : count = count' := by
  obtain ⟨d, hlo, hday, rfl⟩ := h
  obtain ⟨e, hlo', hday', heq⟩ := h'
  simp only [List.cons.injEq, and_true] at heq
  obtain ⟨hy, hm, hd, hclock⟩ := heq
  have hdays : d.dayNumber 1970 = e.dayNumber 1970 := by
    unfold CivilDate.dayNumber CivilDate.dayOfYear
    rw [hy, hm, hd]
  omega

/-! ### One call of RTC_Get -/

/-- An increment without wrap-around adds one second. -/
theorem tick_eq {s : Driver} (h : counter s + 1 < 4294967296) :
    (tick s).CNTH = (counter s + 1) / 65536 ∧ (tick s).CNTL = (counter s + 1) % 65536 ∧
      counter (tick s) = counter s + 1 := by
  have hfit : uint32_t (s.CNTH * 65536 + s.CNTL + 1) = counter s + 1 := by
    rw [counter] at h ⊢
    exact Nat.mod_eq_of_lt h
  simp only [counter, tick, hfit] at *
  refine ⟨trivial, trivial, ?_⟩
  omega

/-- Decoding leaves the date and time of the counter value, except for the
first day while nothing has been decoded. -/
theorem getFrom_time (flash : Flash) {s : Driver} (hs : s.Valid) {count : ℕ}
    (hcount : count < 4294967296) :
    ∃ t reads, getFrom flash s count = some (t, reads) ∧ t.Valid ∧ counter t = counter s ∧
      (¬(s.Undecoded ∧ count < 86400) → IsTimeOf count (timeOf t.calendar)) ∧
      (s.Undecoded ∧ count < 86400 → ∀ any, ¬IsTimeOf any (timeOf t.calendar)) := by
  have hh := hs.high
  have hl := hs.low
  obtain ⟨d, hlo, hd⟩ := exists_date 1970 (count / 86400)
  by_cases hu : s.Undecoded ∧ count < 86400
  · obtain ⟨t, ht, htu, hth, htl⟩ := getFrom_undecoded flash count hu.1 hu.2
    refine ⟨t, _, ht, ⟨by omega, by omega, Or.inl htu⟩, by rw [counter, hth, htl, counter],
      fun h => absurd hu h, fun _ any => ?_⟩
    rintro ⟨e, he, -, htime⟩
    have hyear := (List.cons.inj htime).1
    have hzero := htu.2.1
    omega
  · have hsplit : count = d.dayNumber 1970 * 86400 + count % 86400 := by omega
    have hday : ¬(s.Undecoded ∧ d.dayNumber 1970 = 0) := fun h => hu ⟨h.1, by omega⟩
    obtain ⟨reads, hget, -⟩ := getFrom_eq flash s (count % 86400) hlo
      (Nat.mod_lt count (by decide)) (by omega) (hs.cache hlo hday)
    rw [← hsplit] at hget
    refine ⟨_, reads, hget, Driver.showing_valid hh hl _ _ hlo, rfl,
      fun _ => ⟨d, hlo, hd, ?_⟩, fun h => absurd h hu⟩
    simp only [timeOf, Driver.showing, List.cons.injEq, true_and, and_true]
    omega

/-- Writing the counter registers decodes nothing. -/
theorem setCounter_undecoded (s : Driver) (count : ℕ) :
    Driver.Undecoded { s with CNTH := count / 65536, CNTL := count % 65536 } ↔ s.Undecoded :=
  Iff.rfl

/-- The value that RTC_Get reads while the counter moves. On a carry into the
high half it is more than 18 hours too small. -/
theorem RTC_Get_split_eq (flash : Flash) {s : Driver} (hs : s.Valid) (between : Bool)
    (hwrap : counter s + between.toNat < 4294967296) :
    ∃ t, t.Valid ∧ counter t = counter s + between.toNat ∧ (t.Undecoded ↔ s.Undecoded) ∧
      RTC_Get_split flash between s = getFrom flash t
        (if between = true ∧ s.CNTL = 65535 then counter s - 65535
          else counter s + between.toNat) := by
  have hh := hs.high
  have hl := hs.low
  cases between with
  | false =>
    have hread : uint32_t (uint32_t (s.CNTH * 65536) + s.CNTL) = counter s := by
      unfold counter
      dsimp only [uint32_t]
      omega
    rw [Bool.toNat_false, Nat.add_zero]
    refine ⟨s, hs, rfl, Iff.rfl, ?_⟩
    rw [RTC_Get_split, if_neg Bool.false_ne_true, hread, if_neg fun h => Bool.false_ne_true h.1]
  | true =>
    rw [Bool.toNat_true] at hwrap ⊢
    obtain ⟨-, htl, hcount⟩ := tick_eq hwrap
    have hread : uint32_t (uint32_t (s.CNTH * 65536) + (tick s).CNTL) =
        if s.CNTL = 65535 then counter s - 65535 else counter s + 1 := by
      rw [htl]
      unfold counter at hwrap ⊢
      dsimp only [uint32_t]
      split <;> omega
    refine ⟨tick s, hs.setCounter (Nat.mod_lt _ (by decide)), hcount, setCounter_undecoded s _, ?_⟩
    rw [RTC_Get_split]
    simp only [↓reduceIte, true_and, hread]

/-- A clean call leaves the time of the counter at its end. -/
theorem get_clean (flash : Flash) {s : Driver} (hs : s.Valid) {between : Bool}
    (hwrap : counter s + between.toNat < 4294967296)
    (hcarry : ¬(between = true ∧ s.CNTL = 65535))
    (hfirst : s.Undecoded → 86400 ≤ counter s + between.toNat) :
    ∃ t reads, RTC_Get_split flash between s = some (t, reads) ∧ t.Valid ∧
      counter t = counter s + between.toNat ∧ IsTimeOf (counter t) (timeOf t.calendar) := by
  obtain ⟨u, hu, hcount, hundecoded, hget⟩ := RTC_Get_split_eq flash hs between hwrap
  rw [if_neg hcarry] at hget
  obtain ⟨t, reads, ht, htv, htc, htime, -⟩ := getFrom_time flash hu hwrap
  have hsame : counter t = counter s + between.toNat := htc.trans hcount
  refine ⟨t, reads, hget.trans ht, htv, hsame, ?_⟩
  rw [hsame]
  exact htime fun ⟨hun, hlt⟩ => absurd (hfirst (hundecoded.mp hun)) (by omega)

/-- A call that is not clean leaves no time of the counter during the call. -/
theorem get_not_clean (flash : Flash) {s t : Driver} {reads : List TableRead} (hs : s.Valid)
    {between : Bool} (hwrap : counter s + between.toNat < 4294967296)
    (hdirty : between = true ∧ s.CNTL = 65535 ∨
      s.Undecoded ∧ counter s + between.toNat < 86400)
    (ht : RTC_Get_split flash between s = some (t, reads)) {count : ℕ} (hlo : counter s ≤ count) :
    ¬IsTimeOf count (timeOf t.calendar) := by
  obtain ⟨u, hu, -, hundecoded, hget⟩ := RTC_Get_split_eq flash hs between hwrap
  rw [ht] at hget
  generalize hread : (if between = true ∧ s.CNTL = 65535 then counter s - 65535
    else counter s + between.toNat) = value at hget
  have hvalue : value ≤ counter s + between.toNat := by
    rw [← hread]
    split <;> omega
  obtain ⟨v, more, hv, -, -, htime, hnone⟩ := getFrom_time flash hu (hvalue.trans_lt hwrap)
  obtain ⟨rfl, -⟩ := Prod.mk.inj (Option.some.inj (hget.trans hv))
  by_cases hempty : u.Undecoded ∧ value < 86400
  · exact hnone hempty count
  · intro hcount
    have heq := (htime hempty).unique hcount
    have hcarry : between = true ∧ s.CNTL = 65535 := hdirty.resolve_right fun h =>
      hempty ⟨hundecoded.mpr h.1, by omega⟩
    have hlarge : 65535 ≤ counter s := by
      rw [counter, hcarry.2]
      omega
    rw [if_pos hcarry] at hread
    omega

/-! ### Runs of the clock -/

/-- The driver is coherent, the readings are orderly, and the last of them is
not ahead of the counter. -/
structure Kept (s : Clock) : Prop where
  valid : s.driver.Valid
  orderly : Orderly s
  past : ∀ r ∈ s.readings, ∃ count ≤ counter s.driver, IsTimeOf count r.time

/-- A clean event keeps the readings orderly. -/
theorem observe_kept (flash : Flash) {s t : Clock} {e : Run} (hs : Kept s) (he : Clean s e)
    (ht : observe flash s e = some t) : Kept t := by
  obtain ⟨hwrap, ht⟩ := Option.ite_none_right_eq_some.mp ht
  cases e with
  | tick =>
    cases ht
    have hcount := (tick_eq hwrap).2.2
    refine ⟨step_valid flash s.driver .tick _ hs.valid rfl, ⟨hs.orderly.genuine, hs.orderly.sorted⟩,
      fun r hr => ?_⟩
    obtain ⟨count, hle, htime⟩ := hs.past r hr
    refine ⟨count, ?_, htime⟩
    dsimp only
    omega
  | get between =>
    obtain ⟨u, reads, hget, hu, hcount, htime⟩ := get_clean flash hs.valid hwrap he.1 he.2
    simp only [hget, Option.map_some, Option.some.injEq] at ht
    subst ht
    refine ⟨hu, ⟨fun r hr => ?_, ?_⟩, fun r hr => ?_⟩
    · rcases List.mem_append.mp hr with hr | hr
      · exact hs.orderly.genuine r hr
      · obtain rfl := List.mem_singleton.mp hr
        exact ⟨counter u, by dsimp only; omega, le_rfl, htime⟩
    · rw [List.map_append, List.pairwise_append]
      refine ⟨hs.orderly.sorted, List.pairwise_singleton _ _, fun time hold time' hnew => ?_⟩
      obtain ⟨r, hr, rfl⟩ := List.mem_map.mp hold
      obtain ⟨count, hle, hpast⟩ := hs.past r hr
      obtain rfl := List.mem_singleton.mp hnew
      exact hpast.mono htime (by omega)
    · rcases List.mem_append.mp hr with hr | hr
      · obtain ⟨count, hle, hpast⟩ := hs.past r hr
        exact ⟨count, by dsimp only; omega, hpast⟩
      · obtain rfl := List.mem_singleton.mp hr
        exact ⟨counter u, le_rfl, htime⟩

/-- A call that is not clean leaves a false reading. -/
theorem not_orderly_of_not_clean (flash : Flash) {s t : Clock} {e : Run} (hs : s.driver.Valid)
    (he : ¬Clean s e) (ht : observe flash s e = some t) : ¬Orderly t := by
  obtain ⟨hwrap, ht⟩ := Option.ite_none_right_eq_some.mp ht
  cases e with
  | tick => exact absurd trivial he
  | get between =>
    obtain ⟨⟨u, reads⟩, hget, rfl⟩ := Option.map_eq_some_iff.mp ht
    have hdirty : between = true ∧ s.driver.CNTL = 65535 ∨
        s.driver.Undecoded ∧ counter s.driver + between.toNat < 86400 := by
      by_contra hclean
      rw [not_or] at hclean
      exact he ⟨hclean.1, fun hun => Nat.le_of_not_lt fun hlt => hclean.2 ⟨hun, hlt⟩⟩
    intro horderly
    obtain ⟨count, hlo, -, htime⟩ :=
      horderly.genuine _ (List.mem_append_right _ (List.mem_singleton_self _))
    exact get_not_clean flash hs hwrap hdirty hget hlo htime

/-- From every reachable driver state, the readings of a run are genuine and never
go backwards exactly if every call of RTC_Get is clean. -/
theorem orderly_iff_clean (flash : Flash) {s : Driver}
    (hs : Reachable PowerOn (step flash) s) (es : List Run) :
    Always Orderly (observe flash) ⟨s, []⟩ es ↔ Guarded Clean (observe flash) ⟨s, []⟩ es := by
  have hstart : Kept ⟨s, []⟩ := ⟨valid_of_reachable flash hs,
    ⟨fun r hr => absurd hr List.not_mem_nil, List.Pairwise.nil⟩,
    fun r hr => absurd hr List.not_mem_nil⟩
  exact always_iff_guarded (fun _ h => h.orderly) (fun _ _ _ => observe_kept flash)
    (fun _ _ _ hk => not_orderly_of_not_clean flash hk.valid) es hstart

/-- The driver at power-on on the second day, one second before a carry. -/
def beforeCarry : Driver := ⟨⟨0, 0, 0, 0, 0, 0, 0⟩, 0, 2, 65534⟩

/-- Readings before and after a carry are orderly. -/
theorem orderly_across_carry :
    Reachable PowerOn (step ⟨fun _ => 0, fun _ => 0⟩) beforeCarry ∧
      Always Orderly (observe ⟨fun _ => 0, fun _ => 0⟩) ⟨beforeCarry, []⟩
        [.get true, .tick, .get false, .get true] :=
  have hs : Reachable PowerOn (step ⟨fun _ => 0, fun _ => 0⟩) beforeCarry :=
    Reachable.of_init ⟨rfl, rfl, by decide, by decide⟩
  ⟨hs, (orderly_iff_clean _ hs _).mpr (by decide +kernel)⟩

/-- A carry between the two reads sets the clock back. -/
theorem not_orderly_on_carry :
    ¬∀ (flash : Flash) (s : Driver), Reachable PowerOn (step flash) s →
      ∀ es, Always Orderly (observe flash) ⟨s, []⟩ es := by
  intro h
  let flash : Flash := ⟨fun _ => 0, fun _ => 0⟩
  let s : Driver := ⟨⟨0, 0, 0, 0, 0, 0, 0⟩, 0, 2, 65535⟩
  have hs : Reachable PowerOn (step flash) s := Reachable.of_init ⟨rfl, rfl, by decide, by decide⟩
  have hsome : (observe flash ⟨s, []⟩ (.get true)).isSome = true := by decide +kernel
  obtain ⟨t, ht⟩ := Option.isSome_iff_exists.mp hsome
  have hdirty : ¬Clean ⟨s, []⟩ (.get true) := fun hclean => hclean.1 ⟨rfl, rfl⟩
  exact not_orderly_of_not_clean flash (valid_of_reachable flash hs) hdirty ht
    ((h flash s hs [.get true]).2 t ht).head

end SmartHome.RtcReadout
