import SmartHome.SetTimeSessions

/-!
# The times that a session writes to the clock

The six fields of a time are edited independently of one another: what a
session leaves in a field is the number typed into it since it was selected
last, or the calendar's. A number is below the limit of its field, so the
arguments of RTC_Set are a real time except where zero, sixty or a day that the
month does not have was entered.
-/

namespace SmartHome.EnteredTimes

open CountedCalendar HomePanel RtcDriver SetTimeEditor SetTimeSessions

/-- The value of a field. -/
def fieldOf : Field → Time → ℕ
  | .SET_YEAR => Time.year
  | .SET_MON => Time.mon
  | .SET_DAY => Time.day
  | .SET_HOUR => Time.hour
  | .SET_MIN => Time.min
  | .SET_SEC => Time.sec
  | .SET_WEEK => Time.week

/-- Numbers of a field stay below its limit. -/
def limit : Field → ℕ
  | .SET_YEAR => 100
  | .SET_MON => 13
  | .SET_DAY => 32
  | .SET_HOUR => 24
  | .SET_MIN => 61
  | .SET_SEC => 61
  | .SET_WEEK => 1

/-- The value of a field with the number zero. -/
def base : Field → ℕ
  | .SET_YEAR => 2000
  | _ => 0

/-- What touches mean for one field. -/
structure Entry where
  /-- The field is the selected one. -/
  selected : Bool
  /-- The digit buffer, while the field is selected. -/
  buffer : ℕ
  /-- The number entered into the field, if it has been edited. -/
  number : Option ℕ
  deriving DecidableEq, Repr

/-- One touch as one field sees it. -/
def enter (f : Field) (s : Entry) : Edit → Entry
  | .field g => if g = f then ⟨true, 0, some 0⟩ else { s with selected := false }
  | .digit d =>
    if s.selected then
      let v := extend s.buffer (digitValue d) (limit f)
      { s with buffer := v, number := some v }
    else s

/-- The number that a session enters into a field, if it edits it. -/
def entered (f : Field) (x : Session) (e : Editor) : Option ℕ :=
  (x.touches.foldl (enter f) ⟨decide (e.time_flag_flash = flag f), e.set_value, none⟩).number

/-- The value that a session asks for: the number entered, or the calendar's. -/
def requested (f : Field) (x : Session) (e : Editor) : ℕ :=
  ((entered f x e).map (base f + ·)).getD (fieldOf f (beginSession x.calendar e).Set_time)

/-- A date and time that exist. -/
structure IsReal (t : Time) : Prop where
  month_pos : 1 ≤ t.mon
  month_le : t.mon ≤ 12
  day_pos : 1 ≤ t.day
  day_le : t.day ≤ monthLength t.year (t.mon - 1)
  hour_lt : t.hour < 24
  min_lt : t.min < 60
  sec_lt : t.sec < 60

/-- What the end of a session does to the clock. -/
def finish (flash : Flash) (x : Session) (e : Editor) (s : Driver) : Option Driver :=
  match x.leave with
  | .CANCLE => some s
  | .OK =>
    let t := (x.edited e).Set_time
    (RTC_Set flash s t.year t.mon t.day t.hour t.min t.sec).map fun r => r.2.1

/-- OK passes a real time to RTC_Set, and CANCLE leaves the clock alone. -/
def WritesReal (flash : Flash) (x : Session) (e : Editor) : Prop :=
  match x.leave with
  | .CANCLE => ∀ s, finish flash x e s = some s
  | .OK => IsReal (x.edited e).Set_time

/-- No zero is entered as the month or the day, no sixty as the minute or the
second, and the month asked for has the day asked for. -/
structure Proper (x : Session) (e : Editor) : Prop where
  month : entered .SET_MON x e ≠ some 0
  day : entered .SET_DAY x e ≠ some 0
  fits : requested .SET_DAY x e ≤
    monthLength (requested .SET_YEAR x e) (requested .SET_MON x e - 1)
  min : entered .SET_MIN x e ≠ some 60
  sec : entered .SET_SEC x e ≠ some 60

/-! ### One field -/

/-- The extended buffer is below the limit. -/
theorem extend_lt {limit : ℕ} (h : 0 < limit) (v key : ℕ) : extend v key limit < limit := by
  unfold extend
  dsimp only
  split <;> omega

/-- A selection clears its own field. -/
theorem fieldOf_select_self (f : Field) (e : Editor) :
    fieldOf f (selectField f e).Set_time = base f := by
  cases f <;> rfl

/-- A selection leaves the other fields. -/
theorem fieldOf_select_of_ne {f g : Field} (h : g ≠ f) (e : Editor) :
    fieldOf f (selectField g e).Set_time = fieldOf f e.Set_time := by
  cases f <;> cases g <;> first | rfl | exact absurd rfl h

/-- A digit key extends the buffer of the selected field and stores it there. -/
theorem digitKey_self {f : Field} (hweek : f ≠ .SET_WEEK) {e : Editor}
    (h : e.time_flag_flash = flag f) (key week : ℕ) :
    (digitKey key week e).set_value = extend e.set_value key (limit f) ∧
      fieldOf f (digitKey key week e).Set_time = base f + extend e.set_value key (limit f) := by
  have hlimit : 0 < limit f := by cases f <;> decide
  have hlt := extend_lt hlimit e.set_value key
  cases f with
  | SET_WEEK => exact absurd rfl hweek
  | _ =>
    simp only [flag] at h
    simp only [limit] at hlt
    simp only [digitKey, h, fieldOf, limit, base]
    refine ⟨trivial, ?_⟩
    dsimp only [MachineWords.uint8_t, MachineWords.uint16_t]
    omega

/-- A digit key leaves the fields that are not selected. -/
theorem fieldOf_digitKey_of_ne {f : Field} {e : Editor} (h : e.time_flag_flash ≠ flag f)
    (key week : ℕ) : fieldOf f (digitKey key week e).Set_time = fieldOf f e.Set_time := by
  unfold digitKey
  dsimp only
  cases f <;> split <;> first | exact absurd (by assumption) h | dsimp only [fieldOf]

/-! ### The touches of a session -/

/-- The editor, as far as one field is concerned. -/
structure Follows (f : Field) (start : ℕ) (e : Editor) (s : Entry) : Prop where
  selected : s.selected = true ↔ e.time_flag_flash = flag f
  buffer : s.selected = true → e.set_value = s.buffer
  value : fieldOf f e.Set_time = (s.number.map (base f + ·)).getD start

/-- A touch means for the editor what it means for the field. -/
theorem Follows.touch {f : Field} (hweek : f ≠ .SET_WEEK) {start : ℕ} {e : Editor} {s : Entry}
    (h : Follows f start e s) (a : Edit) : Follows f start (a.run e) (enter f s a) := by
  cases a with
  | field g =>
    dsimp only [enter]
    by_cases hg : g = f
    · subst hg
      rw [if_pos rfl]
      exact ⟨iff_of_true rfl (selectField_flag g e), fun _ => selectField_set_value g e,
        fieldOf_select_self g e⟩
    · have hflag : flag g ≠ flag f := fun heq => hg (flag_injective heq)
      rw [if_neg hg]
      refine ⟨iff_of_false (by simp) ?_, fun hs => absurd hs (by simp), ?_⟩
      · simp only [Edit.run, selectField_flag]
        exact hflag
      · exact (fieldOf_select_of_ne hg e).trans h.value
  | digit d =>
    obtain ⟨week, hrun⟩ := run_digit d
    simp only [Edit.run, hrun, enter]
    by_cases hs : s.selected = true
    · have hflag := h.selected.mp hs
      obtain ⟨hvalue, hfield⟩ := digitKey_self hweek hflag (digitValue d) week
      rw [if_pos hs]
      rw [h.buffer hs] at hvalue hfield
      exact ⟨iff_of_true hs ((digitKey_flag _ _ e).trans hflag), fun _ => hvalue, hfield⟩
    · have hflag : e.time_flag_flash ≠ flag f := fun heq => hs (h.selected.mpr heq)
      rw [if_neg hs]
      refine ⟨by rw [digitKey_flag]; exact h.selected, fun hs' => absurd hs' hs, ?_⟩
      rw [fieldOf_digitKey_of_ne hflag]
      exact h.value

/-- Touches in a row. -/
theorem Follows.touches {f : Field} (hweek : f ≠ .SET_WEEK) {start : ℕ} {e : Editor} {s : Entry}
    (h : Follows f start e s) (touches : List Edit) :
    Follows f start (runTouches touches e) (touches.foldl (enter f) s) := by
  induction touches generalizing e s with
  | nil => exact h
  | cons a touches ih => exact ih (h.touch hweek a)

/-- A session leaves in each field of the time what it asks for. -/
theorem fieldOf_edited (x : Session) (e : Editor) (f : Field) (hweek : f ≠ .SET_WEEK) :
    fieldOf f (x.edited e).Set_time = requested f x e := by
  have hstart : Follows f (fieldOf f (beginSession x.calendar e).Set_time)
      (beginSession x.calendar e) ⟨decide (e.time_flag_flash = flag f), e.set_value, none⟩ :=
    ⟨decide_eq_true_iff, fun _ => rfl, rfl⟩
  exact (hstart.touches hweek x.touches).value

/-- A number that is entered is below the limit of its field. -/
theorem entered_lt {f : Field} {x : Session} {e : Editor} {v : ℕ} (h : entered f x e = some v) :
    v < limit f := by
  have hpos : 0 < limit f := by cases f <;> decide
  have hall : ∀ (touches : List Edit) (s : Entry), (∀ w ∈ s.number, w < limit f) →
      ∀ w ∈ (touches.foldl (enter f) s).number, w < limit f := by
    intro touches
    induction touches with
    | nil => exact fun s hs => hs
    | cons a touches ih =>
      intro s hs
      refine ih _ fun w hw => ?_
      unfold enter at hw
      split at hw
      · split at hw
        · obtain rfl := Option.mem_some_iff.mp hw
          exact hpos
        · exact hs w hw
      · split at hw
        · obtain rfl := Option.mem_some_iff.mp hw
          exact extend_lt hpos _ _
        · exact hs w hw
  exact hall x.touches _ (by simp) v h

/-! ### The arguments of RTC_Set -/

/-- A value that is asked for is a number below the limit, or the calendar's. -/
theorem requested_cases (f : Field) (x : Session) (e : Editor) :
    (∃ v, entered f x e = some v ∧ v < limit f ∧ requested f x e = base f + v) ∨
      entered f x e = none ∧
        requested f x e = fieldOf f (beginSession x.calendar e).Set_time := by
  cases h : entered f x e with
  | none => exact Or.inr ⟨rfl, by rw [requested, h]; rfl⟩
  | some v => exact Or.inl ⟨v, rfl, entered_lt h, by rw [requested, h]; rfl⟩

section Requests

variable {x : Session} {e : Editor} {f : Field} (hbase : base f = 0)

include hbase

/-- What is asked for stays below the limit if the calendar's value does. -/
theorem requested_lt (h : fieldOf f (beginSession x.calendar e).Set_time < limit f) :
    requested f x e < limit f := by
  rcases requested_cases f x e with ⟨v, -, hlt, hv⟩ | ⟨-, hv⟩ <;> omega

/-- Only a zero that is entered asks for zero. -/
theorem requested_pos_iff (h : 1 ≤ fieldOf f (beginSession x.calendar e).Set_time) :
    1 ≤ requested f x e ↔ entered f x e ≠ some 0 := by
  rcases requested_cases f x e with ⟨v, hentered, -, hv⟩ | ⟨hentered, hv⟩
  · rw [hentered, hv, hbase, ne_eq, Option.some.injEq]
    omega
  · rw [hentered, hv]
    exact iff_of_true h (by simp)

/-- Only a sixty that is entered asks for sixty. -/
theorem requested_lt_sixty_iff (hlimit : limit f = 61)
    (h : fieldOf f (beginSession x.calendar e).Set_time < 60) :
    requested f x e < 60 ↔ entered f x e ≠ some 60 := by
  rcases requested_cases f x e with ⟨v, hentered, hlt, hv⟩ | ⟨hentered, hv⟩
  · rw [hentered, hv, hbase, ne_eq, Option.some.injEq]
    omega
  · rw [hentered, hv]
    exact iff_of_true h (by simp)

end Requests

/-- What a session leaves is real if what it asks for is. -/
theorem isReal_edited (x : Session) (e : Editor) :
    IsReal (x.edited e).Set_time ↔
      (1 ≤ requested .SET_MON x e ∧ requested .SET_MON x e ≤ 12) ∧
      (1 ≤ requested .SET_DAY x e ∧ requested .SET_DAY x e ≤
        monthLength (requested .SET_YEAR x e) (requested .SET_MON x e - 1)) ∧
      requested .SET_HOUR x e < 24 ∧ requested .SET_MIN x e < 60 ∧
      requested .SET_SEC x e < 60 := by
  have h := fieldOf_edited x e
  rw [← h .SET_YEAR (by decide), ← h .SET_MON (by decide), ← h .SET_DAY (by decide),
    ← h .SET_HOUR (by decide), ← h .SET_MIN (by decide), ← h .SET_SEC (by decide)]
  exact ⟨fun ⟨hm1, hm2, hd1, hd2, hh, hmin, hsec⟩ => ⟨⟨hm1, hm2⟩, ⟨hd1, hd2⟩, hh, hmin, hsec⟩,
    fun ⟨⟨hm1, hm2⟩, ⟨hd1, hd2⟩, hh, hmin, hsec⟩ => ⟨hm1, hm2, hd1, hd2, hh, hmin, hsec⟩⟩

/-- From a real calendar a session leaves a real time exactly if it is proper. -/
theorem isReal_edited_iff {x : Session} {e : Editor}
    (hreal : IsReal (beginSession x.calendar e).Set_time) :
    IsReal (x.edited e).Set_time ↔ Proper x e := by
  have hmon := requested_pos_iff (f := .SET_MON) rfl hreal.month_pos
  have hday := requested_pos_iff (f := .SET_DAY) rfl hreal.day_pos
  have hmin := requested_lt_sixty_iff (f := .SET_MIN) rfl rfl hreal.min_lt
  have hsec := requested_lt_sixty_iff (f := .SET_SEC) rfl rfl hreal.sec_lt
  have hmon12 := requested_lt (f := .SET_MON) rfl (Nat.lt_succ_of_le hreal.month_le)
  have hhour := requested_lt (f := .SET_HOUR) rfl hreal.hour_lt
  rw [isReal_edited, hmon, hday, hmin, hsec]
  constructor
  · rintro ⟨⟨hm, -⟩, ⟨hd, hfits⟩, -, hmi, hs⟩
    exact ⟨hm, hd, hfits, hmi, hs⟩
  · rintro ⟨hm, hd, hfits, hmi, hs⟩
    exact ⟨⟨hm, Nat.le_of_lt_succ hmon12⟩, ⟨hd, hfits⟩, hhour, hmi, hs⟩

/-- After every history and from every real calendar, a session passes a real
time or leaves the clock alone exactly if it is cancelled or proper. -/
theorem writesReal_iff_proper (flash : Flash) (history : List Session) (x : Session)
    (hreal : IsReal (beginSession x.calendar (editorAfter history)).Set_time) :
    WritesReal flash x (editorAfter history) ↔
      (x.leave = .OK → Proper x (editorAfter history)) := by
  cases hleave : x.leave with
  | CANCLE => simp [WritesReal, finish, hleave]
  | OK => simp [WritesReal, hleave, isReal_edited_iff hreal]

/-- The twenty-ninth of February of a leap year is typed and set. -/
theorem writesReal_leapDay :
    let x : Session := ⟨⟨13, 30, 0, 2024, 5, 17, 5⟩,
      [.field .SET_MON, .digit .TWO, .field .SET_DAY, .digit .TWO, .digit .NINE], .OK⟩
    WritesReal ⟨fun _ => 0, fun _ => 0⟩ x (editorAfter []) :=
  (writesReal_iff_proper _ [] _
    ⟨by decide, by decide, by decide, by decide, by decide, by decide, by decide⟩).mpr
      fun _ => ⟨by decide, by decide, by decide, by decide, by decide⟩

/-- A month that is selected and not typed is written as zero. -/
theorem not_writesReal_after_selection :
    ¬∀ flash history x, IsReal (beginSession x.calendar (editorAfter history)).Set_time →
      WritesReal flash x (editorAfter history) := by
  intro h
  have hmonth := (h ⟨fun _ => 0, fun _ => 0⟩ [] ⟨⟨13, 30, 0, 2024, 5, 17, 5⟩,
    [.field .SET_MON], .OK⟩
    ⟨by decide, by decide, by decide, by decide, by decide, by decide, by decide⟩).month_pos
  exact absurd hmonth (by decide)

end SmartHome.EnteredTimes
