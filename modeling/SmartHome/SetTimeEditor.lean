import SmartHome.HomePanel
import SmartHome.MachineWords
import SmartHome.RtcDriver

/-!
# The fields and keys of the time setting

Set_Time edits a copy of the calendar. A touched field becomes the selected
one and is cleared together with the digit buffer; a touched digit key extends
the buffer and stores it into the selected field. The selection, the buffer
and the leaving key are static and survive from one session to the next.
-/

namespace SmartHome.SetTimeEditor

open MachineWords TouchRegions HomePanel

/-- The structure time of the edited copy. -/
structure Time where
  year : ℕ
  mon : ℕ
  week : ℕ
  day : ℕ
  hour : ℕ
  min : ℕ
  sec : ℕ
  deriving DecidableEq, Repr

/-- The edited copy and the static variables of Set_Time. -/
structure Editor where
  Set_time : Time
  /-- Selected field: 1, 2, 3 year, month, day, 7 weekday, 11, 12, 13 time. -/
  time_flag_flash : ℕ
  key_value : ℕ
  /-- Digit buffer. -/
  set_value : ℕ
  /-- Key that ended the last session, 67 for CANCLE and 69 for OK. -/
  status : ℕ
  deriving DecidableEq, Repr

/-- Initial values of the static variables. -/
def initial : Editor := ⟨⟨0, 0, 2, 0, 0, 0, 0⟩, 1, 0, 0, 0⟩

/-- A session starts with a copy of the calendar; the statics are kept. -/
def beginSession (calendar : RtcDriver.Calendar) (e : Editor) : Editor :=
  { e with Set_time := ⟨calendar.w_year, calendar.w_month, calendar.week, calendar.w_date,
      calendar.hour, calendar.min, calendar.sec⟩ }

/-- Select and clear a field. -/
def selectField (f : Field) (e : Editor) : Editor :=
  match f with
  | .SET_YEAR => { e with time_flag_flash := 1, set_value := 0,
                          Set_time := { e.Set_time with year := 0 + 2000 } }
  | .SET_MON => { e with time_flag_flash := 2, set_value := 0,
                         Set_time := { e.Set_time with mon := 0 } }
  | .SET_DAY => { e with time_flag_flash := 3, set_value := 0,
                         Set_time := { e.Set_time with day := 0 } }
  | .SET_HOUR => { e with time_flag_flash := 11, set_value := 0,
                          Set_time := { e.Set_time with hour := 0 } }
  | .SET_MIN => { e with time_flag_flash := 12, set_value := 0,
                         Set_time := { e.Set_time with min := 0 } }
  | .SET_SEC => { e with time_flag_flash := 13, set_value := 0,
                         Set_time := { e.Set_time with sec := 0 } }
  | .SET_WEEK => { e with time_flag_flash := 7, set_value := 0,
                          Set_time := { e.Set_time with week := 0 } }

/-- The extended digit buffer, reset from the limit on. -/
def extend (set_value key_value limit : ℕ) : ℕ :=
  let set_value := uint16_t (set_value * 10 + key_value)
  if limit ≤ set_value then 0 else set_value

/-- The body shared by the ten digit keys; weekValue is what the key stores
for the weekday. -/
def digitKey (key_value weekValue : ℕ) (e : Editor) : Editor :=
  let e := { e with key_value := key_value }
  match e.time_flag_flash with
  | 1 =>
    let v := extend e.set_value key_value 100
    { e with set_value := v, Set_time := { e.Set_time with year := uint16_t (v + 2000) } }
  | 2 =>
    let v := extend e.set_value key_value 13
    { e with set_value := v, Set_time := { e.Set_time with mon := uint8_t v } }
  | 3 =>
    let v := extend e.set_value key_value 32
    { e with set_value := v, Set_time := { e.Set_time with day := uint8_t v } }
  | 11 =>
    let v := extend e.set_value key_value 24
    { e with set_value := v, Set_time := { e.Set_time with hour := uint8_t v } }
  | 12 =>
    let v := extend e.set_value key_value 61
    { e with set_value := v, Set_time := { e.Set_time with min := uint8_t v } }
  | 13 =>
    let v := extend e.set_value key_value 61
    { e with set_value := v, Set_time := { e.Set_time with sec := uint8_t v } }
  | 7 => { e with Set_time := { e.Set_time with week := weekValue } }
  | _ => e

/-- Digit keys of the number pad. -/
inductive Digit where
  | ZERO
  | ONE
  | TWO
  | THREE
  | FOUR
  | FIVE
  | SIX
  | SEVEN
  | EIGHT
  | NINE
  deriving DecidableEq, Repr

/-- Effect of a digit key; as a weekday, seven is Sunday and the last two
keys store the invalid day 9. -/
def Digit.run : Digit → Editor → Editor
  | .ZERO => digitKey 0 0
  | .ONE => digitKey 1 1
  | .TWO => digitKey 2 2
  | .THREE => digitKey 3 3
  | .FOUR => digitKey 4 4
  | .FIVE => digitKey 5 5
  | .SIX => digitKey 6 6
  | .SEVEN => digitKey 7 0
  | .EIGHT => digitKey 8 9
  | .NINE => digitKey 9 9

/-- A touch inside Set_Time other than CANCLE and OK. -/
inductive Edit where
  | field (f : Field)
  | digit (d : Digit)
  deriving DecidableEq, Repr

/-- Effect of an edit. -/
def Edit.run : Edit → Editor → Editor
  | .field f => selectField f
  | .digit d => d.run

/-- Regions of the fields and digit keys in the order of their tests. -/
def editTable : List (Region × Edit) :=
  [(SET_YEAR, .field .SET_YEAR), (SET_MON, .field .SET_MON), (SET_DAY, .field .SET_DAY),
   (SET_HOUR, .field .SET_HOUR), (SET_MIN, .field .SET_MIN), (SET_SEC, .field .SET_SEC),
   (SET_WEEK, .field .SET_WEEK),
   (ZERO, .digit .ZERO), (ONE, .digit .ONE), (TWO, .digit .TWO), (THREE, .digit .THREE),
   (FOUR, .digit .FOUR), (FIVE, .digit .FIVE), (SIX, .digit .SIX), (SEVEN, .digit .SEVEN),
   (EIGHT, .digit .EIGHT), (NINE, .digit .NINE)]

/-- Edits of one pass of Set_Time over its regions. -/
def edits (p : Point) : List Edit := hits editTable p

end SmartHome.SetTimeEditor
