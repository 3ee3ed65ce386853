import SmartHome.SetTimeEditor

/-!
# The touch thread and the time setting it opens

touch_thread and Set_Time are two polling loops over the same touch state,
each with a loop that waits for the release. The machine advances from one
call of tp_dev.scan(0) to the next; what a pass over the regions does is
reported as a list of actions. Leaving Set_Time goes on in touch_thread with
the remaining regions and the same coordinates.
-/

namespace SmartHome.TouchThread

open TouchRegions HomePanel SetTimeEditor

/-- The touch state tp_dev. -/
structure TpDev where
  /-- Bit 7 of sta. -/
  PRES_DOWN : Bool
  /-- Bit 6 of sta. -/
  CATH_PRES : Bool
  /-- The coordinates x[0] and y[0]. -/
  current : Point
  /-- The coordinates x[4] and y[4]. -/
  first : Point
  deriving DecidableEq, Repr

/-- What the pen and the converter deliver to one scan. -/
inductive Sample where
  | up
  /-- Pen down; the screen coordinates if both rounds of reading agree. -/
  | down (read : Option Point)
  deriving DecidableEq, Repr

/-- One scan with screen coordinates. -/
def TP_Scan (sample : Sample) (d : TpDev) : TpDev :=
  match sample with
  | .down read =>
    let d := { d with current := read.getD d.current }
    if d.PRES_DOWN then d
    else { d with PRES_DOWN := true, CATH_PRES := true, first := d.current }
  | .up =>
    if d.PRES_DOWN then { d with PRES_DOWN := false }
    else { d with first := ⟨0, 0⟩, current := ⟨0xffff, 0xffff⟩ }

/-- The loop whose next scan is to come. -/
inductive Pc where
  /-- Main loop of touch_thread. -/
  | main
  /-- touch_thread waits for the release. -/
  | mainRelease
  /-- Main loop of Set_Time. -/
  | setTime
  /-- Set_Time waits for the release. -/
  | setTimeRelease
  deriving DecidableEq, Repr

/-- State between two scans. -/
structure Touch where
  tp_dev : TpDev
  pc : Pc
  editor : Editor
  deriving DecidableEq, Repr

/-- What a touch does. -/
inductive Action where
  /-- Set_Time is opened. -/
  | TIME
  | panel (a : PanelAction)
  | edit (e : Edit)
  | CANCLE
  /-- The edited time is passed to RTC_Set. -/
  | OK (t : Time)
  deriving DecidableEq, Repr

/-- A touch inside the display. -/
def Touch.pressed (lcddev : Lcddev) (t : Touch) : Bool :=
  t.tp_dev.PRES_DOWN && decide (lcddev.Covers t.tp_dev.current)

/-- The regions after TIME, then the wait for the release. -/
def panelPass (lcddev : Lcddev) (t : Touch) : Touch × List Action :=
  ({ t with pc := .mainRelease }, (panelActions lcddev t.tp_dev.current).map .panel)

/-- One pass of touch_thread after its scan. -/
def touchPass (lcddev : Lcddev) (calendar : RtcDriver.Calendar) (t : Touch) :
    Touch × List Action :=
  if t.pressed lcddev then
    if TIME.Hit t.tp_dev.current then
      ({ t with pc := .setTime, editor := beginSession calendar t.editor }, [.TIME])
    else panelPass lcddev t
  else (t, [])

/-- One pass of Set_Time after its scan. -/
def setTimePass (lcddev : Lcddev) (t : Touch) : Touch × List Action :=
  if t.pressed lcddev then
    let done := edits t.tp_dev.current
    let editor := done.foldl (fun e a => a.run e) t.editor
    if CANCLE.Hit t.tp_dev.current then
      let (t, more) := panelPass lcddev { t with editor := { editor with status := 67 } }
      (t, done.map .edit ++ [.CANCLE] ++ more)
    else if OK.Hit t.tp_dev.current then
      let (t, more) := panelPass lcddev { t with editor := { editor with status := 69 } }
      (t, done.map .edit ++ [.OK editor.Set_time] ++ more)
    else ({ t with pc := .setTimeRelease, editor := editor }, done.map .edit)
  else (t, [])

/-- One scan and everything up to the next one. The calendar is read when a
time setting begins. -/
def step (lcddev : Lcddev) (calendar : RtcDriver.Calendar) (t : Touch) (sample : Sample) :
    Touch × List Action :=
  let t := { t with tp_dev := TP_Scan sample t.tp_dev }
  match t.pc with
  | .main => touchPass lcddev calendar t
  | .mainRelease => if t.tp_dev.PRES_DOWN then (t, []) else ({ t with pc := .main }, [])
  | .setTime => setTimePass lcddev t
  | .setTimeRelease => if t.tp_dev.PRES_DOWN then (t, []) else ({ t with pc := .setTime }, [])

/-- Scans in a row, with the actions of all of them. -/
def scans (lcddev : Lcddev) (calendar : RtcDriver.Calendar) :
    Touch → List Sample → Touch × List Action
  | t, [] => (t, [])
  | t, sample :: samples =>
    let (u, done) := step lcddev calendar t sample
    let (v, more) := scans lcddev calendar u samples
    (v, done ++ more)

/-- Touch state and statics at power-on. -/
def start : Touch := ⟨⟨false, false, ⟨0, 0⟩, ⟨0, 0⟩⟩, .main, initial⟩

/-- The first scan, then the others. -/
theorem scans_cons {lcddev : Lcddev} {calendar : RtcDriver.Calendar} {t u : Touch}
    {sample : Sample} {done : List Action} (h : step lcddev calendar t sample = (u, done))
    (samples : List Sample) :
    scans lcddev calendar t (sample :: samples) =
      ((scans lcddev calendar u samples).1, done ++ (scans lcddev calendar u samples).2) := by
  rw [scans, h]

/-- Scans of a composed sequence. -/
theorem scans_append (lcddev : Lcddev) (calendar : RtcDriver.Calendar) (t : Touch)
    (xs ys : List Sample) :
    scans lcddev calendar t (xs ++ ys) =
      ((scans lcddev calendar (scans lcddev calendar t xs).1 ys).1,
        (scans lcddev calendar t xs).2 ++
          (scans lcddev calendar (scans lcddev calendar t xs).1 ys).2) := by
  induction xs generalizing t with
  | nil => simp [scans]
  | cons x xs ih => simp [scans, ih]

end SmartHome.TouchThread
