import SmartHome.ByteStrings
import SmartHome.TouchRegions

/-!
# The control panel and the commands that act on it

The panel is the working mode, the buzzer, the two lamp outputs and the texts
last drawn on the mode label and the three lamp lines. An output of false
switches its lamp on. Every function here runs with the scheduler locked or is
one uninterrupted piece of a thread; colours are left out.
-/

namespace SmartHome.HomePanel

open ByteStrings TouchRegions

/-- Working modes of the alarm system. -/
inductive Mode where
  | HOME
  | OUT
  deriving DecidableEq, Repr

/-- Mode, outputs and the texts on the display. -/
structure Panel where
  sys_status : Mode
  BEEP : Bool
  RED_LED : Bool
  GREEN_LED : Bool
  /-- Text last drawn at the mode label. -/
  modeText : String
  /-- Text last drawn at row 236. -/
  bedroomText : String
  /-- Text last drawn at row 254. -/
  livingroomText : String
  /-- Text last drawn at row 272. -/
  corridorText : String
  deriving DecidableEq, Repr

/-- Mails to the message sending thread. -/
inductive GSMMail where
  | report_status
  | set_ok
  | set_Err
  | MQ_LEAKING
  | Invaiding
  | tips
  | On_Fire
  deriving DecidableEq, Repr

/-- Mails to the radio thread, named after the remote keys. -/
inductive CurtainMail where
  | left
  | stop
  | right
  deriving DecidableEq, Repr

def bedroomON : String := "Bedroom    Light:     ON "
def bedroomOFF : String := "Bedroom    Light:     OFF"
def livingroomON : String := "Livingroom Light:     ON "
def livingroomOFF : String := "Livingroom Light:     OFF"
def corridorON : String := "Corridor   Light:     ON "
def corridorOFF : String := "Corridor   Light:     OFF"

/-- Switch between the modes from the touch screen or the remote control. -/
def toggleMode (p : Panel) : Panel :=
  if p.sys_status = .HOME then { p with modeText := " OUT  ", sys_status := .OUT }
  else { p with modeText := " Home ", sys_status := .HOME }

/-- Lamp command 1, 2 or 3. BEDROOM_LIGHT and LIVINGROOM_LIGHT are both
RED_LED, CORRIDOR_LIGHT is GREEN_LED. -/
def Light_Control (val : ℕ) (p : Panel) : Panel :=
  match val with
  | 1 =>
    let p := { p with RED_LED := !p.RED_LED }
    if p.RED_LED then { p with bedroomText := bedroomOFF }
    else { p with bedroomText := bedroomON }
  | 2 =>
    let p := { p with RED_LED := !p.RED_LED }
    if p.RED_LED then { p with livingroomText := livingroomOFF }
    else { p with livingroomText := livingroomON }
  | 3 =>
    if p.GREEN_LED then { p with GREEN_LED := false, corridorText := corridorON }
    else { p with GREEN_LED := true, corridorText := corridorOFF }
  | _ => p

/-- Draw the main window with its fixed texts. -/
def Draw_window (p : Panel) : Panel :=
  { p with modeText := " Home ", bedroomText := bedroomOFF,
           livingroomText := livingroomOFF, corridorText := corridorOFF }

/-- Panel and display after the start-up of the application. -/
def Smart_IOT_Center : Panel where
  sys_status := .HOME
  BEEP := false
  RED_LED := true
  GREEN_LED := true
  modeText := " Home "
  bedroomText := bedroomOFF
  livingroomText := livingroomOFF
  corridorText := corridorOFF

/-- Regions that touch_thread tests after a possible time setting. -/
inductive PanelAction where
  | MODE
  | Bedroom_Light
  | Livingroom_Light
  | Corridor_Light
  | Curtain_CLOSE
  | Curtain_OPEN
  | Curtain_KT
  deriving DecidableEq, Repr

/-- Regions of the main panel in the order of their tests. -/
def panelTable (lcddev : Lcddev) : List (Region × PanelAction) :=
  [(MODE, .MODE), (Bedroom_Light lcddev, .Bedroom_Light),
   (Livingroom_Light lcddev, .Livingroom_Light), (Corridor_Light lcddev, .Corridor_Light),
   (Curtain_CLOSE, .Curtain_CLOSE), (Curtain_OPEN, .Curtain_OPEN), (Curtain_KT, .Curtain_KT)]

/-- The actions of one pass of touch_thread over its regions. -/
def panelActions (lcddev : Lcddev) (p : Point) : List PanelAction := hits (panelTable lcddev) p

/-- Effect of a touched region on the panel. -/
def PanelAction.run : PanelAction → Panel → Panel
  | .MODE, p => toggleMode p
  | .Bedroom_Light, p => Light_Control 1 p
  | .Livingroom_Light, p => Light_Control 2 p
  | .Corridor_Light, p => Light_Control 3 p
  | .Curtain_CLOSE, p => p
  | .Curtain_OPEN, p => p
  | .Curtain_KT, p => p

/-- Mail posted for a touched region. -/
def PanelAction.mails : PanelAction → List CurtainMail
  | .Curtain_CLOSE => [.right]
  | .Curtain_OPEN => [.left]
  | .Curtain_KT => [.stop]
  | _ => []

/-- Keys of the remote control that IRDA_thread serves. -/
inductive Key where
  | powr
  | up
  | log
  | left
  | stop
  | right
  deriving DecidableEq, Repr

/-- Effect of a remote key on the panel. -/
def Key.run : Key → Panel → Panel
  | .powr, p => toggleMode p
  | .up, p => Light_Control 2 p
  | .log, p => Light_Control 3 p
  | .left, p => p
  | .stop, p => p
  | .right, p => p

/-- Mail posted for a remote key. -/
def Key.mails : Key → List CurtainMail
  | .left => [.left]
  | .stop => [.stop]
  | .right => [.right]
  | _ => []

/-- Set the mode on request of a short message. -/
def setModeBySMS (m : Mode) (p : Panel) : Panel × GSMMail :=
  let p := { p with sys_status := m,
                    modeText := if m = .HOME then " Home " else " OUT ",
                    BEEP := false, RED_LED := true }
  (p, if p.sys_status = m then .set_ok else .set_Err)

/-- Dispatch of GSM_read_thread on the text of a short message. -/
def answerSMS (text : List UInt8) (p : Panel) : Panel × GSMMail :=
  if (strstr (bytes "report status") text).isSome then (p, .report_status)
  else if (strstr (bytes "home") text).isSome then setModeBySMS .HOME p
  else if (strstr (bytes "out") text).isSome then setModeBySMS .OUT p
  else (p, .tips)

/-- Values of the mode and light parameters that the web handlers recognise. -/
inductive WebCommand where
  | Home
  | Out
  | Bedroom_lightON
  | Bedroom_lightOFF
  | Corridor_lightON
  | Corridor_lightOFF
  deriving DecidableEq, Repr

/-- The assignment a web handler makes for a recognised value. -/
def WebCommand.assign : WebCommand → Panel → Panel
  | .Home, p => { p with sys_status := .HOME }
  | .Out, p => { p with sys_status := .OUT }
  | .Bedroom_lightON, p => { p with RED_LED := false }
  | .Bedroom_lightOFF, p => { p with RED_LED := true }
  | .Corridor_lightON, p => { p with GREEN_LED := false }
  | .Corridor_lightOFF, p => { p with GREEN_LED := true }

/-- The text the handler draws after the assignment. -/
def WebCommand.draw : WebCommand → Panel → Panel
  | .Home, p => { p with modeText := " Home " }
  | .Out, p => { p with modeText := " OUT  " }
  | .Bedroom_lightON, p => { p with bedroomText := bedroomON }
  | .Bedroom_lightOFF, p => { p with bedroomText := bedroomOFF }
  | .Corridor_lightON, p => { p with corridorText := corridorON }
  | .Corridor_lightOFF, p => { p with corridorText := corridorOFF }

/-- Fields of the time setting screen. -/
inductive Field where
  | SET_YEAR
  | SET_MON
  | SET_DAY
  | SET_HOUR
  | SET_MIN
  | SET_SEC
  | SET_WEEK
  deriving DecidableEq, Repr

/-- Selecting a field blinks the corridor output, except for the year. -/
def Field.run : Field → Panel → Panel
  | .SET_YEAR, p => p
  | _, p => { p with GREEN_LED := !p.GREEN_LED }

/-- Leaving the time setting redraws the window and resets the output. -/
def leaveSetTime (p : Panel) : Panel := { Draw_window p with GREEN_LED := true }

end SmartHome.HomePanel
