import Mathlib.Data.Rat.Defs
import SmartHome.HomePanel
import SmartHome.Mailboxes
import SmartHome.TransitionRuns

/-!
# The threads that share the panel and the mailboxes

One event is a piece of one thread that no other thread can interrupt, or one
interrupt. Pieces that the code separates by a delay or leaves open to
preemption are separate events: the two halves of an alarm, of a web command,
of a radio command and of a corridor light period. Time setting keeps the
scheduler locked from its beginning to its end. The sensors may change between
any two events; the buzzer command of the web server is left out.
-/

namespace SmartHome.HomeSystem

open HomePanel Mailboxes TransitionRuns

/-- What the sensors show at one moment. -/
structure Sensors where
  RSD_STATUS : Bool
  WB_STATUS : Bool
  /-- Gas voltage. -/
  mq : ℚ
  /-- Fire voltage. -/
  hz : ℚ
  deriving DecidableEq, Repr

/-- Where security_thread goes on: a check, or the end of its alarm. -/
inductive SecurityPc where
  | intrusion
  | intrusionEnd
  | gas
  | gasEnd
  | fire
  | fireEnd
  deriving DecidableEq, Repr

/-- Panel, positions of the threads and mailboxes. -/
structure Home where
  panel : Panel
  /-- Set_Time is running with the scheduler locked. -/
  settingTime : Bool
  /-- Web command that is assigned but not yet drawn. -/
  web : Option WebCommand
  /-- Corridor_Light_thread has switched the lamp on and waits. -/
  corridorWaits : Bool
  security : SecurityPc
  /-- Mail that NRF2401_thread has taken and not finished. -/
  radio : Option CurtainMail
  GSM_mq_send : Traffic GSMMail 4
  IRDA_NRF2401_send : Traffic CurtainMail 4

/-- The events of the system. -/
inductive Event where
  /-- One region test of touch_thread that succeeds. -/
  | touch (a : PanelAction)
  | openSetTime
  | selectField (f : Field)
  /-- Set_Time ends by OK or CANCLE. -/
  | leaveSetTime
  | remote (k : Key)
  /-- GSM_read_thread dispatches a short message. -/
  | readSMS (text : List UInt8)
  | webAssign (w : WebCommand)
  | webDraw
  | corridor (night : Bool) (r : Sensors)
  | security (r : Sensors)
  /-- GSM_send_thread takes a mail and sends it. -/
  | sendSMS
  | radioTake
  | radioDone
  | USART2_IRQHandler
  | TIM5_IRQHandler
  deriving DecidableEq, Repr

/-- Start of the sound and light alarm. -/
def alarmOn (p : Panel) : Panel := { p with BEEP := true, RED_LED := false }

/-- End of the sound and light alarm. -/
def alarmOff (p : Panel) : Panel := { p with BEEP := false, RED_LED := true }

/-- Intrusion matters in the OUT mode only. -/
def intruded (p : Panel) (r : Sensors) : Bool :=
  p.sys_status = .OUT && (r.RSD_STATUS || r.WB_STATUS)

/-- Gas alarm range. -/
def gasLeaks (r : Sensors) : Bool := r.mq ≤ 34 / 10 && r.mq ≥ 3 / 10

/-- Fire alarm range. -/
def onFire (r : Sensors) : Bool := r.hz ≤ 1 && r.hz ≠ 0

/-- One piece of the loop of security_thread. -/
def security_thread (pc : SecurityPc) (r : Sensors) (p : Panel) :
    SecurityPc × Panel × List GSMMail :=
  match pc with
  | .intrusion => if intruded p r then (.intrusionEnd, alarmOn p, [.Invaiding]) else (.gas, p, [])
  | .intrusionEnd => (.gas, alarmOff p, [])
  | .gas => if gasLeaks r then (.gasEnd, alarmOn p, [.MQ_LEAKING]) else (.fire, p, [])
  | .gasEnd => (.fire, alarmOff p, [])
  | .fire => if onFire r then (.fireEnd, alarmOn p, [.On_Fire]) else (.intrusion, p, [])
  | .fireEnd => (.intrusion, alarmOff p, [])

/-- One piece of the loop of Corridor_Light_thread: a test, or the end of the
waiting time. In the OUT mode only the text is drawn. -/
def Corridor_Light_thread (waits night : Bool) (r : Sensors) (p : Panel) : Bool × Panel :=
  if waits then (false, { p with GREEN_LED := true, corridorText := corridorOFF })
  else if p.sys_status = .HOME then
    if night && (r.RSD_STATUS || r.WB_STATUS) then
      (true, { p with GREEN_LED := false, corridorText := corridorON })
    else (false, p)
  else (false, { p with corridorText := corridorOFF })

/-- The mails an event posts to the two mailboxes. -/
def mails (s : Home) : Event → List GSMMail × List CurtainMail
  | .touch a => ([], a.mails)
  | .remote k => ([], k.mails)
  | .readSMS text => ([(answerSMS text s.panel).2], [])
  | .security r => ((security_thread s.security r s.panel).2.2, [])
  | _ => ([], [])

/-- The event is a piece of a thread other than the one setting the time. -/
def Event.needsScheduler : Event → Bool
  | .selectField _ => false
  | .leaveSetTime => false
  | .USART2_IRQHandler => false
  | .TIM5_IRQHandler => false
  | _ => true

/-- Effect of an event apart from its posts, when its thread can run. -/
def act (s : Home) : Event → Option Home
  | .touch a => some { s with panel := a.run s.panel }
  | .openSetTime => some { s with settingTime := true }
  | .selectField f =>
    if s.settingTime then some { s with panel := f.run s.panel } else none
  | .leaveSetTime =>
    if s.settingTime then
      some { s with panel := HomePanel.leaveSetTime s.panel, settingTime := false }
    else none
  | .remote k => some { s with panel := k.run s.panel }
  | .readSMS text => some { s with panel := (answerSMS text s.panel).1 }
  | .webAssign w =>
    if s.web = none then some { s with panel := w.assign s.panel, web := some w } else none
  | .webDraw => s.web.map fun w => { s with panel := w.draw s.panel, web := none }
  | .corridor night r =>
    let (waits, panel) := Corridor_Light_thread s.corridorWaits night r s.panel
    some { s with corridorWaits := waits, panel := panel }
  | .security r =>
    let (pc, panel, _) := security_thread s.security r s.panel
    some { s with security := pc, panel := panel }
  | .sendSMS => s.GSM_mq_send.take.map fun (_, box) => { s with GSM_mq_send := box }
  | .radioTake =>
    if s.radio = none then
      s.IRDA_NRF2401_send.take.map fun (m, box) =>
        { s with radio := some m, IRDA_NRF2401_send := box,
                 panel := { s.panel with RED_LED := !s.panel.RED_LED } }
    else none
  | .radioDone =>
    if s.radio = none then none
    else some { s with radio := none, panel := { s.panel with RED_LED := true } }
  | .USART2_IRQHandler => some { s with panel := { s.panel with RED_LED := !s.panel.RED_LED } }
  | .TIM5_IRQHandler => some { s with panel := { s.panel with RED_LED := true } }

/-- One event: its thread needs the scheduler unless it holds it, and its
mails are posted without a look at the result. -/
def step (s : Home) (e : Event) : Option Home :=
  if s.settingTime && e.needsScheduler then none
  else (act s e).map fun t =>
    { t with GSM_mq_send := t.GSM_mq_send.postAll (mails s e).1,
             IRDA_NRF2401_send := t.IRDA_NRF2401_send.postAll (mails s e).2 }

/-- The system after start-up. -/
def start : Home where
  panel := Smart_IOT_Center
  settingTime := false
  web := none
  corridorWaits := false
  security := .intrusion
  radio := none
  GSM_mq_send := Traffic.start
  IRDA_NRF2401_send := Traffic.start

/-- A step is an enabled act followed by its posts. -/
theorem step_eq_some {s : Home} {e : Event} {t : Home} (h : step s e = some t) :
    ∃ u, act s e = some u ∧ (s.settingTime && e.needsScheduler) = false ∧
      t = { u with GSM_mq_send := u.GSM_mq_send.postAll (mails s e).1,
                   IRDA_NRF2401_send := u.IRDA_NRF2401_send.postAll (mails s e).2 } := by
  unfold step at h
  by_cases hlock : (s.settingTime && e.needsScheduler) = true
  · rw [if_pos hlock] at h
    exact absurd h (by simp)
  · rw [if_neg hlock] at h
    obtain ⟨u, hu, ht⟩ := Option.map_eq_some_iff.mp h
    exact ⟨u, hu, Bool.not_eq_true _ ▸ hlock, ht.symm⟩

/-- The event belongs to a sender of mails or to an interrupt. -/
def Event.isBackground : Event → Bool
  | .sendSMS => true
  | .radioTake => true
  | .radioDone => true
  | .USART2_IRQHandler => true
  | .TIM5_IRQHandler => true
  | _ => false

/-- Senders and interrupts change the red output and the mails only. -/
theorem act_background {s : Home} {e : Event} {u : Home} (he : e.isBackground = true)
    (h : act s e = some u) :
    ∃ red radio send nrf, u =
      { s with panel := { s.panel with RED_LED := red }, radio := radio,
               GSM_mq_send := send, IRDA_NRF2401_send := nrf } := by
  cases e with
  | sendSMS =>
    obtain ⟨_, _, rfl⟩ := Option.map_eq_some_iff.mp h
    exact ⟨_, _, _, _, rfl⟩
  | radioTake =>
    obtain ⟨_, h⟩ := Option.ite_none_right_eq_some.mp h
    obtain ⟨_, _, rfl⟩ := Option.map_eq_some_iff.mp h
    exact ⟨_, _, _, _, rfl⟩
  | radioDone =>
    obtain ⟨_, h⟩ := Option.ite_none_left_eq_some.mp h
    cases h
    exact ⟨_, _, _, _, rfl⟩
  | USART2_IRQHandler =>
    cases h
    exact ⟨_, _, _, _, rfl⟩
  | TIM5_IRQHandler =>
    cases h
    exact ⟨_, _, _, _, rfl⟩
  | _ => cases he

end SmartHome.HomeSystem
