import SmartHome.HomeSystem

/-!
# The lamp lines and the lamp outputs

The bedroom and the living room lamp are one output, which also is the
activity and alarm indicator, so a text on their lines holds only until the
next use of that output. The corridor lamp has an output of its own, and its
line follows it through all writers, apart from the OUT mode text and from a
web command that is interrupted between its output and its text.
-/

namespace SmartHome.HomeSystem

open HomePanel TransitionRuns

/-- The bedroom line shows the output. -/
def BedroomShown (p : Panel) : Prop :=
  p.bedroomText = if p.RED_LED then bedroomOFF else bedroomON

/-- The living room line shows the output. -/
def LivingroomShown (p : Panel) : Prop :=
  p.livingroomText = if p.RED_LED then livingroomOFF else livingroomON

/-- The corridor line shows the output. -/
def CorridorShown (p : Panel) : Prop :=
  p.corridorText = if p.GREEN_LED then corridorOFF else corridorON

instance (p : Panel) : Decidable (BedroomShown p) := inferInstanceAs (Decidable (_ = _))
instance (p : Panel) : Decidable (LivingroomShown p) := inferInstanceAs (Decidable (_ = _))
instance (p : Panel) : Decidable (CorridorShown p) := inferInstanceAs (Decidable (_ = _))

/-- No thread is between two pieces of an action. -/
def Home.Idle (s : Home) : Prop :=
  s.settingTime = false ∧ s.web = none ∧ s.corridorWaits = false ∧ s.radio = none ∧
    (s.security = .intrusion ∨ s.security = .gas ∨ s.security = .fire)

instance (s : Home) : Decidable s.Idle :=
  inferInstanceAs (Decidable (_ ∧ _ ∧ _ ∧ _ ∧ (_ ∨ _ ∨ _)))

/-- Outside actions each of the three lines shows its output. -/
def Home.LinesAgree (s : Home) : Prop :=
  s.Idle → BedroomShown s.panel ∧ LivingroomShown s.panel ∧ CorridorShown s.panel

instance (s : Home) : Decidable s.LinesAgree := inferInstanceAs (Decidable (_ → _ ∧ _ ∧ _))

/-- The corridor output a web command sets. -/
def corridorOutput : WebCommand → Option Bool
  | .Corridor_lightON => some false
  | .Corridor_lightOFF => some true
  | _ => none

/-- The corridor output that the web server has set and not yet drawn. -/
def Home.pendingCorridor (s : Home) : Option Bool := s.web.bind corridorOutput

/-- Outside time settings and web commands the corridor line shows its output. -/
def Home.CorridorAgrees (s : Home) : Prop :=
  s.settingTime = false → s.pendingCorridor = none → CorridorShown s.panel

/-- The OUT mode text is drawn over a lamp that is off, and a web command
draws while the corridor output is still the one it set. -/
def CorridorKept (s : Home) (e : Event) : Prop :=
  (∀ night r, e = .corridor night r → s.corridorWaits = false → s.panel.sys_status = .OUT →
    s.pendingCorridor = none → s.panel.GREEN_LED = true) ∧
    (e = .webDraw → ∀ out, s.pendingCorridor = some out → s.panel.GREEN_LED = out)

/-- The corridor lamp is switched. -/
def Event.switchesCorridor : Event → Bool
  | .touch .Corridor_Light => true
  | .remote .log => true
  | .webAssign .Corridor_lightON => true
  | .webAssign .Corridor_lightOFF => true
  | .corridor _ _ => true
  | _ => false

/-- The bedroom or the living room lamp is switched. -/
def Event.switchesRooms : Event → Bool
  | .touch .Bedroom_Light => true
  | .touch .Livingroom_Light => true
  | .remote .up => true
  | .webAssign .Bedroom_lightON => true
  | .webAssign .Bedroom_lightOFF => true
  | _ => false

/-- The event neither uses RED_LED nor draws the lines of the two rooms. -/
def RoomsQuiet (s : Home) : Event → Prop
  | .touch a => a ≠ .Bedroom_Light ∧ a ≠ .Livingroom_Light
  | .leaveSetTime => False
  | .remote k => k ≠ .up
  | .readSMS text => (answerSMS text s.panel).2 = .report_status ∨
      (answerSMS text s.panel).2 = .tips
  | .webAssign w => w ≠ .Bedroom_lightON ∧ w ≠ .Bedroom_lightOFF
  | .webDraw => s.web ≠ some .Bedroom_lightON ∧ s.web ≠ some .Bedroom_lightOFF
  | .security r => (s.security = .intrusion ∧ intruded s.panel r = false) ∨
      (s.security = .gas ∧ gasLeaks r = false) ∨ (s.security = .fire ∧ onFire r = false)
  | .radioTake => False
  | .radioDone => False
  | .USART2_IRQHandler => False
  | .TIM5_IRQHandler => False
  | _ => True

/-- Output and lines of the two rooms. -/
def rooms (p : Panel) : Bool × String × String := (p.RED_LED, p.bedroomText, p.livingroomText)

/-- Output and line of the corridor. -/
def corridorLine (p : Panel) : Bool × String := (p.GREEN_LED, p.corridorText)

theorem CorridorShown.congr {p q : Panel} (h : corridorLine q = corridorLine p)
    (hp : CorridorShown p) : CorridorShown q := by
  obtain ⟨hled, htext⟩ := Prod.mk.inj h
  unfold CorridorShown
  rwa [hled, htext]

theorem BedroomShown.congr {p q : Panel} (h : rooms q = rooms p) (hp : BedroomShown p) :
    BedroomShown q := by
  obtain ⟨hled, hrest⟩ := Prod.mk.inj h
  unfold BedroomShown
  rwa [hled, (Prod.mk.inj hrest).1]

theorem LivingroomShown.congr {p q : Panel} (h : rooms q = rooms p) (hp : LivingroomShown p) :
    LivingroomShown q := by
  obtain ⟨hled, hrest⟩ := Prod.mk.inj h
  unfold LivingroomShown
  rwa [hled, (Prod.mk.inj hrest).2]

theorem Light_Control_bedroom (p : Panel) :
    BedroomShown (Light_Control 1 p) ∧ corridorLine (Light_Control 1 p) = corridorLine p := by
  unfold Light_Control BedroomShown corridorLine
  cases p.RED_LED <;> simp

theorem Light_Control_livingroom (p : Panel) :
    LivingroomShown (Light_Control 2 p) ∧ corridorLine (Light_Control 2 p) = corridorLine p := by
  unfold Light_Control LivingroomShown corridorLine
  cases p.RED_LED <;> simp

theorem Light_Control_corridor (p : Panel) :
    CorridorShown (Light_Control 3 p) ∧ rooms (Light_Control 3 p) = rooms p := by
  unfold Light_Control CorridorShown rooms
  cases p.GREEN_LED <;> simp

theorem toggleMode_lines (p : Panel) :
    corridorLine (toggleMode p) = corridorLine p ∧ rooms (toggleMode p) = rooms p := by
  unfold toggleMode
  split <;> exact ⟨rfl, rfl⟩

/-- Dispatching a message switches neither the corridor lamp nor, when it only
asks for a report or is not understood, the other lamps. -/
theorem answerSMS_lines (text : List UInt8) (p : Panel) :
    corridorLine (answerSMS text p).1 = corridorLine p ∧
      ((answerSMS text p).2 = .report_status ∨ (answerSMS text p).2 = .tips →
        rooms (answerSMS text p).1 = rooms p) := by
  unfold answerSMS
  split_ifs
  · exact ⟨rfl, fun _ => rfl⟩
  · exact ⟨rfl, fun h => absurd h (by simp [setModeBySMS])⟩
  · exact ⟨rfl, fun h => absurd h (by simp [setModeBySMS])⟩
  · exact ⟨rfl, fun _ => rfl⟩

/-- The alarm uses neither the corridor output nor any line. -/
theorem security_thread_corridorLine (pc : SecurityPc) (r : Sensors) (p : Panel) :
    corridorLine (security_thread pc r p).2.1 = corridorLine p := by
  cases pc <;> unfold security_thread <;> first | exact rfl | (dsimp only; split <;> rfl)

/-- The corridor thread does not use the rooms' output and lines. -/
theorem Corridor_Light_thread_rooms (waits night : Bool) (r : Sensors) (p : Panel) :
    rooms (Corridor_Light_thread waits night r p).2 = rooms p := by
  unfold Corridor_Light_thread
  split_ifs <;> rfl

/-- The corridor thread keeps the line right unless it draws the OUT mode
text over a lamp that is on. -/
theorem Corridor_Light_thread_shown {waits night : Bool} {r : Sensors} {p : Panel}
    (hp : CorridorShown p)
    (hout : waits = false → p.sys_status = .OUT → p.GREEN_LED = true) :
    CorridorShown (Corridor_Light_thread waits night r p).2 := by
  unfold Corridor_Light_thread
  by_cases hw : waits = true
  · rw [if_pos hw]
    exact rfl
  · rw [if_neg hw]
    by_cases hm : p.sys_status = .HOME
    · rw [if_pos hm]
      split
      · exact rfl
      · exact hp
    · rw [if_neg hm]
      have hout' : p.sys_status = .OUT := by cases h : p.sys_status <;> simp_all
      have hoff := hout (by simpa using hw) hout'
      unfold CorridorShown
      dsimp only
      rw [if_pos hoff]

theorem touch_corridor (a : PanelAction) {p : Panel} (hp : CorridorShown p) :
    CorridorShown (a.run p) := by
  cases a with
  | MODE => exact hp.congr (toggleMode_lines p).1
  | Bedroom_Light => exact hp.congr (Light_Control_bedroom p).2
  | Livingroom_Light => exact hp.congr (Light_Control_livingroom p).2
  | Corridor_Light => exact (Light_Control_corridor p).1
  | Curtain_CLOSE => exact hp
  | Curtain_OPEN => exact hp
  | Curtain_KT => exact hp

theorem remote_corridor (k : Key) {p : Panel} (hp : CorridorShown p) :
    CorridorShown (k.run p) := by
  cases k with
  | powr => exact hp.congr (toggleMode_lines p).1
  | up => exact hp.congr (Light_Control_livingroom p).2
  | log => exact (Light_Control_corridor p).1
  | left => exact hp
  | stop => exact hp
  | right => exact hp

theorem webAssign_corridor {w : WebCommand} (hw : corridorOutput w = none) (p : Panel) :
    corridorLine (w.assign p) = corridorLine p := by
  cases w <;> first | exact rfl | exact absurd hw (by simp [corridorOutput])

theorem webDraw_corridor {w : WebCommand} (hw : corridorOutput w = none) (p : Panel) :
    corridorLine (w.draw p) = corridorLine p := by
  cases w <;> first | exact rfl | exact absurd hw (by simp [corridorOutput])

theorem webDraw_corridorShown {w : WebCommand} {p : Panel}
    (hw : corridorOutput w = some p.GREEN_LED) : CorridorShown (w.draw p) := by
  unfold CorridorShown
  cases w <;> cases hp : p.GREEN_LED <;> simp [corridorOutput, WebCommand.draw, hp] at hw ⊢

/-- An event keeps the corridor line right outside time settings and commands. -/
theorem act_corridor {s : Home} {e : Event} {u : Home} (hs : s.CorridorAgrees)
    (hg : CorridorKept s e) (h : act s e = some u) : u.CorridorAgrees := by
  cases e with
  | touch a => exact Option.some.inj h ▸ fun hset hp => touch_corridor a (hs hset hp)
  | openSetTime => exact Option.some.inj h ▸ fun hset => absurd hset (by simp)
  | selectField f =>
    simp only [act, Option.ite_none_right_eq_some, Option.some.injEq] at h
    obtain ⟨hset, rfl⟩ := h
    exact fun hno => absurd (hset.symm.trans hno) (by simp)
  | leaveSetTime =>
    simp only [act, Option.ite_none_right_eq_some, Option.some.injEq] at h
    obtain ⟨_, rfl⟩ := h
    exact fun _ _ => rfl
  | remote k => exact Option.some.inj h ▸ fun hset hp => remote_corridor k (hs hset hp)
  | readSMS text =>
    exact Option.some.inj h ▸ fun hset hp => (hs hset hp).congr (answerSMS_lines text s.panel).1
  | webAssign w =>
    simp only [act, Option.ite_none_right_eq_some, Option.some.injEq] at h
    obtain ⟨hweb, rfl⟩ := h
    exact fun hset hp => (hs hset (by simp [Home.pendingCorridor, hweb])).congr
      (webAssign_corridor hp s.panel)
  | webDraw =>
    obtain ⟨w, hw, rfl⟩ := Option.map_eq_some_iff.mp h
    intro hset _
    cases hout : corridorOutput w with
    | none =>
      have hline := hs hset (by simp [Home.pendingCorridor, hw, hout])
      exact hline.congr (webDraw_corridor hout s.panel)
    | some out =>
      have hled := hg.2 rfl out (by simp [Home.pendingCorridor, hw, hout])
      exact webDraw_corridorShown (hout.trans (congrArg some hled.symm))
  | corridor night r =>
    exact Option.some.inj h ▸ fun hset hp => Corridor_Light_thread_shown (hs hset hp)
      fun hw hm => hg.1 night r rfl hw hm hp
  | security r =>
    exact Option.some.inj h ▸ fun hset hp => (hs hset hp).congr
      (security_thread_corridorLine s.security r s.panel)
  | _ =>
    obtain ⟨_, _, _, _, rfl⟩ := act_background rfl h
    exact hs

/-- Along every run in which the corridor line is kept, it shows its output. -/
theorem corridor_agrees {es : List Event} (hg : Guarded CorridorKept step start es) :
    Always Home.CorridorAgrees step start es := by
  refine always_of_guarded (I := Home.CorridorAgrees) (fun _ h => h) ?_ hg (fun _ _ => rfl)
  intro s e t hs hkept ht
  obtain ⟨u, hu, _, rfl⟩ := step_eq_some ht
  have hagree := act_corridor hs hkept hu
  exact fun hset hp => hagree hset hp

theorem touch_rooms {a : PanelAction} (ha : a ≠ .Bedroom_Light ∧ a ≠ .Livingroom_Light)
    (p : Panel) : rooms (a.run p) = rooms p := by
  cases a with
  | MODE => exact (toggleMode_lines p).2
  | Bedroom_Light => exact absurd rfl ha.1
  | Livingroom_Light => exact absurd rfl ha.2
  | Corridor_Light => exact (Light_Control_corridor p).2
  | Curtain_CLOSE => rfl
  | Curtain_OPEN => rfl
  | Curtain_KT => rfl

theorem remote_rooms {k : Key} (hk : k ≠ .up) (p : Panel) : rooms (k.run p) = rooms p := by
  cases k with
  | powr => exact (toggleMode_lines p).2
  | up => exact absurd rfl hk
  | log => exact (Light_Control_corridor p).2
  | left => rfl
  | stop => rfl
  | right => rfl

theorem web_rooms {w : WebCommand} (hw : w ≠ .Bedroom_lightON ∧ w ≠ .Bedroom_lightOFF)
    (p : Panel) : rooms (w.assign p) = rooms p ∧ rooms (w.draw p) = rooms p := by
  cases w with
  | Bedroom_lightON => exact absurd rfl hw.1
  | Bedroom_lightOFF => exact absurd rfl hw.2
  | Home => exact ⟨rfl, rfl⟩
  | Out => exact ⟨rfl, rfl⟩
  | Corridor_lightON => exact ⟨rfl, rfl⟩
  | Corridor_lightOFF => exact ⟨rfl, rfl⟩

/-- A quiet event leaves the rooms' output and lines as they are. -/
theorem step_rooms {s : Home} {e : Event} {t : Home} (hq : RoomsQuiet s e)
    (h : step s e = some t) : rooms t.panel = rooms s.panel := by
  obtain ⟨u, hu, _, rfl⟩ := step_eq_some h
  cases e with
  | touch a => exact Option.some.inj hu ▸ touch_rooms hq s.panel
  | openSetTime => exact Option.some.inj hu ▸ rfl
  | selectField f =>
    simp only [act, Option.ite_none_right_eq_some, Option.some.injEq] at hu
    obtain ⟨_, rfl⟩ := hu
    cases f <;> rfl
  | leaveSetTime => exact hq.elim
  | remote k => exact Option.some.inj hu ▸ remote_rooms hq s.panel
  | readSMS text => exact Option.some.inj hu ▸ (answerSMS_lines text s.panel).2 hq
  | webAssign w =>
    simp only [act, Option.ite_none_right_eq_some, Option.some.injEq] at hu
    obtain ⟨_, rfl⟩ := hu
    exact (web_rooms hq s.panel).1
  | webDraw =>
    obtain ⟨w, hw, rfl⟩ := Option.map_eq_some_iff.mp hu
    have hroom : w ≠ .Bedroom_lightON ∧ w ≠ .Bedroom_lightOFF := by
      simpa only [RoomsQuiet, hw, ne_eq, Option.some.injEq] using hq
    exact (web_rooms hroom s.panel).2
  | corridor night r =>
    exact Option.some.inj hu ▸ Corridor_Light_thread_rooms s.corridorWaits night r s.panel
  | security r =>
    rw [← Option.some.inj hu]
    show rooms (security_thread s.security r s.panel).2.1 = rooms s.panel
    rcases hq with ⟨hpc, hno⟩ | ⟨hpc, hno⟩ | ⟨hpc, hno⟩ <;> simp [security_thread, hpc, hno]
  | sendSMS =>
    obtain ⟨_, _, rfl⟩ := Option.map_eq_some_iff.mp hu
    rfl
  | radioTake => exact hq.elim
  | radioDone => exact hq.elim
  | USART2_IRQHandler => exact hq.elim
  | TIM5_IRQHandler => exact hq.elim

/-- Through a stretch of quiet events the rooms' output and lines stay. -/
theorem run_rooms {s t : Home} {es : List Event} (hq : Guarded RoomsQuiet step s es)
    (hr : run step s es = some t) : rooms t.panel = rooms s.panel :=
  run_invariant_of_guarded (I := fun u => rooms u.panel = rooms s.panel)
    (fun _ _ _ hu hquiet h => (step_rooms hquiet h).trans hu) rfl hq hr

/-- Switching the corridor lamp does not change the rooms' output. -/
theorem step_switchesCorridor {s : Home} {e : Event} {t : Home}
    (he : e.switchesCorridor = true) (h : step s e = some t) :
    t.panel.RED_LED = s.panel.RED_LED := by
  refine congrArg Prod.fst (step_rooms ?_ h)
  unfold Event.switchesCorridor at he
  split at he
  · exact ⟨by simp, by simp⟩
  · simp [RoomsQuiet]
  · exact ⟨by simp, by simp⟩
  · exact ⟨by simp, by simp⟩
  · trivial
  · exact absurd he (by simp)

/-- Switching the lamp of a room does not change the corridor output. -/
theorem step_switchesRooms {s : Home} {e : Event} {t : Home}
    (he : e.switchesRooms = true) (h : step s e = some t) :
    t.panel.GREEN_LED = s.panel.GREEN_LED := by
  obtain ⟨u, hu, _, rfl⟩ := step_eq_some h
  unfold Event.switchesRooms at he
  split at he
  · exact Option.some.inj hu ▸ congrArg Prod.fst (Light_Control_bedroom s.panel).2
  · exact Option.some.inj hu ▸ congrArg Prod.fst (Light_Control_livingroom s.panel).2
  · exact Option.some.inj hu ▸ congrArg Prod.fst (Light_Control_livingroom s.panel).2
  · simp only [act, Option.ite_none_right_eq_some, Option.some.injEq] at hu
    obtain ⟨_, rfl⟩ := hu
    rfl
  · simp only [act, Option.ite_none_right_eq_some, Option.some.injEq] at hu
    obtain ⟨_, rfl⟩ := hu
    rfl
  · exact absurd he (by simp)

/-- What an event that is a lamp command shows on the line it belongs to. -/
def OwnLineShown : Event → Panel → Prop
  | .touch .Bedroom_Light, p => BedroomShown p
  | .touch .Livingroom_Light, p => LivingroomShown p
  | .touch .Corridor_Light, p => CorridorShown p
  | .remote .up, p => LivingroomShown p
  | .remote .log, p => CorridorShown p
  | _, _ => True

/-- Every lamp command leaves its own line showing its output. -/
theorem step_ownLine {s : Home} {e : Event} {t : Home} (h : step s e = some t) :
    OwnLineShown e t.panel := by
  obtain ⟨u, hu, _, rfl⟩ := step_eq_some h
  unfold OwnLineShown
  split
  · exact Option.some.inj hu ▸ (Light_Control_bedroom s.panel).1
  · exact Option.some.inj hu ▸ (Light_Control_livingroom s.panel).1
  · exact Option.some.inj hu ▸ (Light_Control_corridor s.panel).1
  · exact Option.some.inj hu ▸ (Light_Control_livingroom s.panel).1
  · exact Option.some.inj hu ▸ (Light_Control_corridor s.panel).1
  · trivial

/-- What a light command of the web server shows on its line. -/
def WebLineShown : WebCommand → Panel → Prop
  | .Bedroom_lightON, p => BedroomShown p
  | .Bedroom_lightOFF, p => BedroomShown p
  | .Corridor_lightON, p => CorridorShown p
  | .Corridor_lightOFF, p => CorridorShown p
  | _, _ => True

/-- An uninterrupted web command leaves its own line showing its output. -/
theorem run_webLine {s t : Home} {w : WebCommand}
    (h : run step s [.webAssign w, .webDraw] = some t) : WebLineShown w t.panel := by
  obtain ⟨s', h1, h⟩ := run_cons.mp h
  obtain ⟨s'', h2, h⟩ := run_cons.mp h
  cases h
  obtain ⟨u, hu, _, rfl⟩ := step_eq_some h1
  obtain ⟨v, hv, _, rfl⟩ := step_eq_some h2
  simp only [act, Option.ite_none_right_eq_some, Option.some.injEq] at hu
  obtain ⟨_, rfl⟩ := hu
  simp only [act, Option.map_some, Option.some.injEq] at hv
  subst hv
  cases w <;> first | rfl | trivial

/-- The lamp lines as the code keeps them. The corridor line shows its output
in every run in which it is kept; switching the corridor lamp and switching a
room's lamp do not change each other's output; every lamp command shows its
own output on its own line; and the rooms' lines stay right as long as their
common output is not used otherwise. -/
theorem lamp_lines :
    (∀ es, Guarded CorridorKept step start es → Always Home.CorridorAgrees step start es) ∧
      (∀ s e t, step s e = some t →
        (e.switchesCorridor = true → t.panel.RED_LED = s.panel.RED_LED) ∧
          (e.switchesRooms = true → t.panel.GREEN_LED = s.panel.GREEN_LED) ∧
          OwnLineShown e t.panel) ∧
      (∀ s w t, run step s [.webAssign w, .webDraw] = some t → WebLineShown w t.panel) ∧
      ∀ s es t, Guarded RoomsQuiet step s es → run step s es = some t →
        (BedroomShown s.panel → BedroomShown t.panel) ∧
          (LivingroomShown s.panel → LivingroomShown t.panel) :=
  ⟨fun _ hg => corridor_agrees hg,
    fun _ _ _ h => ⟨fun he => step_switchesCorridor he h, fun he => step_switchesRooms he h,
      step_ownLine h⟩,
    fun _ _ _ h => run_webLine h,
    fun _ _ _ hq hr => ⟨fun hb => hb.congr (run_rooms hq hr), fun hl => hl.congr (run_rooms hq hr)⟩⟩

/-- The corridor lamp is switched by touch, the bedroom lamp from the web, and
the mode afterwards. -/
theorem lamp_lines_short_run :
    Always Home.CorridorAgrees step start [.touch .Corridor_Light] ∧
      (∃ t, step start (.touch .Corridor_Light) = some t ∧
        t.panel.RED_LED = start.panel.RED_LED ∧ OwnLineShown (.touch .Corridor_Light) t.panel) ∧
      (∃ t, step start (.touch .Bedroom_Light) = some t ∧
        t.panel.GREEN_LED = start.panel.GREEN_LED) ∧
      (∃ t, run step start [.webAssign .Bedroom_lightON, .webDraw] = some t ∧
        WebLineShown .Bedroom_lightON t.panel) ∧
      ∃ t, run step start [.touch .MODE] = some t ∧ BedroomShown t.panel ∧
        LivingroomShown t.panel := by
  have hkept : Guarded CorridorKept step start [.touch .Corridor_Light] := fun _ _ =>
    ⟨⟨by simp, by simp⟩, trivial⟩
  have hquiet : Guarded RoomsQuiet step start [.touch .MODE] := fun _ _ =>
    ⟨⟨by simp, by simp⟩, trivial⟩
  have hcorridor := lamp_lines.2.1 start (.touch .Corridor_Light) _ rfl
  have hlines := lamp_lines.2.2.2 start [.touch .MODE] _ hquiet rfl
  exact ⟨lamp_lines.1 _ hkept, ⟨_, rfl, hcorridor.1 rfl, hcorridor.2.2⟩,
    ⟨_, rfl, (lamp_lines.2.1 start (.touch .Bedroom_Light) _ rfl).2.1 rfl⟩,
    ⟨_, rfl, lamp_lines.2.2.1 start .Bedroom_lightON _ rfl⟩,
    ⟨_, rfl, hlines.1 rfl, hlines.2 rfl⟩⟩

/-- Switching the bedroom lamp switches the living room lamp with it. -/
theorem not_lines_agree_after_bedroom : ¬∀ es, Always Home.LinesAgree step start es := by
  intro h
  have hlost : (run step start [.touch .Bedroom_Light]).any
      (fun t => !decide t.LinesAgree) = true := by decide +kernel
  obtain ⟨t, ht, hd⟩ := (Option.any_eq_true _ _).mp hlost
  exact absurd ((h _).of_run ht) (by simpa using hd)

end SmartHome.HomeSystem
