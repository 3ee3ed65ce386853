import SmartHome.HomeSystem

/-!
# The mode label and the mode

Every writer of sys_status draws the label of the new mode, but the redraw at
the end of a time setting always draws the HOME label, and the web server can
be interrupted between its assignment and its text. These two are the only
ways in which the label can come to disagree with the mode.
-/

namespace SmartHome.HomeSystem

open HomePanel TransitionRuns

/-- Texts that stand for a mode; the shorter OUT text leaves the blank at the
end of the longer one in place. -/
def Shows : Mode → String → Prop
  | .HOME, text => text = " Home "
  | .OUT, text => text = " OUT  " ∨ text = " OUT "

instance : (m : Mode) → (text : String) → Decidable (Shows m text)
  | .HOME, _ => inferInstanceAs (Decidable (_ = _))
  | .OUT, _ => inferInstanceAs (Decidable (_ ∨ _))

/-- The label shows the mode. -/
def Labelled (p : Panel) : Prop := Shows p.sys_status p.modeText

instance (p : Panel) : Decidable (Labelled p) := inferInstanceAs (Decidable (Shows _ _))

/-- The mode a web command sets. -/
def webMode : WebCommand → Option Mode
  | .Home => some .HOME
  | .Out => some .OUT
  | _ => none

/-- The mode that the web server has assigned and not yet drawn. -/
def Home.pendingMode (s : Home) : Option Mode := s.web.bind webMode

/-- Whenever no mode action and no time setting is in progress, the label
shows the mode. -/
def Home.LabelAgrees (s : Home) : Prop :=
  s.settingTime = false → s.pendingMode = none → Labelled s.panel

instance (s : Home) : Decidable s.LabelAgrees :=
  inferInstanceAs (Decidable (_ → _ → Labelled _))

/-- A time setting that ends with no web command outstanding ends in the HOME
mode, and a web command draws only while its mode is still the current one. -/
def ModeKept (s : Home) (e : Event) : Prop :=
  (e = .leaveSetTime → s.pendingMode = none → s.panel.sys_status = .HOME) ∧
    (e = .webDraw → ∀ m, s.pendingMode = some m → s.panel.sys_status = m)

/-- The label shows the mode unless a web command is still to be drawn. -/
def Home.LabelCoherent (s : Home) : Prop := s.pendingMode = none → Labelled s.panel

theorem toggleMode_labelled (p : Panel) : Labelled (toggleMode p) := by
  unfold toggleMode
  split
  · exact Or.inl rfl
  · exact rfl

theorem setModeBySMS_labelled (m : Mode) (p : Panel) : Labelled (setModeBySMS m p).1 := by
  cases m
  · exact rfl
  · exact Or.inr rfl

theorem Light_Control_labelled (val : ℕ) {p : Panel} (h : Labelled p) :
    Labelled (Light_Control val p) := by
  unfold Light_Control
  split
  · dsimp only
    split <;> exact h
  · dsimp only
    split <;> exact h
  · split <;> exact h
  · exact h

theorem answerSMS_labelled (text : List UInt8) {p : Panel} (h : Labelled p) :
    Labelled (answerSMS text p).1 := by
  unfold answerSMS
  split_ifs
  · exact h
  · exact setModeBySMS_labelled .HOME p
  · exact setModeBySMS_labelled .OUT p
  · exact h

theorem touch_labelled (a : PanelAction) {p : Panel} (h : Labelled p) :
    Labelled (a.run p) := by
  cases a with
  | MODE => exact toggleMode_labelled p
  | Bedroom_Light => exact Light_Control_labelled 1 h
  | Livingroom_Light => exact Light_Control_labelled 2 h
  | Corridor_Light => exact Light_Control_labelled 3 h
  | Curtain_CLOSE => exact h
  | Curtain_OPEN => exact h
  | Curtain_KT => exact h

theorem remote_labelled (k : Key) {p : Panel} (h : Labelled p) : Labelled (k.run p) := by
  cases k with
  | powr => exact toggleMode_labelled p
  | up => exact Light_Control_labelled 2 h
  | log => exact Light_Control_labelled 3 h
  | left => exact h
  | stop => exact h
  | right => exact h

theorem security_thread_labelled (pc : SecurityPc) (r : Sensors) {p : Panel} (h : Labelled p) :
    Labelled (security_thread pc r p).2.1 := by
  cases pc <;> unfold security_thread <;> first | exact h | (dsimp only; split <;> exact h)

theorem Corridor_Light_thread_labelled (waits night : Bool) (r : Sensors) {p : Panel}
    (h : Labelled p) : Labelled (Corridor_Light_thread waits night r p).2 := by
  unfold Corridor_Light_thread
  split_ifs <;> exact h

/-- A web command leaves a mode pending, or it is a light command. -/
theorem webAssign_labelled {w : WebCommand} (hw : webMode w = none) {p : Panel}
    (h : Labelled p) : Labelled (w.assign p) := by
  cases w <;> first | exact h | exact absurd hw (by simp [webMode])

/-- The web server draws the label of the mode that it has assigned. -/
theorem webDraw_labelled_iff {w : WebCommand} {m : Mode} (hw : webMode w = some m) (p : Panel) :
    Labelled (w.draw p) ↔ p.sys_status = m := by
  unfold Labelled
  cases w <;> cases m <;> simp only [webMode, reduceCtorEq, Option.some.injEq] at hw
  all_goals
    cases hp : p.sys_status <;> simp [WebCommand.draw, Shows, hp]

/-- The texts of light commands leave the label alone. -/
theorem webDraw_light {w : WebCommand} (hw : webMode w = none) {p : Panel} (h : Labelled p) :
    Labelled (w.draw p) := by
  cases w <;> first | exact h | exact absurd hw (by simp [webMode])

/-- The redraw after a time setting shows the mode exactly if it is HOME. -/
theorem leaveSetTime_labelled_iff (p : Panel) :
    Labelled (HomePanel.leaveSetTime p) ↔ p.sys_status = .HOME := by
  unfold Labelled
  cases hp : p.sys_status <;> simp [HomePanel.leaveSetTime, Draw_window, Shows, hp]

/-- An event keeps the label coherent when the mode is kept. -/
theorem act_coherent {s : Home} {e : Event} {u : Home} (hs : s.LabelCoherent)
    (hg : ModeKept s e) (h : act s e = some u) : u.LabelCoherent := by
  cases e with
  | touch a => exact Option.some.inj h ▸ fun hp => touch_labelled a (hs hp)
  | openSetTime => exact Option.some.inj h ▸ hs
  | selectField f =>
    simp only [act, Option.ite_none_right_eq_some, Option.some.injEq] at h
    obtain ⟨_, rfl⟩ := h
    cases f <;> exact hs
  | leaveSetTime =>
    simp only [act, Option.ite_none_right_eq_some, Option.some.injEq] at h
    obtain ⟨_, rfl⟩ := h
    exact fun hp => (leaveSetTime_labelled_iff _).mpr (hg.1 rfl hp)
  | remote k => exact Option.some.inj h ▸ fun hp => remote_labelled k (hs hp)
  | readSMS text => exact Option.some.inj h ▸ fun hp => answerSMS_labelled text (hs hp)
  | webAssign w =>
    simp only [act, Option.ite_none_right_eq_some, Option.some.injEq] at h
    obtain ⟨hweb, rfl⟩ := h
    exact fun hp => webAssign_labelled hp (hs (by simp [Home.pendingMode, hweb]))
  | webDraw =>
    obtain ⟨w, hw, rfl⟩ := Option.map_eq_some_iff.mp h
    intro _
    cases hm : webMode w with
    | none => exact webDraw_light hm (hs (by simp [Home.pendingMode, hw, hm]))
    | some m =>
      exact (webDraw_labelled_iff hm _).mpr (hg.2 rfl m (by simp [Home.pendingMode, hw, hm]))
  | corridor night r =>
    exact Option.some.inj h ▸ fun hp => Corridor_Light_thread_labelled _ night r (hs hp)
  | security r => exact Option.some.inj h ▸ fun hp => security_thread_labelled _ r (hs hp)
  | _ =>
    obtain ⟨_, _, _, _, rfl⟩ := act_background rfl h
    exact hs

/-- An event that does not keep the mode leaves a wrong label behind. -/
theorem not_agrees_of_not_kept {s : Home} {e : Event} {t : Home} (hg : ¬ModeKept s e)
    (h : step s e = some t) : ¬t.LabelAgrees := by
  obtain ⟨u, hu, hlock, rfl⟩ := step_eq_some h
  intro hagree
  apply hg
  constructor
  · rintro rfl hp
    simp only [act, Option.ite_none_right_eq_some, Option.some.injEq] at hu
    obtain ⟨_, rfl⟩ := hu
    exact (leaveSetTime_labelled_iff _).mp (hagree rfl hp)
  · rintro rfl m hm
    obtain ⟨w, hw, rfl⟩ := Option.map_eq_some_iff.mp hu
    rw [Home.pendingMode, hw, Option.bind_some] at hm
    have hfree : s.settingTime = false := by simpa [Event.needsScheduler] using hlock
    exact (webDraw_labelled_iff hm _).mp (hagree hfree rfl)

/-- Along every run the label shows the mode exactly as long as every time
setting and every web command meets the mode it assumes. -/
theorem label_agrees_iff (es : List Event) :
    Always Home.LabelAgrees step start es ↔ Guarded ModeKept step start es := by
  have hstart : start.LabelCoherent := fun _ => rfl
  refine always_iff_guarded (I := Home.LabelCoherent) (P := Home.LabelAgrees)
    (fun _ hs _ hp => hs hp) ?_
    (fun _ _ _ _ hg ht => not_agrees_of_not_kept hg ht) es hstart
  intro s e t hs hg ht
  obtain ⟨u, hu, _, rfl⟩ := step_eq_some ht
  have hcoherent := act_coherent hs hg hu
  exact fun hp => hcoherent hp

/-- In the OUT mode a time setting ends with the HOME label. -/
theorem not_label_agrees_after_setTime : ¬∀ es, Always Home.LabelAgrees step start es := by
  intro h
  have hlost : (run step start [.touch .MODE, .openSetTime, .leaveSetTime]).any
      (fun t => !decide t.LabelAgrees) = true := by decide +kernel
  obtain ⟨t, ht, hd⟩ := (Option.any_eq_true _ _).mp hlost
  exact absurd ((h _).of_run ht) (by simpa using hd)

end SmartHome.HomeSystem
