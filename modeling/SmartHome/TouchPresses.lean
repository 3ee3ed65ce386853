import SmartHome.TouchThread
import SmartHome.TransitionRuns

/-!
# What one press does

A press is a touch at fixed coordinates, held for any number of scans and then
released. Both loops wait for the release after an action, except that opening
Set_Time goes on scanning at once and leaving it goes on in touch_thread. A
press then does two things exactly where the regions of the two screens
overlap.
-/

namespace SmartHome.TouchThread

open TouchRegions HomePanel SetTimeEditor TransitionRuns

/-- One touch and its release. -/
structure Press where
  point : Point
  /-- Scans during the touch after the first one. -/
  held : ℕ
  /-- Scans after the release before the next touch, after the first one. -/
  lifted : ℕ
  calendar : RtcDriver.Calendar

/-- The samples of a touch and of the time after it. -/
def samples (p : Point) (held lifted : ℕ) : List Sample :=
  List.replicate (held + 1) (.down (some p)) ++ List.replicate (lifted + 1) .up

/-- No touch, and neither loop waits for a release. -/
def Touch.Ready (t : Touch) : Prop := t.tp_dev.PRES_DOWN = false ∧ (t.pc = .main ∨ t.pc = .setTime)

/-- The loop that goes on after a release. -/
def Pc.afterRelease : Pc → Pc
  | .main => .main
  | .mainRelease => .main
  | .setTime => .setTime
  | .setTimeRelease => .setTime

/-- The touch at the point has no further effect until it is released. -/
def Touch.Settled (lcddev : Lcddev) (t : Touch) (p : Point) : Prop :=
  t.tp_dev.PRES_DOWN = true ∧ t.tp_dev.current = p ∧
    (t.pc = .mainRelease ∨ t.pc = .setTimeRelease ∨ ¬lcddev.Covers p)

variable (lcddev : Lcddev) (calendar : RtcDriver.Calendar)

/-- Without a touch the pass over the regions is left out. -/
theorem step_up_of_base {t : Touch} (hpc : t.pc = .main ∨ t.pc = .setTime) :
    ∃ u, step lcddev calendar t .up = (u, []) ∧ u.tp_dev.PRES_DOWN = false ∧ u.pc = t.pc := by
  have hdev : (TP_Scan .up t.tp_dev).PRES_DOWN = false := by
    unfold TP_Scan
    cases t.tp_dev.PRES_DOWN <;> simp
  refine ⟨{ t with tp_dev := TP_Scan .up t.tp_dev }, ?_, hdev, rfl⟩
  rcases hpc with hpc | hpc
  · simp [step, hpc, touchPass, Touch.pressed, hdev]
  · simp [step, hpc, setTimePass, Touch.pressed, hdev]

/-- The first scan after a touch ends the wait for the release. -/
theorem step_release {t : Touch} (hdown : t.tp_dev.PRES_DOWN = true) :
    ∃ u, step lcddev calendar t .up = (u, []) ∧ u.Ready ∧ u.pc = t.pc.afterRelease := by
  have hdev : (TP_Scan .up t.tp_dev).PRES_DOWN = false := by simp [TP_Scan, hdown]
  cases hpc : t.pc with
  | main =>
    obtain ⟨u, hu, hup, hpc'⟩ := step_up_of_base lcddev calendar
      (Or.inl hpc)
    exact ⟨u, hu, ⟨hup, Or.inl (hpc'.trans hpc)⟩, hpc'.trans hpc⟩
  | setTime =>
    obtain ⟨u, hu, hup, hpc'⟩ := step_up_of_base lcddev calendar
      (Or.inr hpc)
    exact ⟨u, hu, ⟨hup, Or.inr (hpc'.trans hpc)⟩, hpc'.trans hpc⟩
  | mainRelease =>
    exact ⟨{ t with tp_dev := TP_Scan .up t.tp_dev, pc := .main }, by simp [step, hpc, hdev],
      ⟨hdev, Or.inl rfl⟩, rfl⟩
  | setTimeRelease =>
    exact ⟨{ t with tp_dev := TP_Scan .up t.tp_dev, pc := .setTime }, by simp [step, hpc, hdev],
      ⟨hdev, Or.inr rfl⟩, rfl⟩

/-- Scans without a touch do nothing. -/
theorem scans_up {t : Touch} (ht : t.Ready) (n : ℕ) :
    ∃ u, scans lcddev calendar t (List.replicate n .up) = (u, []) ∧ u.Ready ∧ u.pc = t.pc := by
  induction n generalizing t with
  | zero => exact ⟨t, rfl, ht, rfl⟩
  | succ n ih =>
    obtain ⟨u, hu, hup, hpc⟩ := step_up_of_base lcddev calendar ht.2
    obtain ⟨v, hv, hvr, hvpc⟩ := ih (t := u) ⟨hup, by rw [hpc]; exact ht.2⟩
    exact ⟨v, by simp [List.replicate_succ, scans, hu, hv], hvr, hvpc.trans hpc⟩

/-- A release does nothing but end the wait for it. -/
theorem scans_release {t : Touch} (hdown : t.tp_dev.PRES_DOWN = true) (n : ℕ) :
    ∃ u, scans lcddev calendar t (List.replicate (n + 1) .up) = (u, []) ∧ u.Ready ∧
      u.pc = t.pc.afterRelease := by
  obtain ⟨u, hu, hur, hpc⟩ := step_release lcddev calendar hdown
  obtain ⟨v, hv, hvr, hvpc⟩ := scans_up lcddev calendar hur n
  exact ⟨v, by simp [List.replicate_succ, scans, hu, hv], hvr, hvpc.trans hpc⟩

variable {lcddev calendar}

/-- A settled touch stays as it is while it is held. -/
theorem scans_hold {t : Touch} {p : Point} (ht : t.Settled lcddev p) (n : ℕ) :
    scans lcddev calendar t (List.replicate n (.down (some p))) = (t, []) := by
  obtain ⟨dev, pc, editor⟩ := t
  obtain ⟨hdown, hcur, hpc⟩ := ht
  dsimp only at hdown hcur hpc
  have hdev : TP_Scan (.down (some p)) dev = dev := by
    simp only [TP_Scan, Option.getD_some, ← hcur]
    rw [if_pos hdown]
  have hstep : step lcddev calendar ⟨dev, pc, editor⟩ (.down (some p)) =
      (⟨dev, pc, editor⟩, []) := by
    unfold step
    rw [hdev]
    rcases hpc with rfl | rfl | hout
    · exact if_pos hdown
    · exact if_pos hdown
    · have hno : ∀ pc, Touch.pressed lcddev ⟨dev, pc, editor⟩ = false := by
        simp [Touch.pressed, hcur, hout]
      cases pc with
      | main => simp [touchPass, hno]
      | mainRelease => exact if_pos hdown
      | setTime => simp [setTimePass, hno]
      | setTimeRelease => exact if_pos hdown
  induction n with
  | zero => rfl
  | succ n ih => simp [List.replicate_succ, scans, hstep, ih]

/-- When the first scan of a touch settles it, the whole press does what that
scan did. -/
theorem scans_press {t v : Touch} {p : Point} {acts : List Action}
    (hstep : step lcddev calendar t (.down (some p)) = (v, acts)) (hv : v.Settled lcddev p)
    (held lifted : ℕ) :
    ∃ u, scans lcddev calendar t (samples p held lifted) = (u, acts) ∧ u.Ready ∧
      u.pc = v.pc.afterRelease := by
  obtain ⟨u, hu, hur, hpc⟩ := scans_release lcddev calendar hv.1 lifted
  refine ⟨u, ?_, hur, hpc⟩
  rw [samples, List.replicate_succ, List.cons_append, scans_cons hstep, scans_append,
    scans_hold hv, hu, List.append_nil, List.append_nil]

/-- Whether the regions of the other screen are hit by a press that changes
the screen: the press opens Set_Time, stays down and is on one of its fields,
or it leaves Set_Time and is on one of the panel's regions. -/
def Leaks (lcddev : Lcddev) (t : Touch) (q : Press) : Prop :=
  lcddev.Covers q.point ∧
    ((t.pc = .main ∧ TIME.Hit q.point ∧ 0 < q.held ∧
        (SET_YEAR.Hit q.point ∨ SET_HOUR.Hit q.point ∨ SET_MIN.Hit q.point)) ∨
      (t.pc = .setTime ∧ (CANCLE.Hit q.point ∨ OK.Hit q.point) ∧
        ((Corridor_Light lcddev).Hit q.point ∨ Curtain_CLOSE.Hit q.point ∨
          Curtain_OPEN.Hit q.point ∨ Curtain_KT.Hit q.point)))

theorem editTable_apart : editTable.Pairwise fun a b => a.1.Apart b.1 := by decide

theorem panelTable_apart (lcddev : Lcddev) :
    (panelTable lcddev).Pairwise fun a b => a.1.Apart b.1 := by
  simp [panelTable, Region.Apart, MODE, Bedroom_Light, Livingroom_Light, Corridor_Light,
    Curtain_CLOSE, Curtain_OPEN, Curtain_KT]

/-- A point on TIME is on a field of Set_Time exactly if it is on the year,
the hour or the minute. -/
theorem edits_of_TIME {p : Point} (h : TIME.Hit p) :
    edits p ≠ [] ↔ SET_YEAR.Hit p ∨ SET_HOUR.Hit p ∨ SET_MIN.Hit p := by
  have hapart : ∀ e ∈ editTable, e.1 ≠ SET_YEAR → e.1 ≠ SET_HOUR → e.1 ≠ SET_MIN →
      TIME.Apart e.1 := by decide
  unfold edits
  rw [Ne, hits_eq_nil_iff]
  constructor
  · intro hsome
    by_contra hno
    rw [not_or, not_or] at hno
    refine hsome fun e he hit => ?_
    by_cases hy : e.1 = SET_YEAR
    · exact hno.1 (hy ▸ hit)
    · by_cases hh : e.1 = SET_HOUR
      · exact hno.2.1 (hh ▸ hit)
      · by_cases hm : e.1 = SET_MIN
        · exact hno.2.2 (hm ▸ hit)
        · exact (hapart e he hy hh hm).not_hit h hit
  · rintro (hit | hit | hit) hall
    · exact hall (SET_YEAR, .field .SET_YEAR) (by decide) hit
    · exact hall (SET_HOUR, .field .SET_HOUR) (by decide) hit
    · exact hall (SET_MIN, .field .SET_MIN) (by decide) hit

/-- A point on CANCLE or OK is on no field and no digit. -/
theorem edits_of_leave {p : Point} (h : CANCLE.Hit p ∨ OK.Hit p) : edits p = [] := by
  have hapart : ∀ e ∈ editTable, CANCLE.Apart e.1 ∧ OK.Apart e.1 := by decide
  refine hits_eq_nil_iff.mpr fun e he => ?_
  rcases h with h | h
  · exact (hapart e he).1.not_hit h
  · exact (hapart e he).2.not_hit h

/-- A point on CANCLE or OK is on a region of the panel exactly if it is on
the corridor light or on one of the curtain keys. -/
theorem panelActions_of_leave {p : Point} (h : CANCLE.Hit p ∨ OK.Hit p) :
    panelActions lcddev p ≠ [] ↔ (Corridor_Light lcddev).Hit p ∨ Curtain_CLOSE.Hit p ∨
      Curtain_OPEN.Hit p ∨ Curtain_KT.Hit p := by
  have habove : ∀ r : Region, r.bottom ≤ 283 → ¬r.Hit p := fun r hr =>
    h.elim (Region.Apart.not_hit (Or.inr (Or.inr (Or.inr hr))))
      (Region.Apart.not_hit (Or.inr (Or.inr (Or.inr hr))))
  have hMODE := habove MODE (by decide)
  have hBedroom := habove (Bedroom_Light lcddev) (by simp [Bedroom_Light])
  have hLivingroom := habove (Livingroom_Light lcddev) (by simp [Livingroom_Light])
  unfold panelActions
  rw [Ne, hits_eq_nil_iff]
  simp only [panelTable, List.forall_mem_cons, hMODE, hBedroom, hLivingroom, not_false_eq_true,
    true_and]
  simp only [List.not_mem_nil, IsEmpty.forall_iff, implies_true, and_true]
  tauto

/-- A successful scan of a touch sets the pen bit and the coordinates. -/
theorem TP_Scan_down (p : Point) (d : TpDev) :
    (TP_Scan (.down (some p)) d).PRES_DOWN = true ∧ (TP_Scan (.down (some p)) d).current = p := by
  unfold TP_Scan
  by_cases h : d.PRES_DOWN <;> simp [h]

theorem pressed_eq (dev : TpDev) (p : Point) (pc : Pc) (editor : Editor) :
    Touch.pressed lcddev ⟨TP_Scan (.down (some p)) dev, pc, editor⟩ =
      decide (lcddev.Covers p) := by
  obtain ⟨hdown, hcur⟩ := TP_Scan_down p dev
  simp [Touch.pressed, hdown, hcur]

section FirstScan

variable (calendar)

/-- A pass of Set_Time over a held touch on TIME makes the edits there. -/
theorem step_setTime_edit {t : Touch} (hpc : t.pc = .setTime) {p : Point}
    (hin : lcddev.Covers p) (hc : ¬CANCLE.Hit p) (ho : ¬OK.Hit p) :
    ∃ v, step lcddev calendar t (.down (some p)) = (v, (edits p).map .edit) ∧
      v.Settled lcddev p := by
  obtain ⟨dev, pc, editor⟩ := t
  obtain ⟨hdown, hcur⟩ := TP_Scan_down p dev
  dsimp only at hpc
  subst hpc
  refine ⟨⟨TP_Scan (.down (some p)) dev, .setTimeRelease,
    (edits p).foldl (fun e a => a.run e) editor⟩, ?_, hdown, hcur, Or.inr (Or.inl rfl)⟩
  simp only [step, setTimePass, pressed_eq, hin, decide_true, if_true, hcur, hc, ho, if_false]

/-- A touch on CANCLE or OK leaves Set_Time and goes on with the panel. -/
theorem step_setTime_leave {t : Touch} (hpc : t.pc = .setTime) {p : Point}
    (hin : lcddev.Covers p) (hleave : CANCLE.Hit p ∨ OK.Hit p) :
    ∃ v a, step lcddev calendar t (.down (some p)) =
        (v, a :: (panelActions lcddev p).map .panel) ∧ v.Settled lcddev p := by
  obtain ⟨dev, pc, editor⟩ := t
  obtain ⟨hdown, hcur⟩ := TP_Scan_down p dev
  dsimp only at hpc
  subst hpc
  have hnone := edits_of_leave hleave
  by_cases hc : CANCLE.Hit p
  · refine ⟨⟨TP_Scan (.down (some p)) dev, .mainRelease, { editor with status := 67 }⟩, .CANCLE,
      ?_, hdown, hcur, Or.inl rfl⟩
    simp only [step, setTimePass, pressed_eq, hin, decide_true, if_true, hcur, hc, hnone,
      panelPass, List.map_nil, List.nil_append, List.foldl_nil, List.singleton_append]
  · have ho := hleave.resolve_left hc
    refine ⟨⟨TP_Scan (.down (some p)) dev, .mainRelease, { editor with status := 69 }⟩,
      .OK editor.Set_time, ?_, hdown, hcur, Or.inl rfl⟩
    simp only [step, setTimePass, pressed_eq, hin, decide_true, if_true, hcur, hc, ho, hnone,
      if_false, panelPass, List.map_nil, List.nil_append, List.foldl_nil, List.singleton_append]

/-- A touch outside the display does nothing on either screen. -/
theorem step_outside {t : Touch} (hpc : t.pc = .main ∨ t.pc = .setTime) {p : Point}
    (hout : ¬lcddev.Covers p) :
    ∃ v, step lcddev calendar t (.down (some p)) = (v, []) ∧ v.Settled lcddev p := by
  obtain ⟨dev, pc, editor⟩ := t
  obtain ⟨hdown, hcur⟩ := TP_Scan_down p dev
  refine ⟨⟨TP_Scan (.down (some p)) dev, pc, editor⟩, ?_, hdown, hcur, Or.inr (Or.inr hout)⟩
  rcases hpc with hpc | hpc <;> dsimp only at hpc <;> subst hpc
  · simp [step, touchPass, pressed_eq, hout]
  · simp [step, setTimePass, pressed_eq, hout]

/-- A touch beside TIME does what the panel's regions say. -/
theorem step_main_panel {t : Touch} (hpc : t.pc = .main) {p : Point} (hin : lcddev.Covers p)
    (htime : ¬TIME.Hit p) :
    ∃ v, step lcddev calendar t (.down (some p)) = (v, (panelActions lcddev p).map .panel) ∧
      v.Settled lcddev p := by
  obtain ⟨dev, pc, editor⟩ := t
  obtain ⟨hdown, hcur⟩ := TP_Scan_down p dev
  dsimp only at hpc
  subst hpc
  refine ⟨⟨TP_Scan (.down (some p)) dev, .mainRelease, editor⟩, ?_, hdown, hcur, Or.inl rfl⟩
  simp only [step, touchPass, pressed_eq, hin, decide_true, if_true, hcur, htime, if_false,
    panelPass]

/-- A touch on TIME opens Set_Time with the pen still down. -/
theorem step_main_TIME {t : Touch} (hpc : t.pc = .main) {p : Point} (hin : lcddev.Covers p)
    (htime : TIME.Hit p) :
    ∃ v, step lcddev calendar t (.down (some p)) = (v, [.TIME]) ∧
      v.tp_dev.PRES_DOWN = true ∧ v.pc = .setTime := by
  obtain ⟨dev, pc, editor⟩ := t
  obtain ⟨hdown, hcur⟩ := TP_Scan_down p dev
  dsimp only at hpc
  subst hpc
  refine ⟨⟨TP_Scan (.down (some p)) dev, .setTime, beginSession calendar editor⟩, ?_, hdown, rfl⟩
  simp only [step, touchPass, pressed_eq, hin, decide_true, if_true, hcur, htime]

end FirstScan

/-- A press on the main panel does at most one thing unless it leaks. -/
theorem press_main {t : Touch} (hpc : t.pc = .main) (q : Press) :
    ∃ u acts, scans lcddev calendar t (samples q.point q.held q.lifted) = (u, acts) ∧ u.Ready ∧
      (acts.length ≤ 1 ↔ ¬Leaks lcddev t q) := by
  have hleak : Leaks lcddev t q ↔ lcddev.Covers q.point ∧ TIME.Hit q.point ∧ 0 < q.held ∧
      (SET_YEAR.Hit q.point ∨ SET_HOUR.Hit q.point ∨ SET_MIN.Hit q.point) := by
    simp [Leaks, hpc]
  rw [hleak]
  by_cases hin : lcddev.Covers q.point
  · by_cases htime : TIME.Hit q.point
    · obtain ⟨v, hv, hdown, hvpc⟩ := step_main_TIME calendar hpc hin htime
      have hc : ¬CANCLE.Hit q.point := Region.Apart.not_hit (r := TIME) (by decide) htime
      have ho : ¬OK.Hit q.point := Region.Apart.not_hit (r := TIME) (by decide) htime
      cases hheld : q.held with
      | zero =>
        obtain ⟨u, hu, hur, _⟩ := scans_release lcddev calendar hdown
          q.lifted
        refine ⟨u, [.TIME], ?_, hur, by simp⟩
        rw [samples, List.replicate_one, List.singleton_append, scans_cons hv, hu,
          List.append_nil]
      | succ held =>
        obtain ⟨w, hw, hws⟩ := step_setTime_edit calendar hvpc hin hc ho
        obtain ⟨u, hu, hur, _⟩ := scans_press hw hws held q.lifted
        refine ⟨u, .TIME :: (edits q.point).map .edit, ?_, hur, ?_⟩
        · rw [samples, List.replicate_succ, List.cons_append, scans_cons hv, ← samples, hu]
          rfl
        · rw [← edits_of_TIME htime]
          simp [hin, htime]
    · obtain ⟨v, hv, hvs⟩ := step_main_panel calendar hpc hin htime
      obtain ⟨u, hu, hur, _⟩ := scans_press hv hvs q.held q.lifted
      have hone : (panelActions lcddev q.point).length ≤ 1 :=
        hits_length_le_one (panelTable_apart lcddev) q.point
      exact ⟨u, _, hu, hur, by simpa [htime] using hone⟩
  · obtain ⟨v, hv, hvs⟩ := step_outside calendar (Or.inl hpc) hin
    obtain ⟨u, hu, hur, _⟩ := scans_press hv hvs q.held q.lifted
    exact ⟨u, [], hu, hur, by simp [hin]⟩

/-- A press inside Set_Time does at most one thing unless it leaks. -/
theorem press_setTime {t : Touch} (hpc : t.pc = .setTime) (q : Press) :
    ∃ u acts, scans lcddev calendar t (samples q.point q.held q.lifted) = (u, acts) ∧ u.Ready ∧
      (acts.length ≤ 1 ↔ ¬Leaks lcddev t q) := by
  have hleak : Leaks lcddev t q ↔ lcddev.Covers q.point ∧
      (CANCLE.Hit q.point ∨ OK.Hit q.point) ∧
        ((Corridor_Light lcddev).Hit q.point ∨ Curtain_CLOSE.Hit q.point ∨
          Curtain_OPEN.Hit q.point ∨ Curtain_KT.Hit q.point) := by
    simp [Leaks, hpc]
  rw [hleak]
  by_cases hin : lcddev.Covers q.point
  · by_cases hleave : CANCLE.Hit q.point ∨ OK.Hit q.point
    · obtain ⟨v, a, hv, hvs⟩ := step_setTime_leave calendar hpc hin hleave
      obtain ⟨u, hu, hur, _⟩ := scans_press hv hvs q.held q.lifted
      refine ⟨u, _, hu, hur, ?_⟩
      rw [← panelActions_of_leave hleave]
      simp [hin, hleave]
    · obtain ⟨hc, ho⟩ := not_or.mp hleave
      obtain ⟨v, hv, hvs⟩ := step_setTime_edit calendar hpc hin hc ho
      obtain ⟨u, hu, hur, _⟩ := scans_press hv hvs q.held q.lifted
      have hone : (edits q.point).length ≤ 1 := hits_length_le_one editTable_apart q.point
      exact ⟨u, _, hu, hur, by simpa [hleave] using hone⟩
  · obtain ⟨v, hv, hvs⟩ := step_outside calendar (Or.inr hpc) hin
    obtain ⟨u, hu, hur, _⟩ := scans_press hv hvs q.held q.lifted
    exact ⟨u, [], hu, hur, by simp [hin]⟩

/-- The machine with the actions of the last press. -/
structure Pressed where
  touch : Touch
  last : List Action
  deriving DecidableEq, Repr

/-- One press as a step. -/
def pressStep (lcddev : Lcddev) (s : Pressed) (q : Press) : Option Pressed :=
  let (touch, last) := scans lcddev q.calendar s.touch (samples q.point q.held q.lifted)
  some ⟨touch, last⟩

/-- The last press performed at most one action. -/
def Pressed.Single (s : Pressed) : Prop := s.last.length ≤ 1

instance (s : Pressed) : Decidable s.Single := inferInstanceAs (Decidable (_ ≤ _))

/-- The step of a press in a state without a touch. -/
theorem pressStep_spec {s t : Pressed} {q : Press} (hs : s.touch.Ready)
    (h : pressStep lcddev s q = some t) :
    t.touch.Ready ∧ (t.Single ↔ ¬Leaks lcddev s.touch q) := by
  have hpress : ∃ u acts, scans lcddev q.calendar s.touch (samples q.point q.held q.lifted) =
      (u, acts) ∧ u.Ready ∧ (acts.length ≤ 1 ↔ ¬Leaks lcddev s.touch q) :=
    hs.2.elim (fun hpc => press_main hpc q) (fun hpc => press_setTime hpc q)
  obtain ⟨u, acts, hscans, hready, hone⟩ := hpress
  simp only [pressStep, hscans, Option.some.injEq] at h
  subst h
  exact ⟨hready, hone⟩

/-- In every sequence of presses each press performs at most one action
exactly as long as no press that changes the screen is on an overlapping
region of the other screen. -/
theorem presses_single_iff (lcddev : Lcddev) (qs : List Press) :
    Always Pressed.Single (pressStep lcddev) ⟨start, []⟩ qs ↔
      Guarded (fun s q => ¬Leaks lcddev s.touch q) (pressStep lcddev) ⟨start, []⟩ qs := by
  have hstart : start.Ready ∧ Pressed.Single ⟨start, []⟩ := ⟨⟨rfl, Or.inl rfl⟩, Nat.zero_le 1⟩
  exact always_iff_guarded (I := fun s => s.touch.Ready ∧ s.Single) (s := ⟨start, []⟩)
    (fun _ h => h.2)
    (fun _ _ _ hs hq ht => ⟨(pressStep_spec hs.1 ht).1, (pressStep_spec hs.1 ht).2.mpr hq⟩)
    (fun _ _ _ hs hq ht hone => hq ((pressStep_spec hs.1 ht).2.mp hone)) qs hstart

/-- On the 240 by 320 display a press on the clock that is held for two scans
opens Set_Time and selects the year. -/
theorem not_single_on_TIME :
    ¬∀ qs, Always Pressed.Single (pressStep ⟨240, 320⟩) ⟨start, []⟩ qs := by
  intro h
  have hlost : (run (pressStep ⟨240, 320⟩) ⟨start, []⟩
      [⟨⟨70, 50⟩, 1, 0, ⟨0, 0, 0, 2024, 1, 1, 1⟩⟩]).any (fun t => !decide t.Single) = true := by
    decide +kernel
  obtain ⟨t, ht, hd⟩ := (Option.any_eq_true _ _).mp hlost
  exact absurd ((h _).of_run ht) (by simpa using hd)

end SmartHome.TouchThread
