import SmartHome.TouchThread
import SmartHome.TransitionRuns

/-!
# Where the coordinates of a touch come from

A scan with the pen down sets the pressed bit also when its read fails, and
the first scan with the pen up leaves the old coordinates in place. The
pressed branch of touch_thread then works on coordinates from before the
release. The history beside the machine is the last read since the pen was up
and the coordinates of the branch.
-/

namespace SmartHome.TouchThread

open TouchRegions SetTimeEditor TransitionRuns

/-- The touch machine with the history of its reads and of the branch. -/
structure Watched where
  touch : Touch
  /-- Coordinates of the last read that succeeded since a scan with the pen up. -/
  read : Option Point
  /-- Coordinates for which the last scan made touch_thread take its pressed branch. -/
  branch : Option Point

/-- The calendar at a scan and what the scan is given. -/
abbrev Scan := RtcDriver.Calendar × Sample

/-- The last read since the pen was up, after one more scan. -/
def Sample.readAfter (read : Option Point) : Sample → Option Point
  | .up => none
  | .down (some p) => some p
  | .down none => read

/-- One scan of the machine with its history. -/
def watch (lcddev : Lcddev) (s : Watched) (e : Scan) : Option Watched :=
  let scanned := { s.touch with tp_dev := TP_Scan e.2 s.touch.tp_dev }
  some { touch := (step lcddev e.1 s.touch e.2).1,
         read := e.2.readAfter s.read,
         branch := if s.touch.pc = .main ∧ scanned.pressed lcddev then
           some scanned.tp_dev.current else none }

/-- The pressed branch works on coordinates read since the pen was up. -/
def Watched.Fresh (s : Watched) : Prop := ∀ p ∈ s.branch, s.read = some p

instance (s : Watched) : Decidable s.Fresh :=
  inferInstanceAs (Decidable (∀ p ∈ s.branch, _))

/-- A scan of touch_thread whose read fails with the pen down finds a read
since the pen was up, or stored coordinates outside the display. -/
def Backed (lcddev : Lcddev) (s : Watched) (e : Scan) : Prop :=
  e.2 = .down none → s.touch.pc = .main →
    s.read ≠ none ∨ ¬lcddev.Covers s.touch.tp_dev.current

/-- The machine before its first scan, with any coordinates left by the
initialisation of the touch screen. -/
def watched (current first : Point) : Watched :=
  ⟨⟨⟨false, false, current, first⟩, .main, initial⟩, none, none⟩

/-- A pass over the regions leaves the scanned touch state. -/
theorem touchPass_tp_dev (lcddev : Lcddev) (calendar : RtcDriver.Calendar) (t : Touch) :
    (touchPass lcddev calendar t).1.tp_dev = t.tp_dev := by
  unfold touchPass panelPass
  split
  · split <;> rfl
  · rfl

theorem setTimePass_tp_dev (lcddev : Lcddev) (t : Touch) :
    (setTimePass lcddev t).1.tp_dev = t.tp_dev := by
  unfold setTimePass panelPass
  split
  · dsimp only
    split
    · rfl
    · split <;> rfl
  · rfl

/-- A step leaves the touch state of its scan. -/
theorem step_tp_dev (lcddev : Lcddev) (calendar : RtcDriver.Calendar) (t : Touch)
    (sample : Sample) : (step lcddev calendar t sample).1.tp_dev = TP_Scan sample t.tp_dev := by
  unfold step
  dsimp only
  split
  · exact touchPass_tp_dev lcddev calendar _
  · split <;> rfl
  · exact setTimePass_tp_dev lcddev _
  · split <;> rfl

/-- A scan leaves the coordinates of its read, and those it had when its read fails. -/
theorem TP_Scan_current (read : Option Point) (d : TpDev) :
    (TP_Scan (.down read) d).current = read.getD d.current := by
  unfold TP_Scan
  dsimp only
  split <;> rfl

/-- A scan with the pen up ends a press. -/
theorem TP_Scan_up (d : TpDev) : (TP_Scan .up d).PRES_DOWN = false := by
  unfold TP_Scan
  dsimp only
  split
  · rfl
  · rename_i h
    exact Bool.eq_false_of_not_eq_true h

/-- The stored coordinates are those of the last read since the pen was up. -/
def Watched.Current (s : Watched) : Prop := ∀ p ∈ s.read, s.touch.tp_dev.current = p

/-- Every scan stores the coordinates it reads. -/
theorem watch_current {lcddev : Lcddev} {s t : Watched} {e : Scan} (hs : s.Current)
    (ht : watch lcddev s e = some t) : t.Current := by
  cases ht
  intro p hp
  dsimp only at hp ⊢
  rw [step_tp_dev]
  obtain ⟨calendar, sample⟩ := e
  cases sample with
  | up => exact absurd hp (by simp [Sample.readAfter])
  | down read =>
    rw [TP_Scan_current]
    cases read with
    | none => exact hs p hp
    | some q => exact Option.mem_some_iff.mp hp

/-- A backed scan takes the branch only on fresh coordinates. -/
theorem watch_fresh {lcddev : Lcddev} {s t : Watched} {e : Scan} (hs : s.Current)
    (hback : Backed lcddev s e) (ht : watch lcddev s e = some t) : t.Fresh := by
  cases ht
  obtain ⟨calendar, sample⟩ := e
  intro p hp
  dsimp only at hp ⊢
  rw [Option.mem_def, Option.ite_none_right_eq_some] at hp
  obtain ⟨⟨hpc, hpressed⟩, hp⟩ := hp
  rw [Touch.pressed, Bool.and_eq_true] at hpressed
  obtain ⟨hdown, hin⟩ := hpressed
  cases sample with
  | up =>
    dsimp only at hdown
    rw [TP_Scan_up] at hdown
    exact absurd hdown (by decide)
  | down read =>
    rw [Option.some.injEq] at hp
    dsimp only at hp hin
    rw [TP_Scan_current] at hp hin
    cases read with
    | some q => exact congrArg some hp
    | none =>
      -- the read failed, so the coordinates are those of an earlier scan
      rcases hback rfl hpc with hread | hout
      · obtain ⟨q, hq⟩ := Option.ne_none_iff_exists'.mp hread
        exact hq.trans (congrArg some ((hs q hq).symm.trans hp))
      · exact absurd (of_decide_eq_true hin) hout

/-- A scan that is not backed takes the branch on stale coordinates. -/
theorem not_fresh_of_not_backed {lcddev : Lcddev} {s t : Watched} {e : Scan}
    (hback : ¬Backed lcddev s e) (ht : watch lcddev s e = some t) : ¬t.Fresh := by
  cases ht
  obtain ⟨calendar, sample⟩ := e
  simp only [Backed, Classical.not_imp, not_or, not_not] at hback
  obtain ⟨rfl, hpc, hread, hin⟩ := hback
  intro hfresh
  have hdown : (TP_Scan (.down none) s.touch.tp_dev).PRES_DOWN = true := by
    unfold TP_Scan
    dsimp only
    split
    · assumption
    · rfl
  have hbranch := hfresh s.touch.tp_dev.current (by
    simp [Touch.pressed, hpc, hdown, TP_Scan_current, hin])
  dsimp only [Sample.readAfter] at hbranch
  exact absurd (hread.symm.trans hbranch) (by simp)

/-- In every sequence of scans touch_thread acts on fresh coordinates exactly
if each of its scans with a failed read is backed. -/
theorem fresh_iff_backed (lcddev : Lcddev) (current first : Point) (es : List Scan) :
    Always Watched.Fresh (watch lcddev) (watched current first) es ↔
      Guarded (Backed lcddev) (watch lcddev) (watched current first) es := by
  have hstart : (watched current first).Current ∧ (watched current first).Fresh :=
    ⟨fun p hp => absurd hp (by simp [watched]), fun p hp => absurd hp (by simp [watched])⟩
  exact always_iff_guarded (I := fun s => s.Current ∧ s.Fresh) (fun _ h => h.2)
    (fun _ _ _ hs hback ht => ⟨watch_current hs.1 ht, watch_fresh hs.1 hback ht⟩)
    (fun _ _ _ _ hback ht => not_fresh_of_not_backed hback ht) es hstart

/-- A touch that bounces once, with a failed read, acts a second time. -/
theorem not_fresh_after_bounce :
    ¬∀ lcddev current first es,
      Always Watched.Fresh (watch lcddev) (watched current first) es := by
  intro h
  let calendar : RtcDriver.Calendar := ⟨0, 0, 0, 2024, 1, 1, 1⟩
  have hall := h ⟨240, 320⟩ ⟨0xffff, 0xffff⟩ ⟨0, 0⟩
    [(calendar, .down (some ⟨200, 70⟩)), (calendar, .up), (calendar, .down none)]
  have hlast := (((hall.2 _ rfl).2 _ rfl).2 _ rfl).head
  exact absurd hlast (by decide)

end SmartHome.TouchThread
