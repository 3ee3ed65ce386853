import SmartHome.SetTimeEditor

/-!
# Sessions of the time setting one after the other

A session copies the calendar, takes touches on the fields and digit keys and
is left by CANCLE or OK. The selected field and the digit buffer are static,
so what a digit key does before the first selection depends on the sessions
before. Two histories are compared on what a session edits and passes on.
-/

namespace SmartHome.SetTimeSessions

open HomePanel SetTimeEditor
open RtcDriver (Calendar)

/-- The keys that end a session. -/
inductive Leave where
  | CANCLE
  | OK
  deriving DecidableEq, Repr

/-- A session: the calendar at its start, the touches and the last key. -/
structure Session where
  calendar : Calendar
  touches : List Edit
  leave : Leave
  deriving DecidableEq, Repr

/-- Touches in a row. -/
def runTouches (touches : List Edit) (e : Editor) : Editor := touches.foldl (fun e a => a.run e) e

/-- The editor before the last key. -/
def Session.edited (x : Session) (e : Editor) : Editor :=
  runTouches x.touches (beginSession x.calendar e)

/-- The value of status for the key that ends a session. -/
def Leave.status : Leave → ℕ
  | .CANCLE => 67
  | .OK => 69

/-- The editor after the session. -/
def Session.run (e : Editor) (x : Session) : Editor :=
  { x.edited e with status := x.leave.status }

/-- Arguments of RTC_Set in order. -/
def arguments (t : Time) : List ℕ := [t.year, t.mon, t.day, t.hour, t.min, t.sec]

/-- Arguments passed to RTC_Set at the end of the session, if it is called. -/
def Session.call (x : Session) (e : Editor) : Option (List ℕ) :=
  match x.leave with
  | .CANCLE => none
  | .OK => some (arguments (x.edited e).Set_time)

/-- The fields that the touches write, each as its value of time_flag_flash. -/
def editedFields : List Edit → Editor → List ℕ
  | [], _ => []
  | a :: touches, e => (a.run e).time_flag_flash :: editedFields touches (a.run e)

/-- What a session does: the fields it edits and its call of RTC_Set. -/
def Session.outcome (x : Session) (e : Editor) : List ℕ × Option (List ℕ) :=
  (editedFields x.touches (beginSession x.calendar e), x.call e)

/-- The editor after a history of sessions. -/
def editorAfter (history : List Session) : Editor := history.foldl Session.run initial

/-- The session does the same after every history. -/
def Session.Independent (x : Session) : Prop :=
  ∀ history history', x.outcome (editorAfter history) = x.outcome (editorAfter history')

/-- The year is selected and the digit buffer is empty. -/
def StartsFresh (e : Editor) : Prop := e.time_flag_flash = 1 ∧ e.set_value = 0

/-- The first touch selects a field, if there is one. -/
def SelectsFirst (touches : List Edit) : Prop := ∀ d, touches.head? ≠ some (.digit d)

/-- The field that touches select last; the year without any selection. -/
def selected (touches : List Edit) : Field :=
  touches.foldl (fun f a => match a with
    | .field g => g
    | .digit _ => f) .SET_YEAR

/-- The number on a digit key. -/
def digitValue : Digit → ℕ
  | .ZERO => 0
  | .ONE => 1
  | .TWO => 2
  | .THREE => 3
  | .FOUR => 4
  | .FIVE => 5
  | .SIX => 6
  | .SEVEN => 7
  | .EIGHT => 8
  | .NINE => 9

/-- The digits typed since the last selection. -/
def typedSince (touches : List Edit) : List ℕ :=
  touches.foldl (fun ds a => match a with
    | .field _ => []
    | .digit d => ds ++ [digitValue d]) []

/-- The number that digits leave in the buffer. -/
def typedValue (limit start : ℕ) (digits : List ℕ) : ℕ :=
  digits.foldl (fun v d => extend v d limit) start

/-- The touches end on the year with nothing or zero typed. -/
def EndsOnYear (touches : List Edit) : Prop :=
  selected touches = .SET_YEAR ∧ typedValue 100 0 (typedSince touches) = 0

/-! ### Single touches -/

/-- The value of time_flag_flash for a field. -/
def flag : Field → ℕ
  | .SET_YEAR => 1
  | .SET_MON => 2
  | .SET_DAY => 3
  | .SET_HOUR => 11
  | .SET_MIN => 12
  | .SET_SEC => 13
  | .SET_WEEK => 7

theorem selectField_flag (f : Field) (e : Editor) :
    (selectField f e).time_flag_flash = flag f := by
  cases f <;> rfl

theorem selectField_set_value (f : Field) (e : Editor) : (selectField f e).set_value = 0 := by
  cases f <;> rfl

/-- A digit key is the shared body with its own number. -/
theorem run_digit (d : Digit) : ∃ week, d.run = digitKey (digitValue d) week := by
  cases d <;> exact ⟨_, rfl⟩

/-- A digit key leaves the selection as it is. -/
theorem digitKey_flag (key week : ℕ) (e : Editor) :
    (digitKey key week e).time_flag_flash = e.time_flag_flash := by
  unfold digitKey
  dsimp only
  split <;> rfl

/-- With the year selected a digit key extends the buffer up to 99. -/
theorem digitKey_set_value {e : Editor} (h : e.time_flag_flash = 1) (key week : ℕ) :
    (digitKey key week e).set_value = extend e.set_value key 100 := by
  simp [digitKey, h]

/-- A touch leaves the selected field marked. -/
theorem run_flag (a : Edit) (e : Editor) :
    (a.run e).time_flag_flash = match a with
      | .field f => flag f
      | .digit _ => e.time_flag_flash := by
  cases a with
  | field f => exact selectField_flag f e
  | digit d =>
    obtain ⟨week, hrun⟩ := run_digit d
    simp only [Edit.run, hrun, digitKey_flag]

/-! ### Invariants of the editor -/

/-- What every touch keeps holds after touches. -/
theorem runTouches_invariant {I : Editor → Prop} (htouch : ∀ e a, I e → I (Edit.run a e))
    {e : Editor} (h : I e) (touches : List Edit) : I (runTouches touches e) := by
  induction touches generalizing e with
  | nil => exact h
  | cons a touches ih => exact ih (htouch e a h)

/-- What touches, the start and the end of a session keep holds at every point of a
session after every history. -/
theorem edited_invariant {I : Editor → Prop} (hinitial : I initial)
    (htouch : ∀ e a, I e → I (Edit.run a e))
    (hbegin : ∀ calendar e, I e → I (beginSession calendar e))
    (hend : ∀ e status, I e → I { e with status := status })
    (history : List Session) (x : Session) : I (x.edited (editorAfter history)) := by
  have hsession : ∀ (x : Session) {e : Editor}, I e → I (x.edited e) := fun x e h =>
    runTouches_invariant htouch (hbegin x.calendar e h) x.touches
  have hafter : I (editorAfter history) := by
    unfold editorAfter
    induction history using List.reverseRecOn with
    | nil => exact hinitial
    | append_singleton history y ih =>
      rw [List.foldl_append]
      exact hend _ _ (hsession y ih)
  exact hsession x hafter

/-! ### Two histories -/

/-- Editors that differ in the last keys only. -/
def Alike (e e' : Editor) : Prop :=
  e.Set_time = e'.Set_time ∧ e.time_flag_flash = e'.time_flag_flash ∧ e.set_value = e'.set_value

/-- A digit key does the same to alike editors. -/
theorem digitKey_alike {e e' : Editor} (h : Alike e e') (key week : ℕ) :
    Alike (digitKey key week e) (digitKey key week e') := by
  obtain ⟨time, flag, last, value, status⟩ := e
  obtain ⟨time', flag', last', value', status'⟩ := e'
  obtain ⟨rfl, rfl, rfl⟩ := h
  unfold digitKey
  dsimp only
  split <;> exact ⟨rfl, rfl, rfl⟩

/-- A touch does the same to alike editors. -/
theorem run_alike {e e' : Editor} (h : Alike e e') (a : Edit) : Alike (a.run e) (a.run e') := by
  cases a with
  | field f =>
    obtain ⟨htime, hflag, hvalue⟩ := h
    cases f <;> exact ⟨by simp [Edit.run, selectField, htime], rfl, rfl⟩
  | digit d =>
    obtain ⟨week, hrun⟩ := run_digit d
    simp only [Edit.run, hrun]
    exact digitKey_alike h _ week

/-- Alike editors stay alike and have the same fields edited. -/
theorem runTouches_alike (touches : List Edit) {e e' : Editor} (h : Alike e e') :
    Alike (runTouches touches e) (runTouches touches e') ∧
      editedFields touches e = editedFields touches e' := by
  induction touches generalizing e e' with
  | nil => exact ⟨h, rfl⟩
  | cons a touches ih =>
    obtain ⟨hend, hfields⟩ := ih (run_alike h a)
    exact ⟨hend, congrArg₂ List.cons (run_alike h a).2.1 hfields⟩

/-- A selection makes editors with one calendar alike. -/
theorem selectField_alike (f : Field) (calendar : Calendar) (e e' : Editor) :
    Alike (selectField f (beginSession calendar e)) (selectField f (beginSession calendar e')) := by
  cases f <;> exact ⟨rfl, rfl, rfl⟩

/-- A session that first selects a field does the same after every history. -/
theorem outcome_of_selectsFirst {x : Session} (h : SelectsFirst x.touches) (e e' : Editor) :
    x.outcome e = x.outcome e' := by
  obtain ⟨calendar, touches, leave⟩ := x
  cases touches with
  | nil => cases leave <;> rfl
  | cons a touches =>
    cases a with
    | digit d => exact absurd rfl (h d)
    | field f =>
      have hfirst := selectField_alike f calendar e e'
      obtain ⟨hend, hfields⟩ := runTouches_alike touches hfirst
      refine Prod.ext (congrArg₂ List.cons hfirst.2.1 hfields) ?_
      cases leave with
      | CANCLE => rfl
      | OK => exact congrArg (fun t => some (arguments t)) hend.1

/-- A session that first types a digit goes on with the field of the session before. -/
theorem editedFields_digit (d : Digit) (touches : List Edit) (calendar : Calendar) (e : Editor) :
    (editedFields (.digit d :: touches) (beginSession calendar e)).head? =
      some e.time_flag_flash := congrArg some (run_flag (.digit d) (beginSession calendar e))

/-- A session is independent of the history exactly if it does not type a digit first. -/
theorem independent_iff (x : Session) : x.Independent ↔ SelectsFirst x.touches := by
  refine ⟨fun h d hd => ?_, fun h _ _ => outcome_of_selectsFirst h _ _⟩
  obtain ⟨rest, hrest⟩ : ∃ rest, x.touches = .digit d :: rest := by
    cases htouches : x.touches with
    | nil => simp [htouches] at hd
    | cons a rest => exact ⟨rest, by simpa [htouches] using hd⟩
  -- the month was selected last in the second history
  have hfields := congrArg (fun o => o.1.head?)
    (h [] [⟨⟨0, 0, 0, 2024, 1, 1, 1⟩, [.field .SET_MON], .CANCLE⟩])
  simp only [Session.outcome, hrest, editedFields_digit] at hfields
  exact absurd hfields (by decide)

/-! ### The start of a session -/

/-- The statics are what the touches so far have left. -/
structure Tracks (e : Editor) (touches : List Edit) : Prop where
  flagged : e.time_flag_flash = flag (selected touches)
  buffered : selected touches = .SET_YEAR →
    e.set_value = typedValue 100 0 (typedSince touches)

/-- A selection is the last one. -/
theorem selected_concat_field (touches : List Edit) (f : Field) :
    selected (touches ++ [.field f]) = f := by
  simp [selected]

/-- A digit selects nothing. -/
theorem selected_concat_digit (touches : List Edit) (d : Digit) :
    selected (touches ++ [.digit d]) = selected touches := by
  simp [selected]

/-- The fields are marked with different values. -/
theorem flag_injective : Function.Injective flag := by
  intro f g h
  cases f <;> cases g <;> first | rfl | exact absurd h (by decide)

/-- One more touch. -/
theorem Tracks.touch {e : Editor} {touches : List Edit} (h : Tracks e touches) (a : Edit) :
    Tracks (a.run e) (touches ++ [a]) := by
  cases a with
  | field f =>
    refine ⟨(selectField_flag f e).trans (by rw [selected_concat_field]), fun _ => ?_⟩
    simp only [Edit.run, selectField_set_value, typedSince, List.foldl_append, List.foldl_cons,
      List.foldl_nil]
    rfl
  | digit d =>
    obtain ⟨week, hrun⟩ := run_digit d
    simp only [Edit.run, hrun]
    refine ⟨?_, fun hyear => ?_⟩
    · rw [digitKey_flag, selected_concat_digit, h.flagged]
    · rw [selected_concat_digit] at hyear
      rw [digitKey_set_value (by rw [h.flagged, hyear]; rfl), h.buffered hyear]
      simp [typedSince, typedValue]

/-- Touches in a row. -/
theorem Tracks.touches {e : Editor} {before : List Edit} (h : Tracks e before)
    (touches : List Edit) : Tracks (runTouches touches e) (before ++ touches) := by
  induction touches generalizing e before with
  | nil => rwa [List.append_nil]
  | cons a touches ih =>
    have hrest := ih (h.touch a)
    rwa [List.append_assoc] at hrest

/-- Sessions in a row. -/
theorem Tracks.sessions {e : Editor} {before : List Edit} (h : Tracks e before)
    (history : List Session) :
    Tracks (history.foldl Session.run e) (before ++ history.flatMap Session.touches) := by
  induction history generalizing e before with
  | nil => rwa [List.flatMap_nil, List.append_nil]
  | cons x history ih =>
    have hbegin : Tracks (beginSession x.calendar e) before := ⟨h.flagged, h.buffered⟩
    have hedited : Tracks (x.edited e) (before ++ x.touches) := hbegin.touches x.touches
    have hrun : Tracks (Session.run e x) (before ++ x.touches) :=
      ⟨hedited.flagged, hedited.buffered⟩
    simpa using ih hrun

/-- A session starts fresh exactly if the touches so far end on the year. -/
theorem startsFresh_iff (history : List Session) :
    StartsFresh (editorAfter history) ↔ EndsOnYear (history.flatMap Session.touches) := by
  have hinitial : Tracks initial [] := ⟨rfl, fun _ => rfl⟩
  have htracks : Tracks (editorAfter history) (history.flatMap Session.touches) :=
    hinitial.sessions history
  have hyear : (editorAfter history).time_flag_flash = 1 ↔
      selected (history.flatMap Session.touches) = .SET_YEAR := by
    rw [htracks.flagged]
    exact flag_injective.eq_iff (b := .SET_YEAR)
  exact (and_congr_left' hyear).trans
    (and_congr_right fun h => by rw [htracks.buffered h])

/-- A session is independent of the history exactly if it selects a field before
it types, and starts fresh exactly if the history ends on the year. -/
theorem independent_and_fresh_iff (x : Session) (history : List Session) :
    (x.Independent ↔ SelectsFirst x.touches) ∧
      (StartsFresh (editorAfter history) ↔ EndsOnYear (history.flatMap Session.touches)) :=
  ⟨independent_iff x, startsFresh_iff history⟩

/-- After a cancelled session that selected the month, a digit changes the
month and not the year. -/
theorem not_independent_after_month :
    ¬((∀ x : Session, x.Independent) ∧ ∀ history, StartsFresh (editorAfter history)) := by
  rintro ⟨hsame, -⟩
  let calendar : Calendar := ⟨13, 30, 0, 2024, 5, 17, 5⟩
  exact absurd (hsame ⟨calendar, [.digit .ONE], .OK⟩ [] [⟨calendar, [.field .SET_MON], .CANCLE⟩])
    (by decide)

end SmartHome.SetTimeSessions
