import SmartHome.EnteredTimes

/-!
# One transition for the ten digit keys

Each digit key has its own copy of the code for all fields. For the six
numeric fields all copies append the digit to the buffer, in plain arithmetic,
and store the number into the selected field alone: the buffer never exceeds
99, so that nothing overflows or is cut off.
-/

namespace SmartHome.DigitKeys

open HomePanel SetTimeEditor SetTimeSessions EnteredTimes

/-- Largest number of a field. -/
def largest : Field → ℕ
  | .SET_YEAR => 99
  | .SET_MON => 12
  | .SET_DAY => 31
  | .SET_HOUR => 23
  | .SET_MIN => 60
  | .SET_SEC => 60
  | .SET_WEEK => 0

/-- The number with one more digit, or zero when it would be too large. -/
def typed (f : Field) (v digit : ℕ) : ℕ :=
  if 10 * v + digit ≤ largest f then 10 * v + digit else 0

/-- Store a value into one field of a time. -/
def store (f : Field) (value : ℕ) (t : Time) : Time :=
  match f with
  | .SET_YEAR => { t with year := value }
  | .SET_MON => { t with mon := value }
  | .SET_DAY => { t with day := value }
  | .SET_HOUR => { t with hour := value }
  | .SET_MIN => { t with min := value }
  | .SET_SEC => { t with sec := value }
  | .SET_WEEK => { t with week := value }

/-- The transition of a digit for the selected field. -/
def typeDigit (f : Field) (digit : ℕ) (e : Editor) : Editor :=
  let v := typed f e.set_value digit
  { e with key_value := digit, set_value := v, Set_time := store f (base f + v) e.Set_time }

/-- The digit buffer holds at most two digits. -/
def TwoDigits (e : Editor) : Prop := e.set_value ≤ 99

/-! ### Fields of a time -/

@[simp] theorem fieldOf_store_self (f : Field) (value : ℕ) (t : Time) :
    fieldOf f (store f value t) = value := by
  cases f <;> rfl

theorem fieldOf_store_of_ne {f g : Field} (h : g ≠ f) (value : ℕ) (t : Time) :
    fieldOf g (store f value t) = fieldOf g t := by
  cases f <;> cases g <;> first | rfl | exact absurd rfl h

/-! ### The digit buffer -/

/-- The limit of a field is the next number after its largest. -/
theorem limit_eq (f : Field) : limit f = largest f + 1 := by
  cases f <;> rfl

theorem largest_le (f : Field) : largest f ≤ 99 := by
  cases f <;> decide

/-- The number stays at most the largest of its field. -/
theorem typed_le (f : Field) (v digit : ℕ) : typed f v digit ≤ largest f := by
  unfold typed
  split <;> omega

theorem digitValue_le (d : Digit) : digitValue d ≤ 9 := by
  cases d <;> decide

/-- From a buffer of two digits the code's arithmetic does not overflow. -/
theorem extend_eq_typed (f : Field) {v digit : ℕ} (hv : v ≤ 99) (hdigit : digit ≤ 9) :
    extend v digit (limit f) = typed f v digit := by
  have hfit : MachineWords.uint16_t (v * 10 + digit) = 10 * v + digit := by
    dsimp only [MachineWords.uint16_t]
    omega
  unfold extend typed
  dsimp only
  rw [hfit, limit_eq]
  split_ifs <;> omega

/-- A digit key is the transition of its digit for the selected field. -/
theorem run_eq_typeDigit {f : Field} (hweek : f ≠ .SET_WEEK) {e : Editor} (he : TwoDigits e)
    (hflag : e.time_flag_flash = flag f) (d : Digit) :
    d.run e = typeDigit f (digitValue d) e := by
  obtain ⟨week, hrun⟩ := run_digit d
  have hextend := extend_eq_typed f he (digitValue_le d)
  have hle := (typed_le f e.set_value (digitValue d)).trans (largest_le f)
  have hbyte : MachineWords.uint8_t (typed f e.set_value (digitValue d)) =
      typed f e.set_value (digitValue d) := Nat.mod_eq_of_lt (by omega)
  have hyear : MachineWords.uint16_t (typed f e.set_value (digitValue d) + 2000) =
      2000 + typed f e.set_value (digitValue d) := by
    dsimp only [MachineWords.uint16_t]
    omega
  rw [hrun]
  unfold digitKey typeDigit
  cases f with
  | SET_WEEK => exact absurd rfl hweek
  | SET_YEAR =>
    simp only [flag] at hflag
    simp only [limit] at hextend
    simp only [hflag, hextend, hyear, store, base]
  | _ =>
    simp only [flag] at hflag
    simp only [limit] at hextend
    simp only [hflag, hextend, hbyte, store, base, Nat.zero_add]

/-- A touch keeps the buffer at two digits. -/
theorem TwoDigits.touch {e : Editor} (h : TwoDigits e) (a : Edit) : TwoDigits (a.run e) := by
  cases a with
  | field f => exact (selectField_set_value f e).le.trans (Nat.zero_le 99)
  | digit d =>
    obtain ⟨week, hrun⟩ := run_digit d
    have hnumber : ∀ f, extend e.set_value (digitValue d) (limit f) ≤ 99 := fun f => by
      rw [extend_eq_typed f h (digitValue_le d)]
      exact (typed_le f _ _).trans (largest_le f)
    simp only [Edit.run, hrun, TwoDigits, digitKey]
    -- one case per numeric field, then the weekday and no field at all
    split
    · exact hnumber .SET_YEAR
    · exact hnumber .SET_MON
    · exact hnumber .SET_DAY
    · exact hnumber .SET_HOUR
    · exact hnumber .SET_MIN
    · exact hnumber .SET_SEC
    · exact h
    · exact h

/-- After every history and at every point of a session the buffer is at most 99,
and a digit key makes the one transition for the selected field: the number is
stored there, and the other fields stay as they are. -/
theorem digit_keys_agree (history : List Session) (x : Session) :
    (x.edited (editorAfter history)).set_value ≤ 99 ∧
      ∀ f, f ≠ .SET_WEEK → (x.edited (editorAfter history)).time_flag_flash = flag f → ∀ d : Digit,
        d.run (x.edited (editorAfter history)) =
          typeDigit f (digitValue d) (x.edited (editorAfter history)) ∧
        ∀ g, fieldOf g (d.run (x.edited (editorAfter history))).Set_time =
          if g = f then base f + typed f (x.edited (editorAfter history)).set_value (digitValue d)
          else fieldOf g (x.edited (editorAfter history)).Set_time := by
  have hdigits : TwoDigits (x.edited (editorAfter history)) :=
    edited_invariant (Nat.zero_le 99) (fun _ a h => h.touch a) (fun _ _ h => h) (fun _ _ h => h)
      history x
  refine ⟨hdigits, fun f hweek hflag d => ?_⟩
  have hrun := run_eq_typeDigit hweek hdigits hflag d
  refine ⟨hrun, fun g => ?_⟩
  rw [hrun]
  split_ifs with hg
  · rw [hg]
    exact fieldOf_store_self f _ _
  · exact fieldOf_store_of_ne hg _ _

/-- A second digit that would make the month too large empties the buffer. -/
theorem digit_keys_agree_month :
    let x : Session := ⟨⟨13, 30, 0, 2024, 5, 17, 5⟩, [.field .SET_MON, .digit .NINE], .OK⟩
    Digit.run .FIVE (x.edited (editorAfter [])) =
      typeDigit .SET_MON 5 (x.edited (editorAfter [])) :=
  ((digit_keys_agree [] _).2 .SET_MON (by decide) rfl .FIVE).1

end SmartHome.DigitKeys
