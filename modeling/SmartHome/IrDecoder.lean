import SmartHome.MachineWords
import SmartHome.ShiftWindows
import Mathlib.Data.Fintype.Basic

/-!
# The decoder of the remote control

Two interrupts of timer 4 and the polling function share a status byte, a
shift register and a counter. The callbacks work on the byte with the masks of
the source, the shifted ones as their values; each of them is described once on
the named bits of the byte.
-/

namespace SmartHome.IrDecoder

open MachineWords ShiftWindows

/-- Timers whose handles reach the shared callbacks. -/
inductive Timer where
  | TIM4
  | TIM5
  deriving DecidableEq, Repr

/-- The variables of the decoder. -/
structure Remote where
  RmtSta : UInt8
  Dval : ℕ
  RmtRec : ℕ
  RmtCnt : UInt8
  deriving DecidableEq, Repr

/-- Identification code of the remote control. -/
def REMOTE_ID : ℕ := 0

/-- The decoder after the start. -/
def initial : Remote := ⟨0, 0, 0, 0⟩

/-- The status byte after an overflow. -/
def countOverflow (RmtSta : UInt8) : UInt8 :=
  if RmtSta &&& 0x80 ≠ 0 then
    let RmtSta := RmtSta &&& ~~~0x10
    let RmtSta := if RmtSta &&& 0x0F = 0 then RmtSta ||| 0x40 else RmtSta
    if RmtSta &&& 0x0F < 14 then RmtSta + 1
    else
      let RmtSta := RmtSta &&& ~~~0x80
      RmtSta &&& 0xF0
  else RmtSta

/-- An overflow of a timer. -/
def HAL_TIM_PeriodElapsedCallback (Instance : Timer) (r : Remote) : Remote :=
  if Instance = .TIM4 then { r with RmtSta := countOverflow r.RmtSta } else r

/-- The width of a high level that has ended. -/
def takePulse (r : Remote) : Remote :=
  if r.RmtSta &&& 0x80 ≠ 0 then
    if r.Dval > 300 ∧ r.Dval < 800 then { r with RmtRec := push 32 r.RmtRec 0 }
    else if r.Dval > 1400 ∧ r.Dval < 1800 then { r with RmtRec := push 32 r.RmtRec 1 }
    else if r.Dval > 2200 ∧ r.Dval < 2600 then
      { r with RmtCnt := r.RmtCnt + 1, RmtSta := r.RmtSta &&& 0xF0 }
    else r
  else if r.Dval > 4200 ∧ r.Dval < 4700 then
    { r with RmtSta := r.RmtSta ||| 0x80, RmtCnt := 0 }
  else r

/-- A captured edge: the level of the input pin and the captured counter. -/
def HAL_TIM_IC_CaptureCallback (Instance : Timer) (RDATA : Bool) (captured : ℕ)
    (r : Remote) : Remote :=
  if Instance = .TIM4 then
    if RDATA then { r with RmtSta := r.RmtSta ||| 0x10 }
    else
      let r := { r with Dval := captured }
      let r := if r.RmtSta &&& 0x10 ≠ 0 then takePulse r else r
      { r with RmtSta := r.RmtSta &&& ~~~0x10 }
  else r

/-- The key in a received word, or zero. -/
def keyOf (RmtRec : ℕ) : ℕ :=
  let t1 := uint8_t (RmtRec / 2 ^ 24)
  let t2 := uint8_t (RmtRec / 2 ^ 16)
  if t1 = 255 - t2 ∧ t1 = REMOTE_ID then
    let t1 := uint8_t (RmtRec / 2 ^ 8)
    let t2 := uint8_t RmtRec
    if t1 = 255 - t2 then t1 else 0
  else 0

/-- A poll of the decoder. -/
def Remote_Scan (r : Remote) : ℕ × Remote :=
  if r.RmtSta &&& 0x40 ≠ 0 then
    let sta := keyOf r.RmtRec
    if sta = 0 ∨ r.RmtSta &&& 0x80 = 0 then
      (sta, { r with RmtSta := r.RmtSta &&& ~~~0x40, RmtCnt := 0 })
    else (sta, r)
  else (0, r)

/-! ### The bits of the status byte -/

/-- The status byte by its bits. -/
@[ext]
structure Status where
  /-- Bit 7: a leader has been received. -/
  leader : Bool
  /-- Bit 6: the data of a key are complete. -/
  ready : Bool
  /-- Bit 4: a rising edge has been captured. -/
  rising : Bool
  /-- Bits 3 to 0: overflows of the timer. -/
  overflows : ℕ
  deriving DecidableEq, Repr

/-- The bits of a status byte. -/
def bits (b : UInt8) : Status :=
  ⟨b &&& 0x80 ≠ 0, b &&& 0x40 ≠ 0, b &&& 0x10 ≠ 0, (b &&& 0x0F).toNat⟩

/-- The status of the decoder. -/
def Remote.status (r : Remote) : Status := bits r.RmtSta

/-- The status after an overflow. -/
def Status.elapse (s : Status) : Status :=
  if s.leader then
    { leader := s.overflows < 14, ready := s.ready || s.overflows = 0, rising := false,
      overflows := if s.overflows < 14 then s.overflows + 1 else 0 }
  else s

/-- The bit of a high level of some width. -/
def bitOf (width : ℕ) : Option ℕ :=
  if 300 < width ∧ width < 800 then some 0
  else if 1400 < width ∧ width < 1800 then some 1
  else none

/-- The width of the high level of a leader. -/
def LeaderWidth (width : ℕ) : Prop := 4200 < width ∧ width < 4700

/-- The width of the high level of a repeat pulse. -/
def RepeatWidth (width : ℕ) : Prop := 2200 < width ∧ width < 2600

instance (width : ℕ) : Decidable (LeaderWidth width) := inferInstanceAs (Decidable (_ ∧ _))

instance (width : ℕ) : Decidable (RepeatWidth width) := inferInstanceAs (Decidable (_ ∧ _))

/-- The status after the end of a high level. -/
def Status.endPulse (s : Status) (width : ℕ) : Status :=
  { s with
    leader := s.leader || (s.rising ∧ LeaderWidth width)
    rising := false
    overflows := if s.rising ∧ s.leader ∧ RepeatWidth width then 0 else s.overflows }

/-- The shift register after the end of a high level. -/
def Status.shift (s : Status) (width RmtRec : ℕ) : ℕ :=
  if s.rising ∧ s.leader then (bitOf width).elim RmtRec (push 32 RmtRec) else RmtRec

/-- The status after a poll that finds this key in the register. -/
def Status.poll (s : Status) (key : ℕ) : Status :=
  { s with ready := s.ready && s.leader && key ≠ 0 }

/-- A property of all bytes is checked on the numbers below 256. -/
theorem forall_byte {P : UInt8 → Prop} (h : ∀ n < 256, P (UInt8.ofNat n)) (b : UInt8) : P b := by
  have hb := h b.toNat b.toNat_lt
  rwa [UInt8.ofNat_toNat] at hb

theorem bits_countOverflow (b : UInt8) : bits (countOverflow b) = (bits b).elapse := by
  revert b
  exact forall_byte (by decide +kernel)

theorem bits_rise (b : UInt8) : bits (b ||| 0x10) = { bits b with rising := true } := by
  revert b
  exact forall_byte (by decide +kernel)

theorem bits_fall (b : UInt8) : bits (b &&& ~~~0x10) = { bits b with rising := false } := by
  revert b
  exact forall_byte (by decide +kernel)

theorem bits_leader (b : UInt8) : bits (b ||| 0x80) = { bits b with leader := true } := by
  revert b
  exact forall_byte (by decide +kernel)

theorem bits_restart (b : UInt8) : bits (b &&& 0xF0) = { bits b with overflows := 0 } := by
  revert b
  exact forall_byte (by decide +kernel)

theorem bits_taken (b : UInt8) : bits (b &&& ~~~0x40) = { bits b with ready := false } := by
  revert b
  exact forall_byte (by decide +kernel)

/-! ### One callback on the named bits -/

theorem elapse_status (r : Remote) :
    (HAL_TIM_PeriodElapsedCallback .TIM4 r).status = r.status.elapse :=
  bits_countOverflow r.RmtSta

theorem rise_status (captured : ℕ) (r : Remote) :
    (HAL_TIM_IC_CaptureCallback .TIM4 true captured r).status = { r.status with rising := true } :=
  bits_rise r.RmtSta

/-- After a leader a pulse is a bit, a repetition or nothing. -/
theorem takePulse_of_leader {r : Remote} (h : r.status.leader = true) :
    takePulse r = match bitOf r.Dval with
      | some bit => { r with RmtRec := push 32 r.RmtRec bit }
      | none => if RepeatWidth r.Dval then
          { r with RmtCnt := r.RmtCnt + 1, RmtSta := r.RmtSta &&& 0xF0 } else r := by
  have hbit : r.RmtSta &&& 0x80 ≠ 0 := of_decide_eq_true h
  unfold takePulse bitOf RepeatWidth
  rw [if_pos hbit]
  by_cases hzero : 300 < r.Dval ∧ r.Dval < 800
  · rw [if_pos hzero, if_pos hzero]
  · rw [if_neg hzero, if_neg hzero]
    by_cases hone : 1400 < r.Dval ∧ r.Dval < 1800
    · rw [if_pos hone, if_pos hone]
    · rw [if_neg hone, if_neg hone]
      rfl

/-- Before a leader a pulse is the leader or nothing. -/
theorem takePulse_of_not_leader {r : Remote} (h : r.status.leader = false) :
    takePulse r = if LeaderWidth r.Dval then
      { r with RmtSta := r.RmtSta ||| 0x80, RmtCnt := 0 } else r := by
  have hbit : ¬r.RmtSta &&& 0x80 ≠ 0 := of_decide_eq_false h
  unfold takePulse LeaderWidth
  rw [if_neg hbit]
  rfl

/-- A repetition and a leader are too wide for a bit. -/
theorem bitOf_of_wide {width : ℕ} (h : 1800 ≤ width) : bitOf width = none := by
  unfold bitOf
  rw [if_neg (by omega), if_neg (by omega)]

theorem RepeatWidth.wide {width : ℕ} (h : RepeatWidth width) : 1800 ≤ width :=
  le_trans (by decide) h.1

theorem LeaderWidth.wide {width : ℕ} (h : LeaderWidth width) : 1800 ≤ width :=
  le_trans (by decide) h.1

theorem takePulse_status (r : Remote) :
    (takePulse r).status =
      { r.status with
        leader := r.status.leader || LeaderWidth r.Dval
        overflows := if r.status.leader ∧ RepeatWidth r.Dval then 0 else r.status.overflows } := by
  cases hleader : r.status.leader with
  | true =>
    rw [takePulse_of_leader hleader]
    by_cases hwidth : RepeatWidth r.Dval
    · rw [bitOf_of_wide hwidth.wide]
      dsimp only
      rw [if_pos hwidth]
      refine (bits_restart r.RmtSta).trans ?_
      rw [Remote.status] at hleader ⊢
      simp [hwidth, hleader]
    · have hsame : (takePulse r).status = r.status := by
        rw [takePulse_of_leader hleader, if_neg hwidth]
        cases bitOf r.Dval <;> rfl
      rw [← takePulse_of_leader hleader, hsame, if_neg fun h => hwidth h.2, Bool.true_or, ← hleader]
  | false =>
    rw [takePulse_of_not_leader hleader]
    by_cases hwidth : LeaderWidth r.Dval
    · rw [if_pos hwidth]
      refine (bits_leader r.RmtSta).trans ?_
      simp [hwidth, Remote.status]
    · rw [if_neg hwidth, if_neg fun h => Bool.false_ne_true h.1, decide_eq_false hwidth,
        Bool.false_or, ← hleader]

theorem takePulse_RmtRec (r : Remote) :
    (takePulse r).RmtRec =
      if r.status.leader then (bitOf r.Dval).elim r.RmtRec (push 32 r.RmtRec) else r.RmtRec := by
  cases hleader : r.status.leader with
  | true =>
    rw [takePulse_of_leader hleader, if_pos rfl]
    cases bitOf r.Dval with
    | some bit => rfl
    | none =>
      dsimp only [Option.elim]
      split <;> rfl
  | false =>
    rw [takePulse_of_not_leader hleader, if_neg Bool.false_ne_true]
    split <;> rfl

theorem fall_of_rising {r : Remote} (h : r.status.rising = true) (captured : ℕ) :
    HAL_TIM_IC_CaptureCallback .TIM4 false captured r =
      { takePulse { r with Dval := captured } with
        RmtSta := (takePulse { r with Dval := captured }).RmtSta &&& ~~~0x10 } := by
  have hbit : r.RmtSta &&& 0x10 ≠ 0 := of_decide_eq_true h
  unfold HAL_TIM_IC_CaptureCallback
  rw [if_pos rfl, if_neg Bool.false_ne_true]
  dsimp only
  rw [if_pos hbit]

theorem fall_of_not_rising {r : Remote} (h : r.status.rising = false) (captured : ℕ) :
    HAL_TIM_IC_CaptureCallback .TIM4 false captured r =
      { r with Dval := captured, RmtSta := r.RmtSta &&& ~~~0x10 } := by
  have hbit : ¬r.RmtSta &&& 0x10 ≠ 0 := of_decide_eq_false h
  unfold HAL_TIM_IC_CaptureCallback
  rw [if_pos rfl, if_neg Bool.false_ne_true]
  dsimp only
  rw [if_neg hbit]

theorem fall_status (captured : ℕ) (r : Remote) :
    (HAL_TIM_IC_CaptureCallback .TIM4 false captured r).status = r.status.endPulse captured := by
  unfold Status.endPulse
  cases hrising : r.status.rising with
  | true =>
    rw [fall_of_rising hrising]
    refine (bits_fall _).trans ?_
    have htaken := takePulse_status { r with Dval := captured }
    unfold Remote.status at htaken
    rw [htaken]
    simp [Remote.status]
  | false =>
    rw [fall_of_not_rising hrising]
    refine (bits_fall r.RmtSta).trans ?_
    simp [Remote.status]

theorem fall_RmtRec (captured : ℕ) (r : Remote) :
    (HAL_TIM_IC_CaptureCallback .TIM4 false captured r).RmtRec =
      r.status.shift captured r.RmtRec := by
  unfold Status.shift
  cases hrising : r.status.rising with
  | true =>
    rw [fall_of_rising hrising]
    refine (takePulse_RmtRec _).trans ?_
    simp [Remote.status]
    rfl
  | false =>
    rw [fall_of_not_rising hrising]
    simp

/-- A poll returns the key in the register when the data are complete. -/
theorem Remote_Scan_value (r : Remote) :
    (Remote_Scan r).1 = if r.status.ready then keyOf r.RmtRec else 0 := by
  unfold Remote_Scan
  cases hready : r.status.ready with
  | true =>
    rw [if_pos (of_decide_eq_true hready), if_pos rfl]
    dsimp only
    split <;> rfl
  | false =>
    rw [if_neg (of_decide_eq_false hready), if_neg Bool.false_ne_true]

theorem Remote_Scan_status (r : Remote) :
    (Remote_Scan r).2.status = r.status.poll (keyOf r.RmtRec) := by
  unfold Remote_Scan Status.poll
  cases hready : r.status.ready with
  | true =>
    rw [if_pos (of_decide_eq_true hready)]
    dsimp only
    cases hleader : r.status.leader with
    | true =>
      have hset : ¬r.RmtSta &&& 0x80 = 0 := of_decide_eq_true hleader
      by_cases hkey : keyOf r.RmtRec = 0
      · rw [if_pos (Or.inl hkey)]
        refine (bits_taken r.RmtSta).trans ?_
        simpa [hkey, Remote.status] using hleader
      · rw [if_neg (not_or_intro hkey hset)]
        simp [hkey, Status.ext_iff, hleader, hready]
    | false =>
      have hclear : r.RmtSta &&& 0x80 = 0 := not_not.mp (of_decide_eq_false hleader)
      rw [if_pos (Or.inr hclear)]
      refine (bits_taken r.RmtSta).trans ?_
      simpa [Remote.status] using hleader
  | false =>
    rw [if_neg (of_decide_eq_false hready), Bool.false_and, Bool.false_and, ← hready]

theorem Remote_Scan_RmtRec (r : Remote) : (Remote_Scan r).2.RmtRec = r.RmtRec := by
  unfold Remote_Scan
  dsimp only
  split
  · split <;> rfl
  · rfl

end SmartHome.IrDecoder
