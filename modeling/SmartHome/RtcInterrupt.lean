import Mathlib.Logic.Function.Basic
import SmartHome.TransitionRuns

/-!
# The interrupt of the clock

The second and the alarm interrupt are enabled and share one handler. It is
executed one access to the flag register at a time, and flags are raised
between any two of these. What it shows on the display is left out. A call
also records the flags it has found at its entry and not cleared since, and
the alarms that no message has followed.
-/

namespace SmartHome.RtcInterrupt

open TransitionRuns

/-- Flags of the register CRL. -/
inductive Flag where
  | SEC
  | ALRAF
  | OW
  deriving DecidableEq, Repr

/-- What the handler does next. -/
inductive Pc where
  | idle
  | testSecond
  | clearSecond
  | testAlarm
  | clearAlarm
  | message
  | clearOverflow
  deriving DecidableEq, Repr

structure Rtc where
  CRL : Flag → Bool
  pc : Pc
  /-- Flags found at the entry of the last call and not cleared in it. -/
  found : Flag → Bool
  /-- An alarm has come after the last message. -/
  alarm : Bool
  /-- An alarm before the entry of the last call has no message yet. -/
  owed : Bool

inductive Event where
  /-- The clock sets a flag. -/
  | raise (flag : Flag)
  /-- The interrupt is taken. -/
  | enter
  /-- RTC_IRQHandler does what comes next. -/
  | advance
  deriving DecidableEq, Repr

/-- The clock sets a flag. -/
def Rtc.raise (s : Rtc) (flag : Flag) : Rtc :=
  { s with CRL := Function.update s.CRL flag true, alarm := s.alarm || flag = .ALRAF }

/-- The write of ~flag to the register. -/
def Rtc.CLEAR_FLAG (s : Rtc) (flag : Flag) : Rtc :=
  { s with CRL := Function.update s.CRL flag false, found := Function.update s.found flag false }

/-- One access of the handler; the test before the alarm is one of the second flag. -/
def RTC_IRQHandler (s : Rtc) : Option Rtc :=
  match s.pc with
  | .idle => none
  | .testSecond => some { s with pc := if s.CRL .SEC then .clearSecond else .testAlarm }
  | .clearSecond => some { s.CLEAR_FLAG .SEC with pc := .testAlarm }
  | .testAlarm => some { s with pc := if s.CRL .SEC then .clearAlarm else .clearOverflow }
  | .clearAlarm => some { s.CLEAR_FLAG .ALRAF with pc := .message }
  | .message => some { s with pc := .clearOverflow, alarm := false, owed := false }
  | .clearOverflow => some { s.CLEAR_FLAG .OW with pc := .idle }

/-- A call is entered for a second or an alarm flag. -/
def step (s : Rtc) : Event → Option Rtc
  | .raise flag => some (s.raise flag)
  | .enter =>
    if s.pc = .idle ∧ (s.CRL .SEC ∨ s.CRL .ALRAF) then
      some { s with pc := .testSecond, found := s.CRL, owed := s.alarm }
    else none
  | .advance => RTC_IRQHandler s

/-- Interrupts are enabled over any flags. -/
def start (CRL : Flag → Bool) : Rtc := ⟨CRL, .idle, fun _ => false, CRL .ALRAF, false⟩

/-- After a return neither of the flags found at its entry is still set, and
every alarm from before it has its message. -/
def Served (s : Rtc) : Prop :=
  s.pc = .idle → s.found .SEC = false ∧ s.found .ALRAF = false ∧ s.owed = false

instance (s : Rtc) : Decidable (Served s) := inferInstanceAs (Decidable (_ → _))

/-- In a call that has found the alarm flag a second flag is set again before
the second test. -/
def SecondAgain (s : Rtc) (e : Event) : Prop :=
  e = .advance → s.pc = .testAlarm → s.found .ALRAF = true → s.CRL .SEC = true

instance (s : Rtc) (e : Event) : Decidable (SecondAgain s e) :=
  inferInstanceAs (Decidable (_ → _ → _ → _))

/-- What holds at every place of the handler as long as calls are served. -/
def Tracked (s : Rtc) : Prop :=
  match s.pc with
  | .testSecond => (s.found .SEC = true → s.CRL .SEC = true) ∧
      (s.owed = true → s.found .ALRAF = true) ∧ (s.alarm = true → s.CRL .ALRAF = true)
  | .clearSecond =>
      (s.owed = true → s.found .ALRAF = true) ∧ (s.alarm = true → s.CRL .ALRAF = true)
  | .testAlarm => s.found .SEC = false ∧
      (s.owed = true → s.found .ALRAF = true) ∧ (s.alarm = true → s.CRL .ALRAF = true)
  | .clearAlarm => s.found .SEC = false
  | .message => s.found .SEC = false ∧ s.found .ALRAF = false
  | .clearOverflow | .idle => s.found .SEC = false ∧ s.found .ALRAF = false ∧ s.owed = false ∧
      (s.alarm = true → s.CRL .ALRAF = true)

theorem Tracked.served {s : Rtc} (h : Tracked s) : Served s := by
  intro hidle
  rw [Tracked, hidle] at h
  exact ⟨h.1, h.2.1, h.2.2.1⟩

/-- Flags of the clock only add to what is set. -/
theorem tracked_raise {s : Rtc} (h : Tracked s) (flag : Flag) : Tracked (s.raise flag) := by
  have halarm : (s.alarm = true → s.CRL .ALRAF = true) →
      (s.alarm || flag = .ALRAF) = true → Function.update s.CRL flag true .ALRAF = true := by
    intro hset hraised
    cases flag <;> simp_all
  have hsecond : (s.found .SEC = true → s.CRL .SEC = true) →
      s.found .SEC = true → Function.update s.CRL flag true .SEC = true := by
    intro hset hfound
    cases flag <;> simp_all
  rw [Tracked] at h ⊢
  cases hpc : s.pc <;> simp only [Rtc.raise, hpc] at h ⊢
  case testSecond => exact ⟨hsecond h.1, h.2.1, halarm h.2.2⟩
  case clearSecond => exact ⟨h.1, halarm h.2⟩
  case testAlarm => exact ⟨h.1, h.2.1, halarm h.2.2⟩
  case clearAlarm => exact h
  case message => exact h
  case clearOverflow => exact ⟨h.1, h.2.1, h.2.2.1, halarm h.2.2.2⟩
  case idle => exact ⟨h.1, h.2.1, h.2.2.1, halarm h.2.2.2⟩

/-- A call starts with the flags and the alarms there are. -/
theorem tracked_enter {s t : Rtc} (h : Tracked s) (ht : step s .enter = some t) : Tracked t := by
  rw [step] at ht
  split at ht
  case isTrue hentry =>
    rw [Tracked, hentry.1] at h
    rw [← Option.some.inj ht]
    exact ⟨id, h.2.2.2, h.2.2.2⟩
  case isFalse => exact absurd ht (Option.some_ne_none t).symm

/-- The handler serves what it has found if the second test sees a flag then. -/
theorem tracked_advance {s t : Rtc} (h : Tracked s) (hagain : SecondAgain s .advance)
    (ht : step s .advance = some t) : Tracked t := by
  rw [Tracked] at h
  have hagain := hagain rfl
  cases hpc : s.pc <;> simp only [step, RTC_IRQHandler, hpc, Option.some.injEq] at h ht hagain
  case testSecond =>
    rw [← ht]
    cases hsec : s.CRL .SEC with
    | true => exact h.2
    | false =>
      refine ⟨Bool.eq_false_iff.mpr fun hfound => ?_, h.2⟩
      exact absurd (h.1 hfound) (Bool.eq_false_iff.mp hsec)
  case clearSecond =>
    rw [← ht]
    exact ⟨rfl, h⟩
  case testAlarm =>
    rw [← ht]
    cases hsec : s.CRL .SEC with
    | true => exact h.1
    | false =>
      have hfound : s.found .ALRAF = false := by
        refine Bool.eq_false_iff.mpr fun hfound => ?_
        exact absurd (hagain trivial hfound) (Bool.eq_false_iff.mp hsec)
      have howed : s.owed = false :=
        Bool.eq_false_iff.mpr fun howed => absurd (h.2.1 howed) (Bool.eq_false_iff.mp hfound)
      exact ⟨h.1, hfound, howed, h.2.2⟩
  case clearAlarm =>
    rw [← ht]
    exact ⟨h, rfl⟩
  case message =>
    rw [← ht]
    exact ⟨h.1, h.2, rfl, fun halarm => absurd halarm Bool.false_ne_true⟩
  case clearOverflow =>
    rw [← ht]
    exact h
  case idle => exact absurd ht (Option.some_ne_none t).symm

theorem tracked_step (s : Rtc) (e : Event) (t : Rtc) (h : Tracked s) (hagain : SecondAgain s e)
    (ht : step s e = some t) : Tracked t := by
  cases e with
  | raise flag =>
    rw [← Option.some.inj ht]
    exact tracked_raise h flag
  | enter => exact tracked_enter h ht
  | advance => exact tracked_advance h hagain ht

/-! ### Without a new second -/

/-- A call that has skipped the alarm it has found. -/
def Skipped (s : Rtc) : Prop := s.pc = .clearOverflow ∧ s.found .ALRAF = true

theorem skipped_of_not_secondAgain {s t : Rtc} {e : Event} (h : ¬ SecondAgain s e)
    (ht : step s e = some t) : Skipped t := by
  simp only [SecondAgain, Classical.not_imp] at h
  obtain ⟨rfl, hpc, hfound, hsec⟩ := h
  simp only [step, RTC_IRQHandler, hpc, if_neg hsec, Option.some.injEq] at ht
  rw [← ht]
  exact ⟨rfl, hfound⟩

/-- The handler returns from there, with the flag still found. -/
theorem skipped_step {s t : Rtc} {e : Event} (h : Skipped s) (ht : step s e = some t) :
    Skipped t ∨ t.pc = .idle ∧ ¬ Served t := by
  obtain ⟨hpc, hfound⟩ := h
  cases e with
  | raise flag =>
    rw [← Option.some.inj ht]
    exact Or.inl ⟨hpc, hfound⟩
  | enter =>
    have hbusy : s.pc ≠ .idle := by
      rw [hpc]
      decide
    rw [step, if_neg fun hentry => hbusy hentry.1] at ht
    exact absurd ht (Option.some_ne_none t).symm
  | advance =>
    simp only [step, RTC_IRQHandler, hpc, Option.some.injEq] at ht
    rw [← ht]
    refine Or.inr ⟨rfl, fun hserved => ?_⟩
    exact absurd ((hserved rfl).2.1.symm.trans hfound) Bool.false_ne_true

/-- A run that goes on from there to a return does not always serve. -/
theorem not_always_of_skipped {s t : Rtc} {es : List Event} (h : Skipped s)
    (hr : run step s es = some t) (hidle : t.pc = .idle) : ¬ Always Served step s es := by
  induction es generalizing s with
  | nil =>
    rw [← Option.some.inj hr, h.1] at hidle
    exact absurd hidle (by decide)
  | cons e es ih =>
    obtain ⟨u, hu, hr⟩ := run_cons.mp hr
    intro hall
    have hrest := hall.2 u hu
    cases skipped_step h hu with
    | inl hskipped => exact ih hskipped hr hrest
    | inr hreturned => exact hreturned.2 hrest.head

theorem secondAgain_of_served {s t : Rtc} {es : List Event} (hs : Tracked s)
    (hr : run step s es = some t) (hidle : t.pc = .idle) (hall : Always Served step s es) :
    Guarded SecondAgain step s es := by
  induction es generalizing s with
  | nil => trivial
  | cons e es ih =>
    intro u hu
    obtain ⟨u', hu', hr⟩ := run_cons.mp hr
    rw [Option.some.inj (hu'.symm.trans hu)] at hr
    have hrest := hall.2 u hu
    by_cases hagain : SecondAgain s e
    · exact ⟨hagain, ih (tracked_step s e u hs hagain hu) hr hrest⟩
    · exact absurd hrest (not_always_of_skipped (skipped_of_not_secondAgain hagain hu) hr hidle)

/-- In whatever order flags come, every return has served what its call found
as long as each call with an alarm meets a new second before its second test;
a run that ends between two calls and has a call without one has not served it. -/
theorem served_of_secondAgain (CRL : Flag → Bool) (es : List Event) :
    (Guarded SecondAgain step (start CRL) es → Always Served step (start CRL) es) ∧
    ∀ t, run step (start CRL) es = some t → t.pc = .idle →
      Always Served step (start CRL) es → Guarded SecondAgain step (start CRL) es := by
  have hstart : Tracked (start CRL) := ⟨rfl, rfl, rfl, id⟩
  constructor
  · intro h
    exact always_of_guarded (fun _ => Tracked.served) tracked_step h hstart
  · intro t hr hidle
    exact secondAgain_of_served hstart hr hidle

/-- An alarm that comes with a second is left set by the call that clears the second. -/
theorem not_served_alarm_with_second :
    ¬ ∀ CRL es, Always Served step (start CRL) es := by
  intro h
  have hall := h (fun _ => false) [.raise .SEC, .raise .ALRAF, .enter, .advance, .advance,
    .advance, .advance]
  have hreturn := hall.of_run rfl
  exact absurd (hreturn rfl).2.1 (by decide)

/-! ### The alarm storm -/

/-- One call of the handler in which no flag is raised. -/
def quietCall : List Event := [.enter, .advance, .advance, .advance]

/-- An alarm flag between two calls, with no second flag set. -/
def Storm (s : Rtc) : Prop := s.pc = .idle ∧ s.CRL .SEC = false ∧ s.CRL .ALRAF = true

theorem storm_quietCall {s : Rtc} (h : Storm s) : ∃ t, run step s quietCall = some t ∧ Storm t := by
  obtain ⟨hpc, hsec, halarm⟩ := h
  simp [quietCall, run, step, RTC_IRQHandler, hpc, hsec, halarm, Storm, Rtc.CLEAR_FLAG]

/-- Until the next second the handler is entered again and again. -/
theorem storm_forever {s : Rtc} (h : Storm s) (n : ℕ) :
    ∃ t, run step s (List.replicate n quietCall).flatten = some t ∧ Storm t := by
  induction n generalizing s with
  | zero => exact ⟨s, rfl, h⟩
  | succ n ih =>
    obtain ⟨t, ht, hstorm⟩ := storm_quietCall h
    obtain ⟨u, hu, hlast⟩ := ih hstorm
    refine ⟨u, ?_, hlast⟩
    rw [List.replicate_succ, List.flatten_cons, run_append]
    exact ⟨t, ht, hu⟩

end SmartHome.RtcInterrupt
