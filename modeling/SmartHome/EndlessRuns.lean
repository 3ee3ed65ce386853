import Mathlib.Algebra.Order.Group.Nat
import Mathlib.Order.Nat
import SmartHome.TransitionRuns

/-!
# Endless runs

An endless run has a state and an event at every time. What is shown of the
states stays as it is until an event that may change it, so a part that gets
its turn acts on the state in which it was left.
-/

namespace SmartHome.EndlessRuns

open TransitionRuns

variable {S E X : Type*} {step : S → E → Option S} {s t : S}

/-- A run without an end. -/
structure Endless (step : S → E → Option S) (s : S) where
  state : ℕ → S
  event : ℕ → E
  first : state 0 = s
  next : ∀ n, step (state n) (event n) = some (state (n + 1))

/-- The property holds again after every time. -/
def Endless.Recurs (r : Endless step s) (P : S → Prop) : Prop := ∀ n, ∃ m, n ≤ m ∧ P (r.state m)

/-! ### What stays as it is -/

/-- A property that steps from some time on keep goes on holding. -/
theorem Endless.stays (r : Endless step s) {P : S → Prop} {n m : ℕ}
    (hkeep : ∀ k, n ≤ k → P (r.state k) → P (r.state (k + 1))) (h : P (r.state n)) (hnm : n ≤ m) :
    P (r.state m) := by
  induction m, hnm using Nat.le_induction with
  | base => exact h
  | succ k hk ih => exact hkeep k hk ih

section View

variable (r : Endless step s) {own : E → Prop} {view : S → X}

/-- Without an event of its own a part stays where it is. -/
theorem Endless.unchanged (hkeep : ∀ s e t, ¬own e → step s e = some t → view t = view s)
    {n m : ℕ} (hnm : n ≤ m) (hquiet : ∀ k, n ≤ k → k < m → ¬own (r.event k)) :
    view (r.state m) = view (r.state n) := by
  induction m, hnm using Nat.le_induction with
  | base => rfl
  | succ k hk ih =>
    rw [hkeep _ _ _ (hquiet k hk (Nat.lt_succ_self k)) (r.next k)]
    exact ih fun j hj hjk => hquiet j hj (Nat.lt_succ_of_lt hjk)

/-- A part that moves has had an event of its own. -/
theorem Endless.own_between (hkeep : ∀ s e t, ¬own e → step s e = some t → view t = view s)
    {n m : ℕ} (hnm : n ≤ m) (hmoved : view (r.state m) ≠ view (r.state n)) :
    ∃ k, n ≤ k ∧ own (r.event k) := by
  by_contra hno
  exact hmoved (r.unchanged hkeep hnm fun k hk _ hown => hno ⟨k, hk, hown⟩)

/-- The next event of its own finds a part where it was. -/
theorem Endless.next_own (hkeep : ∀ s e t, ¬own e → step s e = some t → view t = view s) {n : ℕ}
    (h : ∃ m, n ≤ m ∧ own (r.event m)) :
    ∃ m, n ≤ m ∧ own (r.event m) ∧ view (r.state m) = view (r.state n) := by
  classical
  obtain ⟨hle, hown⟩ := Nat.find_spec h
  refine ⟨Nat.find h, hle, hown, r.unchanged hkeep hle fun k hk hlt howns => ?_⟩
  exact Nat.find_min h hlt ⟨hk, howns⟩

end View

/-! ### Endless runs from finite ones -/

/-- An event that changes nothing can go on for ever. -/
def Endless.still {e : E} (h : step s e = some s) : Endless step s where
  state _ := s
  event _ := e
  first := rfl
  next _ := h

/-- An event before an endless run. -/
def Endless.cons {e : E} (h : step s e = some t) (r : Endless step t) : Endless step s where
  state n := n.casesOn s r.state
  event n := n.casesOn e r.event
  first := rfl
  next n := by
    cases n with
    | zero => exact h.trans (congrArg some r.first.symm)
    | succ n => exact r.next n

/-- A finite run goes on as an endless run from its last state. -/
theorem Endless.exists_of_run {es : List E} (hrun : run step s es = some t)
    (r : Endless step t) :
    ∃ r' : Endless step s, (∀ n, r'.state (n + es.length) = r.state n) ∧
      (∀ n, r'.event (n + es.length) = r.event n) ∧
      ∀ n (h : n < es.length), r'.event n = es[n] := by
  induction es generalizing s with
  | nil =>
    cases hrun
    exact ⟨r, fun _ => rfl, fun _ => rfl, fun n h => absurd h (Nat.not_lt_zero n)⟩
  | cons e es ih =>
    obtain ⟨u, hstep, hrest⟩ := run_cons.mp hrun
    obtain ⟨r', hstate, hevent, hes⟩ := ih hrest
    refine ⟨r'.cons hstep, hstate, hevent, fun n h => ?_⟩
    cases n with
    | zero => rfl
    | succ n => exact hes n (Nat.lt_of_succ_lt_succ h)

end SmartHome.EndlessRuns
