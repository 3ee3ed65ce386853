import Mathlib.Algebra.Order.Field.Basic
import Mathlib.Algebra.Order.Ring.Abs
import Mathlib.Data.Rat.Lemmas
import Mathlib.Tactic.Linarith
import Mathlib.Tactic.Ring

/-!
# Steps of an error accumulator

A position is to advance by delta while a counter runs over a distance that is
not shorter. At every update delta is added to an error, and when the error
exceeds the distance, the distance is taken off it and the position makes a
step. The number of steps has a closed form; it begins at 0, ends at delta one
update after the distance, and stays close to the proportional number.
-/

namespace SmartHome.ErrorSteps

/-- Steps made in n updates. -/
def steps (distance delta n : ℕ) : ℕ := (n * delta - 1) / distance

variable {distance delta n : ℕ}

theorem steps_zero (distance delta : ℕ) : steps distance delta 0 = 0 := by
  rw [steps, Nat.zero_mul, Nat.zero_sub, Nat.zero_div]

/-- The steps made are covered by the updates. -/
theorem distance_mul_steps_le (distance delta n : ℕ) :
    distance * steps distance delta n ≤ n * delta :=
  (Nat.mul_div_le _ _).trans (Nat.sub_le _ _)

/-- A step is made exactly when the error exceeds the distance. -/
theorem steps_succ (h : delta ≤ distance) (n : ℕ) : steps distance delta (n + 1) =
    if distance < n * delta - distance * steps distance delta n + delta then
      steps distance delta n + 1
    else steps distance delta n := by
  have hsucc : (n + 1) * delta = n * delta + delta := Nat.succ_mul n delta
  by_cases hzero : n * delta = 0
  · -- no error is left to add to
    have hfirst : (delta - 1) / distance = 0 := by
      by_cases hdist : distance = 0
      · rw [hdist, Nat.div_zero]
      · exact Nat.div_eq_of_lt (by omega)
    rw [if_neg (by omega), steps, steps, hsucc, hzero, Nat.zero_add, hfirst, Nat.zero_sub,
      Nat.zero_div]
  · have hdist : 0 < distance := by
      by_contra hnone
      rw [show delta = 0 by omega] at hzero
      exact hzero (Nat.mul_zero n)
    have hdivision := Nat.div_add_mod' (n * delta - 1) distance
    have hrest := Nat.mod_lt (n * delta - 1) hdist
    rw [steps, steps, hsucc, Nat.mul_comm distance]
    generalize (n * delta - 1) / distance = s at hdivision
    generalize (n * delta - 1) % distance = r at hdivision hrest
    have hone : (s + 1) * distance = s * distance + distance := Nat.succ_mul s distance
    have htwo : (s + 1 + 1) * distance = (s + 1) * distance + distance := Nat.succ_mul (s + 1) _
    split
    · exact Nat.div_eq_of_lt_le (by omega) (by omega)
    · exact Nat.div_eq_of_lt_le (by omega) (by omega)

/-- One update makes at most one step. -/
theorem steps_succ_le (h : delta ≤ distance) (n : ℕ) :
    steps distance delta n ≤ steps distance delta (n + 1) ∧
      steps distance delta (n + 1) ≤ steps distance delta n + 1 := by
  rw [steps_succ h]
  split
  · exact ⟨Nat.le_succ _, le_rfl⟩
  · exact ⟨le_rfl, Nat.le_succ _⟩

theorem steps_mono (distance delta : ℕ) : Monotone (steps distance delta) := by
  intro m n hmn
  have hmul : m * delta ≤ n * delta := Nat.mul_le_mul_right delta hmn
  exact Nat.div_le_div_right (by omega)

/-- One update after the distance all steps are made. -/
theorem steps_last (h : delta ≤ distance) : steps distance delta (distance + 1) = delta := by
  by_cases hzero : delta = 0
  · rw [hzero, steps, Nat.mul_zero, Nat.zero_sub, Nat.zero_div]
  · rw [steps, Nat.succ_mul, Nat.add_sub_assoc (by omega), Nat.mul_add_div (by omega),
      Nat.div_eq_of_lt (by omega), Nat.add_zero]

/-- A position that keeps up with the counter makes a step at every update but the first. -/
theorem steps_distance (hn : n ≤ distance) : steps distance distance (n + 1) = n := by
  by_cases hzero : distance = 0
  · rw [steps, hzero, Nat.div_zero]
    omega
  · rw [steps, Nat.succ_mul, Nat.add_sub_assoc (by omega), Nat.mul_comm,
      Nat.mul_add_div (by omega), Nat.div_eq_of_lt (by omega), Nat.add_zero]

/-- The steps differ from the proportional number by less than one. -/
theorem steps_near (h : delta ≤ distance) (n : ℕ) :
    |(steps distance delta (n + 1) : ℚ) - n * delta / distance| < 1 := by
  by_cases hdist : distance = 0
  · rw [steps, hdist, Nat.div_zero, Nat.cast_zero, div_zero, sub_zero, abs_zero]
    exact zero_lt_one
  have hpos : (0 : ℚ) < distance := Nat.cast_pos.mpr (Nat.pos_of_ne_zero hdist)
  have hdivision := Nat.div_add_mod' ((n + 1) * delta - 1) distance
  have hrest := Nat.mod_lt ((n + 1) * delta - 1) (Nat.pos_of_ne_zero hdist)
  have hsucc : (n + 1) * delta = n * delta + delta := Nat.succ_mul n delta
  have hzero : delta = 0 → n * delta = 0 := fun h => by rw [h, Nat.mul_zero]
  rw [← steps, hsucc] at hdivision
  rw [hsucc] at hrest
  have hupper : (steps distance delta (n + 1) : ℚ) * distance < n * delta + distance := by
    exact_mod_cast (by omega : steps distance delta (n + 1) * distance < n * delta + distance)
  have hlower : (n * delta : ℚ) < steps distance delta (n + 1) * distance + distance := by
    exact_mod_cast (by omega : n * delta < steps distance delta (n + 1) * distance + distance)
  have hquotient : (n * delta : ℚ) / distance * distance = n * delta :=
    div_mul_cancel₀ _ hpos.ne'
  rw [abs_sub_lt_iff]
  constructor
  · refine lt_of_mul_lt_mul_right ?_ hpos.le
    rw [sub_mul, hquotient, one_mul]
    linarith
  · refine lt_of_mul_lt_mul_right ?_ hpos.le
    rw [sub_mul, hquotient, one_mul]
    linarith

end SmartHome.ErrorSteps
