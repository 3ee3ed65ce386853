import Mathlib.Algebra.BigOperators.Ring.Finset
import Mathlib.Algebra.Group.Action.Defs
import Mathlib.Algebra.Order.BigOperators.Group.Finset
import Mathlib.Algebra.Order.Floor.Semifield
import Mathlib.Data.Rat.Floor

/-!
# Sums in a register and integer means

A register of limited range adds up a sequence. As long as the sum itself is
in the range no step of it wraps, and the integer quotient by the number of
terms is the floor of their mean, between any bounds of the terms.
-/

namespace SmartHome.RunningSums

open Finset

/-- Register after k additions modulo its range. -/
def accumulate (range : ℕ) (x : ℕ → ℕ) : ℕ → ℕ
  | 0 => 0
  | k + 1 => (accumulate range x k + x k) % range

variable {x : ℕ → ℕ} {k b n : ℕ}

/-- A sum in the range of the register is reached without wrapping. -/
theorem accumulate_eq_sum (h : ∑ i ∈ range k, x i < n) : accumulate n x k = ∑ i ∈ range k, x i := by
  induction k with
  | zero => rfl
  | succ k ih =>
    have hlast := sum_range_succ x k
    have hbefore : ∑ i ∈ range k, x i < n := by omega
    rw [accumulate, ih hbefore, ← hlast, Nat.mod_eq_of_lt h]

/-- Bounded terms have a bounded sum. -/
theorem sum_le (h : ∀ i < k, x i ≤ b) : ∑ i ∈ range k, x i ≤ k * b := by
  have hsum := sum_le_card_nsmul (range k) x b fun i hi => h i (mem_range.mp hi)
  rwa [card_range, smul_eq_mul] at hsum

/-- Terms not below a bound have a sum not below its multiple. -/
theorem le_sum (h : ∀ i < k, b ≤ x i) : k * b ≤ ∑ i ∈ range k, x i := by
  have hsum := card_nsmul_le_sum (range k) x b fun i hi => h i (mem_range.mp hi)
  rwa [card_range, smul_eq_mul] at hsum

/-- No prefix of a short sequence of bounded terms wraps. -/
theorem accumulate_of_le (h : ∀ i < n, x i ≤ b) {m : ℕ} (hm : n * b < m) (hk : k ≤ n) :
    accumulate m x k = ∑ i ∈ range k, x i := by
  have hsum := sum_le fun i hi => h i (Nat.lt_of_lt_of_le hi hk)
  have hmul : k * b ≤ n * b := Nat.mul_le_mul_right b hk
  exact accumulate_eq_sum (by omega)

theorem mean_le (h : ∀ i < k, x i ≤ b) : (∑ i ∈ range k, x i) / k ≤ b :=
  Nat.div_le_of_le_mul (sum_le h)

theorem le_mean (hk : 0 < k) (h : ∀ i < k, b ≤ x i) : b ≤ (∑ i ∈ range k, x i) / k :=
  (Nat.le_div_iff_mul_le hk).mpr ((Nat.mul_comm b k).trans_le (le_sum h))

/-- The integer quotient is the floor of the mean. -/
theorem floor_mean (x : ℕ → ℕ) (k : ℕ) :
    ⌊(∑ i ∈ range k, (x i : ℚ)) / k⌋₊ = (∑ i ∈ range k, x i) / k := by
  rw [← Nat.cast_sum, Nat.floor_div_eq_div]

end SmartHome.RunningSums
