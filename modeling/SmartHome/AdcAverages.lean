import Mathlib.Data.Finset.Lattice.Fold
import Mathlib.Order.Lattice.Nat
import SmartHome.MachineWords
import SmartHome.RunningSums

/-!
# Averages of converter values

Both functions add up as many values as they are asked for in a 16-bit object
and scale the integer quotient to volts. The values are those of successive
conversions; volts are exact numbers here.
-/

namespace SmartHome.AdcAverages

open RunningSums

/-- Mean voltage of a channel. -/
def get_aver_val (time : ℕ) (adc_get_val : ℕ → ℕ) : ℚ :=
  let temp := accumulate 65536 adc_get_val time
  (temp / time : ℕ) * (3.3 / 4096)

/-- At night the light sensor is above 2.5 volts. -/
def get_LS1_Status (time : ℕ) (adc_get_val : ℕ → ℕ) : Bool :=
  let temp := accumulate 65536 adc_get_val time
  let adc_value : ℚ := (temp / time : ℕ) * (3.3 / 4096)
  if adc_value > 2.5 then true else false

variable {time : ℕ} {adc_get_val : ℕ → ℕ}

/-- The sum of up to sixteen 12-bit values never wraps on the way. -/
theorem accumulate_eq (htime : time ≤ 16) (hvalues : ∀ i < time, adc_get_val i < 4096) {k : ℕ}
    (hk : k ≤ time) :
    accumulate 65536 adc_get_val k = ∑ i ∈ Finset.range k, adc_get_val i :=
  accumulate_of_le (b := 4095) (fun i hi => Nat.le_of_lt_succ (hvalues i hi)) (by omega) hk

/-- Quotient of the sum by the number of values, written without the register. -/
def quotient (time : ℕ) (adc_get_val : ℕ → ℕ) : ℕ :=
  (∑ i ∈ Finset.range time, adc_get_val i) / time

theorem quotient_between (hpos : 1 ≤ time) (h : (Finset.range time).Nonempty) :
    (Finset.range time).inf' h adc_get_val ≤ quotient time adc_get_val ∧
      quotient time adc_get_val ≤ (Finset.range time).sup' h adc_get_val := by
  constructor
  · exact le_mean hpos fun i hi => Finset.inf'_le adc_get_val (Finset.mem_range.mpr hi)
  · exact mean_le fun i hi => Finset.le_sup' adc_get_val (Finset.mem_range.mpr hi)

/-- The quotient is the floor of the mean, between the least and the greatest
value, and both functions scale it. -/
theorem averages_exact (hpos : 1 ≤ time) (htime : time ≤ 16)
    (hvalues : ∀ i < time, adc_get_val i < 4096) :
    (∀ k ≤ time, accumulate 65536 adc_get_val k = ∑ i ∈ Finset.range k, adc_get_val i) ∧
    quotient time adc_get_val = ⌊(∑ i ∈ Finset.range time, (adc_get_val i : ℚ)) / time⌋₊ ∧
    (∀ h : (Finset.range time).Nonempty,
      (Finset.range time).inf' h adc_get_val ≤ quotient time adc_get_val ∧
        quotient time adc_get_val ≤ (Finset.range time).sup' h adc_get_val) ∧
    get_aver_val time adc_get_val = quotient time adc_get_val * (3.3 / 4096) ∧
    get_LS1_Status time adc_get_val =
      decide ((quotient time adc_get_val : ℚ) * (3.3 / 4096) > 2.5) := by
  have hsum := accumulate_eq htime hvalues le_rfl
  refine ⟨fun k hk => accumulate_eq htime hvalues hk, (floor_mean adc_get_val time).symm,
    quotient_between hpos, ?_, ?_⟩
  · rw [get_aver_val, hsum, quotient]
  · rw [get_LS1_Status, hsum, ← quotient]
    by_cases hdark : (quotient time adc_get_val : ℚ) * (3.3 / 4096) > 2.5
    · rw [if_pos hdark, decide_eq_true hdark]
    · rw [if_neg hdark, decide_eq_false hdark]

/-- Sixteen values at full scale just fit. -/
theorem averages_exact_full_scale : accumulate 65536 (fun _ => 4095) 16 = 65520 ∧
    get_aver_val 16 (fun _ => 4095) = (4095 : ℕ) * (3.3 / 4096) := by
  have hexact := averages_exact (Nat.one_le_ofNat : 1 ≤ 16) le_rfl
    fun i _ => (Nat.lt_succ_self 4095 : (fun _ => 4095) i < 4096)
  have hsum : ∑ i ∈ Finset.range 16, (fun _ => 4095) i = 65520 :=
    Finset.sum_const_nat fun _ _ => rfl
  have hmean : quotient 16 (fun _ => 4095) = 4095 := by
    rw [quotient, hsum]
  constructor
  · rw [hexact.1 16 le_rfl, hsum]
  · rw [hexact.2.2.2.1, hmean]

end SmartHome.AdcAverages
