import Mathlib.Data.Finset.Lattice.Fold
import Mathlib.Order.Lattice.Nat
import SmartHome.ExchangeSort
import SmartHome.MachineWords
import SmartHome.RunningSums
import SmartHome.ShiftWindows

/-!
# Reading a touched position from the converter

The line DOUT is the sequence of the bits of every conversion, the first of
the sixteen bits being the most significant one. Functions are given the
number of the conversion they begin with.
-/

namespace SmartHome.TouchSampling

open ExchangeSort MachineWords RunningSums ShiftWindows

/-- The loop over the bits of a conversion, with the number of bits left. -/
def readNum (DOUT : ℕ → Bool) : ℕ → ℕ → ℕ → ℕ
  | 0, _, Num => Num
  | left + 1, count, Num =>
    let Num := uint16_t (Num <<< 1)
    readNum DOUT left (count + 1) (if DOUT count then uint16_t (Num + 1) else Num)

/-- Read a conversion; its highest 12 bits are valid. -/
def TP_Read_AD (DOUT : ℕ → Bool) : ℕ := readNum DOUT 16 0 0 >>> 4

def READ_TIMES : ℕ := 5

def LOST_VAL : ℕ := 1

/-- The samples of a coordinate. -/
def samples (DOUT : ℕ → ℕ → Bool) (n i : ℕ) : ℕ := TP_Read_AD (DOUT (n + i))

/-- The sum of the sorted samples between the lost ones. -/
def middleSum (buf : ℕ → ℕ) (k : ℕ) : ℕ := accumulate 65536 (fun i => buf (LOST_VAL + i)) k

/-- Read a coordinate from five conversions. -/
def TP_Read_XOY (DOUT : ℕ → ℕ → Bool) (n : ℕ) : ℕ :=
  let buf := exchangeSort READ_TIMES (samples DOUT n)
  middleSum buf (READ_TIMES - LOST_VAL - LOST_VAL) / (READ_TIMES - 2 * LOST_VAL)

/-- The variables of a caller. -/
structure Position where
  x : ℕ
  y : ℕ
  deriving DecidableEq, Repr

/-- Read both coordinates from ten conversions. -/
def TP_Read_XY (DOUT : ℕ → ℕ → Bool) (n : ℕ) : ℕ × Position :=
  let xtemp := TP_Read_XOY DOUT n
  let ytemp := TP_Read_XOY DOUT (n + 5)
  (1, ⟨xtemp, ytemp⟩)

def ERR_RANGE : ℕ := 50

/-- Read both coordinates twice and compare them. -/
def TP_Read_XY2 (DOUT : ℕ → ℕ → Bool) (n : ℕ) (out : Position) : ℕ × Position :=
  let (flag, p1) := TP_Read_XY DOUT n
  if flag = 0 then (0, out)
  else
    let (flag, p2) := TP_Read_XY DOUT (n + 10)
    if flag = 0 then (0, out)
    else if ((p2.x ≤ p1.x ∧ p1.x < p2.x + ERR_RANGE) ∨ (p1.x ≤ p2.x ∧ p2.x < p1.x + ERR_RANGE)) ∧
        ((p2.y ≤ p1.y ∧ p1.y < p2.y + ERR_RANGE) ∨ (p1.y ≤ p2.y ∧ p2.y < p1.y + ERR_RANGE)) then
      (1, ⟨uint16_t ((p1.x + p2.x) / 2), uint16_t ((p1.y + p2.y) / 2)⟩)
    else (0, out)

/-- Least and greatest of five samples. -/
def least (f : ℕ → ℕ) : ℕ :=
  (Finset.range 5).inf' (Finset.nonempty_range_iff.mpr (Nat.succ_ne_zero 4)) f

def greatest (f : ℕ → ℕ) : ℕ :=
  (Finset.range 5).sup' (Finset.nonempty_range_iff.mpr (Nat.succ_ne_zero 4)) f

/-! ### Conversions -/

theorem readNum_succ (DOUT : ℕ → Bool) (left count Num : ℕ) :
    readNum DOUT (left + 1) count Num =
      readNum DOUT left (count + 1) (push 16 Num (DOUT count).toNat) := by
  have hbit : (if DOUT count then uint16_t (uint16_t (Num <<< 1) + 1) else uint16_t (Num <<< 1)) =
      push 16 Num (DOUT count).toNat := by
    rw [push, Nat.shiftLeft_eq]
    cases DOUT count with
    | false => exact congrArg (· % 65536) (Nat.mul_comm Num 2)
    | true =>
      rw [if_pos rfl, Bool.toNat_true, uint16_t, uint16_t]
      omega
  rw [readNum, hbit]

theorem readNum_lt (DOUT : ℕ → Bool) (left count : ℕ) {Num : ℕ} (hNum : Num < 65536) :
    readNum DOUT left count Num < 65536 := by
  induction left generalizing count Num with
  | zero => exact hNum
  | succ left ih =>
    rw [readNum_succ]
    exact ih (count + 1) (Nat.mod_lt _ (by decide))

theorem TP_Read_AD_lt (DOUT : ℕ → Bool) : TP_Read_AD DOUT < 4096 := by
  have hNum := readNum_lt DOUT 16 0 (Nat.zero_lt_succ 65535)
  rw [TP_Read_AD, Nat.shiftRight_eq_div_pow]
  omega

/-! ### Coordinates -/

theorem le_least {f : ℕ → ℕ} {b : ℕ} :
    b ≤ least f ↔ ∀ v ∈ (Multiset.range 5).map f, b ≤ v := by
  rw [least, Finset.le_inf'_iff]
  simp only [Multiset.mem_map, Multiset.mem_range, Finset.mem_range, forall_exists_index, and_imp,
    forall_apply_eq_imp_iff₂]

theorem greatest_le {f : ℕ → ℕ} {b : ℕ} :
    greatest f ≤ b ↔ ∀ v ∈ (Multiset.range 5).map f, v ≤ b := by
  rw [greatest, Finset.sup'_le_iff]
  simp only [Multiset.mem_map, Multiset.mem_range, Finset.mem_range, forall_exists_index, and_imp,
    forall_apply_eq_imp_iff₂]

section Order

variable {f g : ℕ → ℕ} (h : (Multiset.range 5).map g = (Multiset.range 5).map f)
include h

theorem least_congr : least g = least f :=
  eq_of_forall_le_iff fun b => by rw [le_least, le_least, h]

theorem greatest_congr : greatest g = greatest f :=
  eq_of_forall_ge_iff fun b => by rw [greatest_le, greatest_le, h]

theorem sum_congr : ∑ i ∈ Finset.range 5, g i = ∑ i ∈ Finset.range 5, f i :=
  congrArg Multiset.sum h

end Order

/-- The sorted samples between the first and the last one add up to what is
left of the sum. -/
theorem trimmed_sum (f : ℕ → ℕ) :
    ∑ i ∈ Finset.range 3, exchangeSort 5 f (1 + i) =
      ∑ i ∈ Finset.range 5, f i - least f - greatest f := by
  have hmap := (exchangeSort_rearranged 5 f).map_range
  rw [← sum_congr hmap, ← least_congr hmap, ← greatest_congr hmap]
  have hsorted := fun a b => exchangeSort_sorted (n := 5) f (a := a) (b := b)
  generalize exchangeSort 5 f = buf at hsorted
  have hleast : least buf = buf 0 := by
    refine le_antisymm (Finset.inf'_le buf (Finset.mem_range.mpr (by decide))) ?_
    exact Finset.le_inf' _ _ fun i hi => hsorted 0 i (Nat.zero_le i) (Finset.mem_range.mp hi)
  have hgreatest : greatest buf = buf 4 := by
    refine le_antisymm ?_ (Finset.le_sup' buf (Finset.mem_range.mpr (by decide)))
    refine Finset.sup'_le _ _ fun i hi => ?_
    have hlt := Finset.mem_range.mp hi
    exact hsorted i 4 (by omega) (by decide)
  rw [hleast, hgreatest]
  simp only [Finset.sum_range_succ, Finset.sum_range_zero, Nat.reduceAdd]
  omega

theorem samples_le (DOUT : ℕ → ℕ → Bool) (n : ℕ) :
    ∀ i, 0 ≤ i → i < 5 → exchangeSort 5 (samples DOUT n) i ≤ 4095 :=
  (exchangeSort_rearranged 5 (samples DOUT n)).forall (p := fun v => v ≤ 4095) fun i _ _ =>
    Nat.le_of_lt_succ (TP_Read_AD_lt (DOUT (n + i)))

/-- No step of the addition wraps. -/
theorem sum_sorted (DOUT : ℕ → ℕ → Bool) (n : ℕ) {k : ℕ} (hk : k ≤ 3) :
    middleSum (exchangeSort 5 (samples DOUT n)) k =
      ∑ i ∈ Finset.range k, exchangeSort 5 (samples DOUT n) (1 + i) := by
  have hlt := samples_le DOUT n
  exact accumulate_of_le (fun i hi => hlt _ (Nat.zero_le _) (by rw [LOST_VAL]; omega))
    (by decide) hk

/-- A coordinate is the mean of the samples without the least and the greatest one. -/
theorem TP_Read_XOY_eq (DOUT : ℕ → ℕ → Bool) (n : ℕ) : TP_Read_XOY DOUT n =
    (∑ i ∈ Finset.range 5, samples DOUT n i - least (samples DOUT n) -
      greatest (samples DOUT n)) / 3 := by
  rw [← trimmed_sum, ← sum_sorted DOUT n le_rfl]
  rfl

/-- The order of the samples does not matter. -/
theorem TP_Read_XOY_congr {DOUT DOUT' : ℕ → ℕ → Bool} {n n' : ℕ}
    (h : (Multiset.range 5).map (samples DOUT' n') = (Multiset.range 5).map (samples DOUT n)) :
    TP_Read_XOY DOUT' n' = TP_Read_XOY DOUT n := by
  rw [TP_Read_XOY_eq, TP_Read_XOY_eq, sum_congr h, least_congr h, greatest_congr h]

theorem TP_Read_XOY_lt (DOUT : ℕ → ℕ → Bool) (n : ℕ) : TP_Read_XOY DOUT n < 4096 := by
  rw [TP_Read_XOY_eq, ← trimmed_sum]
  have hlt := samples_le DOUT n
  exact Nat.lt_succ_of_le (mean_le fun i hi => hlt _ (Nat.zero_le _) (by omega))

/-! ### Positions -/

/-- Two readings of an axis differ by less than the allowed error. -/
def Close (a b : ℕ) : Prop := ((a : ℤ) - b).natAbs < 50

def Between (v a b : ℕ) : Prop := min a b ≤ v ∧ v ≤ max a b

theorem close_iff {a b : ℕ} :
    (b ≤ a ∧ a < b + ERR_RANGE) ∨ (a ≤ b ∧ b < a + ERR_RANGE) ↔ Close a b := by
  rw [Close, ERR_RANGE]
  omega

theorem between_half (a b : ℕ) : Between ((a + b) / 2) a b := by
  constructor
  · omega
  · omega

/-- The readings of both axes in two rounds are close. -/
def Agrees (DOUT : ℕ → ℕ → Bool) (n : ℕ) : Prop :=
  Close (TP_Read_XOY DOUT n) (TP_Read_XOY DOUT (n + 10)) ∧
    Close (TP_Read_XOY DOUT (n + 5)) (TP_Read_XOY DOUT (n + 15))

/-- A reading of both axes lies between those of the two rounds. -/
def Position.Between (p : Position) (DOUT : ℕ → ℕ → Bool) (n : ℕ) : Prop :=
  TouchSampling.Between p.x (TP_Read_XOY DOUT n) (TP_Read_XOY DOUT (n + 10)) ∧
    TouchSampling.Between p.y (TP_Read_XOY DOUT (n + 5)) (TP_Read_XOY DOUT (n + 15))

/-- Readings that agree are stored halfway, and others are refused. -/
theorem TP_Read_XY2_eq (DOUT : ℕ → ℕ → Bool) (n : ℕ) (out : Position) :
    (Agrees DOUT n → TP_Read_XY2 DOUT n out =
      (1, ⟨(TP_Read_XOY DOUT n + TP_Read_XOY DOUT (n + 10)) / 2,
        (TP_Read_XOY DOUT (n + 5) + TP_Read_XOY DOUT (n + 15)) / 2⟩)) ∧
    (¬ Agrees DOUT n → TP_Read_XY2 DOUT n out = (0, out)) := by
  have hx1 := TP_Read_XOY_lt DOUT n
  have hx2 := TP_Read_XOY_lt DOUT (n + 10)
  have hy1 := TP_Read_XOY_lt DOUT (n + 5)
  have hy2 := TP_Read_XOY_lt DOUT (n + 15)
  rw [TP_Read_XY2]
  simp only [TP_Read_XY, Nat.one_ne_zero, if_false, Nat.add_assoc, Nat.reduceAdd]
  rw [uint16_t, uint16_t, Nat.mod_eq_of_lt (by omega), Nat.mod_eq_of_lt (by omega)]
  constructor
  · intro h
    exact if_pos ⟨close_iff.mpr h.1, close_iff.mpr h.2⟩
  · intro h
    exact if_neg fun hclose => h ⟨close_iff.mp hclose.1, close_iff.mp hclose.2⟩

theorem TP_Read_XY2_spec (DOUT : ℕ → ℕ → Bool) (n : ℕ) (out : Position) :
    ((TP_Read_XY2 DOUT n out).1 = 1 ↔ Agrees DOUT n) ∧
    (Agrees DOUT n → (TP_Read_XY2 DOUT n out).2.Between DOUT n) ∧
    (¬ Agrees DOUT n → TP_Read_XY2 DOUT n out = (0, out)) := by
  have hcall := TP_Read_XY2_eq DOUT n out
  by_cases h : Agrees DOUT n
  · rw [hcall.1 h]
    refine ⟨⟨fun _ => h, fun _ => rfl⟩, fun _ => ?_, fun hn => absurd h hn⟩
    exact ⟨between_half _ _, between_half _ _⟩
  · rw [hcall.2 h]
    exact ⟨⟨fun hone => absurd hone Nat.zero_ne_one, fun ha => absurd ha h⟩,
      fun ha => absurd ha h, fun _ => rfl⟩

/-- A coordinate is a mean that does not depend on the order of its samples,
and a position is one both rounds agree on. -/
theorem sampling_robust (DOUT : ℕ → ℕ → Bool) (n : ℕ) :
    TP_Read_XOY DOUT n = (∑ i ∈ Finset.range 5, samples DOUT n i - least (samples DOUT n) -
      greatest (samples DOUT n)) / 3 ∧
    (∀ k ≤ 3, middleSum (exchangeSort 5 (samples DOUT n)) k =
      ∑ i ∈ Finset.range k, exchangeSort 5 (samples DOUT n) (1 + i)) ∧
    (∀ DOUT' n', (Multiset.range 5).map (samples DOUT' n') =
      (Multiset.range 5).map (samples DOUT n) → TP_Read_XOY DOUT' n' = TP_Read_XOY DOUT n) ∧
    ∀ out, ((TP_Read_XY2 DOUT n out).1 = 1 ↔ Agrees DOUT n) ∧
      (Agrees DOUT n → (TP_Read_XY2 DOUT n out).2.Between DOUT n) ∧
      (¬ Agrees DOUT n → TP_Read_XY2 DOUT n out = (0, out)) :=
  ⟨TP_Read_XOY_eq DOUT n, fun _ => sum_sorted DOUT n, fun _ _ => TP_Read_XOY_congr,
    TP_Read_XY2_spec DOUT n⟩

end SmartHome.TouchSampling
