import Mathlib.Data.List.Basic
import Mathlib.Logic.Function.Basic

/-!
# Copying cell by cell in increasing order

A loop writes consecutive cells, each with what it reads from the memory that
it has changed so far. Cells outside the destination keep their contents. A
copied cell is the original one if the loop has not overwritten it before it
reads it; the two areas may overlap otherwise.
-/

namespace SmartHome.ForwardCopy

variable {α : Type*}

/-- Write n cells from des on; the i-th one gets what read finds at that time. -/
def copyWith (read : (ℕ → α) → ℕ → α) (des n : ℕ) (mem : ℕ → α) : ℕ → α :=
  (List.range n).foldl (fun m i => Function.update m (des + i) (read m i)) mem

@[simp] theorem copyWith_zero (read : (ℕ → α) → ℕ → α) (des : ℕ) (mem : ℕ → α) :
    copyWith read des 0 mem = mem := rfl

/-- The last cell is written into the memory that the others have left. -/
theorem copyWith_succ (read : (ℕ → α) → ℕ → α) (des n : ℕ) (mem : ℕ → α) :
    copyWith read des (n + 1) mem =
      Function.update (copyWith read des n mem) (des + n) (read (copyWith read des n mem) n) := by
  unfold copyWith
  rw [List.range_succ, List.foldl_append]
  rfl

/-- Cells outside the destination keep their contents. -/
theorem copyWith_outside (read : (ℕ → α) → ℕ → α) {des n : ℕ} (mem : ℕ → α) {j : ℕ}
    (h : ¬(des ≤ j ∧ j < des + n)) : copyWith read des n mem j = mem j := by
  induction n with
  | zero => rw [copyWith_zero]
  | succ n ih =>
    rw [copyWith_succ, Function.update_of_ne (by omega)]
    exact ih (by omega)

/-- A cell of the destination holds what was read for it. -/
theorem copyWith_inside (read : (ℕ → α) → ℕ → α) (des : ℕ) {n : ℕ} (mem : ℕ → α) {i : ℕ}
    (h : i < n) : copyWith read des n mem (des + i) = read (copyWith read des i mem) i := by
  induction n with
  | zero => omega
  | succ n ih =>
    rw [copyWith_succ]
    rcases Nat.lt_succ_iff_lt_or_eq.mp h with hlt | rfl
    · rw [Function.update_of_ne (by omega)]
      exact ih hlt
    · exact Function.update_self ..

/-- A copied cell is the original one unless it is overwritten before it is read. -/
theorem copyWith_original (read : (ℕ → α) → ℕ → α) {des n src i : ℕ} (mem : ℕ → α)
    (hread : ∀ m, read m i = m (src + i)) (hi : i < n)
    (hapart : ¬(des ≤ src + i ∧ src + i < des + i)) :
    copyWith read des n mem (des + i) = mem (src + i) := by
  rw [copyWith_inside read des mem hi, hread]
  exact copyWith_outside read mem hapart

end SmartHome.ForwardCopy
