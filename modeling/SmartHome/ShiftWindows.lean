import Mathlib.Algebra.Ring.Nat

/-!
# The contents of a shift register between two words

A register of fixed width takes the bits of a word one by one, most significant
bit first, and drops its oldest bits. Between two words it shows a window of
the old word followed by the new one. The windows, their upper parts and the
effect of one more bit are described by division only.
-/

namespace SmartHome.ShiftWindows

/-- Shift one bit into a register. -/
def push (width reg bit : ℕ) : ℕ := (2 * reg + bit) % 2 ^ width

/-- Bit of a word, the most significant one being bit 0. -/
def bitAt (width word n : ℕ) : ℕ := word / 2 ^ (width - 1 - n) % 2

/-- The register after n bits of a word have followed an older word. -/
def window (width old word n : ℕ) : ℕ := (old * 2 ^ width + word) / 2 ^ (width - n) % 2 ^ width

variable {width old word n : ℕ}

/-- Without new bits the register holds the older word. -/
theorem window_zero (hold : old < 2 ^ width) (hword : word < 2 ^ width) :
    window width old word 0 = old := by
  have hpos : 0 < 2 ^ width := Nat.two_pow_pos width
  unfold window
  rw [Nat.sub_zero, Nat.add_comm, Nat.add_mul_div_right _ _ hpos, Nat.div_eq_of_lt hword,
    Nat.zero_add, Nat.mod_eq_of_lt hold]

/-- With all new bits the register holds the new word. -/
theorem window_width (hword : word < 2 ^ width) : window width old word width = word := by
  unfold window
  rw [Nat.sub_self, Nat.pow_zero, Nat.div_one, Nat.add_comm, Nat.add_mul_mod_self_right,
    Nat.mod_eq_of_lt hword]

/-- The next bit of the word moves the window on. -/
theorem push_window (hn : n < width) :
    push width (window width old word n) (bitAt width word n) = window width old word (n + 1) := by
  obtain ⟨m, rfl⟩ : ∃ m, width = n + 1 + m := ⟨width - (n + 1), by omega⟩
  unfold push window bitAt
  rw [show n + 1 + m - (n + 1) = m by omega, show n + 1 + m - n = m + 1 by omega,
    show n + 1 + m - 1 - n = m by omega]
  -- one bit less is cut off, and the bit in question is the last one then
  have hsplit : (old * 2 ^ (n + 1 + m) + word) / 2 ^ m = old * 2 ^ (n + 1) + word / 2 ^ m := by
    rw [Nat.pow_add, ← Nat.mul_assoc, Nat.add_comm, Nat.add_mul_div_right _ _ (Nat.two_pow_pos m),
      Nat.add_comm]
  have hhalf : (old * 2 ^ (n + 1 + m) + word) / 2 ^ (m + 1) =
      (old * 2 ^ (n + 1 + m) + word) / 2 ^ m / 2 := by
    rw [Nat.div_div_eq_div_mul, Nat.pow_succ]
  have hbit : word / 2 ^ m % 2 = (old * 2 ^ (n + 1 + m) + word) / 2 ^ m % 2 := by
    rw [hsplit, Nat.pow_succ, ← Nat.mul_assoc, Nat.add_comm, Nat.add_mul_mod_self_right]
  rw [hhalf, hbit]
  generalize (old * 2 ^ (n + 1 + m) + word) / 2 ^ m = stream
  calc (2 * (stream / 2 % 2 ^ (n + 1 + m)) + stream % 2) % 2 ^ (n + 1 + m)
      = (2 * (stream / 2) + stream % 2) % 2 ^ (n + 1 + m) := by
        rw [Nat.add_mod, Nat.mul_mod, Nat.mod_mod, ← Nat.mul_mod, ← Nat.add_mod]
    _ = stream % 2 ^ (n + 1 + m) := by rw [Nat.div_add_mod]

/-- A loop over the bits of a word, given by what it does with the register and
the number of bits left, ends with the word. -/
theorem loop_reads_word {β : Type*} (loop : ℕ → ℕ → β) (hword : word < 2 ^ width)
    (hstep : ∀ left < width, ∀ reg, loop (left + 1) reg =
      loop left (push width reg (bitAt width word (width - (left + 1))))) :
    loop width 0 = loop 0 word := by
  have hrun : ∀ left ≤ width, loop left (window width 0 word (width - left)) = loop 0 word := by
    intro left
    induction left with
    | zero =>
      intro _
      rw [Nat.sub_zero, window_width hword]
    | succ left ih =>
      intro hleft
      have hnext : width - left = width - (left + 1) + 1 := by omega
      have hrest := ih (by omega)
      rw [hnext, ← push_window (by omega)] at hrest
      rw [hstep left hleft]
      exact hrest
  have hall := hrun width le_rfl
  rwa [Nat.sub_self, window_zero (Nat.two_pow_pos width) hword] at hall

/-- The upper part of a window is a window of the upper parts. -/
theorem window_div {upper lower : ℕ} :
    window (upper + lower) old word n / 2 ^ lower =
      (old * 2 ^ upper + word / 2 ^ lower) / 2 ^ (upper + lower - n) % 2 ^ upper := by
  unfold window
  have hpos : 0 < 2 ^ lower := Nat.two_pow_pos lower
  rw [Nat.pow_add, Nat.mod_mul_left_div_self, Nat.div_div_eq_div_mul,
    Nat.mul_comm (2 ^ (upper + lower - n)), ← Nat.div_div_eq_div_mul, ← Nat.mul_assoc,
    Nat.add_comm (old * 2 ^ upper * 2 ^ lower), Nat.add_mul_div_right _ _ hpos,
    Nat.add_comm (word / 2 ^ lower)]

end SmartHome.ShiftWindows
