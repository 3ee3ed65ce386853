import Mathlib.Algebra.Order.Ring.Nat
import Mathlib.Logic.Function.Basic

/-!
# Numbers in a memory of bytes

Numbers are stored with the least significant byte first. A stored number is
read back modulo the range of its bytes, and other bytes keep their contents.
-/

namespace SmartHome.ByteMemory

/-- The number in n bytes. -/
def load (ram : ℕ → UInt8) (a : ℕ) : ℕ → ℕ
  | 0 => 0
  | n + 1 => (ram a).toNat + 256 * load ram (a + 1) n

/-- Store a number in n bytes. -/
def store (ram : ℕ → UInt8) (a : ℕ) : ℕ → ℕ → ℕ → UInt8
  | 0, _ => ram
  | n + 1, v => store (Function.update ram a (UInt8.ofNat v)) (a + 1) n (v / 256)

variable {ram ram' : ℕ → UInt8}

/-- Only the bytes of the number matter. -/
theorem load_congr {a n : ℕ} (h : ∀ b, a ≤ b → b < a + n → ram' b = ram b) :
    load ram' a n = load ram a n := by
  induction n generalizing a with
  | zero => rfl
  | succ n ih =>
    rw [load, load, h a (by omega) (by omega), ih fun b hlow hhigh => h b (by omega) (by omega)]

theorem load_lt (ram : ℕ → UInt8) (a n : ℕ) : load ram a n < 256 ^ n := by
  induction n generalizing a with
  | zero => simp [load]
  | succ n ih =>
    have := ih (a + 1)
    have := (ram a).toNat_lt
    rw [load, pow_succ]
    omega

/-- Bytes outside the number keep their contents. -/
theorem store_apart {a n b : ℕ} (v : ℕ) (h : b < a ∨ a + n ≤ b) : store ram a n v b = ram b := by
  induction n generalizing ram a v with
  | zero => rfl
  | succ n ih => rw [store, ih _ (by omega), Function.update_of_ne (by omega)]

/-- A number is read back as far as it fits. -/
theorem load_store_self (ram : ℕ → UInt8) (a n v : ℕ) :
    load (store ram a n v) a n = v % 256 ^ n := by
  induction n generalizing ram a v with
  | zero => simp [load, Nat.mod_one]
  | succ n ih =>
    have hpow : 256 ^ (n + 1) = 256 * 256 ^ n := by rw [pow_succ, Nat.mul_comm]
    rw [load, store, ih, store_apart _ (by omega), Function.update_self, hpow, Nat.mod_mul,
      UInt8.toNat_ofNat']

/-- Another number is not touched. -/
theorem load_store_apart (ram : ℕ → UInt8) {a n b k : ℕ} (v : ℕ) (h : b + k ≤ a ∨ a + n ≤ b) :
    load (store ram a n v) b k = load ram b k :=
  load_congr fun _ _ _ => store_apart v (by omega)

end SmartHome.ByteMemory
