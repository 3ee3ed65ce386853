import Mathlib.Data.Nat.Notation
import Mathlib.Logic.Basic

/-!
# Fixed-width unsigned results

Values of the C types are natural numbers; a result stored in a narrower
type is reduced modulo its width. The conversions keep the C type names. A
loop over an array whose index is an 8-bit object ends for arrays of up to 255
elements only.
-/

namespace SmartHome.MachineWords

/-- Value kept when a result is stored in an 8-bit unsigned object. -/
abbrev uint8_t (n : ℕ) : ℕ := n % 256

/-- Value kept when a result is stored in a 16-bit unsigned object. -/
abbrev uint16_t (n : ℕ) : ℕ := n % 65536

/-- Value kept when a result is stored in a 32-bit unsigned object. -/
abbrev uint32_t (n : ℕ) : ℕ := n % 4294967296

/-- A loop over the elements of an array with an 8-bit index. -/
def byteLoop {α β : Type*} (xs : List α) (body : β → α → β) : ℕ → ℕ → β → Option β
  | 0, _, _ => none
  | fuel + 1, i, s =>
    match xs[i]? with
    | some x => byteLoop xs body fuel (uint8_t (i + 1)) (body s x)
    | none => some s

/-- The loop over a short array folds the elements that are left. -/
theorem byteLoop_of_short {α β : Type*} {xs : List α} {body : β → α → β} (h : xs.length < 256)
    {i : ℕ} (hi : i ≤ xs.length) (fuel : ℕ) (s : β) :
    byteLoop xs body fuel i s =
      if xs.length - i < fuel then some ((xs.drop i).foldl body s) else none := by
  induction fuel generalizing i s with
  | zero => rw [byteLoop, if_neg (Nat.not_lt_zero _)]
  | succ fuel ih =>
    unfold byteLoop
    by_cases hlt : i < xs.length
    · have hnext : uint8_t (i + 1) = i + 1 := Nat.mod_eq_of_lt (by omega)
      rw [List.getElem?_eq_getElem hlt]
      dsimp only
      rw [hnext, ih hlt, List.drop_eq_getElem_cons hlt, List.foldl_cons]
      exact if_congr (by omega) rfl rfl
    · rw [List.getElem?_eq_none (by omega), List.drop_eq_nil_of_le (by omega), if_pos (by omega)]
      rfl

/-- The loop over a longer array never ends. -/
theorem byteLoop_of_long {α β : Type*} {xs : List α} {body : β → α → β} (h : 256 ≤ xs.length)
    {i : ℕ} (hi : i < 256) (fuel : ℕ) (s : β) : byteLoop xs body fuel i s = none := by
  induction fuel generalizing i s with
  | zero => rfl
  | succ fuel ih =>
    unfold byteLoop
    rw [List.getElem?_eq_getElem (by omega)]
    exact ih (Nat.mod_lt _ (by omega)) _

/-- The loop ends exactly for short arrays, with the fold of its body. -/
theorem byteLoop_ends_iff {α β : Type*} {xs : List α} {body : β → α → β} {s t : β} :
    (∃ fuel, byteLoop xs body fuel 0 s = some t) ↔ xs.length < 256 ∧ xs.foldl body s = t := by
  by_cases h : xs.length < 256
  · simp only [byteLoop_of_short h (Nat.zero_le _), Option.ite_none_right_eq_some,
      Option.some.injEq, List.drop_zero, h, true_and]
    exact ⟨fun ⟨_, _, ht⟩ => ht, fun ht => ⟨xs.length + 1, by omega, ht⟩⟩
  · have hnone : ∀ fuel, byteLoop xs body fuel 0 s = none := fun fuel =>
      byteLoop_of_long (Nat.not_lt.mp h) (Nat.zero_lt_succ 255) fuel s
    simp [hnone, h]

end SmartHome.MachineWords
