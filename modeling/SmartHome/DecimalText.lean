import Mathlib.Algebra.Ring.Nat
import SmartHome.ByteStrings

/-!
# Decimal numbers in formatted text

The text of a number has its digits, most significant first, as ASCII bytes.
A format is read from the left; its conversions %d, %s, %% and %d with a
one-digit precision take their values from a list of arguments.
-/

namespace SmartHome.DecimalText

open ByteStrings

/-- The byte of a decimal digit. -/
def digitByte (d : ℕ) : UInt8 := UInt8.ofNat (d.digitChar).toNat

/-- The text of the conversion %d. -/
def decimal (n : ℕ) : List UInt8 := (Nat.toDigits 10 n).map fun c => UInt8.ofNat c.toNat

/-- The text of the conversion %d with a precision. -/
def padded (precision n : ℕ) : List UInt8 :=
  List.replicate (precision - (decimal n).length) (digitByte 0) ++ decimal n

/-- A value given to a format. -/
inductive Arg where
  | d (n : ℕ)
  | s (text : List UInt8)
  deriving DecidableEq, Repr

/-- The text of a format, read from its first character on. -/
def formatted : List Char → List Arg → List UInt8
  | '%' :: '%' :: format, args => UInt8.ofNat '%'.toNat :: formatted format args
  | '%' :: 'd' :: format, .d n :: args => decimal n ++ formatted format args
  | '%' :: 's' :: format, .s text :: args => text ++ formatted format args
  | '%' :: '.' :: precision :: 'd' :: format, .d n :: args =>
    padded (precision.toNat - '0'.toNat) n ++ formatted format args
  | c :: format, args => UInt8.ofNat c.toNat :: formatted format args
  | [], _ => []

/-- The text sprintf writes, without its terminator. -/
def sprintf (format : String) (args : List Arg) : List UInt8 := formatted format.toList args

/-! ### Digits -/

theorem digitByte_toNat {d : ℕ} (h : d < 10) : (digitByte d).toNat = 48 + d := by
  rw [digitByte, Nat.toNat_digitChar_of_lt_ten h, UInt8.toNat_ofNat']
  omega

theorem digitByte_inj {d e : ℕ} (hd : d < 10) (he : e < 10) (h : digitByte d = digitByte e) :
    d = e := by
  have hval := congrArg UInt8.toNat h
  rw [digitByte_toNat hd, digitByte_toNat he] at hval
  omega

theorem decimal_of_lt {n : ℕ} (h : n < 10) : decimal n = [digitByte n] := by
  rw [decimal, Nat.toDigits_of_lt_base h]
  rfl

theorem decimal_of_ge {n : ℕ} (h : 10 ≤ n) :
    decimal n = decimal (n / 10) ++ [digitByte (n % 10)] := by
  rw [decimal, Nat.toDigits_of_base_le (by omega) h, List.map_append]
  rfl

theorem length_decimal_pos (n : ℕ) : 0 < (decimal n).length := by
  rw [decimal, List.length_map]
  exact Nat.length_toDigits_pos

theorem length_decimal_le_iff {n k : ℕ} (hk : 0 < k) : (decimal n).length ≤ k ↔ n < 10 ^ k := by
  rw [decimal, List.length_map]
  exact Nat.length_toDigits_le_iff (by omega) hk

/-- Every byte of a number is the byte of a digit. -/
theorem mem_decimal {n : ℕ} {c : UInt8} (hc : c ∈ decimal n) : ∃ d < 10, c = digitByte d := by
  induction n using Nat.strong_induction_on with
  | _ n ih =>
    by_cases h : n < 10
    · rw [decimal_of_lt h, List.mem_singleton] at hc
      exact ⟨n, h, hc⟩
    · rw [decimal_of_ge (by omega), List.mem_append, List.mem_singleton] at hc
      cases hc with
      | inl hc => exact ih (n / 10) (by omega) hc
      | inr hc => exact ⟨n % 10, by omega, hc⟩

/-- Different numbers have different texts. -/
theorem decimal_injective : Function.Injective decimal := by
  intro m n h
  induction m using Nat.strong_induction_on generalizing n with
  | _ m ih =>
    have hlen : (decimal m).length ≤ 1 ↔ (decimal n).length ≤ 1 := by rw [h]
    rw [length_decimal_le_iff Nat.one_pos, length_decimal_le_iff Nat.one_pos, Nat.pow_one] at hlen
    by_cases hm : m < 10
    · have hn := hlen.mp hm
      rw [decimal_of_lt hm, decimal_of_lt hn] at h
      exact digitByte_inj hm hn (List.head_eq_of_cons_eq h)
    · have hn := mt hlen.mpr hm
      rw [decimal_of_ge (by omega), decimal_of_ge (n := n) (by omega)] at h
      have hparts := List.append_inj' h rfl
      have hhigh := ih (m / 10) (by omega) hparts.1
      have hlow := digitByte_inj (by omega) (by omega) (List.head_eq_of_cons_eq hparts.2)
      omega

/-- Cutting off last digits leaves the beginning of the text. -/
theorem decimal_div_isPrefix {n k : ℕ} (h : 0 < n / 10 ^ k) :
    decimal (n / 10 ^ k) <+: decimal n := by
  induction k with
  | zero =>
    rw [Nat.pow_zero, Nat.div_one]
  | succ k ih =>
    have hcut : n / 10 ^ (k + 1) = n / 10 ^ k / 10 := by rw [Nat.pow_succ, Nat.div_div_eq_div_mul]
    rw [hcut] at h ⊢
    have hlong : decimal (n / 10 ^ k) =
        decimal (n / 10 ^ k / 10) ++ [digitByte (n / 10 ^ k % 10)] := decimal_of_ge (by omega)
    exact (hlong ▸ List.prefix_append _ _).trans (ih (by omega))

/-- The text of a positive number begins another exactly if last digits can
be cut off the other number to leave it. -/
theorem decimal_isPrefix_iff {m n : ℕ} (hm : 0 < m) :
    decimal m <+: decimal n ↔ ∃ k, n / 10 ^ k = m := by
  constructor
  · intro h
    induction n using Nat.strong_induction_on with
    | _ n ih =>
      by_cases hn : n < 10
      · rw [decimal_of_lt hn] at h
        have hlen := h.length_le
        have heq : decimal m = [digitByte n] := h.eq_of_length (by
          have hpos := length_decimal_pos m
          simp only [List.length_singleton] at hlen ⊢
          omega)
        rw [← decimal_of_lt hn] at heq
        exact ⟨0, by rw [Nat.pow_zero, Nat.div_one, decimal_injective heq]⟩
      · rw [decimal_of_ge (n := n) (by omega), List.prefix_concat_iff] at h
        cases h with
        | inl h =>
          rw [← decimal_of_ge (by omega)] at h
          exact ⟨0, by rw [Nat.pow_zero, Nat.div_one, decimal_injective h]⟩
        | inr h =>
          obtain ⟨k, hk⟩ := ih (n / 10) (by omega) h
          refine ⟨k + 1, ?_⟩
          rw [Nat.pow_succ', ← Nat.div_div_eq_div_mul, hk]
  · rintro ⟨k, rfl⟩
    exact decimal_div_isPrefix hm

/-! ### Formats -/

theorem length_padded (precision n : ℕ) :
    (padded precision n).length = max precision (decimal n).length := by
  rw [padded, List.length_append, List.length_replicate]
  omega

/-- Numbers below 100 have two digits with precision 2. -/
theorem padded_two_of_lt {n : ℕ} (h : n < 100) :
    padded 2 n = [digitByte (n / 10), digitByte (n % 10)] := by
  by_cases hn : n < 10
  · rw [padded, decimal_of_lt hn, Nat.div_eq_of_lt hn, Nat.mod_eq_of_lt hn]
    rfl
  · rw [padded, decimal_of_ge (by omega), decimal_of_lt (n := n / 10) (by omega)]
    rfl

/-- The last digit is the one of the remainder. -/
theorem padded_succ {k : ℕ} (hk : 0 < k) (n : ℕ) :
    padded (k + 1) n = padded k (n / 10) ++ [digitByte (n % 10)] := by
  by_cases h : n < 10
  · obtain ⟨j, rfl⟩ : ∃ j, k = j + 1 := ⟨k - 1, by omega⟩
    rw [padded, padded, decimal_of_lt h, Nat.div_eq_of_lt h, Nat.mod_eq_of_lt h,
      decimal_of_lt (Nat.succ_pos 9), List.length_singleton, List.length_singleton,
      Nat.add_sub_cancel, Nat.add_sub_cancel, ← List.replicate_succ']
  · rw [padded, padded, decimal_of_ge (by omega), List.length_append, List.length_singleton,
      Nat.add_sub_add_right, List.append_assoc]

/-- The first digit is the one of the highest weight. -/
theorem padded_cons {k d m : ℕ} (hk : 0 < k) (hd : d < 10) (hm : m < 10 ^ k) :
    padded (k + 1) (10 ^ k * d + m) = digitByte d :: padded k m := by
  have hten : 0 < 10 := by decide
  induction k, hk using Nat.le_induction generalizing m with
  | base =>
    rw [Nat.pow_one] at hm ⊢
    rw [padded_two_of_lt (by omega), padded, decimal_of_lt hm, Nat.mul_add_div hten,
      Nat.div_eq_of_lt hm, Nat.mul_add_mod, Nat.mod_eq_of_lt hm]
    rfl
  | succ k hk ih =>
    have hpow : 10 ^ (k + 1) * d + m = 10 * (10 ^ k * d) + m := by
      rw [Nat.pow_succ', Nat.mul_assoc]
    rw [Nat.pow_succ'] at hm
    rw [padded_succ (Nat.zero_lt_succ k), hpow, Nat.mul_add_div hten, Nat.mul_add_mod,
      ih (by omega), padded_succ hk m, List.cons_append]

end SmartHome.DecimalText
