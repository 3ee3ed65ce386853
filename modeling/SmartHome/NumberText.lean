import Mathlib.Data.List.Basic
import SmartHome.DecimalText
import SmartHome.MachineWords

/-!
# Numbers on the display

A number is drawn one character after the other, from its highest digit on.
Both functions run through the same loop; they differ in the character that
stands for a leading zero and in the mode they pass on. Columns are 16-bit
objects.
-/

namespace SmartHome.NumberText

open DecimalText MachineWords

/-- The arguments of a call of LCD_ShowChar. -/
structure ShowChar where
  x : ℕ
  y : ℕ
  num : UInt8
  size : ℕ
  mode : ℕ
  deriving DecidableEq, Repr

/-- A power, each of whose factors is multiplied into a 32-bit object. -/
def LCD_Pow (m : ℕ) : ℕ → ℕ
  | 0 => 1
  | n + 1 => uint32_t (LCD_Pow m n * m)

/-- The loop over the digits, with the number of digits left. -/
def showDigits (x y num len size mode : ℕ) (zero : UInt8) : ℕ → ℕ → Bool → List ShowChar
  | 0, _, _ => []
  | left + 1, t, enshow =>
    let temp := uint8_t (num / LCD_Pow 10 (len - t - 1) % 10)
    let column := uint16_t (x + size / 2 * t)
    if enshow = false ∧ t < len - 1 then
      if temp = 0 then
        ⟨column, y, zero, size, mode⟩ :: showDigits x y num len size mode zero left (t + 1) false
      else
        ⟨column, y, UInt8.ofNat (temp + 0x30), size, mode⟩ ::
          showDigits x y num len size mode zero left (t + 1) true
    else
      ⟨column, y, UInt8.ofNat (temp + 0x30), size, mode⟩ ::
        showDigits x y num len size mode zero left (t + 1) enshow

/-- Show a number with blanks for leading zeros. -/
def LCD_ShowNum (x y num len size : ℕ) : List ShowChar :=
  showDigits x y num len size 0 0x20 len 0 false

/-- Show a number; bit 7 of the mode keeps its leading zeros. -/
def LCD_ShowxNum (x y num len size mode : ℕ) : List ShowChar :=
  showDigits x y num len size (mode &&& 0x01) (if mode &&& 0x80 ≠ 0 then 0x30 else 0x20) len 0 false

/-- A text drawn from a position on. -/
def drawn (x y size mode : ℕ) (text : List UInt8) : List ShowChar :=
  text.mapIdx fun t c => ⟨uint16_t (x + size / 2 * t), y, c, size, mode⟩

/-- A decimal number at the end of a field that is filled with a character. -/
def rightAligned (zero : UInt8) (len n : ℕ) : List UInt8 :=
  List.replicate (len - (decimal n).length) zero ++ decimal n

/-! ### Powers -/

theorem LCD_Pow_ten {n : ℕ} (hn : n < 10) : LCD_Pow 10 n = 10 ^ n := by
  induction n with
  | zero => rfl
  | succ n ih =>
    have hpow : 10 ^ (n + 1) ≤ 10 ^ 9 := Nat.pow_le_pow_right (by decide) (by omega)
    rw [LCD_Pow, ih (by omega), ← Nat.pow_succ, uint32_t, Nat.mod_eq_of_lt (by omega)]

/-! ### Texts -/

/-- The characters of the loop, with the number of digits left. -/
def loopText (zero : UInt8) (num : ℕ) : ℕ → Bool → List UInt8
  | 0, _ => []
  | left + 1, enshow =>
    if enshow = false ∧ 0 < left ∧ num / 10 ^ left % 10 = 0 then
      zero :: loopText zero num left false
    else digitByte (num / 10 ^ left % 10) :: loopText zero num left true

theorem ofNat_eq_digitByte {d : ℕ} (hd : d < 10) : UInt8.ofNat (d + 0x30) = digitByte d := by
  apply UInt8.toNat_inj.mp
  rw [digitByte_toNat hd, UInt8.toNat_ofNat']
  omega

/-- The loop draws its characters side by side. -/
theorem showDigits_eq {x y num len size mode : ℕ} {zero : UInt8} (hlen : len ≤ 10) (left t : ℕ)
    (hleft : t + left = len) (enshow : Bool) :
    showDigits x y num len size mode zero left t enshow =
      (loopText zero num left enshow).mapIdx fun i c =>
        ⟨uint16_t (x + size / 2 * (t + i)), y, c, size, mode⟩ := by
  induction left generalizing t enshow with
  | zero => rfl
  | succ left ih =>
    have hindex : len - t - 1 = left := by omega
    have hlast : t < len - 1 ↔ 0 < left := by omega
    have hdigit : num / 10 ^ left % 10 < 10 := Nat.mod_lt _ (by decide)
    have hcons : ∀ c text, (c :: text).mapIdx (fun i c =>
        (⟨uint16_t (x + size / 2 * (t + i)), y, c, size, mode⟩ : ShowChar)) =
        ⟨uint16_t (x + size / 2 * t), y, c, size, mode⟩ :: text.mapIdx fun i c =>
          ⟨uint16_t (x + size / 2 * (t + 1 + i)), y, c, size, mode⟩ := by
      intro c text
      simp only [List.mapIdx_cons, Nat.add_zero, Nat.add_assoc, Nat.add_comm 1]
    rw [showDigits, loopText, hindex, LCD_Pow_ten (by omega)]
    generalize num / 10 ^ left % 10 = temp at hdigit
    rw [uint8_t, Nat.mod_eq_of_lt (Nat.lt_trans hdigit (by decide)), ofNat_eq_digitByte hdigit]
    by_cases hzero : enshow = false ∧ 0 < left ∧ temp = 0
    · rw [if_pos hzero, if_pos ⟨hzero.1, hlast.mpr hzero.2.1⟩, if_pos hzero.2.2, hcons,
        ih (t + 1) (by omega)]
    · rw [if_neg hzero, hcons, ← ih (t + 1) (by omega)]
      by_cases hfirst : enshow = false ∧ t < len - 1
      · rw [if_pos hfirst, if_neg fun h => hzero ⟨hfirst.1, hlast.mp hfirst.2, h⟩]
      · rw [if_neg hfirst]
        cases enshow with
        | true => rfl
        | false =>
          -- nothing follows the last digit
          have hend : ¬ 0 < left := fun h => hfirst ⟨rfl, hlast.mpr h⟩
          rw [Nat.eq_zero_of_not_pos hend, showDigits, showDigits]

theorem padded_one {n : ℕ} (h : n < 10) : padded 1 n = [digitByte n] := by
  rw [padded, decimal_of_lt h]
  rfl

/-- A number with one more digit. -/
theorem padded_mod_succ (num left : ℕ) : padded (left + 2) (num % 10 ^ (left + 2)) =
    digitByte (num / 10 ^ (left + 1) % 10) :: padded (left + 1) (num % 10 ^ (left + 1)) := by
  rw [Nat.mod_pow_succ, Nat.add_comm (num % 10 ^ (left + 1))]
  exact padded_cons (Nat.zero_lt_succ left) (Nat.mod_lt _ (by decide))
    (Nat.mod_lt _ (Nat.pow_pos (by decide)))

/-- From the first digit other than zero on, all digits are drawn. -/
theorem loopText_true (zero : UInt8) (num left : ℕ) :
    loopText zero num (left + 1) true = padded (left + 1) (num % 10 ^ (left + 1)) := by
  have hdigit : ∀ {p : Prop}, ¬ (true = false ∧ p) := fun h => Bool.false_ne_true h.1.symm
  induction left with
  | zero =>
    rw [loopText, if_neg hdigit, loopText, Nat.pow_zero, Nat.div_one, Nat.zero_add, Nat.pow_one,
      padded_one (Nat.mod_lt _ (by decide))]
  | succ left ih => rw [loopText, if_neg hdigit, ih, padded_mod_succ]

/-- Leading zeros are replaced, the last digit excepted. -/
theorem loopText_false (zero : UInt8) (num left : ℕ) :
    loopText zero num (left + 1) false = rightAligned zero (left + 1) (num % 10 ^ (left + 1)) := by
  induction left with
  | zero =>
    have hlast : ¬ (false = false ∧ 0 < 0 ∧ num / 10 ^ 0 % 10 = 0) :=
      fun h => Nat.lt_irrefl 0 h.2.1
    rw [loopText, if_neg hlast, loopText, Nat.pow_zero, Nat.div_one, Nat.zero_add, Nat.pow_one,
      rightAligned, decimal_of_lt (Nat.mod_lt _ (by decide))]
    rfl
  | succ left ih =>
    have hlow : num % 10 ^ (left + 1) < 10 ^ (left + 1) := Nat.mod_lt _ (Nat.pow_pos (by decide))
    have hsplit : num % 10 ^ (left + 2) =
        num % 10 ^ (left + 1) + 10 ^ (left + 1) * (num / 10 ^ (left + 1) % 10) := Nat.mod_pow_succ
    rw [loopText]
    by_cases hzero : num / 10 ^ (left + 1) % 10 = 0
    · have hlength := (length_decimal_le_iff (Nat.zero_lt_succ left)).mpr hlow
      have hsame : num % 10 ^ (left + 2) = num % 10 ^ (left + 1) := by
        rw [hsplit, hzero, Nat.mul_zero, Nat.add_zero]
      rw [if_pos ⟨rfl, Nat.zero_lt_succ left, hzero⟩, ih, hsame, rightAligned, rightAligned,
        Nat.succ_sub hlength, List.replicate_succ, List.cons_append]
    · -- the number has as many digits as there is room for
      have hbig : 10 ^ (left + 1) ≤ num % 10 ^ (left + 2) := by
        have hmul := Nat.le_mul_of_pos_right (10 ^ (left + 1)) (Nat.pos_of_ne_zero hzero)
        omega
      have hlength := mt (length_decimal_le_iff (Nat.zero_lt_succ left)).mp (Nat.not_lt.mpr hbig)
      have hfull : left + 2 - (decimal (num % 10 ^ (left + 2))).length = 0 := by omega
      rw [if_neg fun h => hzero h.2.2, loopText_true, ← padded_mod_succ, padded, rightAligned,
        hfull]
      rfl

theorem length_rightAligned (zero : UInt8) {len n : ℕ} (hlen : 1 ≤ len) (hn : n < 10 ^ len) :
    (rightAligned zero len n).length = len := by
  have hlength := (length_decimal_le_iff hlen).mpr hn
  rw [rightAligned, List.length_append, List.length_replicate]
  omega

theorem showDigits_all {x y num len size mode : ℕ} {zero : UInt8} (hpos : 1 ≤ len)
    (hlen : len ≤ 10) : showDigits x y num len size mode zero len 0 false =
      drawn x y size mode (rightAligned zero len (num % 10 ^ len)) := by
  obtain ⟨left, rfl⟩ : ∃ left, len = left + 1 := ⟨len - 1, by omega⟩
  rw [showDigits_eq hlen (left + 1) 0 (Nat.zero_add _), loopText_false, drawn]
  simp only [Nat.zero_add]

/-- Both functions draw the decimal number at the end of its field, and no
power they use wraps. -/
theorem numbers_shown {len : ℕ} (hpos : 1 ≤ len) (hlen : len ≤ 10) (x y num size : ℕ) :
    LCD_ShowNum x y num len size =
      drawn x y size 0 (rightAligned 0x20 len (num % 10 ^ len)) ∧
    (∀ mode, LCD_ShowxNum x y num len size mode =
      drawn x y size (mode &&& 0x01) (if mode &&& 0x80 ≠ 0 then padded len (num % 10 ^ len)
        else rightAligned 0x20 len (num % 10 ^ len))) ∧
    (∀ zero, (rightAligned zero len (num % 10 ^ len)).length = len) ∧
    ∀ n < len, LCD_Pow 10 n = 10 ^ n := by
  refine ⟨showDigits_all hpos hlen, fun mode => ?_, fun zero => ?_, fun n hn => ?_⟩
  · rw [LCD_ShowxNum, showDigits_all hpos hlen]
    split
    · rfl
    · rfl
  · exact length_rightAligned zero hpos (Nat.mod_lt _ (Nat.pow_pos (by decide)))
  · exact LCD_Pow_ten (by omega)

/-- The inner zero of 1203 is shown and the two places before it are blank. -/
theorem numbers_shown_1203 : LCD_ShowNum 30 50 1203 6 16 =
    drawn 30 50 16 0 [0x20, 0x20, 0x31, 0x32, 0x30, 0x33] := by
  have hshown := (numbers_shown (by decide : 1 ≤ 6) (by decide) 30 50 1203 16).1
  rw [hshown]
  rfl

end SmartHome.NumberText
