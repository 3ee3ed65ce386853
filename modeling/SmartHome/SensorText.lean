import SmartHome.DecimalText
import SmartHome.SsiTags

/-!
# Sensor readings on the pages and on the display

The three page handlers extract the digits of a reading in hundredths with a
case for each number of digits; the display formats the integral part and the
two digits of Get_decimal. The texts agree except for readings of 1.00, which
no case of the handlers covers. Readings and their products are exact, where
the program rounds floating-point numbers; there the texts can differ by a
hundredth.
-/

namespace SmartHome.SensorText

open DecimalText MachineWords SsiTags

/-- The fraction of a nonnegative value, with one to four digits. -/
def Get_decimal (dt : ℚ) (deci : ℕ) : ℕ :=
  let deci := if deci > 4 then 4 else deci
  let deci := if deci < 1 then 1 else deci
  let x3 :=
    match deci with
    | 1 => 10
    | 2 => 10 * 10
    | 3 => 10 * 10 * 10
    | 4 => 10 * 10 * 10 * 10
    | _ => 0
  let x1 := ⌊dt * (x3 : ℕ)⌋.toNat
  uint16_t (x1 % x3)

/-- The text of a voltage on the display. -/
def voltageText (v : ℚ) : List UInt8 :=
  sprintf "%d.%.2d" [.d (uint8_t ⌊v⌋.toNat), .d (uint8_t (Get_decimal v 2))]

/-- The sensors whose voltage a page shows. -/
inductive Sensor where
  | fire
  | gas
  | light
  deriving DecidableEq, Repr

/-- The voltage of a sensor. -/
def Sensor.reading : Sensor → Readings → ℚ
  | .fire => Readings.HZ
  | .gas => Readings.MQ
  | .light => Readings.LS1_VAL

/-- The handler of a sensor. -/
def Sensor.handler : Sensor → Readings → List ℕ
  | .fire => Fire_Handler
  | .gas => MQ_Handler
  | .light => Light_sensor_Handler

/-- The text shows the hundredths of a voltage, and so does the display. -/
structure SameReading (text : List ℕ) (v : ℚ) : Prop where
  digits : ∃ d1 d2 d3 : ℕ, d1 < 10 ∧ d2 < 10 ∧ d3 < 10 ∧
    text = [48 + d1, 46, 48 + d2, 48 + d3] ∧ ((100 * d1 + 10 * d2 + d3 : ℕ) : ℤ) = ⌊100 * v⌋
  display : text = (voltageText v).map UInt8.toNat

/-- The handler of a sensor writes the text of its voltage. -/
theorem handler_eq (s : Sensor) (r : Readings) :
    s.handler r = sensorText (hundredths (s.reading r)) := by
  cases s <;> rfl

/-- Every sensor voltage is in the range of its readings. -/
theorem reading_range (s : Sensor) (r : Readings) : 0 ≤ s.reading r ∧ s.reading r < 10 := by
  cases s with
  | fire => exact r.HZ_range
  | gas => exact r.MQ_range
  | light => exact r.LS1_VAL_range

theorem digit_of_lt {n : ℕ} (h : n < 10) : digit n = 48 + n := by
  rw [digit, uint8_t, uint8_t]
  omega

/-- A handler stores the byte that a conversion writes. -/
theorem digit_eq_digitByte {n : ℕ} (h : n < 10) : digit n = (digitByte n).toNat := by
  rw [digit_of_lt h, digitByte_toNat h]

/-- Except for 100 itself the handlers extract the decimal digits. -/
theorem sensorText_of_ne {h : ℕ} (hlt : h < 1000) (hne : h ≠ 100) :
    sensorText h = [digit (h / 100), 46, digit (h % 100 / 10), digit (h % 10)] := by
  have hdigits : sensorDigits h = (h / 100, h % 100 / 10, h % 10) := by
    rw [sensorDigits]
    split
    · simp only [Prod.mk.injEq]
      omega
    · split
      · simp only [Prod.mk.injEq, and_true]
        omega
      · rw [if_pos (by omega)]
  rw [sensorText, hdigits]

/-- The hundredths of a voltage. -/
theorem hundredths_eq {v : ℚ} (h : 0 ≤ v ∧ v < 10) : (hundredths v : ℤ) = ⌊100 * v⌋ := by
  have hnonneg : 0 ≤ ⌊v * 100⌋ := Int.floor_nonneg.mpr (by linarith [h.1])
  have hlt : ⌊v * 100⌋ < 1000 := Int.floor_lt.mpr (by push_cast; linarith [h.2])
  rw [hundredths, uint16_t, Nat.mod_eq_of_lt (by omega), Int.toNat_of_nonneg hnonneg, mul_comm]

/-- The volts are the hundredths divided by 100. -/
theorem floor_eq (v : ℚ) : ⌊v⌋ = ⌊100 * v⌋ / 100 := by
  rw [Int.floor_eq_iff]
  have hlow := Int.floor_le (100 * v)
  have hhigh := Int.lt_floor_add_one (100 * v)
  have hdiv : ⌊100 * v⌋ / 100 * 100 ≤ ⌊100 * v⌋ := by omega
  have hmod : ⌊100 * v⌋ + 1 ≤ (⌊100 * v⌋ / 100 + 1) * 100 := by omega
  have hdiv' : ((⌊100 * v⌋ / 100 : ℤ) : ℚ) * 100 ≤ (⌊100 * v⌋ : ℚ) := by exact_mod_cast hdiv
  have hmod' : (⌊100 * v⌋ : ℚ) + 1 ≤ (((⌊100 * v⌋ / 100 : ℤ) : ℚ) + 1) * 100 := by
    exact_mod_cast hmod
  constructor
  · linarith
  · linarith

/-- The display shows the decimal digits of the hundredths. -/
theorem voltageText_eq {v : ℚ} (h : 0 ≤ v ∧ v < 10) :
    voltageText v = [digitByte (hundredths v / 100), 46, digitByte (hundredths v % 100 / 10),
      digitByte (hundredths v % 10)] := by
  have hval := hundredths_eq h
  have hlt := hundredths_lt h
  have hint : uint8_t ⌊v⌋.toNat = hundredths v / 100 := by
    rw [floor_eq, ← hval, uint8_t]
    omega
  have hfrac : uint8_t (Get_decimal v 2) = hundredths v % 100 := by
    have hx1 : ⌊v * ((10 * 10 : ℕ) : ℚ)⌋.toNat = hundredths v := by
      rw [show v * ((10 * 10 : ℕ) : ℚ) = 100 * v by push_cast; ring, ← hval, Int.toNat_natCast]
    have hdecimal : Get_decimal v 2 = uint16_t (hundredths v % (10 * 10)) := by
      rw [← hx1]
      rfl
    rw [hdecimal, uint8_t, uint16_t]
    omega
  have htext : voltageText v =
      decimal (hundredths v / 100) ++ 46 :: padded 2 (hundredths v % 100) := by
    rw [voltageText, hint, hfrac, ← List.append_nil (padded 2 _)]
    rfl
  rw [htext, decimal_of_lt (by omega), padded_two_of_lt (by omega),
    show hundredths v % 100 % 10 = hundredths v % 10 by omega]
  rfl

/-- A handler shows the same reading as the display exactly if it has not 100
hundredths to show. -/
theorem sameReading_sensorText_iff {v : ℚ} (h : 0 ≤ v ∧ v < 10) :
    SameReading (sensorText (hundredths v)) v ↔ hundredths v ≠ 100 := by
  have hval := hundredths_eq h
  have hlt := hundredths_lt h
  constructor
  · rintro hsame h100
    obtain ⟨d1, d2, d3, -, -, -, htext, hsum⟩ := hsame.digits
    rw [h100, show sensorText 100 = [48, 46, 48, 48] by decide] at htext
    simp only [List.cons.injEq] at htext
    omega
  · intro hne
    rw [sensorText_of_ne hlt hne]
    constructor
    · refine ⟨hundredths v / 100, hundredths v % 100 / 10, hundredths v % 10, by omega, by omega,
        by omega, ?_, by omega⟩
      rw [digit_of_lt (by omega), digit_of_lt (by omega), digit_of_lt (by omega)]
    · rw [voltageText_eq h, digit_eq_digitByte (by omega), digit_eq_digitByte (by omega),
        digit_eq_digitByte (by omega)]
      rfl

/-- For every sensor and reading the page shows what the display shows exactly
if the reading is not from 1.00 to below 1.01. -/
theorem sameReading_iff (s : Sensor) (r : Readings) :
    SameReading (s.handler r) (s.reading r) ↔ ¬(1 ≤ s.reading r ∧ s.reading r < 101 / 100) := by
  have hval := hundredths_eq (reading_range s r)
  rw [handler_eq, sameReading_sensorText_iff (reading_range s r), not_iff_not]
  have hfloor : ⌊100 * s.reading r⌋ = 100 ↔ 1 ≤ s.reading r ∧ s.reading r < 101 / 100 := by
    rw [Int.floor_eq_iff]
    push_cast
    constructor
    · rintro ⟨hlow, hhigh⟩
      constructor <;> linarith
    · rintro ⟨hlow, hhigh⟩
      constructor <;> linarith
  rw [← hfloor, ← hval]
  omega

/-- Readings with a voltage of 1 at the fire sensor. -/
def oneVolt : Readings := { midnight with HZ := 1, HZ_range := by norm_num }

/-- One volt is shown as 0.00. -/
theorem not_sameReading_oneVolt :
    ¬∀ (s : Sensor) (r : Readings), SameReading (s.handler r) (s.reading r) := by
  intro h
  have hsame := h .fire oneVolt
  rw [handler_eq, sameReading_sensorText_iff (reading_range _ _)] at hsame
  have hval := hundredths_eq (reading_range .fire oneVolt)
  have hone : Sensor.fire.reading oneVolt = 1 := rfl
  rw [hone] at hsame hval
  norm_num at hval
  omega

end SmartHome.SensorText
