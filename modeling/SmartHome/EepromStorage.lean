import Mathlib.Data.Nat.Digits.Defs
import Mathlib.Data.Nat.ModEq
import Mathlib.Logic.Function.Basic
import Mathlib.Tactic.Ring
import SmartHome.MachineWords

/-!
# The calibration memory and its two interfaces

The device is an array of 256 bytes, addressed by the low byte of an address.
One pair of functions moves lists of bytes, the other a number of up to four
bytes; both store the byte of least weight at the lowest address.
-/

namespace SmartHome.EepromStorage

open MachineWords

abbrev Device := Fin 256 → UInt8

def AT24CXX_ReadOneByte (ReadAddr : ℕ) (device : Device) : UInt8 := device (Fin.ofNat 256 ReadAddr)

def AT24CXX_WriteOneByte (WriteAddr : ℕ) (DataToWrite : UInt8) (device : Device) : Device :=
  Function.update device (Fin.ofNat 256 WriteAddr) DataToWrite

/-- Write the bytes of a buffer. -/
def AT24CXX_Write (WriteAddr : ℕ) : List UInt8 → Device → Device
  | [], device => device
  | byte :: pBuffer, device =>
    AT24CXX_Write (uint16_t (WriteAddr + 1)) pBuffer (AT24CXX_WriteOneByte WriteAddr byte device)

/-- Read a number of bytes into a buffer. -/
def AT24CXX_Read (ReadAddr : ℕ) (device : Device) : ℕ → List UInt8
  | 0 => []
  | NumToRead + 1 =>
    AT24CXX_ReadOneByte ReadAddr device ::
      AT24CXX_Read (uint16_t (ReadAddr + 1)) device NumToRead

/-- The loop over the bytes of a number, with the number of bytes left. -/
def writeLen (WriteAddr DataToWrite : ℕ) : ℕ → ℕ → Device → Device
  | 0, _, device => device
  | left + 1, t, device =>
    writeLen WriteAddr DataToWrite left (t + 1) (AT24CXX_WriteOneByte (uint16_t (WriteAddr + t))
      (UInt8.ofNat (DataToWrite >>> (8 * t) &&& 0xff)) device)

/-- Write a number of Len bytes. -/
def AT24CXX_WriteLenByte (WriteAddr DataToWrite Len : ℕ) (device : Device) : Device :=
  writeLen WriteAddr DataToWrite Len 0 device

/-- The loop down to the lowest byte of a number; Len - t - 1 bytes are left after a step. -/
def readLen (ReadAddr : ℕ) (device : Device) : ℕ → ℕ → ℕ
  | 0, temp => temp
  | left + 1, temp =>
    let temp := uint32_t (temp <<< 8)
    readLen ReadAddr device left
      (uint32_t (temp + (AT24CXX_ReadOneByte (uint16_t (ReadAddr + left)) device).toNat))

/-- Read a number of Len bytes. -/
def AT24CXX_ReadLenByte (ReadAddr Len : ℕ) (device : Device) : ℕ := readLen ReadAddr device Len 0

/-- The number of a list of bytes, the first of them having the least weight. -/
def value (bytes : List UInt8) : ℕ := Nat.ofDigits 256 (bytes.map UInt8.toNat)

/-- The bytes of a number. -/
def bytes (v n : ℕ) : List UInt8 := (List.range n).map fun t => UInt8.ofNat (v / 256 ^ t)

variable {device : Device} {a n v : ℕ}

/-! ### Addresses -/

theorem ofNat_uint16_t (a : ℕ) : Fin.ofNat 256 (uint16_t a) = Fin.ofNat 256 a := by
  apply Fin.ext
  rw [Fin.val_ofNat, Fin.val_ofNat, uint16_t]
  omega

theorem AT24CXX_ReadOneByte_uint16_t (a : ℕ) (device : Device) :
    AT24CXX_ReadOneByte (uint16_t a) device = AT24CXX_ReadOneByte a device := by
  rw [AT24CXX_ReadOneByte, AT24CXX_ReadOneByte, ofNat_uint16_t]

theorem ofNat_next (a t : ℕ) :
    Fin.ofNat 256 (uint16_t (a + 1) + t) = Fin.ofNat 256 (a + (t + 1)) := by
  apply Fin.ext
  rw [Fin.val_ofNat, Fin.val_ofNat, uint16_t]
  omega

theorem ofNat_ne {t : ℕ} (ht : t < 255) (a : ℕ) :
    Fin.ofNat 256 a ≠ Fin.ofNat 256 (a + (t + 1)) := by
  intro heq
  have hval := congrArg Fin.val heq
  rw [Fin.val_ofNat, Fin.val_ofNat] at hval
  omega

/-! ### Lists of bytes -/

/-- A list is read from successive addresses. -/
theorem AT24CXX_Read_eq (a : ℕ) (device : Device) (n : ℕ) :
    AT24CXX_Read a device n = (List.range n).map fun t => AT24CXX_ReadOneByte (a + t) device := by
  induction n generalizing a with
  | zero => rfl
  | succ n ih =>
    rw [AT24CXX_Read, ih, List.range_succ_eq_map, List.map_cons, List.map_map, Nat.add_zero]
    congr 1
    refine List.map_congr_left fun t _ => ?_
    rw [Function.comp_apply, AT24CXX_ReadOneByte, AT24CXX_ReadOneByte, ofNat_next]

/-- Cells that are not addressed keep their bytes. -/
theorem AT24CXX_Write_of_ne {l : List UInt8} {i : Fin 256}
    (hi : ∀ t < l.length, i ≠ Fin.ofNat 256 (a + t)) : AT24CXX_Write a l device i = device i := by
  induction l generalizing a device with
  | nil => rfl
  | cons byte l ih =>
    rw [AT24CXX_Write, ih]
    · exact Function.update_of_ne (hi 0 (Nat.zero_lt_succ l.length)) _ _
    · intro t ht
      rw [ofNat_next]
      exact hi (t + 1) (Nat.succ_lt_succ ht)

/-- Each byte of a list is stored in its cell. -/
theorem AT24CXX_Write_apply {l : List UInt8} (hl : l.length ≤ 256) {t : ℕ} (ht : t < l.length) :
    AT24CXX_Write a l device (Fin.ofNat 256 (a + t)) = l[t] := by
  induction l generalizing a t device with
  | nil => exact absurd ht (Nat.not_lt_zero t)
  | cons byte l ih =>
    rw [List.length_cons] at hl ht
    rw [AT24CXX_Write]
    cases t with
    | zero =>
      -- the bytes behind it go to other cells
      rw [AT24CXX_Write_of_ne]
      · exact Function.update_self _ _ _
      · intro s hs
        rw [ofNat_next]
        exact ofNat_ne (by omega) a
    | succ t =>
      rw [← ofNat_next, ih (by omega) (by omega)]
      rfl

/-- What has been written is read back. -/
theorem AT24CXX_Read_Write {l : List UInt8} (hl : l.length ≤ 256) (a : ℕ) (device : Device) :
    AT24CXX_Read a (AT24CXX_Write a l device) l.length = l := by
  rw [AT24CXX_Read_eq]
  refine List.ext_getElem (by rw [List.length_map, List.length_range]) fun t ht hlt => ?_
  rw [List.getElem_map, List.getElem_range]
  exact AT24CXX_Write_apply hl hlt

/-- Bytes outside the range of a list are not changed. -/
theorem AT24CXX_Write_outside {l : List UInt8} (hl : a + l.length ≤ 256) {i : Fin 256}
    (hi : i < a ∨ a + l.length ≤ i) : AT24CXX_Write a l device i = device i := by
  refine AT24CXX_Write_of_ne fun t ht heq => ?_
  rw [heq, Fin.val_ofNat] at hi
  omega

/-! ### Numbers -/

theorem AT24CXX_Write_uint16_t (a : ℕ) (l : List UInt8) (device : Device) :
    AT24CXX_Write (uint16_t a) l device = AT24CXX_Write a l device := by
  cases l with
  | nil => rfl
  | cons byte l =>
    have hnext : uint16_t (uint16_t a + 1) = uint16_t (a + 1) := Nat.mod_add_mod a 65536 1
    rw [AT24CXX_Write, AT24CXX_Write, hnext, AT24CXX_WriteOneByte, AT24CXX_WriteOneByte,
      ofNat_uint16_t]

theorem byte_eq (v t : ℕ) : UInt8.ofNat (v >>> (8 * t) &&& 0xff) = UInt8.ofNat (v / 256 ^ t) := by
  apply UInt8.toNat_inj.mp
  rw [Nat.shiftRight_eq_div_pow, Nat.pow_mul, Nat.and_two_pow_sub_one_eq_mod _ 8,
    UInt8.toNat_ofNat', UInt8.toNat_ofNat', Nat.mod_mod]

theorem writeLen_eq (a v left t : ℕ) (device : Device) : writeLen a v left t device =
    AT24CXX_Write (a + t) ((List.range' t left).map fun s => UInt8.ofNat (v / 256 ^ s)) device := by
  induction left generalizing t device with
  | zero => rfl
  | succ left ih =>
    rw [writeLen, ih, List.range'_succ, List.map_cons, AT24CXX_Write, AT24CXX_Write_uint16_t,
      byte_eq, AT24CXX_WriteOneByte, AT24CXX_WriteOneByte, ofNat_uint16_t, Nat.add_assoc]

/-- A number is stored as the list of its bytes. -/
theorem AT24CXX_WriteLenByte_eq (a v n : ℕ) (device : Device) :
    AT24CXX_WriteLenByte a v n device = AT24CXX_Write a (bytes v n) device := by
  rw [AT24CXX_WriteLenByte, writeLen_eq, bytes, List.range_eq_range', Nat.add_zero]

theorem value_append_singleton (l : List UInt8) (b : UInt8) :
    value (l ++ [b]) = value l + 256 ^ l.length * b.toNat := by
  rw [value, List.map_append, Nat.ofDigits_append, List.length_map, value, List.map_singleton,
    Nat.ofDigits_singleton]

theorem value_bytes (v n : ℕ) : value (bytes v n) = v % 256 ^ n := by
  induction n with
  | zero => rw [Nat.pow_zero, Nat.mod_one]; rfl
  | succ n ih =>
    have hsucc : bytes v (n + 1) = bytes v n ++ [UInt8.ofNat (v / 256 ^ n)] := by
      rw [bytes, List.range_succ, List.map_append]
      rfl
    rw [hsucc, value_append_singleton, ih, Nat.mod_pow_succ, bytes, List.length_map,
      List.length_range, UInt8.toNat_ofNat']

theorem AT24CXX_Read_succ (a : ℕ) (device : Device) (n : ℕ) : AT24CXX_Read a device (n + 1) =
    AT24CXX_Read a device n ++ [AT24CXX_ReadOneByte (a + n) device] := by
  rw [AT24CXX_Read_eq, AT24CXX_Read_eq, List.range_succ, List.map_append, List.map_singleton]

theorem length_AT24CXX_Read (a : ℕ) (device : Device) (n : ℕ) :
    (AT24CXX_Read a device n).length = n := by
  rw [AT24CXX_Read_eq, List.length_map, List.length_range]

/-- The loop takes in the bytes from the highest address down, modulo 2^32. -/
theorem readLen_eq (a : ℕ) (device : Device) (left : ℕ) {temp : ℕ} (htemp : temp < 4294967296) :
    readLen a device left temp =
      uint32_t (temp * 256 ^ left + value (AT24CXX_Read a device left)) := by
  induction left generalizing temp with
  | zero => rw [readLen, Nat.pow_zero, Nat.mul_one, AT24CXX_Read, value, List.map_nil,
      Nat.ofDigits_nil, Nat.add_zero, uint32_t, Nat.mod_eq_of_lt htemp]
  | succ left ih =>
    rw [readLen, ih (Nat.mod_lt _ (by decide)), AT24CXX_Read_succ, value_append_singleton,
      length_AT24CXX_Read, AT24CXX_ReadOneByte_uint16_t]
    generalize (AT24CXX_ReadOneByte (a + left) device).toNat = byte
    have hshift : uint32_t (temp <<< 8) + byte ≡ temp * 256 + byte [MOD 4294967296] := by
      rw [Nat.shiftLeft_eq]
      exact (Nat.mod_modEq _ _).add_right byte
    have hstep := ((Nat.mod_modEq _ _).trans hshift).mul_right (256 ^ left)
    have hsum : temp * 256 ^ (left + 1) + (value (AT24CXX_Read a device left) + 256 ^ left * byte) =
        (temp * 256 + byte) * 256 ^ left + value (AT24CXX_Read a device left) := by
      ring
    rw [hsum]
    exact hstep.add_right (value (AT24CXX_Read a device left))

/-- A number is read as the value of the list of its bytes. -/
theorem AT24CXX_ReadLenByte_eq (a n : ℕ) (device : Device) :
    AT24CXX_ReadLenByte a n device = uint32_t (value (AT24CXX_Read a device n)) := by
  rw [AT24CXX_ReadLenByte, readLen_eq a device n (by decide), Nat.zero_mul, Nat.zero_add]

theorem length_bytes (v n : ℕ) : (bytes v n).length = n := by
  rw [bytes, List.length_map, List.length_range]

/-- The bytes of a number are stored from the least one on. -/
theorem AT24CXX_Read_WriteLenByte {n : ℕ} (hn : n ≤ 256) (a v : ℕ) (device : Device) :
    AT24CXX_Read a (AT24CXX_WriteLenByte a v n device) n = bytes v n := by
  have hread := AT24CXX_Read_Write ((length_bytes v n).trans_le hn) a device
  rwa [length_bytes, ← AT24CXX_WriteLenByte_eq] at hread

/-- A number of up to four bytes is read back. -/
theorem AT24CXX_ReadLenByte_WriteLenByte {n v : ℕ} (hn : n ≤ 4) (hv : v < 256 ^ n) (a : ℕ)
    (device : Device) : AT24CXX_ReadLenByte a n (AT24CXX_WriteLenByte a v n device) = v := by
  have hword : 256 ^ n ≤ 256 ^ 4 := Nat.pow_le_pow_right (by decide) hn
  rw [AT24CXX_ReadLenByte_eq, AT24CXX_Read_WriteLenByte (by omega), value_bytes,
    Nat.mod_eq_of_lt hv, uint32_t, Nat.mod_eq_of_lt (by omega)]

/-- Both interfaces give back what they have stored, from the same cells in the
same order. -/
theorem storage_round_trip (a : ℕ) (device : Device) :
    (∀ l : List UInt8, a + l.length ≤ 256 →
      AT24CXX_Read a (AT24CXX_Write a l device) l.length = l ∧
      ∀ i : Fin 256, i < a ∨ a + l.length ≤ i → AT24CXX_Write a l device i = device i) ∧
    (∀ n ≤ 4, ∀ v < 256 ^ n,
      AT24CXX_ReadLenByte a n (AT24CXX_WriteLenByte a v n device) = v ∧
      AT24CXX_Read a (AT24CXX_WriteLenByte a v n device) n = bytes v n ∧
      value (bytes v n) = v) := by
  constructor
  · intro l hl
    exact ⟨AT24CXX_Read_Write (by omega) a device, fun i hi => AT24CXX_Write_outside hl hi⟩
  · intro n hn v hv
    refine ⟨AT24CXX_ReadLenByte_WriteLenByte hn hv a device,
      AT24CXX_Read_WriteLenByte (by omega) a v device, ?_⟩
    rw [value_bytes, Nat.mod_eq_of_lt hv]

/-! ### Calibration -/

def SAVE_ADDR_BASE : ℕ := 40

/-- The bytes of the calibration, xfac being the first field. -/
structure Adjdata where
  xfac : List UInt8
  length_xfac : xfac.length = 14

/-- Store the calibration and mark it as valid. -/
def TP_Save_Adjdata (tp_dev : Adjdata) (device : Device) : Device :=
  AT24CXX_WriteOneByte (SAVE_ADDR_BASE + 14) 0x0A (AT24CXX_Write SAVE_ADDR_BASE tp_dev.xfac device)

/-- Load the calibration if it is marked as valid. -/
def TP_Get_Adjdata (device : Device) : Option Adjdata :=
  if AT24CXX_ReadOneByte (SAVE_ADDR_BASE + 14) device = 0x0A then
    some ⟨AT24CXX_Read SAVE_ADDR_BASE device 14, length_AT24CXX_Read _ _ _⟩
  else none

/-- A calibration that has been saved is the one that is loaded. -/
theorem TP_Get_Adjdata_Save (tp_dev : Adjdata) (device : Device) :
    TP_Get_Adjdata (TP_Save_Adjdata tp_dev device) = some tp_dev := by
  obtain ⟨xfac, hlength⟩ := tp_dev
  have hmark : AT24CXX_ReadOneByte (SAVE_ADDR_BASE + 14) (TP_Save_Adjdata ⟨xfac, hlength⟩ device) =
      0x0A := by
    rw [TP_Save_Adjdata, AT24CXX_WriteOneByte, AT24CXX_ReadOneByte, Function.update_self]
  have hbytes : AT24CXX_Read SAVE_ADDR_BASE (TP_Save_Adjdata ⟨xfac, hlength⟩ device) 14 = xfac := by
    have hread := AT24CXX_Read_Write (hlength.trans_le (by decide)) SAVE_ADDR_BASE device
    rw [hlength, AT24CXX_Read_eq] at hread
    rw [AT24CXX_Read_eq]
    refine Eq.trans (List.map_congr_left fun t ht => ?_) hread
    -- the mark is behind the bytes
    rw [TP_Save_Adjdata, AT24CXX_WriteOneByte, AT24CXX_ReadOneByte]
    refine Function.update_of_ne (fun heq => ?_) _ _
    have hval := congrArg Fin.val heq
    have hlt := List.mem_range.mp ht
    rw [Fin.val_ofNat, Fin.val_ofNat, SAVE_ADDR_BASE] at hval
    omega
  rw [TP_Get_Adjdata, if_pos hmark]
  simp only [hbytes]

end SmartHome.EepromStorage
