import Mathlib.Data.Fin.VecNotation
import Mathlib.Data.Nat.Init
import Mathlib.Tactic.Choose
import SmartHome.MachineWords
import SmartHome.ShiftWindows

/-!
# The answer of the DHT11 sensor

The driver samples the data line in loops that give up after 100 rounds. The
line is the sequence of its samples, in the order in which they are taken, and
every function returns the number of samples taken so far. An answer is what
the bits that are read spell; a sensor that is not found has no answer.
-/

namespace SmartHome.Dht11Frames

open MachineWords ShiftWindows

/-- Sample the line while it has a level, with the rounds left and at most 100 of them. -/
def waitWhile (level : Bool) (DHT11_DQ_IN : ℕ → Bool) : ℕ → ℕ → ℕ × ℕ
  | 0, n => (0, n + 1)
  | left + 1, n =>
    if DHT11_DQ_IN n = level then waitWhile level DHT11_DQ_IN left (n + 1) else (left + 1, n + 1)

/-- Wait for the response of the sensor; 1 without one. -/
def DHT11_Check (DHT11_DQ_IN : ℕ → Bool) (n : ℕ) : ℕ × ℕ :=
  let (left, n) := waitWhile true DHT11_DQ_IN 100 n
  if left = 0 then (1, n)
  else
    let (left, n) := waitWhile false DHT11_DQ_IN 100 n
    if left = 0 then (1, n) else (0, n)

/-- Wait for the pulse of a bit and sample it. -/
def DHT11_Read_Bit (DHT11_DQ_IN : ℕ → Bool) (n : ℕ) : ℕ × ℕ :=
  let (_, n) := waitWhile true DHT11_DQ_IN 100 n
  let (_, n) := waitWhile false DHT11_DQ_IN 100 n
  if DHT11_DQ_IN n then (1, n + 1) else (0, n + 1)

/-- The loop over the bits of a byte, with the number of bits left. -/
def readBits (DHT11_DQ_IN : ℕ → Bool) : ℕ → ℕ → ℕ → ℕ × ℕ
  | 0, dat, n => (dat, n)
  | left + 1, dat, n =>
    let dat := uint8_t (dat <<< 1)
    let (bit, n) := DHT11_Read_Bit DHT11_DQ_IN n
    readBits DHT11_DQ_IN left (dat ||| bit) n

def DHT11_Read_Byte (DHT11_DQ_IN : ℕ → Bool) (n : ℕ) : ℕ × ℕ := readBits DHT11_DQ_IN 8 0 n

/-- What a call leaves in the two variables of its caller. -/
structure Outputs where
  temp : ℕ
  humi : ℕ
  deriving DecidableEq, Repr

/-- Read the sensor; the result is 0 or 1. -/
def DHT11_Read_Data (DHT11_DQ_IN : ℕ → Bool) (out : Outputs) : ℕ × Outputs :=
  let check := DHT11_Check DHT11_DQ_IN 0
  if check.1 = 0 then
    let buf0 := DHT11_Read_Byte DHT11_DQ_IN check.2
    let buf1 := DHT11_Read_Byte DHT11_DQ_IN buf0.2
    let buf2 := DHT11_Read_Byte DHT11_DQ_IN buf1.2
    let buf3 := DHT11_Read_Byte DHT11_DQ_IN buf2.2
    let buf4 := DHT11_Read_Byte DHT11_DQ_IN buf3.2
    if buf0.1 + buf1.1 + buf2.1 + buf3.1 = buf4.1 then (0, ⟨buf2.1, buf0.1⟩) else (0, out)
  else (1, out)

/-- Samples taken when a number of bits has been read. -/
def afterBits (DHT11_DQ_IN : ℕ → Bool) (n : ℕ) : ℕ → ℕ
  | 0 => n
  | i + 1 => (DHT11_Read_Bit DHT11_DQ_IN (afterBits DHT11_DQ_IN n i)).2

/-- The answer of a sensor. -/
abbrev Answer := Fin 5 → UInt8

/-- The sensor is present and the bits that are read are those of its answer,
most significant bit first, or it is not found. -/
def Sends (DHT11_DQ_IN : ℕ → Bool) : Option Answer → Prop
  | none => (DHT11_Check DHT11_DQ_IN 0).1 = 1
  | some b => ∃ n, DHT11_Check DHT11_DQ_IN 0 = (0, n) ∧ ∀ (k : Fin 5) (i : ℕ), i < 8 →
      (DHT11_Read_Bit DHT11_DQ_IN (afterBits DHT11_DQ_IN n (8 * k + i))).1 =
        bitAt 8 (b k).toNat i

/-- Sum of the first four bytes. -/
def total (b : Answer) : ℕ := (b 0).toNat + (b 1).toNat + (b 2).toNat + (b 3).toNat

/-- The result an answer calls for. -/
def expected (out : Outputs) : Option Answer → ℕ × Outputs
  | none => (1, out)
  | some b => if (b 4).toNat = total b % 256 then (0, ⟨(b 2).toNat, (b 0).toNat⟩) else (1, out)

/-- The answer is accepted and stored exactly by its checksum, whatever the
variables of the caller hold. -/
def ReadsExactly (DHT11_DQ_IN : ℕ → Bool) (answer : Option Answer) : Prop :=
  ∀ out, DHT11_Read_Data DHT11_DQ_IN out = expected out answer

/-- The samples of a line on which every level lasts for one sample: the
response, and three samples for every bit. -/
def signal (b : Answer) : ℕ → Bool
  | 0 => false
  | 1 => true
  | j + 2 =>
    if j % 3 = 0 then false
    else if j % 3 = 1 then true
    else bitAt 8 (b (Fin.ofNat 5 (j / 24))).toNat (j / 3 % 8) = 1

/-! ### Bits and bytes -/

theorem DHT11_Read_Bit_lt (DHT11_DQ_IN : ℕ → Bool) (n : ℕ) :
    (DHT11_Read_Bit DHT11_DQ_IN n).1 < 2 := by
  rw [DHT11_Read_Bit]
  dsimp only
  split
  · exact Nat.one_lt_two
  · exact Nat.zero_lt_two

/-- Shifting and setting the lowest bit moves a bit into the byte. -/
theorem shift_or_eq_push (dat : ℕ) {bit : ℕ} (h : bit < 2) :
    uint8_t (dat <<< 1) ||| bit = push 8 dat bit := by
  have hhalf : uint8_t (dat <<< 1) = 2 ^ 1 * (dat % 128) := by
    rw [Nat.shiftLeft_eq, uint8_t]
    omega
  rw [hhalf, ← Nat.two_pow_add_eq_or_of_lt h, push]
  omega

theorem afterBits_add (DHT11_DQ_IN : ℕ → Bool) (n i j : ℕ) :
    afterBits DHT11_DQ_IN n (i + j) = afterBits DHT11_DQ_IN (afterBits DHT11_DQ_IN n i) j := by
  induction j with
  | zero => rfl
  | succ j ih => rw [← Nat.add_assoc, afterBits, afterBits, ih]

/-- A byte is read as the word whose bits come, most significant bit first. -/
theorem DHT11_Read_Byte_eq {DHT11_DQ_IN : ℕ → Bool} {n : ℕ} {b : UInt8}
    (h : ∀ i < 8, (DHT11_Read_Bit DHT11_DQ_IN (afterBits DHT11_DQ_IN n i)).1 =
      bitAt 8 b.toNat i) :
    DHT11_Read_Byte DHT11_DQ_IN n = (b.toNat, afterBits DHT11_DQ_IN n 8) := by
  have hstep : ∀ left < 8, ∀ dat,
      readBits DHT11_DQ_IN (left + 1) dat (afterBits DHT11_DQ_IN n (8 - (left + 1))) =
        readBits DHT11_DQ_IN left (push 8 dat (bitAt 8 b.toNat (8 - (left + 1))))
          (afterBits DHT11_DQ_IN n (8 - left)) := by
    intro left hleft dat
    have hnext : 8 - left = 8 - (left + 1) + 1 := by omega
    have hbit := h (8 - (left + 1)) (by omega)
    have hlt := DHT11_Read_Bit_lt DHT11_DQ_IN (afterBits DHT11_DQ_IN n (8 - (left + 1)))
    rw [readBits, hnext, afterBits, ← hbit, ← shift_or_eq_push dat hlt]
  have hbyte := loop_reads_word
    (fun left dat => readBits DHT11_DQ_IN left dat (afterBits DHT11_DQ_IN n (8 - left)))
    b.toNat_lt hstep
  exact hbyte

/-! ### Answers of a line -/

theorem DHT11_Check_lt (DHT11_DQ_IN : ℕ → Bool) (n : ℕ) : (DHT11_Check DHT11_DQ_IN n).1 < 2 := by
  rw [DHT11_Check]
  dsimp only
  split
  · exact Nat.one_lt_two
  · split
    · exact Nat.one_lt_two
    · exact Nat.zero_lt_two

/-- A line that has left the level is sampled once. -/
theorem waitWhile_of_ne {level : Bool} {DHT11_DQ_IN : ℕ → Bool} {n : ℕ}
    (h : DHT11_DQ_IN n ≠ level) (left : ℕ) :
    waitWhile level DHT11_DQ_IN (left + 1) n = (left + 1, n + 1) := by
  rw [waitWhile, if_neg h]

/-- A short low level and a short high level are followed by the sample of the bit. -/
theorem DHT11_Read_Bit_pulse {DHT11_DQ_IN : ℕ → Bool} {n bit : ℕ} (hlow : DHT11_DQ_IN n = false)
    (hhigh : DHT11_DQ_IN (n + 1) = true) (hbit : bit < 2)
    (hvalue : DHT11_DQ_IN (n + 2) = decide (bit = 1)) :
    DHT11_Read_Bit DHT11_DQ_IN n = (bit, n + 3) := by
  have hfirst := waitWhile_of_ne (hlow.trans_ne Bool.false_ne_true) 99
  have hsecond := waitWhile_of_ne (hhigh.trans_ne Bool.false_ne_true.symm) 99
  rw [DHT11_Read_Bit, hfirst]
  dsimp only
  rw [hsecond]
  dsimp only
  rw [hvalue]
  cases Nat.lt_succ_iff_lt_or_eq.mp hbit with
  | inl hzero =>
    rw [Nat.lt_one_iff.mp hzero]
    exact if_neg Bool.false_ne_true
  | inr hone =>
    rw [hone]
    exact if_pos rfl

/-- Every answer is sent on some line. -/
theorem sends_signal (b : Answer) : Sends (signal b) (some b) := by
  have hcheck : DHT11_Check (signal b) 0 = (0, 2) := by
    rw [DHT11_Check, waitWhile_of_ne (show signal b 0 ≠ true from Bool.false_ne_true) 99]
    dsimp only
    rw [if_neg (by decide),
      waitWhile_of_ne (show signal b 1 ≠ false from Bool.false_ne_true.symm) 99]
    dsimp only
    rw [if_neg (by decide)]
  have hpulse : ∀ m, DHT11_Read_Bit (signal b) (2 + 3 * m) =
      (bitAt 8 (b (Fin.ofNat 5 (m / 8))).toNat (m % 8), 2 + 3 * m + 3) := by
    intro m
    have hlow : signal b (3 * m + 2) = false := by
      rw [signal, if_pos (by omega)]
    have hhigh : signal b (3 * m + 1 + 2) = true := by
      rw [signal, if_neg (by omega), if_pos (by omega)]
    have hvalue : signal b (3 * m + 2 + 2) =
        decide (bitAt 8 (b (Fin.ofNat 5 (m / 8))).toNat (m % 8) = 1) := by
      rw [signal, if_neg (by omega), if_neg (by omega), show (3 * m + 2) / 24 = m / 8 by omega,
        show (3 * m + 2) / 3 % 8 = m % 8 by omega]
    rw [Nat.add_comm 2]
    exact DHT11_Read_Bit_pulse hlow hhigh (Nat.mod_lt _ Nat.two_pos) hvalue
  have hafter : ∀ m, afterBits (signal b) 2 m = 2 + 3 * m := by
    intro m
    induction m with
    | zero => rfl
    | succ m ih => rw [afterBits, ih, hpulse]
                   omega
  refine ⟨2, hcheck, fun k i hi => ?_⟩
  rw [hafter, hpulse, show (8 * k.val + i) / 8 = k.val by omega,
    show (8 * k.val + i) % 8 = i by omega, Fin.ofNat_val_eq_self]

theorem exists_bitAt {f : ℕ → ℕ} (h : ∀ i, f i < 2) :
    ∃ w : UInt8, ∀ i < 8, f i = bitAt 8 w.toNat i := by
  refine ⟨UInt8.ofNat (Nat.ofBits fun j : Fin 8 => decide (f (7 - j) = 1)), fun i hi => ?_⟩
  have hlt := Nat.ofBits_lt_two_pow fun j : Fin 8 => decide (f (7 - j) = 1)
  have hbit := Nat.testBit_ofBits_lt (fun j : Fin 8 => decide (f (7 - j) = 1)) (7 - i) (by omega)
  have hi2 := h i
  rw [Nat.testBit_eq_decide_div_mod_eq, decide_eq_decide, show 7 - (7 - i) = i by omega] at hbit
  rw [bitAt, UInt8.toNat_ofNat_of_lt' hlt, Nat.add_one_sub_one]
  omega

/-- Every line has an answer. -/
theorem exists_sends (DHT11_DQ_IN : ℕ → Bool) : ∃ answer, Sends DHT11_DQ_IN answer := by
  cases hcheck : DHT11_Check DHT11_DQ_IN 0 with
  | mk absent n =>
    have hlt := DHT11_Check_lt DHT11_DQ_IN 0
    rw [hcheck] at hlt
    by_cases hpresent : absent = 0
    · choose b hb using fun k : Fin 5 => exists_bitAt fun i =>
        DHT11_Read_Bit_lt DHT11_DQ_IN (afterBits DHT11_DQ_IN n (8 * k + i))
      exact ⟨some b, n, hpresent ▸ hcheck, hb⟩
    · have habsent : absent = 1 := by omega
      exact ⟨none, (congrArg Prod.fst hcheck).trans habsent⟩

/-! ### Whole answers -/

/-- A sensor that is not found is reported, and nothing is stored. -/
theorem DHT11_Read_Data_absent {DHT11_DQ_IN : ℕ → Bool} (h : Sends DHT11_DQ_IN none)
    (out : Outputs) : DHT11_Read_Data DHT11_DQ_IN out = (1, out) := by
  rw [Sends] at h
  rw [DHT11_Read_Data, if_neg]
  rw [h]
  exact Nat.one_ne_zero

/-- The answer of a present sensor is stored exactly if the sum of its first
four bytes is the last one; 0 is returned in any case. -/
theorem DHT11_Read_Data_present {DHT11_DQ_IN : ℕ → Bool} {b : Answer}
    (h : Sends DHT11_DQ_IN (some b)) (out : Outputs) : DHT11_Read_Data DHT11_DQ_IN out =
      (0, if total b = (b 4).toNat then ⟨(b 2).toNat, (b 0).toNat⟩ else out) := by
  obtain ⟨n, hcheck, hbits⟩ := h
  have hbyte : ∀ k : Fin 5, DHT11_Read_Byte DHT11_DQ_IN (afterBits DHT11_DQ_IN n (8 * k)) =
      ((b k).toNat, afterBits DHT11_DQ_IN n (8 * k + 8)) := by
    intro k
    rw [afterBits_add]
    refine DHT11_Read_Byte_eq fun i hi => ?_
    rw [← afterBits_add]
    exact hbits k i hi
  have hbuf0 : DHT11_Read_Byte DHT11_DQ_IN n = ((b 0).toNat, afterBits DHT11_DQ_IN n 8) := hbyte 0
  have hbuf1 : DHT11_Read_Byte DHT11_DQ_IN (afterBits DHT11_DQ_IN n 8) =
      ((b 1).toNat, afterBits DHT11_DQ_IN n 16) := hbyte 1
  have hbuf2 : DHT11_Read_Byte DHT11_DQ_IN (afterBits DHT11_DQ_IN n 16) =
      ((b 2).toNat, afterBits DHT11_DQ_IN n 24) := hbyte 2
  have hbuf3 : DHT11_Read_Byte DHT11_DQ_IN (afterBits DHT11_DQ_IN n 24) =
      ((b 3).toNat, afterBits DHT11_DQ_IN n 32) := hbyte 3
  have hbuf4 : DHT11_Read_Byte DHT11_DQ_IN (afterBits DHT11_DQ_IN n 32) =
      ((b 4).toNat, afterBits DHT11_DQ_IN n 40) := hbyte 4
  rw [DHT11_Read_Data, hcheck, total]
  simp only [hbuf0, hbuf1, hbuf2, hbuf3, hbuf4]
  rw [if_pos trivial]
  exact (apply_ite (Prod.mk 0) _ _ _).symm

/-- Whatever comes on the line, only an answer with a matching checksum changes
what is stored. -/
theorem stores_checked (DHT11_DQ_IN : ℕ → Bool) (out : Outputs) :
    (DHT11_Read_Data DHT11_DQ_IN out).2 = out ∨
      ∃ b, Sends DHT11_DQ_IN (some b) ∧ total b = (b 4).toNat ∧
        DHT11_Read_Data DHT11_DQ_IN out = (0, ⟨(b 2).toNat, (b 0).toNat⟩) := by
  obtain ⟨answer, hanswer⟩ := exists_sends DHT11_DQ_IN
  cases answer with
  | none =>
    left
    rw [DHT11_Read_Data_absent hanswer]
  | some b =>
    rw [DHT11_Read_Data_present hanswer]
    by_cases hsum : total b = (b 4).toNat
    · right
      exact ⟨b, hanswer, hsum, by rw [if_pos hsum]⟩
    · left
      rw [if_neg hsum]

/-- An answer is handled by its checksum exactly if its first four bytes add up
to the last one without a carry. -/
theorem readsExactly_iff {DHT11_DQ_IN : ℕ → Bool} {answer : Option Answer}
    (h : Sends DHT11_DQ_IN answer) :
    ReadsExactly DHT11_DQ_IN answer ↔ ∀ b ∈ answer, total b = (b 4).toNat := by
  cases answer with
  | none =>
    constructor
    · intro _ b hb
      exact absurd hb (Option.not_mem_none b)
    · intro _ out
      exact DHT11_Read_Data_absent h out
  | some b =>
    have hlast : (b 4).toNat < 256 := (b 4).toNat_lt
    constructor
    · intro hreads b' hb
      rw [← Option.mem_some.mp hb]
      -- the variables of the caller differ from what the answer says
      have hcall := hreads ⟨(b 2).toNat + 1, (b 0).toNat⟩
      rw [DHT11_Read_Data_present h, expected] at hcall
      by_contra hsum
      rw [if_neg hsum] at hcall
      split at hcall
      · have htemp := congrArg (fun r => r.2.temp) hcall
        exact Nat.succ_ne_self _ htemp
      · exact Nat.zero_ne_one (congrArg Prod.fst hcall)
    · intro hsum out
      have hsum := hsum b rfl
      rw [DHT11_Read_Data_present h, expected, if_pos hsum, if_pos]
      rw [hsum, Nat.mod_eq_of_lt hlast]

/-- 45 percent at 23 degrees, with the checksum 68. -/
def intact : Answer := ![45, 0, 23, 0, 68]

theorem readsExactly_intact : ReadsExactly (signal intact) (some intact) :=
  (readsExactly_iff (sends_signal intact)).mpr fun _ hb => Option.mem_some.mp hb ▸ rfl

/-- The same answer with one bit of its checksum lost. -/
def corrupted : Answer := ![45, 0, 23, 0, 64]

/-- The result of the lost bit is 0, as for an intact answer. -/
theorem corrupted_not_refused : Sends (signal corrupted) (some corrupted) ∧
    DHT11_Read_Data (signal corrupted) ⟨0, 0⟩ = (0, ⟨0, 0⟩) ∧
    expected ⟨0, 0⟩ (some corrupted) = (1, ⟨0, 0⟩) ∧
    ¬ ReadsExactly (signal corrupted) (some corrupted) := by
  have hcall : DHT11_Read_Data (signal corrupted) ⟨0, 0⟩ = (0, ⟨0, 0⟩) :=
    DHT11_Read_Data_present (sends_signal corrupted) ⟨0, 0⟩
  have hexpected : expected ⟨0, 0⟩ (some corrupted) = (1, ⟨0, 0⟩) := rfl
  refine ⟨sends_signal corrupted, hcall, hexpected, fun hreads => ?_⟩
  have hequal := hreads ⟨0, 0⟩
  rw [hcall, hexpected] at hequal
  exact Nat.zero_ne_one (congrArg Prod.fst hequal)

end SmartHome.Dht11Frames
