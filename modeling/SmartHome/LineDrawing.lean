import Mathlib.Data.Int.Order.Basic
import Mathlib.Data.List.Range
import SmartHome.ErrorSteps
import SmartHome.MachineWords

/-!
# Lines between two points of the display

A line is the list of the points it plots. The loop counts up to one more than
the longer of the two extents in a 16-bit object; its other variables are int
and stay far from their limits.
-/

namespace SmartHome.LineDrawing

open ErrorSteps MachineWords

structure Point where
  x : UInt16
  y : UInt16
  deriving DecidableEq, Repr

/-- The variables of the loop other than its counter. -/
structure Pen where
  xerr : ℤ
  yerr : ℤ
  uRow : ℤ
  uCol : ℤ

/-- Direction and extent of an axis. -/
def direction (delta : ℤ) : ℤ × ℤ :=
  if delta > 0 then (1, delta) else if delta = 0 then (0, delta) else (-1, -delta)

/-- An error beyond the distance moves the pen along its axis. -/
def advance (distance inc err pos : ℤ) : ℤ × ℤ :=
  if err > distance then (err - distance, pos + inc) else (err, pos)

/-- The body of the loop after the point has been plotted. -/
def Pen.next (s : Pen) (delta_x delta_y distance incx incy : ℤ) : Pen :=
  let x := advance distance incx (s.xerr + delta_x) s.uRow
  let y := advance distance incy (s.yerr + delta_y) s.uCol
  ⟨x.1, y.1, x.2, y.2⟩

/-- The loop; without fuel it has not come to its end. -/
def lineLoop (delta_x delta_y distance incx incy : ℤ) : ℕ → ℕ → Pen → Option (List Point)
  | 0, _, _ => none
  | fuel + 1, t, s =>
    if (t : ℤ) ≤ distance + 1 then
      (lineLoop delta_x delta_y distance incx incy fuel (uint16_t (t + 1))
        (s.next delta_x delta_y distance incx incy)).map
        (⟨UInt16.ofInt s.uRow, UInt16.ofInt s.uCol⟩ :: ·)
    else some []

/-- Draw a line. -/
def LCD_DrawLine (fuel : ℕ) (x1 y1 x2 y2 : UInt16) : Option (List Point) :=
  let (incx, delta_x) := direction ((x2.toNat : ℤ) - x1.toNat)
  let (incy, delta_y) := direction ((y2.toNat : ℤ) - y1.toNat)
  let distance := if delta_x > delta_y then delta_x else delta_y
  lineLoop delta_x delta_y distance incx incy fuel 0 ⟨0, 0, x1.toNat, y1.toNat⟩

/-- Extent of an axis. -/
def gap (a b : UInt16) : ℕ := ((b.toNat : ℤ) - a.toNat).natAbs

/-- Coordinate after some steps from one coordinate towards another. -/
def coord (a b : UInt16) (s : ℕ) : ℤ := a.toNat + ((b.toNat : ℤ) - a.toNat).sign * s

/-- A coordinate is between two others. -/
def Between (a b c : UInt16) : Prop := min a.toNat b.toNat ≤ c.toNat ∧ c.toNat ≤ max a.toNat b.toNat

/-- Along the first of two axes no coordinate is left out, and along the second
one every point is less than one pixel from the segment. -/
structure Follows (long short : Point → UInt16) (p1 p2 : Point) (points : List Point) : Prop where
  full : ∀ c : UInt16, Between (long p1) (long p2) c → ∃ p ∈ points, long p = c
  near : ∀ p ∈ points, |((short p).toNat : ℚ) - ((short p1).toNat +
    ((long p).toNat - (long p1).toNat) * ((short p2).toNat - (short p1).toNat) /
      ((long p2).toNat - (long p1).toNat))| < 1

/-- The points are those of a connected line from one point to another. -/
structure ExactLine (p1 p2 : Point) (points : List Point) : Prop where
  box : ∀ p ∈ points, Between p1.x p2.x p.x ∧ Between p1.y p2.y p.y
  first : points.head? = some p1
  last : points.getLast? = some p2
  connected : points.IsChain fun p q => gap p.x q.x ≤ 1 ∧ gap p.y q.y ≤ 1
  alongX : gap p1.y p2.y ≤ gap p1.x p2.x → Follows Point.x Point.y p1 p2 points
  alongY : gap p1.x p2.x ≤ gap p1.y p2.y → Follows Point.y Point.x p1 p2 points

/-! ### Coordinates -/

section Axis

variable {a b c : UInt16} {s : ℕ}

theorem direction_eq (a b : UInt16) :
    direction ((b.toNat : ℤ) - a.toNat) = (((b.toNat : ℤ) - a.toNat).sign, (gap a b : ℤ)) := by
  rw [direction, gap]
  split
  case isTrue h => rw [Int.sign_eq_one_of_pos h, Int.natAbs_of_nonneg h.le]
  case isFalse h =>
    split
    case isTrue hzero => rw [hzero]; rfl
    case isFalse hzero =>
      rw [Int.sign_eq_neg_one_of_neg (by omega), Int.ofNat_natAbs_of_nonpos (by omega)]

/-- The cases of a direction. -/
theorem coord_cases (a b : UInt16) (s : ℕ) :
    (a.toNat < b.toNat ∧ coord a b s = a.toNat + s) ∨
    (a.toNat = b.toNat ∧ coord a b s = a.toNat) ∨
    (b.toNat < a.toNat ∧ coord a b s = a.toNat - s) := by
  rw [coord]
  rcases lt_trichotomy a.toNat b.toNat with h | h | h
  · rw [Int.sign_eq_one_of_pos (by omega)]
    omega
  · rw [h, Int.sub_self, Int.sign_zero]
    omega
  · rw [Int.sign_eq_neg_one_of_neg (by omega)]
    omega

theorem coord_zero (a b : UInt16) : coord a b 0 = a.toNat := by
  rw [coord, Nat.cast_zero, mul_zero, add_zero]

theorem coord_gap (a b : UInt16) : coord a b (gap a b) = b.toNat := by
  have hcases := coord_cases a b (gap a b)
  rw [gap] at hcases ⊢
  omega

/-- No coordinate leaves the range between the two ends. -/
theorem coord_between (hs : s ≤ gap a b) :
    (min a.toNat b.toNat : ℤ) ≤ coord a b s ∧ coord a b s ≤ (max a.toNat b.toNat : ℤ) := by
  have hcases := coord_cases a b s
  rw [gap] at hs
  omega

theorem between_of_coord (hs : s ≤ gap a b) (hc : (c.toNat : ℤ) = coord a b s) :
    Between a b c := by
  have hbetween := coord_between hs
  rw [← hc] at hbetween
  exact ⟨by omega, by omega⟩

theorem coord_succ (a b : UInt16) (s : ℕ) : (coord a b (s + 1) - coord a b s).natAbs ≤ 1 := by
  have hcases := coord_cases a b s
  have hnext := coord_cases a b (s + 1)
  omega

theorem coord_add_one (a b : UInt16) (s : ℕ) :
    coord a b (s + 1) = coord a b s + ((b.toNat : ℤ) - a.toNat).sign := by
  rw [coord, coord, Nat.cast_succ, mul_add, mul_one, add_assoc]

/-- Every coordinate between the two ends is reached. -/
theorem exists_coord (hc : Between a b c) : ∃ s ≤ gap a b, coord a b s = c.toNat := by
  rw [Between] at hc
  refine ⟨gap a c, ?_, ?_⟩
  · rw [gap, gap]
    omega
  · have hcases := coord_cases a b (gap a c)
    rw [gap] at hcases ⊢
    omega

theorem toNat_ofInt {z : ℤ} (h0 : 0 ≤ z) (h1 : z < 65536) : ((UInt16.ofInt z).toNat : ℤ) = z := by
  rw [UInt16.ofInt, UInt16.toNat_ofNat']
  omega

end Axis

/-! ### The loop -/

section Loop

variable (x1 y1 x2 y2 : UInt16)

/-- The longer extent. -/
def span : ℕ := max (gap x1 x2) (gap y1 y2)

/-- Steps on an axis when t points have been plotted. -/
def stepsMade (a b : UInt16) (t : ℕ) : ℕ := steps (span x1 y1 x2 y2) (gap a b) t

/-- Error of an axis when t points have been plotted. -/
def axisError (a b : UInt16) (t : ℕ) : ℤ :=
  t * gap a b - span x1 y1 x2 y2 * stepsMade x1 y1 x2 y2 a b t

/-- The pen when t points have been plotted. -/
def penAt (t : ℕ) : Pen :=
  ⟨axisError x1 y1 x2 y2 x1 x2 t, axisError x1 y1 x2 y2 y1 y2 t,
    coord x1 x2 (stepsMade x1 y1 x2 y2 x1 x2 t), coord y1 y2 (stepsMade x1 y1 x2 y2 y1 y2 t)⟩

/-- The point plotted after t others. -/
def pointAt (t : ℕ) : Point :=
  ⟨UInt16.ofInt (coord x1 x2 (stepsMade x1 y1 x2 y2 x1 x2 t)),
    UInt16.ofInt (coord y1 y2 (stepsMade x1 y1 x2 y2 y1 y2 t))⟩

variable {x1 y1 x2 y2}

theorem gap_le_span_x : gap x1 x2 ≤ span x1 y1 x2 y2 := Nat.le_max_left _ _

theorem gap_le_span_y : gap y1 y2 ≤ span x1 y1 x2 y2 := Nat.le_max_right _ _

theorem advance_eq {a b : UInt16} (h : gap a b ≤ span x1 y1 x2 y2) (t : ℕ) :
    advance (span x1 y1 x2 y2) ((b.toNat : ℤ) - a.toNat).sign
      (axisError x1 y1 x2 y2 a b t + gap a b) (coord a b (stepsMade x1 y1 x2 y2 a b t)) =
    (axisError x1 y1 x2 y2 a b (t + 1), coord a b (stepsMade x1 y1 x2 y2 a b (t + 1))) := by
  have hcover := distance_mul_steps_le (span x1 y1 x2 y2) (gap a b) t
  have hsucc := steps_succ h t
  rw [advance, axisError, axisError, stepsMade, stepsMade]
  generalize span x1 y1 x2 y2 = distance at hcover hsucc ⊢
  generalize steps distance (gap a b) (t + 1) = after at hsucc ⊢
  generalize steps distance (gap a b) t = before at hcover hsucc ⊢
  by_cases hstep : distance < t * gap a b - distance * before + gap a b
  · rw [if_pos hstep] at hsucc
    rw [hsucc, if_pos (by omega), coord_add_one]
    ext
    · push_cast
      ring
    · rfl
  · rw [if_neg hstep] at hsucc
    rw [hsucc, if_neg (by omega)]
    ext
    · push_cast
      ring
    · rfl

theorem penAt_next (t : ℕ) :
    (penAt x1 y1 x2 y2 t).next (gap x1 x2) (gap y1 y2) (span x1 y1 x2 y2)
      ((x2.toNat : ℤ) - x1.toNat).sign ((y2.toNat : ℤ) - y1.toNat).sign =
    penAt x1 y1 x2 y2 (t + 1) := by
  rw [Pen.next, penAt]
  dsimp only
  rw [advance_eq gap_le_span_x, advance_eq gap_le_span_y, penAt]

/-- The rest of the loop plots the rest of the points. -/
theorem lineLoop_eq (h : span x1 y1 x2 y2 ≤ 65533) {left t fuel : ℕ}
    (ht : t + left = span x1 y1 x2 y2 + 2) (hfuel : left < fuel) :
    lineLoop (gap x1 x2) (gap y1 y2) (span x1 y1 x2 y2) ((x2.toNat : ℤ) - x1.toNat).sign
      ((y2.toNat : ℤ) - y1.toNat).sign fuel t (penAt x1 y1 x2 y2 t) =
    some ((List.range' t left).map (pointAt x1 y1 x2 y2)) := by
  induction left generalizing t fuel with
  | zero =>
    obtain ⟨fuel, rfl⟩ : ∃ f, fuel = f + 1 := ⟨fuel - 1, by omega⟩
    rw [lineLoop, if_neg (by omega)]
    rfl
  | succ left ih =>
    obtain ⟨fuel, rfl⟩ : ∃ f, fuel = f + 1 := ⟨fuel - 1, by omega⟩
    have hnext : uint16_t (t + 1) = t + 1 := Nat.mod_eq_of_lt (by omega)
    rw [lineLoop, if_pos (by omega), penAt_next, hnext, ih (by omega) (by omega)]
    rfl

theorem distance_eq : (if (gap x1 x2 : ℤ) > gap y1 y2 then (gap x1 x2 : ℤ) else gap y1 y2) =
    span x1 y1 x2 y2 := by
  rw [span]
  split
  · omega
  · omega

/-- The loop comes to its end. -/
theorem LCD_DrawLine_eq (h : span x1 y1 x2 y2 ≤ 65533) {fuel : ℕ}
    (hfuel : span x1 y1 x2 y2 + 2 < fuel) :
    LCD_DrawLine fuel x1 y1 x2 y2 =
      some ((List.range (span x1 y1 x2 y2 + 2)).map (pointAt x1 y1 x2 y2)) := by
  have hstart : penAt x1 y1 x2 y2 0 = ⟨0, 0, x1.toNat, y1.toNat⟩ := by
    simp only [penAt, axisError, stepsMade, steps_zero, coord_zero, Nat.cast_zero, zero_mul,
      mul_zero, sub_zero]
  have hloop := lineLoop_eq h (Nat.zero_add _) hfuel
  rw [hstart, ← List.range_eq_range'] at hloop
  rw [LCD_DrawLine, direction_eq, direction_eq]
  dsimp only
  rw [distance_eq, hloop]

/-- With a longer extent the counter never passes the end. -/
theorem LCD_DrawLine_endless (h : 65533 < span x1 y1 x2 y2) (fuel : ℕ) :
    LCD_DrawLine fuel x1 y1 x2 y2 = none := by
  have hloop : ∀ (dx dy incx incy : ℤ) (t : ℕ) (s : Pen), t < 65536 →
      lineLoop dx dy (span x1 y1 x2 y2) incx incy fuel t s = none := by
    intro dx dy incx incy
    induction fuel with
    | zero => exact fun t s _ => rfl
    | succ fuel ih =>
      intro t s ht
      rw [lineLoop, if_pos (by omega), ih _ _ (Nat.mod_lt _ (by decide))]
      rfl
  rw [LCD_DrawLine, direction_eq, direction_eq]
  dsimp only
  rw [distance_eq, hloop _ _ _ _ _ _ (by decide)]

/-! ### The points -/

theorem made_le {a b : UInt16} (h : gap a b ≤ span x1 y1 x2 y2) {t : ℕ}
    (ht : t < span x1 y1 x2 y2 + 2) : stepsMade x1 y1 x2 y2 a b t ≤ gap a b :=
  (steps_mono _ _ (Nat.le_of_lt_succ ht)).trans_eq (steps_last h)

/-- The coordinates of a plotted point are those of the pen. -/
theorem toNat_coord {a b : UInt16} {s : ℕ} (hs : s ≤ gap a b) :
    ((UInt16.ofInt (coord a b s)).toNat : ℤ) = coord a b s := by
  have hbetween := coord_between hs
  have ha := a.toNat_lt
  have hb := b.toNat_lt
  exact toNat_ofInt (by omega) (by omega)

theorem pointAt_x {t : ℕ} (ht : t < span x1 y1 x2 y2 + 2) :
    ((pointAt x1 y1 x2 y2 t).x.toNat : ℤ) = coord x1 x2 (stepsMade x1 y1 x2 y2 x1 x2 t) :=
  toNat_coord (made_le gap_le_span_x ht)

theorem pointAt_y {t : ℕ} (ht : t < span x1 y1 x2 y2 + 2) :
    ((pointAt x1 y1 x2 y2 t).y.toNat : ℤ) = coord y1 y2 (stepsMade x1 y1 x2 y2 y1 y2 t) :=
  toNat_coord (made_le gap_le_span_y ht)

/-- A direction cancels in the slope of a segment. -/
theorem slope_cancel (z : ℤ) (k w : ℚ) : z.sign * k * w / z = k * w / z.natAbs := by
  have hz : (z.sign : ℚ) * z.natAbs = z := by
    rw [← Int.cast_natCast, ← Int.cast_mul, Int.sign_mul_natAbs]
  rcases lt_trichotomy z 0 with h | h | h
  · rw [← hz, Int.sign_eq_neg_one_of_neg h]
    push_cast
    ring
  · rw [h, Int.natAbs_zero, Int.cast_zero, Nat.cast_zero, div_zero, div_zero]
  · rw [← hz, Int.sign_eq_one_of_pos h]
    push_cast
    ring

theorem abs_sign_le (z : ℤ) : |(z.sign : ℚ)| ≤ 1 := by
  rcases Int.sign_trichotomy z with h | h | h
  · rw [h, Int.cast_one, abs_one]
  · rw [h, Int.cast_zero, abs_zero]
    exact zero_le_one
  · rw [h, Int.cast_neg, Int.cast_one, abs_neg, abs_one]

/-- The coordinate of the shorter axis is close to the segment. -/
theorem coord_near {a1 a2 b1 b2 : UInt16} (h : gap b1 b2 ≤ gap a1 a2) {t : ℕ}
    (ht : t < gap a1 a2 + 2) :
    |(coord b1 b2 (steps (gap a1 a2) (gap b1 b2) t) : ℚ) - (b1.toNat +
      (coord a1 a2 (steps (gap a1 a2) (gap a1 a2) t) - a1.toNat) * (b2.toNat - b1.toNat) /
        (a2.toNat - a1.toNat))| < 1 := by
  cases t with
  | zero =>
    rw [steps_zero, steps_zero, coord_zero, coord_zero, Int.cast_natCast, Int.cast_natCast,
      sub_self, zero_mul, zero_div, add_zero, sub_self, abs_zero]
    exact zero_lt_one
  | succ k =>
    have hnear := steps_near h k
    rw [steps_distance (Nat.le_of_lt_succ (Nat.lt_of_succ_lt_succ ht)), coord, coord]
    generalize steps (gap a1 a2) (gap b1 b2) (k + 1) = s at hnear ⊢
    have ha : ((a2.toNat : ℚ) - a1.toNat) = ((a2.toNat : ℤ) - a1.toNat : ℤ) := by push_cast; rfl
    have hb : ((b2.toNat : ℚ) - b1.toNat) = ((b2.toNat : ℤ) - b1.toNat : ℤ) := by push_cast; rfl
    rw [gap, gap] at hnear
    push_cast
    rw [ha, hb]
    generalize (a2.toNat : ℤ) - a1.toNat = da at hnear ⊢
    generalize (b2.toNat : ℤ) - b1.toNat = db at hnear ⊢
    have hdb : (db : ℚ) = db.sign * db.natAbs := by
      rw [← Int.cast_natCast, ← Int.cast_mul, Int.sign_mul_natAbs]
    have herror : (b1.toNat + db.sign * s : ℚ) -
        (b1.toNat + (a1.toNat + da.sign * k - a1.toNat) * db / da) =
        db.sign * (s - k * db.natAbs / da.natAbs) := by
      rw [add_sub_cancel_left, slope_cancel, hdb]
      ring
    rw [herror, abs_mul]
    exact (mul_le_of_le_one_left (abs_nonneg _) (abs_sign_le db)).trans_lt hnear

/-- The points of an axis that is not the shorter one. -/
theorem follows {long short : Point → UInt16} {p1 p2 : Point} {point : ℕ → Point} {distance : ℕ}
    (hlong : gap (long p1) (long p2) = distance) (hshort : gap (short p1) (short p2) ≤ distance)
    (hpointLong : ∀ t < distance + 2, ((long (point t)).toNat : ℤ) =
      coord (long p1) (long p2) (steps distance (gap (long p1) (long p2)) t))
    (hpointShort : ∀ t < distance + 2, ((short (point t)).toNat : ℤ) =
      coord (short p1) (short p2) (steps distance (gap (short p1) (short p2)) t)) :
    Follows long short p1 p2 ((List.range (distance + 2)).map point) := by
  subst hlong
  constructor
  · intro c hc
    obtain ⟨s, hs, hcoord⟩ := exists_coord hc
    have hpoint := hpointLong (s + 1) (by omega)
    rw [steps_distance hs, hcoord] at hpoint
    refine ⟨point (s + 1), List.mem_map_of_mem (List.mem_range.mpr (by omega)), ?_⟩
    exact UInt16.toNat_inj.mp (Int.ofNat_inj.mp hpoint)
  · intro p hp
    obtain ⟨t, ht, rfl⟩ := List.mem_map.mp hp
    have ht := List.mem_range.mp ht
    have hnear := coord_near hshort ht
    rw [← hpointLong t ht, ← hpointShort t ht, Int.cast_natCast, Int.cast_natCast] at hnear
    exact hnear

theorem ofInt_toNat (a : UInt16) : UInt16.ofInt a.toNat = a :=
  UInt16.toNat_inj.mp (Int.ofNat_inj.mp
    (toNat_ofInt (Int.natCast_nonneg _) (Int.ofNat_lt.mpr a.toNat_lt)))

theorem pointAt_zero : pointAt x1 y1 x2 y2 0 = ⟨x1, y1⟩ := by
  rw [pointAt, stepsMade, stepsMade, steps_zero, steps_zero, coord_zero, coord_zero, ofInt_toNat,
    ofInt_toNat]

theorem pointAt_last : pointAt x1 y1 x2 y2 (span x1 y1 x2 y2 + 1) = ⟨x2, y2⟩ := by
  rw [pointAt, stepsMade, stepsMade, steps_last gap_le_span_x, steps_last gap_le_span_y,
    coord_gap, coord_gap, ofInt_toNat, ofInt_toNat]

/-- Successive coordinates are neighbours. -/
theorem gap_le_one {a b c d : UInt16} (h : gap a b ≤ span x1 y1 x2 y2) {t : ℕ}
    (hc : (c.toNat : ℤ) = coord a b (stepsMade x1 y1 x2 y2 a b t))
    (hd : (d.toNat : ℤ) = coord a b (stepsMade x1 y1 x2 y2 a b (t + 1))) : gap c d ≤ 1 := by
  have hstep : stepsMade x1 y1 x2 y2 a b t ≤ stepsMade x1 y1 x2 y2 a b (t + 1) ∧
      stepsMade x1 y1 x2 y2 a b (t + 1) ≤ stepsMade x1 y1 x2 y2 a b t + 1 := steps_succ_le h t
  rw [gap, hc, hd]
  by_cases hsame : stepsMade x1 y1 x2 y2 a b (t + 1) = stepsMade x1 y1 x2 y2 a b t
  · rw [hsame, Int.sub_self]
    exact Nat.zero_le 1
  · rw [show stepsMade x1 y1 x2 y2 a b (t + 1) = stepsMade x1 y1 x2 y2 a b t + 1 by omega]
    exact coord_succ a b _

/-- Lines between points whose coordinates differ by at most 65533 are exact. -/
theorem line_exact (hx : gap x1 x2 ≤ 65533) (hy : gap y1 y2 ≤ 65533) :
    ∃ points, (∃ n, ∀ fuel > n, LCD_DrawLine fuel x1 y1 x2 y2 = some points) ∧
      ExactLine ⟨x1, y1⟩ ⟨x2, y2⟩ points := by
  refine ⟨(List.range (span x1 y1 x2 y2 + 2)).map (pointAt x1 y1 x2 y2),
    ⟨span x1 y1 x2 y2 + 2, fun fuel => LCD_DrawLine_eq (max_le hx hy)⟩, ?_⟩
  constructor
  case box =>
    intro p hp
    obtain ⟨t, ht, rfl⟩ := List.mem_map.mp hp
    have ht := List.mem_range.mp ht
    exact ⟨between_of_coord (made_le gap_le_span_x ht) (pointAt_x ht),
      between_of_coord (made_le gap_le_span_y ht) (pointAt_y ht)⟩
  case first =>
    rw [List.range_succ_eq_map, List.map_cons, List.head?_cons, pointAt_zero]
  case last =>
    rw [List.range_succ, List.map_append, List.map_singleton, List.getLast?_concat, pointAt_last]
  case connected =>
    refine (List.isChain_map _).mpr ((List.isChain_range _ _).mpr fun t ht => ?_)
    exact ⟨gap_le_one gap_le_span_x (pointAt_x (by omega)) (pointAt_x (by omega)),
      gap_le_one gap_le_span_y (pointAt_y (by omega)) (pointAt_y (by omega))⟩
  case alongX =>
    intro h
    have hspan : gap x1 x2 = span x1 y1 x2 y2 := (max_eq_left h).symm
    exact follows hspan gap_le_span_y (fun t ht => pointAt_x ht) fun t ht => pointAt_y ht
  case alongY =>
    intro h
    have hspan : gap y1 y2 = span x1 y1 x2 y2 := (max_eq_right h).symm
    exact follows hspan gap_le_span_x (fun t ht => pointAt_y ht) fun t ht => pointAt_x ht

/-- A line to the left and upwards. -/
theorem line_exact_descending : ∃ points,
    (∃ n, ∀ fuel > n, LCD_DrawLine fuel 319 20 300 13 = some points) ∧
      ExactLine ⟨319, 20⟩ ⟨300, 13⟩ points := line_exact (by decide) (by decide)

end Loop

example : LCD_DrawLine 10 5 0 2 1 = some [⟨5, 0⟩, ⟨5, 0⟩, ⟨4, 0⟩, ⟨3, 0⟩, ⟨2, 1⟩] := by decide

end SmartHome.LineDrawing
