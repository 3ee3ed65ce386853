import Mathlib.Data.List.TakeWhile
import Mathlib.Tactic.Ring
import SmartHome.NumberText

/-!
# Texts in a region of the display

The text of a call is followed by the characters it draws. In a region a glyph
belongs to the right of the last one as long as all of it is inside there, and
to the start of the next line otherwise; the region is full when the next line
does not hold it either. Both ends of a region belong to it.
-/

namespace SmartHome.TextBoxes

open MachineWords NumberText

/-- The loop over the characters; width and height are the last column and row here. -/
def showString (x0 width height size : ℕ) : List UInt8 → ℕ → ℕ → List ShowChar
  | [], _, _ => []
  | c :: p, x, y =>
    if c ≤ 0x7E ∧ 0x20 ≤ c then
      let column := if x > width then x0 else x
      let row := if x > width then uint16_t (y + size) else y
      if row > height then []
      else ⟨column, row, c, size, 0⟩ ::
        showString x0 width height size p (uint16_t (column + size / 2)) row
    else []

/-- Show the printable characters at the beginning of a text. -/
def LCD_ShowString (x y width height : UInt16) (size : ℕ) (p : List UInt8) : List ShowChar :=
  showString (uint8_t x.toNat) (uint16_t (width.toNat + x.toNat))
    (uint16_t (height.toNat + y.toNat)) size p x.toNat y.toNat

/-- The arguments that say where a text belongs. -/
structure Region where
  x : ℕ
  y : ℕ
  width : ℕ
  height : ℕ

/-- All columns and rows of a glyph are inside. -/
def Region.Holds (b : Region) (size u v : ℕ) : Prop :=
  (b.x ≤ u ∧ u + size / 2 ≤ b.x + b.width + 1) ∧ b.y ≤ v ∧ v + size ≤ b.y + b.height + 1

instance (b : Region) (size u v : ℕ) : Decidable (b.Holds size u v) :=
  inferInstanceAs (Decidable ((_ ∧ _) ∧ _ ∧ _))

/-- A text from a position on, until it ends or the region is full. -/
def Region.flow (b : Region) (size : ℕ) : List UInt8 → ℕ → ℕ → List ShowChar
  | [], _, _ => []
  | c :: text, u, v =>
    if b.Holds size u v then ⟨u, v, c, size, 0⟩ :: b.flow size text (u + size / 2) v
    else if b.Holds size b.x (v + size) then
      ⟨b.x, v + size, c, size, 0⟩ :: b.flow size text (b.x + size / 2) (v + size)
    else []

def region (x y width height : UInt16) : Region := ⟨x.toNat, y.toNat, width.toNat, height.toNat⟩

/-- The printable beginning of a text. -/
def printable (p : List UInt8) : List UInt8 := p.takeWhile fun c => c ≤ 0x7E ∧ 0x20 ≤ c

/-- The printable beginning of the text is drawn in its region. -/
def StaysInBox (x y width height : UInt16) (size : ℕ) (p : List UInt8) : Prop :=
  LCD_ShowString x y width height size p =
    (region x y width height).flow size (printable p) x.toNat y.toNat

/-- Glyphs in a line, and lines in a region. -/
def Region.columns (b : Region) (size : ℕ) : ℕ := (b.width + 1) / (size / 2)

def Region.lines (b : Region) (size : ℕ) : ℕ := (b.height + 1) / size

/-- A full line ends at the last column, which is not the last 16-bit number. -/
def Region.FlushRight (b : Region) (size : ℕ) : Prop :=
  b.columns size * (size / 2) = b.width + 1 ∧ b.x + b.width + 1 < 65536

/-- The last line ends at the last row, which is not the last 16-bit number. -/
def Region.FlushBottom (b : Region) (size : ℕ) : Prop :=
  b.lines size * size = b.height + 1 ∧ b.y + b.height + 1 < 65536

variable {b : Region} {size : ℕ}

/-! ### Lines and columns of a region -/

theorem columns_mul_le (b : Region) (size : ℕ) : b.columns size * (size / 2) ≤ b.width + 1 :=
  Nat.div_mul_le_self _ _

theorem lt_columns_mul (b : Region) (hsize : 2 ≤ size) :
    b.width + 1 < b.columns size * (size / 2) + size / 2 :=
  Nat.lt_div_mul_add (by omega)

theorem lines_mul_le (b : Region) (size : ℕ) : b.lines size * size ≤ b.height + 1 :=
  Nat.div_mul_le_self _ _

theorem lt_lines_mul (b : Region) (hsize : 2 ≤ size) :
    b.height + 1 < b.lines size * size + size :=
  Nat.lt_div_mul_add (by omega)

/-- A place in a line of the region. -/
theorem column_le {c : ℕ} (hc : c < b.columns size) : c * (size / 2) + size / 2 ≤ b.width + 1 := by
  have hmul : (c + 1) * (size / 2) ≤ b.columns size * (size / 2) := Nat.mul_le_mul_right _ hc
  rw [Nat.succ_mul] at hmul
  exact hmul.trans (columns_mul_le b size)

theorem line_le {r : ℕ} (hr : r < b.lines size) : r * size + size ≤ b.height + 1 := by
  have hmul : (r + 1) * size ≤ b.lines size * size := Nat.mul_le_mul_right _ hr
  rw [Nat.succ_mul] at hmul
  exact hmul.trans (lines_mul_le b size)

theorem holds_place {c r : ℕ} (hc : c < b.columns size) (hr : r < b.lines size) :
    b.Holds size (b.x + c * (size / 2)) (b.y + r * size) := by
  have hcolumn := column_le hc
  have hline := line_le hr
  constructor
  · omega
  · omega

theorem not_holds_beyond (hsize : 2 ≤ size) (v : ℕ) :
    ¬ b.Holds size (b.x + b.columns size * (size / 2)) v := by
  intro h
  have hbeyond := lt_columns_mul b hsize
  have hright := h.1.2
  omega

theorem holds_next_line_iff (hsize : 2 ≤ size) (hcolumns : 0 < b.columns size) {r below : ℕ}
    (hr : r + 1 + below = b.lines size) :
    b.Holds size b.x (b.y + r * size + size) ↔ 0 < below := by
  have hlast := lt_lines_mul b hsize
  constructor
  · intro h
    have hbottom := h.2.2
    by_contra hnone
    rw [show b.lines size = r + 1 by omega, Nat.succ_mul] at hlast
    omega
  · intro hbelow
    have hplace := holds_place hcolumns (show r + 1 < b.lines size by omega)
    rwa [Nat.zero_mul, Nat.add_zero, Nat.succ_mul, ← Nat.add_assoc] at hplace

/-- Every glyph of a text has its size and is inside the region. -/
theorem flow_inside {text : List UInt8} {u v : ℕ} :
    ∀ g ∈ b.flow size text u v, g.size = size ∧ b.Holds size g.x g.y := by
  induction text generalizing u v with
  | nil => exact fun g hg => absurd hg List.not_mem_nil
  | cons c text ih =>
    intro g hg
    rw [Region.flow] at hg
    split at hg
    case isTrue hplace =>
      cases List.mem_cons.mp hg with
      | inl hfirst =>
        rw [hfirst]
        exact ⟨rfl, hplace⟩
      | inr hlater => exact ih g hlater
    case isFalse =>
      split at hg
      case isTrue hline =>
        cases List.mem_cons.mp hg with
        | inl hfirst =>
          rw [hfirst]
          exact ⟨rfl, hline⟩
        | inr hlater => exact ih g hlater
      case isFalse => exact absurd hg List.not_mem_nil

/-- The characters drawn are the beginning of the text. -/
theorem flow_isPrefix (text : List UInt8) (u v : ℕ) :
    (b.flow size text u v).map ShowChar.num <+: text := by
  induction text generalizing u v with
  | nil => exact List.nil_prefix
  | cons c text ih =>
    rw [Region.flow]
    split
    · exact (List.cons_prefix_cons).mpr ⟨rfl, ih _ _⟩
    · split
      · exact (List.cons_prefix_cons).mpr ⟨rfl, ih _ _⟩
      · exact List.nil_prefix

/-! ### The loop inside a region -/

/-- Behind a full line the loop goes to the next one exactly if the line is flush. -/
theorem wraps_iff (hx : b.x + b.width < 65536) :
    b.x + b.width < uint16_t (b.x + b.columns size * (size / 2)) ↔ b.FlushRight size := by
  have hfull := columns_mul_le b size
  rw [Region.FlushRight, uint16_t]
  omega

/-- Behind the last line the loop ends exactly if the line is flush. -/
theorem stops_iff (hy : b.y + b.height < 65536) {r : ℕ} (hr : r + 1 = b.lines size) :
    b.y + b.height < uint16_t (b.y + r * size + size) ↔ b.FlushBottom size := by
  have hfull := lines_mul_le b size
  rw [Region.FlushBottom, uint16_t, ← hr]
  rw [← hr] at hfull
  rw [Nat.succ_mul] at hfull ⊢
  omega

/-- What is still to be drawn fits, or nothing more is drawn in the right places. -/
def Region.Accepts (b : Region) (size free below n : ℕ) : Prop :=
  (free < n → 0 < below → b.FlushRight size ∧ b.x < 256) ∧
    (free + b.columns size * below < n → b.FlushRight size ∧ b.FlushBottom size)

theorem accepts_nil (b : Region) (size free below : ℕ) : b.Accepts size free below 0 :=
  ⟨fun h => absurd h (Nat.not_lt_zero _), fun h => absurd h (Nat.not_lt_zero _)⟩

theorem accepts_next_column {free below n : ℕ} :
    b.Accepts size (free + 1) below (n + 1) ↔ b.Accepts size free below n := by
  rw [Region.Accepts, Region.Accepts, Nat.add_lt_add_iff_right, Nat.add_right_comm,
    Nat.add_lt_add_iff_right]

/-- A full line before another one. -/
theorem accepts_next_line {c below n : ℕ} (hc : 1 + c = b.columns size) :
    b.Accepts size 0 (below + 1) (n + 1) ↔
      (b.FlushRight size ∧ b.x < 256) ∧ b.Accepts size c below n := by
  have hroom : 0 + b.columns size * (below + 1) < n + 1 ↔ c + b.columns size * below < n := by
    rw [Nat.mul_succ]
    omega
  rw [Region.Accepts, Region.Accepts, hroom]
  constructor
  · rintro ⟨hline, hend⟩
    have hflush := hline (Nat.zero_lt_succ n) (Nat.zero_lt_succ below)
    exact ⟨hflush, fun _ _ => hflush, hend⟩
  · rintro ⟨hflush, _, hend⟩
    exact ⟨fun _ _ => hflush, hend⟩

/-- The last line. -/
theorem accepts_end {n : ℕ} :
    b.Accepts size 0 0 (n + 1) ↔ b.FlushRight size ∧ b.FlushBottom size := by
  rw [Region.Accepts, Nat.mul_zero, Nat.add_zero]
  constructor
  · intro h
    exact h.2 (Nat.zero_lt_succ n)
  · intro h
    exact ⟨fun _ hbelow => absurd hbelow (Nat.lt_irrefl 0), fun _ => h⟩

theorem flushRight_of_accepts {below n : ℕ} (h : b.Accepts size 0 below (n + 1)) :
    b.FlushRight size := by
  cases below with
  | zero => exact (accepts_end.mp h).1
  | succ below => exact (h.1 (Nat.zero_lt_succ n) (Nat.zero_lt_succ below)).1

theorem showString_cons {c : UInt8} (hc : c ≤ 0x7E ∧ 0x20 ≤ c) (x0 width height x y : ℕ)
    (p : List UInt8) : showString x0 width height size (c :: p) x y =
      if height < (if width < x then uint16_t (y + size) else y) then []
      else ⟨if width < x then x0 else x, if width < x then uint16_t (y + size) else y,
          c, size, 0⟩ ::
        showString x0 width height size p
          (uint16_t ((if width < x then x0 else x) + size / 2))
          (if width < x then uint16_t (y + size) else y) := by
  rw [showString, if_pos hc]

theorem showString_stop {c : UInt8} (hc : ¬ (c ≤ 0x7E ∧ 0x20 ≤ c)) (x0 width height x y : ℕ)
    (p : List UInt8) : showString x0 width height size (c :: p) x y = [] := by
  rw [showString, if_neg hc]

/-- Behind a full line that is not flush the loop goes on beyond the last place. -/
theorem showString_beyond (hsize : 2 ≤ size) (hx : b.x + b.width < 65536)
    (hflush : ¬ b.FlushRight size) {v : ℕ} (hv : v ≤ b.y + b.height) {c : UInt8}
    (hc : c ≤ 0x7E ∧ 0x20 ≤ c) (text : List UInt8) :
    showString (uint8_t b.x) (b.x + b.width) (b.y + b.height) size (c :: text)
      (uint16_t (b.x + b.columns size * (size / 2))) v ≠
      b.flow size (c :: text) (b.x + b.columns size * (size / 2)) v := by
  have hstay := mt (wraps_iff hx).mp hflush
  rw [showString_cons hc, Region.flow, if_neg (not_holds_beyond hsize v), if_neg hstay,
    if_neg hstay, if_neg (Nat.not_lt.mpr hv)]
  split
  case isTrue =>
    intro h
    have hrow : v = v + size := congrArg ShowChar.y (List.head_eq_of_cons_eq h)
    omega
  case isFalse => exact List.cons_ne_nil _ _

/-- Behind the last line of a region the loop ends as it should exactly if the
line is flush. -/
theorem showString_behind_last (hsize : 2 ≤ size) (hcolumns : 0 < b.columns size)
    (hx : b.x + b.width < 65536) (hy : b.y + b.height < 65536) (hflush : b.FlushRight size)
    {r : ℕ} (hr : r + 1 + 0 = b.lines size) {c : UInt8} (hc : c ≤ 0x7E ∧ 0x20 ≤ c)
    (text : List UInt8) :
    showString (uint8_t b.x) (b.x + b.width) (b.y + b.height) size (c :: text)
      (uint16_t (b.x + b.columns size * (size / 2))) (b.y + r * size) =
      b.flow size (c :: text) (b.x + b.columns size * (size / 2)) (b.y + r * size) ↔
    b.FlushBottom size := by
  have hwrap := (wraps_iff hx).mpr hflush
  have hfull : ¬ b.Holds size b.x (b.y + r * size + size) := fun h =>
    Nat.lt_irrefl 0 ((holds_next_line_iff hsize hcolumns hr).mp h)
  rw [showString_cons hc, Region.flow, if_neg (not_holds_beyond hsize _), if_neg hfull,
    if_pos hwrap, if_pos hwrap, ← stops_iff hy hr]
  by_cases hstop : b.y + b.height < uint16_t (b.y + r * size + size)
  · rw [if_pos hstop]
    exact iff_of_true rfl hstop
  · rw [if_neg hstop]
    exact iff_of_false (List.cons_ne_nil _ _) hstop

/-- The loop in a region whose last column and row are 16-bit numbers. -/
theorem showString_eq_flow_iff (hsize : 2 ≤ size) (hcolumns : 0 < b.columns size)
    (hx : b.x + b.width < 65536) (hy : b.y + b.height < 65536) {text : List UInt8}
    (htext : ∀ c ∈ text, c ≤ 0x7E ∧ 0x20 ≤ c) {c free r below : ℕ}
    (hc : c + free = b.columns size) (hr : r + 1 + below = b.lines size) :
    showString (uint8_t b.x) (b.x + b.width) (b.y + b.height) size text
      (uint16_t (b.x + c * (size / 2))) (b.y + r * size) =
      b.flow size text (b.x + c * (size / 2)) (b.y + r * size) ↔
    b.Accepts size free below text.length := by
  induction text generalizing c free r below with
  | nil => exact iff_of_true rfl (accepts_nil b size free below)
  | cons ch text ih =>
    have hrest : ∀ c ∈ text, c ≤ 0x7E ∧ 0x20 ≤ c := fun c h => htext c (List.mem_cons_of_mem ch h)
    have hlineIn : r < b.lines size := by omega
    have hline := line_le hlineIn
    have hch := htext ch List.mem_cons_self
    rw [List.length_cons]
    cases free with
    | succ free =>
      -- there is room in the line
      have hplaceIn : c < b.columns size := by omega
      have hcolumn := column_le hplaceIn
      have hplace : uint16_t (b.x + c * (size / 2)) = b.x + c * (size / 2) :=
        Nat.mod_eq_of_lt (by omega)
      have hnext : b.x + c * (size / 2) + size / 2 = b.x + (c + 1) * (size / 2) := by
        rw [Nat.succ_mul, Nat.add_assoc]
      have hfree : c + 1 + free = b.columns size := by omega
      have hcolumnIn : ¬ b.x + b.width < b.x + c * (size / 2) := by omega
      have hrowIn : ¬ b.y + b.height < b.y + r * size := by omega
      rw [showString_cons hch, Region.flow, hplace, if_neg hcolumnIn, if_neg hcolumnIn,
        if_neg hrowIn, if_pos (holds_place hplaceIn hlineIn), hnext, List.cons_inj_right,
        ih hrest hfree hr, accepts_next_column]
    | zero =>
      rw [show c = b.columns size from hc]
      by_cases hflush : b.FlushRight size
      · cases below with
        | zero =>
          rw [showString_behind_last hsize hcolumns hx hy hflush hr hch, accepts_end]
          exact ⟨fun h => ⟨hflush, h⟩, fun h => h.2⟩
        | succ below =>
          have hwrap := (wraps_iff hx).mpr hflush
          have hnextLine := (holds_next_line_iff hsize hcolumns hr).mpr (Nat.zero_lt_succ below)
          have hbottom := hnextLine.2.2
          have hplace : b.y + r * size + size = b.y + (r + 1) * size := by
            rw [Nat.succ_mul, Nat.add_assoc]
          have hrow : uint16_t (b.y + (r + 1) * size) = b.y + (r + 1) * size :=
            Nat.mod_eq_of_lt (by omega)
          have hrowIn : ¬ b.y + b.height < b.y + (r + 1) * size := by omega
          have hcolumn : 1 + (b.columns size - 1) = b.columns size := by omega
          have hbelow : r + 1 + 1 + below = b.lines size := by omega
          rw [showString_cons hch, Region.flow, if_neg (not_holds_beyond hsize _), if_pos hwrap,
            if_pos hwrap, if_pos hnextLine, hplace, hrow, if_neg hrowIn, accepts_next_line hcolumn,
            List.cons.injEq]
          by_cases hlow : b.x < 256
          · have hx0 : uint8_t b.x = b.x := Nat.mod_eq_of_lt hlow
            have htail := ih hrest hcolumn hbelow
            rw [Nat.one_mul] at htail
            rw [hx0] at htail ⊢
            rw [htail]
            exact ⟨fun h => ⟨⟨hflush, hlow⟩, h.2⟩, fun h => ⟨rfl, h.2⟩⟩
          · refine iff_of_false (fun h => hlow ?_) fun h => hlow h.1.2
            have hx0 : uint8_t b.x = b.x := congrArg ShowChar.x h.1
            rw [← hx0]
            exact Nat.mod_lt _ (by decide)
      · have hrowIn : b.y + r * size ≤ b.y + b.height := by omega
        exact iff_of_false (showString_beyond hsize hx hflush hrowIn hch text)
          fun h => hflush (flushRight_of_accepts h)

/-! ### Whole texts -/

/-- Regions in which a number of characters is drawn as it should be. Without
room for a glyph the sums of the right or the lower end must overflow so that
nothing is drawn at all. -/
def Region.Accommodates (b : Region) (size n : ℕ) : Prop :=
  n = 0 ∨
  (b.columns size * b.lines size = 0 ∧
    if b.x + b.width < 65536 then 65536 ≤ b.y + b.height
    else (b.y + b.height) % 65536 < (b.y + size) % 65536) ∨
  (0 < b.columns size * b.lines size ∧ b.x + b.width < 65536 ∧ b.y + b.height < 65536 ∧
    (b.columns size < n → 1 < b.lines size → b.FlushRight size ∧ b.x < 256) ∧
    (b.columns size * b.lines size < n → b.FlushRight size ∧ b.FlushBottom size))

/-- The first glyph has a place exactly if there are columns and lines. -/
theorem holds_first_iff (hsize : 2 ≤ size) :
    b.Holds size b.x b.y ↔ 0 < b.columns size * b.lines size := by
  constructor
  · intro h
    have hcolumns := lt_columns_mul b hsize
    have hlines := lt_lines_mul b hsize
    have hright := h.1.2
    have hbottom := h.2.2
    refine Nat.mul_pos (Nat.pos_of_ne_zero fun hnone => ?_) (Nat.pos_of_ne_zero fun hnone => ?_)
    · rw [hnone, Nat.zero_mul] at hcolumns
      omega
    · rw [hnone, Nat.zero_mul] at hlines
      omega
  · intro h
    have hplace := holds_place (Nat.pos_of_mul_pos_right h) (Nat.pos_of_mul_pos_left h)
    rwa [Nat.zero_mul, Nat.zero_mul] at hplace

/-- A region without room stays empty. -/
theorem flow_eq_nil (hsize : 2 ≤ size) (h : b.columns size * b.lines size = 0)
    (text : List UInt8) : b.flow size text b.x b.y = [] := by
  have hfirst : ¬ b.Holds size b.x b.y := fun hholds =>
    absurd ((holds_first_iff hsize).mp hholds) (by omega)
  have hnext : ¬ b.Holds size b.x (b.y + size) := by
    intro hholds
    refine hfirst ⟨hholds.1, le_rfl, ?_⟩
    have hbottom := hholds.2.2
    omega
  cases text with
  | nil => rfl
  | cons c text => rw [Region.flow, if_neg hfirst, if_neg hnext]

/-- A region with room draws its first character at its start. -/
theorem flow_cons (hsize : 2 ≤ size) (h : 0 < b.columns size * b.lines size) (c : UInt8)
    (text : List UInt8) : b.flow size (c :: text) b.x b.y =
      ⟨b.x, b.y, c, size, 0⟩ :: b.flow size text (b.x + size / 2) b.y := by
  rw [Region.flow, if_pos ((holds_first_iff hsize).mpr h)]

/-- From a place on there are as many glyphs as characters or places are left. -/
theorem length_flow (hsize : 2 ≤ size) (hcolumns : 0 < b.columns size) (text : List UInt8)
    {c free r below : ℕ} (hc : c + free = b.columns size) (hr : r + 1 + below = b.lines size) :
    (b.flow size text (b.x + c * (size / 2)) (b.y + r * size)).length =
      min text.length (free + b.columns size * below) := by
  induction text generalizing c free r below with
  | nil => exact (Nat.zero_min _).symm
  | cons ch text ih =>
    rw [Region.flow, List.length_cons]
    cases free with
    | succ free =>
      have hnext : b.x + c * (size / 2) + size / 2 = b.x + (c + 1) * (size / 2) := by
        rw [Nat.succ_mul, Nat.add_assoc]
      rw [if_pos (holds_place (by omega) (by omega)), List.length_cons, hnext,
        ih (show c + 1 + free = b.columns size by omega) hr]
      omega
    | zero =>
      rw [show c = b.columns size from hc, if_neg (not_holds_beyond hsize _)]
      cases below with
      | zero =>
        rw [if_neg fun h => Nat.lt_irrefl 0 ((holds_next_line_iff hsize hcolumns hr).mp h)]
        exact (Nat.min_zero _).symm
      | succ below =>
        have hplace : b.y + r * size + size = b.y + (r + 1) * size := by
          rw [Nat.succ_mul, Nat.add_assoc]
        have hcolumn : 1 + (b.columns size - 1) = b.columns size := by omega
        have hline := ih hcolumn (show r + 1 + 1 + below = b.lines size by omega)
        rw [Nat.one_mul] at hline
        rw [if_pos ((holds_next_line_iff hsize hcolumns hr).mpr (Nat.succ_pos below)),
          List.length_cons, hplace, hline, Nat.mul_succ]
        omega

/-- The characters of a region are the first ones of the text, as many as there
are places. -/
theorem flow_num (hsize : 2 ≤ size) (text : List UInt8) :
    (b.flow size text b.x b.y).map ShowChar.num =
      text.take (b.columns size * b.lines size) := by
  have hlength : (b.flow size text b.x b.y).length =
      min text.length (b.columns size * b.lines size) := by
    by_cases hroom : 0 < b.columns size * b.lines size
    · obtain ⟨lines, hlines⟩ :=
        Nat.exists_eq_succ_of_ne_zero (Nat.pos_of_mul_pos_left hroom).ne'
      have hall := length_flow hsize (Nat.pos_of_mul_pos_right hroom) text
        (Nat.zero_add (b.columns size)) (show 0 + 1 + lines = b.lines size by omega)
      rw [Nat.zero_mul, Nat.zero_mul, Nat.add_zero, Nat.add_zero] at hall
      rw [hall, hlines, Nat.mul_succ, Nat.add_comm]
    · rw [flow_eq_nil hsize (Nat.eq_zero_of_not_pos hroom), Nat.eq_zero_of_not_pos hroom]
      exact (Nat.min_zero _).symm
  have hprefix : (b.flow size text b.x b.y).map ShowChar.num <+: text := flow_isPrefix text b.x b.y
  rw [List.prefix_iff_eq_take.mp hprefix, List.length_map, hlength, ← List.take_take]
  exact List.take_of_length_le (List.length_take_le' _ text)

/-- A right end beyond the last 16-bit column sends the first character to the
next line, where it is out of place. -/
theorem showString_overflow_right (hx : b.x < 65536) (hwidth : b.width < 65536)
    (hsize : 2 ≤ size) (hsmall : size ≤ 32) (hover : 65536 ≤ b.x + b.width) {c : UInt8}
    (hc : c ≤ 0x7E ∧ 0x20 ≤ c) (text : List UInt8) :
    showString (uint8_t b.x) (uint16_t (b.width + b.x)) (uint16_t (b.height + b.y)) size
      (c :: text) b.x b.y = b.flow size (c :: text) b.x b.y ↔
    b.columns size * b.lines size = 0 ∧ (b.y + b.height) % 65536 < (b.y + size) % 65536 := by
  have hwrap : uint16_t (b.width + b.x) < b.x := by
    rw [uint16_t]
    omega
  rw [showString_cons hc, if_pos hwrap, if_pos hwrap, Nat.add_comm b.height]
  by_cases hroom : b.columns size * b.lines size = 0
  · rw [flow_eq_nil hsize hroom]
    by_cases hend : uint16_t (b.y + b.height) < uint16_t (b.y + size)
    · rw [if_pos hend]
      exact iff_of_true rfl ⟨hroom, hend⟩
    · rw [if_neg hend]
      exact iff_of_false (List.cons_ne_nil _ _) fun h => hend h.2
  · rw [flow_cons hsize (Nat.pos_of_ne_zero hroom)]
    refine iff_of_false ?_ fun h => hroom h.1
    split
    · exact (List.cons_ne_nil _ _).symm
    · intro h
      have hrow : uint16_t (b.y + size) = b.y := congrArg ShowChar.y (List.head_eq_of_cons_eq h)
      rw [uint16_t] at hrow
      omega

/-- A lower end beyond the last 16-bit row ends the loop at once. -/
theorem showString_overflow_bottom (hright : b.x + b.width < 65536)
    (hheight : b.height < 65536) (hsize : 2 ≤ size) (hover : 65536 ≤ b.y + b.height) {c : UInt8}
    (hc : c ≤ 0x7E ∧ 0x20 ≤ c) (text : List UInt8) :
    showString (uint8_t b.x) (uint16_t (b.width + b.x)) (uint16_t (b.height + b.y)) size
      (c :: text) b.x b.y = b.flow size (c :: text) b.x b.y ↔
    b.columns size * b.lines size = 0 := by
  have hstay : ¬ uint16_t (b.width + b.x) < b.x := by
    rw [uint16_t]
    omega
  have hend : uint16_t (b.height + b.y) < b.y := by
    rw [uint16_t]
    omega
  rw [showString_cons hc, if_neg hstay, if_neg hstay, if_pos hend]
  by_cases hroom : b.columns size * b.lines size = 0
  · exact iff_of_true (flow_eq_nil hsize hroom _).symm hroom
  · rw [flow_cons hsize (Nat.pos_of_ne_zero hroom)]
    exact iff_of_false (List.cons_ne_nil _ _).symm hroom

/-- Without overflow the first character is drawn even where it has no room. -/
theorem showString_regular (hright : b.x + b.width < 65536) (hbottom : b.y + b.height < 65536)
    (hsize : 2 ≤ size) {c : UInt8} {text : List UInt8}
    (htext : ∀ d ∈ c :: text, d ≤ 0x7E ∧ 0x20 ≤ d) :
    showString (uint8_t b.x) (uint16_t (b.width + b.x)) (uint16_t (b.height + b.y)) size
      (c :: text) b.x b.y = b.flow size (c :: text) b.x b.y ↔
    0 < b.columns size * b.lines size ∧
      b.Accepts size (b.columns size) (b.lines size - 1) (text.length + 1) := by
  have hwidth : uint16_t (b.width + b.x) = b.x + b.width := by
    rw [uint16_t, Nat.add_comm, Nat.mod_eq_of_lt hright]
  have hheight : uint16_t (b.height + b.y) = b.y + b.height := by
    rw [uint16_t, Nat.add_comm, Nat.mod_eq_of_lt hbottom]
  rw [hwidth, hheight]
  by_cases hroom : 0 < b.columns size * b.lines size
  · have hlines : 0 + 1 + (b.lines size - 1) = b.lines size := by
      have hpos := Nat.pos_of_mul_pos_left hroom
      omega
    have hloop := showString_eq_flow_iff hsize (Nat.pos_of_mul_pos_right hroom) hright hbottom
      htext (Nat.zero_add (b.columns size)) hlines
    have hplace : uint16_t b.x = b.x := Nat.mod_eq_of_lt (by omega)
    rw [Nat.zero_mul, Nat.zero_mul, Nat.add_zero, Nat.add_zero, hplace] at hloop
    rw [hloop]
    exact ⟨fun h => ⟨hroom, h⟩, fun h => h.2⟩
  · have hstay : ¬ b.x + b.width < b.x := by omega
    have hgo : ¬ b.y + b.height < b.y := by omega
    rw [flow_eq_nil hsize (Nat.eq_zero_of_not_pos hroom), showString_cons
      (htext c List.mem_cons_self), if_neg hstay, if_neg hstay, if_neg hgo]
    exact iff_of_false (List.cons_ne_nil _ _) fun h => hroom h.1

/-- The lines of a whole region. -/
theorem accepts_all (h : 0 < b.columns size * b.lines size) (n : ℕ) :
    b.Accepts size (b.columns size) (b.lines size - 1) n ↔
      (b.columns size < n → 1 < b.lines size → b.FlushRight size ∧ b.x < 256) ∧
      (b.columns size * b.lines size < n → b.FlushRight size ∧ b.FlushBottom size) := by
  have hpos := Nat.pos_of_mul_pos_left h
  have hall : b.columns size + b.columns size * (b.lines size - 1) =
      b.columns size * b.lines size := by
    rw [Nat.add_comm, ← Nat.mul_succ, Nat.succ_eq_add_one, Nat.sub_add_cancel hpos]
  rw [Region.Accepts, hall, Nat.sub_pos_iff_lt]

theorem printable_cons {c : UInt8} (hc : c ≤ 0x7E ∧ 0x20 ≤ c) (p : List UInt8) :
    printable (c :: p) = c :: printable p := List.takeWhile_cons_of_pos (decide_eq_true hc)

theorem printable_spec (p : List UInt8) : ∀ c ∈ printable p, c ≤ 0x7E ∧ 0x20 ≤ c := by
  intro c hc
  have hprintable := List.mem_takeWhile_imp hc
  exact of_decide_eq_true hprintable

/-- The loop ends where the printable beginning does. -/
theorem showString_printable (x0 width height x y : ℕ) (p : List UInt8) :
    showString x0 width height size p x y = showString x0 width height size (printable p) x y := by
  induction p generalizing x y with
  | nil => rfl
  | cons c p ih =>
    by_cases hc : c ≤ 0x7E ∧ 0x20 ≤ c
    · rw [printable_cons hc, showString_cons hc, showString_cons hc, ih]
    · have hnil : printable (c :: p) = [] :=
        List.takeWhile_cons_of_neg fun h => hc (of_decide_eq_true h)
      rw [hnil, showString_stop hc, showString]

/-- The loop draws a text in its region exactly if the region accommodates it. -/
theorem showString_eq_flow (hx : b.x < 65536) (hwidth : b.width < 65536)
    (hheight : b.height < 65536) (hsize : 2 ≤ size) (hsmall : size ≤ 32) {text : List UInt8}
    (htext : ∀ c ∈ text, c ≤ 0x7E ∧ 0x20 ≤ c) :
    showString (uint8_t b.x) (uint16_t (b.width + b.x)) (uint16_t (b.height + b.y)) size text
      b.x b.y = b.flow size text b.x b.y ↔ b.Accommodates size text.length := by
  cases text with
  | nil => exact iff_of_true rfl (Or.inl rfl)
  | cons c text =>
    have hc := htext c List.mem_cons_self
    have hlength : (c :: text).length ≠ 0 := Nat.succ_ne_zero text.length
    rw [Region.Accommodates]
    by_cases hright : b.x + b.width < 65536
    · rw [if_pos hright]
      by_cases hbottom : b.y + b.height < 65536
      · rw [showString_regular hright hbottom hsize htext]
        constructor
        · rintro ⟨hroom, haccepts⟩
          exact Or.inr (Or.inr ⟨hroom, hright, hbottom, (accepts_all hroom _).mp haccepts⟩)
        · rintro (h | h | h)
          · exact absurd h hlength
          · exact absurd hbottom (Nat.not_lt.mpr h.2)
          · exact ⟨h.1, (accepts_all h.1 _).mpr h.2.2.2⟩
      · rw [showString_overflow_bottom hright hheight hsize (Nat.not_lt.mp hbottom) hc]
        constructor
        · intro hroom
          exact Or.inr (Or.inl ⟨hroom, Nat.not_lt.mp hbottom⟩)
        · rintro (h | h | h)
          · exact absurd h hlength
          · exact h.1
          · exact absurd h.2.2.1 hbottom
    · rw [if_neg hright,
        showString_overflow_right hx hwidth hsize hsmall (Nat.not_lt.mp hright) hc]
      constructor
      · exact fun h => Or.inr (Or.inl h)
      · rintro (h | h | h)
        · exact absurd h hlength
        · exact h
        · exact absurd h.2.1 hright

/-- The printable beginning of a text is drawn in its region exactly if the
region accommodates it. -/
theorem staysInBox_iff {size : ℕ} (hsize : size ∈ [12, 16, 24, 32]) (x y width height : UInt16)
    (p : List UInt8) : StaysInBox x y width height size p ↔
      (region x y width height).Accommodates size (printable p).length := by
  have hbounds : 2 ≤ size ∧ size ≤ 32 := by
    simp only [List.mem_cons, List.not_mem_nil, or_false] at hsize
    omega
  rw [StaysInBox, LCD_ShowString, showString_printable]
  exact showString_eq_flow (b := region x y width height) x.toNat_lt width.toNat_lt height.toNat_lt
    hbounds.1 hbounds.2 (printable_spec p)

/-- One line of a title. -/
theorem staysInBox_title :
    StaysInBox 30 50 200 16 16 [0x54, 0x6F, 0x75, 0x63, 0x68] :=
  (staysInBox_iff (by decide) 30 50 200 16 _).mpr
    (Or.inr (Or.inr ⟨by decide, by decide, by decide, fun h => absurd h (by decide),
      fun h => absurd h (by decide)⟩))

/-- In a region for two lines of three glyphs the fourth character is drawn at
column 44, which is 300 modulo 256. -/
theorem not_staysInBox_right_half :
    (LCD_ShowString 300 0 23 31 16 [0x41, 0x42, 0x43, 0x44]).map (fun g => (g.x, g.y)) =
      [(300, 0), (308, 0), (316, 0), (44, 16)] ∧
    ¬ StaysInBox 300 0 23 31 16 [0x41, 0x42, 0x43, 0x44] := by
  constructor
  · decide
  · rw [StaysInBox]
    decide

end SmartHome.TextBoxes
