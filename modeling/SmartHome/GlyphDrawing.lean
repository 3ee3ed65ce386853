import SmartHome.MachineWords
import SmartHome.TextBoxes

/-!
# The pixels of a glyph

A glyph is stored column by column, every column in as many bytes as its
height needs, the highest bit being the upper one. Drawing ends early at the
right and at the lower end of the display. The fonts are given by the bytes of
their glyphs.
-/

namespace SmartHome.GlyphDrawing

open MachineWords NumberText TextBoxes

/-- Size of the display. -/
structure Lcddev where
  width : ℕ
  height : ℕ

inductive Ink where
  | POINT_COLOR
  | BACK_COLOR
  deriving DecidableEq, Repr

structure Pixel where
  x : ℕ
  y : ℕ
  ink : Ink
  deriving DecidableEq, Repr

/-- What is drawn for the highest bit of a byte; nothing for a zero in overlay mode. -/
def ink (temp mode : ℕ) : Option Ink :=
  if temp &&& 0x80 ≠ 0 then some .POINT_COLOR else if mode = 0 then some .BACK_COLOR else none

/-- The loop over the bits of a byte, with the number of bits left. Afterwards
drawing goes on at the position returned, if there is one. -/
def drawBits (lcddev : Lcddev) (size mode y0 : ℕ) : ℕ → ℕ → ℕ → ℕ → List Pixel × Option (ℕ × ℕ)
  | 0, _, x, y => ([], some (x, y))
  | left + 1, temp, x, y =>
    let pixel := (ink temp mode).toList.map fun c => (⟨x, y, c⟩ : Pixel)
    let y := uint16_t (y + 1)
    if y ≥ lcddev.height then (pixel, none)
    else if y - y0 = size then
      if uint16_t (x + 1) ≥ lcddev.width then (pixel, none)
      else (pixel, some (uint16_t (x + 1), y0))
    else
      let rest := drawBits lcddev size mode y0 left (uint8_t (temp <<< 1)) x y
      (pixel ++ rest.1, rest.2)

/-- The loop over the bytes of a glyph, with the number of bytes left. -/
def drawBytes (lcddev : Lcddev) (glyph : ℕ → ℕ) (size mode y0 : ℕ) :
    ℕ → ℕ → ℕ → ℕ → List Pixel
  | 0, _, _, _ => []
  | left + 1, t, x, y =>
    let bits := drawBits lcddev size mode y0 8 (glyph t) x y
    match bits.2 with
    | none => bits.1
    | some next => bits.1 ++ drawBytes lcddev glyph size mode y0 left (t + 1) next.1 next.2

/-- Number of bytes of a column. -/
def columnBytes (size : ℕ) : ℕ := size / 8 + if size % 8 ≠ 0 then 1 else 0

/-- Draw a character; there are fonts of four sizes. -/
def LCD_ShowChar (lcddev : Lcddev) (asc2 : ℕ → ℕ → ℕ → ℕ) (g : ShowChar) : List Pixel :=
  let csize := uint8_t (columnBytes g.size * (g.size / 2))
  if g.size = 12 ∨ g.size = 16 ∨ g.size = 24 ∨ g.size = 32 then
    drawBytes lcddev (asc2 g.size (g.num - 0x20).toNat) g.size g.mode g.y csize 0 g.x g.y
  else []

/-- The pixel belongs to a cell. -/
def Pixel.Inside (p : Pixel) (x y width height : ℕ) : Prop :=
  (x ≤ p.x ∧ p.x < x + width) ∧ y ≤ p.y ∧ p.y < y + height

/-- The pixel is one of the display. -/
def Lcddev.Shows (lcddev : Lcddev) (p : Pixel) : Prop := p.x < lcddev.width ∧ p.y < lcddev.height

variable {lcddev : Lcddev} {size mode x0 y0 : ℕ}

theorem mem_pixel {temp x y : ℕ} {p : Pixel}
    (h : p ∈ (ink temp mode).toList.map fun c => (⟨x, y, c⟩ : Pixel)) : p.x = x ∧ p.y = y := by
  obtain ⟨c, _, hp⟩ := List.mem_map.mp h
  rw [← hp]
  exact ⟨rfl, rfl⟩

/-! ### Glyphs and their cells -/

/-- The bits of a byte stay in their column and in the rows of the glyph. -/
theorem drawBits_inside (hy : y0 + size < 65536) {left temp x row : ℕ} (hrow : row < size) :
    ∀ p ∈ (drawBits lcddev size mode y0 left temp x (y0 + row)).1,
      p.x = x ∧ y0 ≤ p.y ∧ p.y < y0 + size := by
  induction left generalizing temp row with
  | zero => exact fun p hp => absurd hp List.not_mem_nil
  | succ left ih =>
    intro p hp
    have hbelow : uint16_t (y0 + row + 1) = y0 + (row + 1) := Nat.mod_eq_of_lt (by omega)
    have hfirst : p ∈ (ink temp mode).toList.map (fun c => (⟨x, y0 + row, c⟩ : Pixel)) →
        p.x = x ∧ y0 ≤ p.y ∧ p.y < y0 + size := by
      intro h
      have hplace := mem_pixel h
      omega
    rw [drawBits, hbelow, Nat.add_sub_cancel_left] at hp
    split at hp
    case isTrue => exact hfirst hp
    case isFalse =>
      split at hp
      case isTrue =>
        split at hp
        · exact hfirst hp
        · exact hfirst hp
      case isFalse hlast =>
        cases List.mem_append.mp hp with
        | inl h => exact hfirst h
        | inr h => exact ih (by omega) p h

/-- The next byte begins below them or at the top of the next column. -/
theorem drawBits_next (hy : y0 + size < 65536) {left temp x row : ℕ} (hx : x + 1 < 65536)
    (hrow : row < size) :
    ∀ next ∈ (drawBits lcddev size mode y0 left temp x (y0 + row)).2,
      next = (x + 1, y0) ∧ size ≤ row + left ∨
        next = (x, y0 + (row + left)) ∧ row + left < size := by
  induction left generalizing temp row with
  | zero =>
    intro next hnext
    exact Or.inr ⟨(Option.mem_some.mp hnext).symm, hrow⟩
  | succ left ih =>
    intro next hnext
    have hbelow : uint16_t (y0 + row + 1) = y0 + (row + 1) := Nat.mod_eq_of_lt (by omega)
    have hright : uint16_t (x + 1) = x + 1 := Nat.mod_eq_of_lt hx
    rw [drawBits, hbelow, hright, Nat.add_sub_cancel_left] at hnext
    split at hnext
    case isTrue => exact absurd hnext (Option.not_mem_none next)
    case isFalse =>
      split at hnext
      case isTrue hlast =>
        split at hnext
        · exact absurd hnext (Option.not_mem_none next)
        · exact Or.inl ⟨(Option.mem_some.mp hnext).symm, by omega⟩
      case isFalse hlast =>
        have hrest := ih (by omega) next hnext
        rwa [Nat.add_assoc, Nat.add_comm 1] at hrest

/-- Whole columns hold a glyph. -/
theorem columnBytes_le {j : ℕ} (h : size ≤ 8 * j) : columnBytes size ≤ j := by
  rw [columnBytes]
  split
  · omega
  · omega

/-- The bytes left belong to the columns left: with a number of them done in
the present column there are no more than those columns have. -/
theorem drawBytes_inside (hx : x0 + size / 2 < 65536) (hy : y0 + size < 65536)
    {glyph : ℕ → ℕ} {left t : ℕ} (column done : ℕ) (hdone : 8 * done < size)
    (hleft : left + done ≤ (size / 2 - column) * columnBytes size) :
    ∀ p ∈ drawBytes lcddev glyph size mode y0 left t (x0 + column) (y0 + 8 * done),
      p.Inside x0 y0 (size / 2) size := by
  induction left generalizing t column done with
  | zero => exact fun p hp => absurd hp List.not_mem_nil
  | succ left ih =>
    intro p hp
    have hcolumn : column < size / 2 := by
      by_contra hbeyond
      rw [Nat.sub_eq_zero_of_le (Nat.not_lt.mp hbeyond), Nat.zero_mul] at hleft
      omega
    have hbits : p ∈ (drawBits lcddev size mode y0 8 (glyph t) (x0 + column) (y0 + 8 * done)).1 →
        p.Inside x0 y0 (size / 2) size := by
      intro h
      have hplace := drawBits_inside hy hdone p h
      rw [Pixel.Inside]
      omega
    rw [drawBytes] at hp
    split at hp
    case h_1 => exact hbits hp
    case h_2 next hnext =>
      cases List.mem_append.mp hp with
      | inl h => exact hbits h
      | inr h =>
        cases drawBits_next hy (by omega) hdone next hnext with
        | inl hright =>
          have hfull : columnBytes size ≤ done + 1 := columnBytes_le (by omega)
          have hcolumns : size / 2 - column = size / 2 - (column + 1) + 1 := by omega
          rw [hcolumns, Nat.succ_mul] at hleft
          rw [hright.1] at h
          exact ih (column + 1) 0 (by omega) (by omega) p h
        | inr hbelow =>
          rw [hbelow.1] at h
          exact ih column (done + 1) (by omega) (by omega) p h

/-- Every pixel of a glyph is in its cell. -/
theorem glyph_inside {asc2 : ℕ → ℕ → ℕ → ℕ} {g : ShowChar} (hx : g.x + g.size / 2 < 65536)
    (hy : g.y + g.size < 65536) :
    ∀ p ∈ LCD_ShowChar lcddev asc2 g, p.Inside g.x g.y (g.size / 2) g.size := by
  intro p hp
  rw [LCD_ShowChar] at hp
  split at hp
  case isTrue hfont =>
    have hbytes : uint8_t (columnBytes g.size * (g.size / 2)) + 0 ≤
        (g.size / 2 - 0) * columnBytes g.size := by
      rw [Nat.add_zero, Nat.sub_zero, Nat.mul_comm]
      exact Nat.mod_le _ _
    exact drawBytes_inside hx hy 0 0 (by omega) hbytes p hp
  case isFalse => exact absurd hp List.not_mem_nil

/-! ### The ends of the display -/

/-- The bits of a byte are drawn on the display, and the next byte begins there. -/
theorem drawBits_shown (hy0 : y0 < lcddev.height) {left x y : ℕ} (temp : ℕ)
    (hx : x < lcddev.width) (hy : y < lcddev.height) :
    (∀ p ∈ (drawBits lcddev size mode y0 left temp x y).1, lcddev.Shows p) ∧
    ∀ next ∈ (drawBits lcddev size mode y0 left temp x y).2,
      next.1 < lcddev.width ∧ next.2 < lcddev.height := by
  induction left generalizing temp y with
  | zero =>
    constructor
    · exact fun p hp => absurd hp List.not_mem_nil
    · intro next hnext
      rw [← Option.mem_some.mp hnext]
      exact ⟨hx, hy⟩
  | succ left ih =>
    have hfirst : ∀ p ∈ (ink temp mode).toList.map fun c => (⟨x, y, c⟩ : Pixel),
        lcddev.Shows p := by
      intro p hp
      have hplace := mem_pixel hp
      rw [Lcddev.Shows, hplace.1, hplace.2]
      exact ⟨hx, hy⟩
    rw [drawBits]
    split
    case isTrue => exact ⟨hfirst, fun next h => absurd h (Option.not_mem_none next)⟩
    case isFalse hrow =>
      split
      case isTrue =>
        split
        case isTrue => exact ⟨hfirst, fun next h => absurd h (Option.not_mem_none next)⟩
        case isFalse hcolumn =>
          constructor
          · exact hfirst
          · intro next hnext
            rw [← Option.mem_some.mp hnext]
            exact ⟨Nat.not_le.mp hcolumn, hy0⟩
      case isFalse =>
        have hrest := ih (uint8_t (temp <<< 1)) (Nat.not_le.mp hrow)
        constructor
        · intro p hp
          cases List.mem_append.mp hp with
          | inl h => exact hfirst p h
          | inr h => exact hrest.1 p h
        · exact hrest.2

theorem drawBytes_shown (hy0 : y0 < lcddev.height) {glyph : ℕ → ℕ} {left t x y : ℕ}
    (hx : x < lcddev.width) (hy : y < lcddev.height) :
    ∀ p ∈ drawBytes lcddev glyph size mode y0 left t x y, lcddev.Shows p := by
  induction left generalizing t x y with
  | zero => exact fun p hp => absurd hp List.not_mem_nil
  | succ left ih =>
    intro p hp
    rw [drawBytes] at hp
    split at hp
    case h_1 => exact (drawBits_shown hy0 (glyph t) hx hy).1 p hp
    case h_2 next hnext =>
      have hstart := (drawBits_shown hy0 (glyph t) hx hy).2 next hnext
      cases List.mem_append.mp hp with
      | inl h => exact (drawBits_shown hy0 (glyph t) hx hy).1 p h
      | inr h => exact ih hstart.1 hstart.2 p h

/-- A character that begins on the display is drawn on it, even where only a
part of it has room there. -/
theorem glyph_shown {asc2 : ℕ → ℕ → ℕ → ℕ} {g : ShowChar} (hx : g.x < lcddev.width)
    (hy : g.y < lcddev.height) : ∀ p ∈ LCD_ShowChar lcddev asc2 g, lcddev.Shows p := by
  intro p hp
  rw [LCD_ShowChar] at hp
  split at hp
  case isTrue => exact drawBytes_shown hy hx hy p hp
  case isFalse => exact absurd hp List.not_mem_nil

/-- Every pixel of a character is in its cell, and on the display if the
character begins there, even where only a part of it has room. -/
theorem character_drawn (lcddev : Lcddev) (asc2 : ℕ → ℕ → ℕ → ℕ) {g : ShowChar}
    (hx : g.x + g.size / 2 < 65536) (hy : g.y + g.size < 65536) :
    ∀ p ∈ LCD_ShowChar lcddev asc2 g, p.Inside g.x g.y (g.size / 2) g.size ∧
      (g.x < lcddev.width → g.y < lcddev.height → lcddev.Shows p) :=
  fun p hp => ⟨glyph_inside hx hy p hp, fun hcolumn hrow => glyph_shown hcolumn hrow p hp⟩

/-- A display of 240 columns and 320 rows. -/
def portrait : Lcddev := ⟨240, 320⟩

/-- A font whose glyphs are full. -/
def solid (_ _ _ : ℕ) : ℕ := 0xFF

/-- A character at the right end, where four of its columns have room. -/
def cutChar : ShowChar := ⟨236, 300, 65, 16, 0⟩

theorem character_drawn_cutChar :
    ⟨239, 315, .POINT_COLOR⟩ ∈ LCD_ShowChar portrait solid cutChar ∧
      ∀ p ∈ LCD_ShowChar portrait solid cutChar,
        p.Inside 236 300 8 16 ∧ p.x < 240 ∧ p.y < 320 := by
  refine ⟨by decide, fun p hp => ?_⟩
  have hdrawn := character_drawn portrait solid (g := cutChar) (by decide) (by decide) p hp
  exact ⟨hdrawn.1, hdrawn.2 (by decide) (by decide)⟩

/-! ### Texts -/

/-- All pixels of a text that stays in its box belong to the box. -/
theorem text_inside {x y width height : UInt16} {p : List UInt8} {asc2 : ℕ → ℕ → ℕ → ℕ}
    (hx : x.toNat + width.toNat + 1 < 65536) (hy : y.toNat + height.toNat + 1 < 65536)
    (h : StaysInBox x y width height size p) :
    ∀ q ∈ (LCD_ShowString x y width height size p).flatMap (LCD_ShowChar lcddev asc2),
      q.Inside x.toNat y.toNat (width.toNat + 1) (height.toNat + 1) := by
  intro q hq
  obtain ⟨g, hg, hpixel⟩ := List.mem_flatMap.mp hq
  rw [h] at hg
  obtain ⟨hsize, hplace⟩ := flow_inside g hg
  have hbox : (x.toNat ≤ g.x ∧ g.x + g.size / 2 ≤ x.toNat + width.toNat + 1) ∧
      y.toNat ≤ g.y ∧ g.y + g.size ≤ y.toNat + height.toNat + 1 := by
    rw [hsize]
    exact hplace
  have hcell := glyph_inside (by omega) (by omega) q hpixel
  rw [Pixel.Inside] at hcell ⊢
  omega

/-- A text that its region accommodates is shown from its beginning on, as far
as there are places in the region, and no pixel outside the region changes. -/
theorem text_drawn (lcddev : Lcddev) (asc2 : ℕ → ℕ → ℕ → ℕ) (hsize : size ∈ [12, 16, 24, 32])
    {x y width height : UInt16} {p : List UInt8} (hx : x.toNat + width.toNat + 1 < 65536)
    (hy : y.toNat + height.toNat + 1 < 65536)
    (h : (region x y width height).Accommodates size (printable p).length) :
    (LCD_ShowString x y width height size p).map ShowChar.num =
        (printable p).take
          ((region x y width height).columns size * (region x y width height).lines size) ∧
      ∀ q ∈ (LCD_ShowString x y width height size p).flatMap (LCD_ShowChar lcddev asc2),
        q.Inside x.toNat y.toNat (width.toNat + 1) (height.toNat + 1) := by
  have hsizes : 2 ≤ size ∧ size ≤ 32 := by
    simp only [List.mem_cons, List.not_mem_nil, or_false] at hsize
    omega
  have hstays : StaysInBox x y width height size p := by
    rw [StaysInBox, LCD_ShowString, showString_printable]
    exact (showString_eq_flow (b := region x y width height) x.toNat_lt width.toNat_lt
      height.toNat_lt hsizes.1 hsizes.2 (printable_spec p)).mpr h
  refine ⟨?_, text_inside hx hy hstays⟩
  rw [hstays]
  exact flow_num hsizes.1 (printable p)

/-- Two lines of three characters, and one character without a place. -/
theorem text_drawn_twoLines :
    (LCD_ShowString 30 130 23 31 16 (ByteStrings.bytes "Bedroom")).map ShowChar.num =
        ByteStrings.bytes "Bedroo" ∧
      ⟨30, 130, .POINT_COLOR⟩ ∈ (LCD_ShowString 30 130 23 31 16
        (ByteStrings.bytes "Bedroom")).flatMap (LCD_ShowChar portrait solid) ∧
      ∀ q ∈ (LCD_ShowString 30 130 23 31 16
        (ByteStrings.bytes "Bedroom")).flatMap (LCD_ShowChar portrait solid),
          q.Inside 30 130 24 32 := by
  have hflush : (region 30 130 23 31).FlushRight 16 := ⟨by decide, by decide⟩
  have hroom : (region 30 130 23 31).Accommodates 16
      (printable (ByteStrings.bytes "Bedroom")).length :=
    .inr (.inr ⟨by decide, by decide, by decide, fun _ _ => ⟨hflush, by decide⟩,
      fun _ => ⟨hflush, by decide, by decide⟩⟩)
  have hsize : 16 ∈ [12, 16, 24, 32] := by decide
  obtain ⟨hshown, hinside⟩ := text_drawn portrait solid hsize (by decide) (by decide) hroom
  exact ⟨hshown, by decide, hinside⟩

end SmartHome.GlyphDrawing
