import Mathlib.Data.Nat.Basic
import Mathlib.Data.Int.Order.Basic

/-!
# Touch regions of the two screens

Both screens test the touch coordinates against open rectangles. The lamp
regions of the main panel are placed from the right edge of the display, so
the display size is a parameter.
-/

namespace SmartHome.TouchRegions

/-- Touch coordinates tp_dev.x[0] and tp_dev.y[0]. -/
structure Point where
  x : UInt16
  y : UInt16
  deriving DecidableEq, Repr

/-- The sizes lcddev.width and lcddev.height. -/
structure Lcddev where
  width : UInt16
  height : UInt16
  deriving DecidableEq, Repr

/-- An open rectangle of coordinates. -/
structure Region where
  left : ℤ
  right : ℤ
  top : ℤ
  bottom : ℤ
  deriving DecidableEq, Repr

/-- The point lies strictly inside the rectangle. -/
def Region.Hit (r : Region) (p : Point) : Prop :=
  (r.left < p.x.toNat ∧ p.x.toNat < r.right) ∧ (r.top < p.y.toNat ∧ p.y.toNat < r.bottom)

instance (r : Region) (p : Point) : Decidable (r.Hit p) :=
  inferInstanceAs (Decidable ((_ ∧ _) ∧ (_ ∧ _)))

/-- The touch is inside the display. -/
def Lcddev.Covers (lcddev : Lcddev) (p : Point) : Prop :=
  p.x < lcddev.width ∧ p.y < lcddev.height

instance (lcddev : Lcddev) (p : Point) : Decidable (lcddev.Covers p) :=
  inferInstanceAs (Decidable (_ ∧ _))

/-! ### Fields of the time setting screen -/

def SET_YEAR : Region := ⟨58, 100, 48, 61⟩
def SET_MON : Region := ⟨119, 139, 48, 61⟩
def SET_DAY : Region := ⟨155, 177, 48, 61⟩
def SET_HOUR : Region := ⟨64, 83, 75, 88⟩
def SET_MIN : Region := ⟨100, 123, 75, 88⟩
def SET_SEC : Region := ⟨140, 159, 75, 88⟩
def SET_WEEK : Region := ⟨78, 148, 102, 118⟩

/-! ### Functions of the main panel -/

def TIME : Region := ⟨1, 120, 43, 92⟩
def MODE : Region := ⟨120, 239, 95 - 52, 95⟩
def Bedroom_Light (lcddev : Lcddev) : Region :=
  ⟨lcddev.width.toNat - 60, lcddev.width.toNat - 60 + 16, 236, 236 + 16⟩
def Livingroom_Light (lcddev : Lcddev) : Region :=
  ⟨lcddev.width.toNat - 60, lcddev.width.toNat - 60 + 16, 254, 254 + 16⟩
def Corridor_Light (lcddev : Lcddev) : Region :=
  ⟨lcddev.width.toNat - 60, lcddev.width.toNat - 60 + 16, 272, 272 + 16⟩
def Curtain_CLOSE : Region := ⟨128, 171, 290, 290 + 16⟩
def Curtain_OPEN : Region := ⟨80, 111, 290, 290 + 16⟩
def Curtain_KT : Region := ⟨184, 208, 290, 290 + 16⟩

/-! ### Keys of the number pad -/

def ZERO : Region := ⟨0, 77, 162, 199⟩
def ONE : Region := ⟨78, 166, 162, 199⟩
def TWO : Region := ⟨167, 239, 162, 199⟩
def THREE : Region := ⟨0, 77, 201, 236⟩
def FOUR : Region := ⟨78, 166, 201, 236⟩
def FIVE : Region := ⟨167, 239, 201, 236⟩
def SIX : Region := ⟨0, 77, 238, 279⟩
def SEVEN : Region := ⟨78, 166, 238, 279⟩
def EIGHT : Region := ⟨167, 239, 238, 279⟩
def NINE : Region := ⟨0, 77, 282, 320⟩
def CANCLE : Region := ⟨78, 166, 282, 320⟩
def OK : Region := ⟨167, 239, 282, 320⟩

/-- Rectangles that are apart on one axis. -/
def Region.Apart (r q : Region) : Prop :=
  r.right ≤ q.left + 1 ∨ q.right ≤ r.left + 1 ∨ r.bottom ≤ q.top + 1 ∨ q.bottom ≤ r.top + 1

instance (r q : Region) : Decidable (r.Apart q) :=
  inferInstanceAs (Decidable (_ ∨ _ ∨ _ ∨ _))

/-- No point is inside two rectangles that are apart. -/
theorem Region.Apart.not_hit {r q : Region} (h : r.Apart q) {p : Point} (hr : r.Hit p) :
    ¬q.Hit p := by
  unfold Region.Apart Region.Hit at *
  omega

variable {α : Type*}

/-- What is found for a point in a table of regions, tested in order. -/
def hits (table : List (Region × α)) (p : Point) : List α :=
  table.filterMap fun e => if e.1.Hit p then some e.2 else none

theorem hits_cons (e : Region × α) (table : List (Region × α)) (p : Point) :
    hits (e :: table) p = if e.1.Hit p then e.2 :: hits table p else hits table p := by
  unfold hits
  by_cases h : e.1.Hit p <;> simp [h]

/-- Nothing is found exactly if no region of the table is hit. -/
theorem hits_eq_nil_iff {table : List (Region × α)} {p : Point} :
    hits table p = [] ↔ ∀ e ∈ table, ¬e.1.Hit p := by
  unfold hits
  rw [List.filterMap_eq_nil_iff]
  exact forall₂_congr fun e _ => by simp

/-- In a table of regions that are apart at most one region is hit. -/
theorem hits_length_le_one {table : List (Region × α)}
    (h : table.Pairwise fun a b => a.1.Apart b.1) (p : Point) : (hits table p).length ≤ 1 := by
  induction table with
  | nil => exact Nat.zero_le 1
  | cons e table ih =>
    obtain ⟨he, hrest⟩ := List.pairwise_cons.mp h
    rw [hits_cons]
    by_cases hit : e.1.Hit p
    · have hnone : hits table p = [] := hits_eq_nil_iff.mpr fun b hb => (he b hb).not_hit hit
      rw [if_pos hit, hnone]
      rfl
    · rw [if_neg hit]
      exact ih hrest

end SmartHome.TouchRegions
