import Mathlib.Algebra.BigOperators.Group.List.Basic
import Mathlib.Algebra.Ring.Nat
import Mathlib.Data.Finset.Card
import Mathlib.Order.Interval.Finset.Nat
import SmartHome.ForwardCopy

/-!
# Tables of disjoint runs

A table of numbered cells is divided into runs of consecutive cells and
unused cells. Every cell of a run holds the length of the run and an unused
cell holds zero, so the first cell of a run is enough to remove it. Inserting
a run over unused cells and removing a run keep the division; the nonzero
cells are counted by the lengths of the runs.
-/

namespace SmartHome.RunTables

open ForwardCopy

/-- A stretch of consecutive cells. -/
structure Run where
  /-- First cell. -/
  start : ℕ
  /-- Number of cells. -/
  len : ℕ
  deriving DecidableEq, Repr

/-- The cell belongs to the run. -/
def Run.Covers (r : Run) (i : ℕ) : Prop := r.start ≤ i ∧ i < r.start + r.len

instance (r : Run) (i : ℕ) : Decidable (r.Covers i) := inferInstanceAs (Decidable (_ ∧ _))

/-- One run ends before the other starts. -/
def Run.Apart (r q : Run) : Prop := r.start + r.len ≤ q.start ∨ q.start + q.len ≤ r.start

/-- Overwrite len cells from start on. -/
def fill (map : ℕ → ℕ) (start len value : ℕ) : ℕ → ℕ := fun i =>
  if start ≤ i ∧ i < start + len then value else map i

/-- The first size cells are exactly these disjoint runs and zeros. -/
structure Tiles (size : ℕ) (map : ℕ → ℕ) (runs : List Run) : Prop where
  len_pos : ∀ r ∈ runs, 0 < r.len
  inside : ∀ r ∈ runs, r.start + r.len ≤ size
  apart : runs.Pairwise Run.Apart
  held : ∀ r ∈ runs, ∀ i, r.Covers i → map i = r.len
  unused : ∀ i < size, (∀ r ∈ runs, ¬r.Covers i) → map i = 0

/-- The runs are disjoint and hold their lengths; the other cells hold anything. -/
structure Placed (size : ℕ) (map : ℕ → ℕ) (runs : List Run) : Prop where
  len_pos : ∀ r ∈ runs, 0 < r.len
  inside : ∀ r ∈ runs, r.start + r.len ≤ size
  apart : runs.Pairwise Run.Apart
  held : ∀ r ∈ runs, ∀ i, r.Covers i → map i = r.len

variable {size : ℕ} {map : ℕ → ℕ} {runs : List Run}

theorem fill_inside {start len value i : ℕ} (h : start ≤ i ∧ i < start + len) :
    fill map start len value i = value := if_pos h

theorem fill_outside {start len value i : ℕ} (h : ¬(start ≤ i ∧ i < start + len)) :
    fill map start len value i = map i := if_neg h

/-- Two fills with the same value commute. -/
theorem fill_comm (map : ℕ → ℕ) (start len start' len' value : ℕ) :
    fill (fill map start len value) start' len' value =
      fill (fill map start' len' value) start len value := by
  funext i
  unfold fill
  split <;> split <;> rfl

/-- Filling unused cells and zeroing them again changes nothing. -/
theorem fill_undo {map : ℕ → ℕ} {start len : ℕ} (value : ℕ)
    (hfree : ∀ i, start ≤ i ∧ i < start + len → map i = 0) :
    fill (fill map start len value) start len 0 = map := by
  funext i
  by_cases hi : start ≤ i ∧ i < start + len
  · rw [fill_inside hi, hfree i hi]
  · rw [fill_outside hi, fill_outside hi]

/-- Cell by cell in increasing order, len writes are one fill. -/
theorem foldl_update_eq_fill (map : ℕ → ℕ) (start len value : ℕ) :
    (List.range len).foldl (fun m i => Function.update m (start + i) value) map =
      fill map start len value := by
  funext i
  by_cases hi : start ≤ i ∧ i < start + len
  · obtain ⟨k, rfl⟩ := Nat.exists_eq_add_of_le hi.1
    rw [fill_inside hi]
    exact copyWith_inside (fun _ _ => value) start map (by omega)
  · rw [fill_outside hi]
    exact copyWith_outside (fun _ _ => value) map hi

/-- Runs that are not apart share a cell. -/
theorem Run.exists_covers_both {r q : Run} (hr : 0 < r.len) (hq : 0 < q.len) (h : ¬r.Apart q) :
    ∃ i, r.Covers i ∧ q.Covers i := by
  unfold Run.Apart at h
  unfold Run.Covers
  by_cases hle : r.start ≤ q.start
  · exact ⟨q.start, by omega, by omega⟩
  · exact ⟨r.start, by omega, by omega⟩

/-- A cell lies in at most one of two runs that are apart. -/
theorem Run.Apart.not_covers {r q : Run} (h : r.Apart q) {i : ℕ} (hr : r.Covers i) :
    ¬q.Covers i := by
  unfold Run.Apart Run.Covers at *
  omega

theorem Run.Apart.symm {r q : Run} (h : r.Apart q) : q.Apart r := Or.symm h

instance : Std.Symm Run.Apart := ⟨fun _ _ h => h.symm⟩

/-- A run of unused cells can be added. -/
theorem Placed.insert (hp : Placed size map runs) {start len : ℕ} (hlen : 0 < len)
    (hin : start + len ≤ size) (hfree : ∀ i, start ≤ i ∧ i < start + len → map i = 0) :
    Placed size (fill map start len len) (⟨start, len⟩ :: runs) := by
  have hapart : ∀ r ∈ runs, Run.Apart ⟨start, len⟩ r := by
    intro r hr
    by_contra hno
    obtain ⟨i, hi, hri⟩ := Run.exists_covers_both hlen (hp.len_pos r hr) hno
    have hzero := hfree i hi
    have hheld := hp.held r hr i hri
    have hpos := hp.len_pos r hr
    omega
  refine ⟨?_, ?_, List.pairwise_cons.mpr ⟨hapart, hp.apart⟩, ?_⟩
  · exact List.forall_mem_cons.mpr ⟨hlen, hp.len_pos⟩
  · exact List.forall_mem_cons.mpr ⟨hin, hp.inside⟩
  · refine List.forall_mem_cons.mpr ⟨fun i hi => fill_inside hi, fun r hr i hi => ?_⟩
    rw [fill_outside ((hapart r hr).symm.not_covers hi)]
    exact hp.held r hr i hi

/-- Some of the runs stay where no cell of theirs is overwritten. -/
theorem Placed.keep (hp : Placed size map runs) {map' : ℕ → ℕ} {runs' : List Run}
    (hsub : runs'.Sublist runs) (hsame : ∀ r ∈ runs', ∀ i, r.Covers i → map' i = map i) :
    Placed size map' runs' where
  len_pos r hr := hp.len_pos r (hsub.subset hr)
  inside r hr := hp.inside r (hsub.subset hr)
  apart := hp.apart.sublist hsub
  held r hr i hi := (hsame r hr i hi).trans (hp.held r (hsub.subset hr) i hi)

/-- A cell lies in at most one of the runs. -/
theorem Placed.eq_of_covers (hp : Placed size map runs) {r q : Run} (hr : r ∈ runs)
    (hq : q ∈ runs) {i : ℕ} (hri : r.Covers i) (hqi : q.Covers i) : r = q := by
  by_contra hne
  exact (hp.apart.forall hr hq hne).not_covers hri hqi

/-- A run is apart from those before and after it. -/
theorem Placed.apart_of_split {before after : List Run} {r : Run}
    (hp : Placed size map (before ++ r :: after)) : ∀ q ∈ before ++ after, r.Apart q := by
  intro q hq
  obtain ⟨_, hra, hcross⟩ := List.pairwise_append.mp hp.apart
  rcases List.mem_append.mp hq with h | h
  · exact (hcross q h r List.mem_cons_self).symm
  · exact (List.pairwise_cons.mp hra).1 q h

theorem Tiles.placed (ht : Tiles size map runs) : Placed size map runs :=
  ⟨ht.len_pos, ht.inside, ht.apart, ht.held⟩

/-- Disjoint runs divide the table if all other cells are zero. -/
theorem Placed.tiles (hp : Placed size map runs)
    (hunused : ∀ i < size, (∀ r ∈ runs, ¬r.Covers i) → map i = 0) : Tiles size map runs :=
  ⟨hp.len_pos, hp.inside, hp.apart, hp.held, hunused⟩

/-- The empty division of a table of zeros. -/
theorem Tiles.nil (h : ∀ i < size, map i = 0) : Tiles size map [] :=
  ⟨by simp, by simp, List.Pairwise.nil, by simp, fun i hi _ => h i hi⟩

/-- A run of unused cells can be added to a division. -/
theorem Tiles.insert (ht : Tiles size map runs) {start len : ℕ} (hlen : 0 < len)
    (hin : start + len ≤ size) (hfree : ∀ i, start ≤ i ∧ i < start + len → map i = 0) :
    Tiles size (fill map start len len) (⟨start, len⟩ :: runs) := by
  refine (ht.placed.insert hlen hin hfree).tiles fun i hi hnone => ?_
  obtain ⟨hnew, hold⟩ := List.forall_mem_cons.mp hnone
  rw [fill_outside hnew]
  exact ht.unused i hi hold

/-- A run can be removed by zeroing its cells. -/
theorem Tiles.remove (before : List Run) {after : List Run} {r : Run}
    (ht : Tiles size map (before ++ r :: after)) :
    Tiles size (fill map r.start r.len 0) (before ++ after) := by
  have hsub : (before ++ after).Sublist (before ++ r :: after) :=
    List.Sublist.append_left (List.sublist_cons_self r after) before
  refine (ht.placed.keep hsub fun q hq i hi =>
    fill_outside ((ht.placed.apart_of_split q hq).symm.not_covers hi)).tiles fun i hi hnone => ?_
  by_cases hr : r.Covers i
  · exact fill_inside hr
  · rw [fill_outside hr]
    refine ht.unused i hi fun q hq => ?_
    rcases List.mem_append.mp hq with h | h
    · exact hnone q (List.mem_append_left _ h)
    · rcases List.mem_cons.mp h with rfl | h
      · exact hr
      · exact hnone q (List.mem_append_right _ h)

/-- The order of the runs does not matter. -/
theorem Tiles.perm {runs' : List Run} (ht : Tiles size map runs) (hp : runs.Perm runs') :
    Tiles size map runs' where
  len_pos r hr := ht.len_pos r (hp.mem_iff.mpr hr)
  inside r hr := ht.inside r (hp.mem_iff.mpr hr)
  apart := hp.pairwise ht.apart fun h => h.symm
  held r hr := ht.held r (hp.mem_iff.mpr hr)
  unused i hi hnone := ht.unused i hi fun r hr => hnone r (hp.mem_iff.mp hr)

/-- The nonzero cells of the table are counted by the lengths of the runs. -/
theorem Tiles.card_used (ht : Tiles size map runs) :
    ((Finset.range size).filter fun i => map i ≠ 0).card = (runs.map Run.len).sum := by
  induction runs generalizing map with
  | nil =>
    rw [List.map_nil, List.sum_nil, Finset.card_eq_zero, Finset.filter_eq_empty_iff]
    exact fun i hi => not_not.mpr (ht.unused i (Finset.mem_range.mp hi) (by simp))
  | cons r runs ih =>
    have hrest : Tiles size (fill map r.start r.len 0) runs := ht.remove []
    have hin := ht.inside r List.mem_cons_self
    have hpos := ht.len_pos r List.mem_cons_self
    have hsplit : ((Finset.range size).filter fun i => map i ≠ 0) =
        ((Finset.range size).filter fun i => fill map r.start r.len 0 i ≠ 0) ∪
          Finset.Ico r.start (r.start + r.len) := by
      ext i
      simp only [Finset.mem_filter, Finset.mem_range, Finset.mem_union, Finset.mem_Ico]
      by_cases hr : r.start ≤ i ∧ i < r.start + r.len
      · have hheld := ht.held r List.mem_cons_self i hr
        simp only [hr, and_self, or_true, iff_true]
        omega
      · rw [fill_outside hr]
        tauto
    have hdisj : Disjoint ((Finset.range size).filter fun i => fill map r.start r.len 0 i ≠ 0)
        (Finset.Ico r.start (r.start + r.len)) := by
      rw [Finset.disjoint_left]
      intro i hi hr
      exact (Finset.mem_filter.mp hi).2 (fill_inside (Finset.mem_Ico.mp hr))
    rw [hsplit, Finset.card_union_of_disjoint hdisj, ih hrest, Nat.card_Ico, List.map_cons,
      List.sum_cons]
    omega

end SmartHome.RunTables
