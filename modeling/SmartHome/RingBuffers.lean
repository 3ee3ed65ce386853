import Mathlib.Data.List.Range
import Mathlib.Logic.Function.Basic

/-!
# Ring buffers

A buffer of a fixed size is filled at one index and emptied at another; both
go round. The number of elements tells a full buffer from an empty one.
-/

namespace SmartHome.RingBuffers

variable {α : Type*}

/-- A buffer with its two indices; what lies outside the elements is arbitrary. -/
structure Buffer (α : Type*) where
  msg_pool : ℕ → α
  entry : ℕ
  in_offset : ℕ
  out_offset : ℕ

/-- The index that follows another one. -/
def next (size i : ℕ) : ℕ := if size ≤ i + 1 then 0 else i + 1

/-- Add an element. -/
def Buffer.put (size : ℕ) (r : Buffer α) (value : α) : Buffer α where
  msg_pool := Function.update r.msg_pool r.in_offset value
  entry := r.entry + 1
  in_offset := next size r.in_offset
  out_offset := r.out_offset

/-- The oldest element. -/
def Buffer.front (r : Buffer α) : α := r.msg_pool r.out_offset

/-- Remove the oldest element. -/
def Buffer.drop (size : ℕ) (r : Buffer α) : Buffer α :=
  { r with entry := r.entry - 1, out_offset := next size r.out_offset }

/-- The elements, oldest first. -/
def Buffer.contents (size : ℕ) (r : Buffer α) : List α :=
  (List.range r.entry).map fun k => r.msg_pool ((r.out_offset + k) % size)

/-- The indices lie inside the buffer and as far apart as there are elements. -/
structure Buffer.Valid (size : ℕ) (r : Buffer α) : Prop where
  entry_le : r.entry ≤ size
  out_lt : 0 < size → r.out_offset < size
  in_eq : r.in_offset = (r.out_offset + r.entry) % size

@[simp] theorem Buffer.length_contents (size : ℕ) (r : Buffer α) :
    (r.contents size).length = r.entry := by
  simp [Buffer.contents]

theorem next_eq {size i : ℕ} (h : i < size) : next size i = (i + 1) % size := by
  rw [next]
  split_ifs with hlast
  · have hall : i + 1 = size := by omega
    rw [hall, Nat.mod_self]
  · rw [Nat.mod_eq_of_lt (by omega)]

/-- Positions less than one round apart differ. -/
theorem offset_inj {size i j k : ℕ} (hjk : j < k) (hk : k < i + size) (hi : i ≤ j) :
    j % size ≠ k % size := by
  intro heq
  have hdvd : size ∣ k - j := Nat.dvd_of_mod_eq_zero (Nat.sub_mod_eq_zero_of_mod_eq heq.symm)
  have := Nat.le_of_dvd (by omega) hdvd
  omega

variable {size : ℕ} {r : Buffer α}

/-- A buffer with room stays in order. -/
theorem Buffer.Valid.put (h : r.Valid size) (hroom : r.entry < size) (value : α) :
    (r.put size value).Valid size := by
  have hpos : 0 < size := by omega
  refine ⟨hroom, h.out_lt, ?_⟩
  change next size r.in_offset = (r.out_offset + (r.entry + 1)) % size
  rw [next_eq (h.in_eq ▸ Nat.mod_lt _ hpos), h.in_eq, Nat.mod_add_mod, Nat.add_assoc]

/-- An element that is put becomes the last one. -/
theorem Buffer.contents_put (h : r.Valid size) (hroom : r.entry < size) (value : α) :
    (r.put size value).contents size = r.contents size ++ [value] := by
  have hlast : (r.out_offset + r.entry) % size = r.in_offset := h.in_eq.symm
  change (List.range (r.entry + 1)).map
    (fun k => Function.update r.msg_pool r.in_offset value ((r.out_offset + k) % size)) = _
  rw [List.range_succ, List.map_append, List.map_singleton, hlast, Function.update_self,
    Buffer.contents]
  congr 1
  refine List.map_congr_left fun k hk => ?_
  have hk := List.mem_range.mp hk
  rw [Function.update_of_ne]
  rw [h.in_eq]
  exact offset_inj (i := r.out_offset) (by omega) (by omega) (by omega)

/-- A buffer with an element stays in order. -/
theorem Buffer.Valid.drop (h : r.Valid size) (hpos : 0 < r.entry) : (r.drop size).Valid size := by
  have hsize : 0 < size := hpos.trans_le h.entry_le
  have hout := h.out_lt hsize
  refine ⟨(Nat.sub_le _ _).trans h.entry_le, fun _ => ?_, ?_⟩
  · show next size r.out_offset < size
    rw [next_eq hout]
    exact Nat.mod_lt _ hsize
  · show r.in_offset = (next size r.out_offset + (r.entry - 1)) % size
    rw [h.in_eq, next_eq hout, Nat.mod_add_mod]
    congr 1
    omega

/-- The oldest element leaves first. -/
theorem Buffer.contents_drop (h : r.Valid size) (hpos : 0 < r.entry) :
    r.contents size = r.front :: (r.drop size).contents size := by
  obtain ⟨n, hn⟩ := Nat.exists_eq_add_of_lt hpos
  have hsize : 0 < size := hpos.trans_le h.entry_le
  have hout := h.out_lt hsize
  have hentry : r.entry = n + 1 := by omega
  change (List.range r.entry).map (fun k => r.msg_pool ((r.out_offset + k) % size)) =
    r.front :: (List.range (r.entry - 1)).map
      (fun k => r.msg_pool ((next size r.out_offset + k) % size))
  rw [hentry, List.range_succ_eq_map, List.map_cons, List.map_map, Nat.add_zero,
    Nat.mod_eq_of_lt hout, Nat.add_sub_cancel]
  congr 1
  refine List.map_congr_left fun k _ => ?_
  change r.msg_pool ((r.out_offset + (k + 1)) % size) = _
  rw [next_eq hout, Nat.mod_add_mod]
  congr 2
  omega

end SmartHome.RingBuffers
