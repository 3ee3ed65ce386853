import SmartHome.PoolLayout

/-!
# Frees of arbitrary offsets

Freeing clears as many entries as the addressed one says, and every entry of a
block says the length of the whole block. From the middle of a block it clears
as many entries behind the block as lie before the offset, whatever they belong
to. In runs with frees of arbitrary offsets no other block is damaged as long
as these entries exist and are zero.
-/

namespace SmartHome.StrayFrees

open TransitionRuns RunTables PoolAllocator

/-- The entries that my_mem_free assigns, in order. -/
def freeWrites (memx : Bank) (d : Dev) (offset : ℕ) : List ℕ :=
  if d.memrdy ≠ 0 ∧ offset < memsize memx then
    (List.range (d.memmap (offset / memblksize memx))).map (offset / memblksize memx + ·)
  else []

/-- Only entries of the table are cleared, and of the live blocks only those of
the block that contains the offset. -/
def Harmless (memx : Bank) (s : Pool) (offset : ℕ) : Prop :=
  ∀ i ∈ freeWrites memx s.dev offset, i < memtblsize memx ∧
    ∀ p ∈ s.live, (p.run memx).Covers i → (p.run memx).Covers (offset / memblksize memx)

/-- The offset is outside the pool or in free space, or the block that contains
it is followed by as many zero entries as it has before the offset. -/
def Permitted (memx : Bank) (s : Pool) (offset : ℕ) : Prop :=
  memsize memx ≤ offset ∨ s.dev.memmap (offset / memblksize memx) = 0 ∨
    ∃ p ∈ s.live, (p.run memx).Covers (offset / memblksize memx) ∧
      ∀ i, (p.run memx).start + (p.run memx).len ≤ i →
        i < offset / memblksize memx + (p.run memx).len →
        i < memtblsize memx ∧ s.dev.memmap i = 0

/-- One call of a client that frees any offset; the block that contains the
offset is not live any more. -/
def strayStep (memx : Bank) (s : Pool) : Call → Option Pool
  | .malloc size => step memx s (.malloc size)
  | .free offset =>
    some { dev := (my_mem_free memx s.dev offset.toNat).1,
           live := s.live.filter fun p => ¬(p.run memx).Covers (offset.toNat / memblksize memx) }

/-- Frees are permitted, allocations always. -/
def Permits (memx : Bank) (s : Pool) : Call → Prop
  | .malloc _ => True
  | .free offset => Permitted memx s offset.toNat

/-- Frees are harmless. -/
def Spares (memx : Bank) (s : Pool) : Call → Prop
  | .malloc _ => True
  | .free offset => Harmless memx s offset.toNat

/-- The live blocks have their runs; other entries may hold anything. -/
structure Kept (memx : Bank) (s : Pool) : Prop where
  ready : s.dev.memrdy ≠ 0
  placed : Placed (memtblsize memx) s.dev.memmap (s.live.map (Block.run memx))

variable {memx : Bank} {s t : Pool}

/-! ### One free -/

/-- The assigned entries become zero, and no other entry changes. -/
theorem my_mem_free_writes (hready : s.dev.memrdy ≠ 0) (offset : ℕ) :
    (my_mem_free memx s.dev offset).1 =
      { s.dev with
        memmap := fun i => if i ∈ freeWrites memx s.dev offset then 0 else s.dev.memmap i } := by
  by_cases hin : offset < memsize memx
  · have hmem : ∀ i, i ∈ freeWrites memx s.dev offset ↔
        offset / 32 ≤ i ∧ i < offset / 32 + s.dev.memmap (offset / 32) := fun i => by
      unfold freeWrites
      rw [if_pos ⟨hready, hin⟩, memblksize_eq, List.mem_map]
      simp only [List.mem_range]
      exact ⟨fun ⟨j, hj, hi⟩ => by omega, fun hi => ⟨i - offset / 32, by omega, by omega⟩⟩
    rw [my_mem_free_eq hready hin]
    simp only [hmem]
    rfl
  · have hnone : freeWrites memx s.dev offset = [] := if_neg fun h => hin h.2
    unfold my_mem_free
    rw [if_neg hready, if_neg hin, hnone]
    simp

/-- A live block is inside the table and holds its length. -/
theorem Kept.run (hs : Kept memx s) {p : Block} (hp : p ∈ s.live) {i : ℕ}
    (hi : (p.run memx).Covers i) :
    i < memtblsize memx ∧ s.dev.memmap i = (p.run memx).len ∧ 0 < (p.run memx).len := by
  have hmem : p.run memx ∈ s.live.map (Block.run memx) := List.mem_map_of_mem hp
  have hend := hs.placed.inside _ hmem
  have hlast := hi.2
  exact ⟨by omega, hs.placed.held _ hmem i hi, hs.placed.len_pos _ hmem⟩

/-- An entry that one block covers is not covered by a second. -/
theorem Kept.run_unique (hs : Kept memx s) {p q : Block} (hp : p ∈ s.live) (hq : q ∈ s.live)
    {i : ℕ} (hpi : (p.run memx).Covers i) (hqi : (q.run memx).Covers i) :
    p.run memx = q.run memx :=
  hs.placed.eq_of_covers (List.mem_map_of_mem hp) (List.mem_map_of_mem hq) hpi hqi

/-- An assigned entry is counted from the addressed one on. -/
theorem bounds_of_mem_freeWrites {d : Dev} {offset i : ℕ} (h : i ∈ freeWrites memx d offset) :
    offset < memsize memx ∧ offset / memblksize memx ≤ i ∧
      i < offset / memblksize memx + d.memmap (offset / memblksize memx) := by
  unfold freeWrites at h
  split at h
  · obtain ⟨j, hj, rfl⟩ := List.mem_map.mp h
    have hlt := List.mem_range.mp hj
    rename_i hcond
    exact ⟨hcond.2, by omega, by omega⟩
  · exact absurd h List.not_mem_nil

/-- A permitted free is harmless. -/
theorem harmless_of_permitted (hs : Kept memx s) {offset : ℕ} (h : Permitted memx s offset) :
    Harmless memx s offset := by
  intro i hi
  obtain ⟨hin, hlo, hhi⟩ := bounds_of_mem_freeWrites hi
  rcases h with hout | hzero | ⟨p, hp, hcovers, hafter⟩
  · omega
  · omega
  · obtain ⟨hend, hheld, -⟩ := hs.run hp hcovers
    rw [hheld] at hhi
    by_cases hinside : i < (p.run memx).start + (p.run memx).len
    · have hpi : (p.run memx).Covers i := ⟨hcovers.1.trans hlo, hinside⟩
      refine ⟨(hs.run hp hpi).1, fun q hq hqi => ?_⟩
      rw [← hs.run_unique hp hq hpi hqi]
      exact hcovers
    · obtain ⟨hlt, hzero⟩ := hafter i (by omega) hhi
      refine ⟨hlt, fun q hq hqi => ?_⟩
      obtain ⟨-, hlen, hpos⟩ := hs.run hq hqi
      omega

/-- In a divided table a harmless free is permitted. -/
theorem permitted_of_harmless (hs : s.Divided memx) {offset : ℕ} (hin : offset < memsize memx)
    (h : Harmless memx s offset) : Permitted memx s offset := by
  have hkept : Kept memx s := ⟨hs.ready, hs.tiles.placed⟩
  have hindex : offset / memblksize memx < memtblsize memx := by
    rw [memsize_eq] at hin
    rw [memblksize_eq]
    omega
  by_cases hzero : s.dev.memmap (offset / memblksize memx) = 0
  · exact Or.inr (Or.inl hzero)
  · -- the entry belongs to a block
    obtain ⟨p, hp, hcovers⟩ : ∃ p ∈ s.live, (p.run memx).Covers (offset / memblksize memx) := by
      by_contra hnone
      refine hzero (hs.tiles.unused _ hindex (List.forall_mem_map.mpr fun p hp hcovers => ?_))
      exact hnone ⟨p, hp, hcovers⟩
    have hheld := (hkept.run hp hcovers).2.1
    refine Or.inr (Or.inr ⟨p, hp, hcovers, fun i hlo hhi => ?_⟩)
    have hbefore := hcovers.2
    have hwrite : i ∈ freeWrites memx s.dev offset := by
      unfold freeWrites
      rw [if_pos ⟨hs.ready, hin⟩, List.mem_map]
      exact ⟨i - offset / memblksize memx, List.mem_range.mpr (by omega), by omega⟩
    obtain ⟨hlt, hspare⟩ := h i hwrite
    refine ⟨hlt, hs.tiles.unused i hlt (List.forall_mem_map.mpr fun q hq hqi => ?_)⟩
    have hsame := hkept.run_unique hp hq hcovers (hspare q hq hqi)
    have hlast := hqi.2
    rw [← hsame] at hlast
    omega

/-! ### Runs with arbitrary frees -/

/-- A harmless free keeps the other blocks. -/
theorem free_kept (hs : Kept memx s) (offset : UInt32) (h : Harmless memx s offset.toNat)
    (ht : strayStep memx s (.free offset) = some t) : Kept memx t := by
  cases ht
  rw [my_mem_free_writes hs.ready]
  refine ⟨hs.ready, hs.placed.keep (List.filter_sublist.map _) ?_⟩
  refine List.forall_mem_map.mpr fun p hp i hi => if_neg fun hwrite => ?_
  obtain ⟨hlive, hother⟩ := List.mem_filter.mp hp
  exact of_decide_eq_true hother ((h i hwrite).2 p hlive hi)

/-- An allocation takes entries of no block. -/
theorem malloc_kept (hs : Kept memx s) (size : UInt32)
    (ht : strayStep memx s (.malloc size) = some t) : Kept memx t := by
  rcases step_malloc_cases hs.ready ht with rfl | ⟨o, hpos, hend, hzero, rfl⟩
  · exact hs
  · refine ⟨hs.ready, ?_⟩
    rw [List.map_cons, run_of_index]
    exact hs.placed.insert hpos hend hzero

/-- A permitted call spares the other blocks. -/
theorem spares_of_permits (hs : Kept memx s) (e : Call) (h : Permits memx s e) :
    Spares memx s e := by
  cases e with
  | malloc size => trivial
  | free offset => exact harmless_of_permitted hs h

/-- A permitted call keeps the live blocks. -/
theorem strayStep_kept (hs : Kept memx s) (e : Call) (h : Permits memx s e)
    (ht : strayStep memx s e = some t) : Kept memx t := by
  cases e with
  | malloc size => exact malloc_kept hs size ht
  | free offset => exact free_kept hs offset (harmless_of_permitted hs h) ht

/-- From initialisation on, in every run of allocations and frees of any offsets
whose frees are permitted, no free damages a block; and after allocations and
frees of live blocks a free is harmless exactly if it is permitted. -/
theorem frees_harmless (memx : Bank) :
    (∀ s, Initialised memx s → ∀ es, Guarded (Permits memx) (strayStep memx) s es →
        Guarded (Spares memx) (strayStep memx) s es) ∧
      ∀ s, Reachable (Initialised memx) (step memx) s → ∀ offset < memsize memx,
        (Harmless memx s offset ↔ Permitted memx s offset) := by
  refine ⟨fun s hs es hg => ?_, fun s hs offset hin => ?_⟩
  · have hd := initialised_divided hs
    exact hg.imp (fun _ e hk => spares_of_permits hk e)
      (fun _ e _ hk he ht => strayStep_kept hk e he ht) ⟨hd.ready, hd.tiles.placed⟩
  · have hd := divided_of_reachable hs
    exact ⟨permitted_of_harmless hd hin, harmless_of_permitted ⟨hd.ready, hd.tiles.placed⟩⟩

/-- With free space behind a block of two, the free of its second half is harmless. -/
theorem frees_harmless_before_space : ∃ s : Pool, s.live = [⟨1276 * 32, 64⟩] ∧
    Harmless .SRAMIN s (1277 * 32) := by
  have hinit : Initialised .SRAMIN ⟨my_mem_init .SRAMIN ⟨fun _ => 0, fun _ => 0, 0⟩, []⟩ :=
    ⟨_, rfl⟩
  have hrun : Reachable (Initialised .SRAMIN) (step .SRAMIN) _ :=
    ⟨_, [.malloc 64, .malloc 64, .free (1278 * 32)], hinit, rfl⟩
  refine ⟨_, by decide +kernel, ((frees_harmless .SRAMIN).2 _ hrun (1277 * 32) (by decide)).mpr ?_⟩
  refine Or.inr (Or.inr ⟨⟨1276 * 32, 64⟩, by decide +kernel, by decide, fun i hlo hhi => ?_⟩)
  have hi : i = 1278 := Nat.le_antisymm (Nat.le_of_lt_succ hhi) hlo
  rw [hi]
  decide +kernel

/-- The free of the second half of a block of two clears the block behind it. -/
theorem not_harmless_inside :
    ¬∀ memx s, Reachable (Initialised memx) (step memx) s → ∀ offset < memsize memx,
      Harmless memx s offset := by
  intro h
  have hinit : Initialised .SRAMIN ⟨my_mem_init .SRAMIN ⟨fun _ => 0, fun _ => 0, 0⟩, []⟩ :=
    ⟨_, rfl⟩
  have hrun : Reachable (Initialised .SRAMIN) (step .SRAMIN) _ :=
    ⟨_, [.malloc 32, .malloc 64], hinit, rfl⟩
  have hharm := (h .SRAMIN _ hrun (1278 * 32) (by decide) 1279 (by decide +kernel)).2
    ⟨1279 * 32, 32⟩ (by decide +kernel) (by decide)
  exact absurd hharm (by decide)

end SmartHome.StrayFrees
