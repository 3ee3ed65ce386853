import SmartHome.PoolLayout

/-!
# Freeing undoes allocating

In every reachable pool a successful allocation is undone by the free of its
result, frees of two live blocks commute, and freeing all live blocks in any
order leaves a table of zeros from which the whole pool can be allocated.
-/

namespace SmartHome.PoolAllocator

open TransitionRuns RunTables

/-- Free the blocks of a list one after the other. -/
def freeAll (memx : Bank) (d : Dev) (blocks : List Block) : Dev :=
  blocks.foldl (fun d p => (my_mem_free memx d p.offset).1) d

/-- What frees undo in a pool. -/
structure Pool.Reversible (memx : Bank) (s : Pool) : Prop where
  /-- The free of a block just allocated restores the table. -/
  malloc_free : ∀ size : UInt32, (my_mem_malloc memx s.dev size.toNat).2 ≠ 0xFFFFFFFF →
    (my_mem_free memx (my_mem_malloc memx s.dev size.toNat).1
      (my_mem_malloc memx s.dev size.toNat).2).1.memmap = s.dev.memmap
  /-- Two live blocks may be freed in either order. -/
  free_comm : ∀ p ∈ s.live, ∀ q ∈ s.live, p ≠ q →
    (freeAll memx s.dev [p, q]).memmap = (freeAll memx s.dev [q, p]).memmap
  /-- Freeing all live blocks in any order empties the pool. -/
  free_all : ∀ order : List Block, order.Perm s.live →
    (∀ i < memtblsize memx, (freeAll memx s.dev order).memmap i = 0) ∧
      my_mem_perused memx (freeAll memx s.dev order) = 0 ∧
      (my_mem_malloc memx (freeAll memx s.dev order) (memsize memx)).2 ≠ 0xFFFFFFFF

/-- A successful allocation is undone by the free of its result. -/
theorem free_of_malloc {memx : Bank} {s : Pool} (hs : s.Divided memx) (size : ℕ)
    (hok : (my_mem_malloc memx s.dev size).2 ≠ 0xFFFFFFFF) :
    (my_mem_free memx (my_mem_malloc memx s.dev size).1
      (my_mem_malloc memx s.dev size).2).1.memmap = s.dev.memmap := by
  rcases my_mem_malloc_cases memx hs.ready size with hno | ⟨o, hpos, hend, hzero, hmalloc⟩
  · rw [hno] at hok
    exact absurd rfl hok
  · have hin : o * 32 < memsize memx := by
      rw [memsize_eq]
      omega
    have hstart : o * 32 / 32 = o := by omega
    have hready : ∀ m, Dev.memrdy { s.dev with memmap := m } ≠ 0 := fun _ => hs.ready
    rw [hmalloc]
    dsimp only
    rw [my_mem_free_eq (hready _) hin, hstart]
    dsimp only
    rw [fill_inside (by omega)]
    exact fill_undo _ hzero

/-- A live block other than the freed one stays live. -/
theorem divided_of_free_other {memx : Bank} {s : Pool} (hs : s.Divided memx) {p q : Block}
    (hp : p ∈ s.live) (hq : q ∈ s.live) (hpq : p ≠ q) :
    ∃ live, q ∈ live ∧ Pool.Divided memx ⟨(my_mem_free memx s.dev p.offset).1, live⟩ := by
  obtain ⟨before, after, hsplit⟩ := List.append_of_mem hp
  refine ⟨before ++ after, ?_, freed_divided hs hsplit⟩
  rw [hsplit, List.mem_append, List.mem_cons] at hq
  rw [List.mem_append]
  tauto

/-- The table after the frees of two live blocks. -/
theorem free_two {memx : Bank} {s : Pool} (hs : s.Divided memx) {p q : Block}
    (hp : p ∈ s.live) (hq : q ∈ s.live) (hpq : p ≠ q) :
    (freeAll memx s.dev [p, q]).memmap =
      fill (fill s.dev.memmap (p.run memx).start (p.run memx).len 0)
        (q.run memx).start (q.run memx).len 0 := by
  obtain ⟨live, hlive, hdivided⟩ := divided_of_free_other hs hp hq hpq
  have hfirst := free_live hs hp
  have hsecond := free_live hdivided hlive
  dsimp only at hsecond
  simp only [freeAll, List.foldl_cons, List.foldl_nil]
  rw [hsecond, hfirst]

/-- Freeing the blocks of a division one by one leaves an empty division. -/
theorem freeAll_divided {memx : Bank} {d : Dev} {blocks : List Block}
    (hs : Pool.Divided memx ⟨d, blocks⟩) : Pool.Divided memx ⟨freeAll memx d blocks, []⟩ := by
  induction blocks generalizing d with
  | nil => exact hs
  | cons p blocks ih =>
    have hsplit : p :: blocks = [] ++ p :: blocks := rfl
    exact ih (freed_divided hs hsplit)

/-- An empty pool grants a request for all of it. -/
theorem malloc_whole {memx : Bank} {d : Dev} (hs : Pool.Divided memx ⟨d, []⟩) :
    (my_mem_malloc memx d (memsize memx)).2 ≠ 0xFFFFFFFF := by
  have hb := memtblsize_bounds memx
  have hsize := memsize_eq memx
  have hrun : ZeroRun d.memmap ((memsize memx + 31) / 32) (memtblsize memx) 0 :=
    ⟨by omega, fun j _ hj => hs.tiles.unused j (by omega) (by simp)⟩
  have hgrant : ¬Refused memx d (memsize memx) := fun h =>
    h.elim (fun hzero => by omega) fun hnone => hnone 0 hrun
  obtain ⟨i, hgreatest, hresult⟩ := my_mem_malloc_granted hs.ready hgrant
  have hfit := hgreatest.1.1
  rw [hresult]
  dsimp only
  omega

/-- Frees undo allocations in every reachable pool. -/
theorem reversible_of_reachable {memx : Bank} {s : Pool}
    (hs : Reachable (Initialised memx) (step memx) s) : s.Reversible memx := by
  have hd := divided_of_reachable hs
  refine ⟨fun size => free_of_malloc hd size.toNat, fun p hp q hq hpq => ?_, fun order hperm => ?_⟩
  · rw [free_two hd hp hq hpq, free_two hd hq hp hpq.symm, fill_comm]
  · have horder : Pool.Divided memx ⟨s.dev, order⟩ :=
      ⟨hd.ready, fun p hp => hd.aligned p (hperm.mem_iff.mp hp),
        hd.tiles.perm (hperm.symm.map _)⟩
    have hempty := freeAll_divided horder
    refine ⟨fun i hi => hempty.tiles.unused i hi (by simp), ?_, malloc_whole hempty⟩
    rw [my_mem_perused_eq hempty]
    simp

/-- Two blocks allocated from the fresh internal pool. -/
theorem reversible_after_two_mallocs : ∃ s : Pool,
    s.live = [⟨40768, 100⟩, ⟨40896, 40⟩] ∧ Reachable (Initialised .SRAMIN) (step .SRAMIN) s ∧
      s.Reversible .SRAMIN := by
  have hinit : Initialised .SRAMIN ⟨my_mem_init .SRAMIN ⟨fun _ => 0, fun _ => 0, 0⟩, []⟩ :=
    ⟨_, rfl⟩
  have hrun : Reachable (Initialised .SRAMIN) (step .SRAMIN) _ :=
    ⟨_, [.malloc 40, .malloc 100], hinit, rfl⟩
  exact ⟨_, by decide, hrun, reversible_of_reachable hrun⟩

end SmartHome.PoolAllocator
