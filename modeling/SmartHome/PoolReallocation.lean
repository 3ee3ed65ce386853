import SmartHome.ForwardCopy
import SmartHome.PoolLayout

/-!
# Reallocation in the pool

myrealloc allocates the new block while the old one is still held, copies as
many bytes as the new block has, and frees the old block. A pointer into the
pool is its offset. Writes stay inside the new block, so that the data and all
other blocks are kept; reads are not bounded by the old block. The source
addresses of the copy are logged, and bytes behind the pool are whatever memory
follows it.
-/

namespace SmartHome.PoolReallocation

open MachineWords TransitionRuns RunTables ForwardCopy PoolAllocator

/-- Copy n bytes one after the other; the offsets read are returned. -/
def mymemcpy (des src n : ℕ) (mem : ℕ → ℕ) : (ℕ → ℕ) × List ℕ :=
  (List.range n).foldl (fun (m, reads) i =>
    (Function.update m (des + i) (m (src + i)), reads ++ [src + i])) (mem, [])

/-- Free the block of a pointer unless it is NULL. -/
def myfree (memx : Bank) (d : Dev) : Option ℕ → Dev
  | none => d
  | some offset => (my_mem_free memx d offset).1

/-- Move a block to a new one of the size; NULL is returned where that fails. -/
def myrealloc (memx : Bank) (d : Dev) (ptr size : ℕ) : Dev × Option ℕ × List ℕ :=
  let (d, offset) := my_mem_malloc memx d size
  if offset = 0xFFFFFFFF then (d, none, [])
  else
    let (membase, reads) := mymemcpy offset ptr size d.membase
    (myfree memx { d with membase := membase } (some ptr), some offset, reads)

/-- Calls of the clients, and bytes that are written into the pool. -/
inductive HeapCall where
  | call (c : Call)
  | realloc (ptr size : UInt32)
  | write (offset : UInt32) (value : UInt8)
  deriving DecidableEq, Repr

/-- One call; reallocating needs a live block at the pointer. -/
def heapStep (memx : Bank) (s : Pool) : HeapCall → Option Pool
  | .call c => step memx s c
  | .realloc ptr size =>
    if s.live.any (·.offset = ptr.toNat) then
      match myrealloc memx s.dev ptr.toNat size.toNat with
      | (dev, none, _) => some { s with dev := dev }
      | (dev, some o, _) =>
        some { dev := dev, live := ⟨o, size.toNat⟩ :: s.live.eraseP (·.offset = ptr.toNat) }
    else none
  | .write offset value =>
    if offset.toNat < memsize memx then
      some { s with dev := { s.dev with
        membase := Function.update s.dev.membase offset.toNat value.toNat } }
    else none

/-- Bytes in the entries of a block. -/
def capacity (size : ℕ) : ℕ := (size + 31) / 32 * 32

/-- What a reallocation that returns the offset o has done to the bank. -/
structure Reallocated (memx : Bank) (s : Pool) (p : Block) (size : ℕ) (d : Dev) (o : ℕ) :
    Prop where
  /-- The new block begins with the bytes of the old one. -/
  data : ∀ i < min p.size size, d.membase (o + i) = s.dev.membase (p.offset + i)
  /-- The new block takes entries that were zero. -/
  unused : ∀ i, (Block.run memx ⟨o, size⟩).Covers i → i < memtblsize memx ∧ s.dev.memmap i = 0
  /-- The old block is freed, the new one is marked, and no other entry changes. -/
  table : ∀ i, d.memmap i = if (p.run memx).Covers i then 0
    else if (Block.run memx ⟨o, size⟩).Covers i then (size + 31) / 32 else s.dev.memmap i
  /-- The other blocks keep their bytes and entries. -/
  others : ∀ q ∈ s.live, q ≠ p →
    (∀ a, q.offset ≤ a → a < q.offset + capacity q.size → d.membase a = s.dev.membase a) ∧
      ∀ i, (q.run memx).Covers i → d.memmap i = s.dev.memmap i

/-- The copy reads bytes of the block only, and so only bytes of the pool. -/
def ReadsOwn (memx : Bank) (p : Block) (reads : List ℕ) : Prop :=
  ∀ a ∈ reads, (p.offset ≤ a ∧ a < p.offset + capacity p.size) ∧ a < memsize memx

/-! ### The copy -/

/-- The loop copies from the memory as it is, and reads n bytes in order. -/
theorem mymemcpy_eq (des src n : ℕ) (mem : ℕ → ℕ) :
    mymemcpy des src n mem =
      (copyWith (fun m i => m (src + i)) des n mem, (List.range n).map (src + ·)) := by
  induction n with
  | zero => rfl
  | succ n ih =>
    unfold mymemcpy at *
    rw [List.range_succ, List.foldl_append, ih, copyWith_succ, List.map_append]
    rfl

variable {memx : Bank} {s : Pool}

/-- A byte of a live block is no byte of entries that are zero. -/
theorem byte_apart (hs : s.Divided memx) {q : Block} (hq : q ∈ s.live) {o n a : ℕ}
    (hzero : ∀ i, o ≤ i ∧ i < o + n → s.dev.memmap i = 0)
    (hlo : q.offset ≤ a) (hhi : a < q.offset + capacity q.size) :
    ¬(o * 32 ≤ a ∧ a < o * 32 + n * 32) := by
  intro ha
  have haligned := hs.aligned q hq
  have hmem : q.run memx ∈ s.live.map (Block.run memx) := List.mem_map_of_mem hq
  have hpos := hs.tiles.len_pos _ hmem
  have hcovers : (q.run memx).Covers (a / 32) := by
    rw [memblksize_eq] at haligned
    unfold Run.Covers Block.run
    rw [memblksize_eq, blocksFor_eq]
    unfold capacity at hhi
    dsimp only
    omega
  have hheld := hs.tiles.held _ hmem _ hcovers
  have hfree := hzero (a / 32) (by omega)
  omega

/-- A reallocation changes nothing and fails, or takes entries that are zero,
copies into them and zeroes the entries of the old block. -/
theorem myrealloc_cases (hs : s.Divided memx) {p : Block} (hp : p ∈ s.live) (size : UInt32) :
    myrealloc memx s.dev p.offset size.toNat = (s.dev, none, []) ∨
      ∃ o, 0 < blocksFor memx size.toNat ∧
        o + blocksFor memx size.toNat ≤ memtblsize memx ∧
        (∀ i, o ≤ i ∧ i < o + blocksFor memx size.toNat → s.dev.memmap i = 0) ∧
        myrealloc memx s.dev p.offset size.toNat =
          ({ s.dev with
            membase := copyWith (fun m i => m (p.offset + i)) (o * 32) size.toNat s.dev.membase,
            memmap := fill (fill s.dev.memmap o (blocksFor memx size.toNat)
              (blocksFor memx size.toNat)) (p.run memx).start (p.run memx).len 0 },
            some (o * 32), (List.range size.toNat).map (p.offset + ·)) := by
  have hb := memtblsize_bounds memx
  unfold myrealloc
  rcases my_mem_malloc_cases memx hs.ready size.toNat with hno | ⟨o, hpos, hend, hzero, hok⟩
  · rw [hno]
    exact Or.inl rfl
  · refine Or.inr ⟨o, hpos, hend, hzero, ?_⟩
    -- the old block is freed from the pool that holds both
    have hboth := hs.add size.toNat hpos hend hzero
      (copyWith (fun m i => m (p.offset + i)) (o * 32) size.toNat s.dev.membase)
    rw [hok]
    dsimp only
    rw [if_neg (by omega), mymemcpy_eq]
    exact Prod.ext (free_live hboth (List.mem_cons_of_mem _ hp)) rfl

/-- A reallocation exchanges the old block for the new one. -/
theorem realloc_divided (hs : s.Divided memx) (ptr size : UInt32) {t : Pool}
    (ht : heapStep memx s (.realloc ptr size) = some t) : t.Divided memx := by
  obtain ⟨hany, ht⟩ := Option.ite_none_right_eq_some.mp ht
  obtain ⟨p, before, after, hoff, hsplit, herase⟩ := exists_split_of_any hany
  have hp : p ∈ s.live := by rw [hsplit]; simp
  rw [← hoff] at ht herase
  rcases myrealloc_cases hs hp size with hno | ⟨o, hpos, hend, hzero, hok⟩
  · rw [hno] at ht
    cases ht
    exact hs
  · rw [hok] at ht
    cases ht
    have hboth := hs.add size.toNat hpos hend hzero
      (copyWith (fun m i => m (p.offset + i)) (o * 32) size.toNat s.dev.membase)
    have hlive : ⟨o * 32, size.toNat⟩ :: s.live =
        (⟨o * 32, size.toNat⟩ :: before) ++ p :: after := by rw [hsplit]; rfl
    have hfreed := freed_divided hboth hlive
    rw [free_live hboth (List.mem_cons_of_mem _ hp)] at hfreed
    dsimp only
    rw [herase]
    exact hfreed

/-- Every reachable pool is divided into its live blocks. -/
theorem divided_of_heap (hs : Reachable (Initialised memx) (heapStep memx) s) :
    s.Divided memx :=
  hs.invariant (fun _ h => initialised_divided h) fun _ e _ hs ht => by
    cases e with
    | call c => exact step_divided hs c ht
    | realloc ptr size => exact realloc_divided hs ptr size ht
    | write offset value =>
      obtain ⟨-, ht⟩ := Option.ite_none_right_eq_some.mp ht
      cases ht
      exact ⟨hs.ready, hs.aligned, hs.tiles⟩

/-- In every reachable pool a reallocation of a live block returns NULL and
changes nothing, or keeps the data and all other blocks. -/
theorem myrealloc_keeps (hs : Reachable (Initialised memx) (heapStep memx) s) {p : Block}
    (hp : p ∈ s.live) (size : UInt32) :
    match myrealloc memx s.dev p.offset size.toNat with
    | (d, none, _) => d.memmap = s.dev.memmap ∧ d.membase = s.dev.membase
    | (d, some o, _) => Reallocated memx s p size.toNat d o := by
  have hd := divided_of_heap hs
  rcases myrealloc_cases hd hp size with hno | ⟨o, hpos, hend, hzero, hok⟩
  · rw [hno]
    exact ⟨rfl, rfl⟩
  · rw [hok]
    dsimp only
    have hblocks := blocksFor_eq memx size.toNat
    have hcovers : ∀ i, (Block.run memx ⟨o * 32, size.toNat⟩).Covers i ↔
        o ≤ i ∧ i < o + blocksFor memx size.toNat := fun i => by rw [run_of_index]; rfl
    refine ⟨fun i hi => ?_, fun i hi => ?_, fun i => ?_, fun q hq hne => ⟨fun a hlo hhi => ?_,
      fun i hi => ?_⟩⟩
    · have hapart := byte_apart hd hp hzero (Nat.le_add_right p.offset i)
        (by unfold capacity; omega)
      exact copyWith_original _ _ (fun _ => rfl) (by omega) (by omega)
    · have hrun := (hcovers i).mp hi
      exact ⟨by omega, hzero i hrun⟩
    · unfold fill
      simp only [hcovers]
      rw [hblocks]
      rfl
    · have hapart := byte_apart hd hq hzero hlo hhi
      exact copyWith_outside _ _ (by omega)
    · have hmem : q.run memx ∈ s.live.map (Block.run memx) := List.mem_map_of_mem hq
      have hheld := hd.tiles.held _ hmem i hi
      have hpos := hd.tiles.len_pos _ hmem
      dsimp only
      rw [fill_outside ((hd.runs_apart hq hp hne).not_covers hi),
        fill_outside fun hnew => by rw [hzero i hnew] at hheld; omega]

/-- The internal pool after initialisation. -/
def emptyPool : Pool := ⟨my_mem_init .SRAMIN ⟨fun _ => 0, fun _ => 0, 0⟩, []⟩

/-- The first block of 40 bytes, in the last two entries. -/
def firstBlock : Block := ⟨40896, 40⟩

/-- The pool with this block, after its first byte has been written. -/
def oneBlock : Pool where
  dev := { (my_mem_malloc .SRAMIN emptyPool.dev 40).1 with
    membase := Function.update emptyPool.dev.membase 40896 7 }
  live := [firstBlock]

theorem oneBlock_reachable : Reachable (Initialised .SRAMIN) (heapStep .SRAMIN) oneBlock :=
  ⟨emptyPool, [.call (.malloc 40), .write 40896 7], ⟨_, rfl⟩, rfl⟩

/-- The pool with two blocks, after the first byte of each has been written. -/
def twoBlocks : List HeapCall :=
  [.call (.malloc 40), .call (.malloc 10), .write 40896 7, .write 40864 9]

/-- The first block is moved below the second one, which stays as it is. -/
theorem myrealloc_keeps_twoBlocks :
    ∃ s d o, run (heapStep .SRAMIN) emptyPool twoBlocks = some s ∧
      s.live = [⟨40864, 10⟩, firstBlock] ∧ d.membase o = 7 ∧ d.membase 40864 = 9 ∧
      Reallocated .SRAMIN s firstBlock 100 d o := by
  have hany : (run (heapStep .SRAMIN) emptyPool twoBlocks).any (fun s =>
      s.live = [⟨40864, 10⟩, firstBlock] ∧ s.dev.membase 40896 = 7 ∧ s.dev.membase 40864 = 9 ∧
        (myrealloc .SRAMIN s.dev 40896 100).2.1 = some 40736) = true := by
    decide +kernel
  obtain ⟨s, hrun, hs⟩ := (Option.any_eq_true _ _).mp hany
  obtain ⟨hlive, hfirst, hsecond, hmoved⟩ := of_decide_eq_true hs
  have hreach : Reachable (Initialised .SRAMIN) (heapStep .SRAMIN) s :=
    ⟨emptyPool, twoBlocks, ⟨_, rfl⟩, hrun⟩
  have hp : firstBlock ∈ s.live := by simp [hlive]
  have hkeeps := myrealloc_keeps hreach hp 100
  have hcall : (100 : UInt32).toNat = 100 := rfl
  rw [hcall] at hkeeps
  generalize hresult : myrealloc .SRAMIN s.dev firstBlock.offset 100 = result at hkeeps
  obtain ⟨d, o, reads⟩ := result
  obtain rfl : o = some 40736 := by
    rw [← hmoved]
    exact (congrArg (fun r => r.2.1) hresult).symm
  refine ⟨s, d, 40736, hrun, hlive, ?_, ?_, hkeeps⟩
  · exact (hkeeps.data 0 (by decide)).trans hfirst
  · have hother := (hkeeps.others ⟨40864, 10⟩ (by simp [hlive]) (by decide)).1 40864
    exact (hother le_rfl (by decide)).trans hsecond

/-- A successful reallocation reads only the old block exactly if the new size
fits the old block. -/
theorem reads_own_iff (hs : Reachable (Initialised memx) (heapStep memx) s) {p : Block}
    (hp : p ∈ s.live) (size : UInt32)
    (hok : (myrealloc memx s.dev p.offset size.toNat).2.1 ≠ none) :
    ReadsOwn memx p (myrealloc memx s.dev p.offset size.toNat).2.2 ↔
      size.toNat ≤ capacity p.size := by
  have hd := divided_of_heap hs
  have haligned := hd.aligned p hp
  have hinside := hd.tiles.inside _ (List.mem_map_of_mem hp)
  have hsize := memsize_eq memx
  rw [memblksize_eq] at haligned
  unfold Block.run at hinside
  rw [memblksize_eq, blocksFor_eq] at hinside
  rcases myrealloc_cases hd hp size with hno | ⟨o, -, -, -, hdone⟩
  · rw [hno] at hok
    exact absurd rfl hok
  · rw [hdone]
    unfold ReadsOwn
    simp only [List.forall_mem_map, List.mem_range]
    refine ⟨fun h => ?_, fun h a ha => ?_⟩
    · by_contra hlarge
      have hfirst := (h (capacity p.size) (by omega)).1.2
      omega
    · unfold capacity at *
      dsimp only at hinside
      omega

/-- The second entry of the block has room for 64 bytes. -/
theorem reads_own_second_entry :
    ReadsOwn .SRAMIN firstBlock
      (myrealloc .SRAMIN oneBlock.dev firstBlock.offset (64 : UInt32).toNat).2.2 :=
  (reads_own_iff oneBlock_reachable (List.mem_singleton_self _) 64 (by decide +kernel)).mpr
    (by decide)

/-- The block is the last one of the pool, and a larger copy reads behind both. -/
theorem not_reads_own_when_growing :
    ¬∀ memx s, Reachable (Initialised memx) (heapStep memx) s → ∀ p ∈ s.live, ∀ size : UInt32,
      (myrealloc memx s.dev p.offset size.toNat).2.1 ≠ none →
        ReadsOwn memx p (myrealloc memx s.dev p.offset size.toNat).2.2 := by
  intro h
  have hok : (myrealloc .SRAMIN oneBlock.dev firstBlock.offset (100 : UInt32).toNat).2.1 ≠ none :=
    by decide +kernel
  have hread : 40960 ∈
      (myrealloc .SRAMIN oneBlock.dev firstBlock.offset (100 : UInt32).toNat).2.2 := by
    decide +kernel
  have hown := h .SRAMIN oneBlock oneBlock_reachable firstBlock (List.mem_singleton_self _) 100
    hok 40960 hread
  exact Nat.lt_irrefl 40960 hown.2

end SmartHome.PoolReallocation
