import SmartHome.PoolSearch

/-!
# The table of a pool is its live blocks

From initialisation on, under any sequence of allocations and of frees of
blocks that are held, the allocation table is divided into the runs of the
live blocks and zeros. The byte ranges of the blocks and the usage percentage
follow from the division.
-/

namespace SmartHome.PoolAllocator

open MachineWords TransitionRuns RunTables

/-- Table entries that belong to a block. -/
def Block.run (memx : Bank) (p : Block) : Run := ⟨p.offset / memblksize memx, blocksFor memx p.size⟩

/-- The division of the table that every client call keeps. -/
structure Pool.Divided (memx : Bank) (s : Pool) : Prop where
  ready : s.dev.memrdy ≠ 0
  aligned : ∀ p ∈ s.live, p.offset % memblksize memx = 0
  tiles : Tiles (memtblsize memx) s.dev.memmap (s.live.map (Block.run memx))

theorem clearRun_eq (memmap : ℕ → ℕ) (index nmemb : ℕ) :
    clearRun memmap index nmemb = fill memmap index nmemb 0 :=
  foldl_update_eq_fill memmap index nmemb 0

/-- An allocation from an initialised bank either changes nothing and fails,
or takes zero entries and returns the offset of the first one. -/
theorem my_mem_malloc_cases (memx : Bank) {d : Dev} (hready : d.memrdy ≠ 0) (size : ℕ) :
    my_mem_malloc memx d size = (d, 0xFFFFFFFF) ∨
      ∃ o, 0 < blocksFor memx size ∧ o + blocksFor memx size ≤ memtblsize memx ∧
        (∀ i, o ≤ i ∧ i < o + blocksFor memx size → d.memmap i = 0) ∧
        my_mem_malloc memx d size =
          ({ d with memmap := fill d.memmap o (blocksFor memx size) (blocksFor memx size) },
            o * 32) := by
  by_cases hrefused : Refused memx d size
  · exact Or.inl (my_mem_malloc_refused hready hrefused)
  · obtain ⟨o, hgreatest, hresult⟩ := my_mem_malloc_granted hready hrefused
    have hsize : size ≠ 0 := fun h => hrefused (Or.inl h)
    obtain ⟨hfit, hzero⟩ := hgreatest.1
    rw [blocksFor_eq]
    exact Or.inr ⟨o, by omega, hfit, fun i hi => hzero i hi.1 hi.2,
      hresult.trans (by rw [Nat.mul_comm])⟩

/-- Two live blocks have disjoint runs. -/
theorem Pool.Divided.runs_apart {memx : Bank} {s : Pool} (hs : s.Divided memx) {p q : Block}
    (hp : p ∈ s.live) (hq : q ∈ s.live) (hpq : p ≠ q) : (p.run memx).Apart (q.run memx) := by
  have hsymm : Std.Symm fun p q : Block => (p.run memx).Apart (q.run memx) :=
    ⟨fun _ _ h => h.symm⟩
  exact (List.pairwise_map.mp hs.tiles.apart).forall hp hq hpq

/-- Freeing inside an initialised pool zeroes what the first entry counts. -/
theorem my_mem_free_eq {memx : Bank} {d : Dev} (hready : d.memrdy ≠ 0) {offset : ℕ}
    (hin : offset < memsize memx) :
    my_mem_free memx d offset =
      ({ d with memmap := fill d.memmap (offset / 32) (d.memmap (offset / 32)) 0 }, 0) := by
  unfold my_mem_free
  rw [if_neg hready, if_pos hin]
  dsimp only
  rw [clearRun_eq, memblksize_eq]

/-- A block at the start of an entry has its run there. -/
theorem run_of_index (memx : Bank) (o size : ℕ) :
    Block.run memx ⟨o * 32, size⟩ = ⟨o, blocksFor memx size⟩ := by
  have hstart : o * 32 / memblksize memx = o := by rw [memblksize_eq]; omega
  rw [Block.run, hstart]

/-- An allocation changes nothing, or the client holds a block whose run were
zero entries. -/
theorem step_malloc_cases {memx : Bank} {s t : Pool} (hready : s.dev.memrdy ≠ 0) {size : UInt32}
    (ht : step memx s (.malloc size) = some t) :
    t = s ∨ ∃ o, 0 < blocksFor memx size.toNat ∧
      o + blocksFor memx size.toNat ≤ memtblsize memx ∧
      (∀ i, o ≤ i ∧ i < o + blocksFor memx size.toNat → s.dev.memmap i = 0) ∧
      t = ⟨{ s.dev with
          memmap := fill s.dev.memmap o (blocksFor memx size.toNat) (blocksFor memx size.toNat) },
        ⟨o * 32, size.toNat⟩ :: s.live⟩ := by
  have hb := memtblsize_bounds memx
  unfold step at ht
  dsimp only at ht
  rcases my_mem_malloc_cases memx hready size.toNat with hno | ⟨o, hpos, hend, hzero, hok⟩
  · rw [hno, if_pos rfl, Option.some.injEq] at ht
    exact Or.inl ht.symm
  · rw [hok, if_neg (by omega), Option.some.injEq] at ht
    exact Or.inr ⟨o, hpos, hend, hzero, ht.symm⟩

/-- A block over zero entries can be added to the division, whatever the pool
holds. -/
theorem Pool.Divided.add {memx : Bank} {s : Pool} (hs : s.Divided memx) {o : ℕ} (size : ℕ)
    (hpos : 0 < blocksFor memx size) (hend : o + blocksFor memx size ≤ memtblsize memx)
    (hzero : ∀ i, o ≤ i ∧ i < o + blocksFor memx size → s.dev.memmap i = 0) (membase : ℕ → ℕ) :
    Pool.Divided memx ⟨{ s.dev with
      membase := membase,
      memmap := fill s.dev.memmap o (blocksFor memx size) (blocksFor memx size) },
      ⟨o * 32, size⟩ :: s.live⟩ := by
  have haligned : o * 32 % memblksize memx = 0 := by rw [memblksize_eq]; omega
  refine ⟨hs.ready, List.forall_mem_cons.mpr ⟨haligned, hs.aligned⟩, ?_⟩
  rw [List.map_cons, run_of_index]
  exact hs.tiles.insert hpos hend hzero

/-- An allocation adds its block to the division. -/
theorem malloc_divided {memx : Bank} {s : Pool} (hs : s.Divided memx) (size : UInt32) {t : Pool}
    (ht : step memx s (.malloc size) = some t) : t.Divided memx := by
  rcases step_malloc_cases hs.ready ht with rfl | ⟨o, hpos, hend, hzero, rfl⟩
  · exact hs
  · exact hs.add size.toNat hpos hend hzero s.dev.membase

/-- Freeing a live block zeroes the entries of its run. -/
theorem free_live {memx : Bank} {s : Pool} (hs : s.Divided memx) {p : Block} (hp : p ∈ s.live) :
    (my_mem_free memx s.dev p.offset).1 =
      { s.dev with memmap := fill s.dev.memmap (p.run memx).start (p.run memx).len 0 } := by
  have hrun : p.run memx ∈ s.live.map (Block.run memx) := List.mem_map_of_mem hp
  have hstart : (p.run memx).start = p.offset / 32 := by rw [Block.run, memblksize_eq]
  have hlen := hs.tiles.len_pos _ hrun
  have hend := hs.tiles.inside _ hrun
  have hheld : s.dev.memmap (p.offset / 32) = (p.run memx).len :=
    hs.tiles.held _ hrun _ ⟨hstart.le, by omega⟩
  have hin : p.offset < memsize memx := by
    rw [memsize_eq]
    omega
  rw [my_mem_free_eq hs.ready hin, hheld, ← hstart]

/-- After the free of a live block the others divide the table. -/
theorem freed_divided {memx : Bank} {s : Pool} (hs : s.Divided memx) {before after : List Block}
    {p : Block} (hsplit : s.live = before ++ p :: after) :
    Pool.Divided memx ⟨(my_mem_free memx s.dev p.offset).1, before ++ after⟩ := by
  rw [free_live hs (by rw [hsplit]; simp)]
  refine ⟨hs.ready, fun r hr => hs.aligned r ?_, ?_⟩
  · rw [hsplit]
    simp only [List.mem_append, List.mem_cons] at hr ⊢
    tauto
  · have htiles := hs.tiles
    rw [hsplit, List.map_append, List.map_cons] at htiles
    rw [List.map_append]
    exact htiles.remove _

/-- The block that a call addresses, and the blocks before and after it. -/
theorem exists_split_of_any {s : Pool} {offset : ℕ} (hany : s.live.any (·.offset = offset) = true) :
    ∃ p before after, p.offset = offset ∧ s.live = before ++ p :: after ∧
      s.live.eraseP (·.offset = offset) = before ++ after := by
  obtain ⟨q, hq, hqo⟩ := List.any_eq_true.mp hany
  obtain ⟨p, before, after, _, hpo, hsplit, herase⟩ := List.exists_of_eraseP
    (p := (·.offset = offset)) hq hqo
  exact ⟨p, before, after, of_decide_eq_true hpo, hsplit, herase⟩

/-- A free of a live block removes exactly its run. -/
theorem free_divided {memx : Bank} {s : Pool} (hs : s.Divided memx) (offset : UInt32) {t : Pool}
    (ht : step memx s (.free offset) = some t) : t.Divided memx := by
  obtain ⟨hany, ht⟩ := Option.ite_none_right_eq_some.mp ht
  cases ht
  obtain ⟨p, before, after, hoff, hsplit, herase⟩ := exists_split_of_any hany
  rw [← hoff] at herase ⊢
  rw [herase]
  exact freed_divided hs hsplit

/-- Every call of a client keeps the division. -/
theorem step_divided {memx : Bank} {s : Pool} (hs : s.Divided memx) (e : Call) {t : Pool}
    (ht : step memx s e = some t) : t.Divided memx := by
  cases e with
  | malloc size => exact malloc_divided hs size ht
  | free offset => exact free_divided hs offset ht

/-- Initialisation leaves an empty division. -/
theorem initialised_divided {memx : Bank} {s : Pool} (h : Initialised memx s) :
    s.Divided memx := by
  obtain ⟨d, rfl⟩ := h
  exact ⟨Nat.one_ne_zero, by simp, Tiles.nil fun i hi => if_pos hi⟩

/-- Every reachable pool is divided into its live blocks. -/
theorem divided_of_reachable {memx : Bank} {s : Pool}
    (hs : Reachable (Initialised memx) (step memx) s) : s.Divided memx :=
  hs.invariant (fun _ h => initialised_divided h) fun _ e _ hs ht => step_divided hs e ht

/-- What the allocation table says about the blocks the clients hold. -/
structure Pool.Sound (memx : Bank) (s : Pool) : Prop where
  /-- A block of the requested size starts at its offset, ends inside the
  table and has its exact block count in each of its entries. -/
  held : ∀ p ∈ s.live, p.size ≠ 0 ∧ p.offset % 32 = 0 ∧
    p.offset / 32 + (p.size + 31) / 32 ≤ memtblsize memx ∧
    ∀ i, p.offset / 32 ≤ i → i < p.offset / 32 + (p.size + 31) / 32 →
      s.dev.memmap i = (p.size + 31) / 32
  /-- No two runs overlap. -/
  apart : s.live.Pairwise fun p q =>
    p.offset / 32 + (p.size + 31) / 32 ≤ q.offset / 32 ∨
      q.offset / 32 + (q.size + 31) / 32 ≤ p.offset / 32
  /-- Every other entry is zero. -/
  unused : ∀ i < memtblsize memx,
    (∀ p ∈ s.live, ¬(p.offset / 32 ≤ i ∧ i < p.offset / 32 + (p.size + 31) / 32)) →
      s.dev.memmap i = 0
  /-- The byte ranges of the blocks are disjoint. -/
  bytes_apart : s.live.Pairwise fun p q =>
    p.offset + p.size ≤ q.offset ∨ q.offset + q.size ≤ p.offset
  /-- The byte ranges lie inside the pool. -/
  bytes_inside : ∀ p ∈ s.live, p.offset + p.size ≤ memsize memx
  /-- The usage is the share of the runs in the table, in percent. -/
  usage : my_mem_perused memx s.dev =
    100 * (s.live.map fun p => (p.size + 31) / 32).sum / memtblsize memx

/-- The counting loop of the usage percentage. -/
theorem foldl_used_eq (memmap : ℕ → ℕ) {n : ℕ} (hn : n < 4294967296) :
    (List.range n).foldl (fun used i => if memmap i ≠ 0 then uint32_t (used + 1) else used) 0 =
      ((Finset.range n).filter fun i => memmap i ≠ 0).card := by
  induction n with
  | zero => rfl
  | succ n ih =>
    have hle := Finset.card_filter_le (Finset.range n) (fun i => memmap i ≠ 0)
    rw [Finset.card_range] at hle
    rw [List.range_succ, List.foldl_append, ih (by omega), Finset.range_add_one,
      Finset.filter_insert]
    dsimp only [List.foldl_cons, List.foldl_nil]
    by_cases hz : memmap n ≠ 0
    · rw [if_pos hz, if_pos hz, Finset.card_insert_of_notMem (by simp)]
      exact Nat.mod_eq_of_lt (by omega)
    · rw [if_neg hz, if_neg hz]

/-- In a divided table the usage follows from the runs' lengths. -/
theorem my_mem_perused_eq {memx : Bank} {s : Pool} (hs : s.Divided memx) :
    my_mem_perused memx s.dev =
      100 * (s.live.map fun p => (p.size + 31) / 32).sum / memtblsize memx := by
  have hb := memtblsize_bounds memx
  have hcard := hs.tiles.card_used
  have hle := Finset.card_filter_le (Finset.range (memtblsize memx)) (fun i => s.dev.memmap i ≠ 0)
  rw [Finset.card_range] at hle
  have hsum : ((s.live.map (Block.run memx)).map Run.len).sum =
      (s.live.map fun p => (p.size + 31) / 32).sum := by
    rw [List.map_map]
    exact congrArg List.sum (List.map_congr_left fun p _ => blocksFor_eq memx p.size)
  rw [hsum] at hcard
  unfold my_mem_perused
  dsimp only
  rw [foldl_used_eq s.dev.memmap (by omega), ← hcard]
  generalize ((Finset.range (memtblsize memx)).filter fun i => s.dev.memmap i ≠ 0).card = used at *
  have hmul : uint32_t (used * 100) = 100 * used := by
    rw [Nat.mul_comm]
    exact Nat.mod_eq_of_lt (by omega)
  have hpercent : 100 * used / memtblsize memx ≤ 100 :=
    Nat.div_le_of_le_mul (by rw [Nat.mul_comm]; exact Nat.mul_le_mul_right 100 hle)
  rw [hmul]
  exact Nat.mod_eq_of_lt (by omega)

/-- After any sequence of client calls the table is the disjoint union of the
live blocks' runs and zeros. -/
theorem sound_of_reachable {memx : Bank} {s : Pool}
    (hs : Reachable (Initialised memx) (step memx) s) : s.Sound memx := by
  have hd := divided_of_reachable hs
  have hrun : ∀ p : Block, p.run memx = ⟨p.offset / 32, (p.size + 31) / 32⟩ := fun p => by
    rw [Block.run, memblksize_eq, blocksFor_eq]
  have haligned : ∀ p ∈ s.live, p.offset % 32 = 0 := fun p hp => by
    rw [← memblksize_eq memx]
    exact hd.aligned p hp
  have htiles := hd.tiles
  simp only [funext hrun] at htiles
  have hpos : ∀ p ∈ s.live, 0 < (p.size + 31) / 32 := fun p hp =>
    htiles.len_pos _ (List.mem_map_of_mem hp)
  have hinside : ∀ p ∈ s.live, p.offset / 32 + (p.size + 31) / 32 ≤ memtblsize memx := fun p hp =>
    htiles.inside _ (List.mem_map_of_mem hp)
  have hapart := List.pairwise_map.mp htiles.apart
  refine ⟨fun p hp => ⟨?_, haligned p hp, hinside p hp, fun i hlo hhi => ?_⟩, hapart, ?_, ?_, ?_,
    my_mem_perused_eq hd⟩
  · have := hpos p hp
    omega
  · exact htiles.held _ (List.mem_map_of_mem hp) i ⟨hlo, hhi⟩
  · intro i hi hnone
    exact htiles.unused i hi (List.forall_mem_map.mpr hnone)
  · refine hapart.imp_of_mem fun {p q} hp hq hpq => ?_
    have hp32 := haligned p hp
    have hq32 := haligned q hq
    unfold Run.Apart at hpq
    dsimp only at hpq
    omega
  · intro p hp
    have hp32 := haligned p hp
    have hend := hinside p hp
    rw [memsize_eq]
    omega

example : (memtblsize .SRAMIN, memtblsize .SRAMEX) = (1280, 30720) := by decide

/-- Of two blocks of the internal pool the upper one is freed, and a smaller
one is allocated there. -/
def reuse : List Call := [.malloc 40, .malloc 100, .free 40896, .malloc 10]

theorem sound_of_reuse : ∃ s : Pool,
    s.live = [⟨40928, 10⟩, ⟨40768, 100⟩] ∧ Reachable (Initialised .SRAMIN) (step .SRAMIN) s ∧
      s.Sound .SRAMIN := by
  have hlive : (run (step .SRAMIN) ⟨my_mem_init .SRAMIN ⟨fun _ => 0, fun _ => 0, 0⟩, []⟩ reuse).any
      (fun s => s.live = [⟨40928, 10⟩, ⟨40768, 100⟩]) = true := by
    decide +kernel
  obtain ⟨s, hrun, hs⟩ := (Option.any_eq_true _ _).mp hlive
  have hreach : Reachable (Initialised .SRAMIN) (step .SRAMIN) s := ⟨_, reuse, ⟨_, rfl⟩, hrun⟩
  exact ⟨s, of_decide_eq_true hs, hreach, sound_of_reachable hreach⟩

end SmartHome.PoolAllocator
