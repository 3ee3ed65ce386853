import Mathlib.Order.Bounds.Basic
import SmartHome.PoolAllocator
import SmartHome.RunTables

/-!
# The search for consecutive zero entries

The downward search counts the zero entries that it has just passed, and a
used entry resets the count. For every table it finds the highest place with
enough zero entries, and it fails only where there is none, also for block
counts that exceed the table.
-/

namespace SmartHome.PoolAllocator

open MachineWords RunTables

/-- The n entries from i on lie before the end and are zero. -/
def ZeroRun (memmap : ℕ → ℕ) (n stop i : ℕ) : Prop :=
  i + n ≤ stop ∧ ∀ j, i ≤ j → j < i + n → memmap j = 0

/-- What the search promises: the highest run, if there is one. -/
def Finds (memmap : ℕ → ℕ) (n stop : ℕ) : Option ℕ → Prop
  | some o => IsGreatest {i | ZeroRun memmap n stop i} o
  | none => ∀ i, ¬ZeroRun memmap n stop i

/-- Entries from k on that have been passed: c zero entries, which cannot be
extended upwards, and no run of n. -/
structure Passed (memmap : ℕ → ℕ) (n stop k c : ℕ) : Prop where
  short : c < n
  fits : k + c ≤ stop
  zero : ∀ j, k ≤ j → j < k + c → memmap j = 0
  maximal : k + c = stop ∨ memmap (k + c) ≠ 0
  none : ∀ i, k ≤ i → ¬ZeroRun memmap n stop i

theorem memblksize_eq (memx : Bank) : memblksize memx = 32 := by cases memx <;> rfl

theorem memsize_eq (memx : Bank) : memsize memx = memtblsize memx * 32 := by cases memx <;> rfl

theorem memtblsize_bounds (memx : Bank) : 0 < memtblsize memx ∧ memtblsize memx ≤ 30720 := by
  cases memx <;> decide

/-- The block count is the size divided by 32 and rounded up. -/
theorem blocksFor_eq (memx : Bank) (size : ℕ) : blocksFor memx size = (size + 31) / 32 := by
  unfold blocksFor
  rw [memblksize_eq]
  split <;> omega

section Search

variable {memmap : ℕ → ℕ} {n stop k c : ℕ}

/-- Nothing has been passed at the start. -/
theorem Passed.start (hn : 0 < n) : Passed memmap n stop stop 0 where
  short := hn
  fits := le_rfl
  zero j hlo hhi := absurd hhi (by omega)
  maximal := Or.inl rfl
  none i hlo hrun := absurd hrun.1 (by omega)

/-- A used entry ends the count. -/
theorem Passed.used (h : Passed memmap n stop (k + 1) c) (hk : memmap k ≠ 0) :
    Passed memmap n stop k 0 where
  short := Nat.zero_lt_of_lt h.short
  fits := by have := h.fits; omega
  zero j hlo hhi := absurd hhi (by omega)
  maximal := Or.inr hk
  none i hlo hrun := by
    rcases Nat.eq_or_lt_of_le hlo with rfl | hlt
    · exact hk (hrun.2 _ le_rfl (by have := h.short; omega))
    · exact h.none i hlt hrun

/-- A zero entry adds one to the zero entries above it. -/
theorem Passed.zero_succ (h : Passed memmap n stop (k + 1) c) (hk : memmap k = 0) {j : ℕ}
    (hlo : k ≤ j) (hhi : j < k + (c + 1)) : memmap j = 0 := by
  rcases Nat.eq_or_lt_of_le hlo with rfl | hlt
  · exact hk
  · exact h.zero j hlt (by omega)

/-- A zero entry that does not complete a run lengthens the count. -/
theorem Passed.lengthen (h : Passed memmap n stop (k + 1) c) (hk : memmap k = 0)
    (hmore : c + 1 ≠ n) : Passed memmap n stop k (c + 1) where
  short := by have := h.short; omega
  fits := by have := h.fits; omega
  zero _ hlo hhi := h.zero_succ hk hlo hhi
  maximal := by
    rw [show k + (c + 1) = k + 1 + c by omega]
    exact h.maximal
  none i hlo hrun := by
    have hshort := h.short
    rcases Nat.eq_or_lt_of_le hlo with rfl | hlt
    · -- the entry above the count would belong to the run
      rcases h.maximal with hend | hused
      · have hfit := hrun.1
        omega
      · exact hused (hrun.2 _ (by omega) (by omega))
    · exact h.none i hlt hrun

/-- A zero entry that completes a run is the start of the highest one. -/
theorem Passed.complete (h : Passed memmap n stop (k + 1) c) (hk : memmap k = 0)
    (hdone : c + 1 = n) : IsGreatest {i | ZeroRun memmap n stop i} k := by
  have hfit := h.fits
  refine ⟨⟨by omega, fun j hlo hhi => h.zero_succ hk hlo (by omega)⟩, fun i hrun => ?_⟩
  by_contra hlt
  exact h.none i (by omega) hrun

/-- The search keeps its promise from every point that it reaches. -/
theorem findRun_finds (hstop : stop < 4294967296) (h : Passed memmap n stop k c) :
    Finds memmap n stop (findRun memmap n k c) := by
  induction k generalizing c with
  | zero => exact fun i => h.none i (Nat.zero_le i)
  | succ k ih =>
    have hfit := h.fits
    have hshort := h.short
    unfold findRun
    dsimp only
    by_cases hk : memmap k = 0
    · have hcount : uint32_t (c + 1) = c + 1 := Nat.mod_eq_of_lt (by omega)
      rw [if_pos hk, hcount]
      by_cases hdone : c + 1 = n
      · rw [if_pos hdone]
        exact h.complete hk hdone
      · rw [if_neg hdone]
        exact ih (h.lengthen hk hdone)
    · rw [if_neg hk, if_neg (by omega)]
      exact ih (h.used hk)

/-- The search through a whole table. -/
theorem findRun_table (memx : Bank) (memmap : ℕ → ℕ) {size : ℕ} (hsize : size ≠ 0) :
    Finds memmap ((size + 31) / 32) (memtblsize memx)
      (findRun memmap (blocksFor memx size) (memtblsize memx) 0) := by
  have hb := memtblsize_bounds memx
  rw [blocksFor_eq]
  exact findRun_finds (by omega) (Passed.start (by omega))

end Search

/-- Marking stores the exact block count when it fits an entry. -/
theorem markRun_eq (memmap : ℕ → ℕ) (offset : ℕ) {nmemb : ℕ} (h : nmemb < 65536) :
    markRun memmap offset nmemb = fill memmap offset nmemb nmemb := by
  unfold markRun
  rw [show uint16_t nmemb = nmemb from Nat.mod_eq_of_lt h]
  exact foldl_update_eq_fill memmap offset nmemb nmemb

/-- The request cannot be granted: nothing is asked for, or no place is left. -/
def Refused (memx : Bank) (d : Dev) (size : ℕ) : Prop :=
  size = 0 ∨ ∀ i, ¬ZeroRun d.memmap ((size + 31) / 32) (memtblsize memx) i

/-- A refused request changes nothing. -/
theorem my_mem_malloc_refused {memx : Bank} {d : Dev} (hready : d.memrdy ≠ 0) {size : ℕ}
    (h : Refused memx d size) : my_mem_malloc memx d size = (d, 0xFFFFFFFF) := by
  unfold my_mem_malloc
  dsimp only
  rw [if_neg hready]
  by_cases hsize : size = 0
  · exact if_pos hsize
  · have hfinds := findRun_table memx d.memmap hsize
    rw [if_neg hsize]
    cases hfind : findRun d.memmap (blocksFor memx size) (memtblsize memx) 0 with
    | none => rfl
    | some o =>
      rw [hfind] at hfinds
      exact absurd hfinds.1 (h.resolve_left hsize o)

/-- Any other request takes the highest place for its blocks. -/
theorem my_mem_malloc_granted {memx : Bank} {d : Dev} (hready : d.memrdy ≠ 0) {size : ℕ}
    (h : ¬Refused memx d size) :
    ∃ i, IsGreatest {i | ZeroRun d.memmap ((size + 31) / 32) (memtblsize memx) i} i ∧
      my_mem_malloc memx d size =
        ({ d with memmap := fill d.memmap i ((size + 31) / 32) ((size + 31) / 32) }, 32 * i) := by
  have hb := memtblsize_bounds memx
  obtain ⟨hsize, hplace⟩ := not_or.mp h
  have hfinds := findRun_table memx d.memmap hsize
  unfold my_mem_malloc
  dsimp only
  rw [if_neg hready, if_neg hsize]
  cases hfind : findRun d.memmap (blocksFor memx size) (memtblsize memx) 0 with
  | none =>
    rw [hfind] at hfinds
    exact absurd hfinds hplace
  | some o =>
    rw [hfind] at hfinds
    have hfit := hfinds.1.1
    refine ⟨o, hfinds, ?_⟩
    have hoffset : uint32_t (o * memblksize memx) = 32 * o := by
      rw [memblksize_eq, Nat.mul_comm]
      exact Nat.mod_eq_of_lt (by omega)
    dsimp only
    rw [blocksFor_eq, markRun_eq d.memmap o (by omega), hoffset]

/-- For every table and every size the allocation fails, without effect on the
table, exactly if nothing is asked for or there are not enough consecutive zero
entries; otherwise it marks the highest such entries and no other. -/
theorem my_mem_malloc_finds (memx : Bank) (d : Dev) (hready : d.memrdy ≠ 0) (size : UInt32) :
    ((my_mem_malloc memx d size.toNat).2 = 0xFFFFFFFF ∧
        (my_mem_malloc memx d size.toNat).1.memmap = d.memmap ↔ Refused memx d size.toNat) ∧
      (¬Refused memx d size.toNat → ∃ i,
        IsGreatest {i | ZeroRun d.memmap ((size.toNat + 31) / 32) (memtblsize memx) i} i ∧
        (my_mem_malloc memx d size.toNat).2 = 32 * i ∧
        ∀ j, (my_mem_malloc memx d size.toNat).1.memmap j =
          if i ≤ j ∧ j < i + (size.toNat + 31) / 32 then (size.toNat + 31) / 32
          else d.memmap j) := by
  refine ⟨⟨fun hfail => ?_, fun h => ?_⟩, fun h => ?_⟩
  · by_contra hgrant
    obtain ⟨i, hgreatest, hresult⟩ := my_mem_malloc_granted hready hgrant
    have hb := memtblsize_bounds memx
    have hfit := hgreatest.1.1
    rw [hresult] at hfail
    have hoffset : 32 * i = 0xFFFFFFFF := hfail.1
    omega
  · rw [my_mem_malloc_refused hready h]
    exact ⟨rfl, rfl⟩
  · obtain ⟨i, hgreatest, hresult⟩ := my_mem_malloc_granted hready h
    rw [hresult]
    exact ⟨i, hgreatest, rfl, fun j => rfl⟩

/-- An initialised internal pool with one used entry, close to the end. -/
def fragmented : Dev := ⟨fun _ => 0, fun i => if i = 1275 then 1 else 0, 1⟩

/-- Five blocks do not fit above the used entry. -/
theorem my_mem_malloc_finds_below : ∃ i,
    IsGreatest {i | ZeroRun fragmented.memmap 5 (memtblsize .SRAMIN) i} i ∧
      (my_mem_malloc .SRAMIN fragmented 150).2 = 32 * i ∧
      ∀ j, (my_mem_malloc .SRAMIN fragmented 150).1.memmap j =
        if i ≤ j ∧ j < i + 5 then 5 else fragmented.memmap j := by
  have hplace : ZeroRun fragmented.memmap 5 (memtblsize .SRAMIN) 0 :=
    ⟨by decide, fun j _ hj => if_neg (by omega)⟩
  have hgrant : ¬Refused .SRAMIN fragmented 150 := fun h =>
    h.elim (by decide) fun hnone => hnone 0 hplace
  exact (my_mem_malloc_finds .SRAMIN fragmented (by decide) 150).2 hgrant

end SmartHome.PoolAllocator
