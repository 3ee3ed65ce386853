import Mathlib.Data.List.Basic
import Mathlib.Logic.Function.Basic
import SmartHome.MachineWords
import SmartHome.TransitionRuns

/-!
# The pool allocator

A pool of 32-byte blocks is managed by a table with one 16-bit entry for each
block. Allocation searches the table downwards for enough consecutive zero
entries and stores the block count in each of them; freeing zeroes as many
entries as the first one says. The functions touch the part of mallco_dev of
one bank only, so a state is that part. Entries after the table's end are
whatever memory follows it.
-/

namespace SmartHome.PoolAllocator

open MachineWords TransitionRuns

/-- The two managed pools. -/
inductive Bank where
  | SRAMIN
  | SRAMEX
  deriving DecidableEq, Repr

/-- Size of a memory block in bytes. -/
def memblksize : Bank → ℕ
  | .SRAMIN => 32
  | .SRAMEX => 32

/-- Size of a pool in bytes. -/
def memsize : Bank → ℕ
  | .SRAMIN => 40 * 1024
  | .SRAMEX => 960 * 1024

/-- Number of entries of the allocation table. -/
def memtblsize (memx : Bank) : ℕ := memsize memx / memblksize memx

/-- One bank's part of mallco_dev, with its pool and table. -/
structure Dev where
  /-- Pool bytes by offset. -/
  membase : ℕ → ℕ
  /-- Allocation table entries by index. -/
  memmap : ℕ → ℕ
  /-- Nonzero once the pool has been initialised. -/
  memrdy : ℕ

/-- Zero the table and the pool and mark the bank ready. -/
def my_mem_init (memx : Bank) (d : Dev) : Dev where
  memmap := fun i => if i < memtblsize memx then 0 else d.memmap i
  membase := fun i => if i < memsize memx then 0 else d.membase i
  memrdy := 1

/-- Percentage of nonzero table entries. -/
def my_mem_perused (memx : Bank) (d : Dev) : ℕ :=
  let used := (List.range (memtblsize memx)).foldl (fun used i =>
    if d.memmap i ≠ 0 then uint32_t (used + 1) else used) 0
  uint8_t (uint32_t (used * 100) / memtblsize memx)

/-- Downward search from the entry before the given count; cmemb zero entries
follow it. The start of nmemb consecutive zero entries is returned. -/
def findRun (memmap : ℕ → ℕ) (nmemb : ℕ) : ℕ → ℕ → Option ℕ
  | 0, _ => none
  | offset + 1, cmemb =>
    let cmemb := if memmap offset = 0 then uint32_t (cmemb + 1) else 0
    if cmemb = nmemb then some offset else findRun memmap nmemb offset cmemb

/-- Store the block count in each entry of a run. -/
def markRun (memmap : ℕ → ℕ) (offset nmemb : ℕ) : ℕ → ℕ :=
  (List.range nmemb).foldl (fun m i => Function.update m (offset + i) (uint16_t nmemb)) memmap

/-- Zero the entries of a run. -/
def clearRun (memmap : ℕ → ℕ) (index nmemb : ℕ) : ℕ → ℕ :=
  (List.range nmemb).foldl (fun m i => Function.update m (index + i) 0) memmap

/-- Blocks needed for a size in bytes. -/
def blocksFor (memx : Bank) (size : ℕ) : ℕ :=
  if size % memblksize memx ≠ 0 then size / memblksize memx + 1 else size / memblksize memx

/-- Allocate size bytes; the offset into the pool or 0xFFFFFFFF is returned. -/
def my_mem_malloc (memx : Bank) (d : Dev) (size : ℕ) : Dev × ℕ :=
  let d := if d.memrdy = 0 then my_mem_init memx d else d
  if size = 0 then (d, 0xFFFFFFFF)
  else
    let nmemb := blocksFor memx size
    match findRun d.memmap nmemb (memtblsize memx) 0 with
    | some offset =>
      ({ d with memmap := markRun d.memmap offset nmemb }, uint32_t (offset * memblksize memx))
    | none => (d, 0xFFFFFFFF)

/-- Free the block at an offset: 0 on success, 1 before initialisation, 2 for
an offset outside the pool. -/
def my_mem_free (memx : Bank) (d : Dev) (offset : ℕ) : Dev × ℕ :=
  if d.memrdy = 0 then (my_mem_init memx d, 1)
  else if offset < memsize memx then
    let index := offset / memblksize memx
    ({ d with memmap := clearRun d.memmap index (d.memmap index) }, 0)
  else (d, 2)

/-- A block the client holds: the offset returned for the requested size. -/
structure Block where
  offset : ℕ
  size : ℕ
  deriving DecidableEq, Repr

/-- A bank together with the blocks its clients hold. -/
structure Pool where
  dev : Dev
  /-- Blocks returned by an allocation and not freed since. -/
  live : List Block

/-- Calls of a client that frees only what it holds. -/
inductive Call where
  | malloc (size : UInt32)
  | free (offset : UInt32)
  deriving DecidableEq, Repr

/-- One client call; freeing needs a live block at the offset. -/
def step (memx : Bank) (s : Pool) : Call → Option Pool
  | .malloc size =>
    let (dev, offset) := my_mem_malloc memx s.dev size.toNat
    some { dev := dev,
           live := if offset = 0xFFFFFFFF then s.live else ⟨offset, size.toNat⟩ :: s.live }
  | .free offset =>
    if s.live.any (·.offset = offset.toNat) then
      some { dev := (my_mem_free memx s.dev offset.toNat).1,
             live := s.live.eraseP (·.offset = offset.toNat) }
    else none

/-- The state right after initialisation, whatever memory held before. -/
def Initialised (memx : Bank) (s : Pool) : Prop := ∃ d, s = ⟨my_mem_init memx d, []⟩

end SmartHome.PoolAllocator
