import SmartHome.BlockChains
import SmartHome.ByteMemory
import SmartHome.ForwardCopy
import SmartHome.MachineWords

/-!
# The heap of the kernel

The heap is one area of memory. Before each block of it, used or free, stands
a header with the offsets of the next and the previous block. A semaphore keeps
the functions from running at the same time; it and the hooks are left out.
Addresses are offsets from the start of the area, and a call has no result if
an assertion fails or a loop does not end.
-/

namespace SmartHome.KernelHeap

open BlockChains ByteMemory MachineWords

/-- The header of a block: magic and used with 16 bits, next and prev with 32. -/
abbrev heap_mem := Header

def HEAP_MAGIC : ℕ := 0x1ea0

def MIN_SIZE : ℕ := 12

def SIZEOF_STRUCT_MEM : ℕ := 12

/-- The next multiple of RT_ALIGN_SIZE, in 32 bits. -/
def RT_ALIGN (size : ℕ) : ℕ := uint32_t (size + 3) / 4 * 4

def RT_ALIGN_DOWN (size : ℕ) : ℕ := size / 4 * 4

/-- A difference in 32 bits. -/
def minus (a b : ℕ) : ℕ := if b ≤ a then a - b else 4294967296 - (b - a)

/-- The area from heap_ptr on and the variables of the heap. -/
structure Heap where
  ram : ℕ → UInt8
  mem_size_aligned : ℕ
  lfree : ℕ
  used_mem : ℕ
  max_mem : ℕ

/-- The last header, which is never free. -/
def Heap.heap_end (h : Heap) : ℕ := h.mem_size_aligned + SIZEOF_STRUCT_MEM

/-- The header at an offset. -/
def Heap.header (h : Heap) (mem : ℕ) : heap_mem :=
  ⟨load h.ram mem 2, load h.ram (mem + 2) 2, load h.ram (mem + 4) 4, load h.ram (mem + 8) 4⟩

/-- Change the header at an offset. -/
def Heap.modify (h : Heap) (mem : ℕ) (f : heap_mem → heap_mem) : Heap :=
  let x := f (h.header mem)
  { h with
    ram := store (store (store (store h.ram mem 2 x.magic) (mem + 2) 2 x.used) (mem + 4) 4 x.next)
      (mem + 8) 4 x.prev }

/-- More steps than a loop over the blocks can take. -/
def Heap.fuel (h : Heap) : ℕ := h.mem_size_aligned + 2

/-- The block at low is enlarged by the one at high behind it. -/
def Heap.join (h : Heap) (low high : ℕ) : Heap :=
  let next := (h.header high).next
  let h := { h with lfree := if h.lfree = high then low else h.lfree }
  let h := h.modify low fun mem => { mem with next := next }
  h.modify next fun mem => { mem with prev := low }

/-- Join a free block with free neighbours. -/
def Heap.plug_holes (h : Heap) (mem : ℕ) : Option Heap :=
  if mem < h.heap_end ∧ (h.header mem).used = 0 then
    -- plug hole forward
    let nmem := (h.header mem).next
    let h := if mem ≠ nmem ∧ (h.header nmem).used = 0 ∧ nmem ≠ h.heap_end then h.join mem nmem
      else h
    -- plug hole backward
    let pmem := (h.header mem).prev
    some (if pmem ≠ mem ∧ (h.header pmem).used = 0 then h.join pmem mem else h)
  else none

/-- Initialize the heap in an area with whatever contents. -/
def rt_system_heap_init (ram : ℕ → UInt8) (begin_addr end_addr : ℕ) : Option Heap :=
  let begin_align := RT_ALIGN begin_addr
  let end_align := RT_ALIGN_DOWN end_addr
  if end_align > 2 * SIZEOF_STRUCT_MEM ∧ end_align - 2 * SIZEOF_STRUCT_MEM ≥ begin_align then
    let h : Heap := ⟨ram, end_align - begin_align - 2 * SIZEOF_STRUCT_MEM, 0, 0, 0⟩
    let h := h.modify 0 fun _ => ⟨HEAP_MAGIC, 0, h.heap_end, 0⟩
    some (h.modify h.heap_end fun _ => ⟨HEAP_MAGIC, 1, h.heap_end, h.heap_end⟩)
  else none

/-- The loop of rt_malloc for the first free block that is large enough. -/
def Heap.search (h : Heap) (size : ℕ) : ℕ → ℕ → Option (Option ℕ)
  | 0, _ => none
  | fuel + 1, ptr =>
    if ptr < minus h.mem_size_aligned size then
      let mem := h.header ptr
      if mem.used = 0 ∧ minus mem.next (ptr + SIZEOF_STRUCT_MEM) ≥ size then some (some ptr)
      else h.search size fuel mem.next
    else some none

/-- A free block is created behind the block at ptr, from ptr2 on. -/
def Heap.split (h : Heap) (ptr ptr2 : ℕ) : Heap :=
  let next := (h.header ptr).next
  let h := h.modify ptr2 fun _ => ⟨HEAP_MAGIC, 0, next, ptr⟩
  let h := h.modify ptr fun mem => { mem with next := ptr2 }
  if next ≠ h.heap_end then h.modify next fun mem => { mem with prev := ptr2 } else h

/-- Account for a block that is taken. -/
def Heap.account (h : Heap) (n : ℕ) : Heap :=
  let used_mem := uint32_t (h.used_mem + n)
  { h with used_mem := used_mem, max_mem := if h.max_mem < used_mem then used_mem else h.max_mem }

/-- Take the block at ptr, or the first part of it if the rest can be a block. -/
def Heap.take (h : Heap) (size ptr : ℕ) : Heap :=
  let next := (h.header ptr).next
  let h :=
    if minus next (ptr + SIZEOF_STRUCT_MEM) ≥ size + SIZEOF_STRUCT_MEM + MIN_SIZE then
      let h := h.split ptr (ptr + SIZEOF_STRUCT_MEM + size)
      (h.modify ptr fun mem => { mem with used := 1 }).account (size + SIZEOF_STRUCT_MEM)
    else (h.modify ptr fun mem => { mem with used := 1 }).account (minus next ptr)
  h.modify ptr fun mem => { mem with magic := HEAP_MAGIC }

/-- The loop of rt_malloc for the next block that is free. -/
def Heap.skipUsed (h : Heap) : ℕ → ℕ → Option ℕ
  | 0, _ => none
  | fuel + 1, lfree =>
    if (h.header lfree).used ≠ 0 ∧ lfree ≠ h.heap_end then h.skipUsed fuel (h.header lfree).next
    else some lfree

/-- After the block at mem is taken, lfree is a free block again. -/
def Heap.findLowest (h : Heap) (mem : ℕ) : Option Heap :=
  if mem = h.lfree then
    (h.skipUsed h.fuel h.lfree).bind fun lfree =>
      if lfree = h.heap_end ∨ (h.header lfree).used = 0 then some { h with lfree := lfree }
      else none
  else some h

/-- Allocate a block of memory. -/
def Heap.rt_malloc (h : Heap) (size : ℕ) : Option (Heap × Option ℕ) :=
  if size = 0 then some (h, none)
  else
    let size := RT_ALIGN size
    if size > h.mem_size_aligned then some (h, none)
    else
      -- every data block must be at least MIN_SIZE long
      let size := if size < MIN_SIZE then MIN_SIZE else size
      match h.search size h.fuel h.lfree with
      | none => none
      | some none => some (h, none)
      | some (some ptr) =>
        ((h.take size ptr).findLowest ptr).bind fun h =>
          if ptr + SIZEOF_STRUCT_MEM + size ≤ h.heap_end ∧ (ptr + SIZEOF_STRUCT_MEM) % 4 = 0 then
            some (h, some (ptr + SIZEOF_STRUCT_MEM))
          else none

/-- Release a block of memory; an address before the first block is left out. -/
def Heap.rt_free (h : Heap) : Option ℕ → Option Heap
  | none => some h
  | some rmem =>
    if rmem % 4 = 0 ∧ SIZEOF_STRUCT_MEM ≤ rmem ∧ rmem < h.heap_end then
      let mem := rmem - SIZEOF_STRUCT_MEM
      if (h.header mem).used ≠ 0 ∧ (h.header mem).magic = HEAP_MAGIC then
        let h := h.modify mem fun x => { x with used := 0, magic := HEAP_MAGIC }
        let h := { h with lfree := if mem < h.lfree then mem else h.lfree }
        let h := { h with used_mem := minus h.used_mem (minus (h.header mem).next mem) }
        h.plug_holes mem
      else none
    else none

/-- Copy memory; the words of an aligned copy are taken byte by byte. -/
def rt_memcpy (ram : ℕ → UInt8) (dst src count : ℕ) : ℕ → UInt8 :=
  ForwardCopy.copyWith (fun m i => m (src + i)) dst count ram

/-- Fill memory with a byte. -/
def rt_memset (ram : ℕ → UInt8) (s : ℕ) (c : UInt8) (count : ℕ) : ℕ → UInt8 :=
  ForwardCopy.copyWith (fun _ _ => c) s count ram

/-- Change the size of a block of memory. -/
def Heap.rt_realloc (h : Heap) (rmem : Option ℕ) (newsize : ℕ) : Option (Heap × Option ℕ) :=
  let newsize := RT_ALIGN newsize
  if newsize > h.mem_size_aligned then some (h, none)
  else if newsize = 0 then (h.rt_free rmem).map fun h => (h, none)
  else
    match rmem with
    | none => h.rt_malloc newsize
    | some rmem =>
      if rmem ≥ h.heap_end then some (h, some rmem)
      else
        let ptr := rmem - SIZEOF_STRUCT_MEM
        let size := minus (minus (h.header ptr).next ptr) SIZEOF_STRUCT_MEM
        if size = newsize then some (h, some rmem)
        else if newsize + SIZEOF_STRUCT_MEM + MIN_SIZE < size then
          -- split memory block
          let ptr2 := ptr + SIZEOF_STRUCT_MEM + newsize
          let h := { h with used_mem := minus h.used_mem (minus size newsize) }
          ((h.split ptr ptr2).plug_holes ptr2).map fun h => (h, some rmem)
        else
          -- expand memory
          match h.rt_malloc newsize with
          | none => none
          | some (h, none) => some (h, none)
          | some (h, some nmem) =>
            let ram := rt_memcpy h.ram nmem rmem (if size < newsize then size else newsize)
            (Heap.rt_free { h with ram := ram } (some rmem)).map fun h => (h, some nmem)

/-- Allocate a block of memory that is filled with zeros. -/
def Heap.rt_calloc (h : Heap) (count size : ℕ) : Option (Heap × Option ℕ) :=
  (h.rt_malloc (uint32_t (count * size))).map fun
    | (h, none) => (h, none)
    | (h, some p) => ({ h with ram := rt_memset h.ram p 0 (uint32_t (count * size)) }, some p)

/-! ### Headers -/

theorem RT_ALIGN_mod (size : ℕ) : RT_ALIGN size % 4 = 0 := Nat.mul_mod_left _ _

/-- A size is rounded up unless that leaves 32 bits. -/
theorem le_RT_ALIGN {size : ℕ} (h : size + 3 < 4294967296) :
    size ≤ RT_ALIGN size ∧ RT_ALIGN size < size + 4 := by
  rw [RT_ALIGN, uint32_t, Nat.mod_eq_of_lt h]
  omega

theorem minus_eq {a b : ℕ} (hle : b ≤ a) : minus a b = a - b := if_pos hle

/-- The fields of a header fit into their bytes. -/
def Fits (x : heap_mem) : Prop :=
  x.magic < 256 ^ 2 ∧ x.used < 256 ^ 2 ∧ x.next < 256 ^ 4 ∧ x.prev < 256 ^ 4

theorem header_fits (h : Heap) (mem : ℕ) : Fits (h.header mem) :=
  ⟨load_lt _ _ _, load_lt _ _ _, load_lt _ _ _, load_lt _ _ _⟩

variable {h : Heap} {mem s : ℕ} {f : heap_mem → heap_mem}

@[simp] theorem modify_mem_size_aligned :
    (h.modify mem f).mem_size_aligned = h.mem_size_aligned := rfl

@[simp] theorem modify_lfree : (h.modify mem f).lfree = h.lfree := rfl

@[simp] theorem modify_used_mem : (h.modify mem f).used_mem = h.used_mem := rfl

@[simp] theorem modify_heap_end : (h.modify mem f).heap_end = h.heap_end := rfl

@[simp] theorem account_ram {n : ℕ} : (h.account n).ram = h.ram := rfl

@[simp] theorem account_mem_size_aligned {n : ℕ} :
    (h.account n).mem_size_aligned = h.mem_size_aligned := rfl

@[simp] theorem account_lfree {n : ℕ} : (h.account n).lfree = h.lfree := rfl

@[simp] theorem account_used_mem {n : ℕ} :
    (h.account n).used_mem = uint32_t (h.used_mem + n) := rfl

/-- A changed header. -/
theorem header_modify_self (hfits : Fits (f (h.header mem))) :
    (h.modify mem f).header mem = f (h.header mem) := by
  obtain ⟨hmagic, hused, hnext, hprev⟩ := hfits
  rw [Heap.header, Heap.modify]
  dsimp only
  rw [load_store_apart _ _ (by omega), load_store_apart _ _ (by omega),
    load_store_apart _ _ (by omega), load_store_self, load_store_apart _ _ (by omega),
    load_store_apart _ _ (by omega), load_store_self, load_store_apart _ _ (by omega),
    load_store_self, load_store_self, Nat.mod_eq_of_lt hmagic, Nat.mod_eq_of_lt hused,
    Nat.mod_eq_of_lt hnext, Nat.mod_eq_of_lt hprev]

/-- Bytes outside a changed header. -/
theorem modify_ram {i : ℕ} (hi : i < mem ∨ mem + 12 ≤ i) : (h.modify mem f).ram i = h.ram i := by
  rw [Heap.modify]
  dsimp only
  rw [store_apart _ (by omega), store_apart _ (by omega), store_apart _ (by omega),
    store_apart _ (by omega)]

/-- A header is made of 12 bytes. -/
theorem header_congr {h' : Heap} (hram : ∀ i, s ≤ i → i < s + 12 → h'.ram i = h.ram i) :
    h'.header s = h.header s := by
  rw [Heap.header, Heap.header, load_congr fun i _ _ => hram i (by omega) (by omega),
    load_congr fun i _ _ => hram i (by omega) (by omega),
    load_congr fun i _ _ => hram i (by omega) (by omega),
    load_congr fun i _ _ => hram i (by omega) (by omega)]

/-- Another header is not touched. -/
theorem header_modify_apart (hs : s + 12 ≤ mem ∨ mem + 12 ≤ s) :
    (h.modify mem f).header s = h.header s :=
  header_congr fun _ _ _ => modify_ram (by omega)

end SmartHome.KernelHeap
