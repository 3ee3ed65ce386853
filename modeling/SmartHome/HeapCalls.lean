import SmartHome.HeapBlocks

/-!
# Allocating and releasing blocks of the kernel heap

Each function of the heap keeps its blocks in order, adds or removes one used
block and leaves the contents of the others alone. A search that finds nothing
means that no free block from the one the heap points to on has room, apart
from one at the end of the heap that would fit exactly.
-/

namespace SmartHome.KernelHeap

open BlockChains ByteMemory MachineWords

/-- The heap between the calls. -/
structure Good (h : Heap) (bs : List Block) : Prop where
  layout : Layout h bs
  merged : Merged bs
  points : PointsFree h bs
  used_lt : ∀ s b, (s, b) ∈ placed 0 bs → b.used = true → 12 < b.size
  used_mem_eq : h.used_mem = usedTotal bs
  room : 12 ≤ h.mem_size_aligned

variable {h h' : Heap} {bs bs' pre post : List Block} {n k s size : ℕ} {u : Bool}

/-! ### Releasing -/

/-- The used block at s has become free. -/
structure Freed (h h' : Heap) (bs bs' : List Block) (s : ℕ) : Prop where
  good : Good h' bs'
  size_eq : h'.mem_size_aligned = h.mem_size_aligned
  used_iff : ∀ t b, b.used = true → ((t, b) ∈ placed 0 bs' ↔ (t, b) ∈ placed 0 bs ∧ t ≠ s)
  kept : ∀ i, InUse 12 0 bs' i → h'.ram i = h.ram i
  lowest : Lowest h bs → Lowest h' bs'

/-- Only the memory and the length of the heap make its layout. -/
theorem Layout.congr (hl : Layout h bs) (hram : h'.ram = h.ram)
    (hsize : h'.mem_size_aligned = h.mem_size_aligned) : Layout h' bs := by
  have hheader : h'.header = h.header := by
    funext s
    exact header_congr fun i _ _ => by rw [hram]
  have hend : h'.heap_end = h.heap_end := by rw [Heap.heap_end, hsize, Heap.heap_end]
  refine ⟨?_, hl.size_le, hl.size_mod, ?_, ?_, ?_⟩
  · rw [hheader]
    exact hl.chain
  · rw [hend]
    exact hl.total_eq
  · rw [hend, hheader]
    exact hl.end_used
  · rw [hend]
    exact hl.small

/-- The free blocks after one has become free. -/
theorem freeAt_mark : FreeAt (pre ++ ⟨n, false⟩ :: post) s ↔
    FreeAt (pre ++ ⟨n, true⟩ :: post) s ∨ s = total pre := by
  simp only [FreeAt, placed_append, placed, List.mem_append, List.mem_cons, Nat.zero_add,
    Prod.mk.injEq]
  constructor
  · rintro ⟨b, hb | ⟨rfl, rfl⟩ | hb, hused⟩
    · exact Or.inl ⟨b, Or.inl hb, hused⟩
    · exact Or.inr rfl
    · exact Or.inl ⟨b, Or.inr (Or.inr hb), hused⟩
  · rintro (⟨b, hb | ⟨rfl, rfl⟩ | hb, hused⟩ | rfl)
    · exact ⟨b, Or.inl hb, hused⟩
    · cases hused
    · exact ⟨b, Or.inr (Or.inr hb), hused⟩
    · exact ⟨⟨n, false⟩, Or.inr (Or.inl ⟨rfl, rfl⟩), rfl⟩

/-- The used blocks after one has become free. -/
theorem used_mark (hl : Layout h (pre ++ ⟨n, true⟩ :: post)) {t : ℕ} {b : Block}
    (hb : b.used = true) : (t, b) ∈ placed 0 (pre ++ ⟨n, false⟩ :: post) ↔
      (t, b) ∈ placed 0 (pre ++ ⟨n, true⟩ :: post) ∧ t ≠ total pre := by
  obtain ⟨-, hsize, -⟩ := hl.block_le
  simp only [placed_append, placed, List.mem_append, List.mem_cons, Nat.zero_add, Prod.mk.injEq]
  constructor
  · rintro (hx | ⟨rfl, rfl⟩ | hx)
    · have := hl.pre_lt hx
      exact ⟨Or.inl hx, by omega⟩
    · cases hb
    · have := (placed_bounds hx).1
      exact ⟨Or.inr (Or.inr hx), by omega⟩
  · rintro ⟨hx | ⟨rfl, rfl⟩ | hx, hne⟩
    · exact Or.inl hx
    · exact absurd rfl hne
    · exact Or.inr (Or.inr hx)

/-- A used block is released. -/
theorem rt_free_freed (hg : Good h (pre ++ ⟨n, true⟩ :: post)) :
    ∃ h' bs', h.rt_free (some (total pre + 12)) = some h' ∧
      Freed h h' (pre ++ ⟨n, true⟩ :: post) bs' (total pre) := by
  have hl := hg.layout
  obtain ⟨hle, hsize, hmod⟩ := hl.block_le
  have hheader := hl.header_eq
  have haligned : total pre % 4 = 0 :=
    total_mod fun b hb => hl.size_mod b (List.mem_append_left _ hb)
  obtain ⟨h₁, hh₁⟩ : ∃ x, x = h.modify (total pre) fun x =>
    { x with used := 0, magic := HEAP_MAGIC } := ⟨_, rfl⟩
  obtain ⟨h₂, hh₂⟩ : ∃ x : Heap, x = { h₁ with
    lfree := if total pre < h.lfree then total pre else h.lfree
    used_mem := minus h.used_mem (minus (h₁.header (total pre)).next (total pre)) } := ⟨_, rfl⟩
  have hl₁ : Layout h₁ (pre ++ ⟨n, false⟩ :: post) := by
    rw [hh₁]
    exact hl.mark (by rw [hheader]; rfl)
  have hl₂ : Layout h₂ (pre ++ ⟨n, false⟩ :: post) := hl₁.congr (by rw [hh₂]) (by rw [hh₂])
  have hsame₁ : h₁.mem_size_aligned = h.mem_size_aligned := by
    rw [hh₁]
    rfl
  have hsame₂ : h₂.mem_size_aligned = h.mem_size_aligned := by
    rw [hh₂]
    exact hsame₁
  have hlfree : h₂.lfree = if total pre < h.lfree then total pre else h.lfree := by rw [hh₂]
  have hram : ∀ i, InUse 12 0 (pre ++ ⟨n, false⟩ :: post) i → h₂.ram i = h.ram i := by
    intro i hi
    rw [hh₂]
    dsimp only
    rw [hh₁, modify_ram (hl₂.not_boundary hi)]
  have hused : h₂.used_mem = usedTotal (pre ++ ⟨n, false⟩ :: post) := by
    have hnext : (h₁.header (total pre)).next = total pre + n := by rw [hl₁.header_eq]
    have htotal := hg.used_mem_eq
    rw [usedTotal_append, usedTotal] at htotal
    simp only [if_true] at htotal
    rw [hh₂, usedTotal_append, usedTotal]
    simp only [Bool.false_eq_true, if_false]
    rw [hnext, minus_eq (Nat.le_add_right _ _), minus_eq (by omega)]
    omega
  have hpoints : PointsFree h₂ (pre ++ ⟨n, false⟩ :: post) := by
    left
    rw [freeAt_mark, hlfree]
    split_ifs with hlt
    · exact Or.inr rfl
    · obtain hfree | ⟨hend, -⟩ := hg.points
      · exact Or.inl hfree
      · omega
  obtain ⟨hpre, hpost⟩ := merged_used_iff.mp hg.merged
  obtain ⟨h', bs', hplug, hjoined, hmerged⟩ := plug_holes_joined hl₂ hpre hpost
  refine ⟨h', bs', ?_, ⟨hjoined.layout, hmerged,
    hjoined.points hpoints, fun t b hx hb => ?_, ?_, ?_⟩,
    hjoined.size_eq.trans hsame₂,
    fun t b hb => (hjoined.used_iff t b hb).trans (used_mark hl hb), fun i hi => ?_,
    fun hlow => hjoined.lowest fun s hs => ?_⟩
  · have hdata : 12 < n := hg.used_lt (total pre) ⟨n, true⟩
      (by simpa using placed_mid 0 pre ⟨n, true⟩ post) rfl
    have hrange : (total pre + 12) % 4 = 0 ∧ SIZEOF_STRUCT_MEM ≤ total pre + 12 ∧
        total pre + 12 < h.heap_end := by
      rw [SIZEOF_STRUCT_MEM]
      omega
    have hmem : total pre + 12 - SIZEOF_STRUCT_MEM = total pre := Nat.add_sub_cancel _ _
    rw [Heap.rt_free, if_pos hrange, hmem, if_pos (by rw [hheader]; exact ⟨Nat.one_ne_zero, rfl⟩)]
    rw [hh₂, hh₁] at hplug
    exact hplug
  · exact hg.used_lt t b (((hjoined.used_iff t b hb).trans (used_mark hl hb)).mp hx).1 hb
  · rw [hjoined.used_mem_eq, hjoined.usedTotal_eq, hused]
  · rw [hjoined.size_eq, hsame₂]
    exact hg.room
  · have hi₂ : InUse 12 0 (pre ++ ⟨n, false⟩ :: post) i := by
      obtain ⟨⟨t, b⟩, hx, hb, hin⟩ := hi
      exact ⟨(t, b), (hjoined.used_iff t b hb).mp hx, hb, hin⟩
    rw [hjoined.kept i hi₂, hram i hi₂]
  · rw [hlfree]
    rw [freeAt_mark] at hs
    obtain hs | rfl := hs
    · have := hlow s hs
      split_ifs <;> omega
    · split_ifs <;> omega

/-! ### Allocating -/

/-- A block that becomes used was free before and has room for the size. -/
structure Allocated (h h' : Heap) (bs bs' : List Block) (s size : ℕ) : Prop where
  good : Good h' bs'
  size_eq : h'.mem_size_aligned = h.mem_size_aligned
  block : ∃ b, (s, b) ∈ placed 0 bs' ∧ b.used = true ∧ size + 12 ≤ b.size
  used_iff : ∀ t b, b.used = true → t ≠ s → ((t, b) ∈ placed 0 bs' ↔ (t, b) ∈ placed 0 bs)
  fresh : FreeAt bs s
  kept : ∀ i, InUse 12 0 bs i → h'.ram i = h.ram i
  lowest : Lowest h bs → Lowest h' bs'

/-- No free block from a place on has room for the size, apart from one at the
end of the heap that fits exactly. -/
def NoRoom (h : Heap) (bs : List Block) (low size : ℕ) : Prop :=
  ∀ s b, (s, b) ∈ placed 0 bs → b.used = false → low ≤ s →
    b.size < size + 12 ∨ b.size = size + 12 ∧ s + b.size = h.heap_end

/-- The first free block that has room, or none. -/
theorem search_cases (hl : Layout h (pre ++ post)) (hsize : size ≤ h.mem_size_aligned) {fuel : ℕ}
    (hfuel : post.length < fuel) :
    (h.search size fuel (total pre) = some none ∧ NoRoom h (pre ++ post) (total pre) size) ∨
      ∃ pre' n post', pre ++ post = pre' ++ ⟨n, false⟩ :: post' ∧
        h.search size fuel (total pre) = some (some (total pre')) ∧ size + 12 ≤ n := by
  have hminus : minus h.mem_size_aligned size = h.mem_size_aligned - size := minus_eq hsize
  have hend : h.heap_end = h.mem_size_aligned + 12 := rfl
  have hbound : ∀ s b, (s, b) ∈ placed 0 (pre ++ post) → s + b.size ≤ h.heap_end ∧ 12 ≤ b.size := by
    intro s b hx
    have hle := (placed_bounds hx).2
    rw [hl.total_eq, Nat.zero_add] at hle
    exact ⟨hle, hl.size_le b (mem_of_placed hx)⟩
  induction post generalizing pre fuel with
  | nil =>
    have htotal := hl.total_eq
    rw [List.append_nil] at htotal
    left
    constructor
    · cases fuel with
      | zero => omega
      | succ fuel => rw [Heap.search, hminus, if_neg (by omega)]
    · intro s b hx _ hlow
      have := hbound s b hx
      omega
  | cons c post ih =>
    obtain ⟨n, u⟩ := c
    have hheader := hl.header_eq
    obtain ⟨hle, hn, -⟩ := hl.block_le
    cases fuel with
    | zero => omega
    | succ fuel =>
      rw [Heap.search, hminus]
      by_cases hlt : total pre < h.mem_size_aligned - size
      · have hdata : minus (total pre + n) (total pre + SIZEOF_STRUCT_MEM) = n - 12 := by
          rw [SIZEOF_STRUCT_MEM, minus_eq (by omega)]
          omega
        rw [if_pos hlt, hheader]
        dsimp only
        rw [hdata]
        by_cases hroom : u.toNat = 0 ∧ n - 12 ≥ size
        · obtain rfl : u = false := by simpa using hroom.1
          rw [if_pos hroom]
          exact Or.inr ⟨pre, n, post, rfl, rfl, by omega⟩
        · rw [if_neg hroom]
          have hcons : pre ++ ⟨n, u⟩ :: post = (pre ++ [⟨n, u⟩]) ++ post := by simp
          have htotal : total (pre ++ [⟨n, u⟩]) = total pre + n := by simp [total]
          have hmid : (total pre, ⟨n, u⟩) ∈ placed 0 (pre ++ ⟨n, u⟩ :: post) := by
            simpa using placed_mid 0 pre ⟨n, u⟩ post
          have hl₂ : Layout h ((pre ++ [⟨n, u⟩]) ++ post) := by rwa [← hcons]
          have hfuel₂ : post.length < fuel := by
            rw [List.length_cons] at hfuel
            omega
          have hrest := ih hl₂ hfuel₂ (by rwa [← hcons])
          rw [← hcons, htotal] at hrest
          refine hrest.imp (fun hnone => ⟨hnone.1, fun s b hx hfree hlow => ?_⟩) id
          by_cases hs : total pre + n ≤ s
          · exact hnone.2 s b hx hfree hs
          · have := hbound s b hx
            obtain heq | happart | happart := placed_apart hx hmid
            · cases heq
              subst hfree
              left
              change n < size + 12
              by_contra hlarge
              exact hroom ⟨rfl, by omega⟩
            · dsimp only at happart
              omega
            · dsimp only at happart
              omega
      · rw [if_neg hlt]
        refine Or.inl ⟨rfl, fun s b hx _ hlow => ?_⟩
        have := hbound s b hx
        omega

/-- A free block is marked as used. -/
theorem Layout.markUsed (hl : Layout h (pre ++ ⟨n, false⟩ :: post)) (q : ℕ) :
    Layout (((h.modify (total pre) fun mem => { mem with used := 1 }).account q).modify (total pre)
      fun mem => { mem with magic := HEAP_MAGIC }) (pre ++ ⟨n, true⟩ :: post) := by
  have hused : Layout (h.modify (total pre) fun mem => { mem with used := 1 })
      (pre ++ ⟨n, true⟩ :: post) := hl.mark (by rw [hl.header_eq]; rfl)
  have haccount : Layout ((h.modify (total pre) fun mem => { mem with used := 1 }).account q)
      (pre ++ ⟨n, true⟩ :: post) := hused.congr rfl rfl
  exact haccount.mark (by rw [haccount.header_eq])

/-- Splitting a block writes three headers. -/
theorem split_ram {a i : ℕ} (hnext : (h.header a).next = a + n) (hlow : i < a ∨ a + 12 ≤ i)
    (hmid : i < a + k ∨ a + k + 12 ≤ i) (hhigh : i < a + n ∨ a + n + 12 ≤ i) :
    (h.split a (a + k)).ram i = h.ram i := by
  rw [Heap.split, hnext]
  split_ifs
  · rw [modify_ram hhigh, modify_ram hlow, modify_ram hmid]
  · rw [modify_ram hlow, modify_ram hmid]

/-- A free block with room is taken, as a whole or its first part. -/
theorem take_spec (hl : Layout h (pre ++ ⟨n, false⟩ :: post)) (hsize : 12 ≤ size)
    (hmod : size % 4 = 0) (hroom : size + 12 ≤ n) :
    ∃ m rest, Layout (h.take size (total pre)) (pre ++ ⟨m, true⟩ :: rest) ∧
      (m = n ∧ rest = post ∨ m + 12 ≤ n ∧ rest = ⟨n - m, false⟩ :: post) ∧ size + 12 ≤ m ∧
      (h.take size (total pre)).used_mem = uint32_t (h.used_mem + m) ∧
      (h.take size (total pre)).lfree = h.lfree ∧
      (h.take size (total pre)).mem_size_aligned = h.mem_size_aligned ∧
      ∀ i, InUse 12 0 (pre ++ ⟨n, false⟩ :: post) i →
        (h.take size (total pre)).ram i = h.ram i := by
  obtain ⟨hle, -, -⟩ := hl.block_le
  have hnext : (h.header (total pre)).next = total pre + n := by rw [hl.header_eq]
  have hdata : minus (total pre + n) (total pre + SIZEOF_STRUCT_MEM) = n - 12 := by
    rw [SIZEOF_STRUCT_MEM, minus_eq (by omega)]
    omega
  have hwhole : minus (total pre + n) (total pre) = n := by
    rw [minus_eq (by omega)]
    omega
  by_cases hlarge : n - 12 ≥ size + SIZEOF_STRUCT_MEM + MIN_SIZE
  · have hlarge' : size + 36 ≤ n := by
      rw [SIZEOF_STRUCT_MEM, MIN_SIZE] at hlarge
      omega
    have hsplit := hl.split (k := 12 + size) (by omega) (by omega) (by omega)
    have hplace : total pre + SIZEOF_STRUCT_MEM + size = total pre + (12 + size) :=
      Nat.add_assoc _ _ _
    have htake : h.take size (total pre) =
        (((h.split (total pre) (total pre + (12 + size))).modify (total pre)
          fun mem => { mem with used := 1 }).account (12 + size)).modify (total pre)
          fun mem => { mem with magic := HEAP_MAGIC } := by
      rw [Heap.take, hnext, hdata, if_pos hlarge, hplace, SIZEOF_STRUCT_MEM, Nat.add_comm size]
    rw [htake]
    refine ⟨12 + size, _, hsplit.markUsed (12 + size), Or.inr ⟨by omega, rfl⟩, by omega, ?_, ?_, ?_,
      fun i hi => ?_⟩
    · simp
    · simp
    · simp
    · have hfree := hi.not_free
      have hl₂ : Layout h ((pre ++ [⟨n, false⟩]) ++ post) := by simpa using hl
      have hbehind := hl₂.not_boundary (by simpa using hi)
      have hlow := hl.not_boundary hi
      rw [total_append, total, total] at hbehind
      rw [modify_ram hlow, account_ram, modify_ram hlow,
        split_ram hnext hlow (by omega) (by omega)]
  · have htake : h.take size (total pre) =
        ((h.modify (total pre) fun mem => { mem with used := 1 }).account n).modify (total pre)
          fun mem => { mem with magic := HEAP_MAGIC } := by
      rw [Heap.take, hnext, hdata, if_neg hlarge, hwhole]
    rw [htake]
    refine ⟨n, post, hl.markUsed n, Or.inl ⟨rfl, rfl⟩, hroom, by simp, by simp, by simp,
      fun i hi => ?_⟩
    have hlow := hl.not_boundary hi
    rw [modify_ram hlow, account_ram, modify_ram hlow]

/-- The loops over the blocks take fewer steps than they are given. -/
theorem Layout.length_lt_fuel (hl : Layout h (pre ++ post)) : post.length < h.fuel := by
  have hlength : 12 * post.length ≤ total post :=
    mul_length_le_total fun b hb => hl.size_le b (List.mem_append_right _ hb)
  have htotal := hl.total_eq
  rw [total_append, Heap.heap_end, SIZEOF_STRUCT_MEM] at htotal
  rw [Heap.fuel]
  omega

/-- The next free block from a place on, or the end of the heap. -/
theorem skipUsed_spec (hl : Layout h (pre ++ post)) {fuel : ℕ} (hfuel : post.length < fuel) :
    ∃ s, h.skipUsed fuel (total pre) = some s ∧ (s = h.heap_end ∨ FreeAt (pre ++ post) s) ∧
      ∀ t, FreeAt (pre ++ post) t → total pre ≤ t → s ≤ t := by
  induction post generalizing pre fuel with
  | nil =>
    have htotal := hl.total_eq
    rw [List.append_nil] at htotal
    cases fuel with
    | zero => omega
    | succ fuel =>
      refine ⟨total pre, ?_, Or.inl htotal, fun _ _ hle => hle⟩
      rw [Heap.skipUsed, if_neg fun hne => hne.2 htotal]
  | cons c post ih =>
    obtain ⟨n, u⟩ := c
    have hheader := hl.header_eq
    obtain ⟨hle, hn, -⟩ := hl.block_le
    have hmid : (total pre, ⟨n, u⟩) ∈ placed 0 (pre ++ ⟨n, u⟩ :: post) := by
      simpa using placed_mid 0 pre ⟨n, u⟩ post
    cases fuel with
    | zero => omega
    | succ fuel =>
      rw [Heap.skipUsed, hheader]
      dsimp only
      cases u with
      | false =>
        rw [if_neg fun hne => hne.1 rfl]
        exact ⟨total pre, rfl, Or.inr ⟨_, hmid, rfl⟩, fun _ _ hle => hle⟩
      | true =>
        have hcons : pre ++ ⟨n, true⟩ :: post = (pre ++ [⟨n, true⟩]) ++ post := by simp
        have htotal : total (pre ++ [⟨n, true⟩]) = total pre + n := by simp [total]
        rw [if_pos ⟨Nat.one_ne_zero, by omega⟩]
        have hl₂ : Layout h ((pre ++ [⟨n, true⟩]) ++ post) := by rwa [← hcons]
        have hfuel₂ : post.length < fuel := by
          rw [List.length_cons] at hfuel
          omega
        obtain ⟨s, hs, hfree, hlow⟩ := ih hl₂ hfuel₂
        rw [← hcons] at hfree hlow
        rw [htotal] at hs hlow
        refine ⟨s, hs, hfree, fun t ht hle => hlow t ht ?_⟩
        obtain ⟨b, hx, hb⟩ := ht
        obtain heq | happart | happart := placed_apart hx hmid
        · cases heq
          cases hb
        · have := hl.size_le b (mem_of_placed hx)
          dsimp only at happart
          omega
        · exact happart

/-- After a block is taken, the heap points to a free block or its end. -/
theorem findLowest_spec (hl : Layout h (pre ++ post)) :
    ∃ lfree, h.findLowest (total pre) = some { h with lfree := lfree } ∧
      (h.lfree ≠ total pre → lfree = h.lfree) ∧
      (h.lfree = total pre → (lfree = h.heap_end ∨ FreeAt (pre ++ post) lfree) ∧
        ∀ t, FreeAt (pre ++ post) t → total pre ≤ t → lfree ≤ t) := by
  rw [Heap.findLowest]
  by_cases heq : total pre = h.lfree
  · obtain ⟨s, hs, hfree, hlow⟩ := skipUsed_spec hl hl.length_lt_fuel
    refine ⟨s, ?_, fun hne => absurd heq.symm hne, fun _ => ⟨hfree, hlow⟩⟩
    rw [if_pos heq, ← heq, hs, Option.bind_some, if_pos]
    refine hfree.imp id fun ⟨b, hx, hb⟩ => ?_
    obtain ⟨q, hq⟩ := hl.chain.read_eq hx
    rw [hq, hb]
    rfl
  · exact ⟨h.lfree, by rw [if_neg heq], fun _ => rfl, fun hne => absurd hne.symm heq⟩

/-- The other blocks after the first part of one has been taken. -/
theorem placed_taken {m : ℕ} {v : Bool} {rest : List Block} {t : ℕ} {b : Block}
    (hrest : m = n ∧ rest = post ∨ m + 12 ≤ n ∧ rest = ⟨n - m, false⟩ :: post)
    (ht : t ≠ total pre) : (t, b) ∈ placed 0 (pre ++ ⟨m, v⟩ :: rest) ↔
      (t, b) ∈ placed 0 (pre ++ ⟨n, u⟩ :: post) ∨
        m + 12 ≤ n ∧ t = total pre + m ∧ b = ⟨n - m, false⟩ := by
  obtain ⟨rfl, rfl⟩ | ⟨hm, rfl⟩ := hrest
  · simp [placed, ht]
  · have hsum : total pre + m + (n - m) = total pre + n := by omega
    simp [placed, ht, hm, hsum]
    tauto

/-- The other used blocks stay. -/
theorem used_taken {m : ℕ} {v : Bool} {rest : List Block} {t : ℕ} {b : Block}
    (hrest : m = n ∧ rest = post ∨ m + 12 ≤ n ∧ rest = ⟨n - m, false⟩ :: post)
    (hb : b.used = true) (ht : t ≠ total pre) :
    (t, b) ∈ placed 0 (pre ++ ⟨m, v⟩ :: rest) ↔ (t, b) ∈ placed 0 (pre ++ ⟨n, u⟩ :: post) := by
  rw [placed_taken hrest ht]
  refine or_iff_left fun hfree => ?_
  rw [hfree.2.2] at hb
  cases hb

/-- Only one block starts at a place. -/
theorem Layout.sole (hl : Layout h bs) {b c : Block} (hb : (s, b) ∈ placed 0 bs)
    (hc : (s, c) ∈ placed 0 bs) : b = c := by
  have hbsize := hl.size_le b (mem_of_placed hb)
  have hcsize := hl.size_le c (mem_of_placed hc)
  obtain heq | happart | happart := placed_apart hb hc
  · exact congrArg Prod.snd heq
  · dsimp only at happart
    omega
  · dsimp only at happart
    omega

/-- The length of the data of a block for a request. -/
def request (size : ℕ) : ℕ := if RT_ALIGN size < MIN_SIZE then MIN_SIZE else RT_ALIGN size

theorem request_spec (size : ℕ) : 12 ≤ request size ∧ request size % 4 = 0 ∧
    RT_ALIGN size ≤ request size := by
  have := RT_ALIGN_mod size
  rw [request, MIN_SIZE]
  split_ifs <;> omega

/-- Where the search starts. -/
theorem PointsFree.exists_append (hl : Layout h bs) (hpoints : PointsFree h bs) :
    ∃ pre post, bs = pre ++ post ∧ h.lfree = total pre := by
  obtain ⟨b, hx, -⟩ | ⟨hend, -⟩ := hpoints
  · obtain ⟨pre, post, hbs, hs⟩ := exists_append_of_placed hx
    exact ⟨pre, b :: post, hbs, by omega⟩
  · exact ⟨bs, [], by simp, hend.trans hl.total_eq.symm⟩

/-- The block found is taken and the heap points to a free block again. -/
theorem take_allocated (hg : Good h (pre ++ ⟨n, false⟩ :: post)) (hsize : 12 ≤ size)
    (hmod : size % 4 = 0) (hroom : size + 12 ≤ n) :
    ∃ h' bs', (h.take size (total pre)).findLowest (total pre) = some h' ∧
      Allocated h h' (pre ++ ⟨n, false⟩ :: post) bs' (total pre) size := by
  have hl := hg.layout
  obtain ⟨m, rest, hl₁, hrest, hm, hused₁, hlfree₁, hsame₁, hram₁⟩ :=
    take_spec hl hsize hmod hroom
  obtain ⟨h₁, hh₁⟩ : ∃ x, x = h.take size (total pre) := ⟨_, rfl⟩
  rw [← hh₁] at hl₁ hused₁ hlfree₁ hsame₁ hram₁ ⊢
  have hend : h₁.heap_end = h.heap_end := by rw [Heap.heap_end, hsame₁, Heap.heap_end]
  obtain ⟨lfree, hfind, hother, hself⟩ := findLowest_spec hl₁
  have hold : (total pre, ⟨n, false⟩) ∈ placed 0 (pre ++ ⟨n, false⟩ :: post) := by
    simpa using placed_mid 0 pre ⟨n, false⟩ post
  have hnew : (total pre, ⟨m, true⟩) ∈ placed 0 (pre ++ ⟨m, true⟩ :: rest) := by
    simpa using placed_mid 0 pre ⟨m, true⟩ rest
  have hplaced : ∀ {t b}, t ≠ total pre → ((t, b) ∈ placed 0 (pre ++ ⟨m, true⟩ :: rest) ↔
      (t, b) ∈ placed 0 (pre ++ ⟨n, false⟩ :: post) ∨
        m + 12 ≤ n ∧ t = total pre + m ∧ b = ⟨n - m, false⟩) := placed_taken hrest
  obtain ⟨hpre, hpost, hlast, hhead⟩ := merged_free_iff.mp hg.merged
  have hfree : ∀ t, FreeAt (pre ++ ⟨m, true⟩ :: rest) t →
      FreeAt (pre ++ ⟨n, false⟩ :: post) t ∨ t = total pre + m := by
    rintro t ⟨b, hx, hb⟩
    have ht : t ≠ total pre := by
      rintro rfl
      rw [hl₁.sole hx hnew] at hb
      cases hb
    obtain hx | ⟨-, rfl, -⟩ := (hplaced ht).mp hx
    · exact Or.inl ⟨b, hx, hb⟩
    · exact Or.inr rfl
  refine ⟨_, _, hfind, ⟨hl₁.congr rfl rfl, ?_, ?_, ?_, ?_, ?_⟩, hsame₁, ⟨_, hnew, rfl, hm⟩,
    fun t b hb ht => used_taken hrest hb ht, ⟨_, hold, rfl⟩, hram₁, fun hlow t ht => ?_⟩
  · refine merged_used_iff.mpr ⟨hpre, ?_⟩
    obtain ⟨-, rfl⟩ | ⟨-, rfl⟩ := hrest
    · exact hpost
    · exact merged_cons_free_iff.mpr ⟨hpost, hhead⟩
  · by_cases heq : h.lfree = total pre
    · obtain hend' | hfree' := (hself (hlfree₁.trans heq)).1
      · exact Or.inr ⟨hend', _, _, hnew, rfl⟩
      · exact Or.inl hfree'
    · have hkeep : lfree = h.lfree := by rw [hother (by rwa [hlfree₁]), hlfree₁]
      obtain ⟨b, hx, hb⟩ | ⟨hend', -⟩ := hg.points
      · left
        rw [hkeep]
        exact ⟨b, (hplaced heq).mpr (Or.inl hx), hb⟩
      · exact Or.inr ⟨hkeep.trans (hend'.trans hend.symm), _, _, hnew, rfl⟩
  · intro t b hx hb
    by_cases ht : t = total pre
    · subst ht
      rw [hl₁.sole hx hnew]
      dsimp only
      omega
    · exact hg.used_lt t b ((used_taken hrest hb ht).mp hx) hb
  · have hbefore := hg.used_mem_eq
    have hafter := usedTotal_le (pre ++ ⟨m, true⟩ :: rest)
    have hsum : usedTotal (pre ++ ⟨m, true⟩ :: rest) =
        usedTotal (pre ++ ⟨n, false⟩ :: post) + m := by
      obtain ⟨rfl, rfl⟩ | ⟨-, rfl⟩ := hrest
      · simp [usedTotal]
        omega
      · simp [usedTotal]
        omega
    have hsmall := hl.small
    rw [hl₁.total_eq, hend] at hafter
    change h₁.used_mem = _
    rw [hused₁, uint32_t, Nat.mod_eq_of_lt (by omega), hbefore, hsum]
  · show 12 ≤ h₁.mem_size_aligned
    rw [hsame₁]
    exact hg.room
  · by_cases heq : h.lfree = total pre
    · refine (hself (hlfree₁.trans heq)).2 t ht ?_
      obtain ht | rfl := hfree t ht
      · rw [← heq]
        exact hlow t ht
      · omega
    · show lfree ≤ t
      rw [hother (by rwa [hlfree₁]), hlfree₁]
      obtain ht | rfl := hfree t ht
      · exact hlow t ht
      · have := hlow _ ⟨_, hold, rfl⟩
        omega

/-- Allocating takes a free block with room for the size, or there is none. -/
theorem rt_malloc_cases (hg : Good h bs) (hpos : 0 < size) :
    (h.rt_malloc size = some (h, none) ∧
      (h.mem_size_aligned < RT_ALIGN size ∨ NoRoom h bs h.lfree (request size))) ∨
      ∃ h' bs' s, h.rt_malloc size = some (h', some (s + 12)) ∧
        Allocated h h' bs bs' s (request size) := by
  obtain ⟨hrequest, hmod, -⟩ := request_spec size
  have hroom := hg.room
  rw [Heap.rt_malloc, if_neg (by omega)]
  dsimp only
  rw [← request]
  by_cases hlarge : RT_ALIGN size > h.mem_size_aligned
  · rw [if_pos hlarge]
    exact Or.inl ⟨rfl, Or.inl hlarge⟩
  · rw [if_neg hlarge]
    have hfits : request size ≤ h.mem_size_aligned := by
      rw [request, MIN_SIZE]
      split_ifs <;> omega
    obtain ⟨pre, post, rfl, hlfree⟩ := hg.points.exists_append hg.layout
    rw [hlfree]
    obtain ⟨hsearch, hnone⟩ | ⟨pre', n, post', hbs, hsearch, hn⟩ :=
      search_cases hg.layout hfits hg.layout.length_lt_fuel
    · rw [hsearch]
      exact Or.inl ⟨rfl, Or.inr hnone⟩
    · rw [hsearch]
      dsimp only
      rw [hbs] at hg ⊢
      obtain ⟨h', bs', htake, hallocated⟩ := take_allocated hg hrequest hmod hn
      refine Or.inr ⟨h', bs', total pre', ?_, hallocated⟩
      have haligned : total pre' % 4 = 0 :=
        total_mod fun b hb => hg.layout.size_mod b (List.mem_append_left _ hb)
      have hend : h'.heap_end = h.heap_end := by
        rw [Heap.heap_end, hallocated.size_eq, Heap.heap_end]
      have hle := hg.layout.block_le.1
      have hassert : total pre' + SIZEOF_STRUCT_MEM + request size ≤ h'.heap_end ∧
          (total pre' + SIZEOF_STRUCT_MEM) % 4 = 0 := by
        rw [hend, SIZEOF_STRUCT_MEM]
        omega
      rw [htake, Option.bind_some, if_pos hassert]
      rfl

/-! ### Reallocating -/

/-- Whatever is written into the data of a used block leaves the heap intact. -/
theorem Good.fill (hg : Good h bs) {b : Block} (hx : (s, b) ∈ placed 0 bs) {ram : ℕ → UInt8}
    (hout : ∀ i, i < s + 12 ∨ s + b.size ≤ i → ram i = h.ram i) :
    Good { h with ram := ram } bs := by
  have hl := hg.layout
  have hb := hl.size_le b (mem_of_placed hx)
  have hle := (placed_bounds hx).2
  have htotal := hl.total_eq
  dsimp only at hle
  have hstarts : ∀ x ∈ placed 0 bs, Heap.header { h with ram := ram } x.1 = h.header x.1 := by
    intro x hx'
    refine header_congr fun i hlow hhigh => hout i ?_
    have hsize := hl.size_le x.2 (mem_of_placed hx')
    obtain rfl | happart | happart := placed_apart hx' hx
    · exact Or.inl hhigh
    · dsimp only at happart
      omega
    · dsimp only at happart
      omega
  have hend : Heap.header { h with ram := ram } h.heap_end = h.header h.heap_end :=
    header_congr fun i hlow hhigh => hout i (by omega)
  refine ⟨⟨hl.chain.congr hstarts, hl.size_le, hl.size_mod, hl.total_eq, ?_, hl.small⟩, hg.merged,
    hg.points, hg.used_lt, hg.used_mem_eq, hg.room⟩
  change (Heap.header { h with ram := ram } h.heap_end).used ≠ 0
  rw [hend]
  exact hl.end_used

/-- The used block at s has become shorter. -/
structure Shrunk (h h' : Heap) (bs bs' : List Block) (s size : ℕ) : Prop where
  good : Good h' bs'
  size_eq : h'.mem_size_aligned = h.mem_size_aligned
  block : (s, ⟨12 + size, true⟩) ∈ placed 0 bs'
  used_iff : ∀ t b, b.used = true → t ≠ s → ((t, b) ∈ placed 0 bs' ↔ (t, b) ∈ placed 0 bs)
  kept : ∀ i, InUse 12 0 bs' i → h'.ram i = h.ram i

/-- The rest of a used block is released. -/
theorem split_shrunk (hg : Good h (pre ++ ⟨n, true⟩ :: post)) (h₁ : Heap) (hpos : 0 < size)
    (hmod : size % 4 = 0) (hlt : size + 24 < n - 12) (hram : h₁.ram = h.ram)
    (hsame : h₁.mem_size_aligned = h.mem_size_aligned) (hlfree : h₁.lfree = h.lfree)
    (hused : h₁.used_mem = h.used_mem - (n - 12 - size)) :
    ∃ h' bs', (h₁.split (total pre) (total pre + (12 + size))).plug_holes
        (total pre + (12 + size)) = some h' ∧
      Shrunk h h' (pre ++ ⟨n, true⟩ :: post) bs' (total pre) size := by
  have hl := hg.layout
  have hl₁ : Layout h₁ (pre ++ ⟨n, true⟩ :: post) := hl.congr hram hsame
  have hnext : (h₁.header (total pre)).next = total pre + n := by rw [hl₁.header_eq]
  have hsplit := hl₁.split (k := 12 + size) (by omega) (by omega) (by omega)
  obtain ⟨h₂, hh₂⟩ : ∃ x, x = h₁.split (total pre) (total pre + (12 + size)) := ⟨_, rfl⟩
  rw [← hh₂] at hsplit ⊢
  have hrest : 12 + size = n ∧ ⟨n - (12 + size), false⟩ :: post = post ∨ 12 + size + 12 ≤ n ∧
      ⟨n - (12 + size), false⟩ :: post = ⟨n - (12 + size), false⟩ :: post :=
    Or.inr ⟨by omega, rfl⟩
  have hold : (total pre, ⟨n, true⟩) ∈ placed 0 (pre ++ ⟨n, true⟩ :: post) := by
    simpa using placed_mid 0 pre ⟨n, true⟩ post
  have hnew : (total pre, ⟨12 + size, true⟩) ∈
      placed 0 (pre ++ ⟨12 + size, true⟩ :: ⟨n - (12 + size), false⟩ :: post) := by
    simpa using placed_mid 0 pre ⟨12 + size, true⟩ (⟨n - (12 + size), false⟩ :: post)
  have hpoints : PointsFree h₂ (pre ++ ⟨12 + size, true⟩ :: ⟨n - (12 + size), false⟩ :: post) := by
    have hlfree₂ : h₂.lfree = h.lfree := by rw [hh₂, split_lfree, hlfree]
    have hend₂ : h₂.heap_end = h.heap_end := by
      rw [hh₂, split_heap_end, Heap.heap_end, hsame, Heap.heap_end]
    rw [PointsFree, hlfree₂, hend₂]
    obtain ⟨b, hx, hb⟩ | ⟨hend, -⟩ := hg.points
    · refine Or.inl ⟨b, (placed_taken hrest fun heq => ?_).mpr (Or.inl hx), hb⟩
      rw [heq] at hx
      rw [hl.sole hx hold] at hb
      cases hb
    · exact Or.inr ⟨hend, _, _, hnew, rfl⟩
  obtain ⟨hpre, hpost⟩ := merged_used_iff.mp hg.merged
  have hcons : pre ++ ⟨12 + size, true⟩ :: ⟨n - (12 + size), false⟩ :: post =
      (pre ++ [⟨12 + size, true⟩]) ++ ⟨n - (12 + size), false⟩ :: post := by simp
  have htotal : total (pre ++ [⟨12 + size, true⟩]) = total pre + (12 + size) := by simp [total]
  obtain ⟨h', bs', hplug, hjoined, hmerged⟩ := plug_holes_joined (hcons ▸ hsplit)
    (merged_used_iff.mpr ⟨hpre, List.isChain_nil⟩) hpost
  rw [← hcons] at hjoined
  rw [htotal] at hplug
  have hsame' : h'.mem_size_aligned = h.mem_size_aligned := by
    rw [hjoined.size_eq, hh₂, split_mem_size_aligned, hsame]
  refine ⟨h', bs', hplug, ⟨hjoined.layout, hmerged, hjoined.points hpoints, fun t b hx hb => ?_,
    ?_, by rw [hsame']; exact hg.room⟩, hsame', (hjoined.used_iff _ _ rfl).mpr hnew,
    fun t b hb ht => (hjoined.used_iff t b hb).trans (used_taken hrest hb ht), fun i hi => ?_⟩
  · have hx₂ := (hjoined.used_iff t b hb).mp hx
    by_cases ht : t = total pre
    · subst ht
      rw [hsplit.sole hx₂ hnew]
      dsimp only
      omega
    · exact hg.used_lt t b ((used_taken hrest hb ht).mp hx₂) hb
  · have hbefore := hg.used_mem_eq
    rw [hjoined.used_mem_eq, hjoined.usedTotal_eq, hh₂, split_used_mem, hused, hbefore]
    simp only [usedTotal_append, usedTotal, if_true, Bool.false_eq_true, if_false]
    omega
  · have hi₂ : InUse 12 0 (pre ++ ⟨12 + size, true⟩ :: ⟨n - (12 + size), false⟩ :: post) i := by
      obtain ⟨⟨t, b⟩, hx, hb, hin⟩ := hi
      exact ⟨(t, b), (hjoined.used_iff t b hb).mp hx, hb, hin⟩
    have hlow := hsplit.not_boundary hi₂
    have hmid := (hcons ▸ hsplit).not_boundary (hcons ▸ hi₂)
    have hl₃ : Layout h₂ ((pre ++ [⟨12 + size, true⟩, ⟨n - (12 + size), false⟩]) ++ post) := by
      simpa using hsplit
    have hlast := hl₃.not_boundary (by simpa using hi₂)
    have hsum : total (pre ++ [⟨12 + size, true⟩, ⟨n - (12 + size), false⟩]) = total pre + n := by
      simp only [total_append, total]
      omega
    rw [htotal] at hmid
    rw [hsum] at hlast
    rw [hjoined.kept i hi₂, hh₂, split_ram hnext hlow hmid hlast, hram]

/-- The bytes that are copied when a block is moved. -/
def copied (n size : ℕ) : ℕ := if n - 12 < RT_ALIGN size then n - 12 else RT_ALIGN size

/-- Reallocating fails, leaves the block, shortens it or moves it. -/
theorem rt_realloc_cases (hg : Good h (pre ++ ⟨n, true⟩ :: post)) (hpos : 0 < size)
    (hsmall : size + 3 < 4294967296) :
    h.rt_realloc (some (total pre + 12)) size = some (h, none) ∨
      (RT_ALIGN size = n - 12 ∧
        h.rt_realloc (some (total pre + 12)) size = some (h, some (total pre + 12))) ∨
      (∃ h' bs', h.rt_realloc (some (total pre + 12)) size = some (h', some (total pre + 12)) ∧
        Shrunk h h' (pre ++ ⟨n, true⟩ :: post) bs' (total pre) (RT_ALIGN size)) ∨
      ∃ h₁ bs₁ s h' bs', h.rt_realloc (some (total pre + 12)) size = some (h', some (s + 12)) ∧
        Allocated h h₁ (pre ++ ⟨n, true⟩ :: post) bs₁ s (request (RT_ALIGN size)) ∧
        Freed { h₁ with ram := rt_memcpy h₁.ram (s + 12) (total pre + 12) (copied n size) } h' bs₁
          bs' (total pre) := by
  have hl := hg.layout
  obtain ⟨hle, -, -⟩ := hl.block_le
  obtain ⟨hsize, hbelow⟩ := le_RT_ALIGN hsmall
  have hmod := RT_ALIGN_mod size
  have hold : (total pre, ⟨n, true⟩) ∈ placed 0 (pre ++ ⟨n, true⟩ :: post) := by
    simpa using placed_mid 0 pre ⟨n, true⟩ post
  have hdata : 12 < n := hg.used_lt _ _ hold rfl
  have hnext : (h.header (total pre)).next = total pre + n := by rw [hl.header_eq]
  have hmem : total pre + 12 - SIZEOF_STRUCT_MEM = total pre := Nat.add_sub_cancel _ _
  have hinner : minus (total pre + n) (total pre) = n := by
    rw [minus_eq (by omega)]
    omega
  have hwhole : minus (minus (total pre + n) (total pre)) SIZEOF_STRUCT_MEM = n - 12 := by
    rw [hinner, SIZEOF_STRUCT_MEM, minus_eq (by omega)]
  rw [Heap.rt_realloc]
  by_cases hlarge : RT_ALIGN size > h.mem_size_aligned
  · rw [if_pos hlarge]
    exact Or.inl rfl
  · rw [if_neg hlarge, if_neg (by omega)]
    dsimp only
    rw [if_neg (by omega), hmem, hnext, hwhole]
    by_cases hsame : n - 12 = RT_ALIGN size
    · rw [if_pos hsame]
      exact Or.inr (Or.inl ⟨hsame.symm, rfl⟩)
    · rw [if_neg hsame]
      by_cases hlt : RT_ALIGN size + SIZEOF_STRUCT_MEM + MIN_SIZE < n - 12
      · rw [if_pos hlt]
        rw [SIZEOF_STRUCT_MEM, MIN_SIZE] at hlt
        have hused := hg.used_mem_eq
        rw [usedTotal_append, usedTotal] at hused
        simp only [if_true] at hused
        have hrest : minus (n - 12) (RT_ALIGN size) = n - 12 - RT_ALIGN size :=
          minus_eq (by omega)
        have hminus : minus h.used_mem (minus (n - 12) (RT_ALIGN size)) =
            h.used_mem - (n - 12 - RT_ALIGN size) := by
          rw [hrest, minus_eq (by omega)]
        obtain ⟨h', bs', hplug, hshrunk⟩ := split_shrunk hg
          { h with used_mem := minus h.used_mem (minus (n - 12) (RT_ALIGN size)) } (by omega) hmod
          (by omega) rfl rfl rfl hminus
        have hplace : total pre + SIZEOF_STRUCT_MEM + RT_ALIGN size =
            total pre + (12 + RT_ALIGN size) := Nat.add_assoc _ _ _
        refine Or.inr (Or.inr (Or.inl ⟨h', bs', ?_, hshrunk⟩))
        rw [hplace, hplug]
        rfl
      · rw [if_neg hlt]
        obtain ⟨hnone, -⟩ | ⟨h₁, bs₁, s, hmalloc, hallocated⟩ :=
          rt_malloc_cases hg (show 0 < RT_ALIGN size by omega)
        · rw [hnone]
          exact Or.inl rfl
        · obtain ⟨b, hb, -, hroom⟩ := hallocated.block
          have hne : total pre ≠ s := by
            rintro rfl
            obtain ⟨c, hc, hfree⟩ := hallocated.fresh
            rw [hl.sole hc hold] at hfree
            cases hfree
          have hcount : copied n size ≤ b.size - 12 := by
            have := (request_spec (RT_ALIGN size)).2.2
            have := le_RT_ALIGN (show RT_ALIGN size + 3 < 4294967296 by omega)
            rw [copied]
            split_ifs <;> omega
          obtain ⟨ram, hram⟩ : ∃ ram, ram =
            rt_memcpy h₁.ram (s + 12) (total pre + 12) (copied n size) := ⟨_, rfl⟩
          have hgood : Good { h₁ with ram := ram } bs₁ := by
            refine hallocated.good.fill hb fun i hi => ?_
            rw [hram]
            exact ForwardCopy.copyWith_outside _ _ (by omega)
          have hkept := (hallocated.used_iff _ _ rfl hne).mpr hold
          obtain ⟨pre₁, post₁, rfl, htotal⟩ := exists_append_of_placed hkept
          rw [Nat.zero_add] at htotal
          obtain ⟨h', bs', hfree, hfreed⟩ := rt_free_freed hgood
          rw [hram, ← htotal] at hfree hfreed
          refine Or.inr (Or.inr (Or.inr ⟨h₁, _, s, h', bs', ?_, hallocated, hfreed⟩))
          rw [hmalloc]
          dsimp only
          rw [← copied, hfree]
          rfl

end SmartHome.KernelHeap
