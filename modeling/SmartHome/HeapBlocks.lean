import SmartHome.KernelHeap

/-!
# The blocks of the kernel heap

The headers of the heap describe a chain of blocks that fills its area. Blocks
are marked, split and joined by changing these headers; whatever lies in a used
block stays as it is.
-/

namespace SmartHome.KernelHeap

open BlockChains ByteMemory MachineWords

/-- The heap consists of these blocks. -/
structure Layout (h : Heap) (bs : List Block) : Prop where
  chain : Chain HEAP_MAGIC h.header 0 0 bs
  size_le : ∀ b ∈ bs, 12 ≤ b.size
  size_mod : ∀ b ∈ bs, b.size % 4 = 0
  total_eq : total bs = h.heap_end
  end_used : (h.header h.heap_end).used ≠ 0
  small : h.heap_end < 256 ^ 4

variable {h h' : Heap} {bs bs' pre old post : List Block} {a n k p s : ℕ} {u : Bool}

/-- The header of a block. -/
theorem Layout.header_eq (hl : Layout h (pre ++ ⟨n, u⟩ :: post)) :
    h.header (total pre) = ⟨HEAP_MAGIC, u.toNat, total pre + n, lastStart 0 0 pre⟩ := by
  have hchain := hl.chain
  rw [chain_append, Chain, Nat.zero_add] at hchain
  exact hchain.2.1

/-- Blocks before the replaced ones. -/
theorem Layout.pre_lt (hl : Layout h (pre ++ old)) {x : ℕ × Block} (hx : x ∈ placed 0 pre) :
    x.1 + 12 ≤ total pre := by
  have hbounds := (placed_bounds hx).2
  have hsize := hl.size_le x.2 (List.mem_append_left _ (mem_of_placed hx))
  omega

/-- Blocks in the middle are replaced. -/
theorem Layout.replace (hl : Layout h (pre ++ old ++ post)) (h' : Heap) (new : List Block)
    (htotal : total new = total old)
    (hsize : ∀ b ∈ new, 12 ≤ b.size) (hmod : ∀ b ∈ new, b.size % 4 = 0)
    (hend : h'.heap_end = h.heap_end)
    (hnew : Chain HEAP_MAGIC h'.header (lastStart 0 0 pre) (total pre) new)
    (hfirst : post ≠ [] → h'.header (total pre + total old) =
      { h.header (total pre + total old) with
        prev := lastStart (lastStart 0 0 pre) (total pre) new })
    (hused : (h'.header (total pre + total old)).used = (h.header (total pre + total old)).used)
    (hout : ∀ s, s + 12 ≤ total pre ∨ total pre + total old + 12 ≤ s → h'.header s = h.header s) :
    Layout h' (pre ++ new ++ post) := by
  have hpost : ∀ b ∈ post, 12 ≤ b.size := fun b hb => hl.size_le b (List.mem_append_right _ hb)
  have hassoc : Layout h (pre ++ (old ++ post)) := by rwa [← List.append_assoc]
  refine ⟨?_, fun b hb => ?_, fun b hb => ?_, ?_, ?_, ?_⟩
  · refine hl.chain.replace (fun b hb => ?_) htotal (fun x hx => ?_) ?_ ?_ fun x hx hne => ?_
    · have := hpost b hb
      omega
    · exact hout _ (Or.inl (hassoc.pre_lt hx))
    · rwa [Nat.zero_add]
    · rwa [Nat.zero_add]
    · rw [Nat.zero_add] at hx hne
      exact hout _ (Or.inr ((placed_first hpost hx).resolve_left hne))
  · rw [List.mem_append, List.mem_append] at hb
    obtain (hb | hb) | hb := hb
    · exact hl.size_le b (by simp [hb])
    · exact hsize b hb
    · exact hpost b hb
  · rw [List.mem_append, List.mem_append] at hb
    obtain (hb | hb) | hb := hb
    · exact hl.size_mod b (by simp [hb])
    · exact hmod b hb
    · exact hl.size_mod b (by simp [hb])
  · rw [hend, ← hl.total_eq]
    simp only [total_append]
    omega
  · have htotal' := hl.total_eq
    rw [total_append, total_append] at htotal'
    rw [hend]
    cases post with
    | nil =>
      have heq : h.heap_end = total pre + total old := by
        simp only [total] at htotal'
        omega
      rw [heq, hused, ← heq]
      exact hl.end_used
    | cons b post =>
      have := hpost b List.mem_cons_self
      rw [total] at htotal'
      rw [hout _ (Or.inr (by omega))]
      exact hl.end_used
  · rw [hend]
    exact hl.small

/-- A block lies before the end. -/
theorem Layout.block_le (hl : Layout h (pre ++ ⟨n, u⟩ :: post)) :
    total pre + n ≤ h.heap_end ∧ 12 ≤ n ∧ n % 4 = 0 := by
  have htotal := hl.total_eq
  rw [total_append, total] at htotal
  dsimp only at htotal
  exact ⟨by omega, hl.size_le ⟨n, u⟩ (by simp), hl.size_mod ⟨n, u⟩ (by simp)⟩

/-- The end comes directly behind the block or a header later. -/
theorem Layout.next_end (hl : Layout h (pre ++ ⟨n, u⟩ :: post)) :
    (post = [] ∧ total pre + n = h.heap_end) ∨ (post ≠ [] ∧ total pre + n + 12 ≤ h.heap_end) := by
  have htotal := hl.total_eq
  rw [total_append, total] at htotal
  dsimp only at htotal
  cases post with
  | nil =>
    rw [total] at htotal
    exact Or.inl ⟨rfl, by omega⟩
  | cons b post =>
    have := hl.size_le b (by simp)
    rw [total] at htotal
    exact Or.inr ⟨by simp, by omega⟩

theorem Layout.prev_lt (hl : Layout h (pre ++ ⟨n, u⟩ :: post)) : lastStart 0 0 pre < 256 ^ 4 := by
  have hfits := header_fits h (total pre)
  rw [hl.header_eq] at hfits
  exact hfits.2.2.2

theorem fits_of_lt (v : Bool) {next prev : ℕ} (hnext : next < 256 ^ 4) (hprev : prev < 256 ^ 4) :
    Fits ⟨HEAP_MAGIC, v.toNat, next, prev⟩ := by
  refine ⟨?_, ?_, hnext, hprev⟩
  · show HEAP_MAGIC < 256 ^ 2
    decide
  · show v.toNat < 256 ^ 2
    cases v <;> decide

/-- A block is marked as used or free. -/
theorem Layout.mark (hl : Layout h (pre ++ ⟨n, u⟩ :: post)) {v : Bool} {f : heap_mem → heap_mem}
    (hf : f (h.header (total pre)) =
      ⟨HEAP_MAGIC, v.toNat, total pre + n, lastStart 0 0 pre⟩) :
    Layout (h.modify (total pre) f) (pre ++ ⟨n, v⟩ :: post) := by
  obtain ⟨hle, hsize, hmod⟩ := hl.block_le
  have hself : (h.modify (total pre) f).header (total pre) =
      ⟨HEAP_MAGIC, v.toNat, total pre + n, lastStart 0 0 pre⟩ := by
    rw [header_modify_self, hf]
    rw [hf]
    exact fits_of_lt v (hle.trans_lt hl.small) hl.prev_lt
  have hl' : Layout h (pre ++ [⟨n, u⟩] ++ post) := by simpa using hl
  have htotal : total [⟨n, u⟩] = n := by simp [total]
  have hnext : (h.modify (total pre) f).header (total pre + n) = h.header (total pre + n) :=
    header_modify_apart (by omega)
  have hreplace := hl'.replace (h.modify (total pre) f) [⟨n, v⟩] rfl
    (by simpa using hsize) (by simpa using hmod) rfl ⟨hself, trivial⟩ (fun hpost => ?_)
    (by rw [htotal, hnext]) fun s hs => header_modify_apart (by omega)
  · simpa using hreplace
  · obtain ⟨c, post, rfl⟩ := List.exists_cons_of_ne_nil hpost
    have hc := hl'.header_eq
    rw [total_append, htotal] at hc
    rw [htotal, hnext, hc]
    simp [lastStart]

@[simp] theorem split_mem_size_aligned {ptr ptr2 : ℕ} :
    (h.split ptr ptr2).mem_size_aligned = h.mem_size_aligned := by
  rw [Heap.split]
  split_ifs <;> rfl

@[simp] theorem split_lfree {ptr ptr2 : ℕ} : (h.split ptr ptr2).lfree = h.lfree := by
  rw [Heap.split]
  split_ifs <;> rfl

@[simp] theorem split_used_mem {ptr ptr2 : ℕ} : (h.split ptr ptr2).used_mem = h.used_mem := by
  rw [Heap.split]
  split_ifs <;> rfl

@[simp] theorem split_heap_end {ptr ptr2 : ℕ} : (h.split ptr ptr2).heap_end = h.heap_end := by
  rw [Heap.heap_end, split_mem_size_aligned, Heap.heap_end]

/-- The next header gets another block before it. -/
theorem header_relink (hp : p < 256 ^ 4) :
    (h.modify s fun mem => { mem with prev := p }).header s = { h.header s with prev := p } := by
  obtain ⟨hmagic, hused, hnext, -⟩ := header_fits h s
  exact header_modify_self ⟨hmagic, hused, hnext, hp⟩

/-- The headers after a block is split. -/
theorem split_headers (ha : h.header a = ⟨HEAP_MAGIC, u.toNat, a + n, p⟩) (hk : 12 ≤ k)
    (hkn : k + 12 ≤ n) (hsmall : a + n < 256 ^ 4) (hp : p < 256 ^ 4) :
    (h.split a (a + k)).header a = ⟨HEAP_MAGIC, u.toNat, a + k, p⟩ ∧
      (h.split a (a + k)).header (a + k) = ⟨HEAP_MAGIC, 0, a + n, a⟩ ∧
      (h.split a (a + k)).header (a + n) = (if a + n ≠ h.heap_end then
        { h.header (a + n) with prev := a + k } else h.header (a + n)) ∧
      ∀ s, s + 12 ≤ a ∨ a + n + 12 ≤ s → (h.split a (a + k)).header s = h.header s := by
  have hnext : (h.header a).next = a + n := by rw [ha]
  obtain ⟨h₁, hh₁⟩ : ∃ x, x = h.modify (a + k) fun _ => ⟨HEAP_MAGIC, 0, a + n, a⟩ := ⟨_, rfl⟩
  obtain ⟨h₂, hh₂⟩ : ∃ x, x = h₁.modify a fun mem => { mem with next := a + k } := ⟨_, rfl⟩
  have hout₁ : ∀ s, s + 12 ≤ a + k ∨ a + k + 12 ≤ s → h₁.header s = h.header s := by
    intro s hs
    rw [hh₁, header_modify_apart hs]
  have hout₂ : ∀ s, s + 12 ≤ a ∨ a + n ≤ s → h₂.header s = h.header s := by
    intro s hs
    rw [hh₂, header_modify_apart (by omega), hout₁ s (by omega)]
  have hlow : h₂.header a = ⟨HEAP_MAGIC, u.toNat, a + k, p⟩ := by
    have hold : h₁.header a = _ := (hout₁ a (by omega)).trans ha
    rw [hh₂, header_modify_self, hold]
    rw [hold]
    exact fits_of_lt u (by omega) hp
  have hhigh : h₂.header (a + k) = ⟨HEAP_MAGIC, 0, a + n, a⟩ := by
    rw [hh₂, header_modify_apart (Or.inr (by omega)), hh₁, header_modify_self]
    exact fits_of_lt false hsmall (by omega)
  have hsplit : h.split a (a + k) = if a + n ≠ h.heap_end then
      h₂.modify (a + n) fun mem => { mem with prev := a + k } else h₂ := by
    rw [Heap.split, hnext, hh₂, hh₁]
    rfl
  rw [hsplit]
  split_ifs with hend
  · refine ⟨?_, ?_, ?_, fun s hs => ?_⟩
    · rw [header_modify_apart (Or.inl (by omega)), hlow]
    · rw [header_modify_apart (Or.inl (by omega)), hhigh]
    · rw [header_relink (by omega), hout₂ _ (by omega)]
    · rw [header_modify_apart (by omega), hout₂ s (by omega)]
  · exact ⟨hlow, hhigh, hout₂ _ (by omega), fun s hs => hout₂ s (by omega)⟩

/-- The rest of a block becomes a free block. -/
theorem Layout.split (hl : Layout h (pre ++ ⟨n, u⟩ :: post)) (hk : 12 ≤ k) (hkn : k + 12 ≤ n)
    (hmod : k % 4 = 0) :
    Layout (h.split (total pre) (total pre + k)) (pre ++ ⟨k, u⟩ :: ⟨n - k, false⟩ :: post) := by
  obtain ⟨hle, -, hnmod⟩ := hl.block_le
  have hend := hl.next_end
  obtain ⟨hlow, hhigh, hnext, hout⟩ :=
    split_headers hl.header_eq hk hkn (hle.trans_lt hl.small) hl.prev_lt
  have hl' : Layout h (pre ++ [⟨n, u⟩] ++ post) := by simpa using hl
  have htotal : total [⟨n, u⟩] = n := by simp [total]
  have hrest : total pre + k + (n - k) = total pre + n := by omega
  have hreplace := hl'.replace (h.split (total pre) (total pre + k)) [⟨k, u⟩, ⟨n - k, false⟩]
    (by simp only [total]; omega) (by simp; omega) (by simp; omega) split_heap_end
    ⟨hlow, by rw [hhigh, hrest]; rfl, trivial⟩ (fun hpost => ?_) ?_ fun s hs => hout s (by omega)
  · simpa using hreplace
  · rw [htotal, hnext, if_pos]
    · rfl
    · obtain ⟨hnil, -⟩ | ⟨-, hlt⟩ := hend
      · exact absurd hnil hpost
      · omega
  · rw [htotal, hnext]
    split_ifs <;> rfl

/-- The headers after two blocks are joined. -/
theorem join_headers {q : ℕ} (ha : h.header a = ⟨HEAP_MAGIC, 0, a + n, p⟩)
    (hb : h.header (a + n) = ⟨HEAP_MAGIC, 0, a + n + k, q⟩) (hn : 12 ≤ n) (hk : 12 ≤ k)
    (hsmall : a + n + k < 256 ^ 4) (hp : p < 256 ^ 4) :
    (h.join a (a + n)).header a = ⟨HEAP_MAGIC, 0, a + n + k, p⟩ ∧
      (h.join a (a + n)).header (a + n + k) = { h.header (a + n + k) with prev := a } ∧
      ∀ s, s + 12 ≤ a ∨ a + n + k + 12 ≤ s → (h.join a (a + n)).header s = h.header s := by
  have hnext : (h.header (a + n)).next = a + n + k := by rw [hb]
  obtain ⟨h₁, hh₁⟩ : ∃ x, x = h.modify a fun mem => { mem with next := a + n + k } := ⟨_, rfl⟩
  have hheader : (h.join a (a + n)).header =
      (h₁.modify (a + n + k) fun mem => { mem with prev := a }).header := by
    rw [Heap.join, hnext, hh₁]
    rfl
  have hout : ∀ s, s + 12 ≤ a ∨ a + 12 ≤ s → h₁.header s = h.header s := by
    intro s hs
    rw [hh₁, header_modify_apart hs]
  have hlow : h₁.header a = ⟨HEAP_MAGIC, 0, a + n + k, p⟩ := by
    rw [hh₁, header_modify_self, ha]
    rw [ha]
    exact fits_of_lt false hsmall hp
  rw [hheader]
  refine ⟨?_, ?_, fun s hs => ?_⟩
  · rw [header_modify_apart (Or.inl (by omega)), hlow]
  · rw [header_relink (by omega), hout _ (by omega)]
  · rw [header_modify_apart (by omega), hout s (by omega)]

/-- Two free blocks become one. -/
theorem Layout.join (hl : Layout h (pre ++ ⟨n, false⟩ :: ⟨k, false⟩ :: post)) :
    Layout (h.join (total pre) (total pre + n)) (pre ++ ⟨n + k, false⟩ :: post) := by
  obtain ⟨-, hsize, hmod⟩ := hl.block_le
  have hl₂ : Layout h ((pre ++ [⟨n, false⟩]) ++ ⟨k, false⟩ :: post) := by simpa using hl
  have hbefore : total (pre ++ [⟨n, false⟩]) = total pre + n := by simp [total]
  obtain ⟨hle, hsize₂, hmod₂⟩ := hl₂.block_le
  have hhigh := hl₂.header_eq
  rw [hbefore] at hle hhigh
  obtain ⟨hlow, hnext, hout⟩ :=
    join_headers hl.header_eq hhigh hsize hsize₂ (hle.trans_lt hl.small) hl.prev_lt
  have hl' : Layout h (pre ++ [⟨n, false⟩, ⟨k, false⟩] ++ post) := by simpa using hl
  have htotal : total pre + total [⟨n, false⟩, ⟨k, false⟩] = total pre + n + k := by
    simp only [total]
    omega
  have hreplace := hl'.replace (h.join (total pre) (total pre + n)) [⟨n + k, false⟩]
    (by simp [total]) (by simp; omega) (by simp; omega) rfl
    ⟨by rw [hlow, ← Nat.add_assoc]; rfl, trivial⟩ (fun _ => ?_) ?_ fun s hs => hout s (by omega)
  · simpa using hreplace
  · rw [htotal, hnext]
    rfl
  · rw [htotal, hnext]

/-- No header stands at a cell in use, neither one of a block nor the last one. -/
theorem Layout.not_boundary (hl : Layout h (pre ++ post)) {i : ℕ}
    (hi : InUse 12 0 (pre ++ post) i) : i < total pre ∨ total pre + 12 ≤ i := by
  cases post with
  | nil =>
    have := hi.lt
    rw [List.append_nil] at this
    exact Or.inl (by omega)
  | cons b post =>
    have hmid := placed_mid 0 pre b post
    rw [Nat.zero_add] at hmid
    exact hi.not_header hl.size_le hmid

/-- A free block starts here. -/
def FreeAt (bs : List Block) (s : ℕ) : Prop := ∃ b, (s, b) ∈ placed 0 bs ∧ b.used = false

/-- The heap points to a free block, or to its end while a block is used. -/
def PointsFree (h : Heap) (bs : List Block) : Prop :=
  FreeAt bs h.lfree ∨ h.lfree = h.heap_end ∧ ∃ s b, (s, b) ∈ placed 0 bs ∧ b.used = true

/-- No free block lies before the one the heap points to. -/
def Lowest (h : Heap) (bs : List Block) : Prop := ∀ s, FreeAt bs s → h.lfree ≤ s

/-- The heap is the same up to the division of its free parts. -/
structure Joined (h h' : Heap) (bs bs' : List Block) : Prop where
  layout : Layout h' bs'
  size_eq : h'.mem_size_aligned = h.mem_size_aligned
  used_iff : ∀ s b, b.used = true → ((s, b) ∈ placed 0 bs' ↔ (s, b) ∈ placed 0 bs)
  usedTotal_eq : usedTotal bs' = usedTotal bs
  kept : ∀ i, InUse 12 0 bs i → h'.ram i = h.ram i
  used_mem_eq : h'.used_mem = h.used_mem
  points : PointsFree h bs → PointsFree h' bs'
  lowest : Lowest h bs → Lowest h' bs'

theorem Joined.refl (hl : Layout h bs) : Joined h h bs bs :=
  ⟨hl, rfl, fun _ _ _ => Iff.rfl, rfl, fun _ _ => rfl, rfl, id, id⟩

theorem Joined.trans {h₂ : Heap} {bs₂ : List Block} (h₁₂ : Joined h h₂ bs bs₂)
    (h₂₃ : Joined h₂ h' bs₂ bs') : Joined h h' bs bs' := by
  refine ⟨h₂₃.layout, h₂₃.size_eq.trans h₁₂.size_eq,
    fun s b hb => (h₂₃.used_iff s b hb).trans (h₁₂.used_iff s b hb),
    h₂₃.usedTotal_eq.trans h₁₂.usedTotal_eq, fun i hi => ?_,
    h₂₃.used_mem_eq.trans h₁₂.used_mem_eq, h₂₃.points ∘ h₁₂.points, h₂₃.lowest ∘ h₁₂.lowest⟩
  have hi₂ : InUse 12 0 bs₂ i := by
    obtain ⟨⟨s, b⟩, hx, hused, hin⟩ := hi
    exact ⟨(s, b), (h₁₂.used_iff s b hused).mpr hx, hused, hin⟩
  rw [h₂₃.kept i hi₂, h₁₂.kept i hi]

/-- Joining two free blocks changes nothing else. -/
theorem joined_join (hl : Layout h (pre ++ ⟨n, false⟩ :: ⟨k, false⟩ :: post)) :
    Joined h (h.join (total pre) (total pre + n)) (pre ++ ⟨n, false⟩ :: ⟨k, false⟩ :: post)
      (pre ++ ⟨n + k, false⟩ :: post) := by
  have hl₂ : Layout h ((pre ++ [⟨n, false⟩]) ++ ⟨k, false⟩ :: post) := by simpa using hl
  have hl₃ : Layout h ((pre ++ [⟨n, false⟩, ⟨k, false⟩]) ++ post) := by simpa using hl
  have hbefore : total (pre ++ [⟨n, false⟩]) = total pre + n := by simp [total]
  have hbehind : total (pre ++ [⟨n, false⟩, ⟨k, false⟩]) = total pre + n + k := by
    simp [total, Nat.add_assoc]
  obtain ⟨-, hsize, -⟩ := hl.block_le
  obtain ⟨hle, hsize₂, -⟩ := hl₂.block_le
  have hhigh := hl₂.header_eq
  rw [hbefore] at hle hhigh
  have hnext : (h.header (total pre + n)).next = total pre + n + k := by rw [hhigh]
  have hlfree : (h.join (total pre) (total pre + n)).lfree =
      if h.lfree = total pre + n then total pre else h.lfree := rfl
  have hfree : ∀ s, FreeAt (pre ++ ⟨n + k, false⟩ :: post) s ↔
      FreeAt (pre ++ ⟨n, false⟩ :: ⟨k, false⟩ :: post) s ∧ s ≠ total pre + n := by
    intro s
    have hpre : ∀ b, (s, b) ∈ placed 0 pre → s ≠ total pre + n := by
      intro b hb
      have := hl.pre_lt hb
      omega
    have hpost : ∀ b, (s, b) ∈ placed (total pre + n + k) post → s ≠ total pre + n := by
      intro b hb
      have := (placed_bounds hb).1
      omega
    simp only [FreeAt, placed_append, placed, List.mem_append, List.mem_cons, Nat.zero_add,
      Prod.mk.injEq, ← Nat.add_assoc]
    constructor
    · rintro ⟨b, hb | ⟨rfl, rfl⟩ | hb, hused⟩
      · exact ⟨⟨b, Or.inl hb, hused⟩, hpre b hb⟩
      · exact ⟨⟨_, Or.inr (Or.inl ⟨rfl, rfl⟩), rfl⟩, by omega⟩
      · exact ⟨⟨b, Or.inr (Or.inr (Or.inr hb)), hused⟩, hpost b hb⟩
    · rintro ⟨⟨b, hb | ⟨rfl, rfl⟩ | ⟨rfl, rfl⟩ | hb, hused⟩, hne⟩
      · exact ⟨b, Or.inl hb, hused⟩
      · exact ⟨_, Or.inr (Or.inl ⟨rfl, rfl⟩), rfl⟩
      · exact absurd rfl hne
      · exact ⟨b, Or.inr (Or.inr hb), hused⟩
  have hused : ∀ s b, b.used = true → ((s, b) ∈ placed 0 (pre ++ ⟨n + k, false⟩ :: post) ↔
      (s, b) ∈ placed 0 (pre ++ ⟨n, false⟩ :: ⟨k, false⟩ :: post)) := by
    intro s b hb
    have hne : ∀ m, b ≠ ⟨m, false⟩ := by
      rintro m rfl
      cases hb
    simp [placed, hne, ← Nat.add_assoc]
  refine ⟨hl.join, rfl, hused, by simp [usedTotal], fun i hi => ?_, rfl, fun hpoints => ?_,
    fun hlow s hs => ?_⟩
  · have hlowest := hl.not_boundary hi
    have hthird := hl₃.not_boundary (by simpa using hi)
    rw [hbehind] at hthird
    rw [Heap.join, hnext, modify_ram hthird, modify_ram hlowest]
  · rw [PointsFree, hlfree, hfree]
    obtain hpoints | ⟨hend, s, b, hs, hb⟩ := hpoints
    · left
      split_ifs with heq
      · refine ⟨⟨⟨n, false⟩, ?_, rfl⟩, by omega⟩
        simpa using placed_mid 0 pre ⟨n, false⟩ (⟨k, false⟩ :: post)
      · exact ⟨hpoints, heq⟩
    · right
      rw [if_neg (by omega)]
      exact ⟨hend, s, b, (hused s b hb).mpr hs, hb⟩
  · rw [hfree] at hs
    have := hlow s hs.1
    rw [hlfree]
    split_ifs <;> omega

/-- A free block is joined with the one behind it if that is free. -/
theorem plug_forward (hl : Layout h (pre ++ ⟨n, false⟩ :: post)) (hmerged : Merged post) :
    ∃ n' post', Joined h
        (if total pre ≠ (h.header (total pre)).next ∧
            (h.header (h.header (total pre)).next).used = 0 ∧
            (h.header (total pre)).next ≠ h.heap_end then
          h.join (total pre) (h.header (total pre)).next else h)
        (pre ++ ⟨n, false⟩ :: post) (pre ++ ⟨n', false⟩ :: post') ∧
      Merged post' ∧ ∀ b ∈ post'.head?, b.used = true := by
  obtain ⟨hle, hsize, -⟩ := hl.block_le
  have hnext : (h.header (total pre)).next = total pre + n := by rw [hl.header_eq]
  have hbefore : total (pre ++ [⟨n, false⟩]) = total pre + n := by simp [total]
  rw [hnext]
  cases post with
  | nil =>
    have hend : total pre + n = h.heap_end := by
      have := hl.total_eq
      rw [total_append] at this
      simpa [total] using this
    refine ⟨n, [], ?_, hmerged, by simp⟩
    rw [if_neg (by simp [hend])]
    exact Joined.refl hl
  | cons c post =>
    have hl₂ : Layout h ((pre ++ [⟨n, false⟩]) ++ c :: post) := by simpa using hl
    have hheader := hl₂.header_eq
    have hblock := hl₂.block_le
    rw [hbefore] at hheader hblock
    obtain ⟨k, u⟩ := c
    cases u with
    | true =>
      refine ⟨n, ⟨k, true⟩ :: post, ?_, hmerged, by simp⟩
      rw [if_neg (by simp [hheader])]
      exact Joined.refl hl
    | false =>
      have hparts := merged_cons_free_iff.mp hmerged
      refine ⟨n + k, post, ?_, hparts.1, hparts.2⟩
      rw [if_pos ⟨by omega, by rw [hheader]; rfl, by omega⟩]
      exact joined_join hl

/-- A free block is joined with the one before it if that is free. -/
theorem plug_backward (hl : Layout h (pre ++ ⟨n, false⟩ :: post)) (hmerged : Merged pre) :
    ∃ n' pre', Joined h
        (if (h.header (total pre)).prev ≠ total pre ∧
            (h.header (h.header (total pre)).prev).used = 0 then
          h.join (h.header (total pre)).prev (total pre) else h)
        (pre ++ ⟨n, false⟩ :: post) (pre' ++ ⟨n', false⟩ :: post) ∧
      Merged pre' ∧ ∀ b ∈ pre'.getLast?, b.used = true := by
  have hprev : (h.header (total pre)).prev = lastStart 0 0 pre := by rw [hl.header_eq]
  rw [hprev]
  obtain rfl | ⟨pre, ⟨j, u⟩, rfl⟩ := List.eq_nil_or_concat pre
  · refine ⟨n, [], ?_, hmerged, by simp⟩
    rw [if_neg (by simp [lastStart, total])]
    exact Joined.refl hl
  · rw [List.concat_eq_append] at *
    have hl₂ : Layout h (pre ++ ⟨j, u⟩ :: ⟨n, false⟩ :: post) := by simpa using hl
    have hheader := hl₂.header_eq
    obtain ⟨-, hsize, -⟩ := hl₂.block_le
    have hbefore : total (pre ++ [⟨j, u⟩]) = total pre + j := by simp [total]
    have hlast : lastStart 0 0 (pre ++ [⟨j, u⟩]) = total pre := by simp [lastStart]
    rw [hbefore, hlast]
    cases u with
    | true =>
      refine ⟨n, pre ++ [⟨j, true⟩], ?_, hmerged, by simp⟩
      rw [if_neg (by simp [hheader])]
      exact Joined.refl hl
    | false =>
      have hparts := merged_free_iff.mp hmerged
      refine ⟨j + n, pre, ?_, hparts.1, hparts.2.2.1⟩
      rw [if_pos ⟨by omega, by rw [hheader]; rfl⟩]
      simpa using joined_join hl₂

/-- A free block is joined with its free neighbours. -/
theorem plug_holes_joined (hl : Layout h (pre ++ ⟨n, false⟩ :: post)) (hpre : Merged pre)
    (hpost : Merged post) :
    ∃ h' bs', h.plug_holes (total pre) = some h' ∧
      Joined h h' (pre ++ ⟨n, false⟩ :: post) bs' ∧ Merged bs' := by
  obtain ⟨hle, hsize, -⟩ := hl.block_le
  have hused : (h.header (total pre)).used = 0 := by
    rw [hl.header_eq]
    rfl
  obtain ⟨n₂, post₂, hforward, hpost₂, hhead⟩ := plug_forward hl hpost
  obtain ⟨n₃, pre₃, hbackward, hpre₃, hlast⟩ := plug_backward hforward.layout hpre
  refine ⟨_, _, ?_, hforward.trans hbackward, merged_free_iff.mpr ⟨hpre₃, hpost₂, hlast, hhead⟩⟩
  rw [Heap.plug_holes, if_pos ⟨by omega, hused⟩]

end SmartHome.KernelHeap
