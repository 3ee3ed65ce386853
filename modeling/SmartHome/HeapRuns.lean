import SmartHome.HeapCalls
import SmartHome.TransitionRuns

/-!
# Programs that use the kernel heap

Threads allocate, reallocate and release blocks and write into those they have,
in any order. Moving a block is taken as one step; its parts, allocating,
copying and releasing, are steps of their own as well, between which other
threads can come. The area has room for a block of the smallest size, and no
size or product of sizes is so large that it wraps.
-/

namespace SmartHome.KernelHeap

open BlockChains ByteMemory MachineWords

/-- The heap and the blocks in use, with what their users have in them. -/
structure System where
  heap : Heap
  blocks : ℕ → Option (List UInt8)

/-- What can happen. -/
inductive Event
  | rt_malloc (size : ℕ)
  | rt_calloc (count size : ℕ)
  | rt_realloc (rmem : Option ℕ) (newsize : ℕ)
  | rt_free (rmem : Option ℕ)
  | write (rmem i : ℕ) (byte : UInt8)

/-- The bytes that lie in memory. -/
def read (ram : ℕ → UInt8) (p n : ℕ) : List UInt8 := (List.range n).map fun i => ram (p + i)

/-- The contents of a block of another length: as much as before, then whatever
lies there. -/
def resized (data : List UInt8) (newsize : ℕ) (ram : ℕ → UInt8) (p : ℕ) : List UInt8 :=
  data.take newsize ++ read ram (p + data.length) (newsize - data.length)

/-- A block is obtained unless the call has failed. -/
def gain (blocks : ℕ → Option (List UInt8)) (p : Option ℕ) (data : ℕ → List UInt8) :
    ℕ → Option (List UInt8) :=
  match p with
  | some p => Function.update blocks p (some (data p))
  | none => blocks

/-- One step; it is undefined if a call does not return or an assertion fails. -/
def step (s : System) : Event → Option System
  | .rt_malloc size =>
    (s.heap.rt_malloc size).map fun r => ⟨r.1, gain s.blocks r.2 fun p => read r.1.ram p size⟩
  | .rt_calloc count size =>
    (s.heap.rt_calloc count size).map fun r =>
      ⟨r.1, gain s.blocks r.2 fun _ => List.replicate (count * size) 0⟩
  | .rt_realloc none newsize =>
    (s.heap.rt_realloc none newsize).map fun r =>
      ⟨r.1, gain s.blocks r.2 fun p => read r.1.ram p newsize⟩
  | .rt_realloc (some rmem) newsize =>
    (s.heap.rt_realloc (some rmem) newsize).map fun r =>
      match r.2 with
      | some nmem =>
        ⟨r.1, Function.update (Function.update s.blocks rmem none) nmem
          (some (resized ((s.blocks rmem).getD []) newsize r.1.ram nmem))⟩
      | none => ⟨r.1, if newsize = 0 then Function.update s.blocks rmem none else s.blocks⟩
  | .rt_free none => (s.heap.rt_free none).map fun heap => ⟨heap, s.blocks⟩
  | .rt_free (some rmem) =>
    (s.heap.rt_free (some rmem)).map fun heap => ⟨heap, Function.update s.blocks rmem none⟩
  | .write rmem i byte =>
    some ⟨{ s.heap with ram := Function.update s.heap.ram (rmem + i) byte },
      Function.update s.blocks rmem ((s.blocks rmem).map fun data => data.set i byte)⟩

/-- The program uses only blocks that it has, and asks for no size that leaves
32 bits when it is rounded up. -/
def Disciplined (s : System) : Event → Prop
  | .rt_malloc size => size + 3 < 4294967296
  | .rt_calloc count size => count * size + 3 < 4294967296
  | .rt_realloc rmem newsize =>
    newsize + 3 < 4294967296 ∧ rmem.all (fun p => (s.blocks p).isSome) = true
  | .rt_free rmem => rmem.all (fun p => (s.blocks p).isSome) = true
  | .write rmem i _ => i < ((s.blocks rmem).getD []).length

instance Disciplined.decidable (s : System) : ∀ e, Decidable (Disciplined s e)
  | .rt_malloc size => inferInstanceAs (Decidable (size + 3 < 4294967296))
  | .rt_calloc count size => inferInstanceAs (Decidable (count * size + 3 < 4294967296))
  | .rt_realloc rmem newsize => inferInstanceAs
    (Decidable (newsize + 3 < 4294967296 ∧ rmem.all (fun p => (s.blocks p).isSome) = true))
  | .rt_free rmem => inferInstanceAs
    (Decidable (rmem.all (fun p => (s.blocks p).isSome) = true))
  | .write rmem i _ => inferInstanceAs (Decidable (i < ((s.blocks rmem).getD []).length))

/-- The blocks in use are the used blocks of the heap, and their contents lie there. -/
structure Owned (ram : ℕ → UInt8) (bs : List Block) (blocks : ℕ → Option (List UInt8)) : Prop where
  block : ∀ p data, blocks p = some data → ∃ s b, p = s + 12 ∧ (s, b) ∈ placed 0 bs ∧
    b.used = true ∧ data.length + 12 ≤ b.size
  owner : ∀ s b, (s, b) ∈ placed 0 bs → b.used = true → blocks (s + 12) ≠ none
  content : ∀ p data, blocks p = some data → ∀ i (hi : i < data.length), ram (p + i) = data[i]

/-- What holds between the steps, for an area of a given length. -/
structure Inv (m : ℕ) (s : System) (bs : List Block) : Prop where
  good : Good s.heap bs
  owned : Owned s.heap.ram bs s.blocks
  size_eq : s.heap.mem_size_aligned = m

variable {h h' : Heap} {bs bs' : List Block} {blocks : ℕ → Option (List UInt8)}
  {ram ram' : ℕ → UInt8} {data : List UInt8} {s size p n : ℕ}

/-! ### Contents -/

@[simp] theorem length_read : (read ram p n).length = n := by simp [read]

theorem getElem_read {i : ℕ} (hi : i < (read ram p n).length) :
    (read ram p n)[i] = ram (p + i) := by
  simp [read]

@[simp] theorem length_resized : (resized data n ram p).length = n := by
  simp [resized]
  omega

/-- What lies in memory is the contents if the old part of it is. -/
theorem resized_content (hold : ∀ i (hi : i < data.length), i < n → ram (p + i) = data[i]) {i : ℕ}
    (hi : i < (resized data n ram p).length) : ram (p + i) = (resized data n ram p)[i] := by
  have hn : i < n := by simpa using hi
  by_cases hlt : i < data.length
  · have htake : i < (data.take n).length := by simp [hlt, hn]
    rw [hold i hlt hn]
    simp only [resized, List.getElem_append_left htake, List.getElem_take]
  · have hge : (data.take n).length ≤ i := by simp; omega
    simp only [resized, List.getElem_append_right hge, getElem_read]
    congr 1
    simp
    omega

/-- A byte of a block in use. -/
theorem Owned.inUse (ho : Owned ram bs blocks) (hp : blocks p = some data) {i : ℕ}
    (hi : i < data.length) : InUse 12 0 bs (p + i) := by
  obtain ⟨s, b, rfl, hx, hb, hlength⟩ := ho.block p data hp
  exact ⟨(s, b), hx, hb, by dsimp only; omega, by dsimp only; omega⟩

/-- One block gets new contents, the others keep theirs. -/
theorem Owned.put (ho : Owned ram bs blocks) {b : Block} (hx : (s, b) ∈ placed 0 bs')
    (hb : b.used = true) (hlength : data.length + 12 ≤ b.size)
    (hused : ∀ t c, c.used = true → t ≠ s → ((t, c) ∈ placed 0 bs' ↔ (t, c) ∈ placed 0 bs))
    (hkept : ∀ i, InUse 12 0 bs i → InUse 12 0 bs' i → i < s + 12 ∨ s + b.size ≤ i →
      ram' i = ram i)
    (hdata : ∀ i (hi : i < data.length), ram' (s + 12 + i) = data[i]) :
    Owned ram' bs' (Function.update blocks (s + 12) (some data)) := by
  refine ⟨fun p data' hp => ?_, fun t c hc hcused => ?_, fun p data' hp i hi => ?_⟩
  · by_cases heq : p = s + 12
    · rw [heq, Function.update_self] at hp
      cases hp
      exact ⟨s, b, heq, hx, hb, hlength⟩
    · rw [Function.update_of_ne heq] at hp
      obtain ⟨t, c, rfl, hc, hcused, hclength⟩ := ho.block p data' hp
      exact ⟨t, c, rfl, (hused t c hcused (by omega)).mpr hc, hcused, hclength⟩
  · by_cases heq : t = s
    · rw [heq, Function.update_self]
      simp
    · rw [Function.update_of_ne (by omega)]
      exact ho.owner t c ((hused t c hcused heq).mp hc) hcused
  · by_cases heq : p = s + 12
    · subst heq
      rw [Function.update_self] at hp
      cases hp
      exact hdata i hi
    · rw [Function.update_of_ne heq] at hp
      have hin := ho.inUse hp hi
      obtain ⟨t, c, rfl, hc, hcused, hclength⟩ := ho.block p data' hp
      have hc' := (hused t c hcused (by omega)).mpr hc
      have hin' : InUse 12 0 bs' (t + 12 + i) :=
        ⟨(t, c), hc', hcused, by dsimp only; omega, by dsimp only; omega⟩
      rw [hkept _ hin hin']
      · exact ho.content _ data' hp i hi
      · obtain hsame | happart | happart := placed_apart hc' hx
        · cases hsame
          exact absurd rfl heq
        · dsimp only at happart
          omega
        · dsimp only at happart
          omega

/-- A block is released, the others keep their contents. -/
theorem Owned.release (ho : Owned h.ram bs blocks) (hf : Freed h h' bs bs' s) :
    Owned h'.ram bs' (Function.update blocks (s + 12) none) := by
  refine ⟨fun p data' hp => ?_, fun t c hc hcused => ?_, fun p data' hp i hi => ?_⟩
  · by_cases heq : p = s + 12
    · rw [heq, Function.update_self] at hp
      cases hp
    · rw [Function.update_of_ne heq] at hp
      obtain ⟨t, c, rfl, hc, hcused, hclength⟩ := ho.block p data' hp
      exact ⟨t, c, rfl, (hf.used_iff t c hcused).mpr ⟨hc, by omega⟩, hcused, hclength⟩
  · obtain ⟨hold, hne⟩ := (hf.used_iff t c hcused).mp hc
    rw [Function.update_of_ne (by omega)]
    exact ho.owner t c hold hcused
  · by_cases heq : p = s + 12
    · rw [heq, Function.update_self] at hp
      cases hp
    · rw [Function.update_of_ne heq] at hp
      obtain ⟨t, c, rfl, hc, hcused, hclength⟩ := ho.block p data' hp
      rw [hf.kept]
      · exact ho.content _ data' hp i hi
      · exact ⟨(t, c), (hf.used_iff t c hcused).mpr ⟨hc, by omega⟩, hcused, by dsimp only; omega,
          by dsimp only; omega⟩

/-! ### Steps -/

variable {sys : System} {m : ℕ}

/-- A block that has just been allocated is filled in. -/
theorem Inv.allocated (hi : Inv m sys bs) (ha : Allocated sys.heap h' bs bs' s (request size))
    (hout : ∀ i, i < s + 12 ∨ s + 12 + size ≤ i → ram i = h'.ram i)
    (hsize : size ≤ request size) (hlength : data.length ≤ size)
    (hdata : ∀ i (hi : i < data.length), ram (s + 12 + i) = data[i]) :
    Inv m ⟨{ h' with ram := ram }, Function.update sys.blocks (s + 12) (some data)⟩ bs' := by
  obtain ⟨b, hx, hb, hroom⟩ := ha.block
  refine ⟨ha.good.fill hx fun i hi => hout i (by omega), ?_, ha.size_eq.trans hi.size_eq⟩
  refine hi.owned.put hx hb (by omega) ha.used_iff (fun i hin _ hout' => ?_) hdata
  exact (hout i (by omega)).trans (ha.kept i hin)

theorem size_le_request (hsmall : size + 3 < 4294967296) : size ≤ request size :=
  (le_RT_ALIGN hsmall).1.trans (request_spec size).2.2

/-- Allocating keeps the invariant. -/
theorem Inv.rt_malloc (hi : Inv m sys bs) (hsmall : size + 3 < 4294967296) :
    ∃ s' bs', step sys (.rt_malloc size) = some s' ∧ Inv m s' bs' ∧
      (Lowest sys.heap bs → Lowest s'.heap bs') := by
  rw [step]
  obtain rfl | hpos := Nat.eq_zero_or_pos size
  · exact ⟨_, bs, rfl, hi, id⟩
  · obtain ⟨hnone, -⟩ | ⟨h', bs', s, hsome, ha⟩ := rt_malloc_cases hi.good hpos
    · rw [hnone]
      exact ⟨_, bs, rfl, hi, id⟩
    · rw [hsome]
      exact ⟨_, bs', rfl, hi.allocated ha (fun _ _ => rfl) (size_le_request hsmall) length_read.le
        fun i hi => (getElem_read hi).symm, ha.lowest⟩

/-- Allocating a block of zeros keeps the invariant. -/
theorem Inv.rt_calloc (hi : Inv m sys bs) {count : ℕ} (hsmall : count * size + 3 < 4294967296) :
    ∃ s' bs', step sys (.rt_calloc count size) = some s' ∧ Inv m s' bs' ∧
      (Lowest sys.heap bs → Lowest s'.heap bs') := by
  have hproduct : uint32_t (count * size) = count * size := Nat.mod_eq_of_lt (by omega)
  rw [step, Heap.rt_calloc, hproduct]
  obtain hzero | hpos := Nat.eq_zero_or_pos (count * size)
  · rw [hzero]
    exact ⟨_, bs, rfl, hi, id⟩
  · obtain ⟨hnone, -⟩ | ⟨h', bs', s, hsome, ha⟩ := rt_malloc_cases hi.good hpos
    · rw [hnone]
      exact ⟨_, bs, rfl, hi, id⟩
    · rw [hsome]
      refine ⟨_, bs', rfl, hi.allocated ha (fun i hi => ?_) (size_le_request hsmall)
        (List.length_replicate).le fun i hi => ?_, ha.lowest⟩
      · exact ForwardCopy.copyWith_outside _ _ (by omega)
      · rw [List.length_replicate] at hi
        rw [List.getElem_replicate]
        exact ForwardCopy.copyWith_inside _ _ _ hi

/-- The used block of an address in use. -/
theorem Inv.exists_block (hi : Inv m sys bs) {rmem : ℕ} (hsome : (sys.blocks rmem).isSome) :
    ∃ data pre n post, sys.blocks rmem = some data ∧ bs = pre ++ ⟨n, true⟩ :: post ∧
      rmem = total pre + 12 ∧ data.length + 12 ≤ n := by
  obtain ⟨data, hdata⟩ := Option.isSome_iff_exists.mp hsome
  obtain ⟨s, ⟨n, u⟩, rfl, hx, rfl, hlength⟩ := hi.owned.block _ data hdata
  obtain ⟨pre, post, rfl, rfl⟩ := exists_append_of_placed hx
  exact ⟨data, pre, n, post, hdata, rfl, by omega, hlength⟩

/-- Releasing keeps the invariant. -/
theorem Inv.rt_free (hi : Inv m sys bs) {rmem : ℕ} (hsome : (sys.blocks rmem).isSome) :
    ∃ s' bs', step sys (.rt_free (some rmem)) = some s' ∧ Inv m s' bs' ∧
      (Lowest sys.heap bs → Lowest s'.heap bs') := by
  obtain ⟨data, pre, n, post, -, rfl, rfl, -⟩ := hi.exists_block hsome
  obtain ⟨h', bs', hfree, hfreed⟩ := rt_free_freed hi.good
  rw [step, hfree]
  exact ⟨_, bs', rfl, ⟨hfreed.good, hi.owned.release hfreed, hfreed.size_eq.trans hi.size_eq⟩,
    hfreed.lowest⟩

/-- Writing into a block keeps the invariant. -/
theorem Inv.write (hi : Inv m sys bs) {rmem i : ℕ} (byte : UInt8)
    (hlt : i < ((sys.blocks rmem).getD []).length) :
    ∃ s' bs', step sys (.write rmem i byte) = some s' ∧ Inv m s' bs' ∧
      (Lowest sys.heap bs → Lowest s'.heap bs') := by
  have hsome : (sys.blocks rmem).isSome := by
    cases hblock : sys.blocks rmem with
    | none => simp [hblock] at hlt
    | some data => rfl
  obtain ⟨data, pre, n, post, hdata, rfl, rfl, hlength⟩ := hi.exists_block hsome
  have hx : (total pre, ⟨n, true⟩) ∈ placed 0 (pre ++ ⟨n, true⟩ :: post) := by
    simpa using placed_mid 0 pre ⟨n, true⟩ post
  have hi' : i < data.length := by simpa [hdata] using hlt
  have hout : ∀ j, j < total pre + 12 ∨ total pre + n ≤ j →
      Function.update sys.heap.ram (total pre + 12 + i) byte j = sys.heap.ram j :=
    fun j hj => Function.update_of_ne (by omega) _ _
  have hset : ∀ j (hj : j < (data.set i byte).length),
      Function.update sys.heap.ram (total pre + 12 + i) byte (total pre + 12 + j) =
        (data.set i byte)[j] := by
    intro j hj
    by_cases heq : j = i
    · subst heq
      rw [Function.update_self, List.getElem_set_self]
    · rw [Function.update_of_ne (by omega), List.getElem_set_ne (Ne.symm heq)]
      exact hi.owned.content _ data hdata j (by simpa using hj)
  rw [step, hdata]
  exact ⟨_, _, rfl, ⟨hi.good.fill hx hout, hi.owned.put hx rfl (by simpa using hlength)
    (fun _ _ _ _ => Iff.rfl) (fun j _ _ hj => hout j hj) hset, hi.size_eq⟩, id⟩

/-- The bytes that are copied when a block is moved. -/
theorem copied_spec (hlength : data.length + 12 ≤ n) (hsmall : size + 3 < 4294967296) {i : ℕ}
    (hi : i < data.length) (hsize : i < size) : i < copied n size := by
  have := (le_RT_ALIGN hsmall).1
  rw [copied]
  split_ifs <;> omega

/-- A block that is moved keeps its contents as far as it reaches. -/
theorem Inv.move {pre post : List Block} {h₁ : Heap} {bs₁ : List Block}
    (hi : Inv m sys (pre ++ ⟨n, true⟩ :: post)) (hblock : sys.blocks (total pre + 12) = some data)
    (hlength : data.length + 12 ≤ n) (hsmall : size + 3 < 4294967296)
    (ha : Allocated sys.heap h₁ (pre ++ ⟨n, true⟩ :: post) bs₁ s (request (RT_ALIGN size)))
    (hf : Freed { h₁ with ram := rt_memcpy h₁.ram (s + 12) (total pre + 12) (copied n size) } h' bs₁
      bs' (total pre)) :
    Inv m ⟨h', Function.update (Function.update sys.blocks (total pre + 12) none) (s + 12)
      (some (resized data size h'.ram (s + 12)))⟩ bs' := by
  have hl := hi.good.layout
  obtain ⟨b, hx, hb, hroom⟩ := ha.block
  obtain ⟨hsize, hbelow⟩ := le_RT_ALIGN hsmall
  have hmod := RT_ALIGN_mod size
  have hlarge : RT_ALIGN size ≤ request (RT_ALIGN size) :=
    size_le_request (show RT_ALIGN size + 3 < 4294967296 by omega)
  have hold : (total pre, ⟨n, true⟩) ∈ placed 0 (pre ++ ⟨n, true⟩ :: post) := by
    simpa using placed_mid 0 pre ⟨n, true⟩ post
  have hne : total pre ≠ s := by
    rintro rfl
    obtain ⟨c, hc, hfree⟩ := ha.fresh
    rw [hl.sole hc hold] at hfree
    cases hfree
  have hold₁ := (ha.used_iff _ _ rfl hne).mpr hold
  have hx' := (hf.used_iff s b hb).mpr ⟨hx, hne.symm⟩
  have happart : total pre + n ≤ s ∨ s + b.size ≤ total pre := by
    obtain heq | happart := placed_apart hold₁ hx
    · exact absurd (congrArg Prod.fst heq) hne
    · exact happart
  have hcount : copied n size + 12 ≤ b.size := by
    rw [copied]
    split_ifs <;> omega
  obtain ⟨ram₂, hram₂⟩ : ∃ x, x = rt_memcpy h₁.ram (s + 12) (total pre + 12) (copied n size) :=
    ⟨_, rfl⟩
  rw [← hram₂] at hf
  have hout : ∀ i, i < s + 12 ∨ s + b.size ≤ i → ram₂ i = h₁.ram i := by
    intro i hi
    rw [hram₂]
    exact ForwardCopy.copyWith_outside _ _ (by omega)
  have hcopy : ∀ i (hi : i < data.length), i < size → ram₂ (s + 12 + i) = data[i] := by
    intro i hi' hlt
    have hmoved := ForwardCopy.copyWith_original (fun m i => m (total pre + 12 + i)) h₁.ram
      (fun _ => rfl) (copied_spec hlength hsmall hi' hlt)
      (show ¬(s + 12 ≤ total pre + 12 + i ∧ total pre + 12 + i < s + 12 + i) by omega)
    rw [hram₂]
    refine hmoved.trans ?_
    rw [ha.kept _ (hi.owned.inUse hblock hi')]
    exact hi.owned.content _ data hblock i hi'
  have hkept : ∀ i, i < size → h'.ram (s + 12 + i) = ram₂ (s + 12 + i) := by
    intro i hi'
    exact hf.kept _ ⟨(s, b), hx', hb, by dsimp only; omega, by dsimp only; omega⟩
  have howned : Owned ram₂ bs₁ (Function.update sys.blocks (s + 12)
      (some (resized data size h'.ram (s + 12)))) := by
    refine hi.owned.put hx hb (by rw [length_resized]; omega) ha.used_iff
      (fun i hin _ hi' => (hout i hi').trans (ha.kept i hin)) fun i hi' => ?_
    rw [← hkept i (by simpa using hi')]
    exact resized_content (fun j hj hlt => (hkept j hlt).trans (hcopy j hj hlt)) hi'
  refine ⟨hf.good, ?_, hf.size_eq.trans (ha.size_eq.trans hi.size_eq)⟩
  rw [Function.update_comm (by omega)]
  exact howned.release hf

/-- Reallocating keeps the invariant. -/
theorem Inv.rt_realloc (hi : Inv m sys bs) {rmem : ℕ} (hsmall : size + 3 < 4294967296)
    (hsome : (sys.blocks rmem).isSome) :
    ∃ s' bs', step sys (.rt_realloc (some rmem) size) = some s' ∧ Inv m s' bs' := by
  obtain ⟨data, pre, n, post, hdata, rfl, rfl, hlength⟩ := hi.exists_block hsome
  have hx : (total pre, ⟨n, true⟩) ∈ placed 0 (pre ++ ⟨n, true⟩ :: post) := by
    simpa using placed_mid 0 pre ⟨n, true⟩ post
  have hsize := (le_RT_ALIGN hsmall).1
  rw [step, hdata, Option.getD_some]
  obtain rfl | hpos := Nat.eq_zero_or_pos size
  · obtain ⟨h', bs', hfree, hfreed⟩ := rt_free_freed hi.good
    have hroom := hi.good.room
    have hrealloc : sys.heap.rt_realloc (some (total pre + 12)) 0 = some (h', none) := by
      rw [Heap.rt_realloc, show RT_ALIGN 0 = 0 from rfl, if_neg (Nat.not_lt_zero _), if_pos rfl,
        hfree]
      rfl
    rw [hrealloc]
    exact ⟨_, bs', rfl, hfreed.good, hi.owned.release hfreed, hfreed.size_eq.trans hi.size_eq⟩
  · obtain hnone | ⟨hsame, hkeep⟩ | ⟨h', bs', hshrink, hs⟩ | ⟨h₁, bs₁, s, h', bs', hmove, ha, hf⟩ :=
      rt_realloc_cases hi.good hpos hsmall
    · rw [hnone]
      refine ⟨_, _, rfl, hi.good, ?_, hi.size_eq⟩
      dsimp only
      rw [if_neg (by omega)]
      exact hi.owned
    · rw [hkeep]
      refine ⟨_, _, rfl, hi.good, ?_, hi.size_eq⟩
      dsimp only
      rw [Function.update_idem]
      exact hi.owned.put hx rfl (by rw [length_resized]; dsimp only; omega)
        (fun _ _ _ _ => Iff.rfl) (fun _ _ _ _ => rfl)
        fun i hi' => resized_content (fun j hj _ => hi.owned.content _ data hdata j hj) hi'
    · rw [hshrink]
      refine ⟨_, bs', rfl, hs.good, ?_, hs.size_eq.trans hi.size_eq⟩
      dsimp only
      rw [Function.update_idem]
      refine hi.owned.put hs.block rfl (by rw [length_resized]; dsimp only; omega) hs.used_iff
        (fun i _ hin _ => hs.kept i hin) fun i hi' => resized_content (fun j hj hlt => ?_) hi'
      rw [hs.kept]
      · exact hi.owned.content _ data hdata j hj
      · exact ⟨_, hs.block, rfl, by dsimp only; omega, by dsimp only; omega⟩
    · rw [hmove]
      exact ⟨_, bs', rfl, hi.move hdata hlength hsmall ha hf⟩

/-- Reallocating no block is allocating one. -/
theorem Inv.rt_realloc_null (hi : Inv m sys bs) (hsmall : size + 3 < 4294967296) :
    ∃ s' bs', step sys (.rt_realloc none size) = some s' ∧ Inv m s' bs' := by
  obtain ⟨hsize, hbelow⟩ := le_RT_ALIGN hsmall
  have hmod := RT_ALIGN_mod size
  rw [step, Heap.rt_realloc]
  split_ifs with hlarge hzero
  · exact ⟨_, bs, rfl, hi⟩
  · exact ⟨_, bs, rfl, hi⟩
  · obtain ⟨hnone, -⟩ | ⟨h', bs', s, hsome, ha⟩ :=
      rt_malloc_cases hi.good (Nat.pos_of_ne_zero hzero)
    · rw [hnone]
      exact ⟨_, bs, rfl, hi⟩
    · rw [hsome]
      exact ⟨_, bs', rfl, hi.allocated ha (fun _ _ => rfl) (size_le_request (by omega))
        (by rw [length_read]; exact hsize) fun i hi => (getElem_read hi).symm⟩

/-- Only a reallocation can leave a free block before the one the heap points to. -/
def Plain : Event → Prop
  | .rt_realloc _ _ => False
  | _ => True

instance Plain.decidable : ∀ e, Decidable (Plain e)
  | .rt_realloc _ _ => isFalse not_false
  | .rt_malloc _ => isTrue trivial
  | .rt_calloc _ _ => isTrue trivial
  | .rt_free _ => isTrue trivial
  | .write _ _ _ => isTrue trivial

/-- Every step a program takes with its own blocks is defined and keeps the invariant. -/
theorem step_inv (hi : Inv m sys bs) {e : Event} (hd : Disciplined sys e) :
    ∃ s' bs', step sys e = some s' ∧ Inv m s' bs' ∧
      (Plain e → Lowest sys.heap bs → Lowest s'.heap bs') := by
  cases e with
  | rt_malloc size =>
    obtain ⟨s', bs', hstep, hinv, hlow⟩ := hi.rt_malloc hd
    exact ⟨s', bs', hstep, hinv, fun _ => hlow⟩
  | rt_calloc count size =>
    obtain ⟨s', bs', hstep, hinv, hlow⟩ := hi.rt_calloc hd
    exact ⟨s', bs', hstep, hinv, fun _ => hlow⟩
  | rt_realloc rmem newsize =>
    cases rmem with
    | none =>
      obtain ⟨s', bs', hstep, hinv⟩ := hi.rt_realloc_null hd.1
      exact ⟨s', bs', hstep, hinv, fun hplain => absurd hplain not_false⟩
    | some rmem =>
      obtain ⟨s', bs', hstep, hinv⟩ := hi.rt_realloc hd.1 hd.2
      exact ⟨s', bs', hstep, hinv, fun hplain => absurd hplain not_false⟩
  | rt_free rmem =>
    cases rmem with
    | none => exact ⟨sys, bs, rfl, hi, fun _ => id⟩
    | some rmem =>
      obtain ⟨s', bs', hstep, hinv, hlow⟩ := hi.rt_free hd
      exact ⟨s', bs', hstep, hinv, fun _ => hlow⟩
  | write rmem i byte =>
    obtain ⟨s', bs', hstep, hinv, hlow⟩ := hi.write byte hd
    exact ⟨s', bs', hstep, hinv, fun _ => hlow⟩

/-! ### Runs -/

/-- The two headers of a new heap. -/
theorem good_of_headers (hzero : h.header 0 = ⟨HEAP_MAGIC, 0, h.heap_end, 0⟩)
    (hused : (h.header h.heap_end).used = 1) (hlfree : h.lfree = 0) (hmem : h.used_mem = 0)
    (hroom : 12 ≤ h.mem_size_aligned) (hmod : h.mem_size_aligned % 4 = 0)
    (hsmall : h.heap_end < 256 ^ 4) : Good h [⟨h.heap_end, false⟩] := by
  have hend : h.heap_end = h.mem_size_aligned + 12 := rfl
  refine ⟨⟨⟨?_, trivial⟩, ?_, ?_, ?_, ?_, hsmall⟩, List.isChain_singleton _, ?_, ?_, hmem, hroom⟩
  · rw [hzero, Nat.zero_add]
    rfl
  · simp only [List.mem_singleton, forall_eq]
    omega
  · simp only [List.mem_singleton, forall_eq]
    omega
  · simp [total]
  · rw [hused]
    exact Nat.one_ne_zero
  · exact Or.inl ⟨⟨h.heap_end, false⟩, by simp [placed, hlfree], rfl⟩
  · intro s b hx hb
    simp only [placed, List.mem_singleton, Prod.mk.injEq] at hx
    rw [hx.2] at hb
    cases hb

/-- A new heap is one free block. -/
theorem rt_system_heap_init_good {begin_addr end_addr : ℕ}
    (hinit : rt_system_heap_init ram begin_addr end_addr = some h) (hend : end_addr < 4294967296)
    (hroom : 12 ≤ h.mem_size_aligned) : Good h [⟨h.heap_end, false⟩] ∧ h.lfree = 0 := by
  rw [rt_system_heap_init] at hinit
  split_ifs at hinit with hlarge
  obtain ⟨h₀, hh₀⟩ : ∃ x : Heap, x = ⟨ram, RT_ALIGN_DOWN end_addr - RT_ALIGN begin_addr -
    2 * SIZEOF_STRUCT_MEM, 0, 0, 0⟩ := ⟨_, rfl⟩
  have hbegin := RT_ALIGN_mod begin_addr
  have hdown : RT_ALIGN_DOWN end_addr ≤ end_addr := Nat.div_mul_le_self _ _
  have hmod : RT_ALIGN_DOWN end_addr % 4 = 0 := Nat.mul_mod_left _ _
  have hsize : h₀.mem_size_aligned =
      RT_ALIGN_DOWN end_addr - RT_ALIGN begin_addr - 2 * SIZEOF_STRUCT_MEM := by rw [hh₀]
  have hend₀ : h₀.heap_end = h₀.mem_size_aligned + 12 := rfl
  have heq := Option.some.inj hinit
  rw [← hh₀] at heq
  subst heq
  simp only [modify_mem_size_aligned] at hroom
  rw [SIZEOF_STRUCT_MEM] at hlarge hsize
  have hsmall : h₀.heap_end < 256 ^ 4 := by omega
  refine ⟨good_of_headers ?_ ?_ (by rw [hh₀]; rfl) (by rw [hh₀]; rfl) hroom ?_ hsmall, by
    rw [hh₀]; rfl⟩
  · simp only [modify_heap_end]
    rw [header_modify_apart (Or.inl (by omega)), header_modify_self]
    exact fits_of_lt false hsmall (by decide)
  · simp only [modify_heap_end]
    rw [header_modify_self]
    exact fits_of_lt true hsmall hsmall
  · simp only [modify_mem_size_aligned]
    omega

/-- A program begins without blocks. -/
def start (h : Heap) : System := ⟨h, fun _ => none⟩

section Runs

variable {h₀ : Heap} {begin_addr end_addr : ℕ} {es : List Event}

theorem start_inv (hinit : rt_system_heap_init ram begin_addr end_addr = some h₀)
    (hend : end_addr < 4294967296) (hroom : 12 ≤ h₀.mem_size_aligned) :
    Inv h₀.mem_size_aligned (start h₀) [⟨h₀.heap_end, false⟩] := by
  refine ⟨(rt_system_heap_init_good hinit hend hroom).1, ⟨fun _ _ hp => (nomatch hp),
    fun s b hx hb => ?_, fun _ _ hp => (nomatch hp)⟩, rfl⟩
  simp only [placed, List.mem_singleton, Prod.mk.injEq] at hx
  rw [hx.2] at hb
  cases hb

/-- The invariant holds after every run of a program with its own blocks. -/
theorem run_inv (hinit : rt_system_heap_init ram begin_addr end_addr = some h₀)
    (hend : end_addr < 4294967296) (hroom : 12 ≤ h₀.mem_size_aligned)
    (hrun : TransitionRuns.run step (start h₀) es = some sys)
    (hd : TransitionRuns.Guarded Disciplined step (start h₀) es) :
    ∃ bs, Inv h₀.mem_size_aligned sys bs := by
  refine TransitionRuns.run_invariant_of_guarded
    (I := fun s => ∃ bs, Inv h₀.mem_size_aligned s bs) (fun s e t hi hd hstep => ?_)
    ⟨_, start_inv hinit hend hroom⟩ hd hrun
  obtain ⟨bs, hi⟩ := hi
  obtain ⟨s', bs', hstep', hi', -⟩ := step_inv hi hd
  obtain rfl : t = s' := Option.some.inj (hstep.symm.trans hstep')
  exact ⟨bs', hi'⟩

/-- Whatever a program allocates, reallocates, releases and writes, each block
it has lies in the area, aligned and apart from all other blocks and their
headers, and has the contents that were written last; a block that is moved or
made shorter keeps them as far as it reaches. -/
theorem heap_keeps_contents (ram : ℕ → UInt8) (begin_addr end_addr : ℕ) (h₀ : Heap)
    (es : List Event) (s : System)
    (hinit : rt_system_heap_init ram begin_addr end_addr = some h₀)
    (hend : end_addr < 4294967296) (hroom : 12 ≤ h₀.mem_size_aligned)
    (hrun : TransitionRuns.run step (start h₀) es = some s)
    (hd : TransitionRuns.Guarded Disciplined step (start h₀) es) :
    (∀ p data, s.blocks p = some data →
      (∀ i (hi : i < data.length), s.heap.ram (p + i) = data[i]) ∧ p % 4 = 0 ∧
        12 ≤ p ∧ p + data.length ≤ h₀.heap_end) ∧
      ∀ p q data data', s.blocks p = some data → s.blocks q = some data' → p ≠ q →
        p + data.length + 12 ≤ q ∨ q + data'.length + 12 ≤ p := by
  obtain ⟨bs, hi⟩ := run_inv hinit hend hroom hrun hd
  have hl := hi.good.layout
  have hsame : s.heap.heap_end = h₀.heap_end := by
    rw [Heap.heap_end, hi.size_eq, Heap.heap_end]
  constructor
  · intro p data hp
    obtain ⟨t, b, rfl, hx, -, hlength⟩ := hi.owned.block p data hp
    have hle := (placed_bounds hx).2
    rw [hl.total_eq, hsame] at hle
    dsimp only at hle
    obtain ⟨pre, post, rfl, rfl⟩ := exists_append_of_placed hx
    have haligned : total pre % 4 = 0 :=
      total_mod fun b hb => hl.size_mod b (List.mem_append_left _ hb)
    exact ⟨hi.owned.content _ data hp, by omega, by omega, by omega⟩
  · intro p q data data' hp hq hne
    obtain ⟨t, b, rfl, hx, -, hlength⟩ := hi.owned.block p data hp
    obtain ⟨u, c, rfl, hy, -, hlength'⟩ := hi.owned.block q data' hq
    obtain heq | happart | happart := placed_apart hx hy
    · cases heq
      exact absurd rfl hne
    · dsimp only at happart
      omega
    · dsimp only at happart
      omega

/-- A program that uses only its own blocks never meets an assertion of the
heap that fails or a loop over the blocks that does not end. -/
theorem heap_calls_return (ram : ℕ → UInt8) (begin_addr end_addr : ℕ) (h₀ : Heap)
    (es : List Event) (s : System) (e : Event)
    (hinit : rt_system_heap_init ram begin_addr end_addr = some h₀)
    (hend : end_addr < 4294967296) (hroom : 12 ≤ h₀.mem_size_aligned)
    (hrun : TransitionRuns.run step (start h₀) es = some s)
    (hd : TransitionRuns.Guarded Disciplined step (start h₀) es) (he : Disciplined s e) :
    (step s e).isSome := by
  obtain ⟨bs, hi⟩ := run_inv hinit hend hroom hrun hd
  obtain ⟨s', -, hstep, -⟩ := step_inv hi he
  rw [hstep]
  rfl

/-- A block in use lies below the end of the heap. -/
theorem Inv.block_lt {m : ℕ} {s : System} {bs : List Block} (h : Inv m s bs) {p : ℕ}
    {data : List UInt8} (hp : s.blocks p = some data) : p < m + 13 := by
  obtain ⟨t, b, rfl, hx, -, -⟩ := h.owned.block p data hp
  have hle := (placed_bounds hx).2
  have hsize := h.good.layout.size_le b (mem_of_placed hx)
  rw [h.good.layout.total_eq, Heap.heap_end, h.size_eq, SIZEOF_STRUCT_MEM] at hle
  dsimp only at hle
  omega

/-- When a program has released all its blocks the heap is one free block
again, and memory is found for every size that is below that of the area once
it is rounded up. -/
theorem heap_recovers (ram : ℕ → UInt8) (begin_addr end_addr : ℕ) (h₀ : Heap)
    (es : List Event) (s : System)
    (hinit : rt_system_heap_init ram begin_addr end_addr = some h₀)
    (hend : end_addr < 4294967296) (hroom : 12 ≤ h₀.mem_size_aligned)
    (hrun : TransitionRuns.run step (start h₀) es = some s)
    (hd : TransitionRuns.Guarded Disciplined step (start h₀) es)
    (hnone : ∀ p, s.blocks p = none) :
    s.heap.header 0 = ⟨HEAP_MAGIC, 0, h₀.heap_end, 0⟩ ∧ s.heap.lfree = 0 ∧
      s.heap.used_mem = 0 ∧ ∀ size, 0 < size → request size < h₀.mem_size_aligned →
        ∃ h', s.heap.rt_malloc size = some (h', some 12) := by
  obtain ⟨bs, hi⟩ := run_inv hinit hend hroom hrun hd
  have hl := hi.good.layout
  have hsame : s.heap.heap_end = h₀.heap_end := by
    rw [Heap.heap_end, hi.size_eq, Heap.heap_end]
  have hfree : ∀ t b, (t, b) ∈ placed 0 bs → b.used = false := by
    intro t b hx
    cases hb : b.used with
    | false => rfl
    | true => exact absurd (hnone (t + 12)) (hi.owned.owner t b hx hb)
  obtain rfl : bs = [⟨s.heap.heap_end, false⟩] := by
    have htotal := hl.total_eq
    cases bs with
    | nil => exact absurd htotal.symm (Nat.succ_ne_zero _)
    | cons b bs =>
      have hall : ∀ c ∈ b :: bs, c.used = false := by
        intro c hc
        obtain ⟨pre, post, hsplit⟩ := List.append_of_mem hc
        refine hfree (0 + total pre) c ?_
        rw [hsplit]
        exact placed_mid 0 pre c post
      obtain rfl := hi.good.merged.eq_singleton hall
      obtain ⟨n, u⟩ := b
      have hu : u = false := hall ⟨n, u⟩ (by simp)
      subst hu
      simp only [total, Nat.add_zero] at htotal
      rw [htotal]
  have hlfree : s.heap.lfree = 0 := by
    obtain ⟨b, hx, -⟩ | ⟨-, t, b, hx, hb⟩ := hi.good.points
    · simp only [placed, List.mem_singleton, Prod.mk.injEq] at hx
      exact hx.1
    · rw [hfree t b hx] at hb
      cases hb
  refine ⟨?_, hlfree, ?_, fun size hpos hsize => ?_⟩
  · have hheader := hl.chain.1
    rw [Nat.zero_add, hsame] at hheader
    exact hheader
  · rw [hi.good.used_mem_eq]
    rfl
  · obtain ⟨-, hlarge | hno⟩ | ⟨h', bs', t, hsome, ha⟩ := rt_malloc_cases hi.good hpos
    · have := (request_spec size).2.2
      rw [hi.size_eq] at hlarge
      omega
    · have hblock := hno 0 ⟨s.heap.heap_end, false⟩ (by simp [placed]) rfl (by omega)
      dsimp only at hblock
      rw [hsame, Heap.heap_end, SIZEOF_STRUCT_MEM] at hblock
      omega
    · obtain ⟨b, hx, -⟩ := ha.fresh
      simp only [placed, List.mem_singleton, Prod.mk.injEq] at hx
      rw [hx.1] at hsome
      exact ⟨h', hsome⟩

/-- While no block is reallocated, lfree is the lowest free block and allocating
fails only if no free block at all has room, apart from one at the end of the
heap that would fit exactly. -/
theorem malloc_finds_room (ram : ℕ → UInt8) (begin_addr end_addr : ℕ) (h₀ : Heap)
    (es : List Event) (s : System)
    (hinit : rt_system_heap_init ram begin_addr end_addr = some h₀)
    (hend : end_addr < 4294967296) (hroom : 12 ≤ h₀.mem_size_aligned)
    (hrun : TransitionRuns.run step (start h₀) es = some s)
    (hd : TransitionRuns.Guarded (fun s e => Disciplined s e ∧ Plain e) step (start h₀) es) :
    ∃ bs, Layout s.heap bs ∧ Lowest s.heap bs ∧
      ∀ size h', 0 < size → s.heap.rt_malloc size = some (h', none) →
        h₀.mem_size_aligned < RT_ALIGN size ∨ NoRoom s.heap bs 0 (request size) := by
  have hinv : ∃ bs, Inv h₀.mem_size_aligned s bs ∧ Lowest s.heap bs := by
    refine TransitionRuns.run_invariant_of_guarded
      (I := fun s => ∃ bs, Inv h₀.mem_size_aligned s bs ∧ Lowest s.heap bs)
      (fun s e t hi hd hstep => ?_) ⟨_, start_inv hinit hend hroom, fun t _ => ?_⟩ hd hrun
    · obtain ⟨bs, hi, hlow⟩ := hi
      obtain ⟨s', bs', hstep', hi', hkeep⟩ := step_inv hi hd.1
      obtain rfl : t = s' := Option.some.inj (hstep.symm.trans hstep')
      exact ⟨bs', hi', hkeep hd.2 hlow⟩
    · show h₀.lfree ≤ t
      rw [(rt_system_heap_init_good hinit hend hroom).2]
      exact Nat.zero_le t
  obtain ⟨bs, hi, hlow⟩ := hinv
  refine ⟨bs, hi.good.layout, hlow, fun size h' hpos hnull => ?_⟩
  obtain ⟨-, hlarge | hno⟩ | ⟨h'', bs', t, hsome, -⟩ := rt_malloc_cases hi.good hpos
  · rw [hi.size_eq] at hlarge
    exact Or.inl hlarge
  · exact Or.inr fun t b hx hb _ => hno t b hx hb (hlow t ⟨b, hx, hb⟩)
  · rw [hsome] at hnull
    cases hnull

/-- A heap in an area of 128 bytes. -/
def small : Heap := (rt_system_heap_init (fun _ => 0) 536870912 536871040).get rfl

/-- A block is written into and has to move when it grows. -/
def demand : List Event :=
  [.rt_malloc 8, .write 12 0 7, .rt_malloc 4, .rt_realloc (some 12) 20]

/-- The state after these events. -/
def demanded : System := (TransitionRuns.run step (start small) demand).get (by decide +kernel)

theorem heap_keeps_contents_demanded : demanded.heap.ram (60 + 0) = 7 :=
  ((heap_keeps_contents (fun _ => 0) 536870912 536871040 small demand demanded
    (Option.some_get rfl).symm (by decide) (by decide +kernel) (Option.some_get _).symm
    (by decide +kernel)).1 60 (7 :: List.replicate 19 0) (by decide +kernel)).1 0 (by decide)

theorem heap_calls_return_demanded : (step demanded (.rt_realloc (some 60) 4)).isSome :=
  heap_calls_return (fun _ => 0) 536870912 536871040 small demand demanded
    (.rt_realloc (some 60) 4) (Option.some_get rfl).symm (by decide) (by decide +kernel)
    (Option.some_get _).symm (by decide +kernel) (by decide +kernel)

/-- Both blocks are released. -/
def release : List Event := demand ++ [.rt_free (some 36), .rt_free (some 60)]

/-- The state after these events. -/
def released : System := (TransitionRuns.run step (start small) release).get (by decide +kernel)

/-- The heap is as large as it was before two blocks were taken and moved. -/
theorem heap_recovers_released : released.heap.used_mem = 0 ∧
    ∃ h', released.heap.rt_malloc 100 = some (h', some 12) := by
  have hinit : rt_system_heap_init (fun _ => 0) 536870912 536871040 = some small :=
    (Option.some_get rfl).symm
  have hrun : TransitionRuns.run step (start small) release = some released :=
    (Option.some_get _).symm
  have hd : TransitionRuns.Guarded Disciplined step (start small) release := by decide +kernel
  have hnone : ∀ p, released.blocks p = none := by
    obtain ⟨bs, hi⟩ := run_inv hinit (by decide) (by decide +kernel) hrun hd
    have hbelow : ∀ p < 128, released.blocks p = none := by decide +kernel
    intro p
    cases hp : released.blocks p with
    | none => rfl
    | some data =>
      have hlt : p < 128 := (hi.block_lt hp).trans (by decide +kernel)
      cases (hbelow p hlt).symm.trans hp
  have hrecovers := heap_recovers (fun _ => 0) 536870912 536871040 small release released hinit
    (by decide) (by decide +kernel) hrun hd hnone
  exact ⟨hrecovers.2.2.1, hrecovers.2.2.2 100 (by decide) (by decide +kernel)⟩

/-- Two blocks fill the heap, and the first one is released. -/
def fill : List Event := [.rt_malloc 60, .rt_malloc 28, .rt_free (some 12)]

/-- The state after these events. -/
def filled : System := (TransitionRuns.run step (start small) fill).get (by decide +kernel)

theorem malloc_finds_room_filled : ∃ bs, Layout filled.heap bs ∧ Lowest filled.heap bs ∧
    NoRoom filled.heap bs 0 (request 64) := by
  obtain ⟨bs, hl, hlow, hfails⟩ := malloc_finds_room (fun _ => 0) 536870912 536871040 small fill
    filled (Option.some_get rfl).symm (by decide) (by decide +kernel) (Option.some_get _).symm
    (by decide +kernel)
  have hnull : (filled.heap.rt_malloc 64).map Prod.snd = some none := by decide +kernel
  obtain ⟨⟨h', -⟩, hmalloc, rfl⟩ := Option.map_eq_some_iff.mp hnull
  exact ⟨bs, hl, hlow, (hfails 64 h' (by decide) hmalloc).resolve_left (by decide +kernel)⟩

/-- After a block of a full heap is made shorter, the heap still points to its
end, and no memory is found although 44 bytes are free. -/
example : (TransitionRuns.run step (start small)
    [.rt_malloc 60, .rt_malloc 28, .rt_realloc (some 12) 4]).bind
      (fun s => (s.heap.rt_malloc 4).map Prod.snd) = some none := by decide +kernel

end Runs

end SmartHome.KernelHeap
