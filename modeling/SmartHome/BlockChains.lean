import Mathlib.Data.List.Chain
import Mathlib.Algebra.Order.Ring.Nat
import Mathlib.Data.Nat.Notation

/-!
# Chains of blocks in a memory

A memory is divided into blocks that follow each other without a gap. At the
start of each block stands a header that says whether the block is used and
where the next and the previous one start. Blocks are joined and split by
changing the headers at their place and the header behind them.
-/

namespace SmartHome.BlockChains

/-- What stands at the start of a block. -/
structure Header where
  magic : ℕ
  used : ℕ
  next : ℕ
  prev : ℕ
  deriving DecidableEq

/-- The length of a block with its header, and whether it is used. -/
structure Block where
  size : ℕ
  used : Bool
  deriving DecidableEq

/-- The length of consecutive blocks. -/
def total : List Block → ℕ
  | [] => 0
  | b :: bs => b.size + total bs

/-- The blocks with the places where they start. -/
def placed : ℕ → List Block → List (ℕ × Block)
  | _, [] => []
  | a, b :: bs => (a, b) :: placed (a + b.size) bs

/-- Where the last block starts, with the start of the block before them. -/
def lastStart : ℕ → ℕ → List Block → ℕ
  | p, _, [] => p
  | _, a, b :: bs => lastStart a (a + b.size) bs

/-- The headers from a place on describe these blocks. -/
def Chain (magic : ℕ) (read : ℕ → Header) : ℕ → ℕ → List Block → Prop
  | _, _, [] => True
  | p, a, b :: bs =>
    read a = ⟨magic, b.used.toNat, a + b.size, p⟩ ∧ Chain magic read a (a + b.size) bs

/-- Of two neighbours one is used. -/
def Merged (bs : List Block) : Prop := bs.IsChain fun b c => b.used = true ∨ c.used = true

/-- The cell lies behind the header of a used block. -/
def InUse (header a : ℕ) (bs : List Block) (i : ℕ) : Prop :=
  ∃ x ∈ placed a bs, x.2.used = true ∧ x.1 + header ≤ i ∧ i < x.1 + x.2.size

/-- The length of the used blocks. -/
def usedTotal : List Block → ℕ
  | [] => 0
  | b :: bs => (if b.used then b.size else 0) + usedTotal bs

variable {magic header p a : ℕ} {read read' : ℕ → Header} {bs cs pre old new post : List Block}

/-! ### Places -/

@[simp] theorem total_append : total (bs ++ cs) = total bs + total cs := by
  induction bs with
  | nil => simp [total]
  | cons b bs ih =>
    rw [List.cons_append, total, total, ih]
    omega

@[simp] theorem placed_append (a : ℕ) (bs cs : List Block) :
    placed a (bs ++ cs) = placed a bs ++ placed (a + total bs) cs := by
  induction bs generalizing a with
  | nil => simp [placed, total]
  | cons b bs ih => simp [placed, total, ih, Nat.add_assoc]

@[simp] theorem lastStart_append (p a : ℕ) (bs cs : List Block) :
    lastStart p a (bs ++ cs) = lastStart (lastStart p a bs) (a + total bs) cs := by
  induction bs generalizing p a with
  | nil => simp [lastStart, total]
  | cons b bs ih => simp [lastStart, total, ih, Nat.add_assoc]

@[simp] theorem usedTotal_append : usedTotal (bs ++ cs) = usedTotal bs + usedTotal cs := by
  induction bs with
  | nil => simp [usedTotal]
  | cons b bs ih =>
    rw [List.cons_append, usedTotal, usedTotal, ih]
    omega

/-- Aligned blocks have an aligned length. -/
theorem total_mod {d : ℕ} (h : ∀ b ∈ bs, b.size % d = 0) : total bs % d = 0 := by
  induction bs with
  | nil => exact Nat.zero_mod d
  | cons b bs ih =>
    rw [total, Nat.add_mod, h b List.mem_cons_self,
      ih fun c hc => h c (List.mem_cons_of_mem b hc)]
    exact Nat.zero_mod d

/-- There are only so many blocks. -/
theorem mul_length_le_total {d : ℕ} (h : ∀ b ∈ bs, d ≤ b.size) : d * bs.length ≤ total bs := by
  induction bs with
  | nil => exact Nat.zero_le _
  | cons b bs ih =>
    have := h b List.mem_cons_self
    have := ih fun c hc => h c (List.mem_cons_of_mem b hc)
    rw [total, List.length_cons, Nat.mul_succ]
    omega

/-- A block lies where the blocks lie. -/
theorem placed_bounds {x : ℕ × Block} (hx : x ∈ placed a bs) :
    a ≤ x.1 ∧ x.1 + x.2.size ≤ a + total bs := by
  induction bs generalizing a with
  | nil => simp [placed] at hx
  | cons b bs ih =>
    rw [placed, List.mem_cons] at hx
    rw [total]
    obtain rfl | hx := hx
    · dsimp only
      omega
    · have := ih hx
      omega

/-- The next block stands behind the header of the first one. -/
theorem placed_first {x : ℕ × Block} (hsize : ∀ b ∈ bs, header ≤ b.size) (hx : x ∈ placed a bs) :
    x.1 = a ∨ a + header ≤ x.1 := by
  cases bs with
  | nil => simp [placed] at hx
  | cons b bs =>
    rw [placed, List.mem_cons] at hx
    obtain rfl | hx := hx
    · exact Or.inl rfl
    · have := hsize b List.mem_cons_self
      have := (placed_bounds hx).1
      omega

theorem usedTotal_le (bs : List Block) : usedTotal bs ≤ total bs := by
  induction bs with
  | nil => exact Nat.le_refl _
  | cons b bs ih =>
    rw [usedTotal, total]
    split_ifs <;> omega

/-- Different blocks do not overlap. -/
theorem placed_apart {x y : ℕ × Block} (hx : x ∈ placed a bs) (hy : y ∈ placed a bs) :
    x = y ∨ x.1 + x.2.size ≤ y.1 ∨ y.1 + y.2.size ≤ x.1 := by
  induction bs generalizing a with
  | nil => simp [placed] at hx
  | cons b bs ih =>
    rw [placed, List.mem_cons] at hx hy
    obtain rfl | hx := hx
    · obtain rfl | hy := hy
      · exact Or.inl rfl
      · exact Or.inr (Or.inl (placed_bounds hy).1)
    · obtain rfl | hy := hy
      · exact Or.inr (Or.inr (placed_bounds hx).1)
      · exact ih hx hy

/-- A placed block stands between those before and those behind it. -/
theorem exists_append_of_placed {s : ℕ} {b : Block} (hx : (s, b) ∈ placed a bs) :
    ∃ pre post, bs = pre ++ b :: post ∧ s = a + total pre := by
  induction bs generalizing a with
  | nil => simp [placed] at hx
  | cons c bs ih =>
    rw [placed, List.mem_cons] at hx
    obtain hx | hx := hx
    · cases hx
      exact ⟨[], bs, rfl, rfl⟩
    · obtain ⟨pre, post, hbs, hs⟩ := ih hx
      refine ⟨c :: pre, post, by rw [hbs, List.cons_append], ?_⟩
      rw [hs, total]
      omega

theorem mem_of_placed {x : ℕ × Block} (hx : x ∈ placed a bs) : x.2 ∈ bs := by
  obtain ⟨s, b⟩ := x
  obtain ⟨pre, post, rfl, -⟩ := exists_append_of_placed hx
  simp

theorem placed_mid (a : ℕ) (pre : List Block) (b : Block) (post : List Block) :
    (a + total pre, b) ∈ placed a (pre ++ b :: post) := by
  simp [placed]

/-! ### Headers -/

theorem chain_append : Chain magic read p a (bs ++ cs) ↔
    Chain magic read p a bs ∧ Chain magic read (lastStart p a bs) (a + total bs) cs := by
  induction bs generalizing p a with
  | nil => simp [Chain, lastStart, total]
  | cons b bs ih => simp [Chain, lastStart, total, ih, Nat.add_assoc, and_assoc]

/-- The header of a placed block. -/
theorem Chain.read_eq {s : ℕ} {b : Block} (h : Chain magic read p a bs)
    (hx : (s, b) ∈ placed a bs) :
    ∃ q, read s = ⟨magic, b.used.toNat, s + b.size, q⟩ := by
  obtain ⟨pre, post, rfl, rfl⟩ := exists_append_of_placed hx
  rw [chain_append, Chain] at h
  exact ⟨_, h.2.1⟩

/-- Only the headers at the starts matter. -/
theorem Chain.congr (h : Chain magic read p a bs)
    (hsame : ∀ x ∈ placed a bs, read' x.1 = read x.1) : Chain magic read' p a bs := by
  induction bs generalizing p a with
  | nil => trivial
  | cons b bs ih =>
    rw [Chain] at h ⊢
    rw [placed] at hsame
    refine ⟨?_, ih h.2 fun x hx => hsame x (List.mem_cons_of_mem _ hx)⟩
    rw [← h.1]
    exact hsame (a, b) List.mem_cons_self

/-- The first of the blocks gets another block before it. -/
theorem Chain.relink {q : ℕ} (h : Chain magic read p a bs) (hsize : ∀ b ∈ bs, 0 < b.size)
    (hfirst : bs ≠ [] → read' a = { read a with prev := q })
    (hrest : ∀ x ∈ placed a bs, x.1 ≠ a → read' x.1 = read x.1) :
    Chain magic read' q a bs := by
  cases bs with
  | nil => trivial
  | cons b bs =>
    rw [Chain] at h ⊢
    rw [placed] at hrest
    refine ⟨?_, h.2.congr fun x hx => hrest x (List.mem_cons_of_mem _ hx) ?_⟩
    · rw [hfirst (by simp), h.1]
    · have := (placed_bounds hx).1
      have := hsize b List.mem_cons_self
      omega

/-- Blocks in the middle are replaced by others of the same length. -/
theorem Chain.replace (h : Chain magic read p a (pre ++ old ++ post))
    (hsize : ∀ b ∈ post, 0 < b.size) (htotal : total new = total old)
    (hpre : ∀ x ∈ placed a pre, read' x.1 = read x.1)
    (hnew : Chain magic read' (lastStart p a pre) (a + total pre) new)
    (hfirst : post ≠ [] → read' (a + total pre + total old) =
      { read (a + total pre + total old) with
        prev := lastStart (lastStart p a pre) (a + total pre) new })
    (hrest : ∀ x ∈ placed (a + total pre + total old) post,
      x.1 ≠ a + total pre + total old → read' x.1 = read x.1) :
    Chain magic read' p a (pre ++ new ++ post) := by
  rw [chain_append, chain_append] at h
  obtain ⟨⟨hp, -⟩, hpost⟩ := h
  rw [total_append, ← Nat.add_assoc] at hpost
  rw [chain_append, chain_append, lastStart_append, total_append, htotal, ← Nat.add_assoc]
  exact ⟨⟨hp.congr hpre, hnew⟩, hpost.relink hsize hfirst hrest⟩

/-! ### Free neighbours -/

/-- Around a free block stand used ones. -/
theorem merged_free_iff {n : ℕ} : Merged (pre ++ ⟨n, false⟩ :: post) ↔
    Merged pre ∧ Merged post ∧ (∀ b ∈ pre.getLast?, b.used = true) ∧
      (∀ b ∈ post.head?, b.used = true) := by
  rw [Merged, List.isChain_append]
  cases post with
  | nil => simp [Merged]
  | cons c post =>
    rw [List.isChain_cons_cons]
    simp [Merged]
    tauto

/-- The same for a free block at the start. -/
theorem merged_cons_free_iff {n : ℕ} : Merged (⟨n, false⟩ :: post) ↔
    Merged post ∧ ∀ b ∈ post.head?, b.used = true := by
  rw [← List.nil_append (_ :: post), merged_free_iff]
  simp [Merged]

/-- Around a used block nothing is asked. -/
theorem merged_used_iff {n : ℕ} : Merged (pre ++ ⟨n, true⟩ :: post) ↔
    Merged pre ∧ Merged post := by
  rw [Merged, List.isChain_append]
  cases post with
  | nil => simp [Merged]
  | cons c post =>
    rw [List.isChain_cons_cons]
    simp [Merged]

/-- Without used blocks there is only one. -/
theorem Merged.eq_singleton {b : Block} (h : Merged (b :: bs))
    (hfree : ∀ c ∈ b :: bs, c.used = false) : bs = [] := by
  cases bs with
  | nil => rfl
  | cons c bs =>
    rw [Merged, List.isChain_cons_cons] at h
    have hb := hfree b (by simp)
    have hc := hfree c (by simp)
    simp [hb, hc] at h

/-! ### Cells in use -/

/-- A cell in use lies in no header of the blocks. -/
theorem InUse.not_header {i : ℕ} (h : InUse header a bs i) (hsize : ∀ b ∈ bs, header ≤ b.size)
    {x : ℕ × Block} (hx : x ∈ placed a bs) : i < x.1 ∨ x.1 + header ≤ i := by
  obtain ⟨y, hy, -, hlow, hhigh⟩ := h
  have hxs := hsize x.2 (mem_of_placed hx)
  obtain rfl | hxy | hxy := placed_apart hx hy
  · exact Or.inr hlow
  · omega
  · omega

theorem InUse.lt {i : ℕ} (h : InUse header a bs i) : i < a + total bs := by
  obtain ⟨x, hx, -, -, hi⟩ := h
  have := (placed_bounds hx).2
  omega

/-- A cell in use lies in no free block. -/
theorem InUse.not_free {i n : ℕ} (h : InUse header a (pre ++ ⟨n, false⟩ :: post) i) :
    i < a + total pre ∨ a + total pre + n ≤ i := by
  obtain ⟨y, hy, hused, hlow, hhigh⟩ := h
  obtain rfl | hxy | hxy := placed_apart (placed_mid a pre ⟨n, false⟩ post) hy
  · cases hused
  · dsimp only at hxy
    omega
  · dsimp only at hxy
    omega

end SmartHome.BlockChains
