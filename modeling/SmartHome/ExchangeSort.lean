import Mathlib.Algebra.Group.End
import Mathlib.Data.Multiset.Range
import Mathlib.Logic.Equiv.Basic
import Mathlib.Order.Basic

/-!
# Sorting by exchanging cells

A buffer is sorted by passes. The pass of a cell compares it with every later
cell and exchanges the two when they are out of order, so that the least of
the remaining elements arrives in it. Every pass rearranges the cells from its
own on and leaves the others alone.
-/

namespace SmartHome.ExchangeSort

section Rearranging

variable {α : Type*}

def exchange (buf : ℕ → α) (i j : ℕ) : ℕ → α :=
  Function.update (Function.update buf i (buf j)) j (buf i)

/-- Only cells from lo on and below hi are rearranged. -/
def Rearranged (lo hi : ℕ) (buf buf' : ℕ → α) : Prop :=
  ∃ σ : Equiv.Perm ℕ, (∀ k, k < lo ∨ hi ≤ k → σ k = k) ∧ buf' = buf ∘ σ

variable {lo hi i j n : ℕ} {buf buf' buf'' : ℕ → α}

theorem Rearranged.refl (lo hi : ℕ) (buf : ℕ → α) : Rearranged lo hi buf buf :=
  ⟨1, fun _ _ => rfl, rfl⟩

theorem Rearranged.trans (h : Rearranged lo hi buf buf') (h' : Rearranged lo hi buf' buf'') :
    Rearranged lo hi buf buf'' := by
  obtain ⟨σ, hσ, rfl⟩ := h
  obtain ⟨τ, hτ, rfl⟩ := h'
  refine ⟨σ * τ, fun k hk => ?_, rfl⟩
  rw [Equiv.Perm.mul_apply, hτ k hk, hσ k hk]

theorem Rearranged.mono (h : Rearranged i hi buf buf') (hlo : lo ≤ i) :
    Rearranged lo hi buf buf' := by
  obtain ⟨σ, hσ, rfl⟩ := h
  exact ⟨σ, fun k hk => hσ k (hk.imp_left fun hlt => Nat.lt_of_lt_of_le hlt hlo), rfl⟩

/-- A rearrangement stays inside its cells. -/
theorem perm_mem {σ : Equiv.Perm ℕ} (hσ : ∀ k, k < lo ∨ hi ≤ k → σ k = k) {k : ℕ}
    (hk : lo ≤ k ∧ k < hi) : lo ≤ σ k ∧ σ k < hi := by
  by_contra hout
  have hfixed : σ (σ k) = σ k := hσ (σ k) (by omega)
  have hsame := σ.injective hfixed
  omega

/-- What holds of every element of the cells holds of them in any order. -/
theorem Rearranged.forall {p : α → Prop} (h : Rearranged lo hi buf buf')
    (hp : ∀ k, lo ≤ k → k < hi → p (buf k)) : ∀ k, lo ≤ k → k < hi → p (buf' k) := by
  obtain ⟨σ, hσ, rfl⟩ := h
  intro k hlo hhi
  have hmem := perm_mem hσ ⟨hlo, hhi⟩
  exact hp (σ k) hmem.1 hmem.2

theorem Rearranged.apply_of_lt (h : Rearranged lo hi buf buf') (hlt : i < lo) :
    buf' i = buf i := by
  obtain ⟨σ, hσ, rfl⟩ := h
  rw [Function.comp_apply, hσ i (Or.inl hlt)]

/-- The elements of the first cells are the same with their multiplicities. -/
theorem Rearranged.map_range (h : Rearranged 0 n buf buf') :
    (Multiset.range n).map buf' = (Multiset.range n).map buf := by
  obtain ⟨σ, hσ, rfl⟩ := h
  have hcells : (Multiset.range n).map σ = Multiset.range n := by
    refine (Multiset.Nodup.ext ((Multiset.nodup_range n).map σ.injective)
      (Multiset.nodup_range n)).mpr fun k => ?_
    rw [Multiset.mem_map, Multiset.mem_range]
    constructor
    · rintro ⟨m, hm, rfl⟩
      exact (perm_mem hσ ⟨Nat.zero_le m, Multiset.mem_range.mp hm⟩).2
    · intro hk
      refine ⟨σ.symm k, Multiset.mem_range.mpr ?_, σ.apply_symm_apply k⟩
      by_contra hout
      have hfixed := hσ (σ.symm k) (Or.inr (Nat.not_lt.mp hout))
      rw [σ.apply_symm_apply] at hfixed
      omega
  rw [← Multiset.map_map, hcells]

theorem exchange_eq_comp_swap (buf : ℕ → α) (i j : ℕ) :
    exchange buf i j = buf ∘ Equiv.swap i j := by
  funext k
  rw [exchange, Function.comp_apply, Equiv.swap_apply_def, Function.update_apply,
    Function.update_apply]
  split_ifs <;> simp_all

theorem exchange_rearranged (hin : lo ≤ i ∧ i < n) (hjn : lo ≤ j ∧ j < n) (buf : ℕ → α) :
    Rearranged lo n buf (exchange buf i j) := by
  refine ⟨Equiv.swap i j, fun k hk => ?_, exchange_eq_comp_swap buf i j⟩
  exact Equiv.swap_apply_of_ne_of_ne (by omega) (by omega)

end Rearranging

section Sorting

variable {α : Type*} [LinearOrder α] {i j n left : ℕ} {buf : ℕ → α}

/-- The comparisons of a cell with later ones, with the number of cells left. -/
def scan (i : ℕ) : ℕ → ℕ → (ℕ → α) → ℕ → α
  | 0, _, buf => buf
  | left + 1, j, buf => scan i left (j + 1) (if buf j < buf i then exchange buf i j else buf)

/-- The passes of the cells below n, with the number of passes left. -/
def passes (n : ℕ) : ℕ → ℕ → (ℕ → α) → ℕ → α
  | 0, _, buf => buf
  | left + 1, i, buf => passes n left (i + 1) (scan i (n - (i + 1)) (i + 1) buf)

/-- Sort the first n cells. -/
def exchangeSort (n : ℕ) (buf : ℕ → α) : ℕ → α := passes n (n - 1) 0 buf

theorem scan_rearranged (hij : i < j) (hn : j + left = n) (buf : ℕ → α) :
    Rearranged i n buf (scan i left j buf) := by
  induction left generalizing j buf with
  | zero => exact Rearranged.refl i n buf
  | succ left ih =>
    rw [scan]
    have hrest := ih (j := j + 1) (by omega) (by omega)
    split
    · exact (exchange_rearranged ⟨le_rfl, by omega⟩ ⟨by omega, by omega⟩ buf).trans (hrest _)
    · exact hrest buf

/-- While a pass goes on its cell holds the least element it has seen. -/
theorem scan_least (hij : i < j) (hn : j + left = n)
    (hleast : ∀ k, i ≤ k → k < j → buf i ≤ buf k) :
    ∀ k, i ≤ k → k < n → scan i left j buf i ≤ scan i left j buf k := by
  induction left generalizing j buf with
  | zero =>
    intro k hi hk
    exact hleast k hi (by omega)
  | succ left ih =>
    rw [scan]
    refine ih (by omega) (by omega) fun k hi hk => ?_
    split
    case isTrue hlt =>
      -- the smaller element of cell j is the least one now
      have hcell : exchange buf i j i = buf j := by
        rw [exchange, Function.update_of_ne (by omega), Function.update_self]
      rw [hcell]
      by_cases hkj : k = j
      · rw [hkj, exchange, Function.update_self]
        exact hlt.le
      · rw [exchange, Function.update_of_ne hkj]
        by_cases hki : k = i
        · rw [hki, Function.update_self]
        · rw [Function.update_of_ne hki]
          exact hlt.le.trans (hleast k hi (by omega))
    case isFalse hge =>
      by_cases hkj : k = j
      · rw [hkj]
        exact not_lt.mp hge
      · exact hleast k hi (by omega)

/-- The passes from a cell on rearrange the cells from there on. -/
theorem passes_rearranged (hn : i + left ≤ n) (buf : ℕ → α) :
    Rearranged i n buf (passes n left i buf) := by
  induction left generalizing i buf with
  | zero => exact Rearranged.refl i n buf
  | succ left ih =>
    rw [passes]
    have hpass := scan_rearranged (Nat.lt_succ_self i) (show i + 1 + (n - (i + 1)) = n by omega) buf
    exact hpass.trans ((ih (by omega) _).mono (Nat.le_succ i))

/-- After its pass a cell is not above any later one, whatever follows. -/
theorem passes_sorted (hn : i + left ≤ n)
    (hsorted : ∀ a b, a < i → a ≤ b → b < n → buf a ≤ buf b) :
    ∀ a b, a < i + left → a ≤ b → b < n →
      passes n left i buf a ≤ passes n left i buf b := by
  induction left generalizing i buf with
  | zero => exact hsorted
  | succ left ih =>
    rw [passes]
    have hpass := scan_rearranged (Nat.lt_succ_self i) (show i + 1 + (n - (i + 1)) = n by omega) buf
    have hleast : ∀ k, i ≤ k → k < n →
        scan i (n - (i + 1)) (i + 1) buf i ≤ scan i (n - (i + 1)) (i + 1) buf k := by
      refine scan_least (Nat.lt_succ_self i) (by omega) fun k hi hk => ?_
      rw [show k = i by omega]
    intro a b ha
    refine ih (by omega) (fun a b ha hab hb => ?_) a b (by omega)
    by_cases hai : a = i
    · rw [hai]
      exact hleast b (by omega) hb
    · rw [hpass.apply_of_lt (by omega)]
      by_cases hbi : b < i
      · rw [hpass.apply_of_lt hbi]
        exact hsorted a b (by omega) hab hb
      · exact hpass.forall (p := fun x => buf a ≤ x)
          (fun k hk hkn => hsorted a k (by omega) (by omega) hkn) b (by omega) hb

theorem exchangeSort_rearranged (n : ℕ) (buf : ℕ → α) :
    Rearranged 0 n buf (exchangeSort n buf) :=
  passes_rearranged (by omega) buf

/-- The cells are in ascending order. -/
theorem exchangeSort_sorted (buf : ℕ → α) {a b : ℕ} (hab : a ≤ b) (hb : b < n) :
    exchangeSort n buf a ≤ exchangeSort n buf b := by
  by_cases hlast : a = n - 1
  · rw [show b = a by omega]
  · exact passes_sorted (by omega) (fun _ _ h => absurd h (Nat.not_lt_zero _)) a b (by omega) hab hb

end Sorting

end SmartHome.ExchangeSort
