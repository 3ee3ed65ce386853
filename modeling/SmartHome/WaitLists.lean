import Mathlib.Algebra.BigOperators.Group.Finset.Basic
import Mathlib.Data.Fintype.BigOperators
import Mathlib.Data.List.Perm.Basic

/-!
# Threads that wait

Threads wait in a list ordered by a key, smaller keys first and equal keys in
the order of arrival; one key for all makes the list a queue. How many threads
are in a given state is counted over all of them.
-/

namespace SmartHome.WaitLists

variable {τ : Type*}

/-- Put a thread before the first one with a larger key. -/
def enqueue (key : τ → ℕ) (t : τ) : List τ → List τ
  | [] => [t]
  | u :: list => if key t < key u then t :: u :: list else u :: enqueue key t list

/-- The thread comes earlier by its key or else by its arrival. -/
def Ahead (key since : τ → ℕ) (t u : τ) : Prop :=
  key t < key u ∨ key t = key u ∧ since t < since u

/-- The list is in order. -/
def Ordered (key since : τ → ℕ) (list : List τ) : Prop := list.Pairwise (Ahead key since)

variable {key since : τ → ℕ}

theorem enqueue_perm (key : τ → ℕ) (t : τ) (list : List τ) :
    (enqueue key t list).Perm (t :: list) := by
  induction list with
  | nil => exact List.Perm.refl _
  | cons u list ih =>
    rw [enqueue]
    split_ifs
    · exact List.Perm.refl _
    · exact (ih.cons u).trans (List.Perm.swap t u list)

@[simp] theorem mem_enqueue {t u : τ} {list : List τ} :
    u ∈ enqueue key t list ↔ u = t ∨ u ∈ list := by
  rw [(enqueue_perm key t list).mem_iff, List.mem_cons]

theorem Ahead.trans {t u v : τ} (htu : Ahead key since t u) (huv : Ahead key since u v) :
    Ahead key since t v := by
  rw [Ahead] at *
  omega

/-- A list in order has no thread twice. -/
theorem Ordered.nodup {list : List τ} (h : Ordered key since list) : list.Nodup := by
  refine List.Pairwise.imp (fun {t u} htu heq => ?_) h
  rw [heq, Ahead] at htu
  omega

/-- A thread that arrives last is put in order. -/
theorem Ordered.enqueue {t : τ} {list : List τ} (h : Ordered key since list)
    (hlast : ∀ u ∈ list, since u < since t) : Ordered key since (enqueue key t list) := by
  induction list with
  | nil => exact List.pairwise_singleton _ _
  | cons u list ih =>
    obtain ⟨hu, hlist⟩ := List.pairwise_cons.mp h
    rw [WaitLists.enqueue]
    split_ifs with hkey
    · refine List.pairwise_cons.mpr ⟨fun v hv => ?_, h⟩
      have htu : Ahead key since t u := Or.inl hkey
      obtain rfl | hv := List.mem_cons.mp hv
      · exact htu
      · exact htu.trans (hu v hv)
    · refine List.pairwise_cons.mpr ⟨fun v hv => ?_, ih hlist
        (fun v hv => hlast v (List.mem_cons_of_mem u hv))⟩
      obtain rfl | hv := mem_enqueue.mp hv
      · have := hlast u List.mem_cons_self
        rw [Ahead]
        omega
      · exact hu v hv

/-- The first thread of a list in order is ahead of all others. -/
theorem Ordered.head {t u : τ} {list : List τ} (h : Ordered key since (t :: list))
    (hu : u ∈ list) : Ahead key since t u := (List.pairwise_cons.mp h).1 u hu

/-- Keys and arrivals of threads outside the list do not matter. -/
theorem Ordered.congr {key' since' : τ → ℕ} {list : List τ} (h : Ordered key since list)
    (hkey : ∀ u ∈ list, key' u = key u) (hsince : ∀ u ∈ list, since' u = since u) :
    Ordered key' since' list := by
  refine List.Pairwise.imp_of_mem (fun {t u} ht hu htu => ?_) h
  rw [Ahead, hkey t ht, hkey u hu, hsince t ht, hsince u hu]
  exact htu

variable {σ : Type*} [Fintype τ]

/-- The number of threads in a state with the property. -/
def count (p : σ → Bool) (f : τ → σ) : ℕ := ∑ t, if p (f t) then 1 else 0

/-- The sum over all threads when one of the terms changes. -/
theorem sum_update [DecidableEq τ] (f : τ → ℕ) (t : τ) (n : ℕ) :
    ∑ u, Function.update f t n u + f t = ∑ u, f u + n := by
  have hrest : ∑ u ∈ Finset.univ.erase t, Function.update f t n u =
      ∑ u ∈ Finset.univ.erase t, f u := by
    refine Finset.sum_congr rfl fun u hu => ?_
    rw [Function.update_of_ne (Finset.ne_of_mem_erase hu)]
  have hnew := Finset.add_sum_erase Finset.univ (Function.update f t n) (Finset.mem_univ t)
  have hold := Finset.add_sum_erase Finset.univ f (Finset.mem_univ t)
  rw [hrest, Function.update_self] at hnew
  omega

/-- One thread changes its state. -/
theorem count_update [DecidableEq τ] (p : σ → Bool) (f : τ → σ) (t : τ) (x : σ) :
    count p (Function.update f t x) + (if p (f t) then 1 else 0) =
      count p f + (if p x then 1 else 0) := by
  have hcomp : (fun u => if p (Function.update f t x u) then 1 else 0) =
      Function.update (fun u => if p (f u) then 1 else 0) t (if p x then 1 else 0) :=
    Function.comp_update (fun y => if p y then 1 else 0) f t x
  rw [count, hcomp]
  exact sum_update _ t _

end SmartHome.WaitLists
