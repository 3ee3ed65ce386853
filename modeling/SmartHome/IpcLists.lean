import SmartHome.WaitLists

/-!
# Waiting at the objects of the kernel

Semaphores, mutexes and mailboxes keep their waiting threads in lists that are
ordered by arrival or by priority, as the object's flag says.
-/

namespace SmartHome.IpcLists

open WaitLists

variable {τ : Type*}

/-- The order in which threads wait. -/
inductive RT_IPC_FLAG
  | fifo
  | prio
  deriving DecidableEq

/-- The key by which a thread waits. -/
def waitKey (flag : RT_IPC_FLAG) (current_priority : τ → ℕ) : τ → ℕ :=
  match flag with
  | .fifo => fun _ => 0
  | .prio => current_priority

/-- Insert a thread into a list of waiting threads. -/
def rt_ipc_list_suspend (flag : RT_IPC_FLAG) (current_priority : τ → ℕ) (list : List τ)
    (thread : τ) : List τ :=
  match flag with
  | .fifo => list ++ [thread]
  | .prio => enqueue current_priority thread list

/-- Both orders are an insertion by the key. -/
theorem rt_ipc_list_suspend_eq (flag : RT_IPC_FLAG) (current_priority : τ → ℕ) (list : List τ)
    (thread : τ) :
    rt_ipc_list_suspend flag current_priority list thread =
      enqueue (waitKey flag current_priority) thread list := by
  cases flag with
  | fifo =>
    induction list with
    | nil => rfl
    | cons u list ih =>
      rw [enqueue, ← ih]
      exact (if_neg (Nat.lt_irrefl 0)).symm
  | prio => rfl

@[simp] theorem mem_rt_ipc_list_suspend {flag : RT_IPC_FLAG} {current_priority : τ → ℕ}
    {list : List τ} {thread t : τ} :
    t ∈ rt_ipc_list_suspend flag current_priority list thread ↔ t = thread ∨ t ∈ list := by
  rw [rt_ipc_list_suspend_eq, mem_enqueue]

/-- The order does not depend on the priorities of other threads. -/
theorem ordered_of_priority {flag : RT_IPC_FLAG} {current_priority current_priority' since : τ → ℕ}
    {list : List τ} (h : Ordered (waitKey flag current_priority) since list)
    (hsame : ∀ t ∈ list, current_priority' t = current_priority t) :
    Ordered (waitKey flag current_priority') since list := by
  refine h.congr (fun t ht => ?_) fun _ _ => rfl
  cases flag with
  | fifo => rfl
  | prio => exact hsame t ht

/-- A thread that begins to wait now stands behind those with its key. -/
theorem ordered_suspend [DecidableEq τ] {flag : RT_IPC_FLAG} {current_priority since : τ → ℕ}
    {clock : ℕ} {list : List τ} {thread : τ}
    (hordered : Ordered (waitKey flag current_priority) since list)
    (hsince : ∀ t ∈ list, since t < clock) (hnot : thread ∉ list) :
    Ordered (waitKey flag current_priority) (Function.update since thread clock)
      (rt_ipc_list_suspend flag current_priority list thread) := by
  have hother : ∀ t ∈ list, Function.update since thread clock t = since t :=
    fun t ht => Function.update_of_ne (ne_of_mem_of_not_mem ht hnot) _ _
  rw [rt_ipc_list_suspend_eq]
  refine Ordered.enqueue (hordered.congr (fun _ _ => rfl) hother) fun t ht => ?_
  rw [hother t ht, Function.update_self]
  exact hsince t ht

/-- Where a thread stands at a semaphore or a mutex. -/
inductive Standing
  | away
  /-- Waiting; a negative number of ticks waits for ever. -/
  | suspended (time : ℤ)
  /-- Resumed with what it has waited for. -/
  | granted
  /-- Resumed by its timer, with the error RT_ETIMEOUT. -/
  | expired
  deriving DecidableEq

open Standing

/-- The list holds the threads that wait. -/
def Waiting (phase : τ → Standing) (list : List τ) : Prop :=
  ∀ t, t ∈ list ↔ ∃ time, phase t = suspended time

variable {phase : τ → Standing} {list : List τ} {thread : τ} {x : Standing}

/-- A thread that does not wait is not in the list. -/
theorem Waiting.not_mem (h : Waiting phase list) (hphase : phase thread = away) :
    thread ∉ list := by
  rw [h, hphase]
  simp

variable [DecidableEq τ]

/-- A thread leaves the list. -/
theorem Waiting.erase (h : Waiting phase list) (hnodup : list.Nodup)
    (hx : ∀ time, x ≠ suspended time) :
    Waiting (Function.update phase thread x) (list.erase thread) := by
  intro t
  by_cases ht : t = thread
  · subst ht
    simp [hnodup.mem_erase_iff, hx]
  · rw [List.mem_erase_of_ne ht, Function.update_of_ne ht]
    exact h t

/-- A thread outside the list stays outside. -/
theorem Waiting.stay (h : Waiting phase list) (hold : ∀ time, phase thread ≠ suspended time)
    (hx : ∀ time, x ≠ suspended time) : Waiting (Function.update phase thread x) list := by
  intro t
  by_cases ht : t = thread
  · subst ht
    rw [h, Function.update_self]
    exact ⟨fun ⟨time, htime⟩ => absurd htime (hold time),
      fun ⟨time, htime⟩ => absurd htime (hx time)⟩
  · rw [Function.update_of_ne ht]
    exact h t

/-- A thread begins to wait. -/
theorem Waiting.suspend (h : Waiting phase list) (flag : RT_IPC_FLAG) (current_priority : τ → ℕ)
    (time : ℤ) :
    Waiting (Function.update phase thread (suspended time))
      (rt_ipc_list_suspend flag current_priority list thread) := by
  intro t
  rw [mem_rt_ipc_list_suspend]
  by_cases ht : t = thread
  · subst ht
    simp
  · rw [Function.update_of_ne ht, ← h t]
    simp [ht]

/-- Arrivals lie in the past, also the one of a thread that begins to wait now. -/
theorem since_suspend {since : τ → ℕ} {clock : ℕ} (h : ∀ t ∈ list, since t < clock)
    (flag : RT_IPC_FLAG) (current_priority : τ → ℕ) :
    ∀ t ∈ rt_ipc_list_suspend flag current_priority list thread,
      Function.update since thread clock t < clock + 1 := by
  intro t ht
  by_cases hthread : t = thread
  · subst hthread
    rw [Function.update_self]
    omega
  · rw [Function.update_of_ne hthread]
    have hmem : t ∈ list := by simpa [hthread] using ht
    exact Nat.lt_succ_of_lt (h t hmem)

end SmartHome.IpcLists
