import Mathlib.Algebra.Order.BigOperators.Group.Finset
import SmartHome.IpcLists
import SmartHome.TransitionRuns

/-!
# Semaphores of the kernel

A semaphore counts permits in 16 bits. Releasing it hands the permit to the
first waiting thread, if there is one, without counting it; the resumed thread
returns with the permit. Threads and interrupts take and release in any order.
Controlling and deleting a semaphore is left out, and waiting threads keep
their priorities.
-/

namespace SmartHome.KernelSemaphore

open IpcLists WaitLists Standing

variable {τ : Type*}

/-- The semaphore and its threads. -/
structure System (τ : Type*) where
  value : ℕ
  suspend_thread : List τ
  phase : τ → Standing
  /-- Permits taken so far, permits released so far. -/
  taken : ℕ
  released : ℕ
  /-- Permits each thread has taken and not released. -/
  held : τ → ℕ
  since : τ → ℕ
  clock : ℕ

/-- What can happen; a release without a thread is one by an interrupt. -/
inductive Event (τ : Type*)
  | rt_sem_take (thread : τ) (time : ℤ)
  | rt_sem_release (thread : Option τ)
  | rt_thread_timeout (thread : τ)
  /-- A resumed thread returns from its call. -/
  | back (thread : τ)

section Steps

variable [DecidableEq τ] (flag : RT_IPC_FLAG) (current_priority : τ → ℕ)

/-- A thread has one more permit. -/
def System.grant (s : System τ) (thread : τ) : System τ :=
  { s with taken := s.taken + 1, held := Function.update s.held thread (s.held thread + 1) }

/-- A thread asks for a permit. -/
def System.rt_sem_take (s : System τ) (thread : τ) (time : ℤ) : System τ :=
  if s.value > 0 then { s.grant thread with value := s.value - 1 }
  else if time = 0 then s
  else
    { s with
      suspend_thread := rt_ipc_list_suspend flag current_priority s.suspend_thread thread,
      phase := Function.update s.phase thread (suspended time),
      since := Function.update s.since thread s.clock,
      clock := s.clock + 1 }

/-- A permit is given back by a thread or from outside. -/
def System.giveBack (s : System τ) (thread : Option τ) : System τ :=
  { s with
    released := s.released + 1,
    held := match thread with
      | some t => Function.update s.held t (s.held t - 1)
      | none => s.held }

/-- A permit goes to the first waiting thread or is counted. -/
def System.rt_sem_release (s : System τ) (thread : Option τ) : System τ :=
  let s := s.giveBack thread
  match s.suspend_thread with
  | first :: rest =>
    { s.grant first with suspend_thread := rest, phase := Function.update s.phase first granted }
  | [] => { s with value := (s.value + 1) % 65536 }

/-- One step of the system. -/
def step (s : System τ) : Event τ → Option (System τ)
  | .rt_sem_take thread time =>
    if s.phase thread = away then some (s.rt_sem_take flag current_priority thread time) else none
  | .rt_sem_release thread =>
    if ∀ t, thread = some t → s.phase t = away then some (s.rt_sem_release thread) else none
  | .rt_thread_timeout thread =>
    match s.phase thread with
    | suspended time =>
      if time > 0 then
        some { s with
          suspend_thread := s.suspend_thread.erase thread,
          phase := Function.update s.phase thread expired }
      else none
    | _ => none
  | .back thread =>
    if s.phase thread = granted ∨ s.phase thread = expired then
      some { s with phase := Function.update s.phase thread away }
    else none

end Steps

/-- A new semaphore. -/
def rt_sem_init (value : ℕ) : System τ where
  value := value % 65536
  suspend_thread := []
  phase _ := away
  taken := 0
  released := 0
  held _ := 0
  since _ := 0
  clock := 0

variable {flag : RT_IPC_FLAG} {current_priority : τ → ℕ} {value : ℕ}

/-- The waiting threads are those in the list, in order, and none waits while
a permit is counted. -/
structure Inv (flag : RT_IPC_FLAG) (current_priority : τ → ℕ) (s : System τ) : Prop where
  waiting : Waiting s.phase s.suspend_thread
  ordered : Ordered (waitKey flag current_priority) s.since s.suspend_thread
  since_lt : ∀ t ∈ s.suspend_thread, s.since t < s.clock
  value_lt : s.value < 65536
  value_eq_zero : s.suspend_thread ≠ [] → s.value = 0

theorem rt_sem_init_inv (flag : RT_IPC_FLAG) (current_priority : τ → ℕ) (value : ℕ) :
    Inv flag current_priority (rt_sem_init value) :=
  ⟨by simp [Waiting, rt_sem_init], List.Pairwise.nil, by simp [rt_sem_init],
    Nat.mod_lt _ (by omega),
    fun hne => absurd rfl hne⟩

variable [DecidableEq τ]

theorem Inv.rt_sem_take {s : System τ} (h : Inv flag current_priority s) {thread : τ}
    (hphase : s.phase thread = away) (time : ℤ) :
    Inv flag current_priority (s.rt_sem_take flag current_priority thread time) := by
  rw [System.rt_sem_take]
  split_ifs with hpos htime
  · refine ⟨h.waiting, h.ordered, h.since_lt, ?_, fun hne => ?_⟩
    · have := h.value_lt
      dsimp only
      omega
    · have := h.value_eq_zero hne
      omega
  · exact h
  · exact ⟨h.waiting.suspend flag current_priority time,
      ordered_suspend h.ordered h.since_lt (h.waiting.not_mem hphase),
      since_suspend h.since_lt flag current_priority, h.value_lt,
      fun _ => Nat.eq_zero_of_not_pos hpos⟩

theorem Inv.rt_sem_release {s : System τ} (h : Inv flag current_priority s)
    (thread : Option τ) : Inv flag current_priority (s.rt_sem_release thread) := by
  rw [System.rt_sem_release]
  dsimp only
  split
  · rename_i first rest hlist
    have hcons : s.suspend_thread = first :: rest := hlist
    have herase : s.suspend_thread.erase first = rest := by rw [hcons, List.erase_cons_head]
    have hsub : rest.Sublist s.suspend_thread := herase ▸ List.erase_sublist
    have hwaiting : Waiting (Function.update s.phase first granted)
        (s.suspend_thread.erase first) := h.waiting.erase h.ordered.nodup (by simp)
    rw [herase] at hwaiting
    exact ⟨hwaiting, h.ordered.sublist hsub, fun t ht => h.since_lt t (hsub.subset ht),
      h.value_lt, fun _ => h.value_eq_zero (by simp [hcons])⟩
  · rename_i hlist
    exact ⟨h.waiting, h.ordered, h.since_lt, Nat.mod_lt _ (by omega),
      fun hne => absurd hlist hne⟩

/-- Every step keeps the invariant. -/
theorem step_inv {s s' : System τ} {e : Event τ} (h : Inv flag current_priority s)
    (hstep : step flag current_priority s e = some s') : Inv flag current_priority s' := by
  cases e with
  | rt_sem_take thread time =>
    rw [step] at hstep
    split_ifs at hstep with hphase
    cases hstep
    exact h.rt_sem_take hphase time
  | rt_sem_release thread =>
    rw [step] at hstep
    split_ifs at hstep
    cases hstep
    exact h.rt_sem_release thread
  | rt_thread_timeout thread =>
    rw [step] at hstep
    split at hstep
    · split_ifs at hstep
      cases hstep
      refine ⟨h.waiting.erase h.ordered.nodup (by simp), h.ordered.sublist List.erase_sublist,
        fun t ht => h.since_lt t (List.mem_of_mem_erase ht), h.value_lt, fun hne => ?_⟩
      exact h.value_eq_zero fun hnil => hne (by simp [hnil])
    · cases hstep
  | back thread =>
    rw [step] at hstep
    split_ifs at hstep with hphase
    cases hstep
    refine ⟨h.waiting.stay (fun time htime => ?_) (by simp), h.ordered, h.since_lt, h.value_lt,
      h.value_eq_zero⟩
    simp [htime] at hphase

/-- Permits are not lost while their number fits into 16 bits. -/
def Conserved (value : ℕ) (s : System τ) : Prop :=
  value + s.released < 65536 → s.value + s.taken = value + s.released

/-- Every step conserves the permits. -/
theorem step_conserved {s s' : System τ} {e : Event τ} (h : Conserved value s)
    (hstep : step flag current_priority s e = some s') : Conserved value s' := by
  cases e with
  | rt_sem_take thread time =>
    rw [step] at hstep
    split_ifs at hstep
    cases hstep
    rw [System.rt_sem_take]
    split_ifs with hpos
    · intro hfit
      have := h hfit
      change s.value - 1 + (s.taken + 1) = value + s.released
      omega
    · exact h
    · exact h
  | rt_sem_release thread =>
    rw [step] at hstep
    split_ifs at hstep
    cases hstep
    rw [System.rt_sem_release]
    dsimp only
    split
    · intro hfit
      have hfit' : value + (s.released + 1) < 65536 := hfit
      have := h (by omega)
      change s.value + (s.taken + 1) = value + (s.released + 1)
      omega
    · intro hfit
      have hfit' : value + (s.released + 1) < 65536 := hfit
      have := h (by omega)
      change (s.value + 1) % 65536 + s.taken = value + (s.released + 1)
      rw [Nat.mod_eq_of_lt (by omega)]
      omega
  | rt_thread_timeout thread =>
    rw [step] at hstep
    split at hstep
    · split_ifs at hstep
      cases hstep
      exact h
    · cases hstep
  | back thread =>
    rw [step] at hstep
    split_ifs at hstep
    cases hstep
    exact h

/-- As long as the permits fit into 16 bits, those counted and those taken are
those given, by whomever and in whatever order; threads wait, in the order the
flag says, only while no permit is counted. -/
theorem permits_conserved (flag : RT_IPC_FLAG) (current_priority : τ → ℕ) (value : ℕ)
    {s : System τ} (hs : TransitionRuns.Reachable (· = rt_sem_init value)
      (step flag current_priority) s) :
    (value + s.released < 65536 → s.value + s.taken = value + s.released) ∧
      (s.suspend_thread ≠ [] → s.value = 0) ∧
      Ordered (waitKey flag current_priority) s.since s.suspend_thread := by
  have hinv : Inv flag current_priority s := by
    refine TransitionRuns.Reachable.invariant ?_ (fun _ _ _ => step_inv) hs
    rintro _ rfl
    exact rt_sem_init_inv flag current_priority value
  have hconserved : Conserved value s := by
    refine TransitionRuns.Reachable.invariant ?_ (fun _ _ _ => step_conserved) hs
    rintro _ rfl hfit
    change value % 65536 + 0 = value + 0
    rw [Nat.mod_eq_of_lt (by omega)]
  exact ⟨hconserved, hinv.value_eq_zero, hinv.ordered⟩

/-- A release comes from a thread that has a permit. -/
def Disciplined (s : System τ) : Event τ → Prop
  | .rt_sem_release (some thread) => 0 < s.held thread
  | .rt_sem_release none => False
  | _ => True

instance Disciplined.decidable (s : System τ) : ∀ e, Decidable (Disciplined s e)
  | .rt_sem_release (some thread) => inferInstanceAs (Decidable (0 < s.held thread))
  | .rt_sem_release none => isFalse not_false
  | .rt_sem_take _ _ => isTrue trivial
  | .rt_thread_timeout _ => isTrue trivial
  | .back _ => isTrue trivial

/-- Permits are with the threads or counted. -/
def Balanced [Fintype τ] (value : ℕ) (s : System τ) : Prop := s.value + ∑ t, s.held t = value

/-- Threads that release only what they have taken keep the balance. -/
theorem step_balanced [Fintype τ] {s s' : System τ} {e : Event τ} (hvalue : value < 65536)
    (h : Balanced value s) (hd : Disciplined s e)
    (hstep : step flag current_priority s e = some s') : Balanced value s' := by
  have hgrant : ∀ (held : τ → ℕ) (t : τ),
      ∑ u, Function.update held t (held t + 1) u = ∑ u, held u + 1 := by
    intro held t
    have := sum_update held t (held t + 1)
    omega
  rw [Balanced] at h
  cases e with
  | rt_sem_take thread time =>
    rw [step] at hstep
    split_ifs at hstep
    cases hstep
    rw [System.rt_sem_take]
    split_ifs with hpos
    · show s.value - 1 + ∑ t, Function.update s.held thread (s.held thread + 1) t = value
      rw [hgrant]
      omega
    · exact h
    · exact h
  | rt_sem_release thread =>
    cases thread with
    | none => exact absurd hd not_false
    | some thread =>
      have hpos : 0 < s.held thread := hd
      have hback := sum_update s.held thread (s.held thread - 1)
      rw [step] at hstep
      split_ifs at hstep
      cases hstep
      rw [System.rt_sem_release]
      dsimp only
      split
      · rename_i first rest _
        change s.value + ∑ t, Function.update (s.giveBack (some thread)).held first
          ((s.giveBack (some thread)).held first + 1) t = value
        rw [hgrant]
        change s.value + (∑ t, Function.update s.held thread (s.held thread - 1) t + 1) = value
        omega
      · show (s.value + 1) % 65536 +
          ∑ t, Function.update s.held thread (s.held thread - 1) t = value
        rw [Nat.mod_eq_of_lt (by omega)]
        omega
  | rt_thread_timeout thread =>
    rw [step] at hstep
    split at hstep
    · split_ifs at hstep
      cases hstep
      exact h
    · cases hstep
  | back thread =>
    rw [step] at hstep
    split_ifs at hstep
    cases hstep
    exact h

/-- A semaphore with one permit is a lock for threads that release only what
they have taken: at most one of them has it, and if one waits another has it. -/
theorem lock_exclusive [Fintype τ] (flag : RT_IPC_FLAG) (current_priority : τ → ℕ)
    (es : List (Event τ)) (s : System τ)
    (hrun : TransitionRuns.run (step flag current_priority) (rt_sem_init 1) es = some s)
    (hd : TransitionRuns.Guarded Disciplined (step flag current_priority) (rt_sem_init 1) es) :
    (∀ t u, 0 < s.held t → 0 < s.held u → t = u) ∧ (∀ t, s.held t ≤ 1) ∧
      (s.suspend_thread ≠ [] → ∃ t, s.held t = 1) := by
  have hinv : Inv flag current_priority s :=
    TransitionRuns.run_invariant (fun _ _ _ => step_inv)
      (rt_sem_init_inv flag current_priority 1) hrun
  have hbalanced : s.value + ∑ t, s.held t = 1 :=
    TransitionRuns.run_invariant_of_guarded (I := Balanced 1)
      (fun _ _ _ h hd hstep => step_balanced (by omega) h hd hstep)
      (by simp [Balanced, rt_sem_init])
      hd hrun
  have hle : ∀ t, s.held t ≤ 1 := by
    intro t
    have := Finset.single_le_sum (fun u _ => Nat.zero_le (s.held u)) (Finset.mem_univ t)
    omega
  refine ⟨fun t u ht hu => ?_, hle, fun hne => ?_⟩
  · by_contra hne
    have hpair := Finset.add_le_sum (fun i _ => Nat.zero_le (s.held i)) (Finset.mem_univ t)
      (Finset.mem_univ u) hne
    omega
  · have hzero := hinv.value_eq_zero hne
    by_contra hnone
    have hall : ∑ t, s.held t = 0 := by
      refine Finset.sum_eq_zero fun t _ => ?_
      have := hle t
      have := not_exists.mp hnone t
      omega
    omega

/-- Two threads ask for the lock, and the first one gives it back. -/
def handOver : List (Event (Fin 2)) :=
  [.rt_sem_take 0 (-1), .rt_sem_take 1 (-1), .rt_sem_release (some 0)]

/-- The state after these events. -/
def handedOver : System (Fin 2) :=
  (TransitionRuns.run (step .fifo fun _ => 0) (rt_sem_init 1) handOver).get rfl

theorem permits_conserved_handedOver : handedOver.value + handedOver.taken = 1 + 1 :=
  (permits_conserved .fifo (fun _ => 0) 1
    ⟨_, handOver, rfl, (Option.some_get rfl).symm⟩).1 (by decide)

theorem lock_exclusive_handedOver : handedOver.held 1 = 1 ∧ ¬0 < handedOver.held 0 := by
  have hlock := lock_exclusive .fifo (fun _ => 0) handOver handedOver (Option.some_get rfl).symm
    (by decide)
  exact ⟨rfl, fun h => absurd (hlock.1 0 1 h Nat.one_pos) (by decide)⟩

end SmartHome.KernelSemaphore
