import SmartHome.IpcLists
import SmartHome.TransitionRuns

/-!
# Mutexes of the kernel

A mutex can be taken again by the thread that owns it and has to be released
as often. While it is taken, its owner runs with the priority of a waiting
thread if that is higher; smaller numbers are higher priorities. Releasing it
makes the first waiting thread the owner. Signals, controlling and deleting a
mutex are left out. The threads use no other mutex, which could take an
inherited priority away, and keep their own priorities.
-/

namespace SmartHome.KernelMutex

open IpcLists WaitLists Standing

variable {τ : Type*}

/-- The mutex and its threads. -/
structure System (τ : Type*) where
  value : ℕ
  original_priority : ℕ
  hold : ℕ
  owner : Option τ
  suspend_thread : List τ
  phase : τ → Standing
  current_priority : τ → ℕ
  /-- How often each thread has taken the mutex and not released it. -/
  nested : τ → ℕ
  since : τ → ℕ
  clock : ℕ

/-- What can happen. -/
inductive Event (τ : Type*)
  | rt_mutex_take (thread : τ) (time : ℤ)
  | rt_mutex_release (thread : τ)
  | rt_thread_timeout (thread : τ)
  /-- A resumed thread returns from its call. -/
  | back (thread : τ)

section Steps

variable [DecidableEq τ] (flag : RT_IPC_FLAG)

/-- The mutex becomes the thread's. -/
def System.own (s : System τ) (thread : τ) : System τ :=
  { s with
    owner := some thread,
    original_priority := s.current_priority thread,
    hold := (s.hold + 1) % 256,
    nested := Function.update s.nested thread (s.nested thread + 1) }

/-- The owner runs at least with the priority of a thread that is to wait. -/
def System.inherit (s : System τ) (thread : τ) : System τ :=
  match s.owner with
  | some owner =>
    if s.current_priority thread < s.current_priority owner then
      { s with
        current_priority :=
          Function.update s.current_priority owner (s.current_priority thread) }
    else s
  | none => s

/-- The thread waits for the mutex. -/
def System.suspend (s : System τ) (thread : τ) (time : ℤ) : System τ :=
  { s with
    suspend_thread := rt_ipc_list_suspend flag s.current_priority s.suspend_thread thread,
    phase := Function.update s.phase thread (suspended time),
    since := Function.update s.since thread s.clock,
    clock := s.clock + 1 }

/-- A thread asks for the mutex. -/
def System.rt_mutex_take (s : System τ) (thread : τ) (time : ℤ) : System τ :=
  if s.owner = some thread then
    { s with
      hold := (s.hold + 1) % 256,
      nested := Function.update s.nested thread (s.nested thread + 1) }
  else if s.value > 0 then { s.own thread with value := s.value - 1 }
  else if time = 0 then s
  else (s.inherit thread).suspend flag thread time

/-- The first waiting thread becomes the owner, or nobody. -/
def System.passOn (s : System τ) : System τ :=
  match s.suspend_thread with
  | first :: rest =>
    { s.own first with suspend_thread := rest, phase := Function.update s.phase first granted }
  | [] => { s with value := (s.value + 1) % 65536, owner := none, original_priority := 0xFF }

/-- A thread releases the mutex; only the owner can. -/
def System.rt_mutex_release (s : System τ) (thread : τ) : System τ :=
  if s.owner = some thread then
    let s := { s with
      hold := (s.hold + 255) % 256,
      nested := Function.update s.nested thread (s.nested thread - 1) }
    if s.hold = 0 then
      System.passOn { s with
        current_priority := Function.update s.current_priority thread s.original_priority }
    else s
  else s

/-- One step of the system. -/
def step (s : System τ) : Event τ → Option (System τ)
  | .rt_mutex_take thread time =>
    if s.phase thread = away then some (s.rt_mutex_take flag thread time) else none
  | .rt_mutex_release thread =>
    if s.phase thread = away then some (s.rt_mutex_release thread) else none
  | .rt_thread_timeout thread =>
    match s.phase thread with
    | suspended time =>
      if time > 0 then
        some { s with
          suspend_thread := s.suspend_thread.erase thread,
          phase := Function.update s.phase thread expired }
      else none
    | _ => none
  | .back thread =>
    if s.phase thread = granted ∨ s.phase thread = expired then
      some { s with phase := Function.update s.phase thread away }
    else none

end Steps

/-- A new mutex for threads with given priorities. -/
def rt_mutex_init (priority : τ → ℕ) : System τ where
  value := 1
  original_priority := 0xFF
  hold := 0
  owner := none
  suspend_thread := []
  phase _ := away
  current_priority := priority
  nested _ := 0
  since _ := 0
  clock := 0

variable {flag : RT_IPC_FLAG} {priority : τ → ℕ}

/-- What holds of the owner: it has taken the mutex, nobody else has, and its
priority is at least its own. -/
structure Owned (flag : RT_IPC_FLAG) (priority : τ → ℕ) (s : System τ) (owner : τ) : Prop where
  value_eq : s.value = 0
  hold_eq : s.hold = s.nested owner
  nested_pos : 0 < s.nested owner
  nested_lt : s.nested owner < 256
  nested_eq_zero : ∀ t, t ≠ owner → s.nested t = 0
  not_waiting : owner ∉ s.suspend_thread
  original_eq : s.original_priority = priority owner
  current_le : s.current_priority owner ≤ priority owner
  inherits : flag = .prio → ∀ t ∈ s.suspend_thread,
    s.current_priority owner ≤ s.current_priority t

/-- What holds of a mutex that nobody owns. -/
structure Free (s : System τ) : Prop where
  value_eq : s.value = 1
  hold_eq : s.hold = 0
  nested_eq_zero : ∀ t, s.nested t = 0
  suspend_eq_nil : s.suspend_thread = []

/-- What holds between the steps. -/
structure Inv (flag : RT_IPC_FLAG) (priority : τ → ℕ) (s : System τ) : Prop where
  waiting : Waiting s.phase s.suspend_thread
  ordered : Ordered (waitKey flag s.current_priority) s.since s.suspend_thread
  since_lt : ∀ t ∈ s.suspend_thread, s.since t < s.clock
  current_eq : ∀ t, s.owner ≠ some t → s.current_priority t = priority t
  owned : ∀ owner, s.owner = some owner → Owned flag priority s owner
  free : s.owner = none → Free s

/-- The owner does not take the mutex so often that its count of 8 bits wraps. -/
def Shallow (s : System τ) : Event τ → Prop
  | .rt_mutex_take thread _ => s.nested thread < 255
  | _ => True

instance Shallow.decidable (s : System τ) : ∀ e, Decidable (Shallow s e)
  | .rt_mutex_take thread _ => inferInstanceAs (Decidable (s.nested thread < 255))
  | .rt_mutex_release _ => isTrue trivial
  | .rt_thread_timeout _ => isTrue trivial
  | .back _ => isTrue trivial

theorem rt_mutex_init_inv (flag : RT_IPC_FLAG) (priority : τ → ℕ) :
    Inv flag priority (rt_mutex_init priority) :=
  ⟨by simp [Waiting, rt_mutex_init], List.Pairwise.nil, by simp [rt_mutex_init], fun _ _ => rfl,
    fun _ howner => absurd howner (by simp [rt_mutex_init]), fun _ => ⟨rfl, rfl, fun _ => rfl, rfl⟩⟩

variable [DecidableEq τ]

/-- The owner's priority becomes the better one of two. -/
theorem inherit_eq {s : System τ} {owner : τ} (howner : s.owner = some owner) (thread : τ) :
    s.inherit thread =
      { s with
        current_priority := Function.update s.current_priority owner
          (min (s.current_priority thread) (s.current_priority owner)) } := by
  rw [System.inherit]
  split
  · rename_i o ho
    obtain rfl : owner = o := Option.some.inj (howner.symm.trans ho)
    split_ifs with hlt
    · rw [min_eq_left hlt.le]
    · rw [min_eq_right (Nat.le_of_not_lt hlt), Function.update_eq_self]
  · rename_i hnone
    exact absurd (howner.symm.trans hnone) (by simp)

/-- The owner takes the mutex once more. -/
theorem Inv.takeAgain {s : System τ} (h : Inv flag priority s) {thread : τ}
    (howner : s.owner = some thread) (hlt : s.nested thread < 255) (time : ℤ) :
    Inv flag priority (s.rt_mutex_take flag thread time) := by
  have hown := h.owned thread howner
  rw [System.rt_mutex_take, if_pos howner]
  refine ⟨h.waiting, h.ordered, h.since_lt, h.current_eq, fun owner ho => ?_,
    fun hnone => absurd (howner.symm.trans hnone) (by simp)⟩
  obtain rfl : thread = owner := Option.some.inj (howner.symm.trans ho)
  have hhold := hown.hold_eq
  refine ⟨hown.value_eq, ?_, ?_, ?_, fun t ht => ?_, hown.not_waiting, hown.original_eq,
    hown.current_le, hown.inherits⟩
  · dsimp only
    rw [Function.update_self]
    omega
  · dsimp only
    rw [Function.update_self]
    omega
  · dsimp only
    rw [Function.update_self]
    omega
  · dsimp only
    rw [Function.update_of_ne ht]
    exact hown.nested_eq_zero t ht

/-- A thread takes a mutex that nobody owns. -/
theorem Inv.takeFree {s : System τ} (h : Inv flag priority s) (hfree : s.owner = none)
    (thread : τ) : Inv flag priority { s.own thread with value := s.value - 1 } := by
  have hf := h.free hfree
  have hnil := hf.suspend_eq_nil
  have hcurrent : s.current_priority thread = priority thread :=
    h.current_eq thread (by simp [hfree])
  refine ⟨h.waiting, h.ordered, h.since_lt, fun t _ => h.current_eq t (by simp [hfree]),
    fun owner ho => ?_, fun hnone => absurd hnone (by simp [System.own])⟩
  obtain rfl : thread = owner := Option.some.inj ho
  have hzero := hf.nested_eq_zero thread
  have hhold := hf.hold_eq
  have hvalue := hf.value_eq
  refine ⟨?_, ?_, ?_, ?_, fun t ht => ?_, ?_, hcurrent, hcurrent.le, fun _ t ht => ?_⟩
  · show s.value - 1 = 0
    omega
  · show (s.hold + 1) % 256 = Function.update s.nested thread (s.nested thread + 1) thread
    rw [Function.update_self]
    omega
  · show 0 < Function.update s.nested thread (s.nested thread + 1) thread
    rw [Function.update_self]
    omega
  · show Function.update s.nested thread (s.nested thread + 1) thread < 256
    rw [Function.update_self]
    omega
  · show Function.update s.nested thread (s.nested thread + 1) t = 0
    rw [Function.update_of_ne ht]
    exact hf.nested_eq_zero t
  · show thread ∉ s.suspend_thread
    simp [hnil]
  · have hmem : t ∈ s.suspend_thread := ht
    simp [hnil] at hmem

/-- A thread begins to wait, and the owner inherits its priority. -/
theorem Inv.wait {s : System τ} (h : Inv flag priority s) {thread owner : τ}
    (howner : s.owner = some owner) (hne : thread ≠ owner) (hphase : s.phase thread = away)
    (time : ℤ) : Inv flag priority ((s.inherit thread).suspend flag thread time) := by
  have hown := h.owned owner howner
  have hother : ∀ t, t ≠ owner → Function.update s.current_priority owner
      (min (s.current_priority thread) (s.current_priority owner)) t = s.current_priority t :=
    fun t ht => Function.update_of_ne ht _ _
  have hnot : thread ∉ s.suspend_thread := h.waiting.not_mem hphase
  have hapart : ∀ t ∈ s.suspend_thread, t ≠ owner :=
    fun t ht => ne_of_mem_of_not_mem ht hown.not_waiting
  rw [inherit_eq howner, System.suspend]
  dsimp only
  refine ⟨h.waiting.suspend flag _ time,
    ordered_suspend (ordered_of_priority h.ordered fun t ht => hother t (hapart t ht))
      h.since_lt hnot,
    since_suspend h.since_lt flag _, fun t ht => ?_, fun o ho => ?_,
    fun hnone => absurd (howner.symm.trans hnone) (by simp)⟩
  · have hto : t ≠ owner := by
      rintro rfl
      exact ht howner
    dsimp only
    rw [hother t hto]
    exact h.current_eq t ht
  · obtain rfl : owner = o := Option.some.inj (howner.symm.trans ho)
    refine ⟨hown.value_eq, hown.hold_eq, hown.nested_pos, hown.nested_lt, hown.nested_eq_zero,
      ?_, hown.original_eq, ?_, fun hprio t ht => ?_⟩
    · dsimp only
      rw [mem_rt_ipc_list_suspend]
      rintro (heq | hmem)
      · exact hne heq.symm
      · exact hown.not_waiting hmem
    · dsimp only
      rw [Function.update_self]
      exact (min_le_right _ _).trans hown.current_le
    · dsimp only at ht ⊢
      rw [mem_rt_ipc_list_suspend] at ht
      rw [Function.update_self]
      obtain rfl | hmem := ht
      · rw [hother t hne]
        exact min_le_left _ _
      · rw [hother t (hapart t hmem)]
        exact (min_le_right _ _).trans (hown.inherits hprio t hmem)

/-- Asking for the mutex keeps the invariant. -/
theorem Inv.rt_mutex_take {s : System τ} (h : Inv flag priority s) {thread : τ}
    (hphase : s.phase thread = away) (hlt : s.nested thread < 255) (time : ℤ) :
    Inv flag priority (s.rt_mutex_take flag thread time) := by
  by_cases howner : s.owner = some thread
  · exact h.takeAgain howner hlt time
  · rw [System.rt_mutex_take, if_neg howner]
    cases ho : s.owner with
    | none =>
      have hvalue := (h.free ho).value_eq
      rw [if_pos (by omega)]
      exact h.takeFree ho thread
    | some owner =>
      have hvalue := (h.owned owner ho).value_eq
      rw [if_neg (by omega)]
      split_ifs
      · exact h
      · refine h.wait ho (fun heq => howner ?_) hphase time
        rw [ho, heq]

/-- The last release makes the first waiting thread the owner, or nobody, and
the thread has its own priority again. -/
theorem Inv.passOn {s : System τ} (h : Inv flag priority s) {thread : τ}
    (howner : s.owner = some thread) :
    Inv flag priority (System.passOn { s with
      hold := 0,
      nested := Function.update s.nested thread 0,
      current_priority := Function.update s.current_priority thread s.original_priority }) := by
  have hown := h.owned thread howner
  have hcurrent : ∀ t, Function.update s.current_priority thread s.original_priority t =
      priority t := by
    intro t
    by_cases ht : t = thread
    · rw [ht, Function.update_self, hown.original_eq]
    · rw [Function.update_of_ne ht]
      exact h.current_eq t fun heq => ht (Option.some.inj (heq.symm.trans howner))
  have hnested : ∀ t, Function.update s.nested thread 0 t = 0 := by
    intro t
    by_cases ht : t = thread
    · rw [ht, Function.update_self]
    · rw [Function.update_of_ne ht, hown.nested_eq_zero t ht]
  have hordered : Ordered (waitKey flag (Function.update s.current_priority thread
      s.original_priority)) s.since s.suspend_thread :=
    ordered_of_priority h.ordered fun t ht =>
      Function.update_of_ne (ne_of_mem_of_not_mem ht hown.not_waiting) _ _
  rw [System.passOn]
  dsimp only
  split
  · rename_i first rest hlist
    have herase : s.suspend_thread.erase first = rest := by rw [hlist, List.erase_cons_head]
    have hsub : rest.Sublist s.suspend_thread := herase ▸ List.erase_sublist
    have hwaiting : Waiting (Function.update s.phase first granted)
        (s.suspend_thread.erase first) := h.waiting.erase h.ordered.nodup (by simp)
    rw [herase] at hwaiting
    rw [hlist] at hordered
    refine ⟨hwaiting, hordered.of_cons, fun t ht => h.since_lt t (hsub.subset ht),
      fun t _ => hcurrent t, fun owner ho => ?_, fun hnone => absurd hnone (by simp [System.own])⟩
    obtain rfl : first = owner := Option.some.inj ho
    refine ⟨hown.value_eq, ?_, ?_, ?_, fun t ht => ?_, ?_, hcurrent first, (hcurrent first).le,
      fun hprio t ht => ?_⟩
    · show (0 + 1) % 256 = Function.update (Function.update s.nested thread 0) first
        (Function.update s.nested thread 0 first + 1) first
      rw [Function.update_self, hnested]
    · show 0 < Function.update (Function.update s.nested thread 0) first
        (Function.update s.nested thread 0 first + 1) first
      rw [Function.update_self]
      omega
    · show Function.update (Function.update s.nested thread 0) first
        (Function.update s.nested thread 0 first + 1) first < 256
      rw [Function.update_self, hnested]
      omega
    · show Function.update (Function.update s.nested thread 0) first
        (Function.update s.nested thread 0 first + 1) t = 0
      rw [Function.update_of_ne ht]
      exact hnested t
    · exact (List.nodup_cons.mp hordered.nodup).1
    · have hahead := hordered.head ht
      subst hprio
      rw [Ahead, waitKey] at hahead
      change Function.update s.current_priority thread s.original_priority first ≤
        Function.update s.current_priority thread s.original_priority t
      omega
  · rename_i hlist
    refine ⟨h.waiting, hordered, h.since_lt, fun t _ => hcurrent t,
      fun owner ho => absurd ho (by simp), fun _ => ⟨?_, rfl, hnested, hlist⟩⟩
    have hvalue := hown.value_eq
    change (s.value + 1) % 65536 = 1
    omega

/-- Releasing the mutex keeps the invariant. -/
theorem Inv.rt_mutex_release {s : System τ} (h : Inv flag priority s) (thread : τ) :
    Inv flag priority (s.rt_mutex_release thread) := by
  rw [System.rt_mutex_release]
  dsimp only
  split_ifs with howner hzero
  · have hown := h.owned thread howner
    have hhold := hown.hold_eq
    have hpos := hown.nested_pos
    have hlt := hown.nested_lt
    have hlast : s.nested thread = 1 := by omega
    rw [hzero, hlast]
    exact h.passOn howner
  · have hown := h.owned thread howner
    have hhold := hown.hold_eq
    have hpos := hown.nested_pos
    have hlt := hown.nested_lt
    refine ⟨h.waiting, h.ordered, h.since_lt, h.current_eq, fun owner ho => ?_,
      fun hnone => absurd (howner.symm.trans hnone) (by simp)⟩
    obtain rfl : thread = owner := Option.some.inj (howner.symm.trans ho)
    refine ⟨hown.value_eq, ?_, ?_, ?_, fun t ht => ?_, hown.not_waiting, hown.original_eq,
      hown.current_le, hown.inherits⟩
    · dsimp only
      rw [Function.update_self]
      omega
    · dsimp only
      rw [Function.update_self]
      omega
    · dsimp only
      rw [Function.update_self]
      omega
    · dsimp only
      rw [Function.update_of_ne ht]
      exact hown.nested_eq_zero t ht
  · exact h

/-- Every step keeps the invariant. -/
theorem step_inv {s s' : System τ} {e : Event τ} (h : Inv flag priority s) (hd : Shallow s e)
    (hstep : step flag s e = some s') : Inv flag priority s' := by
  cases e with
  | rt_mutex_take thread time =>
    rw [step] at hstep
    split_ifs at hstep with hphase
    cases hstep
    exact h.rt_mutex_take hphase hd time
  | rt_mutex_release thread =>
    rw [step] at hstep
    split_ifs at hstep
    cases hstep
    exact h.rt_mutex_release thread
  | rt_thread_timeout thread =>
    rw [step] at hstep
    split at hstep
    · split_ifs at hstep
      cases hstep
      refine ⟨h.waiting.erase h.ordered.nodup (by simp), h.ordered.sublist List.erase_sublist,
        fun t ht => h.since_lt t (List.mem_of_mem_erase ht), h.current_eq, fun owner ho => ?_,
        fun hnone => ?_⟩
      · have hown := h.owned owner ho
        exact ⟨hown.value_eq, hown.hold_eq, hown.nested_pos, hown.nested_lt, hown.nested_eq_zero,
          fun hmem => hown.not_waiting (List.mem_of_mem_erase hmem), hown.original_eq,
          hown.current_le, fun hprio t ht => hown.inherits hprio t (List.mem_of_mem_erase ht)⟩
      · have hf := h.free hnone
        exact ⟨hf.value_eq, hf.hold_eq, hf.nested_eq_zero, by simp [hf.suspend_eq_nil]⟩
    · cases hstep
  | back thread =>
    rw [step] at hstep
    split_ifs at hstep with hphase
    cases hstep
    refine ⟨h.waiting.stay (fun time htime => ?_) (by simp), h.ordered, h.since_lt, h.current_eq,
      fun owner ho => ?_, fun hnone => ?_⟩
    · simp [htime] at hphase
    · have hown := h.owned owner ho
      exact ⟨hown.value_eq, hown.hold_eq, hown.nested_pos, hown.nested_lt, hown.nested_eq_zero,
        hown.not_waiting, hown.original_eq, hown.current_le, hown.inherits⟩
    · have hf := h.free hnone
      exact ⟨hf.value_eq, hf.hold_eq, hf.nested_eq_zero, hf.suspend_eq_nil⟩

/-- Whatever the threads do, a thread has taken the mutex and not yet released
it exactly while it is the owner, as often as the mutex counts; threads wait
only while there is an owner, and whoever is not the owner has its own
priority. -/
theorem mutex_exclusive (flag : RT_IPC_FLAG) (priority : τ → ℕ) (es : List (Event τ))
    (s : System τ)
    (hrun : TransitionRuns.run (step flag) (rt_mutex_init priority) es = some s)
    (hd : TransitionRuns.Guarded Shallow (step flag) (rt_mutex_init priority) es) :
    (∀ t, 0 < s.nested t ↔ s.owner = some t) ∧ (∀ t, s.owner = some t → s.hold = s.nested t) ∧
      (s.suspend_thread ≠ [] → s.owner ≠ none) ∧
      (∀ t, s.owner ≠ some t → s.current_priority t = priority t) := by
  have hinv : Inv flag priority s :=
    TransitionRuns.run_invariant_of_guarded (fun _ _ _ => step_inv)
      (rt_mutex_init_inv flag priority) hd hrun
  refine ⟨fun t => ⟨fun hpos => ?_, fun howner => (hinv.owned t howner).nested_pos⟩,
    fun t howner => (hinv.owned t howner).hold_eq,
    fun hne hnone => hne (hinv.free hnone).suspend_eq_nil, hinv.current_eq⟩
  cases howner : s.owner with
  | none =>
    have := (hinv.free howner).nested_eq_zero t
    omega
  | some owner =>
    by_contra hne
    have := (hinv.owned owner howner).nested_eq_zero t fun heq => hne (by rw [heq])
    omega

/-- The owner of a mutex whose threads wait by priority never runs below a
thread that waits for it, nor below its own priority, as long as it uses no
other mutex. -/
theorem owner_inherits (priority : τ → ℕ) (es : List (Event τ)) (s : System τ) (owner : τ)
    (hrun : TransitionRuns.run (step .prio) (rt_mutex_init priority) es = some s)
    (hd : TransitionRuns.Guarded Shallow (step .prio) (rt_mutex_init priority) es)
    (howner : s.owner = some owner) :
    s.current_priority owner ≤ priority owner ∧
      ∀ t ∈ s.suspend_thread, s.current_priority owner ≤ priority t := by
  have hinv : Inv .prio priority s :=
    TransitionRuns.run_invariant_of_guarded (fun _ _ _ => step_inv)
      (rt_mutex_init_inv .prio priority) hd hrun
  have hown := hinv.owned owner howner
  refine ⟨hown.current_le, fun t ht => ?_⟩
  have hnot : s.owner ≠ some t := by
    rw [howner]
    rintro heq
    cases heq
    exact hown.not_waiting ht
  rw [← hinv.current_eq t hnot]
  exact hown.inherits rfl t ht

/-- Three threads ask for the mutex, the last one with the highest priority,
and the first one gives it back. -/
def handOver : List (Event ℕ) :=
  [.rt_mutex_take 0 (-1), .rt_mutex_take 1 (-1), .rt_mutex_take 2 (-1), .rt_mutex_release 0]

/-- The priorities of the three threads. -/
def ranks (t : ℕ) : ℕ := 30 - 10 * t

/-- The state after these events. -/
def handedOver (flag : RT_IPC_FLAG) : System ℕ :=
  (TransitionRuns.run (step flag) (rt_mutex_init ranks) handOver).get (by cases flag <;> rfl)

theorem mutex_exclusive_handedOver :
    (handedOver .fifo).owner = some 1 ∧ ¬0 < (handedOver .fifo).nested 2 := by
  have hlock := mutex_exclusive .fifo ranks handOver (handedOver .fifo) (Option.some_get rfl).symm
    (by decide)
  exact ⟨rfl, fun h => absurd ((hlock.1 2).mp h) (by decide)⟩

/-- The state in which the last thread has begun to wait. -/
def inherited : System ℕ :=
  (TransitionRuns.run (step .prio) (rt_mutex_init ranks) (handOver.take 3)).get (by rfl)

/-- The owner has the lowest priority of the three and runs with the highest. -/
theorem owner_inherits_inherited :
    inherited.owner = some 0 ∧ inherited.suspend_thread = [2, 1] ∧
      ranks 2 < ranks 1 ∧ ranks 1 < ranks 0 ∧ inherited.current_priority 0 = ranks 2 ∧
      ∀ t ∈ [2, 1], inherited.current_priority 0 ≤ ranks t :=
  ⟨rfl, rfl, by decide, by decide, rfl,
    (owner_inherits ranks (handOver.take 3) inherited 0 (Option.some_get rfl).symm (by decide)
      rfl).2⟩

/-- Where threads wait by arrival, the next owner can run below a waiting thread. -/
example : ranks 2 < (handedOver .fifo).current_priority 1 ∧
    2 ∈ (handedOver .fifo).suspend_thread := by decide

end SmartHome.KernelMutex
