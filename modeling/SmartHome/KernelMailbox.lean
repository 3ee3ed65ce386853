import Mathlib.Data.Fintype.Prod
import SmartHome.IpcLists
import SmartHome.Mailboxes
import SmartHome.RingBuffers
import SmartHome.TransitionRuns

/-!
# Mailboxes of the kernel

Any number of threads send to a mailbox and receive from it, with or without
a time limit. What a call does between disabling and enabling interrupts is
one step. A thread that finds the mailbox full or empty waits in a list until
another thread resumes it or its timer expires, and a resumed thread checks the
mailbox again. Resetting and deleting a mailbox is left out, and the threads
keep their priorities, which rt_thread_control can change.
-/

namespace SmartHome.KernelMailbox

open IpcLists Mailboxes RingBuffers WaitLists

variable {τ α : Type*}

/-- A call with the mail to send and the remaining ticks; a negative number
of ticks waits for ever. -/
inductive Call (α : Type*)
  | rt_mb_send_wait (value : α) (timeout : ℤ)
  | rt_mb_recv (timeout : ℤ)

open Call

/-- The remaining ticks of a call. -/
def Call.timeout : Call α → ℤ
  | rt_mb_send_wait _ timeout => timeout
  | rt_mb_recv timeout => timeout

/-- Where a thread stands. -/
inductive Phase (α : Type*)
  /-- In no call for this mailbox. -/
  | away
  | suspended (call : Call α)
  /-- Resumed by another thread, with no error. -/
  | resumed (call : Call α)
  /-- Resumed by its timer, with the error RT_ETIMEOUT. -/
  | expired (call : Call α)

open Phase

/-- The mailbox and its threads. -/
structure System (τ α : Type*) where
  mb : Buffer α
  /-- Threads that wait for a mail. -/
  suspend_thread : List τ
  /-- Threads that wait for room. -/
  suspend_sender_thread : List τ
  phase : τ → Phase α
  /-- The mails put into the mailbox, in order. -/
  sent : List α
  /-- The mails taken out of it, in order. -/
  received : List α
  /-- When each thread began to wait, and when the next one will. -/
  since : τ → ℕ
  clock : ℕ

section Steps

variable [DecidableEq τ] (size : ℕ) (flag : RT_IPC_FLAG) (current_priority : τ → ℕ)

/-- A resumed thread has left its list. -/
def resume (phase : τ → Phase α) (thread : τ) : τ → Phase α :=
  match phase thread with
  | suspended call => Function.update phase thread (resumed call)
  | _ => phase

/-- Resume the first thread that waits for a mail. -/
def System.resumeReceiver (s : System τ α) : System τ α :=
  match s.suspend_thread with
  | [] => s
  | thread :: rest => { s with suspend_thread := rest, phase := resume s.phase thread }

/-- Resume the first thread that waits for room. -/
def System.resumeSender (s : System τ α) : System τ α :=
  match s.suspend_sender_thread with
  | [] => s
  | thread :: rest => { s with suspend_sender_thread := rest, phase := resume s.phase thread }

/-- Suspend a thread in a call. -/
def System.suspend (s : System τ α) (thread : τ) (call : Call α) : System τ α :=
  let s := { s with
    phase := Function.update s.phase thread (suspended call),
    since := Function.update s.since thread s.clock,
    clock := s.clock + 1 }
  match call with
  | rt_mb_send_wait _ _ => { s with
      suspend_sender_thread :=
        rt_ipc_list_suspend flag current_priority s.suspend_sender_thread thread }
  | rt_mb_recv _ => { s with
      suspend_thread := rt_ipc_list_suspend flag current_priority s.suspend_thread thread }

/-- The thread leaves its call. -/
def System.leave (s : System τ α) (thread : τ) : System τ α :=
  { s with phase := Function.update s.phase thread away }

/-- One pass through the critical section of a call. -/
def System.enter (s : System τ α) (thread : τ) (call : Call α) : System τ α :=
  match call with
  | rt_mb_send_wait value timeout =>
    if s.mb.entry = size then
      if timeout = 0 then s.leave thread else s.suspend flag current_priority thread call
    else
      let s := { s.leave thread with mb := s.mb.put size value, sent := s.sent ++ [value] }
      s.resumeReceiver
  | rt_mb_recv timeout =>
    if s.mb.entry = 0 then
      if timeout = 0 then s.leave thread else s.suspend flag current_priority thread call
    else
      let s := { s.leave thread with
        mb := s.mb.drop size, received := s.received ++ [s.mb.front] }
      s.resumeSender

/-- The value of a 32-bit signed integer. -/
def rt_int32_t (n : ℤ) : ℤ := (BitVec.ofInt 32 n).toInt

/-- The remaining ticks after a wait; only a positive limit is counted down. -/
def elapse (timeout : ℤ) (tick_delta : ℕ) : ℤ :=
  if timeout > 0 then max 0 (rt_int32_t (timeout - tick_delta)) else timeout

/-- The call with its remaining ticks. -/
def Call.elapse : Call α → ℕ → Call α
  | rt_mb_send_wait value timeout, tick_delta =>
    rt_mb_send_wait value (KernelMailbox.elapse timeout tick_delta)
  | rt_mb_recv timeout, tick_delta => rt_mb_recv (KernelMailbox.elapse timeout tick_delta)

/-- What can happen. -/
inductive Event (τ α : Type*)
  | call (thread : τ) (call : Call α)
  /-- A resumed thread runs again; so many ticks have passed since it was suspended. -/
  | again (thread : τ) (tick_delta : ℕ)
  | rt_thread_timeout (thread : τ)
  /-- A thread whose timer has expired returns the error. -/
  | giveUp (thread : τ)

/-- One step of the system. -/
def step (s : System τ α) : Event τ α → Option (System τ α)
  | .call thread call =>
    match s.phase thread with
    | away => some (s.enter size flag current_priority thread call)
    | _ => none
  | .again thread tick_delta =>
    match s.phase thread with
    | resumed call => some (s.enter size flag current_priority thread (call.elapse tick_delta))
    | _ => none
  | .rt_thread_timeout thread =>
    match s.phase thread with
    | suspended call =>
      if call.timeout > 0 then
        some { s with
          phase := Function.update s.phase thread (expired call),
          suspend_thread := s.suspend_thread.erase thread,
          suspend_sender_thread := s.suspend_sender_thread.erase thread }
      else none
    | _ => none
  | .giveUp thread =>
    match s.phase thread with
    | expired _ => some (s.leave thread)
    | _ => none

end Steps

/-- A mailbox with nothing in it and no thread in a call. -/
def rt_mb_init (msgpool : ℕ → α) : System τ α where
  mb := ⟨msgpool, 0, 0, 0⟩
  suspend_thread := []
  suspend_sender_thread := []
  phase _ := away
  sent := []
  received := []
  since _ := 0
  clock := 0

theorem leave_of_away [DecidableEq τ] {s : System τ α} {thread : τ} (h : s.phase thread = away) :
    s.leave thread = s := by
  rw [System.leave, ← h, Function.update_eq_self]

/-- A thread in its critical section is counted as away. -/
theorem enter_leave [DecidableEq τ] (size : ℕ) (flag : RT_IPC_FLAG) (current_priority : τ → ℕ)
    (s : System τ α) (thread : τ) (call : Call α) :
    (s.leave thread).enter size flag current_priority thread call =
      s.enter size flag current_priority thread call := by
  cases call <;> simp [System.enter, System.leave, System.suspend, System.resumeReceiver,
    System.resumeSender]

variable {size : ℕ} {flag : RT_IPC_FLAG} {current_priority : τ → ℕ}

/-- The mailbox as a bounded queue with its history. -/
def System.traffic (s : System τ α) (h : s.mb.entry ≤ size) : Traffic α size where
  box := ⟨s.mb.contents size, by rwa [Buffer.length_contents]⟩
  posted := s.sent
  taken := s.received

/-- A step of the queue, or none. -/
def QueueStep (t t' : Traffic α size) : Prop :=
  t' = t ∨ (∃ mail, t.box.mails.length < size ∧ t' = t.post mail) ∨
    ∃ mail, t.take = some (mail, t')

theorem resumeReceiver_mb [DecidableEq τ] (s : System τ α) :
    s.resumeReceiver.mb = s.mb ∧ s.resumeReceiver.sent = s.sent ∧
      s.resumeReceiver.received = s.received := by
  rw [System.resumeReceiver]
  split <;> exact ⟨rfl, rfl, rfl⟩

theorem resumeSender_mb [DecidableEq τ] (s : System τ α) :
    s.resumeSender.mb = s.mb ∧ s.resumeSender.sent = s.sent ∧
      s.resumeSender.received = s.received := by
  rw [System.resumeSender]
  split <;> exact ⟨rfl, rfl, rfl⟩

/-- States with the same mails and histories have the same traffic. -/
theorem traffic_congr {s s' : System τ α} (hmb : s'.mb = s.mb) (hsent : s'.sent = s.sent)
    (hreceived : s'.received = s.received) (h : s.mb.entry ≤ size) (h' : s'.mb.entry ≤ size) :
    s'.traffic h' = s.traffic h := by
  simp only [System.traffic, hmb, hsent, hreceived]

/-- A critical section posts a mail, takes one or leaves the queue alone. -/
theorem enter_queueStep [DecidableEq τ] {s : System τ α} (hring : s.mb.Valid size)
    (thread : τ) (call : Call α)
    (h' : (s.enter size flag current_priority thread call).mb.entry ≤ size) :
    QueueStep (s.traffic hring.entry_le)
      ((s.enter size flag current_priority thread call).traffic h') := by
  cases call with
  | rt_mb_send_wait value timeout =>
    by_cases hfull : s.mb.entry = size
    · left
      by_cases htimeout : timeout = 0 <;>
        exact traffic_congr (by simp [System.enter, System.leave, System.suspend, hfull, htimeout])
          (by simp [System.enter, System.leave, System.suspend, hfull, htimeout])
          (by simp [System.enter, System.leave, System.suspend, hfull, htimeout]) _ _
    · right
      left
      have hlt : s.mb.entry < size := Nat.lt_of_le_of_ne hring.entry_le hfull
      have hroom : (s.traffic hring.entry_le).box.mails.length < size := by
        rwa [System.traffic, Buffer.length_contents]
      refine ⟨value, hroom, ?_⟩
      have hmails := Buffer.contents_put hring hlt value
      have hnext := resumeReceiver_mb
        { s.leave thread with mb := s.mb.put size value, sent := s.sent ++ [value] }
      simp only [System.enter, if_neg hfull, System.traffic, hnext, hmails, Traffic.post,
        Mailbox.send]
      simp [System.leave, hlt]
  | rt_mb_recv timeout =>
    by_cases hempty : s.mb.entry = 0
    · left
      by_cases htimeout : timeout = 0 <;>
        exact traffic_congr (by simp [System.enter, System.leave, System.suspend, hempty, htimeout])
          (by simp [System.enter, System.leave, System.suspend, hempty, htimeout])
          (by simp [System.enter, System.leave, System.suspend, hempty, htimeout]) _ _
    · right
      right
      refine ⟨s.mb.front, ?_⟩
      have hmails := Buffer.contents_drop hring (Nat.pos_of_ne_zero hempty)
      have hnext := resumeSender_mb
        { s.leave thread with mb := s.mb.drop size, received := s.received ++ [s.mb.front] }
      simp only [System.enter, if_neg hempty, System.traffic, hnext, hmails, Traffic.take,
        Mailbox.recv, Option.map_some]
      rfl

/-- A step of the system posts a mail, takes one or leaves the queue alone. -/
theorem step_queueStep [DecidableEq τ] {s s' : System τ α} {e : Event τ α} (hring : s.mb.Valid size)
    (hring' : s'.mb.Valid size) (hstep : step size flag current_priority s e = some s') :
    QueueStep (s.traffic hring.entry_le) (s'.traffic hring'.entry_le) := by
  cases e with
  | call thread call =>
    rw [step] at hstep
    split at hstep
    · cases hstep
      exact enter_queueStep hring thread call _
    · cases hstep
  | again thread tick_delta =>
    rw [step] at hstep
    split at hstep
    · cases hstep
      exact enter_queueStep hring thread _ _
    · cases hstep
  | rt_thread_timeout thread =>
    rw [step] at hstep
    split at hstep
    · split_ifs at hstep
      cases hstep
      exact Or.inl rfl
    · cases hstep
  | giveUp thread =>
    rw [step] at hstep
    split at hstep
    · cases hstep
      exact Or.inl rfl
    · cases hstep

/-- The thread has been resumed to receive. -/
def toReceive : Phase α → Bool
  | resumed (rt_mb_recv _) => true
  | _ => false

/-- The thread has been resumed to send. -/
def toSend : Phase α → Bool
  | resumed (rt_mb_send_wait _ _) => true
  | _ => false

variable [Fintype τ]

/-- What holds between the steps. While a thread is inside its critical
section one more mail or one more place may be unattended. -/
structure Inv (size : ℕ) (flag : RT_IPC_FLAG) (current_priority : τ → ℕ) (mails places : ℕ)
    (s : System τ α) : Prop where
  ring : s.mb.Valid size
  fifo : s.sent = s.received ++ s.mb.contents size
  receivers : ∀ t, t ∈ s.suspend_thread ↔ ∃ timeout, s.phase t = suspended (rt_mb_recv timeout)
  senders : ∀ t, t ∈ s.suspend_sender_thread ↔
    ∃ value timeout, s.phase t = suspended (rt_mb_send_wait value timeout)
  receivers_ordered : Ordered (waitKey flag current_priority) s.since s.suspend_thread
  senders_ordered : Ordered (waitKey flag current_priority) s.since s.suspend_sender_thread
  since_lt : ∀ t call, s.phase t = suspended call → s.since t < s.clock
  expired_timeout : ∀ t call, s.phase t = expired call → 0 < call.timeout
  mail_attended : s.suspend_thread ≠ [] → s.mb.entry ≤ count toReceive s.phase + mails
  place_attended : s.suspend_sender_thread ≠ [] →
    size - s.mb.entry ≤ count toSend s.phase + places

/-- More may be unattended than is. -/
theorem Inv.mono {mails places mails' places' : ℕ} {s : System τ α}
    (h : Inv size flag current_priority mails places s) (hm : mails ≤ mails')
    (hp : places ≤ places') : Inv size flag current_priority mails' places' s :=
  ⟨h.ring, h.fifo, h.receivers, h.senders, h.receivers_ordered, h.senders_ordered, h.since_lt,
    h.expired_timeout, fun hne => (h.mail_attended hne).trans (by omega),
    fun hne => (h.place_attended hne).trans (by omega)⟩

/-- A mailbox that has just been initialised satisfies the invariant. -/
theorem rt_mb_init_inv (size : ℕ) (flag : RT_IPC_FLAG) (current_priority : τ → ℕ)
    (msgpool : ℕ → α) :
    Inv size flag current_priority 0 0 (rt_mb_init msgpool : System τ α) := by
  refine ⟨⟨Nat.zero_le _, id, (Nat.zero_mod _).symm⟩, rfl, ?_, ?_, List.Pairwise.nil,
    List.Pairwise.nil, ?_, ?_, ?_, ?_⟩ <;> simp [rt_mb_init]

/-- A mail is put into a mailbox with room. -/
theorem Inv.put {mails places : ℕ} {s : System τ α}
    (h : Inv size flag current_priority mails (places + 1) s) (hroom : s.mb.entry ≠ size)
    (value : α) :
    Inv size flag current_priority (mails + 1) places
      { s with mb := s.mb.put size value, sent := s.sent ++ [value] } := by
  have hlt : s.mb.entry < size := Nat.lt_of_le_of_ne h.ring.entry_le hroom
  refine ⟨h.ring.put hlt value, ?_, h.receivers, h.senders, h.receivers_ordered,
    h.senders_ordered, h.since_lt, h.expired_timeout, ?_, ?_⟩
  · rw [Buffer.contents_put h.ring hlt, h.fifo, List.append_assoc]
  · intro hne
    have := h.mail_attended hne
    change s.mb.entry + 1 ≤ _
    dsimp only
    omega
  · intro hne
    have := h.place_attended hne
    change size - (s.mb.entry + 1) ≤ _
    dsimp only
    omega

/-- A mail is taken out of a mailbox that is not empty. -/
theorem Inv.drop {mails places : ℕ} {s : System τ α}
    (h : Inv size flag current_priority (mails + 1) places s) (hmail : s.mb.entry ≠ 0) :
    Inv size flag current_priority mails (places + 1)
      { s with mb := s.mb.drop size, received := s.received ++ [s.mb.front] } := by
  have hpos : 0 < s.mb.entry := Nat.pos_of_ne_zero hmail
  refine ⟨h.ring.drop hpos, ?_, h.receivers, h.senders, h.receivers_ordered,
    h.senders_ordered, h.since_lt, h.expired_timeout, ?_, ?_⟩
  · rw [h.fifo, Buffer.contents_drop h.ring hpos, List.append_assoc]
    rfl
  · intro hne
    have := h.mail_attended hne
    change s.mb.entry - 1 ≤ _
    dsimp only
    omega
  · intro hne
    have := h.place_attended hne
    change size - (s.mb.entry - 1) ≤ _
    dsimp only
    omega

variable [DecidableEq τ]

/-- A thread that is in no list changes its phase to one in no list. -/
theorem Inv.phase {mails places mails' places' : ℕ} {s : System τ α}
    (h : Inv size flag current_priority mails places s) {thread : τ} {x : Phase α}
    (hold : ∀ call, s.phase thread ≠ suspended call) (hnew : ∀ call, x ≠ suspended call)
    (hexpired : ∀ call, x = expired call → 0 < call.timeout)
    (hmails : count toReceive s.phase + mails ≤
      count toReceive (Function.update s.phase thread x) + mails')
    (hplaces : count toSend s.phase + places ≤
      count toSend (Function.update s.phase thread x) + places') :
    Inv size flag current_priority mails' places'
      { s with phase := Function.update s.phase thread x } := by
  have hsame : ∀ t call, Function.update s.phase thread x t = suspended call ↔
      s.phase t = suspended call := by
    intro t call
    by_cases ht : t = thread
    · subst ht
      rw [Function.update_self]
      exact ⟨fun hx => absurd hx (hnew call), fun hp => absurd hp (hold call)⟩
    · rw [Function.update_of_ne ht]
  refine ⟨h.ring, h.fifo, ?_, ?_, h.receivers_ordered, h.senders_ordered, ?_, ?_, ?_, ?_⟩
  · intro t
    simp only [hsame]
    exact h.receivers t
  · intro t
    simp only [hsame]
    exact h.senders t
  · intro t call ht
    exact h.since_lt t call ((hsame t call).mp ht)
  · intro t call ht
    dsimp only at ht
    by_cases hthread : t = thread
    · subst hthread
      rw [Function.update_self] at ht
      exact hexpired call ht
    · rw [Function.update_of_ne hthread] at ht
      exact h.expired_timeout t call ht
  · exact fun hne => (h.mail_attended hne).trans hmails
  · exact fun hne => (h.place_attended hne).trans hplaces

/-- Changing the phase of a thread that is not resumed leaves the number of resumed ones. -/
theorem count_update_of_not {p : Phase α → Bool} {phase : τ → Phase α} {thread : τ} {x : Phase α}
    (hold : p (phase thread) = false) (hnew : p x = false) :
    count p (Function.update phase thread x) = count p phase := by
  have hcount := count_update p phase thread x
  simpa [hold, hnew] using hcount

/-- A resumed thread is counted. -/
theorem count_update_resumed {p : Phase α → Bool} {phase : τ → Phase α} {thread : τ} {x : Phase α}
    (hold : p (phase thread) = false) (hnew : p x = true) :
    count p (Function.update phase thread x) = count p phase + 1 := by
  have hcount := count_update p phase thread x
  simpa [hold, hnew] using hcount

/-- A thread leaves the list it waits in. -/
theorem Inv.unsuspend {mails places : ℕ} {s : System τ α}
    (h : Inv size flag current_priority mails places s) (mails' places' : ℕ)
    {thread : τ} {call : Call α}
    (hphase : s.phase thread = suspended call) {x : Phase α}
    (hx : x = resumed call ∨ x = expired call ∧ 0 < call.timeout)
    (hmails : count toReceive s.phase + mails ≤
      count toReceive (Function.update s.phase thread x) + mails')
    (hplaces : count toSend s.phase + places ≤
      count toSend (Function.update s.phase thread x) + places') :
    Inv size flag current_priority mails' places' { s with
      phase := Function.update s.phase thread x,
      suspend_thread := s.suspend_thread.erase thread,
      suspend_sender_thread := s.suspend_sender_thread.erase thread } := by
  have hnot : ∀ call', x ≠ suspended call' := by
    obtain rfl | ⟨rfl, _⟩ := hx <;> simp
  have hother : ∀ t, t ≠ thread → Function.update s.phase thread x t = s.phase t :=
    fun t ht => Function.update_of_ne ht _ _
  refine ⟨h.ring, h.fifo, fun t => ?_, fun t => ?_, ?_, ?_, fun t call' ht => ?_,
    fun t call' ht => ?_, fun hne => ?_, fun hne => ?_⟩
  · dsimp only
    by_cases ht : t = thread
    · subst ht
      simp [h.receivers_ordered.nodup.mem_erase_iff, hnot]
    · rw [List.mem_erase_of_ne ht, hother t ht]
      exact h.receivers t
  · dsimp only
    by_cases ht : t = thread
    · subst ht
      simp [h.senders_ordered.nodup.mem_erase_iff, hnot]
    · rw [List.mem_erase_of_ne ht, hother t ht]
      exact h.senders t
  · exact h.receivers_ordered.sublist List.erase_sublist
  · exact h.senders_ordered.sublist List.erase_sublist
  · dsimp only at ht
    by_cases hthread : t = thread
    · subst hthread
      rw [Function.update_self] at ht
      exact absurd ht (hnot call')
    · rw [hother t hthread] at ht
      exact h.since_lt t call' ht
  · dsimp only at ht
    by_cases hthread : t = thread
    · subst hthread
      rw [Function.update_self] at ht
      obtain rfl | ⟨rfl, hpos⟩ := hx
      · cases ht
      · cases ht
        exact hpos
    · rw [hother t hthread] at ht
      exact h.expired_timeout t call' ht
  · have hlist : s.suspend_thread ≠ [] := fun hnil => hne (by simp [hnil])
    exact (h.mail_attended hlist).trans hmails
  · have hlist : s.suspend_sender_thread ≠ [] := fun hnil => hne (by simp [hnil])
    exact (h.place_attended hlist).trans hplaces

/-- The first receiver attends to a mail. -/
theorem Inv.resumeReceiver {mails places : ℕ} {s : System τ α}
    (h : Inv size flag current_priority (mails + 1) places s) :
    Inv size flag current_priority mails places s.resumeReceiver := by
  rw [System.resumeReceiver]
  cases hlist : s.suspend_thread with
  | nil =>
    exact ⟨h.ring, h.fifo, h.receivers, h.senders, h.receivers_ordered, h.senders_ordered,
      h.since_lt, h.expired_timeout, fun hne => absurd hlist hne, h.place_attended⟩
  | cons thread rest =>
    obtain ⟨timeout, hphase⟩ := (h.receivers thread).mp (by simp [hlist])
    have hsender : thread ∉ s.suspend_sender_thread := by
      rw [h.senders, hphase]
      simp
    have hnext := h.unsuspend mails places hphase (Or.inl rfl)
      (by rw [count_update_resumed (by rw [hphase]; rfl) rfl]; omega)
      (by rw [count_update_of_not (by rw [hphase]; rfl) rfl])
    rw [hlist, List.erase_cons_head, List.erase_of_not_mem hsender] at hnext
    dsimp only
    rw [resume, hphase]
    exact hnext

/-- The first sender attends to a place. -/
theorem Inv.resumeSender {mails places : ℕ} {s : System τ α}
    (h : Inv size flag current_priority mails (places + 1) s) :
    Inv size flag current_priority mails places s.resumeSender := by
  rw [System.resumeSender]
  cases hlist : s.suspend_sender_thread with
  | nil =>
    exact ⟨h.ring, h.fifo, h.receivers, h.senders, h.receivers_ordered, h.senders_ordered,
      h.since_lt, h.expired_timeout, h.mail_attended, fun hne => absurd hlist hne⟩
  | cons thread rest =>
    obtain ⟨value, timeout, hphase⟩ := (h.senders thread).mp (by simp [hlist])
    have hreceiver : thread ∉ s.suspend_thread := by
      rw [h.receivers, hphase]
      simp
    have hnext := h.unsuspend mails places hphase (Or.inl rfl)
      (by rw [count_update_of_not (by rw [hphase]; rfl) rfl])
      (by rw [count_update_resumed (by rw [hphase]; rfl) rfl]; omega)
    rw [hlist, List.erase_cons_head, List.erase_of_not_mem hreceiver] at hnext
    dsimp only
    rw [resume, hphase]
    exact hnext

/-- A thread waits for a mail in an empty mailbox or for room in a full one. -/
theorem Inv.suspend {mails places : ℕ} {s : System τ α}
    (h : Inv size flag current_priority mails places s) {thread : τ}
    (hphase : s.phase thread = away)
    (call : Call α)
    (hwait : match call with
      | rt_mb_send_wait _ _ => s.mb.entry = size ∧ mails = 0
      | rt_mb_recv _ => s.mb.entry = 0 ∧ places = 0) :
    Inv size flag current_priority 0 0 (s.suspend flag current_priority thread call) := by
  have hreceivers : thread ∉ s.suspend_thread := by
    rw [h.receivers, hphase]
    simp
  have hsenders : thread ∉ s.suspend_sender_thread := by
    rw [h.senders, hphase]
    simp
  have hphases : ∀ t, t ≠ thread →
      Function.update s.phase thread (suspended call) t = s.phase t :=
    fun t ht => Function.update_of_ne ht _ _
  have hsince : ∀ t call', Function.update s.phase thread (suspended call) t = suspended call' →
      Function.update s.since thread s.clock t < s.clock + 1 := by
    intro t call' ht
    by_cases hthread : t = thread
    · subst hthread
      rw [Function.update_self]
      omega
    · rw [hphases t hthread] at ht
      rw [Function.update_of_ne hthread]
      exact Nat.lt_succ_of_lt (h.since_lt t call' ht)
  have hexpired : ∀ t call', Function.update s.phase thread (suspended call) t = expired call' →
      0 < call'.timeout := by
    intro t call' ht
    by_cases hthread : t = thread
    · subst hthread
      simp at ht
    · rw [hphases t hthread] at ht
      exact h.expired_timeout t call' ht
  have hcountReceive : count toReceive (Function.update s.phase thread (suspended call)) =
      count toReceive s.phase := count_update_of_not (by rw [hphase]; rfl) rfl
  have hcountSend : count toSend (Function.update s.phase thread (suspended call)) =
      count toSend s.phase := count_update_of_not (by rw [hphase]; rfl) rfl
  cases call with
  | rt_mb_send_wait value timeout =>
    obtain ⟨hfull, rfl⟩ := hwait
    refine ⟨h.ring, h.fifo, fun t => ?_, fun t => ?_, ?_, ?_, hsince, hexpired, fun hne => ?_,
      fun _ => ?_⟩
    · have hmem := h.receivers t
      by_cases ht : t = thread
      · subst ht
        simp [System.suspend, hreceivers]
      · simpa [System.suspend, hphases t ht] using hmem
    · have hmem := h.senders t
      by_cases ht : t = thread
      · subst ht
        simp [System.suspend]
      · simpa [System.suspend, hphases t ht, ht] using hmem
    · exact h.receivers_ordered.congr (fun _ _ => rfl) fun t ht =>
        Function.update_of_ne (ne_of_mem_of_not_mem ht hreceivers) _ _
    · refine ordered_suspend h.senders_ordered (fun t ht => ?_) hsenders
      obtain ⟨v, n, hphase'⟩ := (h.senders t).mp ht
      exact h.since_lt t _ hphase'
    · have := h.mail_attended hne
      change s.mb.entry ≤ count toReceive (Function.update s.phase thread _) + 0
      rw [hcountReceive]
      exact this
    · show size - s.mb.entry ≤ _
      omega
  | rt_mb_recv timeout =>
    obtain ⟨hempty, rfl⟩ := hwait
    refine ⟨h.ring, h.fifo, fun t => ?_, fun t => ?_, ?_, ?_, hsince, hexpired, fun _ => ?_,
      fun hne => ?_⟩
    · have hmem := h.receivers t
      by_cases ht : t = thread
      · subst ht
        simp [System.suspend]
      · simpa [System.suspend, hphases t ht, ht] using hmem
    · have hmem := h.senders t
      by_cases ht : t = thread
      · subst ht
        simp [System.suspend, hsenders]
      · simpa [System.suspend, hphases t ht] using hmem
    · refine ordered_suspend h.receivers_ordered (fun t ht => ?_) hreceivers
      obtain ⟨n, hphase'⟩ := (h.receivers t).mp ht
      exact h.since_lt t _ hphase'
    · exact h.senders_ordered.congr (fun _ _ => rfl) fun t ht =>
        Function.update_of_ne (ne_of_mem_of_not_mem ht hsenders) _ _
    · show s.mb.entry ≤ _
      omega
    · have := h.place_attended hne
      change size - s.mb.entry ≤ count toSend (Function.update s.phase thread _) + 0
      rw [hcountSend]
      exact this

/-- A critical section keeps the invariant. -/
theorem Inv.enter {s : System τ α} {thread : τ} {call : Call α}
    (h : match call with
      | rt_mb_send_wait _ _ => Inv size flag current_priority 0 1 s
      | rt_mb_recv _ => Inv size flag current_priority 1 0 s)
    (hphase : s.phase thread = away) :
    Inv size flag current_priority 0 0 (s.enter size flag current_priority thread call) := by
  cases call with
  | rt_mb_send_wait value timeout =>
    have hinv : Inv size flag current_priority 0 1 s := h
    rw [System.enter, leave_of_away hphase]
    split_ifs with hfull htimeout
    · have hring := hinv.ring.entry_le
      exact ⟨hinv.ring, hinv.fifo, hinv.receivers, hinv.senders, hinv.receivers_ordered,
        hinv.senders_ordered, hinv.since_lt, hinv.expired_timeout, hinv.mail_attended,
        fun _ => by omega⟩
    · exact hinv.suspend hphase _ ⟨hfull, rfl⟩
    · exact (hinv.put hfull value).resumeReceiver
  | rt_mb_recv timeout =>
    have hinv : Inv size flag current_priority 1 0 s := h
    rw [System.enter, leave_of_away hphase]
    split_ifs with hempty htimeout
    · exact ⟨hinv.ring, hinv.fifo, hinv.receivers, hinv.senders, hinv.receivers_ordered,
        hinv.senders_ordered, hinv.since_lt, hinv.expired_timeout, fun _ => by omega,
        hinv.place_attended⟩
    · exact hinv.suspend hphase _ ⟨hempty, rfl⟩
    · exact (hinv.drop hempty).resumeSender

/-- A thread that was resumed runs its critical section again. -/
theorem Inv.again {s : System τ α} (h : Inv size flag current_priority 0 0 s) {thread : τ}
    {call : Call α} (hphase : s.phase thread = resumed call) (tick_delta : ℕ) :
    Inv size flag current_priority 0 0
      (s.enter size flag current_priority thread (call.elapse tick_delta)) := by
  rw [← enter_leave]
  have hreceive := count_update toReceive s.phase thread away
  have hsend := count_update toSend s.phase thread away
  refine Inv.enter ?_ (Function.update_self ..)
  cases call with
  | rt_mb_send_wait value timeout =>
    simp only [hphase, toReceive, toSend] at hreceive hsend
    exact h.phase (by simp [hphase]) (by simp) (by simp) (by simpa using hreceive.ge)
      (by simpa using hsend.ge)
  | rt_mb_recv timeout =>
    simp only [hphase, toReceive, toSend] at hreceive hsend
    exact h.phase (by simp [hphase]) (by simp) (by simp) (by simpa using hreceive.ge)
      (by simpa using hsend.ge)

/-- Every step keeps the invariant. -/
theorem step_inv {s s' : System τ α} {e : Event τ α} (h : Inv size flag current_priority 0 0 s)
    (hstep : step size flag current_priority s e = some s') :
    Inv size flag current_priority 0 0 s' := by
  cases e with
  | call thread call =>
    rw [step] at hstep
    split at hstep
    · rename_i hphase
      cases hstep
      refine Inv.enter ?_ hphase
      cases call with
      | rt_mb_send_wait => exact h.mono le_rfl (Nat.zero_le _)
      | rt_mb_recv => exact h.mono (Nat.zero_le _) le_rfl
    · cases hstep
  | again thread tick_delta =>
    rw [step] at hstep
    split at hstep
    · rename_i call hphase
      cases hstep
      exact h.again hphase tick_delta
    · cases hstep
  | rt_thread_timeout thread =>
    rw [step] at hstep
    split at hstep
    · rename_i call hphase
      split_ifs at hstep with htimeout
      cases hstep
      exact h.unsuspend 0 0 hphase (Or.inr ⟨rfl, htimeout⟩)
        (by rw [count_update_of_not (by rw [hphase]; rfl) rfl])
        (by rw [count_update_of_not (by rw [hphase]; rfl) rfl])
    · cases hstep
  | giveUp thread =>
    rw [step] at hstep
    split at hstep
    · rename_i call hphase
      cases hstep
      exact h.phase (by simp [hphase]) (by simp) (by simp)
        (by rw [count_update_of_not (by rw [hphase]; rfl) rfl])
        (by rw [count_update_of_not (by rw [hphase]; rfl) rfl])
    · cases hstep

/-- States of a mailbox of a given size with any pool of memory. -/
def Occurs (size : ℕ) (flag : RT_IPC_FLAG) (current_priority : τ → ℕ) : System τ α → Prop :=
  TransitionRuns.Reachable (fun s => ∃ msgpool, s = rt_mb_init msgpool)
    (step size flag current_priority)

theorem Occurs.inv {s : System τ α} (h : Occurs size flag current_priority s) :
    Inv size flag current_priority 0 0 s := by
  refine TransitionRuns.Reachable.invariant ?_ (fun _ _ _ => step_inv) h
  rintro _ ⟨msgpool, rfl⟩
  exact rt_mb_init_inv size flag current_priority msgpool

/-- Whatever the threads do, the mailbox is a bounded queue: the mails sent are
those received, followed by those that wait, and every step posts a mail where
there is room, takes the oldest one or leaves the queue alone. -/
theorem mailbox_refines (size : ℕ) (flag : RT_IPC_FLAG) (current_priority : τ → ℕ)
    {s s' : System τ α} (e : Event τ α) (hs : Occurs size flag current_priority s)
    (hstep : step size flag current_priority s e = some s') :
    (s.traffic hs.inv.ring.entry_le).Delivered ∧
      QueueStep (s.traffic hs.inv.ring.entry_le)
        (s'.traffic (step_inv hs.inv hstep).ring.entry_le) :=
  ⟨hs.inv.fifo, step_queueStep hs.inv.ring (step_inv hs.inv hstep).ring hstep⟩

/-- Two receivers wait, the second one with the higher priority, then a mail is sent. -/
def twoReceivers : List (Event (Fin 3) ℕ) :=
  [.call 2 (rt_mb_recv (-1)), .call 1 (rt_mb_recv (-1)), .call 0 (rt_mb_send_wait 7 0)]

/-- The state after these events. -/
def afterMail : System (Fin 3) ℕ :=
  (TransitionRuns.run (step 4 .prio Fin.val) (rt_mb_init fun _ => 0) twoReceivers).get rfl

theorem afterMail_occurs : Occurs 4 .prio Fin.val afterMail :=
  ⟨_, twoReceivers, ⟨fun _ => 0, rfl⟩, (Option.some_get rfl).symm⟩

theorem mailbox_refines_afterMail :
    afterMail.sent = afterMail.received ++ afterMail.mb.contents 4 :=
  have hsome : (step 4 .prio Fin.val afterMail (.again 1 0)).isSome = true := rfl
  (mailbox_refines 4 .prio Fin.val (.again 1 0) afterMail_occurs (Option.some_get hsome).symm).1

/-- No mail lies in the mailbox without a resumed receiver while another one
waits for it, and no place is free without a resumed sender while another one
waits for it. -/
theorem waiting_attended (size : ℕ) (flag : RT_IPC_FLAG) (current_priority : τ → ℕ)
    {s : System τ α} (hs : Occurs size flag current_priority s) :
    (s.suspend_thread ≠ [] → s.mb.entry ≤ count toReceive s.phase) ∧
      (s.suspend_sender_thread ≠ [] → size ≤ s.mb.entry + count toSend s.phase) := by
  refine ⟨hs.inv.mail_attended, fun hne => ?_⟩
  have := hs.inv.place_attended hne
  omega

theorem waiting_attended_afterMail :
    afterMail.suspend_thread = [2] ∧ afterMail.mb.entry ≤ count toReceive afterMail.phase :=
  ⟨rfl, (waiting_attended 4 .prio Fin.val afterMail_occurs).1 (List.cons_ne_nil _ _)⟩

/-- The lists hold exactly the suspended threads, by priority if the mailbox
is so flagged and by their arrival, as long as waiting threads keep their
priorities; only a call with a time limit expires. -/
theorem waiting_ordered (size : ℕ) (flag : RT_IPC_FLAG) (current_priority : τ → ℕ)
    {s : System τ α} (hs : Occurs size flag current_priority s) :
    (∀ t, (∃ call, s.phase t = suspended call) ↔
        t ∈ s.suspend_thread ∨ t ∈ s.suspend_sender_thread) ∧
      Ordered (waitKey flag current_priority) s.since s.suspend_thread ∧
      Ordered (waitKey flag current_priority) s.since s.suspend_sender_thread ∧
      ∀ t call, s.phase t = expired call → 0 < call.timeout := by
  have hinv := hs.inv
  refine ⟨fun t => ?_, hinv.receivers_ordered, hinv.senders_ordered, hinv.expired_timeout⟩
  rw [hinv.receivers, hinv.senders]
  constructor
  · rintro ⟨call, hcall⟩
    cases call with
    | rt_mb_send_wait value timeout => exact Or.inr ⟨value, timeout, hcall⟩
    | rt_mb_recv timeout => exact Or.inl ⟨timeout, hcall⟩
  · rintro (⟨timeout, hcall⟩ | ⟨value, timeout, hcall⟩)
    · exact ⟨_, hcall⟩
    · exact ⟨_, hcall⟩

theorem waiting_ordered_afterMail :
    Ordered (waitKey .prio Fin.val) afterMail.since afterMail.suspend_thread :=
  (waiting_ordered 4 .prio Fin.val afterMail_occurs).2.1

end SmartHome.KernelMailbox
