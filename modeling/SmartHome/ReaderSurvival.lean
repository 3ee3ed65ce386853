import SmartHome.DeleteCycle
import SmartHome.EndlessRuns

/-!
# GSM_read_thread and the failures of the modem

The three bounded waits of GSM_read_thread end the thread when the modem does
not answer, while GSM_SendSMS only ends the current message, and the jump back
after a delete command has no bound at all. In every endless run in which the
thread gets its turns it comes back to its semaphore again and again exactly if
none of its waits runs out of time and every series of delete commands ends.
-/

namespace SmartHome.ReaderSurvival

open ByteStrings DeleteCycle EndlessRuns ModemLink TransitionRuns

/-- The events of GSM_read_thread. -/
def OfReader : Event → Prop
  | .read => True
  | .readReply => True
  | .readTimeout => True
  | _ => False

/-- The thread gets its turn while it is not at its semaphore, and each of its
waits ends, with a burst or with its time. -/
def Scheduled (r : Endless step start) : Prop :=
  ∀ n, (r.state n).reader ≠ .waitSem → (r.state n).reader ≠ .returned →
    ∃ m, n ≤ m ∧ OfReader (r.event m)

/-- After every time the thread is waiting on GSM_sem_read again. -/
def WaitsAgain (r : Endless step start) : Prop := r.Recurs fun s => s.reader = .waitSem

/-- No wait of the thread runs out of time. -/
def Answered (r : Endless step start) : Prop := ∀ n, r.event n ≠ .readTimeout

/-- After every delete command the thread comes to see a buffer that does not
announce a full mailbox. -/
def DeletionsEnd (r : Endless step start) : Prop :=
  ∀ n, (r.state n).reader = .waitDelete →
    ∃ m, n ≤ m ∧ r.event m = .read ∧ (r.state m).reader = .loop ∧
      mailboxFull (r.state m).uart = false

/-! ### The steps of the thread -/

/-- Only its own events move the thread. -/
theorem reader_of_not_ofReader (s : Link) (e : Event) (t : Link) (he : ¬OfReader e)
    (ht : step s e = some t) : t.reader = s.reader := by
  cases e with
  | USART2_IRQHandler Res =>
    cases ht
    rfl
  | TIM5_IRQHandler =>
    cases ht
    exact expire_reader s
  | poll =>
    obtain ⟨-, ht⟩ := Option.ite_none_right_eq_some.mp ht
    cases ht
    rfl
  | read => exact absurd trivial he
  | readReply => exact absurd trivial he
  | readTimeout => exact absurd trivial he
  | send content =>
    obtain ⟨-, ht⟩ := Option.ite_none_right_eq_some.mp ht
    cases ht
    rfl
  | sendReply => exact sendReply_reader (Option.ite_none_right_eq_some.mp ht).2
  | sendTimeout =>
    obtain ⟨-, ht⟩ := Option.ite_none_left_eq_some.mp ht
    cases ht
    rfl

/-- Turns that are left to the semaphore, where the thread cannot go back to
the search. -/
def turnsLeft : ReaderPc → Option ℕ
  | .waitSem => some 0
  | .delay => some 1
  | .LOOP => some 2
  | .gotSecond => some 3
  | .waitSecond => some 4
  | .gotFirst => some 5
  | .waitFirst => some 6
  | _ => none

/-- At the label loop the thread goes by what stands in the buffer. -/
theorem read_of_loop {s t : Link} (hpc : s.reader = .loop) (ht : GSM_read_thread s = some t) :
    mailboxFull s.uart = true ∧ t.reader = .waitDelete ∨
      mailboxFull s.uart = false ∧ ∃ k, turnsLeft t.reader = some k := by
  cases hfull : mailboxFull s.uart with
  | true =>
    cases (GSM_read_thread_full hpc hfull).symm.trans ht
    exact Or.inl ⟨rfl, rfl⟩
  | false =>
    obtain ⟨u, hu, hleft, -⟩ := GSM_read_thread_not_full hpc hfull
    cases hu.symm.trans ht
    refine Or.inr ⟨rfl, ?_⟩
    obtain hleft | hleft := hleft
    · exact ⟨2, by rw [hleft]; rfl⟩
    · exact ⟨6, by rw [hleft]; rfl⟩

/-- Everywhere else a turn brings the thread nearer to its semaphore. -/
theorem turnsLeft_read {s t : Link} {k : ℕ} (hleft : turnsLeft s.reader = some (k + 1))
    (ht : GSM_read_thread s = some t) : turnsLeft t.reader = some k := by
  cases hpc : s.reader <;> rw [hpc] at hleft <;> cases hleft <;>
    simp only [GSM_read_thread, hpc, reduceCtorEq] at ht
  all_goals cases ht; rfl

theorem turnsLeft_readReply {s t : Link} {k : ℕ} (hleft : turnsLeft s.reader = some (k + 1))
    (ht : readReply s = some t) : turnsLeft t.reader = some k := by
  cases hpc : s.reader <;> rw [hpc] at hleft <;> cases hleft <;>
    simp only [readReply, hpc, reduceCtorEq] at ht
  all_goals cases ht; rfl

/-- The thread does not return when a burst ends its wait. -/
theorem readReply_reader {s t : Link} (ht : readReply s = some t) : t.reader ≠ .returned := by
  unfold readReply at ht
  split at ht <;> cases ht <;> simp

/-- The thread returns when a wait of it runs out of time. -/
theorem readTimeout_reader {s t : Link} (ht : readTimeout s = some t) :
    t.reader = .returned := by
  unfold readTimeout at ht
  split at ht <;> cases ht <;> rfl

/-- A turn without a time-out does not end the thread. -/
theorem running_step {s t : Link} {e : Event} (hs : s.reader ≠ .returned) (he : e ≠ .readTimeout)
    (ht : step s e = some t) : t.reader ≠ .returned := by
  by_cases hown : OfReader e
  · cases e with
    | read => exact (GSM_read_thread_keeps (Option.ite_none_right_eq_some.mp ht).2).1
    | readReply => exact readReply_reader (Option.ite_none_right_eq_some.mp ht).2
    | readTimeout => exact absurd rfl he
    | _ => exact hown.elim
  · rwa [reader_of_not_ofReader s e t hown ht]

/-- A thread that has returned does not come back. -/
theorem returned_step {s t : Link} {e : Event} (hs : s.reader = .returned)
    (ht : step s e = some t) : t.reader = .returned := by
  by_cases hown : OfReader e
  · cases e with
    | read => simp [step, GSM_read_thread, hs] at ht
    | readReply => simp [step, readReply, hs] at ht
    | readTimeout => simp [step, readTimeout, hs] at ht
    | _ => exact hown.elim
  · rw [reader_of_not_ofReader s e t hown ht, hs]

/-- The thread deletes messages, or has returned. -/
def Deleting (s : Link) : Prop :=
  s.reader = .waitDelete ∨ s.reader = .loop ∨ s.reader = .returned

/-- While the buffer announces a full mailbox the thread stays in the cycle. -/
theorem deleting_step {s t : Link} {e : Event} (hs : Deleting s)
    (hfull : e = .read → s.reader = .loop → mailboxFull s.uart = true)
    (ht : step s e = some t) : Deleting t := by
  by_cases hown : OfReader e
  · cases e with
    | read =>
      have hread : GSM_read_thread s = some t := (Option.ite_none_right_eq_some.mp ht).2
      obtain hpc | hpc | hpc := hs
      · simp [GSM_read_thread, hpc] at hread
      · obtain ⟨-, ht⟩ | ⟨hnot, -⟩ := read_of_loop hpc hread
        · exact Or.inl ht
        · exact absurd (hnot.symm.trans (hfull rfl hpc)) (by simp)
      · simp [GSM_read_thread, hpc] at hread
    | readReply =>
      have hreply : readReply s = some t := (Option.ite_none_right_eq_some.mp ht).2
      obtain hpc | hpc | hpc := hs
      · simp only [readReply, hpc] at hreply
        cases hreply
        exact Or.inr (Or.inl rfl)
      · simp [readReply, hpc] at hreply
      · simp [readReply, hpc] at hreply
    | readTimeout =>
      exact Or.inr (Or.inr (readTimeout_reader (Option.ite_none_right_eq_some.mp ht).2))
    | _ => exact hown.elim
  · rw [Deleting, reader_of_not_ofReader s e t hown ht]
    exact hs

/-! ### Whole runs -/

variable {r : Endless step start}

/-- The thread that gets its turns acts where it was left. -/
theorem Scheduled.next (h : Scheduled r) {n : ℕ} (hsem : (r.state n).reader ≠ .waitSem)
    (hrun : (r.state n).reader ≠ .returned) :
    ∃ m, n ≤ m ∧ OfReader (r.event m) ∧ (r.state m).reader = (r.state n).reader :=
  r.next_own reader_of_not_ofReader (h n hsem hrun)

/-- An answered thread never returns. -/
theorem Answered.running (h : Answered r) (n : ℕ) : (r.state n).reader ≠ .returned := by
  have hstart : (r.state 0).reader ≠ .returned := by
    rw [r.first]
    decide
  exact r.stays (P := fun s => s.reader ≠ .returned)
    (fun k _ hk => running_step hk (h k) (r.next k)) hstart (Nat.zero_le n)

/-- From a place with a number of turns left the thread comes to its semaphore. -/
theorem waitsAgain_of_turnsLeft (hsched : Scheduled r) (hans : Answered r) {n k : ℕ}
    (hleft : turnsLeft (r.state n).reader = some k) :
    ∃ m, n ≤ m ∧ (r.state m).reader = .waitSem := by
  induction k generalizing n with
  | zero =>
    refine ⟨n, le_rfl, ?_⟩
    cases hpc : (r.state n).reader with
    | waitSem => rfl
    | _ => simp [hpc, turnsLeft] at hleft
  | succ k ih =>
    have hsem : (r.state n).reader ≠ .waitSem := fun hpc => by simp [hpc, turnsLeft] at hleft
    obtain ⟨m, hnm, hown, hpc⟩ := hsched.next hsem (hans.running n)
    rw [← hpc] at hleft
    have hstep := r.next m
    have hnext : turnsLeft (r.state (m + 1)).reader = some k := by
      cases he : r.event m with
      | read =>
        rw [he] at hstep
        exact turnsLeft_read hleft (Option.ite_none_right_eq_some.mp hstep).2
      | readReply =>
        rw [he] at hstep
        exact turnsLeft_readReply hleft (Option.ite_none_right_eq_some.mp hstep).2
      | readTimeout => exact absurd he (hans m)
      | _ =>
        rw [he] at hown
        exact hown.elim
    obtain ⟨l, hl, hlsem⟩ := ih hnext
    exact ⟨l, by omega, hlsem⟩

/-- From the search the thread comes to its semaphore if the deletions end. -/
theorem waitsAgain_of_look (hsched : Scheduled r) (hans : Answered r) {n : ℕ}
    (hread : r.event n = .read) (hpc : (r.state n).reader = .loop)
    (hnot : mailboxFull (r.state n).uart = false) :
    ∃ m, n ≤ m ∧ (r.state m).reader = .waitSem := by
  have hstep := r.next n
  rw [hread] at hstep
  obtain ⟨hfull, -⟩ | ⟨-, k, hleft⟩ :=
    read_of_loop hpc (Option.ite_none_right_eq_some.mp hstep).2
  · exact absurd (hnot.symm.trans hfull) (by simp)
  · obtain ⟨m, hm, hsem⟩ := waitsAgain_of_turnsLeft hsched hans hleft
    exact ⟨m, by omega, hsem⟩

theorem waitsAgain_of_waitDelete (hsched : Scheduled r) (hans : Answered r)
    (hend : DeletionsEnd r) {n : ℕ} (hpc : (r.state n).reader = .waitDelete) :
    ∃ m, n ≤ m ∧ (r.state m).reader = .waitSem := by
  obtain ⟨m, hnm, hread, hloop, hnot⟩ := hend n hpc
  obtain ⟨l, hml, hsem⟩ := waitsAgain_of_look hsched hans hread hloop hnot
  exact ⟨l, hnm.trans hml, hsem⟩

theorem waitsAgain_of_loop (hsched : Scheduled r) (hans : Answered r) (hend : DeletionsEnd r)
    {n : ℕ} (hpc : (r.state n).reader = .loop) : ∃ m, n ≤ m ∧ (r.state m).reader = .waitSem := by
  obtain ⟨m, hnm, hown, hsame⟩ := hsched.next (by simp [hpc]) (hans.running n)
  have hloop : (r.state m).reader = .loop := hsame.trans hpc
  have hstep := r.next m
  cases he : r.event m with
  | read =>
    rw [he] at hstep
    obtain ⟨-, hdelete⟩ | ⟨hnot, -⟩ :=
      read_of_loop hloop (Option.ite_none_right_eq_some.mp hstep).2
    · obtain ⟨l, hl, hsem⟩ := waitsAgain_of_waitDelete hsched hans hend hdelete
      exact ⟨l, by omega, hsem⟩
    · obtain ⟨l, hml, hsem⟩ := waitsAgain_of_look hsched hans he hloop hnot
      exact ⟨l, hnm.trans hml, hsem⟩
  | readReply => simp [he, step, readReply, hloop] at hstep
  | readTimeout => exact absurd he (hans m)
  | _ =>
    rw [he] at hown
    exact hown.elim

/-- A thread that comes back never runs out of time. -/
theorem WaitsAgain.answered (h : WaitsAgain r) : Answered r := by
  intro n he
  have hstep := r.next n
  rw [he] at hstep
  have hend : (r.state (n + 1)).reader = .returned :=
    readTimeout_reader (Option.ite_none_right_eq_some.mp hstep).2
  obtain ⟨m, hm, hsem⟩ := h (n + 1)
  have hreturned : (r.state m).reader = .returned :=
    r.stays (P := fun s => s.reader = .returned)
      (fun k _ hk => returned_step hk (r.next k)) hend hm
  cases hsem.symm.trans hreturned

/-- A thread that comes back leaves every series of delete commands. -/
theorem WaitsAgain.deletionsEnd (h : WaitsAgain r) : DeletionsEnd r := by
  intro n hpc
  by_contra hno
  obtain ⟨m, hm, hsem⟩ := h n
  have hcycle : Deleting (r.state m) := by
    refine r.stays (fun k hk hs => ?_) (Or.inl hpc) hm
    refine deleting_step hs (fun hread hloop => ?_) (r.next k)
    by_contra hnot
    exact hno ⟨k, hk, hread, hloop, by simpa using hnot⟩
  obtain hpc | hpc | hpc := hcycle <;> cases hsem.symm.trans hpc

/-- In every endless run in which GSM_read_thread gets its turns it is waiting
on its semaphore again and again exactly if none of its waits runs out of time
and every series of delete commands ends. -/
theorem waitsAgain_iff (r : Endless step start) (hsched : Scheduled r) :
    WaitsAgain r ↔ Answered r ∧ DeletionsEnd r := by
  refine ⟨fun h => ⟨h.answered, h.deletionsEnd⟩, fun ⟨hans, hend⟩ n => ?_⟩
  cases hpc : (r.state n).reader with
  | waitSem => exact ⟨n, le_rfl, hpc⟩
  | loop => exact waitsAgain_of_loop hsched hans hend hpc
  | waitDelete => exact waitsAgain_of_waitDelete hsched hans hend hpc
  | returned => exact absurd hpc (hans.running n)
  | waitFirst => exact waitsAgain_of_turnsLeft hsched hans (k := 6) (by rw [hpc]; rfl)
  | gotFirst => exact waitsAgain_of_turnsLeft hsched hans (k := 5) (by rw [hpc]; rfl)
  | waitSecond => exact waitsAgain_of_turnsLeft hsched hans (k := 4) (by rw [hpc]; rfl)
  | gotSecond => exact waitsAgain_of_turnsLeft hsched hans (k := 3) (by rw [hpc]; rfl)
  | LOOP => exact waitsAgain_of_turnsLeft hsched hans (k := 2) (by rw [hpc]; rfl)
  | delay => exact waitsAgain_of_turnsLeft hsched hans (k := 1) (by rw [hpc]; rfl)

/-! ### Two runs -/

/-- The timer may go on to expire without any effect. -/
theorem expire_expire (s : Link) : expire (expire s) = expire s := by
  have hcomplete : (expire s).uart.complete = true := by
    rw [expire_uart, UartReceive.complete_TIM5_IRQHandler]
  have hagain : expire (expire s) =
      { expire s with uart := UartReceive.TIM5_IRQHandler (expire s).uart } := by
    rw [expire, if_pos hcomplete]
  rw [hagain, expire_uart]
  have huart : UartReceive.TIM5_IRQHandler (UartReceive.TIM5_IRQHandler s.uart) = (expire s).uart :=
    (expire_uart s).symm
  rw [huart]

/-- After a run that leaves the thread at its semaphore or at its end nothing
but expiries may come, and the thread has had its turns. -/
theorem exists_quiet_end {es : List Event} {t : Link} (hrun : run step start es = some t)
    (hpc : t.reader = .waitSem ∨ t.reader = .returned) :
    ∃ r : Endless step start, Scheduled r ∧ ∀ n, r.state (n + (es.length + 1)) = expire t := by
  have hstill : step (expire t) .TIM5_IRQHandler = some (expire t) :=
    congrArg some (expire_expire t)
  have hlast : run step start (es ++ [.TIM5_IRQHandler]) = some (expire t) :=
    run_append.mpr ⟨t, hrun, rfl⟩
  obtain ⟨r, hstate, -, -⟩ := Endless.exists_of_run hlast (Endless.still hstill)
  rw [List.length_append, List.length_singleton] at hstate
  refine ⟨r, fun n hsem hrunning => ?_, hstate⟩
  refine r.own_between reader_of_not_ofReader (Nat.le_add_right n (es.length + 1)) ?_
  rw [hstate]
  have hend : (expire t).reader = t.reader := expire_reader t
  rw [Endless.still, hend]
  obtain hpc | hpc := hpc
  · exact fun hsame => hsem (hsame.symm.trans hpc)
  · exact fun hsame => hrunning (hsame.symm.trans hpc)

/-- A full mailbox is deleted, and the message of a later notification is read. -/
def deleteAndRead : List Event :=
  burst "\r\n+CMTI: \"SM\",99\r\n" ++ [.poll, .read, .read] ++ burst "\r\nOK\r\n" ++
    [.readReply, .read, .read, .read] ++ burst "\r\n+CMTI: \"SM\",1\r\n" ++
    [.poll, .read, .read] ++ burst "+CMGR" ++ [.readReply, .read] ++ burst "home" ++
    [.readReply, .read, .read, .read]

/-- The three commands of this run are answered, and the thread waits again. -/
theorem waitsAgain_iff_deleteAndRead :
    ∃ r : Endless step start, (∃ n, (r.state n).sent.length = 3) ∧ WaitsAgain r ∧ Answered r ∧
      DeletionsEnd r := by
  have hend : (run step start deleteAndRead).any
      (fun t => t.reader = .waitSem ∧ t.sent.length = 3) = true := by
    decide +kernel
  obtain ⟨t, hrun, ht⟩ := (Option.any_eq_true _ _).mp hend
  obtain ⟨hpc, hsent⟩ := of_decide_eq_true ht
  obtain ⟨r, hsched, hstate⟩ := exists_quiet_end hrun (Or.inl hpc)
  have hagain : WaitsAgain r := fun n =>
    ⟨n + (deleteAndRead.length + 1), Nat.le_add_right _ _, by
      rw [hstate]
      exact (expire_reader t).trans hpc⟩
  refine ⟨r, ⟨0 + (deleteAndRead.length + 1), ?_⟩, hagain, (waitsAgain_iff r hsched).mp hagain⟩
  rw [hstate, ← hsent]
  unfold expire
  dsimp only
  split <;> rfl

/-- A notification whose message the modem never delivers ends the thread. -/
theorem not_waitsAgain_after_silence : ¬∀ r : Endless step start, Scheduled r → WaitsAgain r := by
  intro h
  let es := burst "\r\n+CMTI: \"SM\",1\r\n" ++ [.poll, .read, .read, .readTimeout]
  have hend : (run step start es).any (fun t => t.reader = .returned) = true := by
    decide +kernel
  obtain ⟨t, hrun, ht⟩ := (Option.any_eq_true _ _).mp hend
  have hpc : t.reader = .returned := of_decide_eq_true ht
  obtain ⟨r, hsched, hstate⟩ := exists_quiet_end hrun (Or.inr hpc)
  obtain ⟨m, hm, hsem⟩ := h r hsched (es.length + 1)
  obtain ⟨n, rfl⟩ := Nat.exists_eq_add_of_le' hm
  rw [hstate, expire_reader, hpc] at hsem
  cases hsem

end SmartHome.ReaderSurvival
