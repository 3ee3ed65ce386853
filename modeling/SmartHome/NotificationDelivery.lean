import SmartHome.ReceivedText

/-!
# Delivery of message notifications

Every wait loop takes any completed burst as its reply, so a notification that
arrives during a wait is lost. A modem that sends one burst at a time, and
announces messages only while nobody waits for a reply, loses none: a
notification travels through the flag, the semaphore and the two read commands
before the next burst, and GSM_read_thread dispatches each of them once.
-/

namespace SmartHome.NotificationDelivery

open ByteStrings MachineWords ModemLink ReceivedText TransitionRuns
open UartReceive (Uart USART_REC_LEN USART_REC_LEN_pos USART2_IRQHandler TIM5_IRQHandler
  complete_of_lt complete_USART2_IRQHandler complete_TIM5_IRQHandler)

/-- The read command that serves a notification. -/
def dueCommand (frame : List UInt8) : List UInt8 := readCommand (indexText frame)

/-- Commands due for the notifications that arrived. -/
def due (s : Link) : List (List UInt8) := s.arrived.map dueCommand

/-- Commands of the completed runs of the read-and-dispatch branch. -/
def done (s : Link) : List (List UInt8) := s.served.map ReadRun.command

/-- Nobody waits for a reply and no burst is being handled by a thread. -/
def Idle (s : Link) : Prop :=
  s.sender = none ∧ (s.reader = .waitSem ∨ s.reader = .delay) ∧ s.sem = 0

/-- A thread waits for the reply to a command. -/
def Awaiting (s : Link) : Prop :=
  s.sender ≠ none ∨ s.reader = .waitDelete ∨ s.reader = .waitFirst ∨ s.reader = .waitSecond

instance (s : Link) : Decidable (Idle s) := inferInstanceAs (Decidable (_ ∧ _ ∧ _))
instance (s : Link) : Decidable (Awaiting s) := inferInstanceAs (Decidable (_ ∨ _))

/-- Bytes come while the flag is off and either nobody or a waiting thread
listens; an idle link receives text that fits the buffer. -/
def DisciplinedByte (s : Link) (Res : UInt8) : Prop :=
  s.uart.complete = false ∧
    (Idle s ∧ Res ≠ 0 ∧ s.uart.USART_RX2_STA + 1 < USART_REC_LEN ∨ Awaiting s)

/-- A burst that announces a message ends on an idle link and leaves room for
more messages; a burst that ends while a thread waits announces none. -/
def DisciplinedExpiry (s : Link) : Prop :=
  let frame := s.uart.bytes s.uart.USART_RX2_STA
  s.uart.complete = false ∧
    (Idle s ∧ (isNotification frame = true → strcmp (indexText frame) (bytes "99") < 0) ∨
      Awaiting s ∧ isNotification frame = false)

/-- The modem keeps to the order of the link: messages are sent between
bursts, the modem answers OK, and no wait runs out of time. -/
def Disciplined (s : Link) : Event → Prop
  | .USART2_IRQHandler Res => DisciplinedByte s Res
  | .TIM5_IRQHandler => DisciplinedExpiry s
  | .send _ => Idle s ∧ s.uart.USART_RX2_STA = 0
  | .sendReply => s.sender.map Prod.fst = some .AT →
      (strstr (bytes "OK") (string s.uart 0)).isSome = true
  | .readTimeout => False
  | .sendTimeout => False
  | _ => True

instance (s : Link) (Res : UInt8) : Decidable (DisciplinedByte s Res) :=
  inferInstanceAs (Decidable (_ ∧ (_ ∨ _)))
instance (s : Link) : Decidable (DisciplinedExpiry s) :=
  inferInstanceAs (Decidable (_ ∧ (_ ∧ (_ → _) ∨ _)))

instance (s : Link) : ∀ e, Decidable (Disciplined s e)
  | .USART2_IRQHandler Res => inferInstanceAs (Decidable (DisciplinedByte s Res))
  | .TIM5_IRQHandler => inferInstanceAs (Decidable (DisciplinedExpiry s))
  | .send _ => inferInstanceAs (Decidable (_ ∧ _))
  | .sendReply => inferInstanceAs (Decidable (_ → _))
  | .readTimeout | .sendTimeout => inferInstanceAs (Decidable False)
  | .poll | .read | .readReply => inferInstanceAs (Decidable True)

/-- All bursts have been handled. -/
def Settled (s : Link) : Prop := Idle s ∧ s.uart.complete = false

/-- No notification is taken as a reply, and the notifications have been
served in order, each once, apart from one at most that is being handled. -/
structure Lossless (s : Link) : Prop where
  consumed : s.consumed = []
  served : ∃ pending, due s = done s ++ pending ∧ pending.length ≤ 1 ∧
    (Settled s → pending = [])

/-- A completed burst stands in the buffer and nobody sends. -/
structure Carries (s : Link) (frame : List UInt8) : Prop where
  silent : s.sender = none
  holds : Holds s.uart frame
  index : isNotification frame = true → strcmp (indexText frame) (bytes "99") < 0
  pending : due s = done s ++ if isNotification frame then [dueCommand frame] else []

/-- Where a burst is on its way through the link. -/
inductive Phase (s : Link) : Prop
  /-- The next burst may be arriving. -/
  | idle (hidle : Idle s) (hfresh : Fresh s.uart) (hdone : due s = done s)
  /-- The flag is set. -/
  | flagged (frame : List UInt8) (hcarry : Carries s frame) (hidle : Idle s)
      (hcomplete : s.uart.complete = true)
  /-- GSM_thread has released the semaphore. -/
  | released (frame : List UInt8) (hcarry : Carries s frame)
      (hpc : s.reader = .waitSem ∨ s.reader = .delay) (hsem : s.sem = 1)
      (hSTA : s.uart.USART_RX2_STA = 0)
  /-- GSM_read_thread looks for the notification. -/
  | searching (frame : List UInt8) (hcarry : Carries s frame) (hpc : s.reader = .loop)
      (hsem : s.sem = 0) (hSTA : s.uart.USART_RX2_STA = 0)
  /-- GSM_read_thread waits for a reply to its command. -/
  | waiting (hsend : s.sender = none) (hpc : s.reader = .waitFirst ∨ s.reader = .waitSecond)
      (hsem : s.sem = 0) (hplain : s.uart.complete = true → isNotification s.frame = false)
      (hdue : due s = done s ++ [s.GSM_buffer])
  /-- GSM_read_thread has taken a reply. -/
  | answered (hsend : s.sender = none) (hpc : s.reader = .gotFirst ∨ s.reader = .gotSecond)
      (hsem : s.sem = 0) (hSTA : s.uart.USART_RX2_STA = 0)
      (hdue : due s = done s ++ [s.GSM_buffer])
  /-- GSM_read_thread is about to clear the buffer. -/
  | cleaning (hsend : s.sender = none) (hpc : s.reader = .LOOP) (hsem : s.sem = 0)
      (hSTA : s.uart.USART_RX2_STA = 0) (hdone : due s = done s)
  /-- GSM_SendSMS waits for a reply. -/
  | sending (hsend : s.sender ≠ none) (hpc : s.reader = .waitSem ∨ s.reader = .delay)
      (hsem : s.sem = 0) (hplain : s.uart.complete = true → isNotification s.frame = false)
      (hdone : due s = done s)

/-- An idle link awaits no reply. -/
theorem Idle.not_awaiting {s : Link} (h : Idle s) : ¬Awaiting s := by
  obtain ⟨hsend, hpc, -⟩ := h
  rcases hpc with hpc | hpc <;> simp [Awaiting, hsend, hpc]

/-- A waiting reader is not idle. -/
theorem not_idle_of_reader {s : Link} (h : s.reader ≠ .waitSem) (h' : s.reader ≠ .delay) :
    ¬Idle s := fun hidle => hidle.2.1.elim h h'

/-- GSM_SendSMS does not run without a message. -/
theorem sendReply_eq_none {s : Link} (hsend : s.sender = none) : step s .sendReply = none := by
  simp [step, sendReply, hsend]

/-- The reader waits for no reply at its semaphore or in its delay. -/
theorem readReply_eq_none {s : Link} (hpc : s.reader = .waitSem ∨ s.reader = .delay) :
    step s .readReply = none := by
  rcases hpc with hpc | hpc <;> simp [step, readReply, hpc]

/-- The reader of an idle link can only end its delay. -/
theorem read_of_idle {s t : Link} (hidle : Idle s) (ht : step s .read = some t) :
    t = { s with reader := .waitSem } := by
  obtain ⟨hsend, hpc, hsem⟩ := hidle
  simp only [step, if_pos hsend, GSM_read_thread] at ht
  rcases hpc with hpc | hpc
  · simp [hpc, hsem] at ht
  · simp only [hpc, Option.some.injEq] at ht
    exact ht.symm

/-- A completed notification becomes due. -/
theorem due_expire {s : Link} (h : s.uart.complete = false) :
    due (expire s) = due s ++ if isNotification (s.uart.bytes s.uart.USART_RX2_STA) then
      [dueCommand (s.uart.bytes s.uart.USART_RX2_STA)] else [] := by
  rw [expire_eq h]
  dsimp only [due]
  split <;> simp

/-- No expiry completes a run of the reader. -/
theorem done_expire (s : Link) : done (expire s) = done s := by
  unfold expire done; dsimp only; split <;> rfl

/-- An idle link receives a burst, sends a message or stays idle. -/
theorem phase_of_idle {s t : Link} {e : Event} (hidle : Idle s) (hfresh : Fresh s.uart)
    (hdone : due s = done s) (hd : Disciplined s e) (ht : step s e = some t) : Phase t := by
  have hoff := hfresh.not_complete
  obtain ⟨hsend, hpc, hsem⟩ := id hidle
  cases e with
  | USART2_IRQHandler Res =>
    cases ht
    obtain ⟨-, ⟨-, hRes, hroom⟩ | hawait⟩ := hd
    · exact .idle hidle (hfresh.byte hRes hroom) hdone
    · exact absurd hawait hidle.not_awaiting
  | TIM5_IRQHandler =>
    cases ht
    obtain ⟨-, ⟨-, hindex⟩ | ⟨hawait, -⟩⟩ := hd
    · refine .flagged (s.uart.bytes s.uart.USART_RX2_STA) ⟨?_, ?_, hindex, ?_⟩ ?_ ?_
      · rw [expire_sender, hsend]
      · rw [expire_uart]
        exact hfresh.holds.of_cells rfl
      · rw [due_expire hoff, done_expire, hdone]
      · simpa [Idle, expire_sem] using hidle
      · rw [expire_uart, complete_TIM5_IRQHandler]
    · exact absurd hawait hidle.not_awaiting
  | poll => simp [step, hoff] at ht
  | read =>
    obtain rfl := read_of_idle hidle ht
    exact .idle ⟨hsend, .inl rfl, hsem⟩ hfresh hdone
  | readReply => simp [readReply_eq_none hpc] at ht
  | readTimeout => exact hd.elim
  | send content =>
    obtain ⟨-, ht⟩ := Option.ite_none_right_eq_some.mp ht
    cases ht
    exact .sending (by simp) hpc hsem (fun h => absurd (hoff.symm.trans h) (by decide)) hdone
  | sendReply => simp [sendReply_eq_none hsend] at ht
  | sendTimeout => exact hd.elim

/-- A completed burst stays in the buffer until GSM_thread sees its flag. -/
theorem phase_of_flagged {s t : Link} {e : Event} {frame : List UInt8} (hcarry : Carries s frame)
    (hidle : Idle s) (hcomplete : s.uart.complete = true) (hd : Disciplined s e)
    (ht : step s e = some t) : Phase t := by
  obtain ⟨hsend, hpc, hsem⟩ := id hidle
  cases e with
  | USART2_IRQHandler Res => exact absurd (hd.1.symm.trans hcomplete) (by decide)
  | TIM5_IRQHandler => exact absurd (hd.1.symm.trans hcomplete) (by decide)
  | poll =>
    obtain ⟨-, ht⟩ := Option.ite_none_right_eq_some.mp ht
    cases ht
    exact .released frame ⟨hsend, hcarry.holds.of_cells rfl, hcarry.index, hcarry.pending⟩ hpc
      (by simp [hsem, uint16_t]) rfl
  | read =>
    obtain rfl := read_of_idle hidle ht
    exact .flagged frame ⟨hsend, hcarry.holds, hcarry.index, hcarry.pending⟩
      ⟨hsend, .inl rfl, hsem⟩ hcomplete
  | readReply => simp [readReply_eq_none hpc] at ht
  | readTimeout => exact hd.elim
  | send content =>
    rw [Uart.complete, hd.2] at hcomplete
    exact absurd hcomplete (by decide)
  | sendReply => simp [sendReply_eq_none hsend] at ht
  | sendTimeout => exact hd.elim

/-- Between two waits, with the flag off, only the reader moves. -/
theorem read_of_disciplined {s t : Link} {e : Event} (hsend : s.sender = none)
    (hidle : ¬Idle s) (hawait : ¬Awaiting s) (hSTA : s.uart.USART_RX2_STA = 0)
    (hd : Disciplined s e) (ht : step s e = some t) : GSM_read_thread s = some t := by
  have hoff : s.uart.complete = false := complete_of_lt (hSTA ▸ USART_REC_LEN_pos)
  cases e with
  | USART2_IRQHandler Res => exact absurd hd.2 (by tauto)
  | TIM5_IRQHandler => exact absurd hd.2 (by tauto)
  | poll => simp [step, hoff] at ht
  | read => exact (Option.ite_none_right_eq_some.mp ht).2
  | readReply => simp [step, hoff] at ht
  | readTimeout => exact hd.elim
  | send content => exact absurd hd.1 hidle
  | sendReply => simp [sendReply_eq_none hsend] at ht
  | sendTimeout => exact hd.elim

/-- The released reader takes the semaphore. -/
theorem phase_of_released {s t : Link} {e : Event} {frame : List UInt8}
    (hcarry : Carries s frame) (hpc : s.reader = .waitSem ∨ s.reader = .delay) (hsem : s.sem = 1)
    (hSTA : s.uart.USART_RX2_STA = 0) (hd : Disciplined s e) (ht : step s e = some t) :
    Phase t := by
  have hsend := hcarry.silent
  have hidle : ¬Idle s := fun h => absurd (h.2.2.symm.trans hsem) (by decide)
  have hawait : ¬Awaiting s := by rcases hpc with hpc | hpc <;> simp [Awaiting, hsend, hpc]
  have hread := read_of_disciplined hsend hidle hawait hSTA hd ht
  rcases hpc with hpc | hpc
  · simp only [GSM_read_thread, hpc, hsem, one_ne_zero, if_false, Option.some.injEq] at hread
    subst hread
    exact .searching frame ⟨hsend, hcarry.holds, hcarry.index, hcarry.pending⟩ rfl rfl hSTA
  · simp only [GSM_read_thread, hpc, Option.some.injEq] at hread
    subst hread
    exact .released frame ⟨hsend, hcarry.holds, hcarry.index, hcarry.pending⟩ (.inl rfl) hsem hSTA

/-- The text behind the search pattern is the index text of the burst. -/
theorem indexText_eq {u : Uart} {frame rest : List UInt8} (h : Holds u frame)
    (hrest : strstr (bytes "+CMTI:") frame = some rest) :
    string u (frame.length - rest.length + 12) = indexText frame := by
  have hsuffix := List.suffix_iff_eq_drop.mp (strstr_suffix hrest)
  rw [h.string_eq, ← List.drop_drop, ← hsuffix, indexText, hrest, Option.getD_some]

/-- The search sends the read command of a notification and skips other bursts. -/
theorem phase_of_searching {s t : Link} {e : Event} {frame : List UInt8}
    (hcarry : Carries s frame) (hpc : s.reader = .loop) (hsem : s.sem = 0)
    (hSTA : s.uart.USART_RX2_STA = 0) (hd : Disciplined s e) (ht : step s e = some t) :
    Phase t := by
  have hsend := hcarry.silent
  have hidle : ¬Idle s := not_idle_of_reader (by simp [hpc]) (by simp [hpc])
  have hawait : ¬Awaiting s := by simp [Awaiting, hsend, hpc]
  have hread := read_of_disciplined hsend hidle hawait hSTA hd ht
  have htext : string s.uart 0 = frame := by rw [hcarry.holds.string_eq, List.drop_zero]
  have hpending := hcarry.pending
  simp only [GSM_read_thread, hpc, htext] at hread
  cases hrest : strstr (bytes "+CMTI:") frame with
  | none =>
    simp only [hrest, Option.some.injEq] at hread
    subst hread
    rw [isNotification, hrest, if_neg (by simp), List.append_nil] at hpending
    exact .cleaning hsend rfl hsem hSTA hpending
  | some rest =>
    have hnotification : isNotification frame = true := by rw [isNotification, hrest]; rfl
    have hindex := hcarry.index hnotification
    simp only [hrest, indexText_eq hcarry.holds hrest, if_neg (not_le.mpr hindex),
      ge_iff_le, Option.some.injEq] at hread
    subst hread
    rw [if_pos hnotification] at hpending
    have hoff : (0 : ℕ).testBit 15 = false := by decide
    exact .waiting hsend (.inl rfl) hsem (fun h => absurd (hoff.symm.trans h) (by decide)) hpending

/-- A waiting reader takes a burst that is no notification. -/
theorem phase_of_waiting {s t : Link} {e : Event} (hsend : s.sender = none)
    (hpc : s.reader = .waitFirst ∨ s.reader = .waitSecond) (hsem : s.sem = 0)
    (hdue : due s = done s ++ [s.GSM_buffer]) (hd : Disciplined s e) (ht : step s e = some t) :
    Phase t := by
  have hidle : ¬Idle s := by
    rcases hpc with hpc | hpc <;> exact not_idle_of_reader (by simp [hpc]) (by simp [hpc])
  have hbusy : s.readerBlocked = false := by
    rcases hpc with hpc | hpc <;> simp [Link.readerBlocked, hpc]
  cases e with
  | USART2_IRQHandler Res =>
    cases ht
    exact .waiting hsend hpc hsem
      (fun h => absurd ((complete_USART2_IRQHandler Res s.uart).symm.trans h) (by decide)) hdue
  | TIM5_IRQHandler =>
    cases ht
    obtain ⟨hoff, ⟨h, -⟩ | ⟨-, hframe⟩⟩ := hd
    · exact absurd h hidle
    · refine .waiting ?_ ?_ ?_ (fun _ => ?_) ?_
      · rw [expire_sender, hsend]
      · rwa [expire_reader]
      · rw [expire_sem, hsem]
      · rwa [expire_eq hoff]
      · rw [due_expire hoff, done_expire, hframe, hdue, expire_eq hoff]
        simp
  | poll => simp [step, hbusy] at ht
  | read => rcases hpc with hpc | hpc <;> simp [step, GSM_read_thread, hpc] at ht
  | readReply =>
    obtain ⟨-, ht⟩ := Option.ite_none_right_eq_some.mp ht
    rcases hpc with hpc | hpc
    · simp only [readReply, hpc, Option.some.injEq] at ht
      subst ht
      exact .answered hsend (.inl rfl) hsem rfl hdue
    · simp only [readReply, hpc, Option.some.injEq] at ht
      subst ht
      exact .answered hsend (.inr rfl) hsem rfl hdue
  | readTimeout => exact hd.elim
  | send content => exact absurd hd.1 hidle
  | sendReply => simp [sendReply_eq_none hsend] at ht
  | sendTimeout => exact hd.elim

/-- After the first reply the command is sent again, after the second one the
message is dispatched. -/
theorem phase_of_answered {s t : Link} {e : Event} (hsend : s.sender = none)
    (hpc : s.reader = .gotFirst ∨ s.reader = .gotSecond) (hsem : s.sem = 0)
    (hSTA : s.uart.USART_RX2_STA = 0) (hdue : due s = done s ++ [s.GSM_buffer])
    (hd : Disciplined s e) (ht : step s e = some t) : Phase t := by
  have hidle : ¬Idle s := by
    rcases hpc with hpc | hpc <;> exact not_idle_of_reader (by simp [hpc]) (by simp [hpc])
  have hawait : ¬Awaiting s := by rcases hpc with hpc | hpc <;> simp [Awaiting, hsend, hpc]
  have hread := read_of_disciplined hsend hidle hawait hSTA hd ht
  rcases hpc with hpc | hpc
  · simp only [GSM_read_thread, hpc, Option.some.injEq] at hread
    subst hread
    have hoff := (fresh_clearBuffer hSTA).not_complete
    exact .waiting hsend (.inr rfl) hsem (fun h => absurd (hoff.symm.trans h) (by decide)) hdue
  · simp only [GSM_read_thread, hpc, Option.some.injEq] at hread
    subst hread
    refine .cleaning hsend rfl hsem hSTA ?_
    simpa [due, done] using hdue

/-- The reader leaves a zeroed buffer behind. -/
theorem phase_of_cleaning {s t : Link} {e : Event} (hsend : s.sender = none)
    (hpc : s.reader = .LOOP) (hsem : s.sem = 0) (hSTA : s.uart.USART_RX2_STA = 0)
    (hdone : due s = done s) (hd : Disciplined s e) (ht : step s e = some t) : Phase t := by
  have hidle : ¬Idle s := not_idle_of_reader (by simp [hpc]) (by simp [hpc])
  have hawait : ¬Awaiting s := by simp [Awaiting, hsend, hpc]
  have hread := read_of_disciplined hsend hidle hawait hSTA hd ht
  simp only [GSM_read_thread, hpc, Option.some.injEq] at hread
  subst hread
  exact .idle ⟨hsend, .inr rfl, hsem⟩ (fresh_clearBuffer hSTA) hdone

/-- GSM_SendSMS takes bursts that are no notifications and leaves a zeroed
buffer behind. -/
theorem phase_of_sending {s t : Link} {e : Event} (hsend : s.sender ≠ none)
    (hpc : s.reader = .waitSem ∨ s.reader = .delay) (hsem : s.sem = 0)
    (hdone : due s = done s) (hd : Disciplined s e) (ht : step s e = some t) : Phase t := by
  have hidle : ¬Idle s := fun h => hsend h.1
  cases e with
  | USART2_IRQHandler Res =>
    cases ht
    exact .sending hsend hpc hsem
      (fun h => absurd ((complete_USART2_IRQHandler Res s.uart).symm.trans h) (by decide)) hdone
  | TIM5_IRQHandler =>
    cases ht
    obtain ⟨hoff, ⟨h, -⟩ | ⟨-, hframe⟩⟩ := hd
    · exact absurd h hidle
    · refine .sending ?_ ?_ ?_ (fun _ => ?_) ?_
      · rwa [expire_sender]
      · rwa [expire_reader]
      · rw [expire_sem, hsem]
      · rwa [expire_eq hoff]
      · rw [due_expire hoff, done_expire, hframe, hdone]
        simp
  | poll => simp [step, hsend] at ht
  | read => simp [step, hsend] at ht
  | readReply => simp [step, hsend] at ht
  | readTimeout => exact hd.elim
  | send content => exact absurd hd.1 hidle
  | sendReply =>
    obtain ⟨-, ht⟩ := Option.ite_none_right_eq_some.mp ht
    obtain ⟨u, next, hSTA, rfl⟩ | rfl | ⟨-, hAT, hOK⟩ := sendReply_cases ht
    · have hoff : u.complete = false := complete_of_lt (hSTA ▸ USART_REC_LEN_pos)
      exact .sending (by simp) hpc hsem (fun h => absurd (hoff.symm.trans h) (by decide)) hdone
    · exact .idle ⟨rfl, hpc, hsem⟩ (fresh_clearBuffer rfl) hdone
    · exact absurd ((hd hAT).symm.trans hOK) (by decide)
  | sendTimeout => exact hd.elim

/-- A disciplined event moves a burst along its way. -/
theorem phase_step {s t : Link} {e : Event} (hs : Phase s) (hd : Disciplined s e)
    (ht : step s e = some t) : Phase t := by
  cases hs with
  | idle hidle hfresh hdone => exact phase_of_idle hidle hfresh hdone hd ht
  | flagged frame hcarry hidle hcomplete =>
    exact phase_of_flagged hcarry hidle hcomplete hd ht
  | released frame hcarry hpc hsem hSTA => exact phase_of_released hcarry hpc hsem hSTA hd ht
  | searching frame hcarry hpc hsem hSTA => exact phase_of_searching hcarry hpc hsem hSTA hd ht
  | waiting hsend hpc hsem _ hdue => exact phase_of_waiting hsend hpc hsem hdue hd ht
  | answered hsend hpc hsem hSTA hdue => exact phase_of_answered hsend hpc hsem hSTA hdue hd ht
  | cleaning hsend hpc hsem hSTA hdone => exact phase_of_cleaning hsend hpc hsem hSTA hdone hd ht
  | sending hsend hpc hsem _ hdone => exact phase_of_sending hsend hpc hsem hdone hd ht

/-- A burst that ends the wait of a thread is no notification. -/
theorem Phase.plain {s : Link} (hs : Phase s) (hawait : Awaiting s)
    (hcomplete : s.uart.complete = true) : isNotification s.frame = false := by
  cases hs with
  | idle hidle _ _ => exact absurd hawait hidle.not_awaiting
  | flagged _ _ hidle _ => exact absurd hawait hidle.not_awaiting
  | released _ hcarry hpc _ _ =>
    rcases hpc with hpc | hpc <;> simp [Awaiting, hcarry.silent, hpc] at hawait
  | searching _ hcarry hpc _ _ => simp [Awaiting, hcarry.silent, hpc] at hawait
  | waiting _ _ _ hplain _ => exact hplain hcomplete
  | answered hsend hpc _ _ _ =>
    rcases hpc with hpc | hpc <;> simp [Awaiting, hsend, hpc] at hawait
  | cleaning hsend hpc _ _ _ => simp [Awaiting, hsend, hpc] at hawait
  | sending _ _ _ hplain _ => exact hplain hcomplete

/-- Accepting another burst notes nothing. -/
theorem acceptReply_consumed {s : Link} (h : isNotification s.frame = false) :
    (acceptReply s).consumed = s.consumed := by
  simp [acceptReply, h]

/-- The reader accepts a burst only while it waits. -/
theorem readReply_consumed {s t : Link} (ht : readReply s = some t) :
    Awaiting s ∧ t.consumed = (acceptReply s).consumed := by
  unfold readReply at ht
  split at ht <;> cases ht <;> simp_all [Awaiting]

/-- No disciplined event takes a notification as a reply. -/
theorem consumed_step {s t : Link} {e : Event} (hs : Phase s) (hd : Disciplined s e)
    (ht : step s e = some t) : t.consumed = s.consumed := by
  cases e with
  | USART2_IRQHandler Res =>
    cases ht
    rfl
  | TIM5_IRQHandler =>
    cases ht
    rw [expire_eq hd.1]
  | poll =>
    obtain ⟨-, ht⟩ := Option.ite_none_right_eq_some.mp ht
    cases ht
    rfl
  | read => exact (GSM_read_thread_keeps (Option.ite_none_right_eq_some.mp ht).2).2
  | readReply =>
    obtain ⟨⟨-, hcomplete⟩, ht⟩ := Option.ite_none_right_eq_some.mp ht
    obtain ⟨hawait, hconsumed⟩ := readReply_consumed ht
    rw [hconsumed, acceptReply_consumed (hs.plain hawait hcomplete)]
  | readTimeout => exact hd.elim
  | send content =>
    obtain ⟨-, ht⟩ := Option.ite_none_right_eq_some.mp ht
    cases ht
    rfl
  | sendReply =>
    obtain ⟨hcomplete, ht⟩ := Option.ite_none_right_eq_some.mp ht
    have hsend : s.sender ≠ none := fun h => by simp [sendReply, h] at ht
    have hplain := hs.plain (.inl hsend) hcomplete
    obtain ⟨u, next, -, rfl⟩ | rfl | ⟨-, hAT, hOK⟩ := sendReply_cases ht
    · exact acceptReply_consumed hplain
    · exact acceptReply_consumed hplain
    · exact absurd ((hd hAT).symm.trans hOK) (by decide)
  | sendTimeout => exact hd.elim

/-- In every phase at most the burst on its way is not yet served. -/
theorem Phase.lossless {s : Link} (hs : Phase s) (hconsumed : s.consumed = []) : Lossless s := by
  refine ⟨hconsumed, ?_⟩
  cases hs with
  | idle _ _ hdone => exact ⟨[], by simpa using hdone, by simp, fun _ => rfl⟩
  | flagged frame hcarry _ hcomplete =>
    refine ⟨_, hcarry.pending, by split <;> simp, fun h => ?_⟩
    exact absurd (h.2.symm.trans hcomplete) (by decide)
  | released frame hcarry _ hsem _ =>
    refine ⟨_, hcarry.pending, by split <;> simp, fun h => ?_⟩
    exact absurd (h.1.2.2.symm.trans hsem) (by decide)
  | searching frame hcarry hpc _ _ =>
    refine ⟨_, hcarry.pending, by split <;> simp, fun h => ?_⟩
    exact absurd h.1 (not_idle_of_reader (by simp [hpc]) (by simp [hpc]))
  | waiting _ hpc _ _ hdue =>
    refine ⟨_, hdue, by simp, fun h => absurd h.1 ?_⟩
    rcases hpc with hpc | hpc <;> exact not_idle_of_reader (by simp [hpc]) (by simp [hpc])
  | answered _ hpc _ _ hdue =>
    refine ⟨_, hdue, by simp, fun h => absurd h.1 ?_⟩
    rcases hpc with hpc | hpc <;> exact not_idle_of_reader (by simp [hpc]) (by simp [hpc])
  | cleaning _ _ _ _ hdone => exact ⟨[], by simpa using hdone, by simp, fun _ => rfl⟩
  | sending _ _ _ _ hdone => exact ⟨[], by simpa using hdone, by simp, fun _ => rfl⟩

/-- The link starts idle on a zeroed buffer. -/
theorem phase_start : Phase start :=
  .idle (by decide) ⟨by decide, fun i hi => absurd hi (by simp [start]), fun _ _ _ => rfl⟩ rfl

/-- Every run with a disciplined modem is lossless. -/
theorem lossless_of_disciplined (es : List Event) (hd : Guarded Disciplined step start es) :
    Always Lossless step start es :=
  always_of_guarded (I := fun s => Phase s ∧ s.consumed = []) (fun _ h => h.1.lossless h.2)
    (fun _ _ _ h hd ht => ⟨phase_step h.1 hd ht, (consumed_step h.1 hd ht).trans h.2⟩) hd
    ⟨phase_start, rfl⟩

/-- One message is read and dispatched, and the answer to it is started. -/
theorem lossless_one_message :
    ∃ es, Always Lossless step start es ∧
      (run step start es).any (fun t => (done t).length = 1 ∧ t.sender ≠ none) = true :=
  ⟨burst "\r\n+CMTI: \"SM\",1\r\n" ++ [.poll, .read, .read] ++ burst "AT+CMGR=1" ++
      [.readReply, .read] ++ burst "home" ++ [.readReply, .read, .read, .send .set_ok] ++
      burst "OK" ++ [.sendReply],
    lossless_of_disciplined _ (by decide +kernel), by decide +kernel⟩

/-- A second message is announced while the reader waits for the first one. -/
theorem not_lossless_after_second_notification : ¬∀ es, Always Lossless step start es := by
  intro h
  let es := burst "\r\n+CMTI: \"SM\",1\r\n" ++ [.poll, .read, .read] ++
    burst "\r\n+CMTI: \"SM\",2\r\n" ++ [.readReply]
  have hend : (run step start es).any (fun t => t.consumed ≠ []) = true := by decide +kernel
  obtain ⟨t, hr, ht⟩ := (Option.any_eq_true _ _).mp hend
  exact of_decide_eq_true ht ((h es).of_run hr).consumed

end SmartHome.NotificationDelivery
