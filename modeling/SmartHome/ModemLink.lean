import SmartHome.HomePanel
import SmartHome.UartReceive

/-!
# The modem link and its three threads

GSM_thread watches the completion flag while nobody waits for a reply,
GSM_read_thread reads the announced message with AT commands, and
GSM_send_thread sends messages with the scheduler locked. Both wait for
replies in loops that accept any completed burst. GSM_read_thread outranks
the two others, so they run only while it is blocked. The interrupts come at
any time and a bounded wait may time out at any time. A test of the flag and
the clear after it are one step, memory allocation is taken to succeed, and
the overrun of the one-byte array GSM_buffer is left out.
-/

namespace SmartHome.ModemLink

open ByteStrings HomePanel MachineWords UartReceive

/-- Position of GSM_read_thread. -/
inductive ReaderPc where
  /-- Blocked on GSM_sem_read. -/
  | waitSem
  /-- At the label loop, before the search for the notification. -/
  | loop
  /-- Waiting for the reply to the delete command. -/
  | waitDelete
  /-- Waiting for the reply to the first read command. -/
  | waitFirst
  /-- First reply taken, buffer not yet cleared. -/
  | gotFirst
  /-- Waiting for the reply to the second read command. -/
  | waitSecond
  /-- Second reply taken, before the dispatch. -/
  | gotSecond
  /-- At the label LOOP. -/
  | LOOP
  /-- In the delay at the end of the loop. -/
  | delay
  /-- Returned from the entry function. -/
  | returned
  deriving DecidableEq, Repr

/-- The reply that GSM_SendSMS waits for. -/
inductive SenderPc where
  | AT
  | CMGF
  | CSCS
  | CNMI
  | CMGS
  /-- Waiting after a part of the message; the number of parts still to be acknowledged. -/
  | body (left : ℕ)
  /-- Waiting for the result of the message. -/
  | final
  deriving DecidableEq, Repr

/-- Calls of the heap functions, with the blocks numbered in order. -/
inductive HeapCall where
  | rt_malloc (block : ℕ)
  | rt_free (block : ℕ)
  deriving DecidableEq, Repr

/-- A run of the read-and-dispatch branch: its command and the dispatched text. -/
structure ReadRun where
  command : List UInt8
  text : List UInt8
  deriving DecidableEq, Repr

/-- The receiver, the three threads and their history. -/
structure Link where
  uart : Uart
  /-- Value of GSM_sem_read. -/
  sem : ℕ
  reader : ReaderPc
  /-- The read command built from the notification. -/
  GSM_buffer : List UInt8
  /-- Static pointer of GSM_read_thread to its last block. -/
  point : Option ℕ
  /-- GSM_SendSMS in progress with its content. -/
  sender : Option (SenderPc × GSMMail)
  /-- Static pointer of GSM_SendSMS to its last block. -/
  prt_backup : Option ℕ
  /-- Number of blocks allocated so far. -/
  blocks : ℕ
  heap : List HeapCall
  /-- Commands sent by GSM_read_thread. -/
  sent : List (List UInt8)
  /-- Bytes of the last completed burst. -/
  frame : List UInt8
  /-- Completed notification bursts. -/
  arrived : List (List UInt8)
  /-- Completed runs of the read-and-dispatch branch. -/
  served : List ReadRun
  /-- Notification bursts accepted as the reply to a command. -/
  consumed : List (List UInt8)

/-- The events of the link. -/
inductive Event where
  | USART2_IRQHandler (Res : UInt8)
  | TIM5_IRQHandler
  /-- GSM_thread sees the flag and releases the semaphore. -/
  | poll
  /-- GSM_read_thread goes on where it does not wait for a reply. -/
  | read
  /-- GSM_read_thread leaves a wait loop with the flag set. -/
  | readReply
  | readTimeout
  /-- GSM_send_thread takes a mail and calls GSM_SendSMS. -/
  | send (content : GSMMail)
  /-- GSM_SendSMS leaves a wait loop with the flag set. -/
  | sendReply
  | sendTimeout
  deriving DecidableEq, Repr

/-- The string at an index of the receive buffer. -/
def string (u : Uart) (index : ℕ) : List UInt8 :=
  ((List.range' index (USART_REC_LEN - index)).map u.USART_RX2_BUF).takeWhile (· ≠ 0)

/-- Zero the receive buffer. -/
def clearBuffer (u : Uart) : Uart :=
  { u with USART_RX2_BUF := fun i => if i < USART_REC_LEN then 0 else u.USART_RX2_BUF i }

/-- The comparison of rt_strcmp, with zero behind the end of a string. -/
def strcmp : List UInt8 → List UInt8 → ℤ
  | [], [] => 0
  | [], c :: _ => -c.toNat
  | c :: _, [] => c.toNat
  | c :: cs, d :: ds => if c = d then strcmp cs ds else c.toNat - d.toNat

/-- The burst announces a message. -/
def isNotification (frame : List UInt8) : Bool := (strstr (bytes "+CMTI:") frame).isSome

/-- The text at pt+12 in a notification. -/
def indexText (frame : List UInt8) : List UInt8 :=
  ((strstr (bytes "+CMTI:") frame).getD []).drop 12

/-- The read command for an index text. -/
def readCommand (index : List UInt8) : List UInt8 := bytes "AT+CMGR=" ++ index ++ [10, 10]

/-- Parts of a message after each of which GSM_SendSMS waits. -/
def bodyParts : GSMMail → ℕ
  | .report_status => 3
  | .tips => 4
  | _ => 1

/-- The thread of lower priority can run: the reader is blocked. -/
def Link.readerBlocked (s : Link) : Bool :=
  match s.reader with
  | .waitSem => s.sem = 0
  | .delay => true
  | .returned => true
  | _ => false

/-- A wait loop accepts the completed burst and clears the flag. -/
def acceptReply (s : Link) : Link :=
  { s with uart := { s.uart with USART_RX2_STA := 0 },
           consumed := if isNotification s.frame then s.consumed ++ [s.frame] else s.consumed }

/-- Free the block at point; the pointer itself stays. -/
def freePoint (s : Link) : Link :=
  { s with heap := s.heap ++ (s.point.map HeapCall.rt_free).toList }

/-- Free the block at prt_backup; the pointer itself stays. -/
def freePrt (s : Link) : Link :=
  { s with heap := s.heap ++ (s.prt_backup.map HeapCall.rt_free).toList }

/-- GSM_read_thread from one blocking or waiting point to the next. -/
def GSM_read_thread (s : Link) : Option Link :=
  match s.reader with
  | .waitSem =>
    if s.sem = 0 then none
    else some { s with sem := s.sem - 1, reader := .loop, point := some s.blocks,
                       blocks := s.blocks + 1, heap := s.heap ++ [.rt_malloc s.blocks] }
  | .loop =>
    let text := string s.uart 0
    match strstr (bytes "+CMTI:") text with
    | none => some { s with reader := .LOOP }
    | some rest =>
      let index := string s.uart (text.length - rest.length + 12)
      if strcmp index (bytes "99") ≥ 0 then
        some { s with reader := .waitDelete, sent := s.sent ++ [bytes "AT+CMGD=1,4\n"] }
      else
        let command := readCommand index
        some { s with reader := .waitFirst, GSM_buffer := command, sent := s.sent ++ [command],
                      uart := clearBuffer { s.uart with USART_RX2_STA := 0 } }
  | .gotFirst =>
    some { s with reader := .waitSecond, sent := s.sent ++ [s.GSM_buffer],
                  uart := clearBuffer s.uart }
  | .gotSecond =>
    some { s with reader := .LOOP, served := s.served ++ [⟨s.GSM_buffer, string s.uart 0⟩] }
  | .LOOP => some { freePoint { s with uart := clearBuffer s.uart } with reader := .delay }
  | .delay => some { s with reader := .waitSem }
  | _ => none

/-- GSM_read_thread leaves a wait loop because a burst is complete. -/
def readReply (s : Link) : Option Link :=
  match s.reader with
  | .waitDelete => some { acceptReply s with reader := .loop }
  | .waitFirst => some { acceptReply s with reader := .gotFirst }
  | .waitSecond => some { acceptReply s with reader := .gotSecond }
  | _ => none

/-- GSM_read_thread leaves a wait loop because the time is over: it frees its
block, resets the pointer and returns. -/
def readTimeout (s : Link) : Option Link :=
  match s.reader with
  | .waitDelete => some { freePoint s with point := none, reader := .returned }
  | .waitFirst => some { freePoint s with point := none, reader := .returned }
  | .waitSecond => some { freePoint s with point := none, reader := .returned }
  | _ => none

/-- The end of GSM_SendSMS. -/
def endSend (s : Link) : Link :=
  { freePrt s with uart := clearBuffer s.uart, sender := none }

/-- GSM_SendSMS leaves a wait loop because a burst is complete. A modem that
does not answer OK at first ends it without freeing the block. -/
def sendReply (s : Link) : Option Link :=
  match s.sender with
  | none => none
  | some (pc, content) =>
    let t := acceptReply s
    match pc with
    | .AT =>
      if (strstr (bytes "OK") (string t.uart 0)).isSome then
        some { t with uart := clearBuffer t.uart, sender := some (.CMGF, content) }
      else some { t with sender := none }
    | .CMGF => some { t with sender := some (.CSCS, content) }
    | .CSCS => some { t with sender := some (.CNMI, content) }
    | .CNMI => some { t with sender := some (.CMGS, content) }
    | .CMGS =>
      if (strstr (bytes "> ") (string t.uart 0)).isSome then
        some { t with sender := some (.body (bodyParts content), content) }
      else some (endSend t)
    | .body left =>
      if left ≤ 1 then some { t with uart := clearBuffer t.uart, sender := some (.final, content) }
      else some { t with sender := some (.body (left - 1), content) }
    | .final => some (endSend t)

/-- The timer expires. It completes a burst unless the flag is still set. -/
def expire (s : Link) : Link :=
  let frame := s.uart.bytes s.uart.USART_RX2_STA
  if s.uart.complete then { s with uart := TIM5_IRQHandler s.uart }
  else { s with uart := TIM5_IRQHandler s.uart, frame := frame,
                arrived := if isNotification frame then s.arrived ++ [frame] else s.arrived }

/-- Effect of an event. Threads need the scheduler, and GSM_thread and
GSM_send_thread need the reader to be blocked. -/
def step (s : Link) : Event → Option Link
  | .USART2_IRQHandler Res => some { s with uart := USART2_IRQHandler Res s.uart }
  | .TIM5_IRQHandler => some (expire s)
  | .poll =>
    if s.sender = none ∧ s.readerBlocked ∧ s.uart.complete then
      some { s with uart := { s.uart with USART_RX2_STA := 0 }, sem := uint16_t (s.sem + 1) }
    else none
  | .read => if s.sender = none then GSM_read_thread s else none
  | .readReply => if s.sender = none ∧ s.uart.complete then readReply s else none
  | .readTimeout => if s.sender = none then readTimeout s else none
  | .send content =>
    if s.sender = none ∧ s.readerBlocked then
      some { s with sender := some (.AT, content), prt_backup := some s.blocks,
                    blocks := s.blocks + 1, heap := s.heap ++ [.rt_malloc s.blocks] }
    else none
  | .sendReply => if s.uart.complete then sendReply s else none
  | .sendTimeout =>
    if s.sender = none then none else some { freePrt s with prt_backup := none, sender := none }

/-- The link after initialisation, with the buffer zeroed. -/
def start : Link where
  uart := ⟨fun _ => 0, 0, true⟩
  sem := 0
  reader := .waitSem
  GSM_buffer := []
  point := none
  sender := none
  prt_backup := none
  blocks := 0
  heap := []
  sent := []
  frame := []
  arrived := []
  served := []
  consumed := []

/-- A burst of the modem with the expiry that ends it. -/
def burst (text : String) : List Event :=
  (bytes text).map Event.USART2_IRQHandler ++ [.TIM5_IRQHandler]

/-! ### What a step can do -/

@[simp] theorem expire_reader (s : Link) : (expire s).reader = s.reader := by
  unfold expire; dsimp only; split <;> rfl

@[simp] theorem expire_sender (s : Link) : (expire s).sender = s.sender := by
  unfold expire; dsimp only; split <;> rfl

@[simp] theorem expire_uart (s : Link) : (expire s).uart = TIM5_IRQHandler s.uart := by
  unfold expire; dsimp only; split <;> rfl

@[simp] theorem expire_sem (s : Link) : (expire s).sem = s.sem := by
  unfold expire; dsimp only; split <;> rfl

/-- An expiry over a cleared flag completes the bytes received so far. -/
theorem expire_eq {s : Link} (h : s.uart.complete = false) :
    expire s = { s with
      uart := TIM5_IRQHandler s.uart
      frame := s.uart.bytes s.uart.USART_RX2_STA
      arrived := if isNotification (s.uart.bytes s.uart.USART_RX2_STA) then
        s.arrived ++ [s.uart.bytes s.uart.USART_RX2_STA] else s.arrived } := by
  simp [expire, h]

/-- Between two waits GSM_read_thread does not return and accepts no burst. -/
theorem GSM_read_thread_keeps {s t : Link} (ht : GSM_read_thread s = some t) :
    t.reader ≠ .returned ∧ t.consumed = s.consumed := by
  unfold GSM_read_thread at ht
  dsimp only at ht
  split at ht
  · split at ht <;> cases ht
    exact ⟨by simp, rfl⟩
  · split at ht
    · cases ht
      exact ⟨by simp, rfl⟩
    · split at ht <;> cases ht <;> exact ⟨by simp, rfl⟩
  all_goals cases ht <;> exact ⟨by simp, rfl⟩

/-- An accepted reply moves GSM_SendSMS to its next wait or ends it, unless
the modem does not answer OK at first. -/
theorem sendReply_cases {s t : Link} (ht : sendReply s = some t) :
    (∃ u next, u.USART_RX2_STA = 0 ∧ t = { acceptReply s with uart := u, sender := some next }) ∨
      t = endSend (acceptReply s) ∨
      t = { acceptReply s with sender := none } ∧ s.sender.map Prod.fst = some .AT ∧
        (strstr (bytes "OK") (string s.uart 0)).isSome = false := by
  unfold sendReply at ht
  split at ht
  · exact absurd ht (by simp)
  · rename_i pc content hsender
    dsimp only at ht
    cases pc with
    | AT =>
      dsimp only at ht
      split at ht
      · exact .inl ⟨_, _, rfl, (Option.some.inj ht).symm⟩
      · rename_i hOK
        exact .inr (.inr ⟨(Option.some.inj ht).symm, by rw [hsender]; rfl,
          Bool.eq_false_of_not_eq_true hOK⟩)
    | CMGF => exact .inl ⟨_, _, rfl, (Option.some.inj ht).symm⟩
    | CSCS => exact .inl ⟨_, _, rfl, (Option.some.inj ht).symm⟩
    | CNMI => exact .inl ⟨_, _, rfl, (Option.some.inj ht).symm⟩
    | CMGS =>
      dsimp only at ht
      split at ht
      · exact .inl ⟨_, _, rfl, (Option.some.inj ht).symm⟩
      · exact .inr (.inl (Option.some.inj ht).symm)
    | body left =>
      dsimp only at ht
      split at ht
      · exact .inl ⟨_, _, rfl, (Option.some.inj ht).symm⟩
      · exact .inl ⟨_, _, rfl, (Option.some.inj ht).symm⟩
    | final => exact .inr (.inl (Option.some.inj ht).symm)

/-- GSM_SendSMS leaves the position of the reader as it is. -/
theorem sendReply_reader {s t : Link} (ht : sendReply s = some t) : t.reader = s.reader := by
  obtain ⟨u, next, -, rfl⟩ | rfl | ⟨rfl, -⟩ := sendReply_cases ht <;> rfl

end SmartHome.ModemLink
