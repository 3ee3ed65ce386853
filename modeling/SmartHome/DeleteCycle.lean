import SmartHome.MessageIndex
import SmartHome.TransitionRuns

/-!
# The cycle of delete commands

After a delete command GSM_read_thread waits for a reply and jumps back to the
search for the notification. The reply is received from index 0 over a buffer
that was not cleared, so the cycle ends exactly if the notification no longer
stands in the overwritten buffer.
-/

namespace SmartHome.DeleteCycle

open ByteStrings MessageIndex ModemLink StaleFrames TransitionRuns
open UartReceive (Uart USART_REC_LEN USART2_IRQHandler TIM5_IRQHandler complete_TIM5_IRQHandler)

/-- The two tests of the thread: the buffer has a notification, and the text
behind it is not smaller than "99". -/
def mailboxFull (u : Uart) : Bool :=
  match strstr (bytes "+CMTI:") (string u 0) with
  | none => false
  | some rest =>
    decide (0 ≤ strcmp (string u ((string u 0).length - rest.length + 12)) (bytes "99"))

/-- The modem replies, the timer expires and the thread accepts the reply. -/
def answer (reply : List UInt8) : List Event :=
  reply.map Event.USART2_IRQHandler ++ [.TIM5_IRQHandler, .readReply]

/-- The cycle from the label loop on, with the replies of the modem in order. -/
def cycle (replies : ℕ → List UInt8) : ℕ → ℕ → Link → Option Link
  | 0, _, _ => none
  | fuel + 1, i, s =>
    (GSM_read_thread s).bind fun t =>
      if t.reader = .waitDelete then
        (run step t (answer (replies i))).bind (cycle replies fuel (i + 1))
      else some t

/-- The thread is at the label loop, nobody sends, and the index is zero. -/
structure AtLoop (s : Link) : Prop where
  reader : s.reader = .loop
  sender : s.sender = none
  STA : s.uart.USART_RX2_STA = 0

/-- The thread leaves the cycle and has sent at most one delete command in it. -/
def DeletesOnce (replies : ℕ → List UInt8) (s : Link) : Prop :=
  ∃ fuel t, cycle replies fuel 0 s = some t ∧
    (t.sent.drop s.sent.length).count deleteAll ≤ 1

/-! ### One turn of the cycle -/

/-- While the mailbox is full the thread sends the delete command. -/
theorem GSM_read_thread_full {s : Link} (hpc : s.reader = .loop)
    (hfull : mailboxFull s.uart = true) :
    GSM_read_thread s = some { s with reader := .waitDelete, sent := s.sent ++ [deleteAll] } := by
  rw [mailboxFull] at hfull
  rw [GSM_read_thread, hpc]
  dsimp only
  cases hfound : strstr (bytes "+CMTI:") (string s.uart 0) with
  | none =>
    rw [hfound] at hfull
    exact absurd hfull (by simp)
  | some rest =>
    rw [hfound] at hfull
    dsimp only at hfull ⊢
    rw [if_pos (of_decide_eq_true hfull)]
    rfl

/-- Otherwise it leaves the cycle without a delete command. -/
theorem GSM_read_thread_not_full {s : Link} (hpc : s.reader = .loop)
    (hfull : mailboxFull s.uart = false) :
    ∃ t, GSM_read_thread s = some t ∧ (t.reader = .LOOP ∨ t.reader = .waitFirst) ∧
      ∃ commands, t.sent = s.sent ++ commands ∧ deleteAll ∉ commands := by
  rw [mailboxFull] at hfull
  rw [GSM_read_thread, hpc]
  dsimp only
  cases hfound : strstr (bytes "+CMTI:") (string s.uart 0) with
  | none => exact ⟨_, rfl, Or.inl rfl, [], (List.append_nil _).symm, List.not_mem_nil⟩
  | some rest =>
    rw [hfound] at hfull
    dsimp only at hfull ⊢
    rw [if_neg (of_decide_eq_false hfull)]
    refine ⟨_, rfl, Or.inr rfl, [_], rfl, fun hmem => ?_⟩
    have hsame := congrArg (List.take 8) (List.mem_singleton.mp hmem)
    have hdelete : deleteAll.take 8 = bytes "AT+CMGD=" := by decide
    have hread : ∀ index, (readCommand index).take 8 = bytes "AT+CMGR=" := by
      intro index
      rw [readCommand, List.append_assoc, show 8 = (bytes "AT+CMGR=").length by decide,
        List.take_left]
    rw [hdelete, hread] at hsame
    exact absurd hsame (by decide)

/-- Received bytes change the receiver only. -/
theorem run_bytes (s : Link) (reply : List UInt8) :
    run step s (reply.map Event.USART2_IRQHandler) =
      some { s with uart := receive reply s.uart } := by
  induction reply generalizing s with
  | nil => rfl
  | cons Res reply ih =>
    rw [List.map_cons, run]
    exact ih { s with uart := USART2_IRQHandler Res s.uart }

/-- A reply brings the waiting thread back to the loop, over the overwritten buffer. -/
theorem run_answer {s : Link} (hpc : s.reader = .waitDelete) (hsend : s.sender = none)
    (reply : List UInt8) :
    ∃ t, run step s (answer reply) = some t ∧ AtLoop t ∧ t.sent = s.sent ∧
      t.uart.USART_RX2_BUF = (receive reply s.uart).USART_RX2_BUF := by
  let u : Link := { s with uart := receive reply s.uart }
  have hreply : step (expire u) .readReply =
      some { acceptReply (expire u) with reader := .loop } := by
    have hcomplete : (expire u).uart.complete = true := by
      rw [expire_uart]
      exact complete_TIM5_IRQHandler _
    have hsender : (expire u).sender = none := (expire_sender u).trans hsend
    have hreader : (expire u).reader = .waitDelete := (expire_reader u).trans hpc
    rw [step, if_pos ⟨hsender, hcomplete⟩, readReply, hreader]
  refine ⟨{ acceptReply (expire u) with reader := .loop }, ?_, ?_, ?_, ?_⟩
  · refine run_append.mpr ⟨u, run_bytes s reply, run_cons.mpr ⟨expire u, rfl, ?_⟩⟩
    exact run_cons.mpr ⟨_, hreply, rfl⟩
  · exact ⟨rfl, (expire_sender u).trans hsend, rfl⟩
  · rw [acceptReply, expire]
    dsimp only
    split <;> rfl
  · rw [acceptReply, expire_uart]
    rfl

/-- The tests see the cells of the buffer only. -/
theorem mailboxFull_congr {u v : Uart} (h : u.USART_RX2_BUF = v.USART_RX2_BUF) :
    mailboxFull u = mailboxFull v := by
  have hstring : ∀ index, string u index = string v index := by
    intro index
    rw [string, string, h]
  rw [mailboxFull, mailboxFull, hstring]
  split <;> simp only [hstring]

/-- One turn of the cycle over a full mailbox. -/
theorem cycle_full (replies : ℕ → List UInt8) {s : Link} (h : AtLoop s)
    (hfull : mailboxFull s.uart = true) (i : ℕ) :
    ∃ t, (∀ fuel, cycle replies (fuel + 1) i s = cycle replies fuel (i + 1) t) ∧ AtLoop t ∧
      t.sent = s.sent ++ [deleteAll] ∧
      t.uart.USART_RX2_BUF = (receive (replies i) s.uart).USART_RX2_BUF := by
  let u : Link := { s with reader := .waitDelete, sent := s.sent ++ [deleteAll] }
  obtain ⟨t, hrun, hloop, hsent, hcells⟩ := run_answer (s := u) rfl h.sender (replies i)
  refine ⟨t, fun fuel => ?_, hloop, hsent, hcells⟩
  rw [cycle, GSM_read_thread_full h.reader hfull, Option.bind_some, if_pos rfl, hrun,
    Option.bind_some]

/-- The last turn of the cycle. -/
theorem cycle_not_full (replies : ℕ → List UInt8) {s : Link} (h : AtLoop s)
    (hfull : mailboxFull s.uart = false) (i : ℕ) :
    ∃ t, (∀ fuel, cycle replies (fuel + 1) i s = some t) ∧
      ∃ commands, t.sent = s.sent ++ commands ∧ deleteAll ∉ commands := by
  obtain ⟨t, ht, hpc, hsent⟩ := GSM_read_thread_not_full h.reader hfull
  refine ⟨t, fun fuel => ?_, hsent⟩
  have hleft : t.reader ≠ .waitDelete := by
    obtain hpc | hpc := hpc <;> simp [hpc]
  rw [cycle, ht, Option.bind_some, if_neg hleft]

/-- The cycle only adds commands. -/
theorem cycle_sent {replies : ℕ → List UInt8} {fuel i : ℕ} {s t : Link} (h : AtLoop s)
    (ht : cycle replies fuel i s = some t) : s.sent <+: t.sent := by
  induction fuel generalizing i s with
  | zero => exact absurd ht (by simp [cycle])
  | succ fuel ih =>
    cases hfull : mailboxFull s.uart with
    | true =>
      obtain ⟨u, hu, hloop, hsent, -⟩ := cycle_full replies h hfull i
      rw [hu] at ht
      exact (hsent ▸ List.prefix_append _ _).trans (ih hloop ht)
    | false =>
      obtain ⟨u, hu, commands, hsent, -⟩ := cycle_not_full replies h hfull i
      rw [hu] at ht
      cases ht
      exact hsent ▸ List.prefix_append _ _

/-! ### The whole cycle -/

/-- At most one delete command is sent, and the cycle is left, exactly if the
mailbox is not full or the first reply overwrites what says so. -/
theorem deletesOnce_iff_overwritten {replies : ℕ → List UInt8} {s : Link} (h : AtLoop s) :
    DeletesOnce replies s ↔
      (mailboxFull s.uart = true → mailboxFull (receive (replies 0) s.uart) = false) := by
  cases hfull : mailboxFull s.uart with
  | false =>
    obtain ⟨t, ht, commands, hsent, hnot⟩ := cycle_not_full replies h hfull 0
    refine iff_of_true ⟨1, t, ht 0, ?_⟩ (by simp)
    rw [hsent, List.drop_left, List.count_eq_zero.mpr hnot]
    exact Nat.zero_le 1
  | true =>
    obtain ⟨t, ht, hloop, hsent, hcells⟩ := cycle_full replies h hfull 0
    rw [← mailboxFull_congr hcells]
    cases hagain : mailboxFull t.uart with
    | false =>
      obtain ⟨v, hv, commands, hsent', hnot⟩ := cycle_not_full replies hloop hagain 1
      refine iff_of_true ⟨2, v, (ht 1).trans (hv 0), ?_⟩ (by simp)
      rw [hsent', hsent, List.append_assoc, List.drop_left, List.count_append,
        List.count_eq_zero.mpr hnot]
      rw [Nat.add_zero, List.count_singleton_self]
    | true =>
      refine iff_of_false ?_ (by simp)
      rintro ⟨fuel, v, hv, hcount⟩
      obtain ⟨w, hw, hloop', hsent', -⟩ := cycle_full replies hloop hagain 1
      cases fuel with
      | zero => exact absurd hv (by simp [cycle])
      | succ fuel =>
        rw [ht] at hv
        cases fuel with
        | zero => exact absurd hv (by simp [cycle])
        | succ fuel =>
          rw [hw] at hv
          obtain ⟨more, hmore⟩ := cycle_sent hloop' hv
          rw [← hmore, hsent', hsent, List.append_assoc, List.append_assoc, List.drop_left,
            List.count_append, List.count_append] at hcount
          rw [List.count_singleton_self] at hcount
          omega

/-- A woken thread sends at most one delete command exactly if the notified
mailbox is not full or the first reply overwrites what says so. -/
theorem deletesOnce_iff (replies : ℕ → List UInt8) {s : Link} (h : AtLoop s) :
    DeletesOnce replies s ↔
      ¬(mailboxFull s.uart = true ∧ mailboxFull (receive (replies 0) s.uart) = true) := by
  rw [deletesOnce_iff_overwritten h, not_and, Bool.not_eq_true]

theorem atLoop_woken (text : List UInt8) : AtLoop (woken text) := ⟨rfl, rfl, rfl⟩

/-- A notification of index 99 that follows a ring in the same burst is not
reached by the usual reply. -/
theorem not_deletesOnce_after_ring :
    ¬∀ replies s, (∀ i, replies i ≠ []) → AtLoop s → DeletesOnce replies s := by
  intro h
  have hloop := atLoop_woken (bytes "\r\nRING\r\n\r\n+CMTI: \"SM\",99\r\n")
  have honce := h (fun _ => bytes "\r\nOK\r\n") _ (fun _ => by decide) hloop
  exact absurd ((deletesOnce_iff_overwritten hloop).mp honce) (by decide +kernel)

/-- A reply that reaches into the notification ends the cycle. -/
theorem deletesOnce_OK :
    DeletesOnce (fun _ => bytes "\r\nOK\r\n") (woken (bytes "\r\n+CMTI: \"SM\",99\r\n")) :=
  (deletesOnce_iff _ (atLoop_woken _)).mpr (by decide +kernel)

/-! ### Replies that do not reach the notification -/

/-- A notification of a full mailbox stands behind at least some bytes of the text. -/
structure Behind (gap : ℕ) (u : Uart) (lead rest : List UInt8) : Prop where
  shown : Shows u (lead ++ rest)
  gap : gap ≤ lead.length
  found : strstr (bytes "+CMTI:") (lead ++ rest) = some rest
  index : 12 ≤ rest.length
  full : 0 ≤ strcmp (rest.drop 12) (bytes "99")

/-- A reply without a terminator and without the byte a notification begins
with, no longer than the gap. -/
structure Short (gap : ℕ) (reply : List UInt8) : Prop where
  length : reply.length ≤ gap
  bytes : ∀ c ∈ reply, c ≠ 0 ∧ c ≠ 43

/-- Bytes that do not begin the pattern are passed over. -/
theorem strstr_append_of_ne {p : UInt8} {pattern lead : List UInt8} (h : ∀ c ∈ lead, c ≠ p)
    (rest : List UInt8) : strstr (p :: pattern) (lead ++ rest) = strstr (p :: pattern) rest := by
  induction lead with
  | nil => rfl
  | cons c lead ih =>
    rw [List.forall_mem_cons] at h
    rw [List.cons_append, strstr, if_neg (by simp [List.isPrefixOf, h.1.symm]), ih h.2]

/-- Bytes before the first occurrence may be dropped. -/
theorem strstr_drop {pattern lead rest : List UInt8}
    (h : strstr pattern (lead ++ rest) = some rest) (k : ℕ) :
    strstr pattern (lead.drop k ++ rest) = some rest := by
  induction lead generalizing k with
  | nil =>
    rw [List.drop_nil]
    exact h
  | cons c lead ih =>
    cases k with
    | zero => exact h
    | succ k =>
      rw [List.drop_succ_cons]
      refine ih ?_ k
      rw [List.cons_append, strstr] at h
      split at h
      · have hlen := congrArg List.length (Option.some.inj h)
        rw [List.length_cons, List.length_append] at hlen
        omega
      · exact h

/-- A notification behind some bytes says that the mailbox is full. -/
theorem Behind.mailboxFull {gap : ℕ} {u : Uart} {lead rest : List UInt8}
    (h : Behind gap u lead rest) : mailboxFull u = true := by
  have htext : string u 0 = lead ++ rest := h.shown.string_eq (Nat.zero_le _)
  have hindex := h.index
  rw [DeleteCycle.mailboxFull, htext, h.found]
  dsimp only
  rw [h.shown.string_eq (by rw [List.length_append]; omega), drop_of_strstr h.found]
  exact decide_eq_true h.full

/-- A short reply leaves the notification in its place. -/
theorem Behind.receive {gap : ℕ} {u : Uart} {lead rest reply : List UInt8}
    (h : Behind gap u lead rest) (hSTA : u.USART_RX2_STA = 0) (hreply : Short gap reply) :
    Behind gap (receive reply u) (reply ++ lead.drop reply.length) rest := by
  have hle := hreply.length.trans h.gap
  have hshown := h.shown.receive hSTA (by rw [List.length_append]; omega)
    fun c hc => (hreply.bytes c hc).1
  rw [List.drop_append_of_le_length hle, ← List.append_assoc] at hshown
  constructor
  · exact hshown
  · rw [List.length_append, List.length_drop, Nat.add_sub_cancel' hle]
    exact h.gap
  · have hpattern : bytes "+CMTI:" = 43 :: bytes "CMTI:" := by decide
    have hfound := strstr_drop h.found reply.length
    rw [hpattern] at hfound ⊢
    rw [List.append_assoc, strstr_append_of_ne fun c hc => (hreply.bytes c hc).2]
    exact hfound
  · exact h.index
  · exact h.full

/-- While no reply reaches the notification the thread deletes again and again. -/
theorem cycle_never_ends {replies : ℕ → List UInt8} {gap : ℕ}
    (hreplies : ∀ i, Short gap (replies i)) {s : Link} {lead rest : List UInt8} (h : AtLoop s)
    (hbehind : Behind gap s.uart lead rest) (fuel i : ℕ) : cycle replies fuel i s = none := by
  induction fuel generalizing s lead i with
  | zero => rfl
  | succ fuel ih =>
    obtain ⟨t, ht, hloop, -, hcells⟩ := cycle_full replies h hbehind.mailboxFull i
    have hnext := hbehind.receive h.STA (hreplies i)
    have hshown : Shows t.uart (replies i ++ lead.drop (replies i).length ++ rest) :=
      ⟨hnext.shown.room, hnext.shown.nonzero, fun j hj => hcells ▸ hnext.shown.cells j hj,
        hcells ▸ hnext.shown.terminator⟩
    rw [ht]
    exact ih hloop ⟨hshown, hnext.gap, hnext.found, hnext.index, hnext.full⟩ (i + 1)

end SmartHome.DeleteCycle
