import SmartHome.Mailboxes
import SmartHome.StaleFrames

/-!
# The answer to a short message

After the second reply GSM_read_thread searches the received text for its
commands, one after another with the same pointer, and posts a mail to the
message sending thread. Every text gets one answer, and a mode is entered only
for the command that names it.
-/

namespace SmartHome.MessageAnswers

open ByteStrings HomePanel Mailboxes ModemLink StaleFrames
open UartReceive (Uart USART_REC_LEN)

/-- The panel and the mailbox of the message sending thread. -/
structure Centre where
  panel : Panel
  GSM_mq_send : Mailbox GSMMail 4

/-- Post a mail to the message sending thread. -/
def Centre.rt_mb_send (s : Centre) (mail : GSMMail) : Centre :=
  { s with GSM_mq_send := s.GSM_mq_send.send mail }

/-- Enter a mode and silence the alarm. -/
def Centre.enterMode (s : Centre) (mode : Mode) (label : String) : Centre :=
  { s with panel := { s.panel with
      sys_status := mode, modeText := label, BEEP := false, RED_LED := true } }

/-- GSM_read_thread from the second reply on to the label LOOP. -/
def answerMessage (u : Uart) (s : Centre) : Centre :=
  let pt := strstr (bytes "report status") (string u 0)
  if pt ≠ none then s.rt_mb_send .report_status
  else
    let pt := strstr (bytes "home") (string u 0)
    if pt ≠ none then
      let s := s.enterMode .HOME " Home "
      if s.panel.sys_status = .HOME then s.rt_mb_send .set_ok else s.rt_mb_send .set_Err
    else
      let pt := strstr (bytes "out") (string u 0)
      if pt ≠ none then
        let s := s.enterMode .OUT " OUT "
        if s.panel.sys_status = .OUT then s.rt_mb_send .set_ok else s.rt_mb_send .set_Err
      else if pt = none then s.rt_mb_send .tips
      else s

/-- The answer a text asks for, and the mode it names. -/
def wanted (text : List UInt8) : GSMMail × Option Mode :=
  if bytes "report status" <:+: text then (.report_status, none)
  else if bytes "home" <:+: text then (.set_ok, some .HOME)
  else if bytes "out" <:+: text then (.set_ok, some .OUT)
  else (.tips, none)

/-- The text has got its answer, one mail, and the mode is the one it names.
Without a mode the working mode, the buzzer and the red output are as before. -/
structure Answered (text : List UInt8) (s t : Centre) : Prop where
  mail : t.GSM_mq_send.mails = s.GSM_mq_send.mails ++ [(wanted text).1]
  mode : ∀ mode ∈ (wanted text).2, t.panel.sys_status = mode
  kept : (wanted text).2 = none → t.panel.sys_status = s.panel.sys_status ∧
    t.panel.BEEP = s.panel.BEEP ∧ t.panel.RED_LED = s.panel.RED_LED

/-- The dispatch answers as the panel does for the shown text. -/
theorem answerMessage_eq {u : Uart} {text : List UInt8} (h : Shows u text) (s : Centre) :
    answerMessage u s =
      ⟨(answerSMS text s.panel).1, s.GSM_mq_send.send (answerSMS text s.panel).2⟩ := by
  have htext : string u 0 = text := h.string_eq (Nat.zero_le _)
  rw [answerMessage, answerSMS, htext]
  dsimp only
  simp only [ne_eq, ← Option.not_isSome_iff_eq_none, not_not]
  split
  · rfl
  · split
    · rfl
    · split
      · rfl
      · rfl

/-- An answer without a mode posts its mail and leaves the panel as it is. -/
theorem Answered.of_mail {text : List UInt8} {mail : GSMMail} (h : wanted text = (mail, none))
    {s : Centre} (hroom : s.GSM_mq_send.mails.length < 4) :
    Answered text s ⟨s.panel, s.GSM_mq_send.send mail⟩ := by
  constructor
  · rw [h]
    exact Mailbox.send_mails_of_lt mail hroom
  · rw [h]
    exact fun mode hmode => absurd hmode (Option.not_mem_none mode)
  · exact fun _ => ⟨rfl, rfl, rfl⟩

/-- A mode that is entered is confirmed. -/
theorem Answered.of_mode {text : List UInt8} {mode : Mode}
    (h : wanted text = (.set_ok, some mode)) {s : Centre}
    (hroom : s.GSM_mq_send.mails.length < 4) {panel : Panel} (hmode : panel.sys_status = mode) :
    Answered text s ⟨panel, s.GSM_mq_send.send .set_ok⟩ := by
  constructor
  · rw [h]
    exact Mailbox.send_mails_of_lt .set_ok hroom
  · rw [h]
    exact fun named hnamed => hmode.trans (Option.some.inj hnamed)
  · rw [h]
    exact fun hnone => absurd hnone (Option.some_ne_none _)

/-- Every text that has been received while the mailbox has room gets exactly
the answer it asks for. -/
theorem answerMessage_answered {u : Uart} {text : List UInt8} (h : Shows u text) {s : Centre}
    (hroom : s.GSM_mq_send.mails.length < 4) : Answered text s (answerMessage u s) := by
  rw [answerMessage_eq h, answerSMS]
  simp only [strstr_isSome_iff]
  by_cases hreport : bytes "report status" <:+: text
  · have hwanted : wanted text = (.report_status, none) := if_pos hreport
    rw [if_pos hreport]
    exact .of_mail hwanted hroom
  · rw [if_neg hreport]
    by_cases hhome : bytes "home" <:+: text
    · have hwanted : wanted text = (.set_ok, some .HOME) :=
        (if_neg hreport).trans (if_pos hhome)
      rw [if_pos hhome]
      exact .of_mode hwanted hroom rfl
    · rw [if_neg hhome]
      by_cases hout : bytes "out" <:+: text
      · have hwanted : wanted text = (.set_ok, some .OUT) :=
          (if_neg hreport).trans ((if_neg hhome).trans (if_pos hout))
        rw [if_pos hout]
        exact .of_mode hwanted hroom rfl
      · have hwanted : wanted text = (.tips, none) :=
          (if_neg hreport).trans ((if_neg hhome).trans (if_neg hout))
        rw [if_neg hout]
        exact .of_mail hwanted hroom

/-- A text that asks for the report and names a mode gets the report. -/
theorem answered_report_home :
    Answered (bytes "home, report status") ⟨Smart_IOT_Center, Mailbox.empty⟩
      (answerMessage (holding (bytes "home, report status")) ⟨Smart_IOT_Center, Mailbox.empty⟩) :=
  answerMessage_answered (shows_holding (by decide) (by decide)) (by decide)

end SmartHome.MessageAnswers
