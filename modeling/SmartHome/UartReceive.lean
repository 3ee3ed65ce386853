import Mathlib.Logic.Function.Basic
import Mathlib.Data.Nat.Bitwise
import SmartHome.MachineWords
import SmartHome.TransitionRuns

/-!
# The UART2 receive buffer and its completion flag

USART_RX2_STA is the write index while a burst arrives and 0x8000 once TIM5
has expired after it. The byte interrupt, the expiry and the consumers that
clear the word are separate atomic events in any order; an expiry is allowed
at any time, also when the timer is stopped. The UART interrupt may preempt
the timer interrupt, which then acts as if one had run after the other.
-/

namespace SmartHome.UartReceive

open MachineWords TransitionRuns

/-- Length of the receive buffer. -/
def USART_REC_LEN : ℕ := 1024

/-- What the two interrupt handlers read and write. -/
structure Uart where
  /-- Buffer cells; those from USART_REC_LEN on are the memory behind it. -/
  USART_RX2_BUF : ℕ → UInt8
  /-- Completion flag and write index in one 16-bit word. -/
  USART_RX2_STA : ℕ
  /-- Activity lamp output. -/
  RED_LED : Bool

/-- The test USART_RX2_STA & 0x8000 of the consumers. -/
def Uart.complete (u : Uart) : Bool := u.USART_RX2_STA.testBit 15

/-- Store a received byte and advance the index. -/
def USART2_IRQHandler (Res : UInt8) (u : Uart) : Uart :=
  let STA := uint16_t (u.USART_RX2_STA + 1)
  { RED_LED := !u.RED_LED,
    USART_RX2_BUF := Function.update u.USART_RX2_BUF (u.USART_RX2_STA % 0x8000) Res,
    USART_RX2_STA := if STA > USART_REC_LEN - 1 then 0 else STA }

/-- Mark the burst in the buffer as complete. -/
def TIM5_IRQHandler (u : Uart) : Uart := { u with USART_RX2_STA := 0x8000, RED_LED := true }

/-- The first n bytes of the buffer. -/
def Uart.bytes (u : Uart) (n : ℕ) : List UInt8 := (List.range n).map u.USART_RX2_BUF

/-- The receiver with the frame that was completed and not yet cleared. -/
structure Receiver where
  uart : Uart
  /-- Bytes of the frame at its completion. -/
  frame : Option (List UInt8)

/-- The events that touch the receive word. -/
inductive Event where
  | USART2_IRQHandler (Res : UInt8)
  | TIM5_IRQHandler
  /-- A consumer executes USART_RX2_STA = 0. -/
  | clear
  deriving DecidableEq, Repr

/-- Effect of one event; a frame stays noted until a consumer clears it. -/
def step (s : Receiver) : Event → Option Receiver
  | .USART2_IRQHandler Res => some { s with uart := USART2_IRQHandler Res s.uart }
  | .TIM5_IRQHandler =>
    some { uart := TIM5_IRQHandler s.uart,
           frame := s.frame <|> some (s.uart.bytes s.uart.USART_RX2_STA) }
  | .clear => some { uart := { s.uart with USART_RX2_STA := 0 }, frame := none }

/-- The zeroed receive word over any buffer contents. -/
def start (buffer : ℕ → UInt8) (lamp : Bool) : Receiver := ⟨⟨buffer, 0, lamp⟩, none⟩

/-- A completed frame is still flagged and its bytes are still in place. -/
def Receiver.Kept (s : Receiver) : Prop :=
  ∀ frame ∈ s.frame, s.uart.complete = true ∧ s.uart.bytes frame.length = frame

instance (s : Receiver) : Decidable s.Kept :=
  inferInstanceAs (Decidable (∀ frame ∈ s.frame, _))

/-- No byte is received while the completion flag is set. -/
def Quiet (s : Receiver) (e : Event) : Prop :=
  ∀ Res, e = .USART2_IRQHandler Res → s.uart.complete = false

/-- Kept, and a frame that is not noted is still being received. -/
structure Receiver.Coherent (s : Receiver) : Prop where
  kept : s.Kept
  receiving : s.frame = none → s.uart.USART_RX2_STA < USART_REC_LEN

/-- A write index has the completion flag off. -/
theorem complete_of_lt {u : Uart} (h : u.USART_RX2_STA < USART_REC_LEN) : u.complete = false :=
  Nat.testBit_lt_two_pow (h.trans (by decide))

/-- An index below the buffer length stays below it. -/
theorem USART2_IRQHandler_lt (Res : UInt8) (u : Uart) :
    (USART2_IRQHandler Res u).USART_RX2_STA < USART_REC_LEN := by
  unfold USART2_IRQHandler
  dsimp only
  split
  · decide
  · unfold USART_REC_LEN at *
    omega

/-- The completion flag is off after every byte interrupt. -/
theorem complete_USART2_IRQHandler (Res : UInt8) (u : Uart) :
    (USART2_IRQHandler Res u).complete = false :=
  complete_of_lt (USART2_IRQHandler_lt Res u)

/-- The completion flag is on after every expiry. -/
theorem complete_TIM5_IRQHandler (u : Uart) : (TIM5_IRQHandler u).complete = true := by
  show Nat.testBit 0x8000 15 = true
  decide

theorem USART_REC_LEN_pos : 0 < USART_REC_LEN := by decide

/-- Expiry completes the frame received so far. -/
theorem kept_of_expiry (u : Uart) :
    Receiver.Kept ⟨TIM5_IRQHandler u, some (u.bytes u.USART_RX2_STA)⟩ := by
  intro frame hframe
  rw [Option.mem_some_iff] at hframe
  subst hframe
  refine ⟨complete_TIM5_IRQHandler u, ?_⟩
  rw [show (u.bytes u.USART_RX2_STA).length = u.USART_RX2_STA by simp [Uart.bytes]]
  rfl

/-- A quiet event keeps the receiver coherent. -/
theorem coherent_step {s : Receiver} {e : Event} {t : Receiver} (hs : s.Coherent)
    (hq : Quiet s e) (ht : step s e = some t) : t.Coherent := by
  cases e with
  | USART2_IRQHandler Res =>
    simp only [step, Option.some.injEq] at ht
    subst ht
    have hoff := hq Res rfl
    refine ⟨fun frame hframe => ?_, fun _ => USART2_IRQHandler_lt Res s.uart⟩
    rw [(hs.kept frame hframe).1] at hoff
    exact absurd hoff (by decide)
  | TIM5_IRQHandler =>
    simp only [step, Option.some.injEq] at ht
    subst ht
    cases hf : s.frame with
    | none => exact ⟨kept_of_expiry s.uart, fun h => absurd h (by simp)⟩
    | some frame =>
      refine ⟨fun frame' hframe' => ⟨complete_TIM5_IRQHandler _, ?_⟩, fun h => absurd h (by simp)⟩
      exact (hs.kept frame' (hf ▸ hframe')).2
  | clear =>
    simp only [step, Option.some.injEq] at ht
    subst ht
    exact ⟨fun frame hframe => absurd hframe (by simp), fun _ => USART_REC_LEN_pos⟩

/-- A byte received over a completed frame loses its flag. -/
theorem not_kept_of_byte {s : Receiver} {e : Event} {t : Receiver} (hs : s.Coherent)
    (hq : ¬Quiet s e) (ht : step s e = some t) : ¬t.Kept := by
  intro hkept
  apply hq
  rintro Res rfl
  simp only [step, Option.some.injEq] at ht
  subst ht
  cases hf : s.frame with
  | none => exact complete_of_lt (hs.receiving hf)
  | some frame =>
    have hflag := (hkept frame hf).1
    rw [complete_USART2_IRQHandler] at hflag
    exact absurd hflag (by decide)

/-- Along every sequence of interrupts and clears, completed frames are kept
exactly as long as no byte arrives while the completion flag is set. -/
theorem kept_iff_quiet (buffer : ℕ → UInt8) (lamp : Bool) (es : List Event) :
    Always Receiver.Kept step (start buffer lamp) es ↔ Guarded Quiet step (start buffer lamp) es :=
  always_iff_guarded (I := Receiver.Coherent) (fun _ h => h.kept)
    (fun _ _ _ hs hq ht => coherent_step hs hq ht) (fun _ _ _ hs hq ht => not_kept_of_byte hs hq ht)
    es ⟨fun frame hframe => absurd hframe (by simp [start]), fun _ => USART_REC_LEN_pos⟩

/-- One byte after a completed one-byte frame loses the frame. -/
theorem not_kept_after_late_byte :
    ¬∀ es, Always Receiver.Kept step (start (fun _ => 0) true) es := by
  intro h
  have hall := h [.USART2_IRQHandler 65, .TIM5_IRQHandler, .USART2_IRQHandler 66]
  have hlast := (((hall.2 _ rfl).2 _ rfl).2 _ rfl).head
  exact absurd hlast (by decide)

end SmartHome.UartReceive
