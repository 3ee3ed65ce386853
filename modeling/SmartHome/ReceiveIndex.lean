import SmartHome.UartReceive

/-!
# The write index of the receive buffer

Between handlers the receive word is an index of the buffer or the completion
flag alone, whatever the order of bytes, expiries and clears. The flag is the
only word above the indices, and the index derived from it is 0.
-/

namespace SmartHome.ReceiveIndex

open MachineWords TransitionRuns UartReceive

/-- The receive word is an index of the buffer or the flag alone. -/
def IndexOrFlag (s : Receiver) : Prop :=
  s.uart.USART_RX2_STA < 1024 ∨ s.uart.USART_RX2_STA = 0x8000

instance (s : Receiver) : Decidable (IndexOrFlag s) := inferInstanceAs (Decidable (_ ∨ _))

/-- Every event leaves an index or the flag, whatever the word was before. -/
theorem indexOrFlag_step {s t : Receiver} {e : Event} (ht : step s e = some t) : IndexOrFlag t := by
  cases e with
  | USART2_IRQHandler Res =>
    rw [← Option.some.inj ht]
    exact Or.inl (USART2_IRQHandler_lt Res s.uart)
  | TIM5_IRQHandler =>
    rw [← Option.some.inj ht]
    exact Or.inr rfl
  | clear =>
    rw [← Option.some.inj ht]
    exact Or.inl (Nat.zero_lt_succ 1023)

/-- The cell a byte is stored in belongs to the buffer. -/
theorem IndexOrFlag.index_lt {s : Receiver} (h : IndexOrFlag s) :
    s.uart.USART_RX2_STA % 0x8000 < 1024 := by
  cases h with
  | inl hlt => exact (Nat.mod_le _ _).trans_lt hlt
  | inr hflag =>
    rw [hflag]
    decide

/-- The memory behind the buffer has not changed since the start. -/
def Untouched (buffer : ℕ → UInt8) (s : Receiver) : Prop :=
  ∀ i, 1024 ≤ i → s.uart.USART_RX2_BUF i = buffer i

theorem untouched_step {buffer : ℕ → UInt8} {s t : Receiver} {e : Event} (hs : IndexOrFlag s)
    (hbuffer : Untouched buffer s) (ht : step s e = some t) : Untouched buffer t := by
  intro i hi
  have hindex := hs.index_lt
  cases e with
  | USART2_IRQHandler Res =>
    rw [← Option.some.inj ht, ← hbuffer i hi]
    exact Function.update_of_ne (by omega) _ _
  | TIM5_IRQHandler =>
    rw [← Option.some.inj ht]
    exact hbuffer i hi
  | clear =>
    rw [← Option.some.inj ht]
    exact hbuffer i hi

/-- In every run the receive word stays an index or the flag, every byte is
stored at an index of the buffer, and nothing behind it is written. -/
theorem index_in_buffer (buffer : ℕ → UInt8) (lamp : Bool) (es : List Event) :
    Always (fun s => IndexOrFlag s ∧ s.uart.USART_RX2_STA % 0x8000 < 1024 ∧ Untouched buffer s)
      step (start buffer lamp) es := by
  refine always_of_invariant (I := fun s => IndexOrFlag s ∧ Untouched buffer s) ?_ ?_ es ?_
  · exact fun s hs => ⟨hs.1, hs.1.index_lt, hs.2⟩
  · exact fun s e t hs ht => ⟨indexOrFlag_step ht, untouched_step hs.1 hs.2 ht⟩
  · exact ⟨Or.inl USART_REC_LEN_pos, fun _ _ => rfl⟩

end SmartHome.ReceiveIndex
