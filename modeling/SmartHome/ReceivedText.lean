import SmartHome.ModemLink

/-!
# Text in the receive buffer

A burst of nonzero bytes received over a zeroed buffer stands there as a
terminated string. The two predicates below follow it from the zeroed buffer
to the completed burst, and the strings read back are its suffixes.
-/

namespace SmartHome.ReceivedText

open ByteStrings MachineWords ModemLink UartReceive

/-- The bytes received so far are text, and the buffer behind them is zero. -/
structure Fresh (u : Uart) : Prop where
  room : u.USART_RX2_STA < USART_REC_LEN
  text : ∀ i < u.USART_RX2_STA, u.USART_RX2_BUF i ≠ 0
  zero : ∀ i, u.USART_RX2_STA ≤ i → i < USART_REC_LEN → u.USART_RX2_BUF i = 0

/-- The buffer holds a text with zeros behind it. -/
structure Holds (u : Uart) (text : List UInt8) : Prop where
  room : text.length < USART_REC_LEN
  nonzero : ∀ c ∈ text, c ≠ 0
  cells : ∀ i < USART_REC_LEN, u.USART_RX2_BUF i = text.getD i 0

/-- Only the cells of the buffer matter. -/
theorem Holds.of_cells {u v : Uart} {text : List UInt8} (h : Holds u text)
    (hcells : v.USART_RX2_BUF = u.USART_RX2_BUF) : Holds v text :=
  ⟨h.room, h.nonzero, fun i hi => (congrFun hcells i).trans (h.cells i hi)⟩

/-- A buffer that is received afresh has the flag off. -/
theorem Fresh.not_complete {u : Uart} (h : Fresh u) : u.complete = false := complete_of_lt h.room

/-- Zeroing the buffer at index zero makes it fresh. -/
theorem fresh_clearBuffer {u : Uart} (hSTA : u.USART_RX2_STA = 0) : Fresh (clearBuffer u) where
  room := hSTA ▸ USART_REC_LEN_pos
  text i hi := absurd hi (by simp [clearBuffer, hSTA])
  zero i _ hi := if_pos hi

/-- A text byte that does not fill the buffer keeps it fresh. -/
theorem Fresh.byte {u : Uart} {Res : UInt8} (h : Fresh u) (hRes : Res ≠ 0)
    (hroom : u.USART_RX2_STA + 1 < USART_REC_LEN) : Fresh (USART2_IRQHandler Res u) := by
  have hindex : u.USART_RX2_STA % 0x8000 = u.USART_RX2_STA := by
    unfold USART_REC_LEN at hroom
    omega
  have hnext : (USART2_IRQHandler Res u).USART_RX2_STA = u.USART_RX2_STA + 1 := by
    unfold USART2_IRQHandler uint16_t USART_REC_LEN at *
    dsimp only
    rw [if_neg (by omega)]
    omega
  have hcell : ∀ i, (USART2_IRQHandler Res u).USART_RX2_BUF i =
      if i = u.USART_RX2_STA then Res else u.USART_RX2_BUF i := by
    intro i
    simp only [USART2_IRQHandler, hindex, Function.update_apply]
  refine ⟨hnext ▸ hroom, fun i hi => ?_, fun i hi hlen => ?_⟩
  · rw [hcell]
    split
    · exact hRes
    · exact h.text i (by omega)
  · rw [hcell, if_neg (by omega)]
    exact h.zero i (by omega) hlen

/-- A fresh buffer holds the bytes received so far. -/
theorem Fresh.holds {u : Uart} (h : Fresh u) : Holds u (u.bytes u.USART_RX2_STA) where
  room := by simpa [Uart.bytes] using h.room
  nonzero c hc := by
    obtain ⟨i, hi, rfl⟩ := List.mem_map.mp hc
    exact h.text i (List.mem_range.mp hi)
  cells i hi := by
    by_cases hin : i < u.USART_RX2_STA
    · simp [Uart.bytes, List.getD_eq_getElem?_getD, hin]
    · rw [h.zero i (not_lt.mp hin) hi]
      simp [Uart.bytes, List.getD_eq_getElem?_getD, hin]

/-- The string at an index is the rest of the text there. -/
theorem Holds.string_eq {u : Uart} {text : List UInt8} (h : Holds u text) (k : ℕ) :
    string u k = text.drop k := by
  have hcells : (List.range' k (USART_REC_LEN - k)).map u.USART_RX2_BUF =
      text.drop k ++ List.replicate (USART_REC_LEN - k - (text.length - k)) 0 := by
    have hroom := h.room
    apply List.ext_getElem
    · simp
      omega
    · intro i hi _
      simp only [List.length_map, List.length_range'] at hi
      simp only [List.getElem_map, List.getElem_range', one_mul]
      rw [h.cells _ (by omega), List.getElem_append, List.getD_eq_getElem?_getD]
      split
      · rename_i hlt
        rw [List.length_drop] at hlt
        simp [List.getElem?_eq_getElem (show k + i < text.length by omega)]
      · rename_i hge
        rw [List.length_drop] at hge
        simp [List.getElem?_eq_none (show text.length ≤ k + i by omega)]
  unfold string
  rw [hcells, List.takeWhile_append_of_pos]
  · simp
  · intro c hc
    simpa using h.nonzero c (List.mem_of_mem_drop hc)

end SmartHome.ReceivedText
