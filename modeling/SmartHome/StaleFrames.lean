import SmartHome.ModemLink

/-!
# What the receive buffer shows after a burst

USART2_IRQHandler stores neither a terminator nor a length. A burst that is
received over a buffer that was not cleared shows as what was sent only if the
cell behind its last byte is zero. Here bursts are received one after another
and each is followed by a consumer that clears the flag but not the buffer.
-/

namespace SmartHome.StaleFrames

open ModemLink MachineWords UartReceive

/-- The buffer begins with a text and its terminator. -/
structure Shows (u : Uart) (text : List UInt8) : Prop where
  room : text.length < USART_REC_LEN
  nonzero : ∀ c ∈ text, c ≠ 0
  cells : ∀ i < text.length, u.USART_RX2_BUF i = text.getD i 0
  terminator : u.USART_RX2_BUF text.length = 0

/-- Bytes that arrive one after another. -/
def receive (bytes : List UInt8) (u : Uart) : Uart :=
  bytes.foldl (fun u Res => USART2_IRQHandler Res u) u

/-- A consumer sets USART_RX2_STA to zero. -/
def clearSTA (u : Uart) : Uart := { u with USART_RX2_STA := 0 }

/-- A burst as the modem sends it. -/
structure Burst where
  bytes : List UInt8
  nonempty : bytes ≠ []
  fits : bytes.length ≤ USART_REC_LEN
  nonzero : ∀ c ∈ bytes, c ≠ 0

/-- The bytes of a burst arrive and the timer expires after them. -/
def Burst.arrive (b : Burst) (u : Uart) : Uart := TIM5_IRQHandler (receive b.bytes u)

/-- At its completion each burst shows as what was sent. -/
def ReadsBack : Uart → List Burst → Prop
  | _, [] => True
  | u, b :: bs => Shows (b.arrive u) b.bytes ∧ ReadsBack (clearSTA (b.arrive u)) bs

/-- The index is zero, some cells are used and the rest of the buffer is zero. -/
structure Used (u : Uart) (length : ℕ) : Prop where
  STA : u.USART_RX2_STA = 0
  room : length < USART_REC_LEN
  used : ∀ i < length, u.USART_RX2_BUF i ≠ 0
  free : ∀ i, length ≤ i → i < USART_REC_LEN → u.USART_RX2_BUF i = 0

/-! ### The string that is shown -/

/-- The string at an index of the shown text is the rest of the text. -/
theorem Shows.string_eq {u : Uart} {text : List UInt8} (h : Shows u text) {k : ℕ}
    (hk : k ≤ text.length) : string u k = text.drop k := by
  have hroom := h.room
  have hsplit : List.range' k (USART_REC_LEN - k) =
      List.range' k (text.length - k) ++
        text.length :: List.range' (text.length + 1) (USART_REC_LEN - text.length - 1) := by
    rw [← List.range'_succ, show USART_REC_LEN - text.length - 1 + 1 = USART_REC_LEN - text.length
      by omega]
    have happend := List.range'_append_1 (s := k) (m := text.length - k)
      (n := USART_REC_LEN - text.length)
    rw [show k + (text.length - k) = text.length by omega,
      show text.length - k + (USART_REC_LEN - text.length) = USART_REC_LEN - k by omega] at happend
    exact happend.symm
  have hcells : (List.range' k (text.length - k)).map u.USART_RX2_BUF = text.drop k := by
    apply List.ext_getElem
    · rw [List.length_map, List.length_range', List.length_drop]
    · intro i hi hi'
      rw [List.length_drop] at hi'
      rw [List.getElem_map, List.getElem_range', List.getElem_drop, one_mul,
        h.cells _ (by omega), List.getD_eq_getElem _ _ (by omega)]
  rw [string, hsplit, List.map_append, hcells, List.map_cons, h.terminator,
    List.takeWhile_append_of_pos (fun c hc => by simpa using h.nonzero c (List.mem_of_mem_drop hc)),
    List.takeWhile_cons_of_neg (by simp), List.append_nil]

/-- A zeroed buffer into which a text was received. -/
def holding (text : List UInt8) : Uart := ⟨fun i => text.getD i 0, 0, true⟩

theorem shows_holding {text : List UInt8} (hroom : text.length < USART_REC_LEN)
    (hzero : 0 ∉ text) : Shows (holding text) text where
  room := hroom
  nonzero _ hc := ne_of_mem_of_not_mem hc hzero
  cells _ _ := rfl
  terminator := List.getD_eq_default _ _ le_rfl

/-! ### Reception -/

theorem receive_cons (Res : UInt8) (bytes : List UInt8) (u : Uart) :
    receive (Res :: bytes) u = receive bytes (USART2_IRQHandler Res u) := rfl

/-- A byte is stored at the index, and the index goes on or starts again. -/
theorem USART2_IRQHandler_spec {u : Uart} (Res : UInt8) (h : u.USART_RX2_STA < USART_REC_LEN) :
    (USART2_IRQHandler Res u).USART_RX2_BUF =
        Function.update u.USART_RX2_BUF u.USART_RX2_STA Res ∧
      (USART2_IRQHandler Res u).USART_RX2_STA =
        if u.USART_RX2_STA + 1 = USART_REC_LEN then 0 else u.USART_RX2_STA + 1 := by
  rw [USART_REC_LEN] at h
  have hindex : u.USART_RX2_STA % 0x8000 = u.USART_RX2_STA := by omega
  have hnext : uint16_t (u.USART_RX2_STA + 1) = u.USART_RX2_STA + 1 := by
    rw [uint16_t]
    omega
  constructor
  · rw [USART2_IRQHandler, hindex]
  · rw [USART2_IRQHandler, hnext]
    dsimp only [USART_REC_LEN]
    exact if_congr (by omega) rfl rfl

/-- Bytes that fit behind the index are stored there in order. -/
theorem receive_cell (u : Uart) (bytes : List UInt8)
    (h : u.USART_RX2_STA + bytes.length ≤ USART_REC_LEN) (i : ℕ) :
    (receive bytes u).USART_RX2_BUF i =
      if u.USART_RX2_STA ≤ i ∧ i < u.USART_RX2_STA + bytes.length then
        bytes.getD (i - u.USART_RX2_STA) 0
      else u.USART_RX2_BUF i := by
  induction bytes generalizing u with
  | nil =>
    rw [if_neg (by simp)]
    rfl
  | cons Res bytes ih =>
    rw [List.length_cons] at h ⊢
    obtain ⟨hbuf, hSTA⟩ := USART2_IRQHandler_spec Res (u := u) (by omega)
    rw [receive_cons]
    by_cases hlast : u.USART_RX2_STA + 1 = USART_REC_LEN
    · have hnil : bytes = [] := List.eq_nil_of_length_eq_zero (by omega)
      subst hnil
      have hnone : (receive [] (USART2_IRQHandler Res u)).USART_RX2_BUF i =
          Function.update u.USART_RX2_BUF u.USART_RX2_STA Res i := congrFun hbuf i
      rw [hnone, Function.update_apply]
      by_cases hi : i = u.USART_RX2_STA
      · rw [if_pos hi, if_pos (by simp [hi]), hi, Nat.sub_self]
        rfl
      · rw [if_neg hi, if_neg (by simp; omega)]
    · rw [if_neg hlast] at hSTA
      rw [ih _ (by omega), hbuf, hSTA, Function.update_apply]
      by_cases hi : i = u.USART_RX2_STA
      · rw [if_neg (by omega), if_pos hi, if_pos (by omega), hi, Nat.sub_self]
        rfl
      · rw [if_neg hi]
        by_cases hin : u.USART_RX2_STA + 1 ≤ i ∧ i < u.USART_RX2_STA + 1 + bytes.length
        · rw [if_pos hin, if_pos (by omega),
            show i - u.USART_RX2_STA = i - (u.USART_RX2_STA + 1) + 1 by omega, List.getD_cons_succ]
        · rw [if_neg hin, if_neg (by omega)]

/-- Bytes at index zero overwrite the beginning of the buffer. -/
theorem receive_cell_of_zero {u : Uart} {bytes : List UInt8} (hSTA : u.USART_RX2_STA = 0)
    (hfits : bytes.length ≤ USART_REC_LEN) (i : ℕ) :
    (receive bytes u).USART_RX2_BUF i =
      if i < bytes.length then bytes.getD i 0 else u.USART_RX2_BUF i := by
  have hcell := receive_cell u bytes (by omega) i
  simp only [hSTA, Nat.zero_le, Nat.zero_add, true_and, Nat.sub_zero] at hcell
  exact hcell

theorem Burst.arrive_cell (b : Burst) {u : Uart} (h : u.USART_RX2_STA = 0) (i : ℕ) :
    (b.arrive u).USART_RX2_BUF i =
      if i < b.bytes.length then b.bytes.getD i 0 else u.USART_RX2_BUF i :=
  receive_cell_of_zero h b.fits i

/-- Bytes that are no more than the shown text show with the rest of it. -/
theorem Shows.receive {u : Uart} {text bytes : List UInt8} (h : Shows u text)
    (hSTA : u.USART_RX2_STA = 0) (hle : bytes.length ≤ text.length)
    (hnonzero : ∀ c ∈ bytes, c ≠ 0) :
    Shows (receive bytes u) (bytes ++ text.drop bytes.length) := by
  have hroom := h.room
  have hlen : (bytes ++ text.drop bytes.length).length = text.length := by
    rw [List.length_append, List.length_drop]
    omega
  have hcell := receive_cell_of_zero hSTA (hle.trans hroom.le)
  constructor
  · rw [hlen]
    exact hroom
  · intro c hc
    rw [List.mem_append] at hc
    cases hc with
    | inl hc => exact hnonzero c hc
    | inr hc => exact h.nonzero c (List.mem_of_mem_drop hc)
  · intro i hi
    rw [hlen] at hi
    rw [hcell]
    by_cases hin : i < bytes.length
    · rw [if_pos hin, List.getD_append _ _ _ _ hin]
    · rw [if_neg hin, List.getD_append_right _ _ _ _ (by omega), h.cells i hi,
        List.getD_eq_getElem?_getD, List.getD_eq_getElem?_getD, List.getElem?_drop,
        Nat.add_sub_cancel' (by omega)]
  · rw [hlen, hcell, if_neg (by omega)]
    exact h.terminator

/-! ### One burst after another -/

/-- Over used cells a burst shows as what was sent exactly if it reaches to
their end and leaves room for a terminator. -/
theorem Used.shows_iff {u : Uart} {length : ℕ} (h : Used u length) (b : Burst) :
    Shows (b.arrive u) b.bytes ↔ length ≤ b.bytes.length ∧ b.bytes.length < USART_REC_LEN := by
  constructor
  · intro hshows
    refine ⟨?_, hshows.room⟩
    by_contra hshort
    have hcell := b.arrive_cell h.STA b.bytes.length
    rw [if_neg (lt_irrefl _), hshows.terminator] at hcell
    exact h.used _ (by omega) hcell.symm
  · rintro ⟨hlong, hroom⟩
    constructor
    · exact hroom
    · exact b.nonzero
    · intro i hi
      rw [b.arrive_cell h.STA, if_pos hi]
    · rw [b.arrive_cell h.STA, if_neg (lt_irrefl _)]
      exact h.free _ hlong hroom

/-- A burst that shows as what was sent leaves its own length in use. -/
theorem Used.arrive {u : Uart} {length : ℕ} (h : Used u length) {b : Burst}
    (hlong : length ≤ b.bytes.length) (hroom : b.bytes.length < USART_REC_LEN) :
    Used (clearSTA (b.arrive u)) b.bytes.length := by
  constructor
  · rfl
  · exact hroom
  · intro i hi
    have hcell : (clearSTA (b.arrive u)).USART_RX2_BUF i = b.bytes.getD i 0 :=
      (b.arrive_cell h.STA i).trans (if_pos hi)
    rw [hcell, List.getD_eq_getElem _ _ hi]
    exact b.nonzero _ (List.getElem_mem hi)
  · intro i hi hlen
    have hcell : (clearSTA (b.arrive u)).USART_RX2_BUF i = u.USART_RX2_BUF i :=
      (b.arrive_cell h.STA i).trans (if_neg (by omega))
    rw [hcell]
    exact h.free i (by omega) hlen

/-- From used cells on every burst reads back exactly if each is shorter than
the buffer and none is shorter than those cells or than an earlier burst. -/
theorem Used.readsBack_iff {u : Uart} {length : ℕ} (h : Used u length) (bs : List Burst) :
    ReadsBack u bs ↔ (∀ b ∈ bs, length ≤ b.bytes.length) ∧
      (∀ b ∈ bs, b.bytes.length < USART_REC_LEN) ∧
        bs.Pairwise fun a b => a.bytes.length ≤ b.bytes.length := by
  induction bs generalizing u length with
  | nil => simp [ReadsBack]
  | cons b bs ih =>
    rw [ReadsBack, h.shows_iff, List.forall_mem_cons, List.forall_mem_cons, List.pairwise_cons]
    constructor
    · rintro ⟨⟨hlong, hroom⟩, hrest⟩
      obtain ⟨hle, hrooms, hpair⟩ := (ih (h.arrive hlong hroom)).mp hrest
      exact ⟨⟨hlong, fun c hc => hlong.trans (hle c hc)⟩, ⟨hroom, hrooms⟩, hle, hpair⟩
    · rintro ⟨⟨hlong, -⟩, ⟨hroom, hrooms⟩, hle, hpair⟩
      exact ⟨⟨hlong, hroom⟩, (ih (h.arrive hlong hroom)).mpr ⟨hle, hrooms, hpair⟩⟩

/-- The cleared buffer has no cell in use. -/
theorem used_clearBuffer (u : Uart) : Used (clearSTA (clearBuffer u)) 0 where
  STA := rfl
  room := USART_REC_LEN_pos
  used i hi := absurd hi (Nat.not_lt_zero i)
  free _ _ hlen := if_pos hlen

/-- After a cleared buffer every burst reads back exactly if all are shorter
than the buffer and none is shorter than an earlier one. -/
theorem readsBack_cleared_iff (u : Uart) (bs : List Burst) :
    ReadsBack (clearSTA (clearBuffer u)) bs ↔ (∀ b ∈ bs, b.bytes.length < USART_REC_LEN) ∧
      bs.Pairwise fun a b => a.bytes.length ≤ b.bytes.length := by
  rw [(used_clearBuffer u).readsBack_iff]
  simp

/-- A one-byte burst after a two-byte burst shows with the second byte of the other. -/
theorem not_readsBack_shorter :
    ¬∀ u bs, ReadsBack (clearSTA (clearBuffer u)) bs := by
  intro h
  let long : Burst := ⟨[65, 66], by decide, by decide, by simp⟩
  let short : Burst := ⟨[67], by decide, by decide, by simp⟩
  have hall := h ⟨fun _ => 0, 0, true⟩ [long, short]
  have hpair := ((used_clearBuffer _).readsBack_iff _).mp hall
  exact absurd (List.rel_of_pairwise_cons hpair.2.2 (List.mem_singleton_self short)) (by decide)

end SmartHome.StaleFrames
