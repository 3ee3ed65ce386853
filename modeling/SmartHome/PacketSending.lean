import Mathlib.Data.List.GetD
import SmartHome.EthernetLock
import SmartHome.MachineWords
import SmartHome.WordPacking

/-!
# The words of a sent packet

The loop of DM9000_SendPacket moves the payload of a chain of buffers byte by
byte; two bytes make a word and a byte may wait for its partner across the end
of a buffer. The words on the data port depend on the bytes of the packet only
and not on how they are split into buffers.
-/

namespace SmartHome.PacketSending

open EthernetLock MachineWords WordPacking

/-- The local variables of the loop and the words written so far. -/
structure Mover where
  /-- The buffers from the current one on. -/
  q : List (List UInt8)
  pbuf_index : ℕ
  word0 : UInt8
  word1 : UInt8
  word_index : ℕ
  DATA : List UInt16
  deriving DecidableEq, Repr

/-- The variables before the loop; word is not initialised. -/
def Mover.start (chain : List (List UInt8)) (word0 word1 : UInt8) : Mover :=
  ⟨chain, 0, word0, word1, 0, []⟩

/-- Take the next byte of a buffer, and write a word when there are two. -/
def Mover.take (s : Mover) (byte : UInt8) : Mover :=
  let s := if s.word_index = 0 then { s with word0 := byte } else { s with word1 := byte }
  let s := { s with word_index := s.word_index + 1, pbuf_index := uint16_t (s.pbuf_index + 1) }
  if s.word_index = 2 then
    { s with DATA := s.DATA ++ [s.word1.toUInt16 <<< 8 ||| s.word0.toUInt16], word_index := 0 }
  else s

/-- The loop over the chain. -/
def moveLoop : ℕ → Mover → Option Mover
  | 0, _ => none
  | fuel + 1, s =>
    match s.q with
    | [] => some s
    | q :: next =>
      if s.pbuf_index < q.length then moveLoop fuel (s.take (q.getD s.pbuf_index 0))
      else moveLoop fuel { s with q := next, pbuf_index := 0 }

/-- The accesses of DM9000_SendPacket up to the start of the transmission. -/
def load (p : Packet) (s : Mover) : List Op :=
  [.rt_sem_take] ++ DM9000_WriteReg DM9000_IMR IMR_PAR.toUInt16 ++ [.REG DM9000_MWCMD] ++
    (s.DATA ++ if s.word_index = 1 then [s.word0.toUInt16] else []).map Op.DATA ++
    DM9000_WriteReg DM9000_TXPLL (p.tot_len &&& 0xFF) ++
    DM9000_WriteReg DM9000_TXPLH ((p.tot_len >>> 8) &&& 0xFF) ++
    DM9000_WriteReg DM9000_TCR 0x01

/-- Values written to a register of the chip, given the register selected first. -/
def written (reg : UInt16) : UInt16 → List Op → List UInt16
  | _, [] => []
  | _, .REG value :: ops => written reg value ops
  | selected, .DATA value :: ops =>
    if selected = reg then value :: written reg selected ops else written reg selected ops
  | selected, _ :: ops => written reg selected ops

/-- Total length of the buffers of a packet. -/
def payloadLength (p : Packet) : ℕ := (p.chain.map List.length).sum

/-- The words for the packet are the packing of its bytes, and the length
registers have its length. -/
structure PackedExactly (p : Packet) (selected : UInt16) (ops : List Op) : Prop where
  count : (written DM9000_MWCMD selected ops).length = (p.tot_len.toNat + 1) / 2
  words : ∀ j, ((written DM9000_MWCMD selected ops).getD j 0).toNat =
    (p.chain.flatten.getD (2 * j) 0).toNat + 256 * (p.chain.flatten.getD (2 * j + 1) 0).toNat
  length : ∃ low high, written DM9000_TXPLL selected ops = [low] ∧
    written DM9000_TXPLH selected ops = [high] ∧ low.toNat < 256 ∧ high.toNat < 256 ∧
      low.toNat + 256 * high.toNat = p.tot_len.toNat

/-! ### The loop -/

/-- The words for the bytes taken so far, with a byte that may wait for its partner. -/
structure Taken (s : Mover) (bytes : List UInt8) : Prop where
  waiting : s.word_index = bytes.length % 2
  words : s.DATA ++ (if s.word_index = 1 then [s.word0.toUInt16] else []) = pack bytes

/-- Behind complete words a byte waits for its partner. -/
theorem Taken.take_low {s : Mover} {bytes : List UInt8} (h : Taken s bytes)
    (heven : bytes.length % 2 = 0) (byte : UInt8) : Taken (s.take byte) (bytes ++ [byte]) := by
  have hindex : s.word_index = 0 := h.waiting.trans heven
  have hwords := h.words
  rw [if_neg (by omega), List.append_nil] at hwords
  have hnext : s.take byte = { s with
      word0 := byte, word_index := 1, pbuf_index := uint16_t (s.pbuf_index + 1) } := by
    rw [Mover.take, hindex]
    rfl
  rw [hnext]
  constructor
  · simp only [List.length_append, List.length_singleton]
    omega
  · dsimp only
    rw [if_pos rfl, hwords, pack_append_of_even heven]
    rfl

/-- A byte completes a word with the one that waits. -/
theorem Taken.take_high {s : Mover} {bytes : List UInt8} (h : Taken s bytes)
    (hodd : bytes.length % 2 = 1) (byte : UInt8) : Taken (s.take byte) (bytes ++ [byte]) := by
  have hindex : s.word_index = 1 := h.waiting.trans hodd
  have hwords := h.words
  rw [if_pos hindex] at hwords
  obtain ⟨front, low, rfl⟩ : ∃ front low, bytes = front ++ [low] :=
    ⟨_, _, (List.dropLast_append_getLast (by rintro rfl; simp at hodd)).symm⟩
  have hfront : front.length % 2 = 0 := by
    rw [List.length_append, List.length_singleton] at hodd
    omega
  rw [pack_append_of_even hfront] at hwords
  obtain ⟨hDATA, hlow⟩ := List.append_inj' hwords rfl
  have hlow' : s.word0 = low := by
    have heq : s.word0.toUInt16 = low.toUInt16 := List.head_eq_of_cons_eq hlow
    have hval := congrArg UInt16.toNat heq
    rw [UInt8.toNat_toUInt16, UInt8.toNat_toUInt16] at hval
    exact UInt8.toNat_inj.mp hval
  have hnext : s.take byte = { s with
      word1 := byte, word_index := 0, pbuf_index := uint16_t (s.pbuf_index + 1),
      DATA := s.DATA ++ [word s.word0 byte] } := by
    rw [Mover.take, hindex]
    rfl
  rw [hnext]
  constructor
  · simp only [List.length_append, List.length_singleton]
    omega
  · dsimp only
    rw [if_neg (by omega), List.append_nil, hDATA, hlow', List.append_assoc,
      pack_append_of_even hfront]
    rfl

/-- Another byte is packed behind the others. -/
theorem Taken.take {s : Mover} {bytes : List UInt8} (h : Taken s bytes) (byte : UInt8) :
    Taken (s.take byte) (bytes ++ [byte]) := by
  cases Nat.mod_two_eq_zero_or_one bytes.length with
  | inl heven => exact h.take_low heven byte
  | inr hodd => exact h.take_high hodd byte

/-- Taking a byte goes on in the same buffer. -/
theorem take_position (s : Mover) (byte : UInt8) :
    (s.take byte).q = s.q ∧ (s.take byte).pbuf_index = uint16_t (s.pbuf_index + 1) := by
  rw [Mover.take]
  dsimp only
  split <;> split <;> exact ⟨rfl, rfl⟩

/-- The loop takes the rest of the current buffer and goes on to the next. -/
theorem moveLoop_buffer {q : List UInt8} (hlen : q.length < 65536) (next : List (List UInt8))
    {s : Mover} {bytes : List UInt8} (hs : Taken s bytes) (hq : s.q = q :: next)
    (left : ℕ) (hleft : s.pbuf_index + left = q.length) :
    ∃ t, (∀ fuel, moveLoop (fuel + left + 1) s = moveLoop fuel t) ∧ t.q = next ∧
      t.pbuf_index = 0 ∧ Taken t (bytes ++ q.drop s.pbuf_index) := by
  induction left generalizing s bytes with
  | zero =>
    refine ⟨{ s with q := next, pbuf_index := 0 }, fun fuel => ?_, rfl, rfl, ?_⟩
    · rw [Nat.add_zero, moveLoop, hq]
      dsimp only
      rw [if_neg (by omega)]
    · rw [List.drop_eq_nil_of_le (by omega), List.append_nil]
      exact ⟨hs.waiting, hs.words⟩
  | succ left ih =>
    have hlt : s.pbuf_index < q.length := by omega
    obtain ⟨hsame, hindex⟩ := take_position s (q.getD s.pbuf_index 0)
    rw [uint16_t, Nat.mod_eq_of_lt (by omega)] at hindex
    obtain ⟨t, ht, hnext, hzero, htaken⟩ :=
      ih (hs.take (q.getD s.pbuf_index 0)) (hsame.trans hq) (by omega)
    refine ⟨t, fun fuel => ?_, hnext, hzero, ?_⟩
    · rw [← Nat.add_assoc, moveLoop, hq]
      dsimp only
      rw [if_pos hlt]
      exact ht fuel
    · rw [hindex, List.append_assoc, List.getD_eq_getElem _ _ hlt, List.singleton_append,
        ← List.drop_eq_getElem_cons hlt] at htaken
      exact htaken

/-- The loop ends after the last buffer with the bytes of all of them taken. -/
theorem moveLoop_chain {chain : List (List UInt8)} (hlen : ∀ q ∈ chain, q.length < 65536)
    {s : Mover} {bytes : List UInt8} (hs : Taken s bytes) (hq : s.q = chain)
    (hindex : s.pbuf_index = 0) :
    ∃ fuel t, moveLoop fuel s = some t ∧ Taken t (bytes ++ chain.flatten) := by
  induction chain generalizing s bytes with
  | nil =>
    refine ⟨1, s, ?_, ?_⟩
    · rw [moveLoop, hq]
    · rw [List.flatten_nil, List.append_nil]
      exact hs
  | cons q chain ih =>
    rw [List.forall_mem_cons] at hlen
    obtain ⟨t, ht, hnext, hzero, htaken⟩ :=
      moveLoop_buffer hlen.1 chain hs hq q.length (by omega)
    rw [hindex, List.drop_zero] at htaken
    obtain ⟨fuel, u, hu, hall⟩ := ih hlen.2 htaken hnext hzero
    refine ⟨fuel + q.length + 1, u, (ht fuel).trans hu, ?_⟩
    rw [List.flatten_cons, ← List.append_assoc]
    exact hall

/-- Before the loop nothing is taken. -/
theorem taken_start (chain : List (List UInt8)) (word0 word1 : UInt8) :
    Taken (Mover.start chain word0 word1) [] := ⟨rfl, rfl⟩

/-! ### The registers -/

@[simp] theorem written_nil (reg selected : UInt16) : written reg selected [] = [] := rfl

@[simp] theorem written_REG (reg selected value : UInt16) (ops : List Op) :
    written reg selected (.REG value :: ops) = written reg value ops := rfl

@[simp] theorem written_DATA (reg selected value : UInt16) (ops : List Op) :
    written reg selected (.DATA value :: ops) =
      if selected = reg then value :: written reg selected ops
      else written reg selected ops := rfl

@[simp] theorem written_take (reg selected : UInt16) (ops : List Op) :
    written reg selected (.rt_sem_take :: ops) = written reg selected ops := rfl

/-- Words in a row go to the selected register. -/
theorem written_words (reg selected : UInt16) (words : List UInt16) (ops : List Op) :
    written reg selected (words.map Op.DATA ++ ops) =
      if selected = reg then words ++ written reg selected ops
      else written reg selected ops := by
  induction words with
  | nil => exact (ite_self _).symm
  | cons w words ih =>
    rw [List.map_cons, List.cons_append, written_DATA, ih]
    split <;> rfl

@[simp] theorem written_release (reg selected : UInt16) (ops : List Op) :
    written reg selected (.rt_sem_release :: ops) = written reg selected ops := rfl

/-- Where a register is selected the writes can be counted apart. -/
theorem written_append_REG (reg selected value : UInt16) (xs ys : List Op) :
    written reg selected (xs ++ .REG value :: ys) =
      written reg selected xs ++ written reg value ys := by
  induction xs generalizing selected with
  | nil => rfl
  | cons op xs ih =>
    cases op with
    | REG value' => exact ih value'
    | DATA value' =>
      rw [List.cons_append, written_DATA, written_DATA, ih]
      split <;> rfl
    | _ => exact ih selected

/-- The polls write nothing and leave the status register selected. -/
theorem written_polls (reg selected : UInt16) {isr : List UInt16} {polls : List Op}
    (h : awaitSent isr = some polls) (ops : List Op) :
    written reg selected (polls ++ ops) = written reg DM9000_ISR ops := by
  induction isr generalizing selected polls with
  | nil => exact absurd h (by simp [awaitSent])
  | cons value isr ih =>
    rw [awaitSent] at h
    split at h
    · obtain ⟨rest, hrest, rfl⟩ := Option.map_eq_some_iff.mp h
      have hnext := ih DM9000_ISR hrest
      rw [List.append_assoc]
      exact hnext
    · cases h
      rfl

/-- What the accesses up to the start of the transmission write to the registers. -/
theorem written_load (p : Packet) (s : Mover) (selected : UInt16) :
    written DM9000_MWCMD selected (load p s) =
        s.DATA ++ (if s.word_index = 1 then [s.word0.toUInt16] else []) ∧
      written DM9000_TXPLL selected (load p s) = [p.tot_len &&& 0xFF] ∧
      written DM9000_TXPLH selected (load p s) = [(p.tot_len >>> 8) &&& 0xFF] := by
  simp only [load, DM9000_WriteReg, List.append_assoc, List.cons_append, List.nil_append,
    written_take, written_REG, written_DATA, written_words, written_nil]
  simp [DM9000_IMR, DM9000_MWCMD, DM9000_TXPLL, DM9000_TXPLH, DM9000_TCR]

/-- The two halves of a length are its bytes. -/
theorem length_halves (tot_len : UInt16) :
    (tot_len &&& 0xFF).toNat = tot_len.toNat % 256 ∧
      ((tot_len >>> 8) &&& 0xFF).toNat = tot_len.toNat / 256 := by
  have hlt := tot_len.toNat_lt
  have hmask : ∀ w : UInt16, (w &&& 0xFF).toNat = w.toNat % 256 := fun w => by
    rw [UInt16.toNat_and, show (0xFF : UInt16).toNat = 2 ^ 8 - 1 by decide,
      Nat.and_two_pow_sub_one_eq_mod]
  constructor
  · exact hmask tot_len
  · rw [hmask, UInt16.toNat_shiftRight, show (8 : UInt16).toNat % 16 = 8 by decide,
      Nat.shiftRight_eq_div_pow]
    omega

/-! ### The call as a list of accesses -/

/-- Moving the bytes of a packet writes its packing. -/
theorem moveByte_foldl : ∀ (bytes : List UInt8) (ops : List Op),
    (bytes.foldl moveByte (ops, none)).1 ++
      ((bytes.foldl moveByte (ops, none)).2.map fun byte => Op.DATA byte.toUInt16).toList =
        ops ++ (pack bytes).map Op.DATA
  | [], ops => by simp [pack]
  | [low], ops => by simp [moveByte, pack]
  | low :: high :: bytes, ops => by
    rw [List.foldl_cons, List.foldl_cons, pack, List.map_cons, List.append_cons,
      ← moveByte_foldl bytes]
    rfl

/-- The words of a chain of buffers are the packing of its bytes. -/
theorem moveChain_eq (chain : List (List UInt8)) :
    moveChain chain = (pack chain.flatten).map Op.DATA := by
  rw [moveChain, ← List.foldl_flatten]
  exact moveByte_foldl chain.flatten []

/-- A call begins with the accesses of the loop, polls until the packet is out
and releases the lock. -/
theorem DM9000_SendPacket_eq {p : Packet} {s : Mover} (h : Taken s p.chain.flatten)
    (imr_all : UInt8) (isr : List UInt16) :
    DM9000_SendPacket imr_all p isr = (awaitSent isr).map fun polls =>
      load p s ++ polls ++ DM9000_WriteReg DM9000_ISR 0x02 ++
        DM9000_WriteReg DM9000_IMR imr_all.toUInt16 ++ [.rt_sem_release] := by
  rw [DM9000_SendPacket, moveChain_eq, ← h.words]
  rfl

/-- The polls begin with the selection of the status register. -/
theorem awaitSent_head {isr : List UInt16} {polls : List Op} (h : awaitSent isr = some polls) :
    ∃ more, polls = .REG DM9000_ISR :: more := by
  cases isr with
  | nil => exact absurd h (by simp [awaitSent])
  | cons value isr =>
    rw [awaitSent] at h
    split at h
    · obtain ⟨rest, -, rfl⟩ := Option.map_eq_some_iff.mp h
      exact ⟨_, rfl⟩
    · cases h
      exact ⟨_, rfl⟩

/-- From its polls on a call writes to the status and mask registers only. -/
theorem written_call {reg : UInt16} (hISR : reg ≠ DM9000_ISR) (hIMR : reg ≠ DM9000_IMR)
    (selected : UInt16) (ops : List Op) {isr : List UInt16} {polls : List Op}
    (h : awaitSent isr = some polls) (imr_all : UInt8) :
    written reg selected (ops ++ polls ++ DM9000_WriteReg DM9000_ISR 0x02 ++
      DM9000_WriteReg DM9000_IMR imr_all.toUInt16 ++ [.rt_sem_release]) =
        written reg selected ops := by
  have hpolls := written_polls reg DM9000_ISR h
    (DM9000_WriteReg DM9000_ISR 0x02 ++ DM9000_WriteReg DM9000_IMR imr_all.toUInt16 ++
      [.rt_sem_release])
  have hnone : written reg DM9000_ISR (DM9000_WriteReg DM9000_ISR 0x02 ++
      DM9000_WriteReg DM9000_IMR imr_all.toUInt16 ++ [.rt_sem_release]) = [] := by
    simp [DM9000_WriteReg, hISR.symm, hIMR.symm]
  obtain ⟨more, rfl⟩ := awaitSent_head h
  rw [hnone, List.cons_append, written_REG] at hpolls
  simp only [List.append_assoc, List.cons_append] at hpolls ⊢
  rw [written_append_REG, hpolls, List.append_nil]

/-- What a call writes to a register before its polls is all it writes there. -/
theorem PackedExactly.of_load {p : Packet} {s : Mover} {selected : UInt16}
    (h : PackedExactly p selected (load p s)) (hs : Taken s p.chain.flatten) {imr_all : UInt8}
    {isr : List UInt16} {ops : List Op} (hops : DM9000_SendPacket imr_all p isr = some ops) :
    PackedExactly p selected ops := by
  rw [DM9000_SendPacket_eq hs] at hops
  obtain ⟨polls, hpolls, rfl⟩ := Option.map_eq_some_iff.mp hops
  have hMWCMD := written_call (by decide : DM9000_MWCMD ≠ DM9000_ISR) (by decide) selected
    (load p s) hpolls imr_all
  have hTXPLL := written_call (by decide : DM9000_TXPLL ≠ DM9000_ISR) (by decide) selected
    (load p s) hpolls imr_all
  have hTXPLH := written_call (by decide : DM9000_TXPLH ≠ DM9000_ISR) (by decide) selected
    (load p s) hpolls imr_all
  constructor
  · rw [hMWCMD]
    exact h.count
  · rw [hMWCMD]
    exact h.words
  · rw [hTXPLL, hTXPLH]
    exact h.length

/-- The buffers of a packet are no longer than the packet. -/
theorem buffer_lt {p : Packet} (h : p.tot_len.toNat = payloadLength p) :
    ∀ q ∈ p.chain, q.length < 65536 := by
  intro q hq
  have hle := (List.sublist_flatten_of_mem hq).length_le
  have hlt := p.tot_len.toNat_lt
  rw [h, payloadLength, ← List.length_flatten] at hlt
  omega

/-- A call that returns has written the packing of its packet. -/
theorem written_SendPacket {p : Packet} (h : p.tot_len.toNat = payloadLength p) {imr_all : UInt8}
    {isr : List UInt16} {ops : List Op} (hops : DM9000_SendPacket imr_all p isr = some ops)
    (selected : UInt16) : written DM9000_MWCMD selected ops = pack p.chain.flatten := by
  obtain ⟨_, s, _, htaken⟩ := moveLoop_chain (buffer_lt h) (taken_start p.chain 0 0) rfl rfl
  rw [List.nil_append] at htaken
  rw [DM9000_SendPacket_eq htaken] at hops
  obtain ⟨polls, hpolls, rfl⟩ := Option.map_eq_some_iff.mp hops
  rw [written_call (by decide) (by decide) selected (load p s) hpolls imr_all,
    (written_load p s selected).1, htaken.words]

/-- For every packet whose length is that of its buffers, however they split
it, the words written up to the start of the transmission, and by every call
that returns, are its packing, and the length registers have its length. -/
theorem packet_packedExactly (p : Packet) (h : p.tot_len.toNat = payloadLength p)
    (word0 word1 : UInt8) (selected : UInt16) :
    ∃ fuel s, moveLoop fuel (Mover.start p.chain word0 word1) = some s ∧
      PackedExactly p selected (load p s) ∧
        ∀ imr_all isr ops, DM9000_SendPacket imr_all p isr = some ops →
          PackedExactly p selected ops := by
  obtain ⟨fuel, s, hs, htaken⟩ :=
    moveLoop_chain (buffer_lt h) (taken_start p.chain word0 word1) rfl rfl
  rw [List.nil_append] at htaken
  obtain ⟨hwords, hlow, hhigh⟩ := written_load p s selected
  obtain ⟨hlow', hhigh'⟩ := length_halves p.tot_len
  have hload : PackedExactly p selected (load p s) := by
    constructor
    · rw [hwords, htaken.words, length_pack, wordCount, List.length_flatten, h, payloadLength]
    · intro j
      rw [hwords, htaken.words, pack_getD]
    · refine ⟨_, _, hlow, hhigh, ?_⟩
      have hlt := p.tot_len.toNat_lt
      omega
  exact ⟨fuel, s, hs, hload, fun imr_all isr ops hops => hload.of_load htaken hops⟩

/-- A packet of seven bytes in buffers of three, none and four. -/
def sevenBytes : Packet := ⟨[[1, 2, 3], [], [4, 5, 6, 7]], 7⟩

theorem sevenBytes_packedExactly :
    ∃ fuel s, moveLoop fuel (Mover.start sevenBytes.chain 0 0) = some s ∧
      PackedExactly sevenBytes 0 (load sevenBytes s) ∧
        ∀ imr_all isr ops, DM9000_SendPacket imr_all sevenBytes isr = some ops →
          PackedExactly sevenBytes 0 ops :=
  packet_packedExactly sevenBytes (by decide) 0 0 0

end SmartHome.PacketSending
