import Mathlib.Logic.Function.Basic
import SmartHome.WordPacking

/-!
# Reading a frame into buffers, and reading it away

The copy loop of DM9000_Receive_Packet stores one word after another from the
start of each buffer, so it fills a chain without gaps while every buffer but
the last has an even length. Without buffers the drain loop reads the frame
away, but it counts the length down by two until it is zero.
-/

namespace SmartHome.FrameReading

open WordPacking

/-- Value kept when a result is stored in an int. -/
def int (n : ℤ) : ℤ := n.bmod 4294967296

/-- A buffer of the pool. -/
structure Pbuf where
  /-- Address of the payload. -/
  payload : ℕ
  len : UInt16
  /-- Bytes of the buffer from the payload on. -/
  size : ℕ
  fits : len.toNat ≤ size
  even : size % 2 = 0

/-- Two buffers share no byte. -/
def Pbuf.Apart (p q : Pbuf) : Prop :=
  p.payload + p.size ≤ q.payload ∨ q.payload + q.size ≤ p.payload

/-- A chain of different buffers. -/
structure Chain where
  pbufs : List Pbuf
  apart : pbufs.Pairwise Pbuf.Apart

/-- The memory, and the number of words read from the chip. -/
structure Reading where
  memory : ℕ → UInt8
  words : ℕ

/-- Store the next word of the chip at an address. -/
def Reading.fetch (chip : ℕ → UInt16) (data : ℕ) (s : Reading) : Reading :=
  { memory := Function.update (Function.update s.memory data (lowByte (chip s.words)))
      (data + 1) (highByte (chip s.words)),
    words := s.words + 1 }

/-- The copy loop over one buffer. -/
def fill (chip : ℕ → UInt16) : ℕ → ℕ → ℤ → Reading → Option Reading
  | 0, _, _, _ => none
  | fuel + 1, data, len, s =>
    if len > 0 then fill chip fuel (data + 2) (int (len - 2)) (s.fetch chip data) else some s

/-- The copy loop over a chain. -/
def copyLoop (chip : ℕ → UInt16) (fuel : ℕ) : List Pbuf → Reading → Option Reading
  | [], s => some s
  | q :: next, s => (fill chip fuel q.payload q.len.toNat s).bind (copyLoop chip fuel next)

/-- The drain loop, with the word last read and the number of words read. -/
def drainLoop (chip : ℕ → UInt16) : ℕ → ℤ → UInt16 × ℕ → Option (UInt16 × ℕ)
  | 0, _, _ => none
  | fuel + 1, len, s =>
    if len ≠ 0 then drainLoop chip fuel (int (len - 2)) (chip s.2, s.2 + 1) else some s

/-- Bytes of a stream of words. -/
def streamBytes (stream : ℕ → UInt16) (start n : ℕ) : List UInt8 :=
  (List.range n).map fun i => streamByte stream (start + i)

/-- Payload of a buffer. -/
def Pbuf.content (memory : ℕ → UInt8) (q : Pbuf) : List UInt8 :=
  (List.range q.len.toNat).map fun i => memory (q.payload + i)

/-- Payload of a chain. -/
def content (memory : ℕ → UInt8) (pbufs : List Pbuf) : List UInt8 :=
  pbufs.flatMap (Pbuf.content memory)

/-- Total length of a chain. -/
def totalLength (pbufs : List Pbuf) : ℕ := (pbufs.map fun q => q.len.toNat).sum

/-- An address of the payload of a chain, or the one behind its last buffer. -/
def MayWrite (pbufs : List Pbuf) (a : ℕ) : Prop :=
  (∃ q ∈ pbufs, q.payload ≤ a ∧ a < q.payload + q.len.toNat) ∨
    ∃ q ∈ pbufs.getLast?, a = q.payload + q.len.toNat

/-- The words of a frame have been read, its bytes are the payload of the
chain, and at most the byte behind the last buffer has been written besides. -/
structure Delivered (chip : ℕ → UInt16) (rx_length : ℕ) (pbufs : List Pbuf) (s t : Reading) :
    Prop where
  words : t.words = s.words + wordCount rx_length
  content : content t.memory pbufs = streamBytes chip (2 * s.words) rx_length
  kept : ∀ a, ¬MayWrite pbufs a → t.memory a = s.memory a

/-- The drain loop ends after the words of the frame. -/
def SkippedCleanly (chip : ℕ → UInt16) (rx_length : UInt16) (s : UInt16 × ℕ) : Prop :=
  ∃ fuel dummy, drainLoop chip fuel rx_length.toNat s =
    some (dummy, s.2 + wordCount rx_length.toNat)

/-! ### The counter -/

theorem int_of_small {n : ℤ} (hlow : -2 ≤ n) (hhigh : n < 65536) : int n = n := by
  rw [int, Int.bmod_def]
  split <;> omega

/-- Wrapping around does not change the parity. -/
theorem int_emod_two (n : ℤ) : int n % 2 = n % 2 := by
  rw [int, Int.bmod_def]
  split <;> omega

/-! ### One buffer -/

theorem fetch_memory (chip : ℕ → UInt16) (data : ℕ) (s : Reading) (a : ℕ) :
    (s.fetch chip data).memory a =
      if data ≤ a ∧ a < data + 2 then streamByte chip (2 * s.words + (a - data))
      else s.memory a := by
  rw [Reading.fetch]
  dsimp only
  rw [Function.update_apply, Function.update_apply, streamByte]
  by_cases hhigh : a = data + 1
  · rw [if_pos hhigh, if_pos (by omega), if_neg (by omega),
      show (2 * s.words + (a - data)) / 2 = s.words by omega]
  · rw [if_neg hhigh]
    by_cases hlow : a = data
    · rw [if_pos hlow, if_pos (by omega), if_pos (by omega),
        show (2 * s.words + (a - data)) / 2 = s.words by omega]
    · rw [if_neg hlow, if_neg (by omega)]

/-- A number of words is stored in a row. -/
theorem fill_words (chip : ℕ → UInt16) (w data : ℕ) (len : ℤ) (s : Reading)
    (hlow : 2 * w - 1 ≤ len) (hhigh : len ≤ 2 * w) (hsmall : w ≤ 32768) :
    ∃ t, (∀ fuel, fill chip (fuel + w + 1) data len s = some t) ∧ t.words = s.words + w ∧
      ∀ a, t.memory a =
        if data ≤ a ∧ a < data + 2 * w then streamByte chip (2 * s.words + (a - data))
        else s.memory a := by
  induction w generalizing data len s with
  | zero =>
    refine ⟨s, fun fuel => ?_, rfl, fun a => ?_⟩
    · rw [fill, if_neg (by omega)]
    · rw [if_neg (by omega)]
  | succ w ih =>
    have hint : int (len - 2) = len - 2 := int_of_small (by omega) (by omega)
    obtain ⟨t, ht, hwords, hmemory⟩ :=
      ih (data + 2) (len - 2) (s.fetch chip data) (by omega) (by omega) (by omega)
    have hnext : (s.fetch chip data).words = s.words + 1 := rfl
    refine ⟨t, fun fuel => ?_, ?_, fun a => ?_⟩
    · rw [← Nat.add_assoc, fill, if_pos (by omega), hint]
      exact ht fuel
    · rw [hwords, hnext]
      omega
    · rw [hmemory, fetch_memory, hnext]
      by_cases hfirst : data ≤ a ∧ a < data + 2
      · rw [if_neg (by omega), if_pos hfirst, if_pos (by omega)]
      · by_cases hrest : data + 2 ≤ a ∧ a < data + 2 + 2 * w
        · rw [if_pos hrest, if_pos (by omega)]
          congr 1
          omega
        · rw [if_neg hrest, if_neg hfirst, if_neg (by omega)]

/-- A buffer is filled with the next words of the chip. -/
theorem fill_spec (chip : ℕ → UInt16) (q : Pbuf) (s : Reading) :
    ∃ t, fill chip 32769 q.payload q.len.toNat s = some t ∧
      t.words = s.words + wordCount q.len.toNat ∧
      ∀ a, t.memory a =
        if q.payload ≤ a ∧ a < q.payload + 2 * wordCount q.len.toNat then
          streamByte chip (2 * s.words + (a - q.payload))
        else s.memory a := by
  have hlen := q.len.toNat_lt
  have hcount : wordCount q.len.toNat = (q.len.toNat + 1) / 2 := rfl
  obtain ⟨t, ht, hspec⟩ := fill_words chip (wordCount q.len.toNat) q.payload
    q.len.toNat s (by omega) (by omega) (by omega)
  have hfuel := ht (32768 - wordCount q.len.toNat)
  rw [show 32768 - wordCount q.len.toNat + wordCount q.len.toNat + 1 = 32769 by omega] at hfuel
  exact ⟨t, hfuel, hspec⟩

/-- The words for a buffer stay within it. -/
theorem Pbuf.words_le (q : Pbuf) : 2 * wordCount q.len.toNat ≤ q.size := by
  have hfits := q.fits
  have heven := q.even
  rw [wordCount]
  omega

/-! ### A chain of buffers -/

theorem streamBytes_append (stream : ℕ → UInt16) (start m n : ℕ) :
    streamBytes stream start (m + n) =
      streamBytes stream start m ++ streamBytes stream (start + m) n := by
  rw [streamBytes, List.range_add, List.map_append, List.map_map]
  congr 1
  apply List.map_congr_left
  intro i _
  rw [Function.comp_apply, Nat.add_assoc]

/-- The loop changes nothing outside of the buffers of its chain. -/
theorem copyLoop_outside (chip : ℕ → UInt16) {pbufs : List Pbuf} {s t : Reading} {a : ℕ}
    (ht : copyLoop chip 32769 pbufs s = some t)
    (ha : ∀ q ∈ pbufs, ¬(q.payload ≤ a ∧ a < q.payload + q.size)) : t.memory a = s.memory a := by
  induction pbufs generalizing s with
  | nil =>
    cases ht
    rfl
  | cons q pbufs ih =>
    rw [List.forall_mem_cons] at ha
    obtain ⟨u, hu, -, hmemory⟩ := fill_spec chip q s
    rw [copyLoop, hu, Option.bind_some] at ht
    have hwords := q.words_le
    rw [ih ht ha.2, hmemory, if_neg (by omega)]

/-- What was stored in a buffer is its payload after the rest of the chain. -/
theorem Pbuf.content_eq (chip : ℕ → UInt16) {q : Pbuf} {pbufs : List Pbuf}
    (hapart : ∀ p ∈ pbufs, q.Apart p) {s u t : Reading}
    (hmemory : ∀ a, u.memory a =
      if q.payload ≤ a ∧ a < q.payload + 2 * wordCount q.len.toNat then
        streamByte chip (2 * s.words + (a - q.payload))
      else s.memory a)
    (ht : copyLoop chip 32769 pbufs u = some t) :
    q.content t.memory = streamBytes chip (2 * s.words) q.len.toNat := by
  have hcount : wordCount q.len.toNat = (q.len.toNat + 1) / 2 := rfl
  rw [Pbuf.content, streamBytes]
  apply List.map_congr_left
  intro i hi
  rw [List.mem_range] at hi
  have hfits := q.fits
  have hkept : t.memory (q.payload + i) = u.memory (q.payload + i) := by
    refine copyLoop_outside chip ht fun p hp => ?_
    have hp := hapart p hp
    rw [Pbuf.Apart] at hp
    omega
  rw [hkept, hmemory, if_pos (by omega), Nat.add_sub_cancel_left]

/-- An address written for the rest of a chain may be written for the chain. -/
theorem MayWrite.tail {q : Pbuf} {pbufs : List Pbuf} {a : ℕ} (h : MayWrite pbufs a) :
    MayWrite (q :: pbufs) a := by
  rcases h with ⟨p, hp, hin⟩ | ⟨p, hp, heq⟩
  · exact .inl ⟨p, List.mem_cons_of_mem q hp, hin⟩
  · cases pbufs with
    | nil => exact absurd hp (by simp)
    | cons r pbufs => exact .inr ⟨p, by rwa [List.getLast?_cons_cons], heq⟩

/-- The words for the first buffer stay within what may be written. -/
theorem MayWrite.head {q : Pbuf} {pbufs : List Pbuf} (hodd : pbufs = [] ∨ q.len.toNat % 2 = 0)
    {a : ℕ} (h : q.payload ≤ a ∧ a < q.payload + 2 * wordCount q.len.toNat) :
    MayWrite (q :: pbufs) a := by
  rw [wordCount] at h
  by_cases hin : a < q.payload + q.len.toNat
  · exact .inl ⟨q, List.mem_cons_self, h.1, hin⟩
  · rcases hodd with rfl | hzero
    · exact .inr ⟨q, rfl, by omega⟩
    · omega

/-- A chain without odd lengths before its last buffer gets the frame. -/
theorem copyLoop_spec (chip : ℕ → UInt16) {pbufs : List Pbuf} (hapart : pbufs.Pairwise Pbuf.Apart)
    (heven : ∀ q ∈ pbufs.dropLast, q.len.toNat % 2 = 0) (s : Reading) :
    ∃ t, copyLoop chip 32769 pbufs s = some t ∧
      Delivered chip (totalLength pbufs) pbufs s t := by
  induction pbufs generalizing s with
  | nil => exact ⟨s, rfl, rfl, rfl, fun _ _ => rfl⟩
  | cons q pbufs ih =>
    obtain ⟨u, hu, hwords, hmemory⟩ := fill_spec chip q s
    rw [List.pairwise_cons] at hapart
    -- an odd length may only be the last one
    have hodd : pbufs = [] ∨ q.len.toNat % 2 = 0 := by
      cases pbufs with
      | nil => exact .inl rfl
      | cons r pbufs => exact .inr (heven q List.mem_cons_self)
    have hrest : ∀ p ∈ pbufs.dropLast, p.len.toNat % 2 = 0 := by
      intro p hp
      cases pbufs with
      | nil => exact absurd hp List.not_mem_nil
      | cons r pbufs => exact heven p (List.mem_cons_of_mem q hp)
    obtain ⟨t, ht, hdelivered⟩ := ih hapart.2 hrest u
    have htotal : totalLength (q :: pbufs) = q.len.toNat + totalLength pbufs := by
      rw [totalLength, List.map_cons, List.sum_cons, totalLength]
    refine ⟨t, ?_, ?_, ?_, ?_⟩
    · rw [copyLoop, hu, Option.bind_some, ht]
    · rw [hdelivered.words, hwords, htotal]
      rcases hodd with rfl | hzero
      · rfl
      · rw [wordCount, wordCount, wordCount]
        omega
    · rw [content, List.flatMap_cons, htotal, streamBytes_append,
        q.content_eq chip hapart.1 hmemory ht]
      congr 1
      rcases hodd with rfl | hzero
      · rfl
      · have hstart : 2 * u.words = 2 * s.words + q.len.toNat := by
          rw [hwords, wordCount]
          omega
        rw [← hstart]
        exact hdelivered.content
    · intro a ha
      rw [hdelivered.kept a (mt MayWrite.tail ha), hmemory, if_neg (mt (MayWrite.head hodd) ha)]

/-- For every frame and every chain of its length in which only the last
buffer may be odd, the copy loop ends and delivers the frame. -/
theorem frame_delivered (chip : ℕ → UInt16) (rx_length : UInt16) (c : Chain)
    (hlen : totalLength c.pbufs = rx_length.toNat)
    (heven : ∀ q ∈ c.pbufs.dropLast, q.len.toNat % 2 = 0) (s : Reading) :
    ∃ fuel t, copyLoop chip fuel c.pbufs s = some t ∧
      Delivered chip rx_length.toNat c.pbufs s t := by
  obtain ⟨t, ht, hdelivered⟩ := copyLoop_spec chip c.apart heven s
  exact ⟨32769, t, ht, hlen ▸ hdelivered⟩

/-- Two buffers of the pool with two and three bytes in use. -/
def twoBuffers : Chain where
  pbufs := [⟨100, 2, 4, by decide, rfl⟩, ⟨200, 3, 4, by decide, rfl⟩]
  apart := List.pairwise_pair.mpr (.inl (by decide))

theorem twoBuffers_delivered : ∃ fuel t,
    copyLoop (fun _ => 0x4241) fuel twoBuffers.pbufs ⟨fun _ => 0, 0⟩ = some t ∧
      Delivered (fun _ => 0x4241) 5 twoBuffers.pbufs ⟨fun _ => 0, 0⟩ t :=
  frame_delivered _ 5 twoBuffers (by decide) (by decide) _

/-! ### Reading a frame away -/

/-- An odd length is never counted down to zero. -/
theorem drainLoop_odd (chip : ℕ → UInt16) {len : ℤ} (h : len % 2 = 1) (fuel : ℕ)
    (s : UInt16 × ℕ) : drainLoop chip fuel len s = none := by
  induction fuel generalizing len s with
  | zero => rfl
  | succ fuel ih =>
    have hnext : int (len - 2) % 2 = 1 := by
      rw [int_emod_two]
      omega
    rw [drainLoop, if_pos (by omega)]
    exact ih hnext _

/-- An even length is counted down in as many reads as the frame has words. -/
theorem drainLoop_even (chip : ℕ → UInt16) (k : ℕ) (hk : k ≤ 32768) (s : UInt16 × ℕ) :
    ∃ dummy, drainLoop chip (k + 1) ((2 * k : ℕ) : ℤ) s = some (dummy, s.2 + k) := by
  induction k generalizing s with
  | zero => exact ⟨s.1, rfl⟩
  | succ k ih =>
    obtain ⟨dummy, hdummy⟩ := ih (by omega) (chip s.2, s.2 + 1)
    have hint : int (((2 * (k + 1) : ℕ) : ℤ) - 2) = ((2 * k : ℕ) : ℤ) := by
      rw [int_of_small (by omega) (by omega)]
      omega
    refine ⟨dummy, ?_⟩
    rw [drainLoop, if_pos (by omega), hint, hdummy]
    dsimp only
    rw [Nat.add_assoc, Nat.add_comm 1 k]

/-- For every length the drain loop ends after the words of the frame exactly
if the length is even. -/
theorem skippedCleanly_iff (chip : ℕ → UInt16) (rx_length : UInt16) (s : UInt16 × ℕ) :
    SkippedCleanly chip rx_length s ↔ rx_length.toNat % 2 = 0 := by
  have hlen := rx_length.toNat_lt
  constructor
  · rintro ⟨fuel, dummy, hdummy⟩
    by_contra hodd
    rw [drainLoop_odd chip (by omega)] at hdummy
    exact absurd hdummy (by simp)
  · intro heven
    obtain ⟨dummy, hdummy⟩ := drainLoop_even chip (rx_length.toNat / 2) (by omega) s
    have hcount : wordCount rx_length.toNat = rx_length.toNat / 2 := by
      rw [wordCount]
      omega
    rw [show 2 * (rx_length.toNat / 2) = rx_length.toNat by omega] at hdummy
    exact ⟨_, dummy, hcount ▸ hdummy⟩

/-- A frame of 65 bytes is never read away. -/
theorem not_skippedCleanly_odd :
    ¬∀ (chip : ℕ → UInt16) (rx_length : UInt16) (s : UInt16 × ℕ),
      SkippedCleanly chip rx_length s := by
  intro h
  obtain ⟨fuel, dummy, hdummy⟩ := h (fun _ => 0) 65 (0, 0)
  rw [drainLoop_odd _ (by decide)] at hdummy
  exact absurd hdummy (by simp)

end SmartHome.FrameReading
