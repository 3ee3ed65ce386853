import Mathlib.Algebra.Order.Ring.Nat
import Mathlib.Data.List.Basic

/-!
# Bytes in 16-bit words

A sequence of bytes is packed into words, two at a time and the first of them
in the low half; a single last byte makes a word with a zero high half. The
bytes of a stream of words are numbered in the same order.
-/

namespace SmartHome.WordPacking

/-- The word of a low and a high byte. -/
def word (low high : UInt8) : UInt16 := high.toUInt16 <<< 8 ||| low.toUInt16

/-- The words of a sequence of bytes. -/
def pack : List UInt8 → List UInt16
  | [] => []
  | [low] => [low.toUInt16]
  | low :: high :: bytes => word low high :: pack bytes

/-- Number of words for a number of bytes. -/
def wordCount (n : ℕ) : ℕ := (n + 1) / 2

/-- The byte of a word in the low half. -/
def lowByte (w : UInt16) : UInt8 := w.toUInt8

/-- The byte of a word in the high half. -/
def highByte (w : UInt16) : UInt8 := (w >>> 8).toUInt8

/-- A byte of a stream of words. -/
def streamByte (stream : ℕ → UInt16) (i : ℕ) : UInt8 :=
  if i % 2 = 0 then lowByte (stream (i / 2)) else highByte (stream (i / 2))

/-! ### Words -/

theorem word_toNat (low high : UInt8) : (word low high).toNat = low.toNat + 256 * high.toNat := by
  have hlow := low.toNat_lt
  have hhigh := high.toNat_lt
  have hshift : high.toNat <<< 8 < 65536 := by
    rw [Nat.shiftLeft_eq]
    omega
  rw [word, UInt16.toNat_or, UInt16.toNat_shiftLeft, UInt8.toNat_toUInt16, UInt8.toNat_toUInt16,
    show (8 : UInt16).toNat % 16 = 8 by decide, Nat.mod_eq_of_lt hshift,
    ← Nat.shiftLeft_add_eq_or_of_lt (by omega), Nat.shiftLeft_eq]
  omega

@[simp] theorem lowByte_word (low high : UInt8) : lowByte (word low high) = low := by
  have hlow := low.toNat_lt
  apply UInt8.toNat_inj.mp
  rw [lowByte, UInt16.toNat_toUInt8, word_toNat]
  omega

@[simp] theorem highByte_word (low high : UInt8) : highByte (word low high) = high := by
  have hlow := low.toNat_lt
  have hhigh := high.toNat_lt
  apply UInt8.toNat_inj.mp
  rw [highByte, UInt16.toNat_toUInt8, UInt16.toNat_shiftRight, word_toNat,
    show (8 : UInt16).toNat % 16 = 8 by decide, Nat.shiftRight_eq_div_pow]
  omega

/-! ### Packing -/

/-- As many words as needed are packed. -/
theorem length_pack : ∀ bytes : List UInt8, (pack bytes).length = wordCount bytes.length
  | [] => rfl
  | [low] => by simp [pack, wordCount]
  | low :: high :: bytes => by
    rw [pack, List.length_cons, length_pack bytes, wordCount, wordCount, List.length_cons,
      List.length_cons]
    omega

/-- Each word has the bytes of its place, with zero behind the last one. -/
theorem pack_getD : ∀ (bytes : List UInt8) (j : ℕ), ((pack bytes).getD j 0).toNat =
    (bytes.getD (2 * j) 0).toNat + 256 * (bytes.getD (2 * j + 1) 0).toNat
  | [], j => by simp [pack]
  | [low], 0 => by simp [pack]
  | [low], j + 1 => by simp [pack, Nat.mul_add]
  | low :: high :: bytes, 0 => word_toNat low high
  | low :: high :: bytes, j + 1 => by
    rw [pack, List.getD_cons_succ, pack_getD bytes j, Nat.mul_add]
    rfl

/-- Packing goes on behind an even number of bytes. -/
theorem pack_append_of_even : ∀ {bytes : List UInt8} (_ : bytes.length % 2 = 0)
    (more : List UInt8), pack (bytes ++ more) = pack bytes ++ pack more
  | [], _, more => rfl
  | [low], h, _ => absurd h (by simp)
  | low :: high :: bytes, h, more => by
    have heven : bytes.length % 2 = 0 := by
      rw [List.length_cons, List.length_cons] at h
      omega
    rw [List.cons_append, List.cons_append, pack, pack, List.cons_append,
      pack_append_of_even heven more]

/-- The bytes of a packed sequence are the sequence. -/
theorem streamByte_pack : ∀ {bytes : List UInt8} {i : ℕ} (h : i < bytes.length),
    streamByte (fun j => (pack bytes).getD j 0) i = bytes[i]
  | [low], 0, _ => by
    apply UInt8.toNat_inj.mp
    have hlow := low.toNat_lt
    simp [streamByte, lowByte, pack]
  | low :: high :: bytes, 0, _ => lowByte_word low high
  | low :: high :: bytes, 1, _ => highByte_word low high
  | low :: high :: bytes, i + 2, h => by
    have hrest : i < bytes.length := by simpa using h
    have hmod : (i + 2) % 2 = i % 2 := by omega
    have hdiv : (i + 2) / 2 = i / 2 + 1 := by omega
    rw [streamByte, hmod, hdiv, pack]
    exact streamByte_pack hrest

end SmartHome.WordPacking
