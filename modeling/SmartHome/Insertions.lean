import Mathlib.Data.List.Basic

/-!
# Texts with insertions

A scanner reads a text element by element and may want something inserted
after the element it has just read. The leading elements of a text can be
hidden, which does not hide what is inserted after them.
-/

namespace SmartHome.Insertions

variable {S B : Type*} (feed : S → B → S × List B)

/-- State of the scanner after a text. -/
def after (s : S) (text : List B) : S := text.foldl (fun s b => (feed s b).1) s

/-- An element with `n` elements left to hide. -/
def shown (n : ℕ) (b : B) : List B := if n = 0 then [b] else []

/-- The text without its first `n` elements and with all insertions. -/
def emit : S → ℕ → List B → List B
  | _, _, [] => []
  | s, n, b :: text => shown n b ++ (feed s b).2 ++ emit (feed s b).1 (n - 1) text

/-- The same text when nothing is inserted after its last element. -/
def expand : S → ℕ → List B → List B
  | _, _, [] => []
  | _, n, [b] => shown n b
  | s, n, b :: c :: text =>
    shown n b ++ (feed s b).2 ++ expand (feed s b).1 (n - 1) (c :: text)

/-- The part of a text between two positions. -/
def slice (text : List B) (i j : ℕ) : List B := (text.take j).drop i

@[simp] theorem after_nil (s : S) : after feed s [] = s := rfl

theorem after_append (s : S) (xs ys : List B) :
    after feed s (xs ++ ys) = after feed (after feed s xs) ys := List.foldl_append

theorem after_concat (s : S) (xs : List B) (b : B) :
    after feed s (xs ++ [b]) = (feed (after feed s xs) b).1 := by
  rw [after_append]
  rfl

/-- Insertions are made in the order of the text. -/
theorem emit_append (s : S) (n : ℕ) (xs ys : List B) :
    emit feed s n (xs ++ ys) = emit feed s n xs ++
      emit feed (after feed s xs) (n - xs.length) ys := by
  induction xs generalizing s n with
  | nil => simp [emit]
  | cons b xs ih =>
    rw [List.cons_append, emit, ih, emit, List.length_cons, Nat.sub_sub, Nat.add_comm 1]
    simp only [List.append_assoc]
    rfl

/-- One more element is followed by its own insertion. -/
theorem emit_concat (s : S) (n : ℕ) (xs : List B) (b : B) :
    emit feed s n (xs ++ [b]) =
      emit feed s n xs ++ shown (n - xs.length) b ++ (feed (after feed s xs) b).2 := by
  rw [emit_append, emit, emit, List.append_nil, List.append_assoc]

/-- The expansion ends with its last element. -/
theorem expand_concat (s : S) (n : ℕ) (xs : List B) (b : B) :
    expand feed s n (xs ++ [b]) = emit feed s n xs ++ shown (n - xs.length) b := by
  induction xs generalizing s n with
  | nil => simp [expand, emit]
  | cons a xs ih =>
    have hne : xs ++ [b] ≠ [] := by simp
    obtain ⟨c, rest, hrest⟩ := List.exists_cons_of_ne_nil hne
    rw [List.cons_append, hrest, expand, ← hrest, ih, emit, List.length_cons, Nat.sub_sub,
      Nat.add_comm 1]
    simp only [List.append_assoc]

/-- What has been emitted before the end begins the expansion. -/
theorem emit_take_prefix (s : S) (n : ℕ) {text : List B} {k : ℕ} (hk : k < text.length) :
    emit feed s n (text.take k) <+: expand feed s n text := by
  obtain rfl | ⟨xs, b, rfl⟩ := List.eq_nil_or_concat' text
  · simp at hk
  have hk' : k ≤ xs.length := by
    rw [List.length_append, List.length_singleton] at hk
    omega
  have hsplit : xs = xs.take k ++ xs.drop k := (List.take_append_drop k xs).symm
  rw [expand_concat, List.take_append_of_le_length hk']
  nth_rewrite 2 [hsplit]
  rw [emit_append, List.append_assoc]
  exact List.prefix_append _ _

/-- Reading the text leads from one state to another and inserts nothing. -/
def Passes (s : S) (text : List B) (t : S) : Prop :=
  after feed s text = t ∧ emit feed s 0 text = text

theorem Passes.nil (s : S) : Passes feed s [] s := ⟨rfl, rfl⟩

theorem Passes.cons {s t u : S} {b : B} {text : List B} (hb : feed s b = (t, []))
    (h : Passes feed t text u) : Passes feed s (b :: text) u := by
  constructor
  · rw [← h.1, after, List.foldl_cons, hb]
    rfl
  · rw [emit, hb, Nat.zero_sub, h.2]
    rfl

theorem Passes.append {s t u : S} {xs ys : List B} (hx : Passes feed s xs t)
    (hy : Passes feed t ys u) : Passes feed s (xs ++ ys) u := by
  constructor
  · rw [after_append, hx.1, hy.1]
  · rw [emit_append, hx.1, hx.2, Nat.zero_sub, hy.2]

/-- One more element may be followed by an insertion. -/
theorem Passes.emit_concat {s t : S} {xs : List B} (h : Passes feed s xs t) (b : B) :
    emit feed s 0 (xs ++ [b]) = xs ++ [b] ++ (feed t b).2 := by
  rw [Insertions.emit_concat, h.1, h.2, Nat.zero_sub]
  rfl

/-- Without an insertion on the way the expansion is the text itself. -/
theorem Passes.expand_concat {s t : S} {xs : List B} (h : Passes feed s xs t) (b : B) :
    expand feed s 0 (xs ++ [b]) = xs ++ [b] := by
  rw [Insertions.expand_concat, h.2, Nat.zero_sub]
  rfl

/-- The expansion of a text that is put together. -/
theorem expand_append (s : S) (n : ℕ) (xs : List B) {ys : List B} (hys : ys ≠ []) :
    expand feed s n (xs ++ ys) =
      emit feed s n xs ++ expand feed (after feed s xs) (n - xs.length) ys := by
  obtain rfl | ⟨zs, b, rfl⟩ := List.eq_nil_or_concat' ys
  · exact absurd rfl hys
  · rw [← List.append_assoc, expand_concat, expand_concat, emit_append, List.length_append,
      Nat.sub_sub, List.append_assoc]

theorem slice_self (text : List B) {i j : ℕ} (h : j ≤ i) : slice text i j = [] :=
  List.drop_eq_nil_of_le (Nat.le_trans (List.length_take_le j text) h)

/-- A part grows by the next element. -/
theorem slice_succ {text : List B} {i j : ℕ} (hij : i ≤ j) (hj : j < text.length) :
    slice text i (j + 1) = slice text i j ++ [text[j]] := by
  have hlen : i ≤ (text.take j).length := by
    rw [List.length_take]
    omega
  rw [slice, List.take_succ_eq_append_getElem hj, List.drop_append_of_le_length hlen]
  rfl

/-- A part is cut at a position in between. -/
theorem slice_split {text : List B} {i j k : ℕ} (hik : i ≤ k) (hkj : k ≤ j) :
    slice text i j = slice text i k ++ slice text k j := by
  have htake : text.take k = (text.take j).take k := by rw [List.take_take, Nat.min_eq_left hkj]
  have hhead : (text.take k).drop i = ((text.take j).drop i).take (k - i) := by
    rw [htake, List.drop_take]
  have htail : (text.take j).drop k = ((text.take j).drop i).drop (k - i) := by
    rw [List.drop_drop, Nat.add_sub_cancel' hik]
  rw [slice, slice, slice, hhead, htail, List.take_append_drop]

/-- The first elements from a position on. -/
theorem take_drop_eq_slice (text : List B) (i n : ℕ) :
    (text.drop i).take n = slice text i (i + n) := by
  rw [slice, List.drop_take, Nat.add_sub_cancel_left]

end SmartHome.Insertions
