import Mathlib.Data.List.Infix

/-!
# Byte strings and substring search

Strings of a C program are lists of bytes without their terminator. Searching
returns the rest of the string from the first occurrence on, or its position
in a buffer in which a zero byte ends the text.
-/

namespace SmartHome.ByteStrings

/-- Bytes of a literal. -/
def bytes (s : String) : List UInt8 := s.toList.map fun c => UInt8.ofNat c.toNat

/-- The text from the first occurrence of the pattern on. -/
def strstr (pattern : List UInt8) : List UInt8 → Option (List UInt8)
  | [] => if pattern = [] then some [] else none
  | c :: cs => if pattern.isPrefixOf (c :: cs) then some (c :: cs) else strstr pattern cs

/-- The result of a search is a suffix of the text. -/
theorem strstr_suffix {pattern text rest : List UInt8} (h : strstr pattern text = some rest) :
    rest <:+ text := by
  induction text with
  | nil =>
    obtain ⟨-, h⟩ := Option.ite_none_right_eq_some.mp h
    cases h
    exact List.suffix_refl []
  | cons c cs ih =>
    unfold strstr at h
    split at h
    · cases h
      exact List.suffix_refl _
    · exact (ih h).trans (List.suffix_cons c cs)

/-- A search succeeds exactly if the text contains the pattern. -/
theorem strstr_isSome_iff {pattern text : List UInt8} :
    (strstr pattern text).isSome = true ↔ pattern <:+: text := by
  induction text with
  | nil =>
    rw [strstr, List.infix_nil]
    split
    case isTrue h => simp [h]
    case isFalse h => simp [h]
  | cons c cs ih =>
    rw [strstr, List.infix_cons_iff, ← ih, ← List.isPrefixOf_iff_prefix]
    split
    case isTrue h => simp [h]
    case isFalse h => simp [h]

/-! ### Search in a buffer -/

section Buffers

variable {β : Type*} [DecidableEq β] [OfNat β 0]

/-- The first position of the token; the search ends at a zero byte. -/
def strnstr (token : List β) : List β → Option ℕ
  | [] => if token = [] then some 0 else none
  | c :: rest =>
    if token = [] then some 0
    else if c = 0 ∨ rest.length + 1 < token.length then none
    else if token.isPrefixOf (c :: rest) then some 0
    else (strnstr token rest).map (· + 1)

/-- The token lies inside the buffer. -/
theorem strnstr_le {token buffer : List β} {i : ℕ} (h : strnstr token buffer = some i) :
    i + token.length ≤ buffer.length := by
  induction buffer generalizing i with
  | nil =>
    rw [strnstr] at h
    split_ifs at h with htoken
    cases h
    simp [htoken]
  | cons c rest ih =>
    rw [strnstr] at h
    split_ifs at h with htoken hend hhead
    · cases h
      simp [htoken]
    · cases h
      rw [List.length_cons]
      omega
    · obtain ⟨j, hj, rfl⟩ := Option.map_eq_some_iff.mp h
      have := ih hj
      rw [List.length_cons]
      omega

/-- What follows the buffer does not matter to a search that succeeds. -/
theorem strnstr_append {token buffer : List β} {i : ℕ} (h : strnstr token buffer = some i)
    (rest : List β) : strnstr token (buffer ++ rest) = some i := by
  induction buffer generalizing i with
  | nil =>
    rw [strnstr] at h
    split_ifs at h with htoken
    cases h
    cases rest <;> simp [strnstr, htoken]
  | cons c buffer ih =>
    rw [strnstr] at h
    rw [List.cons_append, strnstr]
    have hlong (hend : ¬(c = 0 ∨ buffer.length + 1 < token.length)) :
        ¬(c = 0 ∨ (buffer ++ rest).length + 1 < token.length) := by
      rw [not_or] at hend ⊢
      rw [List.length_append]
      exact ⟨hend.1, by omega⟩
    split_ifs at h with htoken hend hhead
    · rw [if_pos htoken]
      exact h
    · have hhead' : token.isPrefixOf (c :: (buffer ++ rest)) = true := by
        rw [List.isPrefixOf_iff_prefix] at hhead ⊢
        exact hhead.trans (List.prefix_append (c :: buffer) rest)
      rw [if_neg htoken, if_neg (hlong hend), if_pos hhead']
      exact h
    · have hhead' : ¬token.isPrefixOf (c :: (buffer ++ rest)) = true := by
        rw [List.isPrefixOf_iff_prefix] at hhead ⊢
        intro hprefix
        refine hhead (List.prefix_of_prefix_length_le hprefix
          (List.prefix_append (c :: buffer) rest) ?_)
        rw [List.length_cons]
        omega
      obtain ⟨j, hj, rfl⟩ := Option.map_eq_some_iff.mp h
      rw [if_neg htoken, if_neg (hlong hend), if_neg hhead', ih hj]
      rfl

theorem strnstr_longer {token buffer longer : List β} {i : ℕ} (hlonger : buffer <+: longer)
    (h : strnstr token buffer = some i) : strnstr token longer = some i := by
  obtain ⟨rest, rfl⟩ := hlonger
  exact strnstr_append h rest

/-- A token is found where its first byte first occurs, if it stands there. -/
theorem strnstr_first {t : β} {ts before : List β} (ht : t ≠ 0) (hzero : 0 ∉ before)
    (hfirst : t ∉ before) (rest : List β) :
    strnstr (t :: ts) (before ++ (t :: ts) ++ rest) = some before.length := by
  induction before with
  | nil =>
    have hlong : ¬(t = 0 ∨ (ts ++ rest).length + 1 < (t :: ts).length) := by
      rw [List.length_append, List.length_cons, not_or, Nat.not_lt]
      exact ⟨ht, by omega⟩
    rw [List.nil_append, List.cons_append, strnstr, if_neg (List.cons_ne_nil t ts),
      if_neg hlong, if_pos]
    · rfl
    · rw [List.isPrefixOf_iff_prefix]
      exact List.prefix_append (t :: ts) rest
  | cons c before ih =>
    rw [List.mem_cons, not_or] at hzero hfirst
    have hlong : ¬(c = 0 ∨ (before ++ (t :: ts) ++ rest).length + 1 < (t :: ts).length) := by
      rw [List.length_append, List.length_append, not_or, Nat.not_lt]
      exact ⟨fun heq => hzero.1 heq.symm, by omega⟩
    have hhead : ¬(t :: ts).isPrefixOf (c :: (before ++ (t :: ts) ++ rest)) = true := by
      rw [List.isPrefixOf_iff_prefix, List.cons_prefix_cons]
      exact fun h => hfirst.1 h.1
    rw [List.cons_append, List.cons_append, strnstr, if_neg (List.cons_ne_nil t ts),
      if_neg hlong, if_neg hhead, ih hzero.2 hfirst.2]
    rfl

/-- A token whose first byte does not occur is not found. -/
theorem strnstr_none {t : β} {ts buffer : List β} (h : t ∉ buffer) :
    strnstr (t :: ts) buffer = none := by
  induction buffer with
  | nil => rfl
  | cons c buffer ih =>
    rw [List.mem_cons, not_or] at h
    have hhead : ¬(t :: ts).isPrefixOf (c :: buffer) = true := by
      rw [List.isPrefixOf_iff_prefix, List.cons_prefix_cons]
      exact fun hc => h.1 hc.1
    rw [strnstr, if_neg (List.cons_ne_nil t ts), ih h.2, if_neg hhead]
    exact ite_self _

end Buffers

end SmartHome.ByteStrings
