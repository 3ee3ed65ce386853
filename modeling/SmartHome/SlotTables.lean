import Mathlib.Data.List.Basic

/-!
# Slots and the parties that hold them

A table has a flag for each slot, and each of some parties holds one slot or
none. The flags and the holders agree: a slot in use is held by one party, and
the others are held by nobody.
-/

namespace SmartHome.SlotTables

/-- The slots in use are held by one party each. -/
structure Held (inuse : List Bool) (holders : List (Option ℕ)) : Prop where
  inuse_iff : ∀ j : ℕ, inuse[j]? = some true ↔ some j ∈ holders
  unique : ∀ i i' j : ℕ, holders[i]? = some (some j) → holders[i']? = some (some j) → i = i'
  count_eq : holders.countP Option.isSome = inuse.count true

variable {inuse : List Bool} {holders : List (Option ℕ)} {i j : ℕ}

/-- Nobody holds anything in a new table. -/
theorem held_nil (n : ℕ) : Held (List.replicate n false) [] where
  inuse_iff j := by simp [List.getElem?_replicate]
  unique i i' j h := by simp at h
  count_eq := by simp [List.count_replicate]

/-- The first free slot is free. -/
theorem findFree (h : inuse.findIdx? (fun b => !b) = some j) : inuse[j]? = some false := by
  obtain ⟨hj, hfree, _⟩ := List.findIdx?_eq_some_iff_getElem.mp h
  rw [List.getElem?_eq_getElem hj]
  simpa using hfree

/-- A slot is taken and given back at once. -/
theorem set_set_free (h : inuse[j]? = some false) : (inuse.set j true).set j false = inuse := by
  obtain ⟨hj, hfree⟩ := List.getElem?_eq_some_iff.mp h
  rw [List.set_set, ← hfree, List.set_getElem_self]

/-- One more party comes without a slot. -/
theorem Held.join (h : Held inuse holders) : Held inuse (holders ++ [none]) where
  inuse_iff k := by simp [h.inuse_iff k]
  unique k k' l hk hk' := by
    have hlt : ∀ {m : ℕ}, (holders ++ [none])[m]? = some (some l) →
        holders[m]? = some (some l) := by
      intro m hm
      rw [List.getElem?_append] at hm
      split_ifs at hm with hlen
      · exact hm
      · rw [List.getElem?_singleton] at hm
        split_ifs at hm
        cases hm
    exact h.unique k k' l (hlt hk) (hlt hk')
  count_eq := by simp [h.count_eq]

/-- A party without a slot takes a free one. -/
theorem Held.acquire (h : Held inuse holders) (hi : holders[i]? = some none)
    (hj : inuse[j]? = some false) : Held (inuse.set j true) (holders.set i (some j)) := by
  obtain ⟨hilen, higet⟩ := List.getElem?_eq_some_iff.mp hi
  obtain ⟨hjlen, hjget⟩ := List.getElem?_eq_some_iff.mp hj
  have hnot : some j ∉ holders := fun hmem => by
    have := (h.inuse_iff j).mpr hmem
    rw [hj] at this
    cases this
  refine ⟨fun k => ?_, fun k k' l hk hk' => ?_, ?_⟩
  · rw [List.getElem?_set]
    by_cases hjk : j = k
    · subst hjk
      rw [if_pos rfl, if_pos hjlen]
      exact ⟨fun _ => List.mem_set hilen _, fun _ => rfl⟩
    · rw [if_neg hjk, h.inuse_iff k]
      constructor
      · intro hmem
        obtain ⟨m, hm⟩ := List.mem_iff_getElem?.mp hmem
        have him : i ≠ m := by
          rintro rfl
          rw [hi] at hm
          cases hm
        exact List.mem_of_getElem? (i := m) (by rw [List.getElem?_set, if_neg him, hm])
      · intro hmem
        obtain hmem | heq := List.mem_or_eq_of_mem_set hmem
        · exact hmem
        · cases heq
          exact absurd rfl hjk
  · rw [List.getElem?_set] at hk hk'
    have hother : ∀ {m : ℕ}, holders[m]? = some (some l) → l ≠ j := by
      rintro m hm rfl
      exact hnot (List.mem_of_getElem? hm)
    split_ifs at hk hk' with him him'
    · exact him.symm.trans him'
    · cases hk
      exact absurd rfl (hother hk')
    · cases hk'
      exact absurd rfl (hother hk)
    · exact h.unique k k' l hk hk'
  · rw [List.countP_set hilen, List.count_set hjlen, higet, hjget, h.count_eq]
    rfl

/-- A party gives its slot back. -/
theorem Held.release (h : Held inuse holders) (hi : holders[i]? = some (some j)) :
    Held (inuse.set j false) (holders.set i none) := by
  obtain ⟨hilen, higet⟩ := List.getElem?_eq_some_iff.mp hi
  have hj : inuse[j]? = some true := (h.inuse_iff j).mpr (List.mem_of_getElem? hi)
  obtain ⟨hjlen, hjget⟩ := List.getElem?_eq_some_iff.mp hj
  refine ⟨fun k => ?_, fun k k' l hk hk' => ?_, ?_⟩
  · rw [List.getElem?_set]
    by_cases hjk : j = k
    · subst hjk
      rw [if_pos rfl, if_pos hjlen]
      refine ⟨fun hfalse => (by cases hfalse), fun hmem => ?_⟩
      obtain ⟨m, hm⟩ := List.mem_iff_getElem?.mp hmem
      rw [List.getElem?_set] at hm
      split_ifs at hm with him
      · cases hm
      · exact absurd (h.unique i m j hi hm) him
    · rw [if_neg hjk, h.inuse_iff k]
      constructor
      · intro hmem
        obtain ⟨m, hm⟩ := List.mem_iff_getElem?.mp hmem
        have him : i ≠ m := by
          rintro rfl
          rw [hi] at hm
          cases hm
          exact hjk rfl
        exact List.mem_of_getElem? (i := m) (by rw [List.getElem?_set, if_neg him, hm])
      · intro hmem
        obtain hmem | heq := List.mem_or_eq_of_mem_set hmem
        · exact hmem
        · cases heq
  · rw [List.getElem?_set] at hk hk'
    split_ifs at hk hk' with him him'
    · exact him.symm.trans him'
    · cases hk
    · cases hk'
    · exact h.unique k k' l hk hk'
  · have hpos : 0 < inuse.count true := List.count_pos_iff.mpr (List.mem_of_getElem? hj)
    rw [List.countP_set hilen, List.count_set hjlen, higet, hjget, h.count_eq]
    rfl

/-- A table of which nobody holds a slot has none in use. -/
theorem Held.all_free (h : Held inuse holders) (hnone : ∀ holder ∈ holders, holder = none) :
    ∀ flag ∈ inuse, flag = false := by
  intro flag hmem
  obtain ⟨j, hj⟩ := List.mem_iff_getElem?.mp hmem
  cases flag with
  | false => rfl
  | true => cases hnone _ ((h.inuse_iff j).mp hj)

/-- There are no more holders than slots. -/
theorem Held.count_le (h : Held inuse holders) :
    holders.countP Option.isSome ≤ inuse.length := by
  rw [h.count_eq]
  exact List.count_le_length

end SmartHome.SlotTables
