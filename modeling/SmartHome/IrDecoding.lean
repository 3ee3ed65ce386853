import SmartHome.IrReception

/-!
# A frame with any word

Any word of 32 bits is sent to a decoder that is in any state without a leader
and without complete data. Each captured width lies in the window of its bit.
The decoder holds the word after the frame whatever it held before, and the
first poll after the next overflow checks its four bytes.
-/

namespace SmartHome.IrDecoding

open IrDecoder IrFrames ShiftWindows

/-- The decoder after events. -/
def applyAll (es : List Event) (r : Remote) : Remote := es.foldl (fun r e => e.apply r) r

/-- The high times of a zero and of a one. -/
def BitWidth (bit width : ℕ) : Prop :=
  if bit = 0 then 300 < width ∧ width < 800 else 1400 < width ∧ width < 1800

instance (bit width : ℕ) : Decidable (BitWidth bit width) :=
  inferInstanceAs (Decidable (if bit = 0 then 300 < width ∧ width < 800
    else 1400 < width ∧ width < 1800))

/-- The edges of the first n bits. -/
def bitEdges (widths : ℕ → ℕ) (n : ℕ) : List Event :=
  (List.range n).flatMap fun i => [.rise, .fall (widths i)]

/-- The edges of a frame of 32 bits, most significant bit first. -/
def frameEdges (leader : ℕ) (widths : ℕ → ℕ) : List Event :=
  [.rise, .fall leader] ++ bitEdges widths 32

/-- A byte of a word, the least significant one being byte 0. -/
def byteOf (word i : ℕ) : ℕ := word / 2 ^ (8 * i) % 256

/-- The address is zero, and two bytes are the complements of the others. -/
def WellFormed (word : ℕ) : Prop :=
  byteOf word 3 = 0 ∧ byteOf word 2 = 255 - byteOf word 3 ∧ byteOf word 0 = 255 - byteOf word 1

instance (word : ℕ) : Decidable (WellFormed word) := inferInstanceAs (Decidable (_ ∧ _ ∧ _))

/-- In a frame: after n bits of the word. -/
structure Takes (old word n : ℕ) (r : Remote) : Prop where
  status : r.status = ⟨true, false, false, 0⟩
  register : r.RmtRec = window 32 old word n

/-! ### Words and widths -/

/-- The key of a word is its byte 1, if the word is well formed. -/
theorem keyOf_eq (word : ℕ) : keyOf word = if WellFormed word then byteOf word 1 else 0 := by
  have hthird : byteOf word 3 = word / 2 ^ 24 % 256 := rfl
  have hsecond : byteOf word 2 = word / 2 ^ 16 % 256 := rfl
  have hfirst : byteOf word 1 = word / 2 ^ 8 % 256 := rfl
  have hlast : byteOf word 0 = word % 256 := by rw [byteOf, Nat.mul_zero, Nat.pow_zero, Nat.div_one]
  unfold keyOf REMOTE_ID
  dsimp only [MachineWords.uint8_t]
  rw [← hthird, ← hsecond, ← hfirst, ← hlast]
  by_cases haddress : byteOf word 3 = 255 - byteOf word 2 ∧ byteOf word 3 = 0
  · rw [if_pos haddress]
    by_cases hdata : byteOf word 1 = 255 - byteOf word 0
    · rw [if_pos hdata, if_pos ⟨haddress.2, by omega, by omega⟩]
    · have hbad : ¬WellFormed word := fun h => hdata (by have := h.2.2; omega)
      rw [if_neg hdata, if_neg hbad]
  · have hbad : ¬WellFormed word := fun ⟨hzero, hcomplement, _⟩ =>
      haddress ⟨by omega, hzero⟩
    rw [if_neg haddress, if_neg hbad]

/-- A width in the window of a bit is taken for this bit. -/
theorem bitOf_eq {bit width : ℕ} (hbit : bit < 2) (h : BitWidth bit width) :
    bitOf width = some bit := by
  unfold BitWidth at h
  unfold bitOf
  split at h
  · next hzero => rw [if_pos h, hzero]
  · rw [if_neg (by omega), if_pos h]
    exact congrArg some (by omega)

/-! ### The events of a frame -/

theorem applyAll_append (es fs : List Event) (r : Remote) :
    applyAll (es ++ fs) r = applyAll fs (applyAll es r) := List.foldl_append

/-- A pulse is classified by its width in the status before it. -/
theorem applyAll_pulse (width : ℕ) (r : Remote) :
    (applyAll [.rise, .fall width] r).status =
        ({ r.status with rising := true } : Status).endPulse width ∧
      (applyAll [.rise, .fall width] r).RmtRec =
        ({ r.status with rising := true } : Status).shift width r.RmtRec := by
  have hrise : (Event.apply .rise r).status = { r.status with rising := true } :=
    apply_status .rise r
  have hrec : (Event.apply .rise r).RmtRec = r.RmtRec := apply_RmtRec .rise r
  have hstatus := apply_status (.fall width) (Event.apply .rise r)
  have hregister := apply_RmtRec (.fall width) (Event.apply .rise r)
  rw [hrise] at hstatus hregister
  rw [hrec] at hregister
  exact ⟨hstatus, hregister⟩

/-- The leader begins the word with the register as it is. -/
theorem takes_leader {r : Remote} {word leader : ℕ} (hleader : r.status.leader = false)
    (hready : r.status.ready = false) (hcount : r.status.overflows = 0) (hold : r.RmtRec < 2 ^ 32)
    (hword : word < 2 ^ 32) (hwidth : LeaderWidth leader) :
    Takes r.RmtRec word 0 (applyAll [.rise, .fall leader] r) := by
  obtain ⟨hstatus, hregister⟩ := applyAll_pulse leader r
  refine ⟨?_, ?_⟩
  · rw [hstatus]
    unfold Status.endPulse
    simp [hleader, hready, hcount, hwidth]
  · rw [hregister, window_zero hold hword]
    unfold Status.shift
    rw [if_neg fun h => by simp [hleader] at h]

/-- The next bit moves the window on. -/
theorem Takes.bit {old word n width : ℕ} {r : Remote} (h : Takes old word n r) (hn : n < 32)
    (hwidth : BitWidth (bitAt 32 word n) width) :
    Takes old word (n + 1) (applyAll [.rise, .fall width] r) := by
  have hbit : bitOf width = some (bitAt 32 word n) := bitOf_eq (Nat.mod_lt _ (by decide)) hwidth
  have hrepeat : ¬RepeatWidth width := fun hrep => by
    rw [bitOf_of_wide hrep.wide] at hbit
    cases hbit
  obtain ⟨hstatus, hregister⟩ := applyAll_pulse width r
  refine ⟨?_, ?_⟩
  · rw [hstatus, h.status]
    unfold Status.endPulse
    simp [hrepeat]
  · rw [hregister, h.status, h.register, ← push_window hn]
    unfold Status.shift
    rw [if_pos ⟨rfl, rfl⟩, hbit, Option.elim_some]

/-- The bits in a row. -/
theorem Takes.bits {old word : ℕ} {r : Remote} (h : Takes old word 0 r) {widths : ℕ → ℕ}
    (hwidths : ∀ i < 32, BitWidth (bitAt 32 word i) (widths i)) {n : ℕ} (hn : n ≤ 32) :
    Takes old word n (applyAll (bitEdges widths n) r) := by
  induction n with
  | zero => exact h
  | succ n ih =>
    have hprev := ih (by omega)
    unfold bitEdges at *
    rw [List.range_succ, List.flatMap_append, applyAll_append]
    exact hprev.bit hn (hwidths n hn)

/-! ### Any decoder -/

/-- Without a leader the counter of overflows is at zero, and the register has its
width, after any events. -/
theorem idle_after (history : List Event) :
    ((applyAll history initial).status.leader = false →
        (applyAll history initial).status.overflows = 0) ∧
      (applyAll history initial).RmtRec < 2 ^ 32 := by
  induction history using List.reverseRecOn with
  | nil => exact ⟨fun _ => rfl, by decide⟩
  | append_singleton history e ih =>
    rw [applyAll_append]
    refine ⟨fun hleader => ?_, ?_⟩
    · rw [show applyAll [e] _ = e.apply (applyAll history initial) from rfl, apply_status] at *
      exact effect_idle ih.1 hleader
    · rw [show applyAll [e] _ = e.apply (applyAll history initial) from rfl, apply_RmtRec]
      cases e with
      | fall width => exact shift_lt ih.2
      | _ => exact ih.2

/-- After any events that leave no leader and no complete data, a frame with widths
in their windows and the next overflow leave the word in the register; the poll
returns byte 1 of a well-formed word, and otherwise zero and takes the data. -/
theorem frame_decoded (history : List Event) (word : UInt32) (leader : ℕ) (widths : ℕ → ℕ)
    (hleader : (applyAll history initial).status.leader = false)
    (hready : (applyAll history initial).status.ready = false)
    (hwidth : LeaderWidth leader)
    (hwidths : ∀ i < 32, BitWidth (bitAt 32 word.toNat i) (widths i)) :
    let r := applyAll (frameEdges leader widths ++ [.overflow]) (applyAll history initial)
    r.RmtRec = word.toNat ∧
      (Remote_Scan r).1 = (if WellFormed word.toNat then byteOf word.toNat 1 else 0) ∧
      (¬WellFormed word.toNat → (Remote_Scan r).2.status.ready = false) := by
  have hword : word.toNat < 2 ^ 32 := word.toNat_lt
  obtain ⟨hidle, hold⟩ := idle_after history
  have hstart := takes_leader hleader hready (hidle hleader) hold hword hwidth
  have hend := hstart.bits hwidths le_rfl
  rw [← applyAll_append] at hend
  intro r
  have hrec : r.RmtRec = word.toNat := by
    have hregister := hend.register
    rw [window_width hword] at hregister
    rw [← hregister]
    dsimp only [r]
    rw [applyAll_append]
    exact apply_RmtRec .overflow _
  have hstatus : r.status = ⟨true, true, false, 1⟩ := by
    dsimp only [r]
    rw [applyAll_append]
    refine (apply_status .overflow _).trans ?_
    rw [show applyAll (frameEdges leader widths) _ = _ from rfl, frameEdges, hend.status]
    rfl
  refine ⟨hrec, ?_, fun hbad => ?_⟩
  · rw [Remote_Scan_value, hstatus, if_pos rfl, hrec, keyOf_eq]
  · rw [Remote_Scan_status, hrec, keyOf_eq, if_neg hbad]
    exact Bool.and_false _

/-- The frame of the key 0xA2, after an overflow without a leader. -/
theorem frame_decoded_key :
    let r := applyAll (frameEdges 4500 (fun i => if bitAt 32 0x00FFA25D i = 0 then 560 else 1680)
      ++ [.overflow]) (applyAll [.overflow] initial)
    r.RmtRec = (0x00FFA25D : UInt32).toNat ∧
      (Remote_Scan r).1 = (if WellFormed (0x00FFA25D : UInt32).toNat
        then byteOf (0x00FFA25D : UInt32).toNat 1 else 0) ∧
      (¬WellFormed (0x00FFA25D : UInt32).toNat → (Remote_Scan r).2.status.ready = false) :=
  frame_decoded [.overflow] 0x00FFA25D 4500 _ (by decide) (by decide) (by decide)
    (by decide +kernel)

end SmartHome.IrDecoding
