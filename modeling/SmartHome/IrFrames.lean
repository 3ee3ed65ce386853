import SmartHome.IrDecoder
import SmartHome.TransitionRuns

/-!
# Frames of the remote control on the input line

The line carries frames with anything but pulses of a bit's width in the gaps,
and the decoder is polled at any time. While a frame is shifted in, the
register is a window over the last key word and the new one. No window
between two words passes the checks of the address and of the complement.
-/

namespace SmartHome.IrFrames

open IrDecoder ShiftWindows TransitionRuns

/-- The word of a key: the address 0, its complement, the key and its complement. -/
def frameWord (k : UInt8) : ℕ := 0x00FF0000 + k.toNat * 2 ^ 8 + (255 - k.toNat)

/-- What happens at the decoder. -/
inductive Event where
  /-- The rising edge of the leader of a frame. -/
  | frame (k : UInt8)
  /-- Another rising edge. -/
  | rise
  /-- A falling edge with the captured counter. -/
  | fall (width : ℕ)
  | overflow
  | scan
  deriving DecidableEq, Repr

/-- The captured counter of a falling edge. -/
def Event.width : Event → Option ℕ
  | .fall width => some width
  | _ => none

/-- What the line carries. -/
inductive Line where
  /-- No frame, and whether a rising edge came after the last falling one and the last
  overflow. -/
  | gap (pulse : Bool)
  /-- The high level of the leader. -/
  | leader (k : UInt8)
  /-- The low level before a bit. -/
  | low (k : UInt8) (n : ℕ)
  /-- The high level of a bit. -/
  | high (k : UInt8) (n : ℕ)
  deriving DecidableEq, Repr

/-- The bits of a frame come without an overflow and in their windows; a gap has any edges. -/
def Line.next : Line → Event → Option Line
  | line, .scan => some line
  | .gap _, .frame k => some (.leader k)
  | .gap _, .rise => some (.gap true)
  | .gap _, .fall _ => some (.gap false)
  | .gap _, .overflow => some (.gap false)
  | .leader k, .fall width => if LeaderWidth width then some (.low k 0) else none
  | .low k n, .rise => some (.high k n)
  | .high k n, .fall width =>
    if bitOf width = some (bitAt 32 (frameWord k) n) then
      some (if n < 31 then .low k (n + 1) else .gap false)
    else none
  | _, _ => none

/-- The key whose last bit an event ends. -/
def Line.completes : Line → Event → Option UInt8
  | .high k n, .fall _ => if n = 31 then some k else none
  | _, _ => none

/-- The work of the decoder at an event. -/
def Event.apply : Event → Remote → Remote
  | .frame _, r => HAL_TIM_IC_CaptureCallback .TIM4 true 0 r
  | .rise, r => HAL_TIM_IC_CaptureCallback .TIM4 true 0 r
  | .fall width, r => HAL_TIM_IC_CaptureCallback .TIM4 false width r
  | .overflow, r => HAL_TIM_PeriodElapsedCallback .TIM4 r
  | .scan, r => (Remote_Scan r).2

/-- The decoder with its line, the keys received and the values returned so far. -/
structure Air where
  remote : Remote
  line : Line
  received : List UInt8
  returned : List ℕ
  deriving DecidableEq, Repr

/-- One event. -/
def step (a : Air) (e : Event) : Option Air :=
  (a.line.next e).map fun line =>
    { remote := e.apply a.remote
      line := line
      received := a.received ++ (a.line.completes e).toList
      returned := if e = .scan then a.returned ++ [(Remote_Scan a.remote).1] else a.returned }

/-- The decoder after the start. -/
def start : Air := ⟨initial, .gap false, [], []⟩

/-- A gap has no pulse as wide as a bit. -/
def Quiet (a : Air) (e : Event) : Prop :=
  a.line = .gap true → ∀ width ∈ e.width, bitOf width = none

instance (a : Air) (e : Event) : Decidable (Quiet a e) :=
  inferInstanceAs (Decidable (_ → ∀ width ∈ e.width, _))

/-- A frame with the widths of the transmitter. -/
def sent (k : UInt8) : List Event :=
  [.frame k, .fall 4500] ++ (List.range 32).flatMap fun n =>
    [.rise, .fall (if bitAt 32 (frameWord k) n = 0 then 560 else 1680)]

/-- Nonzero values returned are keys received. -/
def Air.Ghostless (a : Air) : Prop := ∀ v ∈ a.returned, v ≠ 0 → ∃ k ∈ a.received, k.toNat = v

/-! ### Words of the register -/

theorem frameWord_lt (k : UInt8) : frameWord k < 2 ^ 32 := by
  have hk := k.toNat_lt
  unfold frameWord
  omega

theorem frameWord_div (k : UInt8) : frameWord k / 2 ^ 16 = 255 := by
  have hk := k.toNat_lt
  unfold frameWord
  omega

/-- The word of a key passes the checks with its key. -/
theorem keyOf_frameWord (k : UInt8) : keyOf (frameWord k) = k.toNat := by
  revert k
  exact forall_byte (by decide +kernel)

/-- A word with a key has the address in its upper half. -/
theorem upper_of_keyOf {word : ℕ} (h : keyOf word ≠ 0) : word / 2 ^ 16 % 2 ^ 16 = 255 := by
  unfold keyOf REMOTE_ID at h
  dsimp only [MachineWords.uint8_t] at h
  by_cases haddress : word / 2 ^ 24 % 256 = 255 - word / 2 ^ 16 % 256 ∧ word / 2 ^ 24 % 256 = 0
  · omega
  · exact absurd (if_neg haddress) h

/-- Between two words only the middle of the words of key zero has the address in its
upper half. -/
theorem straddle_upper : ∀ k < 256, ∀ n < 32, 0 < n →
    (frameWord (UInt8.ofNat k) * 2 ^ 16 + 255) / 2 ^ (32 - n) % 2 ^ 16 = 255 → k = 0 ∧ n = 16 := by
  decide +kernel

/-- The middle of the words of key zero and of another key has key zero. -/
theorem keyOf_middle (k : UInt8) : keyOf (window 32 (frameWord 0) (frameWord k) 16) = 0 := by
  revert k
  exact forall_byte (by decide +kernel)

/-- No window between two words, or before the first word, has a key. -/
theorem keyOf_window {old n : ℕ} (hold : old = 0 ∨ ∃ j, old = frameWord j) (k : UInt8)
    (hpos : 0 < n) (hn : n < 32) : keyOf (window 32 old (frameWord k) n) = 0 := by
  by_contra hkey
  have hupper := upper_of_keyOf hkey
  rw [show (32 : ℕ) = 16 + 16 from rfl, window_div, Nat.mod_mod, frameWord_div] at hupper
  rcases hold with rfl | ⟨j, rfl⟩
  · -- at least one bit is still missing of the address
    have hhalf : 255 / 2 ^ (16 + 16 - n) ≤ 255 / 2 ^ 1 :=
      Nat.div_le_div_left (Nat.pow_le_pow_right (by decide) (by omega)) (by decide)
    rw [Nat.zero_mul, Nat.zero_add] at hupper
    generalize 255 / 2 ^ (16 + 16 - n) = half at hhalf hupper
    omega
  · have hj : UInt8.ofNat j.toNat = j := UInt8.ofNat_toNat
    rw [← hj] at hupper
    obtain ⟨hzero, rfl⟩ := straddle_upper j.toNat j.toNat_lt n hn hpos hupper
    rw [hzero] at hj
    exact hkey (hj ▸ keyOf_middle k)

/-! ### One event -/

/-- The status after an event. -/
def Event.effect : Event → ℕ → Status → Status
  | .frame _, _, s => { s with rising := true }
  | .rise, _, s => { s with rising := true }
  | .fall width, _, s => s.endPulse width
  | .overflow, _, s => s.elapse
  | .scan, key, s => s.poll key

theorem apply_status (e : Event) (r : Remote) :
    (e.apply r).status = e.effect (keyOf r.RmtRec) r.status := by
  cases e with
  | frame k => exact rise_status 0 r
  | rise => exact rise_status 0 r
  | fall width => exact fall_status width r
  | overflow => exact elapse_status r
  | scan => exact Remote_Scan_status r

/-- The register changes at falling edges only. -/
theorem apply_RmtRec (e : Event) (r : Remote) :
    (e.apply r).RmtRec = match e with
      | .fall width => r.status.shift width r.RmtRec
      | _ => r.RmtRec := by
  cases e with
  | frame k => rfl
  | rise => rfl
  | fall width => exact fall_RmtRec width r
  | overflow => rfl
  | scan => exact Remote_Scan_RmtRec r

/-- Where the register and the status stand in a frame, or after its end. -/
def Line.Holds (old : ℕ) (r : Remote) : Line → Prop
  | .gap pulse => r.RmtRec = old ∧ (r.status.rising → r.status.leader → pulse)
  | .leader _ => r.RmtRec = old ∧ r.status.rising
  | .low k n => n < 32 ∧ r.status.leader ∧ r.RmtRec = window 32 old (frameWord k) n
  | .high k n => n < 32 ∧ r.status.leader ∧ r.status.rising ∧
      r.RmtRec = window 32 old (frameWord k) n

/-- The key of the frame on the line. -/
def Line.key : Line → Option UInt8
  | .gap _ => none
  | .leader k => some k
  | .low k _ => some k
  | .high k _ => some k

/-- The bits of the current frame that are in the register. -/
def Line.progress : Line → ℕ
  | .gap _ => 0
  | .leader _ => 0
  | .low _ n => n
  | .high _ n => n

/-- A poll changes nothing but the ready bit. -/
theorem Line.Holds.scan {line : Line} {old : ℕ} {r : Remote} (h : line.Holds old r) :
    line.Holds old (Remote_Scan r).2 := by
  cases line <;> simpa [Line.Holds, Remote_Scan_status, Remote_Scan_RmtRec, Status.poll] using h

/-- In a frame the register is a window of the last word and the new one. -/
theorem Line.Holds.register {line : Line} {k : UInt8} {old : ℕ} {r : Remote} (hold : old < 2 ^ 32)
    (h : line.Holds old r) (hkey : line.key = some k) :
    line.progress < 32 ∧ r.RmtRec = window 32 old (frameWord k) line.progress := by
  cases line with
  | gap pulse => cases hkey
  | leader j => exact ⟨Nat.succ_pos 31, h.1.trans (window_zero hold (frameWord_lt k)).symm⟩
  | low j n =>
    cases hkey
    exact ⟨h.1, h.2.2⟩
  | high j n =>
    cases hkey
    exact ⟨h.1, h.2.2.2⟩

/-- The end of a leader sets its bit, and nothing is shifted in. -/
theorem Line.Holds.leaderEnd {k : UInt8} {old width : ℕ} {r : Remote} (hold : old < 2 ^ 32)
    (h : (Line.leader k).Holds old r) (hwidth : LeaderWidth width) :
    (Line.low k 0).Holds old (Event.apply (.fall width) r) := by
  obtain ⟨hrec, hrising⟩ := h
  refine ⟨by decide, ?_, ?_⟩
  · rw [apply_status]
    simp [Event.effect, Status.endPulse, hrising, hwidth]
  · rw [apply_RmtRec, window_zero hold (frameWord_lt k), ← hrec]
    dsimp only [Status.shift]
    rw [bitOf_of_wide hwidth.wide, Option.elim_none, ite_self]

/-- The end of a bit shifts it in. -/
theorem Line.Holds.bitEnd {k : UInt8} {old n width : ℕ} {r : Remote}
    (h : (Line.high k n).Holds old r) (hbit : bitOf width = some (bitAt 32 (frameWord k) n)) :
    (Event.apply (.fall width) r).RmtRec = window 32 old (frameWord k) (n + 1) ∧
      (Event.apply (.fall width) r).status.leader ∧
      (Event.apply (.fall width) r).status.rising = false := by
  obtain ⟨hn, hleader, hrising, hrec⟩ := h
  refine ⟨?_, ?_, ?_⟩
  · rw [apply_RmtRec]
    dsimp only [Status.shift]
    rw [if_pos ⟨hrising, hleader⟩, hbit, Option.elim_some, hrec, push_window hn]
  · rw [apply_status]
    simp [Event.effect, Status.endPulse, hleader]
  · rw [apply_status]
    rfl

/-- In a frame the register takes the bits one by one; after the last one it is the
word of the key. -/
theorem Line.Holds.body {line line' : Line} {e : Event} {k : UInt8} {old : ℕ} {r : Remote}
    (hold : old < 2 ^ 32) (h : line.Holds old r) (hkey : line.key = some k)
    (hnext : line.next e = some line') :
    (line.completes e = some k ∧ line' = .gap false ∧ (e.apply r).RmtRec = frameWord k ∧
      (e.apply r).status.leader ∧ (e.apply r).status.rising = false) ∨
    (line.completes e = none ∧ line'.key = some k ∧ line'.Holds old (e.apply r)) := by
  cases e with
  | scan =>
    have hsame : line = line' := by cases line <;> exact Option.some.inj hnext
    refine Or.inr ⟨?_, hsame ▸ hkey, hsame ▸ h.scan⟩
    cases line <;> rfl
  | rise =>
    cases line with
    | low j n =>
      cases hkey
      cases hnext
      obtain ⟨hn, hleader, hrec⟩ := h
      refine Or.inr ⟨rfl, rfl, hn, ?_, ?_, ?_⟩
      · rw [apply_status]
        exact hleader
      · rw [apply_status]
        rfl
      · rw [apply_RmtRec]
        exact hrec
    | gap _ => cases hkey
    | _ => cases hnext
  | fall width =>
    cases line with
    | leader j =>
      cases hkey
      obtain ⟨hwidth, hline⟩ := Option.ite_none_right_eq_some.mp hnext
      cases hline
      exact Or.inr ⟨rfl, rfl, h.leaderEnd hold hwidth⟩
    | high j n =>
      cases hkey
      obtain ⟨hbit, hline⟩ := Option.ite_none_right_eq_some.mp hnext
      obtain ⟨hpushed, hleader, hrising⟩ := h.bitEnd hbit
      have hn := h.1
      dsimp only [Line.completes]
      by_cases hlast : n = 31
      · subst hlast
        cases hline
        exact Or.inl ⟨if_pos rfl, rfl, hpushed.trans (window_width (frameWord_lt k)), hleader,
          hrising⟩
      · rw [if_pos (by omega)] at hline
        cases hline
        exact Or.inr ⟨if_neg hlast, rfl, by omega, hleader, hpushed⟩
    | gap _ => cases hkey
    | low _ _ => cases hnext
  | frame _ =>
    cases line with
    | gap _ => cases hkey
    | _ => cases hnext
  | overflow =>
    cases line with
    | gap _ => cases hkey
    | _ => cases hnext

/-- Nothing is shifted in between two frames. -/
theorem Line.Holds.between {pulse : Bool} {line' : Line} {e : Event} {old : ℕ} {r : Remote}
    (h : (Line.gap pulse).Holds old r) (hnext : (Line.gap pulse).next e = some line')
    (hquiet : pulse = true → ∀ width ∈ e.width, bitOf width = none) :
    line'.Holds old (e.apply r) := by
  cases e with
  | scan =>
    cases hnext
    exact h.scan
  | frame k =>
    cases hnext
    refine ⟨?_, ?_⟩
    · rw [apply_RmtRec]
      exact h.1
    · rw [apply_status]
      rfl
  | rise =>
    cases hnext
    refine ⟨?_, fun _ _ => rfl⟩
    rw [apply_RmtRec]
    exact h.1
  | fall width =>
    cases hnext
    refine ⟨?_, fun hrising => ?_⟩
    · rw [apply_RmtRec]
      dsimp only [Status.shift]
      by_cases hpulse : r.status.rising ∧ r.status.leader
      · have hnone := hquiet (h.2 hpulse.1 hpulse.2) width rfl
        rw [if_pos hpulse, hnone]
        exact h.1
      · rw [if_neg hpulse]
        exact h.1
    · rw [apply_status] at hrising
      exact absurd hrising Bool.false_ne_true
  | overflow =>
    cases hnext
    refine ⟨?_, fun hrising hleader => ?_⟩
    · rw [apply_RmtRec]
      exact h.1
    · -- an overflow after a leader ends the pulse
      rw [apply_status] at hrising hleader
      dsimp only [Event.effect, Status.elapse] at hrising hleader
      split at hrising
      · exact hrising
      · next hnone =>
        rw [if_neg hnone] at hleader
        exact absurd hleader hnone

/-! ### Runs -/

/-- The register holds the word of a received key, or nothing yet, up to the bits
of the current frame. -/
def Air.Follows (a : Air) : Prop :=
  ∃ old, (old = 0 ∨ ∃ k ∈ a.received, old = frameWord k) ∧ a.line.Holds old a.remote

theorem lt_of_word {received : List UInt8} {old : ℕ}
    (hold : old = 0 ∨ ∃ k ∈ received, old = frameWord k) : old < 2 ^ 32 := by
  rcases hold with rfl | ⟨j, _, rfl⟩
  · decide
  · exact frameWord_lt j

/-- A key in the register is a received one. -/
theorem Air.Follows.key {a : Air} (h : a.Follows) (hkey : keyOf a.remote.RmtRec ≠ 0) :
    ∃ k ∈ a.received, k.toNat = keyOf a.remote.RmtRec := by
  obtain ⟨old, hold, hline⟩ := h
  have hlt := lt_of_word hold
  have hrec : a.remote.RmtRec = old := by
    cases hl : a.line with
    | gap pulse =>
      rw [hl] at hline
      exact hline.1
    | _ =>
      obtain ⟨hn, hwindow⟩ := hline.register hlt (by rw [hl]; rfl)
      rcases Nat.eq_zero_or_pos a.line.progress with hzero | hpos
      · rw [hwindow, hzero, window_zero hlt (frameWord_lt _)]
      · have hword : old = 0 ∨ ∃ j, old = frameWord j := hold.imp_right fun ⟨j, _, hj⟩ => ⟨j, hj⟩
        exact absurd (by rw [hwindow, keyOf_window hword _ hpos hn]) hkey
  rw [hrec] at hkey ⊢
  rcases hold with rfl | ⟨k, hk, rfl⟩
  · exact absurd rfl hkey
  · exact ⟨k, hk, (keyOf_frameWord k).symm⟩

theorem Air.Follows.step {a b : Air} {e : Event} (h : a.Follows) (hquiet : Quiet a e)
    (hs : step a e = some b) : b.Follows := by
  obtain ⟨old, hold, hline⟩ := h
  obtain ⟨line', hnext, rfl⟩ := Option.map_eq_some_iff.mp hs
  have hgrow : old = 0 ∨ ∃ k ∈ a.received ++ (a.line.completes e).toList, old = frameWord k :=
    hold.imp_right fun ⟨k, hk, hw⟩ => ⟨k, List.mem_append_left _ hk, hw⟩
  cases hkey : a.line.key with
  | some k =>
    rcases hline.body (lt_of_word hold) hkey hnext with
      ⟨hdone, rfl, hrec, _, hrising⟩ | ⟨_, _, hnew⟩
    · refine ⟨frameWord k, Or.inr ⟨k, by simp [hdone], rfl⟩, hrec, fun h => ?_⟩
      exact absurd (h.symm.trans hrising) (by decide)
    · exact ⟨old, hgrow, hnew⟩
  | none =>
    cases hl : a.line with
    | gap pulse =>
      rw [hl] at hline hnext hgrow
      refine ⟨old, hgrow, hline.between hnext fun hpulse => hquiet ?_⟩
      rw [hl, hpulse]
    | _ => cases hl ▸ hkey

/-- Whatever the decoder returns, at any time, is zero or a key that was received. -/
theorem no_ghost (es : List Event) (h : Guarded Quiet step start es) :
    Always Air.Ghostless step start es := by
  refine always_of_guarded (I := fun a => a.Follows ∧ a.Ghostless) (fun _ hinv => hinv.2)
    (fun a e b hinv hquiet hs => ⟨hinv.1.step hquiet hs, ?_⟩) h ?_
  · obtain ⟨line', _, rfl⟩ := Option.map_eq_some_iff.mp hs
    have hgrow : ∀ v, (∃ k ∈ a.received, k.toNat = v) →
        ∃ k ∈ a.received ++ (a.line.completes e).toList, k.toNat = v :=
      fun v ⟨k, hk, hv⟩ => ⟨k, List.mem_append_left _ hk, hv⟩
    intro v hv hne
    by_cases hscan : e = .scan
    · rw [if_pos hscan, List.mem_append, List.mem_singleton] at hv
      rcases hv with hv | rfl
      · exact hgrow v (hinv.2 v hv hne)
      · rw [Remote_Scan_value] at hne ⊢
        by_cases hready : a.remote.status.ready
        · rw [if_pos hready] at hne ⊢
          exact hgrow _ (hinv.1.key hne)
        · exact absurd (if_neg hready) hne
    · rw [if_neg hscan] at hv
      exact hgrow v (hinv.2 v hv hne)
  · exact ⟨⟨0, Or.inl rfl, rfl, by decide⟩, fun v hv => by cases hv⟩

/-- A key is polled after its overflow and in the middle of the next frame. -/
theorem no_ghost_straddling :
    Always Air.Ghostless step start
      (sent 0xA2 ++ [.overflow, .scan] ++ (sent 0x62).take 40 ++ [.scan]) :=
  no_ghost _ (by decide +kernel)

end SmartHome.IrFrames
