import SmartHome.IrFrames

/-!
# When a frame of the remote control is received

A frame arrives in any state of the decoder and is followed by the next
overflow. The leader does not restart the counter of overflows, and only an
overflow with the counter at zero marks the data as complete. A frame during
the countdown of the last one is received only if its data are still marked.
-/

namespace SmartHome.IrFrames

open IrDecoder ShiftWindows TransitionRuns

/-- An edge or a poll that is no pulse of a bit or of a repetition. -/
def Event.Pause : Event → Prop
  | .rise => True
  | .scan => True
  | .fall width => bitOf width = none ∧ ¬RepeatWidth width
  | .frame _ => False
  | .overflow => False

instance : ∀ e : Event, Decidable e.Pause
  | .rise => isTrue trivial
  | .scan => isTrue trivial
  | .fall _ => inferInstanceAs (Decidable (_ ∧ _))
  | .frame _ => isFalse id
  | .overflow => isFalse id

/-- A frame with polls at any time, the edges after it and the next overflow. -/
structure Arrival (k : UInt8) (body tail : List Event) (s t v : Air) : Prop where
  /-- The leader begins the frame and the body ends it. -/
  receives : run step s (.frame k :: body) = some t
  /-- The body is inside the frame. -/
  inside : ∀ a ∈ step s (.frame k), Guarded (fun a _ => a.line.key = some k) step a body
  ended : t.line.key = none
  pause : ∀ e ∈ tail, e.Pause
  overflows : run step t (tail ++ [.overflow]) = some v

/-- The next poll returns the key. -/
def Air.Delivers (v : Air) (k : UInt8) : Prop := (Remote_Scan v.remote).1 = k.toNat

/-- A poll in the frame finds a key in the last word and the bits that follow it. -/
def PollPasses (word : ℕ) (k : UInt8) (a : Air) (e : Event) : Prop :=
  e = .scan → keyOf (window 32 word (frameWord k) a.line.progress) ≠ 0

instance (word : ℕ) (k : UInt8) (a : Air) (e : Event) : Decidable (PollPasses word k a e) :=
  inferInstanceAs (Decidable (_ → _))

/-- The counter is at zero before the frame, or the data are marked as complete and stay
so at every poll in the frame. -/
def Prepared (k : UInt8) (body : List Event) (s : Air) : Prop :=
  s.remote.status.overflows = 0 ∨
    s.remote.status.ready = true ∧
      Guarded (PollPasses s.remote.RmtRec k) step s (.frame k :: body)

instance (k : UInt8) (body : List Event) (s : Air) : Decidable (Prepared k body s) :=
  inferInstanceAs (Decidable (_ ∨ _ ∧ Guarded _ _ _ _))

/-! ### Any run -/

/-- The counter of overflows only runs after a leader, and the register has its width. -/
def Steady (a : Air) : Prop :=
  (a.remote.status.leader = false → a.remote.status.overflows = 0) ∧ a.remote.RmtRec < 2 ^ 32

theorem effect_idle {e : Event} {key : ℕ} {s : Status} (h : s.leader = false → s.overflows = 0)
    (hleader : (e.effect key s).leader = false) : (e.effect key s).overflows = 0 := by
  cases e with
  | frame k => exact h hleader
  | rise => exact h hleader
  | fall width =>
    dsimp only [Event.effect, Status.endPulse] at hleader ⊢
    rw [h (Bool.or_eq_false_iff.mp hleader).1, ite_self]
  | overflow =>
    dsimp only [Event.effect, Status.elapse] at hleader ⊢
    split at hleader
    · next hset =>
      rw [if_pos hset]
      dsimp only
      rw [if_neg (of_decide_eq_false hleader)]
    · next hnone =>
      rw [if_neg hnone]
      exact h hleader
  | scan => exact h hleader

theorem shift_lt {s : Status} {width word : ℕ} (h : word < 2 ^ 32) :
    s.shift width word < 2 ^ 32 := by
  unfold Status.shift
  split
  · cases bitOf width with
    | none => exact h
    | some bit => exact Nat.mod_lt _ (Nat.two_pow_pos 32)
  · exact h

theorem steady_of_reachable {s : Air} (h : Reachable (· = start) step s) : Steady s := by
  refine h.invariant (fun _ hs => hs ▸ ⟨fun _ => rfl, by decide⟩) fun a e b ha hs => ?_
  obtain ⟨line, _, rfl⟩ := Option.map_eq_some_iff.mp hs
  refine ⟨fun hleader => ?_, ?_⟩
  · dsimp only at hleader ⊢
    rw [apply_status] at hleader ⊢
    exact effect_idle ha.1 hleader
  · dsimp only
    rw [apply_RmtRec]
    cases e with
    | fall width => exact shift_lt ha.2
    | _ => exact ha.2

/-! ### Inside the frame -/

/-- In a frame the counter of overflows stays, and only a poll that finds no key clears
the ready bit after a leader. -/
theorem body_status {line line' : Line} {e : Event} {k : UInt8} (hkey : line.key = some k)
    (hnext : line.next e = some line') (key : ℕ) (s : Status) :
    (e.effect key s).overflows = s.overflows ∧
      (s.leader = true → (e.effect key s).leader = true ∧
        ((e.effect key s).ready = true ↔ s.ready = true ∧ (e = .scan → key ≠ 0))) := by
  cases e with
  | scan =>
    refine ⟨rfl, fun hleader => ⟨hleader, ?_⟩⟩
    simp [Event.effect, Status.poll, hleader]
  | rise => exact ⟨rfl, fun hleader => ⟨hleader, by simp [Event.effect]⟩⟩
  | fall width =>
    have hrepeat : ¬RepeatWidth width := by
      intro hrep
      cases line with
      | leader j =>
        obtain ⟨hwidth, _⟩ := Option.ite_none_right_eq_some.mp hnext
        obtain ⟨hlow, _⟩ := hwidth
        obtain ⟨_, hhigh⟩ := hrep
        omega
      | high j n =>
        obtain ⟨hbit, _⟩ := Option.ite_none_right_eq_some.mp hnext
        rw [bitOf_of_wide hrep.wide] at hbit
        cases hbit
      | gap _ => cases hkey
      | low _ _ => cases hnext
    refine ⟨?_, fun hleader => ⟨?_, by simp [Event.effect, Status.endPulse]⟩⟩
    · exact if_neg fun h => hrepeat h.2.2
    · simp [Event.effect, Status.endPulse, hleader]
  | frame _ =>
    cases line with
    | gap _ => cases hkey
    | _ => cases hnext
  | overflow =>
    cases line with
    | gap _ => cases hkey
    | _ => cases hnext

/-- The rest of a frame up to its last bit. -/
theorem body_run {k : UInt8} {old : ℕ} (hold : old < 2 ^ 32) {a t : Air} {es : List Event}
    (hline : a.line.Holds old a.remote) (hkey : a.line.key = some k)
    (hinside : Guarded (fun a _ => a.line.key = some k) step a es) (hr : run step a es = some t)
    (hend : t.line.key = none) :
    t.remote.RmtRec = frameWord k ∧ t.remote.status.leader = true ∧
      t.remote.status.overflows = a.remote.status.overflows ∧
      (a.remote.status.leader = true → (t.remote.status.ready = true ↔
        a.remote.status.ready = true ∧ Guarded (PollPasses old k) step a es)) := by
  induction es generalizing a with
  | nil =>
    cases hr
    rw [hkey] at hend
    cases hend
  | cons e es ih =>
    obtain ⟨b, hs, hr⟩ := run_cons.mp hr
    have hguard : Guarded (PollPasses old k) step a (e :: es) ↔ _ := guarded_cons hs
    obtain ⟨_, hinside⟩ := hinside b hs
    obtain ⟨line', hnext, rfl⟩ := Option.map_eq_some_iff.mp hs
    obtain ⟨_, hwindow⟩ := hline.register hold hkey
    obtain ⟨hcount, hready⟩ := body_status hkey hnext (keyOf a.remote.RmtRec) a.remote.status
    rw [← apply_status] at hcount hready
    have hpasses : PollPasses old k a e ↔ (e = .scan → keyOf a.remote.RmtRec ≠ 0) := by
      unfold PollPasses
      rw [hwindow]
    rcases hline.body hold hkey hnext with ⟨_, rfl, hrec, hleader, _⟩ | ⟨_, hkey, hline⟩
    · cases es with
      | nil =>
        cases hr
        refine ⟨hrec, hleader, hcount, fun hset => ?_⟩
        rw [hguard, hpasses]
        exact (hready hset).2.trans (and_congr_right fun _ => (and_iff_left trivial).symm)
      | cons e' es =>
        obtain ⟨c, hs', _⟩ := run_cons.mp hr
        cases (hinside c hs').1
    · obtain ⟨hrec, hleader, hkept, hrest⟩ := ih hline hkey hinside hr
      refine ⟨hrec, hleader, hkept.trans hcount, fun hset => ?_⟩
      rw [hrest (hready hset).1, hguard, hpasses, (hready hset).2, and_assoc]

/-! ### After the frame -/

/-- What the edges and polls after a frame leave alone. -/
def Settled (k : UInt8) (overflows : ℕ) (ready : Bool) (a : Air) : Prop :=
  a.remote.RmtRec = frameWord k ∧ a.remote.status.leader = true ∧
    a.remote.status.overflows = overflows ∧ a.remote.status.ready = ready

theorem settled_step {k : UInt8} (hk : k ≠ 0) {overflows : ℕ} {ready : Bool} {a b : Air} {e : Event}
    (h : Settled k overflows ready a) (he : e.Pause) (hs : step a e = some b) :
    Settled k overflows ready b := by
  obtain ⟨hrec, hleader, hcount, hready⟩ := h
  obtain ⟨line', _, rfl⟩ := Option.map_eq_some_iff.mp hs
  unfold Settled
  dsimp only
  rw [apply_status, apply_RmtRec]
  cases e with
  | rise => exact ⟨hrec, hleader, hcount, hready⟩
  | scan =>
    have hkey : keyOf a.remote.RmtRec ≠ 0 := by
      rw [hrec, keyOf_frameWord]
      exact fun h => hk (UInt8.toNat_inj.mp h)
    refine ⟨hrec, hleader, hcount, ?_⟩
    simp [Event.effect, Status.poll, hleader, hready, hkey]
  | fall width =>
    obtain ⟨hbit, hrepeat⟩ := he
    refine ⟨?_, ?_, ?_, hready⟩
    · simp [Status.shift, hbit, hrec]
    · simp [Event.effect, Status.endPulse, hleader]
    · exact (if_neg fun h => hrepeat h.2.2).trans hcount
  | frame _ => exact he.elim
  | overflow => exact he.elim

/-- The overflow after a frame marks the data as complete if the counter is at zero. -/
theorem delivers_iff {k : UInt8} (hk : k ≠ 0) {overflows : ℕ} {ready : Bool} {u v : Air}
    (h : Settled k overflows ready u) (hs : step u .overflow = some v) :
    v.Delivers k ↔ overflows = 0 ∨ ready = true := by
  obtain ⟨hrec, hleader, rfl, rfl⟩ := h
  obtain ⟨line', _, rfl⟩ := Option.map_eq_some_iff.mp hs
  have hmarked : (Event.apply .overflow u.remote).status.ready =
      (u.remote.status.ready || u.remote.status.overflows = 0) := by
    rw [apply_status]
    simp [Event.effect, Status.elapse, hleader]
  have hword : (Event.apply .overflow u.remote).RmtRec = frameWord k := hrec
  have hne : (0 : ℕ) ≠ k.toNat := fun h => hk (UInt8.toNat_inj.mp h.symm)
  unfold Air.Delivers
  rw [Remote_Scan_value, hmarked, hword, keyOf_frameWord, ite_eq_left_iff, Bool.or_eq_true,
    decide_eq_true_eq, or_comm]
  exact ⟨fun h => not_not.mp fun hclear => hne (h hclear), fun h hclear => absurd h hclear⟩

/-- A frame begins with the register as it is. -/
theorem frame_step {k : UInt8} {s a : Air} (hs : step s (.frame k) = some a) :
    a.line.key = some k ∧ a.line.Holds s.remote.RmtRec a.remote ∧
      a.remote.status = { s.remote.status with rising := true } := by
  obtain ⟨line', hnext, rfl⟩ := Option.map_eq_some_iff.mp hs
  have hline : line' = .leader k := by
    cases hl : s.line with
    | gap pulse =>
      rw [hl] at hnext
      exact (Option.some.inj hnext).symm
    | _ =>
      rw [hl] at hnext
      cases hnext
  subst hline
  have hstatus := apply_status (.frame k) s.remote
  exact ⟨rfl, ⟨apply_RmtRec (.frame k) s.remote, by rw [hstatus]; rfl⟩, hstatus⟩

/-- A frame is received exactly when the decoder is prepared for it. -/
theorem delivers_iff_prepared {k : UInt8} {body tail : List Event} {s t v : Air}
    (hs : Reachable (· = start) step s) (hk : k ≠ 0) (h : Arrival k body tail s t v) :
    v.Delivers k ↔ Prepared k body s := by
  obtain ⟨hidle, hlt⟩ := steady_of_reachable hs
  obtain ⟨a, ha, hbody⟩ := run_cons.mp h.receives
  obtain ⟨u, htail, hlast⟩ := run_append.mp h.overflows
  obtain ⟨v', hover, hnil⟩ := run_cons.mp hlast
  cases hnil
  obtain ⟨hkey, hline, hstatus⟩ := frame_step ha
  obtain ⟨hrec, hleader, hcount, hready⟩ := body_run hlt hline hkey (h.inside a ha) hbody h.ended
  rw [hstatus] at hcount hready
  have hsettled := run_invariant_of_guarded
    (fun _ _ _ hset he hstep => settled_step hk hset he hstep) ⟨hrec, hleader, hcount, rfl⟩
    (guarded_of_forall h.pause t) htail
  rw [delivers_iff hk hsettled hover]
  unfold Prepared
  by_cases hzero : s.remote.status.overflows = 0
  · exact iff_of_true (Or.inl hzero) (Or.inl hzero)
  · -- the counter runs, so the leader of an earlier frame is still marked
    have hset : s.remote.status.leader = true := by
      cases hl : s.remote.status.leader with
      | true => rfl
      | false => exact absurd (hidle hl) hzero
    have hedge : PollPasses s.remote.RmtRec k s (.frame k) := fun hscan => by cases hscan
    rw [hready hset, guarded_cons ha, and_iff_right hedge]

/-! ### Two keys in a row -/

/-- The state after events from the start. -/
def airAfter (es : List Event) : Air := (run step start es).getD start

/-- A key with its overflow and a poll that takes it. -/
def pressed : List Event := sent 0xA2 ++ [.rise, .overflow, .scan]

/-- The rest of a frame, with polls after its first bits. -/
def polled (polls : List Event) : List Event :=
  (sent 0x62).tail.take 40 ++ polls ++ (sent 0x62).tail.drop 40

theorem reachable_pressed : Reachable (· = start) step (airAfter pressed) :=
  ⟨start, pressed, rfl, by decide +kernel⟩

/-- Without a poll in its frame the second key is received. -/
theorem delivers_unpolled :
    (airAfter (pressed ++ .frame 0x62 :: polled [] ++ [.rise, .overflow])).Delivers 0x62 := by
  have harrival : Arrival 0x62 (polled []) [.rise] (airAfter pressed)
      (airAfter (pressed ++ .frame 0x62 :: polled []))
      (airAfter (pressed ++ .frame 0x62 :: polled [] ++ [.rise, .overflow])) :=
    ⟨by decide +kernel, by decide +kernel, by decide +kernel, by decide, by decide +kernel⟩
  exact (delivers_iff_prepared reachable_pressed (by decide) harrival).mpr (by decide +kernel)

/-- With a poll in its frame the second key is lost. -/
theorem lost_when_polled :
    ¬∀ (k : UInt8) (body tail : List Event) (s t v : Air), Reachable (· = start) step s → k ≠ 0 →
      Arrival k body tail s t v → v.Delivers k := by
  intro h
  have harrival : Arrival 0x62 (polled [.scan]) [.rise] (airAfter pressed)
      (airAfter (pressed ++ .frame 0x62 :: polled [.scan]))
      (airAfter (pressed ++ .frame 0x62 :: polled [.scan] ++ [.rise, .overflow])) :=
    ⟨by decide +kernel, by decide +kernel, by decide +kernel, by decide, by decide +kernel⟩
  have hlost : (Remote_Scan (airAfter
      (pressed ++ .frame 0x62 :: polled [.scan] ++ [.rise, .overflow])).remote).1 = 0 := by
    decide +kernel
  have hkey := h _ _ _ _ _ _ reachable_pressed (by decide) harrival
  exact absurd (hlost.symm.trans hkey) (by decide)

end SmartHome.IrFrames
