import Mathlib.Data.List.Basic

/-!
# Finite runs of a partial transition function

A component is a partial function from a state and an event to the next
state; an event that cannot happen in a state has no successor. Runs are
finite event lists. The rules below lift one-step facts to whole runs:
plain invariants, invariants under a guard on every executed event, and the
exact agreement of an always-property with such a guard.
-/

namespace SmartHome.TransitionRuns

variable {S E : Type*}

/-- Execute an event list; a disabled event makes the whole run undefined. -/
def run (step : S → E → Option S) : S → List E → Option S
  | s, [] => some s
  | s, e :: es => (step s e).bind fun t => run step t es

/-- Every executed event satisfies the guard in the state it is executed in. -/
def Guarded (guard : S → E → Prop) (step : S → E → Option S) : S → List E → Prop
  | _, [] => True
  | s, e :: es => ∀ t, step s e = some t → guard s e ∧ Guarded guard step t es

/-- The property holds in the first state and in every state the run visits. -/
def Always (P : S → Prop) (step : S → E → Option S) : S → List E → Prop
  | s, [] => P s
  | s, e :: es => P s ∧ ∀ t, step s e = some t → Always P step t es

/-- States that some defined run reaches from a permitted initial state. -/
def Reachable (init : S → Prop) (step : S → E → Option S) (t : S) : Prop :=
  ∃ s es, init s ∧ run step s es = some t

/-- Whether a run is guarded can be computed when the guard can. -/
instance Guarded.decidable {guard : S → E → Prop} [∀ s e, Decidable (guard s e)]
    (step : S → E → Option S) : ∀ s es, Decidable (Guarded guard step s es)
  | _, [] => isTrue trivial
  | s, e :: es =>
    match h : step s e with
    | none => isTrue fun _ ht => nomatch h.symm.trans ht
    | some t =>
      have : Decidable (Guarded guard step t es) := Guarded.decidable step t es
      decidable_of_iff (guard s e ∧ Guarded guard step t es)
        ⟨fun hg _ hu => Option.some.inj (h.symm.trans hu) ▸ hg, fun hg => hg t h⟩

/-- A run over a nonempty list first executes its head. -/
theorem run_cons {step : S → E → Option S} {s t : S} {e : E} {es : List E} :
    run step s (e :: es) = some t ↔ ∃ u, step s e = some u ∧ run step u es = some t := by
  simp only [run, Option.bind_eq_some_iff]

/-- A run over a list that is put together. -/
theorem run_append {step : S → E → Option S} {s t : S} {es fs : List E} :
    run step s (es ++ fs) = some t ↔ ∃ u, run step s es = some u ∧ run step u fs = some t := by
  induction es generalizing s with
  | nil => simp [run]
  | cons e es ih =>
    simp only [List.cons_append, run_cons, ih]
    exact ⟨fun ⟨a, ha, u, hu, hr⟩ => ⟨u, ⟨a, ha, hu⟩, hr⟩,
      fun ⟨u, ⟨a, ha, hu⟩, hr⟩ => ⟨a, ha, u, hu, hr⟩⟩

/-- A run that begins with an executed event is guarded there and afterwards. -/
theorem guarded_cons {step : S → E → Option S} {guard : S → E → Prop} {s t : S} {e : E}
    {es : List E} (hs : step s e = some t) :
    Guarded guard step s (e :: es) ↔ guard s e ∧ Guarded guard step t es :=
  ⟨fun hg => hg t hs, fun hg _ hu => Option.some.inj (hs.symm.trans hu) ▸ hg⟩

/-- A run is guarded when its events are, in any state. -/
theorem guarded_of_forall {step : S → E → Option S} {guard : E → Prop} {es : List E}
    (h : ∀ e ∈ es, guard e) (s : S) : Guarded (fun _ e => guard e) step s es := by
  induction es generalizing s with
  | nil => trivial
  | cons e es ih =>
    exact fun t _ => ⟨h e List.mem_cons_self, ih (fun x hx => h x (List.mem_cons_of_mem e hx)) t⟩

/-- A guard that implies another in every state it leads to guards the same runs. -/
theorem Guarded.imp {step : S → E → Option S} {guard guard' : S → E → Prop} {I : S → Prop}
    (himp : ∀ s e, I s → guard s e → guard' s e)
    (hkeep : ∀ s e t, I s → guard s e → step s e = some t → I t)
    {s : S} {es : List E} (hs : I s) (hg : Guarded guard step s es) :
    Guarded guard' step s es := by
  induction es generalizing s with
  | nil => trivial
  | cons e es ih =>
    intro t ht
    obtain ⟨hge, hgs⟩ := hg t ht
    exact ⟨himp s e hs hge, ih (hkeep s e t hs hge ht) hgs⟩

/-- A property kept by every guarded step holds after every guarded run. -/
theorem run_invariant_of_guarded {step : S → E → Option S} {guard : S → E → Prop}
    {I : S → Prop} (hkeep : ∀ s e t, I s → guard s e → step s e = some t → I t)
    {s t : S} {es : List E} (hs : I s) (hg : Guarded guard step s es)
    (hr : run step s es = some t) : I t := by
  induction es generalizing s with
  | nil => cases hr; exact hs
  | cons e es ih =>
    obtain ⟨u, hu, hr⟩ := run_cons.mp hr
    obtain ⟨hge, hgs⟩ := hg u hu
    exact ih (hkeep s e u hs hge hu) hgs hr

/-- A property kept by every step holds after every run. -/
theorem run_invariant {step : S → E → Option S} {I : S → Prop}
    (hkeep : ∀ s e t, I s → step s e = some t → I t)
    {s t : S} {es : List E} (hs : I s) (hr : run step s es = some t) : I t := by
  induction es generalizing s with
  | nil => cases hr; exact hs
  | cons e es ih =>
    obtain ⟨u, hu, hr⟩ := run_cons.mp hr
    exact ih (hkeep s e u hs hu) hr

/-- An inductive invariant holds in every reachable state. -/
theorem Reachable.invariant {init : S → Prop} {step : S → E → Option S} {I : S → Prop}
    (hinit : ∀ s, init s → I s) (hkeep : ∀ s e t, I s → step s e = some t → I t)
    {t : S} (ht : Reachable init step t) : I t := by
  obtain ⟨s, es, hs, hr⟩ := ht
  exact run_invariant hkeep (hinit s hs) hr

/-- An initial state is reached by the empty run. -/
theorem Reachable.of_init {init : S → Prop} {step : S → E → Option S} {s : S} (hs : init s) :
    Reachable init step s := ⟨s, [], hs, rfl⟩

/-- An always-property holds in the state where the run starts. -/
theorem Always.head {P : S → Prop} {step : S → E → Option S} {s : S} {es : List E}
    (h : Always P step s es) : P s := by
  cases es with
  | nil => exact h
  | cons e es => exact h.1

/-- An always-property holds in the state where the run ends. -/
theorem Always.of_run {P : S → Prop} {step : S → E → Option S} {s t : S} {es : List E}
    (h : Always P step s es) (hr : run step s es = some t) : P t := by
  induction es generalizing s with
  | nil => cases hr; exact h
  | cons e es ih =>
    obtain ⟨u, hu, hr⟩ := run_cons.mp hr
    exact ih (h.2 u hu) hr

/-- A property implied by an invariant of guarded steps always holds along
guarded runs. -/
theorem always_of_guarded {step : S → E → Option S} {guard : S → E → Prop} {I P : S → Prop}
    (himp : ∀ s, I s → P s) (hkeep : ∀ s e t, I s → guard s e → step s e = some t → I t)
    {s : S} {es : List E} (hg : Guarded guard step s es) (hs : I s) : Always P step s es := by
  induction es generalizing s with
  | nil => exact himp s hs
  | cons e es ih =>
    refine ⟨himp s hs, fun t ht => ?_⟩
    obtain ⟨hge, hgs⟩ := hg t ht
    exact ih hgs (hkeep s e t hs hge ht)

/-- A property implied by an invariant of all steps always holds along every run. -/
theorem always_of_invariant {step : S → E → Option S} {I P : S → Prop} (himp : ∀ s, I s → P s)
    (hkeep : ∀ s e t, I s → step s e = some t → I t) (es : List E) {s : S} (hs : I s) :
    Always P step s es := by
  induction es generalizing s with
  | nil => exact himp s hs
  | cons e es ih => exact ⟨himp s hs, fun t ht => ih (hkeep s e t hs ht)⟩

/-- When guarded steps keep the invariant and every unguarded step breaks the
property at once, the property holds along a run exactly if the run is guarded. -/
theorem always_iff_guarded {step : S → E → Option S} {guard : S → E → Prop} {I P : S → Prop}
    (himp : ∀ s, I s → P s) (hkeep : ∀ s e t, I s → guard s e → step s e = some t → I t)
    (hbreak : ∀ s e t, I s → ¬guard s e → step s e = some t → ¬P t)
    {s : S} (es : List E) (hs : I s) : Always P step s es ↔ Guarded guard step s es := by
  refine ⟨fun hall => ?_, fun hg => always_of_guarded himp hkeep hg hs⟩
  induction es generalizing s with
  | nil => trivial
  | cons e es ih =>
    intro t ht
    by_cases hg : guard s e
    · exact ⟨hg, ih (hkeep s e t hs hg ht) (hall.2 t ht)⟩
    · exact absurd (hall.2 t ht).head (hbreak s e t hs hg ht)

end SmartHome.TransitionRuns
