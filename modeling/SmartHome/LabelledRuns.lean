import SmartHome.TransitionRuns

/-!
# Runs that follow an abstract machine

Some events of a run carry a label, which may depend on the state. When every
step moves the view of the state as its label says, and not at all without one,
the view follows the labels of the whole run in their order.
-/

namespace SmartHome.LabelledRuns

open TransitionRuns

variable {S E L A : Type*}

/-- The labels of the events of a run. -/
def labels (step : S → E → Option S) (label : S → E → Option L) : S → List E → List L
  | _, [] => []
  | s, e :: es => (label s e).toList ++ ((step s e).map fun t => labels step label t es).getD []

/-- One label, or none, moves the abstract machine. -/
def Takes (moves : L → A → A → Prop) (a b : A) : Option L → Prop
  | none => b = a
  | some l => moves l a b

/-- Labels move the abstract machine one after the other. -/
def Follows (moves : L → A → A → Prop) : List L → A → A → Prop
  | [], a, b => b = a
  | l :: ls, a, c => ∃ b, moves l a b ∧ Follows moves ls b c

variable {moves : L → A → A → Prop} {a b c : A} {ls ms : List L}

theorem follows_append :
    Follows moves (ls ++ ms) a c ↔ ∃ b, Follows moves ls a b ∧ Follows moves ms b c := by
  induction ls generalizing a with
  | nil => simp [Follows]
  | cons l ls ih =>
    simp only [List.cons_append, Follows, ih]
    exact ⟨fun ⟨d, hd, b, hb, hc⟩ => ⟨b, ⟨d, hd, hb⟩, hc⟩,
      fun ⟨b, ⟨d, hd, hb⟩, hc⟩ => ⟨d, hd, b, hb, hc⟩⟩

theorem Takes.follows {label : Option L} (h : Takes moves a b label) :
    Follows moves label.toList a b := by
  cases label with
  | none => exact h
  | some l => exact ⟨b, h, rfl⟩

/-- A view that every step moves as its label says follows the labels of every
run. -/
theorem run_follows {step : S → E → Option S} {label : S → E → Option L} {view : S → A}
    (hstep : ∀ s e t, step s e = some t → Takes moves (view s) (view t) (label s e))
    {s t : S} {es : List E} (hrun : run step s es = some t) :
    Follows moves (labels step label s es) (view s) (view t) := by
  induction es generalizing s with
  | nil =>
    cases hrun
    rfl
  | cons e es ih =>
    obtain ⟨u, hfirst, hrest⟩ := run_cons.mp hrun
    rw [labels, hfirst, Option.map_some, Option.getD_some]
    exact follows_append.mpr ⟨view u, (hstep s e u hfirst).follows, ih hrest⟩

/-- The label of an event of a run is one of the labels of the run. -/
theorem mem_labels {step : S → E → Option S} {label : S → E → Option L} {s t : S} {e : E} {l : L}
    {before after : List E} (hrun : run step s before = some t) (hlabel : label t e = some l) :
    l ∈ labels step label s (before ++ e :: after) := by
  induction before generalizing s with
  | nil =>
    cases hrun
    rw [List.nil_append, labels, hlabel]
    exact List.mem_append_left _ (List.mem_singleton_self l)
  | cons d before ih =>
    obtain ⟨u, hfirst, hrest⟩ := run_cons.mp hrun
    rw [List.cons_append, labels, hfirst, Option.map_some, Option.getD_some]
    exact List.mem_append_right _ (ih hrest)

end SmartHome.LabelledRuns
