import SmartHome.HomePanel
import SmartHome.MachineWords

/-!
# The commands of the web pages

The three handlers search their parameter, walk over the parameters with an
8-bit index and answer with the page of the state that results. Their page
tables have the same text and are one definition here. The handlers of the
mode and of the lamps do what their parameters say; the handler of the buzzer
runs the warning, which ends with the buzzer off and the red output high.
-/

namespace SmartHome.WebCommands

open ByteStrings HomePanel MachineWords

/-- A parameter of a request. -/
structure Parameter where
  pcParam : List UInt8
  pcValue : List UInt8
  deriving DecidableEq, Repr

/-- The mode and the outputs. -/
structure Outputs where
  sys_status : Mode
  BEEP : Bool
  RED_LED : Bool
  GREEN_LED : Bool
  deriving DecidableEq, Repr

/-- The mode and the outputs of the panel. -/
def outputs (p : Panel) : Outputs := ⟨p.sys_status, p.BEEP, p.RED_LED, p.GREEN_LED⟩

/-! ### The handlers -/

/-- The branch on the result of strcmp. A null pointer has no result. -/
def ifSame {α : Type*} (s : Option (List UInt8)) (literal : List UInt8) (same other : Option α) :
    Option α :=
  match s with
  | none => none
  | some s => if s = literal then same else other

/-- Index of a parameter in the array of names, with the number of entries left. -/
def FindCGIParameter (pcToFind : List UInt8) (pcParam : ℕ → Option (List UInt8)) :
    ℕ → ℕ → Option (Option ℕ)
  | 0, _ => some none
  | left + 1, iLoop =>
    ifSame (pcParam iLoop) pcToFind (some (some iLoop))
      (FindCGIParameter pcToFind pcParam left (iLoop + 1))

/-- The warning of the buzzer, with the number of signals that are left. -/
def warn : ℕ → Panel → Panel
  | 0, p => p
  | i + 1, p =>
    let p := { p with BEEP := true, RED_LED := false }
    warn i { p with BEEP := false, RED_LED := true }

def beep_warning (p : Panel) : Panel := warn 50 p

/-- Assign and draw a recognised value. -/
def obey (c : WebCommand) (p : Panel) : Panel := c.draw (c.assign p)

/-- One turn of the loop of a handler, for a name and a value. -/
abbrev Turn := Option (List UInt8) → Option (List UInt8) → Panel → Option Panel

/-- One turn of the loop of LEDS_CGI_Handler. -/
def lightTurn : Turn := fun pcParam pcValue p =>
  (ifSame pcParam (bytes "light")
    (ifSame pcValue (bytes "Bedroom_lightON") (some (obey .Bedroom_lightON p))
      (ifSame pcValue (bytes "Bedroom_lightOFF") (some (obey .Bedroom_lightOFF p)) (some p)))
    (some p)).bind fun p =>
  ifSame pcParam (bytes "light")
    (ifSame pcValue (bytes "Corridor_lightON") (some (obey .Corridor_lightON p))
      (ifSame pcValue (bytes "Corridor_lightOFF") (some (obey .Corridor_lightOFF p)) (some p)))
    (some p)

/-- One turn of the loop of BEEP_CGI_Handler. -/
def beepTurn : Turn := fun pcParam pcValue p =>
  ifSame pcParam (bytes "BEEP")
    (ifSame pcValue (bytes "BEEPON") (some (beep_warning p))
      (ifSame pcValue (bytes "BEEPOFF") (some { p with BEEP := false }) (some p)))
    (some p)

/-- One turn of the loop of MODE_CGI_Handler. -/
def modeTurn : Turn := fun pcParam pcValue p =>
  ifSame pcParam (bytes "Mode")
    (ifSame pcValue (bytes "Home") (some (obey .Home p))
      (ifSame pcValue (bytes "Out") (some (obey .Out p)) (some p)))
    (some p)

/-- A turn on a parameter with a name and a value that are texts. -/
def Turn.onTexts (turn : Turn) (p : Panel) (a : Parameter) : Panel :=
  (turn (some a.pcParam) (some a.pcValue) p).getD p

/-- The page table at the end of each handler, in the order of its tests. -/
def pages : List (Outputs × String) :=
  [(⟨.OUT, false, true, true⟩, "/alloff.shtml"),
   (⟨.HOME, true, false, false⟩, "/allon.shtml"),
   (⟨.OUT, false, false, true⟩, "/bedroomon.shtml"),
   (⟨.OUT, false, false, false⟩, "/bedroomon_corridoron.shtml"),
   (⟨.OUT, true, true, true⟩, "/beepon.shtml"),
   (⟨.OUT, true, false, true⟩, "/beepon_Bedroomon.shtml"),
   (⟨.OUT, true, false, false⟩, "/beepon_bedroomon_corridoron.shtml"),
   (⟨.OUT, true, true, false⟩, "/beepon_corridoron.shtml"),
   (⟨.OUT, false, true, false⟩, "/corridoron.shtml"),
   (⟨.HOME, false, true, true⟩, "/modehome.shtml"),
   (⟨.HOME, false, false, true⟩, "/modehome_bedroomon.shtml"),
   (⟨.HOME, false, false, false⟩, "/modehome_bedroomon_corridoron.shtml"),
   (⟨.HOME, true, true, true⟩, "/modehome_beepon.shtml"),
   (⟨.HOME, true, false, true⟩, "/modehome_beepon_bedroomon.shtml"),
   (⟨.HOME, true, true, false⟩, "/modehome_beepon_corridoron.shtml"),
   (⟨.HOME, false, true, false⟩, "/modehome_corridoron.shtml")]

/-- The page of the mode and the outputs. -/
def page (o : Outputs) : String := (pages.lookup o).getD "/404.html"

/-- A handler that looks for its parameter, prepares the panel and walks over
the parameters; without a result a null pointer was compared. -/
def CGI_Handler (pcToFind : List UInt8) (prepare : Panel → Panel) (walk : Panel → Option Panel)
    (iNumParams : ℕ) (pcParam : ℕ → Option (List UInt8)) (p : Panel) : Option (String × Panel) :=
  (FindCGIParameter pcToFind pcParam iNumParams 0).bind fun iIndex =>
    (match iIndex with
      | none => some p
      | some _ => walk (prepare p)).map fun q => (page (outputs q), q)

/-- The names of parameters, as an array. -/
def names (params : List Parameter) (i : ℕ) : Option (List UInt8) :=
  params[i]?.map Parameter.pcParam

/-- A handler on parameters whose values are texts, with the 8-bit index of its loop. -/
def onTexts (pcToFind : List UInt8) (prepare : Panel → Panel) (turn : Turn) (fuel : ℕ)
    (params : List Parameter) : Panel → Option (String × Panel) :=
  CGI_Handler pcToFind prepare (byteLoop params turn.onTexts fuel 0) params.length (names params)

def LEDS_CGI_Handler : ℕ → List Parameter → Panel → Option (String × Panel) :=
  onTexts (bytes "light") id lightTurn

def BEEP_CGI_Handler : ℕ → List Parameter → Panel → Option (String × Panel) :=
  onTexts (bytes "BEEP") (fun p => { p with BEEP := false }) beepTurn

def MODE_CGI_Handler : ℕ → List Parameter → Panel → Option (String × Panel) :=
  onTexts (bytes "Mode") id modeTurn

/-! ### What the parameters say -/

/-- The handlers, named after their pages. -/
inductive Command where
  | leds
  | beep
  | mode
  deriving DecidableEq, Repr

/-- The handler of a page. -/
def Command.handler : Command → ℕ → List Parameter → Panel → Option (String × Panel)
  | .leds => LEDS_CGI_Handler
  | .beep => BEEP_CGI_Handler
  | .mode => MODE_CGI_Handler

/-- The parameter a handler looks for. -/
def Command.param : Command → List UInt8
  | .leds => bytes "light"
  | .beep => bytes "BEEP"
  | .mode => bytes "Mode"

/-- The recognised values of a parameter and their assignments. -/
def Command.assignments : Command → List (List UInt8 × (Outputs → Outputs))
  | .leds =>
    [(bytes "Bedroom_lightON", fun o => { o with RED_LED := false }),
     (bytes "Bedroom_lightOFF", fun o => { o with RED_LED := true }),
     (bytes "Corridor_lightON", fun o => { o with GREEN_LED := false }),
     (bytes "Corridor_lightOFF", fun o => { o with GREEN_LED := true })]
  | .beep =>
    [(bytes "BEEPON", fun o => { o with BEEP := true }),
     (bytes "BEEPOFF", fun o => { o with BEEP := false })]
  | .mode =>
    [(bytes "Home", fun o => { o with sys_status := .HOME }),
     (bytes "Out", fun o => { o with sys_status := .OUT })]

/-- The assignment of a parameter; a parameter that is not recognised has none. -/
def Command.assign (c : Command) (o : Outputs) (a : Parameter) : Outputs :=
  if a.pcParam = c.param then ((c.assignments.lookup a.pcValue).getD id) o else o

/-- The handler returns, the outputs are those the parameters say in order,
and the page is theirs. -/
def DoesWhatItSays (c : Command) (params : List Parameter) (p : Panel) : Prop :=
  ∃ fuel q, c.handler fuel params p = some (page (outputs q), q) ∧
    outputs q = params.foldl c.assign (outputs p)

/-- The request has the parameter of the handler. -/
def Command.Addressed (c : Command) (params : List Parameter) : Prop :=
  ∃ a ∈ params, a.pcParam = c.param

/-- The value a parameter asks of the buzzer. -/
def buzzerValue (a : Parameter) : Option Bool :=
  if a.pcParam = bytes "BEEP" then
    if a.pcValue = bytes "BEEPON" then some true
    else if a.pcValue = bytes "BEEPOFF" then some false
    else none
  else none

/-- The last value asked of the buzzer is off, or it is off without one, and
the red output is high if it is asked to be on at all. -/
def Silent (params : List Parameter) (p : Panel) : Prop :=
  (params.filterMap buzzerValue).getLastD p.BEEP = false ∧
    (true ∈ params.filterMap buzzerValue → p.RED_LED = true)

/-- When the handler does what its parameters say. -/
def Command.Served (c : Command) (params : List Parameter) (p : Panel) : Prop :=
  c.Addressed params → params.length < 256 ∧ (c = .beep → Silent params p)

/-! ### The pages -/

/-- Every state has its page in the table. -/
theorem mem_pages (o : Outputs) : (o, page o) ∈ pages := by
  obtain ⟨m, b, r, g⟩ := o
  cases m <;> cases b <;> cases r <;> cases g <;> decide

/-! ### The turns of the loops -/

/-- A parameter of another name has no assignment. -/
theorem assign_of_ne {c : Command} {a : Parameter} (h : a.pcParam ≠ c.param) (o : Outputs) :
    c.assign o a = o := if_neg h

/-- A value that is not recognised has no assignment. -/
theorem assign_of_unknown {c : Command} {a : Parameter}
    (h : ∀ known ∈ c.assignments, a.pcValue ≠ known.1) (o : Outputs) : c.assign o a = o := by
  have hnone : c.assignments.lookup a.pcValue = none :=
    List.lookup_eq_none_iff.mpr fun known hknown => bne_iff_ne.mpr (h known hknown)
  unfold Command.assign
  rw [hnone]
  exact ite_self o

/-- A turn of the lamp loop makes the assignment of its parameter. -/
theorem outputs_lightTurn (p : Panel) (a : Parameter) :
    outputs (lightTurn.onTexts p a) = Command.leds.assign (outputs p) a := by
  obtain ⟨name, value⟩ := a
  by_cases hname : name = bytes "light"
  · subst hname
    by_cases h1 : value = bytes "Bedroom_lightON"
    · subst h1; rfl
    · by_cases h2 : value = bytes "Bedroom_lightOFF"
      · subst h2; rfl
      · by_cases h3 : value = bytes "Corridor_lightON"
        · subst h3; rfl
        · by_cases h4 : value = bytes "Corridor_lightOFF"
          · subst h4; rfl
          · rw [assign_of_unknown (by simp [Command.assignments, h1, h2, h3, h4])]
            simp [Turn.onTexts, lightTurn, ifSame, h1, h2, h3, h4]
  · rw [assign_of_ne hname]
    simp [Turn.onTexts, lightTurn, ifSame, hname]

/-- A turn of the mode loop makes the assignment of its parameter. -/
theorem outputs_modeTurn (p : Panel) (a : Parameter) :
    outputs (modeTurn.onTexts p a) = Command.mode.assign (outputs p) a := by
  obtain ⟨name, value⟩ := a
  by_cases hname : name = bytes "Mode"
  · subst hname
    by_cases h1 : value = bytes "Home"
    · subst h1; rfl
    · by_cases h2 : value = bytes "Out"
      · subst h2; rfl
      · rw [assign_of_unknown (by simp [Command.assignments, h1, h2])]
        simp [Turn.onTexts, modeTurn, ifSame, h1, h2]
  · rw [assign_of_ne hname]
    simp [Turn.onTexts, modeTurn, ifSame, hname]

/-- The warning ends with the buzzer off and the red output high. -/
theorem warn_succ (i : ℕ) (p : Panel) :
    warn (i + 1) p = { p with BEEP := false, RED_LED := true } := by
  induction i generalizing p with
  | zero => rfl
  | succ i ih => rw [warn, ih]

/-- While the buzzer is off, a turn of its loop changes the red output only. -/
theorem outputs_beepTurn {p : Panel} (h : p.BEEP = false) (a : Parameter) :
    outputs (beepTurn.onTexts p a) =
      { outputs p with RED_LED := p.RED_LED || decide (buzzerValue a = some true) } := by
  unfold Turn.onTexts beepTurn buzzerValue
  simp only [ifSame]
  split
  · split
    · rw [Option.getD_some, beep_warning, warn_succ]
      simp [outputs, h]
    · split <;> simp [outputs, h]
  · simp [outputs]

/-- The assignment of the buzzer parameter. -/
theorem assign_beep (o : Outputs) (a : Parameter) :
    Command.beep.assign o a = { o with BEEP := (buzzerValue a).getD o.BEEP } := by
  obtain ⟨name, value⟩ := a
  by_cases hname : name = bytes "BEEP"
  · subst hname
    by_cases h1 : value = bytes "BEEPON"
    · subst h1; rfl
    · by_cases h2 : value = bytes "BEEPOFF"
      · subst h2; rfl
      · rw [assign_of_unknown (by simp [Command.assignments, h1, h2])]
        simp [buzzerValue, h1, h2]
  · rw [assign_of_ne hname]
    simp [buzzerValue, hname]

/-! ### Whole requests -/

/-- The search compares only texts, and finds a name exactly if it is one of them. -/
theorem FindCGIParameter_spec (pcToFind : List UInt8) {pcParam : ℕ → Option (List UInt8)}
    {texts : List (List UInt8)} {i : ℕ} (h : ∀ k < texts.length, pcParam (i + k) = texts[k]?) :
    ∃ found, FindCGIParameter pcToFind pcParam texts.length i = some found ∧
      (found.isSome = true ↔ pcToFind ∈ texts) := by
  induction texts generalizing i with
  | nil => exact ⟨none, rfl, by simp⟩
  | cons text texts ih =>
    have hfirst : pcParam i = some text := h 0 (Nat.succ_pos _)
    rw [List.length_cons, FindCGIParameter, hfirst, ifSame]
    by_cases heq : text = pcToFind
    · rw [if_pos heq]
      exact ⟨_, rfl, iff_of_true rfl (List.mem_cons.mpr (.inl heq.symm))⟩
    · rw [if_neg heq]
      obtain ⟨found, hfound, hmem⟩ := ih (i := i + 1) fun k hk => by
        rw [Nat.add_right_comm]
        exact h (k + 1) (Nat.succ_lt_succ hk)
      refine ⟨found, hfound, hmem.trans ?_⟩
      rw [List.mem_cons, or_iff_right fun hsame => heq hsame.symm]

/-- The search among parameters finds a name exactly if one of them has it. -/
theorem FindCGIParameter_names (c : Command) (params : List Parameter) :
    ∃ found, FindCGIParameter c.param (names params) params.length 0 = some found ∧
      (found.isSome = true ↔ c.Addressed params) := by
  have hnames : ∀ k < (params.map Parameter.pcParam).length,
      names params (0 + k) = (params.map Parameter.pcParam)[k]? := by
    intro k _
    rw [names, Nat.zero_add, List.getElem?_map]
  obtain ⟨found, hfound, hmem⟩ := FindCGIParameter_spec c.param hnames
  rw [List.length_map] at hfound
  exact ⟨found, hfound, hmem.trans List.mem_map⟩

/-- A request without the parameter makes no assignment. -/
theorem foldl_assign_of_not_addressed {c : Command} {params : List Parameter}
    (h : ¬c.Addressed params) (o : Outputs) : params.foldl c.assign o = o := by
  induction params with
  | nil => rfl
  | cons a params ih =>
    have hne : a.pcParam ≠ c.param := fun heq => h ⟨a, List.mem_cons_self, heq⟩
    rw [List.foldl_cons, assign_of_ne hne]
    exact ih fun ⟨b, hb, heq⟩ => h ⟨b, List.mem_cons_of_mem a hb, heq⟩

/-- A handler returns exactly if its parameter is missing or the request is
short, and then it has walked over the parameters. -/
theorem onTexts_returns_iff {c : Command} {prepare : Panel → Panel} {turn : Turn}
    {params : List Parameter} {p q : Panel} :
    (∃ fuel, onTexts c.param prepare turn fuel params p = some (page (outputs q), q)) ↔
      (¬c.Addressed params ∧ q = p) ∨
        (c.Addressed params ∧ params.length < 256 ∧
          params.foldl turn.onTexts (prepare p) = q) := by
  obtain ⟨found, hfound, haddressed⟩ := FindCGIParameter_names c params
  unfold onTexts CGI_Handler
  rw [hfound]
  simp only [Option.bind_some]
  cases found with
  | some i =>
    have h : c.Addressed params := haddressed.mp rfl
    simp only [h, not_true_eq_false, false_and, true_and, false_or]
    rw [← byteLoop_ends_iff]
    refine exists_congr fun fuel => ?_
    rw [Option.map_eq_some_iff]
    constructor
    · rintro ⟨t, ht, heq⟩
      obtain rfl := congrArg Prod.snd heq
      exact ht
    · exact fun ht => ⟨q, ht, rfl⟩
  | none =>
    have h : ¬c.Addressed params := fun haddr => absurd (haddressed.mpr haddr) (by simp)
    have hpage : p = q → page (outputs p) = page (outputs q) :=
      congrArg fun q => page (outputs q)
    simpa [h, eq_comm] using hpage

/-- A handler that prepares nothing and makes the assignment of each parameter
in its turn does what the parameters say exactly if it returns. -/
theorem doesWhatItSays_iff_returns {c : Command} {turn : Turn}
    (hhandler : c.handler = onTexts c.param id turn)
    (hturn : ∀ p a, outputs (turn.onTexts p a) = c.assign (outputs p) a)
    (params : List Parameter) (p : Panel) :
    DoesWhatItSays c params p ↔ (c.Addressed params → params.length < 256) := by
  have hfold : outputs (params.foldl turn.onTexts p) = params.foldl c.assign (outputs p) :=
    (List.foldl_hom outputs fun p a => (hturn p a).symm).symm
  unfold DoesWhatItSays
  rw [exists_comm, hhandler]
  simp only [exists_and_right, onTexts_returns_iff]
  by_cases h : c.Addressed params
  · simp [h, hfold]
  · simp [h, foldl_assign_of_not_addressed h]

/-- The buzzer loop leaves the buzzer off, and the red output high after a warning. -/
theorem outputs_foldl_beepTurn (params : List Parameter) {p : Panel} (h : p.BEEP = false) :
    outputs (params.foldl beepTurn.onTexts p) =
      { outputs p with
        RED_LED := p.RED_LED || decide (true ∈ params.filterMap buzzerValue) } := by
  induction params generalizing p with
  | nil => simp [outputs]
  | cons a params ih =>
    have hturn := outputs_beepTurn h a
    have hBEEP : (beepTurn.onTexts p a).BEEP = false := (congrArg Outputs.BEEP hturn).trans h
    have hRED : (beepTurn.onTexts p a).RED_LED =
        (p.RED_LED || decide (buzzerValue a = some true)) := congrArg Outputs.RED_LED hturn
    rw [List.foldl_cons, ih hBEEP, hturn, hRED]
    cases hvalue : buzzerValue a with
    | none => simp [List.filterMap_cons_none hvalue]
    | some value => simp [List.filterMap_cons_some hvalue, Bool.or_assoc, eq_comm]

/-- The assignments of the buzzer parameters leave the last value asked for. -/
theorem foldl_assign_beep (params : List Parameter) (o : Outputs) :
    params.foldl Command.beep.assign o =
      { o with BEEP := (params.filterMap buzzerValue).getLastD o.BEEP } := by
  induction params generalizing o with
  | nil => rfl
  | cons a params ih =>
    rw [List.foldl_cons, ih, assign_beep]
    cases hvalue : buzzerValue a with
    | none => simp [hvalue]
    | some value =>
      rw [List.filterMap_cons_some hvalue, List.getLastD_cons]
      rfl

/-- The handler of the buzzer does what the parameters say exactly if it
returns and the buzzer is to be silent in the end. -/
theorem beep_doesWhatItSays_iff (params : List Parameter) (p : Panel) :
    DoesWhatItSays .beep params p ↔
      (Command.beep.Addressed params → params.length < 256 ∧ Silent params p) := by
  have hhandler : Command.beep.handler =
      onTexts Command.beep.param (fun p => { p with BEEP := false }) beepTurn := rfl
  have hsilent : outputs (params.foldl beepTurn.onTexts { p with BEEP := false }) =
      params.foldl Command.beep.assign (outputs p) ↔ Silent params p := by
    rw [outputs_foldl_beepTurn params rfl, foldl_assign_beep]
    simp only [outputs, Outputs.mk.injEq, true_and, and_true, Silent]
    exact and_congr eq_comm (by simp)
  unfold DoesWhatItSays
  rw [exists_comm, hhandler]
  simp only [exists_and_right, onTexts_returns_iff]
  by_cases h : Command.beep.Addressed params
  · simp [h, hsilent]
  · simp [h, foldl_assign_of_not_addressed h]

/-- For every request and state, a handler does what the parameters say exactly
if the request is not for it, or is short and leaves the buzzer silent. -/
theorem doesWhatItSays_iff_served (c : Command) (params : List Parameter) (p : Panel) :
    DoesWhatItSays c params p ↔ c.Served params p := by
  cases c with
  | leds =>
    rw [doesWhatItSays_iff_returns rfl outputs_lightTurn]
    simp [Command.Served]
  | beep =>
    rw [beep_doesWhatItSays_iff]
    simp [Command.Served]
  | mode =>
    rw [doesWhatItSays_iff_returns rfl outputs_modeTurn]
    simp [Command.Served]

/-- BEEP=BEEPON leaves the buzzer off. -/
theorem not_doesWhatItSays_BEEPON : ¬∀ c params p, DoesWhatItSays c params p := by
  intro h
  let params : List Parameter := [⟨bytes "BEEP", bytes "BEEPON"⟩]
  have haddressed : Command.beep.Addressed params := ⟨_, List.mem_singleton_self _, rfl⟩
  have hsilent := ((beep_doesWhatItSays_iff _ _).mp (h .beep params Smart_IOT_Center) haddressed).2
  exact absurd hsilent.1 (by decide)

end SmartHome.WebCommands
