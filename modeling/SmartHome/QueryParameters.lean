import SmartHome.WebCommands

/-!
# Query strings and the null values of their parameters

extract_uri_parameters cuts the query string at '&' and each piece at '=', and
a piece without '=' has a null value. The handlers compare the value of every
parameter with their name, so a piece that is only the name passes a null
pointer to strcmp. Any other query is served as the handlers say.
-/

namespace SmartHome.QueryParameters

open ByteStrings HomePanel WebCommands

abbrev LWIP_HTTPD_MAX_CGI_PARAMETERS : ℕ := 16

/-- The parameter arrays of an http_state, with the strings their pointers
point to. Entries of earlier requests stay in place. -/
structure param_state where
  params : ℕ → Option (List UInt8)
  param_vals : ℕ → Option (List UInt8)

/-- Terminate a string at the first occurrence of a byte, and what is behind it. -/
def cutAt (c : UInt8) : List UInt8 → List UInt8 × Option (List UInt8)
  | [] => ([], none)
  | x :: xs => if x = c then ([], some xs) else (x :: (cutAt c xs).1, (cutAt c xs).2)

/-- Enter a piece at an index, with its name and value. -/
def param_state.store (hs : param_state) (loop : ℕ) (pair : List UInt8) : param_state :=
  { params := Function.update hs.params loop (some (cutAt 61 pair).1),
    param_vals := Function.update hs.param_vals loop (cutAt 61 pair).2 }

/-- The loop of extract_uri_parameters, with the number of entries left. -/
def extract : ℕ → ℕ → Option (List UInt8) → param_state → ℕ × param_state
  | 0, loop, _, hs => (loop, hs)
  | _ + 1, loop, none, hs => (loop, hs)
  | left + 1, loop, some pair, hs =>
    let next := (cutAt 38 pair).2
    let pair := if next.isSome then (cutAt 38 pair).1 else (cutAt 32 (cutAt 38 pair).1).1
    extract left (loop + 1) next (hs.store loop pair)

/-- Store the parameters of a request and count them. -/
def extract_uri_parameters (hs : param_state) : Option (List UInt8) → ℕ × param_state
  | none => (0, hs)
  | some [] => (0, hs)
  | some params => extract LWIP_HTTPD_MAX_CGI_PARAMETERS 0 (some params) hs

/-! ### The handlers on the arrays -/

/-- The loop of a handler, with the number of entries left. The 8-bit index
counts at most sixteen of them. -/
def turns (turn : Turn) (hs : param_state) : ℕ → ℕ → Panel → Option Panel
  | 0, _, p => some p
  | left + 1, i, p => (turn (hs.params i) (hs.param_vals i) p).bind (turns turn hs left (i + 1))

/-- A handler on the arrays. -/
def handle (pcToFind : List UInt8) (prepare : Panel → Panel) (turn : Turn) (iNumParams : ℕ)
    (hs : param_state) : Panel → Option (String × Panel) :=
  CGI_Handler pcToFind prepare (turns turn hs iNumParams 0) iNumParams hs.params

/-- The loop body of a page's handler. -/
def turnOf : Command → Turn
  | .leds => lightTurn
  | .beep => beepTurn
  | .mode => modeTurn

/-- What a page's handler does before its loop. -/
def prepareOf : Command → Panel → Panel
  | .leds => id
  | .beep => fun p => { p with BEEP := false }
  | .mode => id

/-- A page's handler serves a request with a query string. -/
def serve (c : Command) (hs : param_state) (params : Option (List UInt8)) (p : Panel) :
    Option (String × Panel) :=
  let extracted := extract_uri_parameters hs params
  handle c.param (prepareOf c) (turnOf c) extracted.1 extracted.2 p

/-! ### The pieces of a query string -/

/-- The first pieces of a query string; the last of all ends at its first space. -/
def pieces : ℕ → List UInt8 → List (List UInt8)
  | 0, _ => []
  | left + 1, s =>
    match (cutAt 38 s).2 with
    | some rest => (cutAt 38 s).1 :: pieces left rest
    | none => [(cutAt 32 (cutAt 38 s).1).1]

/-- The pieces that become parameters. -/
def queryPieces : Option (List UInt8) → List (List UInt8)
  | none => []
  | some [] => []
  | some params => pieces LWIP_HTTPD_MAX_CGI_PARAMETERS params

/-- The parameters of the pieces, with an empty text for a null value. -/
def parameters (ps : List (List UInt8)) : List Parameter :=
  ps.map fun piece => ⟨(cutAt 61 piece).1, (cutAt 61 piece).2.getD []⟩

/-- The arrays hold the names and values of the pieces from an index on. -/
def Holds (hs : param_state) : ℕ → List (List UInt8) → Prop
  | _, [] => True
  | i, piece :: ps => hs.params i = some (cutAt 61 piece).1 ∧
      hs.param_vals i = (cutAt 61 piece).2 ∧ Holds hs (i + 1) ps

/-- A string that is cut nowhere does not have the byte, and remains whole. -/
theorem cutAt_eq_none {c : UInt8} {s : List UInt8} (h : (cutAt c s).2 = none) :
    (cutAt c s).1 = s ∧ c ∉ s := by
  induction s with
  | nil => exact ⟨rfl, List.not_mem_nil⟩
  | cons x xs ih =>
    rw [cutAt] at h ⊢
    by_cases hx : x = c
    · rw [if_pos hx] at h
      exact absurd h (by simp)
    · rw [if_neg hx] at h ⊢
      obtain ⟨hwhole, hnot⟩ := ih h
      exact ⟨by rw [hwhole], fun hmem => (List.mem_cons.mp hmem).elim (fun heq => hx heq.symm) hnot⟩

/-- A string without the byte is cut nowhere. -/
theorem cutAt_of_not_mem {c : UInt8} {s : List UInt8} (h : c ∉ s) : cutAt c s = (s, none) := by
  induction s with
  | nil => rfl
  | cons x xs ih =>
    rw [List.mem_cons, not_or] at h
    rw [cutAt, if_neg (fun heq => h.1 heq.symm), ih h.2]

/-- Extraction writes from its first index on only. -/
theorem extract_below (left loop : ℕ) {i : ℕ} (pair : Option (List UInt8)) (hs : param_state)
    (h : i < loop) : (extract left loop pair hs).2.params i = hs.params i ∧
      (extract left loop pair hs).2.param_vals i = hs.param_vals i := by
  induction left generalizing loop pair hs with
  | zero => exact ⟨rfl, rfl⟩
  | succ left ih =>
    cases pair with
    | none => exact ⟨rfl, rfl⟩
    | some pair =>
      rw [extract]
      obtain ⟨hname, hvalue⟩ := ih (loop + 1) (cutAt 38 pair).2 (hs.store loop _) (by omega)
      rw [hname, hvalue]
      exact ⟨Function.update_of_ne (by omega) _ _, Function.update_of_ne (by omega) _ _⟩

/-- The loop stores the pieces of its string. -/
theorem extract_spec (left loop : ℕ) (s : List UInt8) (hs : param_state) :
    (extract left loop (some s) hs).1 = loop + (pieces left s).length ∧
      Holds (extract left loop (some s) hs).2 loop (pieces left s) := by
  induction left generalizing loop s hs with
  | zero => exact ⟨rfl, trivial⟩
  | succ left ih =>
    rw [extract, pieces]
    cases hnext : (cutAt 38 s).2 with
    | none =>
      have hstop : ∀ hs, extract left (loop + 1) none hs = (loop + 1, hs) := by
        intro hs
        cases left <;> rfl
      dsimp only
      rw [hstop]
      exact ⟨rfl, Function.update_self .., Function.update_self .., trivial⟩
    | some rest =>
      dsimp only
      obtain ⟨hcount, hrest⟩ := ih (loop + 1) rest (hs.store loop (cutAt 38 s).1)
      obtain ⟨hname, hvalue⟩ := extract_below left (loop + 1) (some rest)
        (hs.store loop (cutAt 38 s).1) (Nat.lt_succ_self loop)
      refine ⟨?_, hname.trans (Function.update_self ..), hvalue.trans (Function.update_self ..),
        hrest⟩
      rw [Option.isSome_some, if_pos rfl, hcount, List.length_cons]
      omega

/-- A request stores its pieces from the first entry on. -/
theorem extract_uri_parameters_spec (hs : param_state) (params : Option (List UInt8)) :
    (extract_uri_parameters hs params).1 = (queryPieces params).length ∧
      Holds (extract_uri_parameters hs params).2 0 (queryPieces params) := by
  match params with
  | none => exact ⟨rfl, trivial⟩
  | some [] => exact ⟨rfl, trivial⟩
  | some (c :: cs) =>
    obtain ⟨hcount, hholds⟩ := extract_spec LWIP_HTTPD_MAX_CGI_PARAMETERS 0 (c :: cs) hs
    exact ⟨hcount.trans (Nat.zero_add _), hholds⟩

/-! ### The turns -/

/-- A turn on a name without a value compares a null pointer if the name is
the one of the handler; any other turn is that of the handler. -/
def TurnSpec (c : Command) (turn : Turn) : Prop :=
  ∀ name value p, turn (some name) value p =
    if name = c.param ∧ value = none then none else some (turn.onTexts p ⟨name, value.getD []⟩)

/-- The value of a parameter with the literal as its name is compared with two
texts, and a null value is compared as well. -/
theorem ifSame_parameter {α : Type*} (name literal : List UInt8) (value : Option (List UInt8))
    (first second : List UInt8) (a b c : α) :
    ifSame (some name) literal
        (ifSame value first (some a) (ifSame value second (some b) (some c))) (some c) =
      if name = literal ∧ value = none then none
      else some (if name = literal then
        if value.getD [] = first then a else if value.getD [] = second then b else c
        else c) := by
  by_cases hname : name = literal
  · cases value with
    | none =>
      rw [if_pos ⟨hname, rfl⟩]
      simp only [ifSame, if_pos hname]
    | some value =>
      rw [if_neg (by simp), if_pos hname]
      simp only [ifSame, if_pos hname, Option.getD_some]
      split
      · rfl
      · split <;> rfl
  · rw [if_neg fun h => hname h.1, if_neg hname]
    simp only [ifSame, if_neg hname]

theorem lightTurn_spec : TurnSpec .leds lightTurn := by
  intro name value p
  have htext : ¬(name = bytes "light" ∧ some (value.getD []) = none) := by simp
  unfold Turn.onTexts lightTurn
  dsimp only
  rw [ifSame_parameter, ifSame_parameter, if_neg htext, Option.bind_some, ifSame_parameter,
    if_neg htext, Option.getD_some]
  by_cases hnull : name = bytes "light" ∧ value = none
  · rw [if_pos hnull, Option.bind_none]
    exact (if_pos hnull).symm
  · rw [if_neg hnull, Option.bind_some, ifSame_parameter, if_neg hnull]
    exact (if_neg hnull).symm

/-- A turn that compares the value with two texts. -/
theorem turnSpec_of_two {c : Command} {turn : Turn} {first second : List UInt8}
    {f g : Panel → Panel}
    (hturn : ∀ pcParam pcValue p, turn pcParam pcValue p =
      ifSame pcParam c.param
        (ifSame pcValue first (some (f p)) (ifSame pcValue second (some (g p)) (some p)))
        (some p)) : TurnSpec c turn := by
  intro name value p
  have htext : ¬(name = c.param ∧ some (value.getD []) = none) := by simp
  rw [Turn.onTexts, hturn, hturn, ifSame_parameter, ifSame_parameter, if_neg htext,
    Option.getD_some, Option.getD_some]

theorem beepTurn_spec : TurnSpec .beep beepTurn := turnSpec_of_two fun _ _ _ => rfl

theorem modeTurn_spec : TurnSpec .mode modeTurn := turnSpec_of_two fun _ _ _ => rfl

theorem turnOf_spec (c : Command) : TurnSpec c (turnOf c) := by
  cases c with
  | leds => exact lightTurn_spec
  | beep => exact beepTurn_spec
  | mode => exact modeTurn_spec

/-- A piece gives the handler's name a null value exactly if it is the name. -/
theorem bare_iff (c : Command) (piece : List UInt8) :
    (cutAt 61 piece).1 = c.param ∧ (cutAt 61 piece).2 = none ↔ piece = c.param := by
  have hparam : 61 ∉ c.param := by cases c <;> decide
  constructor
  · rintro ⟨hname, hvalue⟩
    rw [← hname, (cutAt_eq_none hvalue).1]
  · rintro rfl
    rw [cutAt_of_not_mem hparam]
    exact ⟨rfl, rfl⟩

/-! ### Whole requests -/

/-- The loop compares a null pointer exactly if a piece is the bare name, and
else it does the turns of the handler. -/
theorem turns_eq (c : Command) {hs : param_state} {ps : List (List UInt8)} {i : ℕ}
    (h : Holds hs i ps) (p : Panel) : turns (turnOf c) hs ps.length i p =
      if c.param ∈ ps then none else some ((parameters ps).foldl (turnOf c).onTexts p) := by
  induction ps generalizing i p with
  | nil => rfl
  | cons piece ps ih =>
    obtain ⟨hname, hvalue, hrest⟩ := h
    rw [List.length_cons, turns, hname, hvalue, turnOf_spec, if_congr (bare_iff c piece) rfl rfl]
    by_cases hbare : piece = c.param
    · rw [if_pos hbare, if_pos (List.mem_cons.mpr (.inl hbare.symm)), Option.bind_none]
    · rw [if_neg hbare, Option.bind_some, ih hrest]
      refine if_congr ?_ rfl rfl
      rw [List.mem_cons, or_iff_right fun heq => hbare heq.symm]

/-- The arrays hold the names of the pieces. -/
theorem Holds.names {hs : param_state} {ps : List (List UInt8)} {i : ℕ} (h : Holds hs i ps) :
    ∀ k < ps.length, hs.params (i + k) = (ps.map fun piece => (cutAt 61 piece).1)[k]? := by
  induction ps generalizing i with
  | nil => exact fun k hk => absurd hk (Nat.not_lt_zero k)
  | cons piece ps ih =>
    obtain ⟨hname, -, hrest⟩ := h
    intro k hk
    cases k with
    | zero => exact hname
    | succ k =>
      have hk' := ih hrest k (Nat.lt_of_succ_lt_succ hk)
      rw [Nat.add_right_comm] at hk'
      exact hk'

/-- The search finds the name exactly if a parameter has it. -/
theorem FindCGIParameter_isSome (c : Command) {hs : param_state} {ps : List (List UInt8)}
    (h : Holds hs 0 ps) : ∃ found, FindCGIParameter c.param hs.params ps.length 0 = some found ∧
      (found.isSome = true ↔ c.Addressed (parameters ps)) := by
  have hnames : ∀ k < (ps.map fun piece => (cutAt 61 piece).1).length,
      hs.params (0 + k) = (ps.map fun piece => (cutAt 61 piece).1)[k]? :=
    fun k hk => h.names k (by simpa using hk)
  obtain ⟨found, hfound, hmem⟩ := FindCGIParameter_spec c.param hnames
  rw [List.length_map] at hfound
  refine ⟨found, hfound, hmem.trans ?_⟩
  simp [Command.Addressed, parameters]

/-- A piece that is the bare name addresses the handler. -/
theorem addressed_of_bare {c : Command} {ps : List (List UInt8)} (h : c.param ∈ ps) :
    c.Addressed (parameters ps) :=
  ⟨_, List.mem_map.mpr ⟨_, h, rfl⟩, ((bare_iff c _).mpr rfl).1⟩

/-- There are at most sixteen pieces. -/
theorem length_pieces_le (left : ℕ) (s : List UInt8) : (pieces left s).length ≤ left := by
  induction left generalizing s with
  | zero => exact le_rfl
  | succ left ih =>
    rw [pieces]
    split
    · rename_i rest _
      exact Nat.succ_le_succ (ih rest)
    · exact Nat.succ_le_succ (Nat.zero_le left)

theorem length_queryPieces_le (params : Option (List UInt8)) :
    (queryPieces params).length ≤ 16 := by
  match params with
  | none => exact Nat.zero_le 16
  | some [] => exact Nat.zero_le 16
  | some (c :: cs) => exact length_pieces_le 16 (c :: cs)

/-- A bare name among the pieces passes a null pointer to strcmp. -/
theorem serve_of_bare {c : Command} {params : Option (List UInt8)}
    (h : c.param ∈ queryPieces params) (hs : param_state) (p : Panel) :
    serve c hs params p = none := by
  obtain ⟨hcount, hholds⟩ := extract_uri_parameters_spec hs params
  obtain ⟨found, hfound, haddressed⟩ := FindCGIParameter_isSome c hholds
  rw [serve, handle, CGI_Handler, hcount, hfound, Option.bind_some]
  cases found with
  | none => exact absurd (haddressed.mpr (addressed_of_bare h)) (by simp)
  | some i =>
    dsimp only
    rw [turns_eq c hholds, if_pos h]
    rfl

/-- Any other request is served by the handler on its parameters. -/
theorem serve_of_not_bare {c : Command} {params : Option (List UInt8)}
    (h : c.param ∉ queryPieces params) (hs : param_state) (p : Panel) :
    ∃ q, serve c hs params p = some (page (outputs q), q) ∧
      ∃ fuel, c.handler fuel (parameters (queryPieces params)) p = some (page (outputs q), q) := by
  have hhandler : c.handler = onTexts c.param (prepareOf c) (turnOf c) := by cases c <;> rfl
  obtain ⟨hcount, hholds⟩ := extract_uri_parameters_spec hs params
  obtain ⟨found, hfound, haddressed⟩ := FindCGIParameter_isSome c hholds
  rw [serve, handle, CGI_Handler, hcount, hfound, Option.bind_some, hhandler]
  cases found with
  | none =>
    have hnot : ¬c.Addressed (parameters (queryPieces params)) :=
      fun haddr => absurd (haddressed.mpr haddr) (by simp)
    exact ⟨p, rfl, onTexts_returns_iff.mpr (.inl ⟨hnot, rfl⟩)⟩
  | some i =>
    have hshort : (parameters (queryPieces params)).length < 256 := by
      rw [parameters, List.length_map]
      exact (length_queryPieces_le params).trans_lt (by omega)
    dsimp only
    rw [turns_eq c hholds, if_neg h]
    exact ⟨_, rfl, onTexts_returns_iff.mpr (.inr ⟨haddressed.mp rfl, hshort, rfl⟩)⟩

/-- For every query string a handler compares no null pointer exactly if none
of the pieces is the bare name of its parameter. -/
theorem serve_ne_none_iff (c : Command) (hs : param_state) (params : Option (List UInt8))
    (p : Panel) : serve c hs params p ≠ none ↔ c.param ∉ queryPieces params := by
  constructor
  · intro h hbare
    exact h (serve_of_bare hbare hs p)
  · intro h hnone
    obtain ⟨q, hq, -⟩ := serve_of_not_bare h hs p
    rw [hnone] at hq
    exact absurd hq (by simp)

/-- The query string light passes a null pointer to strcmp. -/
theorem serve_light_none :
    ¬∀ (c : Command) (hs : param_state) (params : Option (List UInt8)) (p : Panel),
      serve c hs params p ≠ none := by
  intro h
  have hbare : Command.leds.param ∈ queryPieces (some (bytes "light")) := by decide
  exact h .leds ⟨fun _ => none, fun _ => none⟩ _ Smart_IOT_Center
    (serve_of_bare hbare _ Smart_IOT_Center)

end SmartHome.QueryParameters
