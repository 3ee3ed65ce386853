import SmartHome.HttpCommands
import SmartHome.LabelledRuns

/-!
# The orders of the browsers

Any number of browsers command one panel. What the server does to the panel is
to obey the complete requests for command pages, one after the other in the
order in which their ends come in. The threads of the touch panel and of the
remote control, which set the same outputs, do not run.
-/

namespace SmartHome.HttpServer

open HomePanel HttpFiles HttpRequests LabelledRuns PageSending QueryParameters SsiTags WebCommands

variable {σ : Type*}

/-- A command with its query. -/
structure Order where
  command : Command
  query : Option (List UInt8)
deriving DecidableEq

/-- The handler of the command leads from one panel to the other. -/
def Order.Obeyed (o : Order) (p q : Panel) : Prop :=
  ∃ fuel, o.command.handler fuel (parameters (queryPieces o.query)) p =
    some (page (outputs q), q)

/-- The order in the name of a file. -/
def orderIn (uri : List UInt8) : Option Order :=
  (ppcURLs.lookup (cutAt 63 uri).1).map fun command => ⟨command, (cutAt 63 uri).2⟩

/-- The order that is complete with some buffers. -/
def http_state.order (hs : http_state σ) (p : List (List UInt8)) : Option Order :=
  if hs.handle.isSome then none
  else
    match http_parse_request (hs.req ++ p) with
    | .http_find_file uri _ => orderIn uri
    | _ => none

/-- The order that is complete with an event. -/
def orderOf (s : Server σ) : Event σ → Option Order
  | .call i (.http_recv (some p)) => s.connections[i]?.bind fun hs => hs.order p
  | _ => none

/-- A name is an order that is obeyed, or it does not change the panel. -/
theorem callHandler_takes {c c' : Control} {uri answer : List UInt8}
    (h : callHandler c uri = some (answer, c')) :
    Takes Order.Obeyed c.panel c'.panel (orderIn uri) := by
  rw [orderIn]
  cases hlookup : ppcURLs.lookup (cutAt 63 uri).1 with
  | none =>
    rw [callHandler] at h
    dsimp only at h
    rw [hlookup] at h
    cases h
    rfl
  | some command => exact (callHandler_command rfl hlookup h).2

variable {tcp : Tcp σ} {root : List fsdata_file} {feed : ℕ → Readings} {s : Shared}
  {hs : http_state σ}

/-- Received data changes the panel by the order that it completes. -/
theorem http_recv_takes {p : List (List UInt8)} {r : Shared × http_state σ}
    (h : http_recv tcp root feed s hs (some p) = some r) :
    Takes Order.Obeyed s.panel r.1.panel (hs.order p) := by
  rw [http_state.order]
  obtain ⟨hsame, hsome | hno⟩ | ⟨hnone, uri, is_09, _, _, hparse, hcall, hpanel⟩ :=
    http_recv_panel h
  · rw [if_pos hsome]
    exact hsame
  · split
    · exact hsame
    · split
      · rename_i uri is_09 hparse
        exact absurd hparse (hno uri is_09)
      · exact hsame
  · rw [hnone, hparse, hpanel]
    exact callHandler_takes hcall

/-- Without received data the panel stays as it is. -/
theorem react_panel {c : Call σ} {r : Shared × http_state σ}
    (hc : ∀ p, c ≠ .http_recv (some p)) (h : react tcp root feed s hs c = some r) :
    r.1.panel = s.panel := by
  cases c with
  | http_recv p =>
    cases p with
    | none =>
      cases h
      rfl
    | some p => exact absurd rfl (hc p)
  | http_sent =>
    cases h
    exact sendData_panel tcp feed s _
  | http_poll =>
    cases h
    rw [http_poll]
    dsimp only
    split_ifs
    · rfl
    · exact sendData_panel tcp feed s _
    · rfl
  | http_err =>
    cases h
    rfl
  | tcp state =>
    cases h
    rfl

/-- Every event changes the panel by the order that it completes. -/
theorem step_takes {readings : ℕ → ℕ → Readings} {s t : Server σ} {e : Event σ}
    (h : step tcp root readings s e = some t) :
    Takes Order.Obeyed s.shared.panel t.shared.panel (orderOf s e) := by
  obtain ⟨_, rfl, rfl⟩ | ⟨_, rfl, rfl⟩ | ⟨i, c, hs, r, rfl, hget, _, hr, rfl⟩ :=
    step_cases tcp root h
  · rfl
  · rfl
  · by_cases hc : ∃ p, c = .http_recv (some p)
    · obtain ⟨p, rfl⟩ := hc
      rw [orderOf, hget, Option.bind_some]
      exact http_recv_takes hr
    · have hno : orderOf s (.call i c) = none := by
        unfold orderOf
        split
        · rename_i heq
          cases heq
          exact absurd ⟨_, rfl⟩ hc
        · rfl
      rw [hno]
      exact react_panel (fun p hp => hc ⟨p, hp⟩) hr

/-- In every run of the server, in which no other thread uses the panel, the
panel obeys the orders whose requests are complete, each of them once and in
the order in which the ends of the requests come in, and nothing else changes
it. -/
theorem panel_follows_orders (tcp : Tcp σ) (root : List fsdata_file)
    (readings : ℕ → ℕ → Readings) (panel : Panel) (es : List (Event σ)) (s : Server σ)
    (hrun : TransitionRuns.run (step tcp root readings) (httpd_init panel) es = some s) :
    Follows Order.Obeyed (labels (step tcp root readings) orderOf (httpd_init panel) es) panel
      s.shared.panel := by
  have hstep : ∀ (s : Server σ) e t, step tcp root readings s e = some t →
      Takes Order.Obeyed s.shared.panel t.shared.panel (orderOf s e) :=
    fun _ _ _ h => step_takes h
  exact run_follows hstep hrun

theorem lightOn_runs :
    (TransitionRuns.run (step sparing (FS_ROOT fun name => name.map UInt8.toNat)
      fun _ _ => midnight) (httpd_init Smart_IOT_Center) lightOn).isSome = true := by
  decide +kernel

/-- The order is complete with the second piece of the request. -/
theorem panel_follows_orders_lightOn :
    ∃ s, TransitionRuns.run (step sparing (FS_ROOT fun name => name.map UInt8.toNat)
        fun _ _ => midnight) (httpd_init Smart_IOT_Center) lightOn = some s ∧
      Follows Order.Obeyed [⟨.leds, some (ByteStrings.bytes "light=Bedroom_lightON")⟩]
        Smart_IOT_Center s.shared.panel := by
  have horders : labels (step sparing (FS_ROOT fun name => name.map UInt8.toNat)
      fun _ _ => midnight) orderOf (httpd_init Smart_IOT_Center) lightOn =
        [⟨.leds, some (ByteStrings.bytes "light=Bedroom_lightON")⟩] := by
    decide +kernel
  obtain ⟨s, hrun⟩ := Option.isSome_iff_exists.mp lightOn_runs
  refine ⟨s, hrun, ?_⟩
  rw [← horders]
  exact panel_follows_orders sparing _ (fun _ _ => midnight) Smart_IOT_Center lightOn s hrun

/-! ### No order is lost -/

theorem buffers_cases (i : ℕ) (e : Event σ) :
    e.buffers i = [] ∨ ∃ p, e = .call i (.http_recv (some p)) := by
  unfold Event.buffers
  split
  · rename_i j p
    by_cases hji : j = i
    · exact Or.inr ⟨p, by rw [hji]⟩
    · exact Or.inl (if_neg hji)
  · exact Or.inl rfl

/-- The event with which a connection has been given so many bytes. -/
theorem received_reaches {i n : ℕ} {es : List (Event σ)} (hn : 0 < n)
    (h : n ≤ (received i es).flatten.length) :
    ∃ before p after, es = before ++ .call i (.http_recv (some p)) :: after ∧
      (received i before).flatten.length < n ∧ n ≤ (received i before ++ p).flatten.length := by
  induction es using List.reverseRecOn with
  | nil => exact absurd h (Nat.not_le.mpr hn)
  | append_singleton es e ih =>
    by_cases hbefore : n ≤ (received i es).flatten.length
    · obtain ⟨before, p, after, rfl, hrest⟩ := ih hbefore
      exact ⟨before, p, after ++ [e], by rw [List.append_assoc, List.cons_append], hrest⟩
    · rw [received_concat] at h
      obtain hempty | ⟨p, rfl⟩ := buffers_cases i e
      · rw [hempty, List.append_nil] at h
        exact absurd h hbefore
      · have hbuffers : Event.buffers i (.call i (.http_recv (some p)) : Event σ) = p := if_pos rfl
        rw [hbuffers] at h
        exact ⟨es, p, [], rfl, Nat.not_le.mp hbefore, h⟩

/-- A connection that has been given less than the line of a request is not
being answered. -/
theorem unanswered_before {readings : ℕ → ℕ → Readings} {panel : Panel} {es : List (Event σ)}
    {s : Server σ}
    (hrun : TransitionRuns.run (step tcp root readings) (httpd_init panel) es = some s) {i : ℕ}
    (hget : s.connections[i]? = some hs) {request line uri : List UInt8} {is_09 : Bool}
    (hrequest : Request request line uri is_09)
    (hline : line.length + 2 ≤ LWIP_HTTPD_MAX_REQ_LENGTH)
    (hbytes : (received i es).flatten <+: request)
    (hlen : (received i es).flatten.length < line.length + 2)
    (hqueue : (received i es).length ≤ LWIP_HTTPD_REQ_QUEUELEN) : hs.handle = none := by
  obtain ⟨hserved, _, _⟩ := (run_tracked tcp root readings panel es s hrun).1 i hs hget
  cases hserved with
  | waiting hnone _ _ => exact hnone
  | answering hopened _ _ _ =>
    -- the buffers for which the file was opened do not have the whole line
    obtain ⟨before, p, after, _, _, _, _, rfl, _, _, _, hparse, _⟩ := hopened
    rw [received_split] at hbytes hlen hqueue
    rw [List.flatten_append] at hbytes hlen
    rw [List.length_append] at hlen hqueue
    have hwaiting := hrequest.waiting hline ((List.prefix_append _ _).trans hbytes) (by omega)
      (by omega)
    cases hparse.symm.trans hwaiting

/-- In every run of the server: when a connection has been given a request for a
command page, in whatever pieces and whatever the others do, its order is one of
those that the panel has obeyed, at the event that has brought the end of the
line, if no more than ten buffers have come before. -/
theorem order_obeyed (tcp : Tcp σ) (root : List fsdata_file) (readings : ℕ → ℕ → Readings)
    (panel : Panel) (es : List (Event σ)) (s : Server σ)
    (hrun : TransitionRuns.run (step tcp root readings) (httpd_init panel) es = some s)
    {i : ℕ} {request line uri : List UInt8} {is_09 : Bool}
    (hrequest : Request request line uri is_09)
    (hline : line.length + 2 ≤ LWIP_HTTPD_MAX_REQ_LENGTH) (hsize : request.length < 65536)
    (hbytes : (received i es).flatten <+: request)
    (hlen : line.length + 2 ≤ (received i es).flatten.length)
    (hqueue : ∀ before, before <+: es → (received i before).flatten.length < line.length + 2 →
      (received i before).length ≤ LWIP_HTTPD_REQ_QUEUELEN)
    {o : Order} (horder : orderIn uri = some o) :
    o ∈ labels (step tcp root readings) orderOf (httpd_init panel) es ∧
      ∃ before p after t u, es = before ++ .call i (.http_recv (some p)) :: after ∧
        (received i before).flatten.length < line.length + 2 ∧
        line.length + 2 ≤ (received i before ++ p).flatten.length ∧
        TransitionRuns.run (step tcp root readings) (httpd_init panel) before = some t ∧
        step tcp root readings t (.call i (.http_recv (some p))) = some u ∧
        o.Obeyed t.shared.panel u.shared.panel := by
  obtain ⟨before, p, after, rfl, hshort, hlong⟩ := received_reaches (Nat.zero_lt_succ _) hlen
  obtain ⟨t, hbefore, hafter⟩ := TransitionRuns.run_append.mp hrun
  obtain ⟨u, hstep, _⟩ := TransitionRuns.run_cons.mp hafter
  rw [received_split, List.flatten_append] at hbytes
  have hall : (received i before ++ p).flatten <+: request :=
    (List.prefix_append _ _).trans hbytes
  have hearlier : (received i before).flatten <+: request := by
    rw [List.flatten_append] at hall
    exact (List.prefix_append _ _).trans hall
  obtain ⟨_, heq, _⟩ | ⟨_, heq, _⟩ | ⟨_, _, hs, _, heq, hget, hopen, _⟩ :=
    step_cases tcp root hstep
  · cases heq
  · cases heq
  · cases heq
    have hnone : hs.handle = none := unanswered_before hbefore hget hrequest hline hearlier hshort
      (hqueue before (List.prefix_append _ _) hshort)
    have hreq : hs.req = received i before :=
      ((run_tracked tcp root readings panel before t hbefore).1 i hs hget).queued hopen hnone
    have hcomplete : orderOf t (.call i (.http_recv (some p))) = some o := by
      rw [orderOf, hget, Option.bind_some, http_state.order, hnone, hreq,
        hrequest.complete hline hsize hall hlong]
      exact horder
    have htakes := step_takes hstep
    rw [hcomplete] at htakes
    exact ⟨mem_labels hbefore hcomplete, before, p, after, t, u, rfl, hshort, hlong, hbefore, hstep,
      htakes⟩

/-- The first piece does not have the whole line, the second one has. -/
theorem order_obeyed_lightOn :
    ∃ s, TransitionRuns.run (step sparing (FS_ROOT fun name => name.map UInt8.toNat)
        fun _ _ => midnight) (httpd_init Smart_IOT_Center) lightOn = some s ∧
      ∃ before p after t u, lightOn = before ++ .call 0 (.http_recv (some p)) :: after ∧
        (received 0 before).flatten.length < 46 ∧
        46 ≤ (received 0 before ++ p).flatten.length ∧
        TransitionRuns.run (step sparing (FS_ROOT fun name => name.map UInt8.toNat)
          fun _ _ => midnight) (httpd_init Smart_IOT_Center) before = some t ∧
        step sparing (FS_ROOT fun name => name.map UInt8.toNat) (fun _ _ => midnight) t
          (.call 0 (.http_recv (some p))) = some u ∧
        Order.Obeyed ⟨.leds, some (ByteStrings.bytes "light=Bedroom_lightON")⟩ t.shared.panel
          u.shared.panel := by
  obtain ⟨s, hrun⟩ := Option.isSome_iff_exists.mp lightOn_runs
  have hqueue : ∀ before, before <+: lightOn →
      (received 0 before).flatten.length <
          (ByteStrings.bytes "GET /leds.cgi?light=Bedroom_lightON HTTP/1.1").length + 2 →
        (received 0 before).length ≤ LWIP_HTTPD_REQ_QUEUELEN := by
    intro before ⟨rest, hrest⟩ _
    have hall : (received 0 lightOn).length = 2 := by decide
    rw [← hrest, received, List.flatMap_append, List.length_append] at hall
    exact (Nat.le_add_right _ _).trans (hall.le.trans (by decide))
  exact ⟨s, hrun, (order_obeyed sparing _ (fun _ _ => midnight) Smart_IOT_Center lightOn s hrun
    lightRequest_wellFormed (by decide) (by decide) (by decide) (by decide) hqueue rfl).2⟩

end SmartHome.HttpServer
