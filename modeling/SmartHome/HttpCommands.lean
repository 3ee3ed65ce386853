import SmartHome.HttpAnswers

/-!
# Commands from the browser

A request for one of the command pages runs its handler on the panel. The page
that comes back is the one of the outputs after the command.
-/

namespace SmartHome.HttpServer

open HomePanel HttpFiles HttpRequests PageSending QueryParameters SsiTags WebCommands

variable {σ : Type*}

/-- A command page calls its handler, which answers with the page of the
outputs it leads to. -/
theorem callHandler_command {c c' : Control} {uri name answer : List UInt8}
    {query : Option (List UInt8)} {command : Command} (huri : cutAt 63 uri = (name, query))
    (hcommand : ppcURLs.lookup name = some command)
    (h : callHandler c uri = some (answer, c')) :
    answer = ByteStrings.bytes (page (outputs c'.panel)) ∧
      ∃ fuel, command.handler fuel (parameters (queryPieces query)) c.panel =
        some (page (outputs c'.panel), c'.panel) := by
  rw [callHandler, huri] at h
  dsimp only at h
  rw [hcommand] at h
  obtain ⟨⟨text, panel⟩, hserve, hanswer⟩ := Option.map_eq_some_iff.mp h
  cases hanswer
  by_cases hbare : command.param ∈ queryPieces query
  · rw [serve_of_bare hbare] at hserve
    cases hserve
  · obtain ⟨q, hq, fuel, hhandler⟩ := serve_of_not_bare hbare c.params c.panel
    rw [hq] at hserve
    cases hserve
    exact ⟨rfl, fuel, hhandler⟩

/-- Sending does not touch the panel. -/
theorem sendData_panel (tcp : Tcp σ) (feed : ℕ → Readings) (s : Shared) (hs : http_state σ) :
    (sendData tcp feed s hs).1.panel = s.panel := by
  obtain ⟨_, heq⟩ | ⟨_, heq⟩ := sendData_cases tcp feed s hs
  · rw [heq]
  · rw [heq]
    rfl

/-- Received data leaves the panel alone, or completes a request and leaves it
as the handler has left it. -/
theorem http_recv_panel {tcp : Tcp σ} {root : List fsdata_file} {feed : ℕ → Readings}
    {s : Shared} {hs : http_state σ} {p : List (List UInt8)} {r : Shared × http_state σ}
    (h : http_recv tcp root feed s hs (some p) = some r) :
    r.1.panel = s.panel ∧ (hs.handle.isSome = true ∨
        ∀ uri is_09, http_parse_request (hs.req ++ p) ≠ .http_find_file uri is_09) ∨
      hs.handle = none ∧ ∃ uri is_09 answer c',
        http_parse_request (hs.req ++ p) = .http_find_file uri is_09 ∧
        callHandler ⟨hs.params, s.panel⟩ uri = some (answer, c') ∧ r.1.panel = c'.panel := by
  obtain ⟨hsome, rfl⟩ | ⟨hnone, ⟨hbusy, rfl⟩ | ⟨_, herror, rfl⟩ |
      ⟨uri, is_09, found, hfile, hfound, rfl⟩⟩ := http_recv_cases tcp root h
  · exact Or.inl ⟨rfl, Or.inl hsome⟩
  · exact Or.inl ⟨rfl, Or.inr fun uri is_09 hfile => by cases hbusy.symm.trans hfile⟩
  · exact Or.inl ⟨rfl, Or.inr fun uri is_09 hfile => by cases herror.symm.trans hfile⟩
  · rw [http_find_file_eq] at hfound
    obtain ⟨⟨answer, c'⟩, hcall, rfl⟩ := Option.map_eq_some_iff.mp hfound
    refine Or.inr ⟨hnone, uri, is_09, answer, c', hfile, hcall, ?_⟩
    rw [sendData_panel]
    dsimp only
    split <;> rfl

/-- A connection that is called has not been freed. -/
theorem step_open {tcp : Tcp σ} {root : List fsdata_file} {readings : ℕ → ℕ → Readings}
    {s t : Server σ} {i : ℕ} {hs : http_state σ} {c : Call σ} (hget : s.connections[i]? = some hs)
    (hstep : step tcp root readings s (.call i c) = some t) : hs.freed = false := by
  cases hfreed : hs.freed with
  | false => rfl
  | true => simp [step, hget, hfreed] at hstep

/-- The event that completes a request leaves the panel as the handler has
left it. -/
theorem step_panel {tcp : Tcp σ} {root : List fsdata_file} {readings : ℕ → ℕ → Readings}
    {s t : Server σ} {i : ℕ} {hs : http_state σ} {p : List (List UInt8)} {uri answer : List UInt8}
    {is_09 : Bool} {c' : Control} (hget : s.connections[i]? = some hs) (hnone : hs.handle = none)
    (hparse : http_parse_request (hs.req ++ p) = .http_find_file uri is_09)
    (hcall : callHandler ⟨hs.params, s.shared.panel⟩ uri = some (answer, c'))
    (hstep : step tcp root readings s (.call i (.http_recv (some p))) = some t) :
    t.shared.panel = c'.panel := by
  obtain ⟨_, heq, _⟩ | ⟨_, heq, _⟩ | ⟨j, c, hs', r, heq, hget', _, hr, rfl⟩ :=
    step_cases tcp root hstep
  · cases heq
  · cases heq
  · cases heq
    cases hget.symm.trans hget'
    obtain ⟨_, hsome | hno⟩ | ⟨_, uri', is_09', _, _, hfile, hcall', hpanel⟩ :=
      http_recv_panel hr
    · rw [hnone] at hsome
      cases hsome
    · exact absurd hparse (hno uri is_09)
    · cases hparse.symm.trans hfile
      cases hcall.symm.trans hcall'
      exact hpanel

/-- In every run of the server, with the files of the panel and any contents of
theirs, the handlers of the web server being the only ones that use the panel:
what is written in answer to a request for a command page is a beginning of the
page whose name says the outputs that the command has led to, with its tags,
and all of it if the server has closed the connection because nothing was left
of a page with a body; and these are the outputs of the panel right after the
event with which the server has found the line of the request to be complete. -/
theorem command_answered (tcp : Tcp σ) (files : List UInt8 → List ℕ)
    (readings : ℕ → ℕ → Readings) (panel : Panel) (es : List (Event σ)) (s : Server σ)
    (hrun : TransitionRuns.run (step tcp (FS_ROOT files) readings) (httpd_init panel) es =
      some s)
    {i : ℕ} {hs : http_state σ} (hget : s.connections[i]? = some hs)
    {request line uri : List UInt8} {is_09 : Bool} (hrequest : Request request line uri is_09)
    (hbytes : (received i es).flatten <+: request) {name : List UInt8}
    {query : Option (List UInt8)} {command : Command} (huri : cutAt 63 uri = (name, query))
    (hcommand : ppcURLs.lookup name = some command) :
    hs.sending.pcb.written = [] ∨ ∃ before p after t u,
      es = before ++ .call i (.http_recv (some p)) :: after ∧
      TransitionRuns.run (step tcp (FS_ROOT files) readings) (httpd_init panel) before =
        some t ∧
      step tcp (FS_ROOT files) readings t (.call i (.http_recv (some p))) = some u ∧
      http_parse_request (received i before ++ p) = .http_find_file uri is_09 ∧
      line.length + 2 ≤ (received i before ++ p).flatten.length ∧
      (∃ fuel, command.handler fuel (parameters (queryPieces query)) t.shared.panel =
        some (page (outputs u.shared.panel), u.shared.panel)) ∧
      let shown := files (ByteStrings.bytes (page (outputs u.shared.panel)))
      hs.sending.pcb.written <+: content (readings i) true is_09 shown ∧
        (bodyStart is_09 shown < shown.length → hs.sending.ended = some .finished →
          hs.sending.pcb.written = content (readings i) true is_09 shown) := by
  obtain hempty | ⟨data, tag_check, hopened, hbegins, hall⟩ :=
    request_answered tcp (FS_ROOT files) readings panel es s hrun hget hrequest hbytes
  · exact Or.inl hempty
  · right
    obtain ⟨before, p, after, t, hs', answer, c', rfl, hbefore, hget', hnone, hparse, hcall,
      hfirst⟩ := hopened
    obtain ⟨t', hbefore', hafter⟩ := TransitionRuns.run_append.mp hrun
    cases hbefore.symm.trans hbefore'
    obtain ⟨u, hstep, _⟩ := TransitionRuns.run_cons.mp hafter
    obtain ⟨_, _, hqueued⟩ := (run_tracked tcp _ readings panel before t hbefore).1 i hs' hget'
    have hqueue : hs'.req = received i before := hqueued (step_open hget' hstep) hnone
    have hpanel : u.shared.panel = c'.panel :=
      step_panel hget' hnone (hqueue ▸ hparse) hcall hstep
    rw [received_split, List.flatten_append] at hbytes
    have hline : line.length + 2 ≤ (received i before ++ p).flatten.length :=
      hrequest.whole_line ((List.prefix_append _ _).trans hbytes) hparse
    obtain ⟨rfl, hhandler⟩ := callHandler_command huri hcommand hcall
    rw [firstFile_page] at hfirst
    cases hfirst
    refine ⟨before, p, after, t, u, rfl, hbefore, hstep, hparse, hline, ?_, ?_⟩
    · rw [hpanel]
      exact hhandler
    · rw [hpanel]
      exact ⟨hbegins, hall⟩

/-- A request that switches the light of the bedroom on. -/
def lightRequest : List UInt8 :=
  ByteStrings.bytes "GET /leds.cgi?light=Bedroom_lightON HTTP/1.1\r\n"

theorem lightRequest_wellFormed :
    Request lightRequest (ByteStrings.bytes "GET /leds.cgi?light=Bedroom_lightON HTTP/1.1")
      (ByteStrings.bytes "/leds.cgi?light=Bedroom_lightON") false :=
  ⟨⟨.full (ByteStrings.bytes "HTTP/1.1"), by decide, by decide, by decide⟩, ⟨[], by decide⟩,
    fun h => absurd h (by decide)⟩

/-- The request comes in two pieces. -/
def lightOn : List (Event Unit) :=
  [.http_accept () true, .call 0 (.http_recv (some [lightRequest.take 20])),
   .call 0 (.http_recv (some [lightRequest.drop 20]))]

/-- The first byte that is sent is that of the page of the outputs that the
handler leads to when the second piece has come. -/
theorem command_answered_lightOn :
    ∃ s hs, TransitionRuns.run (step sparing (FS_ROOT fun name => name.map UInt8.toNat)
        fun _ _ => midnight) (httpd_init Smart_IOT_Center) lightOn = some s ∧
      s.connections[0]? = some hs ∧ hs.sending.pcb.written = [47] ∧ ∃ before p after t u,
        lightOn = before ++ .call 0 (.http_recv (some p)) :: after ∧
        step sparing (FS_ROOT fun name => name.map UInt8.toNat) (fun _ _ => midnight) t
          (.call 0 (.http_recv (some p))) = some u ∧
        46 ≤ (received 0 before ++ p).flatten.length ∧
        (∃ fuel, LEDS_CGI_Handler fuel [⟨ByteStrings.bytes "light",
          ByteStrings.bytes "Bedroom_lightON"⟩] t.shared.panel =
            some (page (outputs u.shared.panel), u.shared.panel)) ∧
        hs.sending.pcb.written <+: content (fun _ => midnight) true false
          ((ByteStrings.bytes (page (outputs u.shared.panel))).map UInt8.toNat) := by
  have hfirst : ((TransitionRuns.run (step sparing (FS_ROOT fun name => name.map UInt8.toNat)
      fun _ _ => midnight) (httpd_init Smart_IOT_Center) lightOn).bind
        fun s => s.connections[0]?).any (fun hs => hs.sending.pcb.written = [47]) = true := by
    delta HttpServer.step react http_recv sendData PageSending.call http_send_data sendTagged
      scanAndSend
    rw [tagLoop_eq_within 200]
    decide +kernel
  obtain ⟨hs, hrun, hwritten⟩ := (Option.any_eq_true _ _).mp hfirst
  obtain ⟨s, hs', hget⟩ := Option.bind_eq_some_iff.mp hrun
  have hbyte : hs.sending.pcb.written = [47] := of_decide_eq_true hwritten
  have huri : cutAt 63 (ByteStrings.bytes "/leds.cgi?light=Bedroom_lightON") =
      (ByteStrings.bytes "/leds.cgi", some (ByteStrings.bytes "light=Bedroom_lightON")) := by
    decide
  have hcommand : ppcURLs.lookup (ByteStrings.bytes "/leds.cgi") = some Command.leds := rfl
  obtain hempty | ⟨before, p, after, t, u, hsplit, _, hstep, _, hline, hhandler, hbegins, _⟩ :=
    command_answered sparing _ (fun _ _ => midnight) Smart_IOT_Center lightOn s hs' hget
      lightRequest_wellFormed (by decide) huri hcommand
  · cases hbyte.symm.trans hempty
  · exact ⟨s, hs, hs', hget, hbyte, before, p, after, t, u, hsplit, hstep, hline, hhandler,
      hbegins⟩

end SmartHome.HttpServer
