import SmartHome.HttpServer

/-!
# The answers of the web server

What has been written on a connection is a beginning of the page that the
request on this connection names when the last of it is received, and all of
that page when the server closes because nothing is left. Other connections,
and data that comes in while the page is being sent, make no difference. The
handlers of the server are the only ones that use the panel.
-/

namespace SmartHome.HttpServer

open HomePanel HttpFiles HttpRequests PageSending SsiTags

variable {σ : Type*}

/-- The buffers that an event brings to a connection. -/
def Event.buffers (i : ℕ) : Event σ → List (List UInt8)
  | .call j (.http_recv (some p)) => if j = i then p else []
  | _ => []

/-- The buffers a connection has been given in a run. -/
def received (i : ℕ) (es : List (Event σ)) : List (List UInt8) := es.flatMap (Event.buffers i)

theorem received_concat (i : ℕ) (es : List (Event σ)) (e : Event σ) :
    received i (es ++ [e]) = received i es ++ e.buffers i := by
  rw [received, List.flatMap_append, List.flatMap_singleton]
  rfl

/-- A connection has been given the buffers of an event after the earlier ones. -/
theorem received_split (i : ℕ) (before after : List (Event σ)) (p : List (List UInt8)) :
    received i (before ++ .call i (.http_recv (some p)) :: after) =
      received i before ++ p ++ received i after := by
  have hbuffers : Event.buffers i (.call i (.http_recv (some p)) : Event σ) = p := if_pos rfl
  rw [received, received, received, List.flatMap_append, List.flatMap_cons, hbuffers,
    ← List.append_assoc]

variable (tcp : Tcp σ) (root : List fsdata_file) (readings : ℕ → ℕ → Readings) (panel : Panel)

/-- In the run the file has been opened for the request that a connection had
received by then and on which nothing had been opened before, with the panel
as it was then. -/
def Opened (es : List (Event σ)) (i : ℕ) (uri : List UInt8) (is_09 : Bool) (page : List ℕ)
    (tag_check : Bool) : Prop :=
  ∃ before p after s hs name c',
    es = before ++ .call i (.http_recv (some p)) :: after ∧
    TransitionRuns.run (step tcp root readings) (httpd_init panel) before = some s ∧
    s.connections[i]? = some hs ∧ hs.handle = none ∧
    http_parse_request (received i before ++ p) = .http_find_file uri is_09 ∧
    callHandler ⟨hs.params, s.shared.panel⟩ uri = some (name, c') ∧
    firstFile root (candidates name) = some (page, tag_check)

variable {tcp root readings panel}

theorem Opened.later {es : List (Event σ)} {i : ℕ} {uri : List UInt8} {is_09 tag_check : Bool}
    {page : List ℕ} (h : Opened tcp root readings panel es i uri is_09 page tag_check)
    (e : Event σ) : Opened tcp root readings panel (es ++ [e]) i uri is_09 page tag_check := by
  obtain ⟨before, p, after, s, hs, name, c', rfl, hrest⟩ := h
  exact ⟨before, p, after ++ [e], s, hs, name, c', by
    rw [List.append_assoc, List.cons_append], hrest⟩

/-- A connection on which nothing has been sent, or a page is being sent or has
been sent that has been opened for it. -/
inductive Served (tcp : Tcp σ) (root : List fsdata_file) (readings : ℕ → ℕ → Readings)
    (panel : Panel) (es : List (Event σ)) (i : ℕ) (hs : http_state σ) : Prop
  | waiting (hhandle : hs.handle = none) (hleft : hs.sending.hs.left = 0)
      (hwritten : hs.sending.pcb.written = [])
  | answering {uri : List UInt8} {is_09 tag_check : Bool} {page : List ℕ}
      (hopened : Opened tcp root readings panel es i uri is_09 page tag_check)
      (hbooks : hs.sending.Books (readings i) page (bodyStart is_09 page) tag_check)
      (hdata : ∀ file, hs.handle = some file → file.data = page)
      (hfreed : hs.handle = none → hs.freed = true)

variable {es : List (Event σ)} {i : ℕ} {hs hs' : http_state σ}

theorem Served.later (h : Served tcp root readings panel es i hs) (e : Event σ) :
    Served tcp root readings panel (es ++ [e]) i hs := by
  cases h with
  | waiting hhandle hleft hwritten => exact .waiting hhandle hleft hwritten
  | answering hopened hbooks hdata hfreed => exact .answering (hopened.later e) hbooks hdata hfreed

/-- A step that sends nothing, and at most frees the connection. -/
theorem Served.keep (h : Served tcp root readings panel es i hs)
    (hhandle : hs'.handle = hs.handle ∧ hs'.freed = hs.freed ∨
      hs'.handle = none ∧ hs'.freed = true)
    (hsend : hs'.sending.hs = hs.sending.hs)
    (hwritten : hs'.sending.pcb.written = hs.sending.pcb.written)
    (hended : hs'.sending.ended = some .finished → hs.sending.ended = some .finished) :
    Served tcp root readings panel es i hs' := by
  cases h with
  | waiting hnone hleft hempty =>
    refine .waiting ?_ (hsend ▸ hleft) (hwritten.trans hempty)
    obtain ⟨heq, _⟩ | ⟨heq, _⟩ := hhandle
    · rw [heq, hnone]
    · exact heq
  | answering hopened hbooks hdata hfreed =>
    refine .answering hopened ⟨?_, fun hfin => ?_⟩ ?_ ?_
    · rw [hsend, hwritten]
      exact hbooks.1
    · rw [hsend]
      exact hbooks.2 (hended hfin)
    · intro file hfile
      obtain ⟨heq, _⟩ | ⟨heq, _⟩ := hhandle
      · exact hdata file (heq.symm.trans hfile)
      · cases heq.symm.trans hfile
    · intro hnone
      obtain ⟨heq, hfreed'⟩ | ⟨_, hfreed'⟩ := hhandle
      · rw [hfreed']
        exact hfreed (heq.symm.trans hnone)
      · exact hfreed'

theorem Served.free (h : Served tcp root readings panel es i hs) (s : Shared) :
    Served tcp root readings panel es i (http_state_free s hs).2 :=
  h.keep (Or.inr ⟨rfl, rfl⟩) rfl rfl id

/-- Without anything left a call sends nothing and ends the connection. -/
theorem call_empty (tcp : Tcp σ) (feed : ℕ → Readings) (page : List ℕ) {c : Connection σ}
    (h : c.hs.left = 0) :
    (call tcp feed page c).hs = c.hs ∧ (call tcp feed page c).pcb = c.pcb ∧
      (call tcp feed page c).ended = some .finished := by
  rw [call, http_send_data, if_pos h]
  exact ⟨rfl, rfl, rfl⟩

/-- A call of http_send_data keeps to the page. -/
theorem Served.sendData (h : Served tcp root readings panel es i hs) (hopen : hs.freed = false)
    (s : Shared) :
    Served tcp root readings panel es i (sendData tcp (readings i) s hs).2 := by
  have hcall : Served tcp root readings panel es i
      { hs with sending := call tcp (readings i) hs.data hs.sending } := by
    cases h with
    | waiting hhandle hleft hwritten =>
      obtain ⟨hhs, hpcb, _⟩ := call_empty tcp (readings i) hs.data hleft
      refine .waiting hhandle ?_ ?_
      · dsimp only
        rw [hhs, hleft]
      · dsimp only
        rw [hpcb, hwritten]
    | answering hopened hbooks hdata hfreed =>
      refine .answering hopened ?_ hdata hfreed
      cases hhandle : hs.handle with
      | none => exact absurd (hfreed hhandle) (by simp [hopen])
      | some file =>
        have hpage : hs.data = file.data := by
          rw [http_state.data, hhandle]
          rfl
        dsimp only
        rw [hpage, hdata file hhandle]
        exact call_books tcp hbooks.1
  obtain ⟨_, heq⟩ | ⟨_, heq⟩ := sendData_cases tcp (readings i) s hs
  · rw [heq]
    exact hcall
  · rw [heq]
    exact hcall.free s

/-- A connection that is still there after a call had something left. -/
theorem sendData_open {feed : ℕ → Readings} {s : Shared}
    (h : (HttpServer.sendData tcp feed s hs).2.freed = false) :
    hs.sending.hs.left ≠ 0 ∧ (HttpServer.sendData tcp feed s hs).2.handle = hs.handle ∧
      (HttpServer.sendData tcp feed s hs).2.sending.ended = none := by
  obtain ⟨hended, heq⟩ | ⟨_, heq⟩ := sendData_cases tcp feed s hs
  · refine ⟨fun hleft => ?_, ?_, ?_⟩
    · rw [(call_empty tcp feed hs.data hleft).2.2] at hended
      cases hended
    · rw [heq]
    · rw [heq]
      exact hended
  · rw [heq] at h
    cases h

/-- A connection of a run: what has been sent, and what is queued of the
request. -/
structure Tracked (tcp : Tcp σ) (root : List fsdata_file) (readings : ℕ → ℕ → Readings)
    (panel : Panel) (es : List (Event σ)) (i : ℕ) (hs : http_state σ) : Prop where
  served : Served tcp root readings panel es i hs
  running : hs.freed = false → hs.sending.ended = none
  queued : hs.freed = false → hs.handle = none → hs.req = received i es

/-- A freed connection has nothing queued that it still needs. -/
theorem Served.freed (h : Served tcp root readings panel es i hs) (hfreed : hs.freed = true) :
    Tracked tcp root readings panel es i hs := by
  have hnot : hs.freed ≠ false := by simp [hfreed]
  exact ⟨h, fun hopen => absurd hopen hnot, fun hopen => absurd hopen hnot⟩

/-- A connection without a file has sent nothing and has nothing to send. -/
theorem Served.unanswered (h : Served tcp root readings panel es i hs)
    (hopen : hs.freed = false) (hnone : hs.handle = none) :
    hs.sending.hs.left = 0 ∧ hs.sending.pcb.written = [] := by
  cases h with
  | waiting _ hleft hwritten => exact ⟨hleft, hwritten⟩
  | answering _ _ _ hfreed => exact absurd (hfreed hnone) (by simp [hopen])

/-- A call that sends keeps track of the connection. -/
theorem Served.tracked (h : Served tcp root readings panel es i hs) (hopen : hs.freed = false)
    (s : Shared) :
    Tracked tcp root readings panel es i (HttpServer.sendData tcp (readings i) s hs).2 := by
  refine ⟨h.sendData hopen s, fun hstill => (sendData_open hstill).2.2, fun hstill hno => ?_⟩
  -- without a file nothing is left, and the connection has been freed
  obtain ⟨hleft, hhandle, _⟩ := sendData_open hstill
  exact absurd (h.unanswered hopen (hhandle.symm.trans hno)).1 hleft

/-- The page for the request is opened and its first part is sent. -/
theorem Tracked.answer {s : Server σ} {p : List (List UInt8)} {uri : List UInt8} {is_09 : Bool}
    {found : Found} (h : Tracked tcp root readings panel es i hs)
    (hrun : TransitionRuns.run (step tcp root readings) (httpd_init panel) es = some s)
    (hget : s.connections[i]? = some hs) (hopen : hs.freed = false) (hnone : hs.handle = none)
    (hparse : http_parse_request (hs.req ++ p) = .http_find_file uri is_09)
    (hfound : http_find_file root s.shared.fs_memory ⟨hs.params, s.shared.panel⟩ uri = some found)
    (s' : Shared) :
    Tracked tcp root readings panel (es ++ [.call i (.http_recv (some p))]) i
      (HttpServer.sendData tcp (readings i) s' (initFile found is_09 { hs with req := [] })).2 := by
  have hempty := (h.served.unanswered hopen hnone).2
  have hended := h.running hopen
  have hqueued := h.queued hopen hnone
  have hserved : Served tcp root readings panel (es ++ [.call i (.http_recv (some p))]) i
      (initFile found is_09 { hs with req := [] }) := by
    obtain hfile | ⟨name, c', file, hcall, hfile, hfirst⟩ := found_cases hfound
    · refine .waiting hfile ?_ hempty
      rw [initFile, hfile]
      cases is_09 <;> rfl
    · have hopened : Opened tcp root readings panel (es ++ [.call i (.http_recv (some p))]) i uri
          is_09 file.data found.tag_check :=
        ⟨es, p, [], s, hs, name, c', rfl, hrun, hget, hnone, hqueued ▸ hparse, hcall, hfirst⟩
      refine .answering hopened ⟨?_, fun hfin => ?_⟩ ?_ ?_
      · rw [initFile, hfile]
        dsimp only
        rw [hempty]
        exact http_init_file_books found.tag_check is_09
      · cases hended.symm.trans hfin
      · intro other hother
        cases hfile.symm.trans hother
        rfl
      · intro hnofile
        cases hfile.symm.trans hnofile
  exact hserved.tracked hopen s'

/-- Every call for a connection keeps track of it. -/
theorem Tracked.react {s : Server σ} {c : Call σ} {r : Shared × http_state σ}
    (h : Tracked tcp root readings panel es i hs)
    (hrun : TransitionRuns.run (step tcp root readings) (httpd_init panel) es = some s)
    (hget : s.connections[i]? = some hs) (hopen : hs.freed = false)
    (hr : HttpServer.react tcp root (readings i) s.shared hs c = some r) :
    Tracked tcp root readings panel (es ++ [.call i c]) i r.2 := by
  have hserved := h.served.later (.call i c)
  have hended := h.running hopen
  have hsame : Event.buffers i (.call i c) = [] →
      received i (es ++ [.call i c]) = received i es := by
    intro hnone
    rw [received_concat, hnone, List.append_nil]
  cases c with
  | http_recv p =>
    cases p with
    | none =>
      cases hr
      exact (hserved.free _).freed rfl
    | some p =>
      obtain ⟨hsome, rfl⟩ | ⟨hnone, ⟨_, rfl⟩ | ⟨_, _, rfl⟩ |
          ⟨uri, is_09, found, hparse, hfound, rfl⟩⟩ :=
        http_recv_cases tcp root hr
      · refine ⟨hserved.keep (Or.inl ⟨rfl, rfl⟩) rfl rfl id, fun _ => hended, fun _ hno => ?_⟩
        have hno : hs.handle = none := hno
        simp [hno] at hsome
      · refine ⟨hserved.keep (Or.inl ⟨rfl, rfl⟩) rfl rfl id, fun _ => hended, fun _ _ => ?_⟩
        rw [received_concat, h.queued hopen hnone, Event.buffers, if_pos rfl]
      · exact Served.freed (hserved.keep (Or.inr ⟨rfl, rfl⟩) rfl rfl id) rfl
      · exact h.answer hrun hget hopen hnone hparse hfound _
  | http_sent =>
    cases hr
    have hreset : Served tcp root readings panel (es ++ [.call i .http_sent]) i
        { hs with sending := { hs.sending with retries := 0 } } :=
      hserved.keep (Or.inl ⟨rfl, rfl⟩) rfl rfl id
    exact hreset.tracked hopen s.shared
  | http_poll =>
    have hpolled : Served tcp root readings panel (es ++ [.call i .http_poll]) i
        { hs with sending := { hs.sending with retries := hs.sending.retries + 1 } } :=
      hserved.keep (Or.inl ⟨rfl, rfl⟩) rfl rfl id
    cases hr
    rw [http_poll]
    dsimp only
    split_ifs with hretries hsome
    · exact Served.freed (hserved.keep (Or.inr ⟨rfl, rfl⟩) rfl rfl fun hfin => by cases hfin) rfl
    · exact hpolled.tracked hopen s.shared
    · refine ⟨hpolled, fun _ => hended, fun _ hno => ?_⟩
      rw [hsame rfl]
      exact h.queued hopen hno
  | http_err =>
    cases hr
    exact (hserved.free _).freed rfl
  | tcp state =>
    cases hr
    refine ⟨hserved.keep (Or.inl ⟨rfl, rfl⟩) rfl rfl id, fun _ => hended, fun _ hno => ?_⟩
    rw [hsame rfl]
    exact h.queued hopen hno

theorem buffers_of_ne {j : ℕ} (h : j ≠ i) (c : Call σ) :
    Event.buffers i (.call j c) = [] := by
  unfold Event.buffers
  split
  · rename_i heq
    cases heq
    exact if_neg h
  · rfl

/-- An event at another connection changes nothing. -/
theorem Tracked.other (h : Tracked tcp root readings panel es i hs) {e : Event σ}
    (he : e.buffers i = []) : Tracked tcp root readings panel (es ++ [e]) i hs := by
  refine ⟨h.served.later e, h.running, fun hopen hnone => ?_⟩
  rw [received_concat, he, List.append_nil]
  exact h.queued hopen hnone

/-- A new connection has been given nothing. -/
theorem tracked_new (state : σ) (h : received i es = []) :
    Tracked tcp root readings panel es i (http_state_alloc state) :=
  ⟨.waiting rfl rfl rfl, fun _ => rfl, fun _ _ => h.symm⟩

/-- Every connection of a run is as the run says, and the others have not
been given anything. -/
theorem run_tracked (tcp : Tcp σ) (root : List fsdata_file) (readings : ℕ → ℕ → Readings)
    (panel : Panel) (es : List (Event σ)) (s : Server σ)
    (hrun : TransitionRuns.run (step tcp root readings) (httpd_init panel) es = some s) :
    (∀ i hs, s.connections[i]? = some hs → Tracked tcp root readings panel es i hs) ∧
      ∀ i, s.connections.length ≤ i → received i es = [] := by
  induction es using List.reverseRecOn generalizing s with
  | nil =>
    cases hrun
    exact ⟨fun i hs hget => by simp [httpd_init] at hget, fun i _ => rfl⟩
  | append_singleton es e ih =>
    obtain ⟨t, hbefore, hlast⟩ := TransitionRuns.run_append.mp hrun
    obtain ⟨u, hstep, hend⟩ := TransitionRuns.run_cons.mp hlast
    cases hend
    obtain ⟨htracked, hlater⟩ := ih t hbefore
    obtain ⟨state, rfl, rfl⟩ | ⟨state, rfl, rfl⟩ | ⟨j, c, hs, r, rfl, hget, hopen, hr, rfl⟩ :=
      step_cases tcp root hstep
    · refine ⟨fun i hs hget => (htracked i hs hget).other rfl, fun i hi => ?_⟩
      rw [received_concat, hlater i hi]
      rfl
    · refine ⟨fun i hs hget => ?_, fun i hi => ?_⟩
      · rw [List.getElem?_append] at hget
        split_ifs at hget with hlt
        · exact (htracked i hs hget).other rfl
        · rw [List.getElem?_singleton] at hget
          split_ifs at hget with hfirst
          cases hget
          exact (tracked_new state (hlater i (by omega))).other rfl
      · rw [List.length_append] at hi
        rw [received_concat, hlater i (by omega)]
        rfl
    · have hlt : j < t.connections.length := (List.getElem?_eq_some_iff.mp hget).1
      refine ⟨fun i hs' hget' => ?_, fun i hi => ?_⟩
      · rw [List.getElem?_set] at hget'
        split_ifs at hget' with hji
        · cases hget'
          subst hji
          exact (htracked j hs hget).react hbefore hget hopen hr
        · exact (htracked i hs' hget').other (buffers_of_ne hji c)
      · rw [List.length_set] at hi
        rw [received_concat, hlater i hi, buffers_of_ne (by omega)]
        rfl

/-- In every run of the server and for every connection on which TCP has
delivered a request, or a part of it, in whatever pieces: what has been written
is nothing, or the beginning of the page that http_find_file found for this
request when the last of it came in, and all of the page if the server has
closed the connection because nothing was left. -/
theorem request_answered (tcp : Tcp σ) (root : List fsdata_file) (readings : ℕ → ℕ → Readings)
    (panel : Panel) (es : List (Event σ)) (s : Server σ)
    (hrun : TransitionRuns.run (step tcp root readings) (httpd_init panel) es = some s)
    {i : ℕ} {hs : http_state σ} (hget : s.connections[i]? = some hs)
    {request line uri : List UInt8} {is_09 : Bool} (hrequest : Request request line uri is_09)
    (hbytes : (received i es).flatten <+: request) :
    hs.sending.pcb.written = [] ∨ ∃ page tag_check,
      Opened tcp root readings panel es i uri is_09 page tag_check ∧
      hs.sending.pcb.written <+: content (readings i) tag_check is_09 page ∧
      (bodyStart is_09 page < page.length → hs.sending.ended = some .finished →
        hs.sending.pcb.written = content (readings i) tag_check is_09 page) := by
  obtain ⟨hserved, _, _⟩ := (run_tracked tcp root readings panel es s hrun).1 i hs hget
  cases hserved with
  | waiting _ _ hwritten => exact Or.inl hwritten
  | @answering name version tag_check page hopened hbooks _ _ =>
    right
    have hsame : name = uri ∧ version = is_09 := by
      obtain ⟨before, p, after, _, _, _, _, rfl, _, _, _, hparse, _⟩ := hopened
      rw [received_split, List.flatten_append] at hbytes
      have hprefix : (received i before ++ p).flatten <+: request :=
        (List.prefix_append _ _).trans hbytes
      obtain hfile | hfile | hfile := hrequest.parsed hprefix
      · rw [hfile] at hparse
        cases hparse
        exact ⟨rfl, rfl⟩
      · rw [hfile] at hparse
        cases hparse
      · rw [hfile] at hparse
        cases hparse
    obtain ⟨rfl, rfl⟩ := hsame
    exact ⟨page, tag_check, hopened, hbooks.written_prefix, hbooks.written_all⟩

/-- A file with a tag in it. -/
def taggedFile : List fsdata_file := [⟨ByteStrings.bytes "/a.shtml", taggedPage⟩]

def taggedRequest : List UInt8 := ByteStrings.bytes "GET /a.shtml H\r\n"

/-- The request comes in two pieces, and the answer is acknowledged twice. -/
def inPieces : List (Event Unit) :=
  [.http_accept () true, .http_accept () true,
   .call 1 (.http_recv (some [taggedRequest.take 7])),
   .call 1 (.http_recv (some [taggedRequest.drop 7])),
   .call 1 .http_sent, .call 1 .http_sent]

/-- The page has been written to its end, with the insert behind the tag. -/
theorem request_answered_inPieces :
    ∃ s hs page tag_check, TransitionRuns.run (step sparing taggedFile fun _ _ => midnight)
        (httpd_init Smart_IOT_Center) inPieces = some s ∧ s.connections[1]? = some hs ∧
      hs.sending.pcb.written = chars "at <!--#t-->20 now" ∧
      Opened sparing taggedFile (fun _ _ => midnight) Smart_IOT_Center inPieces 1
        (ByteStrings.bytes "/a.shtml") false page tag_check ∧
      hs.sending.pcb.written = content (fun _ => midnight) tag_check false page := by
  have hend : ((TransitionRuns.run (step sparing taggedFile fun _ _ => midnight)
      (httpd_init Smart_IOT_Center) inPieces).bind fun s => s.connections[1]?).any
        (fun hs => hs.sending.ended = some .finished ∧
          hs.sending.pcb.written = chars "at <!--#t-->20 now") = true := by
    delta HttpServer.step react http_recv http_sent sendData PageSending.call http_send_data
      sendTagged scanAndSend
    rw [tagLoop_eq_within 100]
    decide +kernel
  obtain ⟨hs, hrun, hboth⟩ := (Option.any_eq_true _ _).mp hend
  obtain ⟨s, hs', hget⟩ := Option.bind_eq_some_iff.mp hrun
  obtain ⟨hended, hwritten⟩ := of_decide_eq_true hboth
  have hrequest : Request taggedRequest (ByteStrings.bytes "GET /a.shtml H")
      (ByteStrings.bytes "/a.shtml") false :=
    ⟨⟨.full (ByteStrings.bytes "H"), by decide, by decide, by decide⟩, ⟨[], by decide⟩,
      fun h => absurd h (by decide)⟩
  have hsome : hs.sending.pcb.written ≠ [] := by
    rw [hwritten]
    decide
  obtain hempty | ⟨page, tag_check, hopened, hbegins, hall⟩ :=
    request_answered sparing taggedFile (fun _ _ => midnight) Smart_IOT_Center inPieces s hs' hget
      hrequest (by decide)
  · exact absurd hempty hsome
  · have hbody : bodyStart false page < page.length := by
      refine List.length_pos_iff.mpr fun hnil => hsome ?_
      subst hnil
      cases tag_check <;> exact List.prefix_nil.mp hbegins
    exact ⟨s, hs, page, tag_check, hs', hget, hwritten, hopened, hall hbody hended⟩

end SmartHome.HttpServer
