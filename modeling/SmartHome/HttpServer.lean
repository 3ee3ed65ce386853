import SmartHome.HttpFiles
import SmartHome.PageProgress
import SmartHome.TransitionRuns

/-!
# The web server

Any number of connections share the file table and the panel. A connection
collects its request, has one file opened for it and is freed when the file
has been sent, when the request is refused, when the other side closes or when
it has been silent for too long. The entries of the file table in use are
those of the connections that are being answered. No other thread uses the
panel, and a call is one step, with the delays of the handlers in it.
-/

namespace SmartHome.HttpServer

open HomePanel HttpFiles HttpRequests PageSending SsiTags

variable {σ : Type*}

/-- A connection; its send part is meaningful once a file is open. -/
structure http_state (σ : Type*) where
  handle : Option fs_file
  req : List (List UInt8)
  params : QueryParameters.param_state
  sending : Connection σ
  /-- The memory has been given back and the callbacks have been removed. -/
  freed : Bool

/-- What the connections share. -/
structure Shared where
  fs_memory : fs_table
  panel : Panel
  /-- Received buffers that have not been freed. -/
  pbufs : ℕ

structure Server (σ : Type*) where
  shared : Shared
  connections : List (http_state σ)

/-- A new connection is all zero. -/
def http_state_alloc (state : σ) : http_state σ where
  handle := none
  req := []
  params := ⟨fun _ => none, fun _ => none⟩
  sending := Connection.open false false [] state
  freed := false

def http_state_free (s : Shared) (hs : http_state σ) : Shared × http_state σ :=
  let fs_memory :=
    match hs.handle with
    | some file => fs_free s.fs_memory file.slot
    | none => s.fs_memory
  ({ s with fs_memory := fs_memory }, { hs with handle := none, freed := true })

/-- The queued buffers are freed. -/
def freeRequest (s : Shared) (hs : http_state σ) : Shared × http_state σ :=
  ({ s with pbufs := s.pbufs - hs.req.length }, { hs with req := [] })

/-- Data of the open file. -/
def http_state.data (hs : http_state σ) : List ℕ := (hs.handle.map fs_file.data).getD []

variable (tcp : Tcp σ) (root : List fsdata_file)

/-- Send what TCP takes, and free the connection if nothing is left. -/
def sendData (readings : ℕ → Readings) (s : Shared) (hs : http_state σ) :
    Shared × http_state σ :=
  let hs := { hs with sending := call tcp readings hs.data hs.sending }
  if hs.sending.ended = none then (s, hs) else http_state_free s hs

/-- Begin with the file that has been found. -/
def initFile (found : Found) (is_09 : Bool) (hs : http_state σ) : http_state σ :=
  { hs with
    handle := found.file
    params := found.control.params
    sending := { hs.sending with
      hs := http_init_file found.tag_check is_09 ((found.file.map fs_file.data).getD [])
      retries := 0 } }

/-- Data has been received; without a buffer the other side has closed. -/
def http_recv (readings : ℕ → Readings) (s : Shared) (hs : http_state σ) :
    Option (List (List UInt8)) → Option (Shared × http_state σ)
  | none => some (http_state_free s hs)
  | some p =>
    let s := { s with pbufs := s.pbufs + p.length }
    if hs.handle.isSome then
      -- already sending; the buffer is neither queued nor freed
      some (freeRequest s hs)
    else
      let hs := { hs with req := hs.req ++ p }
      match http_parse_request hs.req with
      | .ERR_INPROGRESS => some (s, hs)
      | .http_find_error_file _ =>
        let (s, hs) := freeRequest s hs
        some (http_state_free s hs)
      | .http_find_file uri is_09 =>
        (http_find_file root s.fs_memory ⟨hs.params, s.panel⟩ uri).map fun found =>
          let (s, hs) := freeRequest s hs
          sendData tcp readings
            { s with fs_memory := found.fs_memory, panel := found.control.panel }
            (initFile found is_09 hs)

/-- Data has been acknowledged. -/
def http_sent (readings : ℕ → Readings) (s : Shared) (hs : http_state σ) :
    Shared × http_state σ :=
  sendData tcp readings s { hs with sending := { hs.sending with retries := 0 } }

/-- Two seconds have passed. -/
def http_poll (readings : ℕ → Readings) (s : Shared) (hs : http_state σ) :
    Shared × http_state σ :=
  let hs := { hs with sending := { hs.sending with retries := hs.sending.retries + 1 } }
  if hs.sending.retries = HTTPD_MAX_RETRIES then
    http_state_free s { hs with sending := { hs.sending with ended := some .timeout } }
  else if hs.handle.isSome then sendData tcp readings s hs
  else (s, hs)

/-- What TCP calls, and what it does by itself. -/
inductive Call (σ : Type*)
  | http_recv (p : Option (List (List UInt8)))
  | http_sent
  | http_poll
  | http_err
  | tcp (state : σ)

/-- A call for a connection. Without a result a handler has compared a null
pointer. -/
def react (readings : ℕ → Readings) (s : Shared) (hs : http_state σ) :
    Call σ → Option (Shared × http_state σ)
  | .http_recv p => http_recv tcp root readings s hs p
  | .http_sent => some (http_sent tcp readings s hs)
  | .http_poll => some (http_poll tcp readings s hs)
  | .http_err => some (http_state_free s hs)
  | .tcp state =>
    some (s, { hs with
      sending := { hs.sending with pcb := { hs.sending.pcb with state := state } } })

/-- What happens to the server. -/
inductive Event (σ : Type*)
  /-- A client connects; there may be no memory for it. -/
  | http_accept (state : σ) (memory : Bool)
  | call (i : ℕ) (c : Call σ)

/-- One event; a freed connection has no calls. -/
def step (readings : ℕ → ℕ → Readings) (s : Server σ) : Event σ → Option (Server σ)
  | .http_accept state memory =>
    some (if memory then { s with connections := s.connections ++ [http_state_alloc state] } else s)
  | .call i c =>
    match s.connections[i]? with
    | none => none
    | some hs =>
      if hs.freed then none
      else (react tcp root (readings i) s.shared hs c).map fun r =>
        ⟨r.1, s.connections.set i r.2⟩

/-- The server without connections. -/
def httpd_init (panel : Panel) : Server σ := ⟨⟨fs_memory, panel, 0⟩, []⟩

/-! ### The file table -/

/-- The entry of the open file. -/
def http_state.slot (hs : http_state σ) : Option ℕ := hs.handle.map fs_file.slot

/-- A change of the table and of the entry of one connection that keeps the
agreement of the marks with the connections. -/
def Keeps (m : fs_table) (slot : Option ℕ) (m' : fs_table) (slot' : Option ℕ) : Prop :=
  ∀ (holders : List (Option ℕ)) (i : ℕ), holders[i]? = some slot →
    SlotTables.Held m.inuse holders → SlotTables.Held m'.inuse (holders.set i slot')

theorem Keeps.refl (m : fs_table) (slot : Option ℕ) : Keeps m slot m slot := by
  intro holders i hi hheld
  obtain ⟨hlt, hget⟩ := List.getElem?_eq_some_iff.mp hi
  rwa [← hget, List.set_getElem_self]

theorem Keeps.trans {m m' m'' : fs_table} {slot slot' slot'' : Option ℕ}
    (h : Keeps m slot m' slot') (h' : Keeps m' slot' m'' slot'') :
    Keeps m slot m'' slot'' := by
  intro holders i hi hheld
  obtain ⟨hlt, _⟩ := List.getElem?_eq_some_iff.mp hi
  have hnext := h' (holders.set i slot') i (List.getElem?_set_self hlt) (h holders i hi hheld)
  rwa [List.set_set] at hnext

theorem keeps_malloc {m m' : fs_table} {i : ℕ} (h : fs_malloc m = some (i, m')) :
    Keeps m none m' (some i) := by
  intro holders k hk hheld
  obtain ⟨hfree, hinuse, _⟩ := fs_malloc_spec h
  rw [hinuse]
  exact hheld.acquire hk hfree

/-- A file that is found takes an entry, and no other request does. -/
theorem keeps_found {m : fs_table} {c : Control} {uri : List UInt8} {found : Found}
    (h : http_find_file root m c uri = some found) :
    Keeps m none found.fs_memory (found.file.map fs_file.slot) := by
  rw [http_find_file_eq] at h
  obtain ⟨⟨uri', c'⟩, _, rfl⟩ := Option.map_eq_some_iff.mp h
  cases hmalloc : fs_malloc m with
  | none => exact Keeps.refl m none
  | some entry =>
    obtain ⟨i, m'⟩ := entry
    dsimp only
    cases firstFile root (candidates uri') with
    | none => exact Keeps.refl m none
    | some file => exact keeps_malloc hmalloc

theorem keeps_free (s : Shared) (hs : http_state σ) :
    Keeps s.fs_memory hs.slot (http_state_free s hs).1.fs_memory
      (http_state_free s hs).2.slot := by
  rw [http_state_free, http_state.slot]
  cases hs.handle with
  | none => exact Keeps.refl _ _
  | some file => exact fun holders i hi hheld => hheld.release hi

/-- A call of http_send_data leaves the shared part and the handle alone, or
frees the connection. -/
theorem sendData_cases (readings : ℕ → Readings) (s : Shared) (hs : http_state σ) :
    (call tcp readings hs.data hs.sending).ended = none ∧
        sendData tcp readings s hs =
          (s, { hs with sending := call tcp readings hs.data hs.sending }) ∨
      (call tcp readings hs.data hs.sending).ended ≠ none ∧
        sendData tcp readings s hs =
          http_state_free s { hs with sending := call tcp readings hs.data hs.sending } := by
  rw [sendData]
  dsimp only
  split_ifs with hended
  · exact Or.inl ⟨hended, rfl⟩
  · exact Or.inr ⟨hended, rfl⟩

theorem keeps_sendData (readings : ℕ → Readings) (s : Shared) (hs : http_state σ) :
    Keeps s.fs_memory hs.slot (sendData tcp readings s hs).1.fs_memory
      (sendData tcp readings s hs).2.slot := by
  obtain ⟨_, heq⟩ | ⟨_, heq⟩ := sendData_cases tcp readings s hs
  · rw [heq]
    exact Keeps.refl _ _
  · rw [heq]
    exact keeps_free s { hs with sending := call tcp readings hs.data hs.sending }

variable {readings : ℕ → Readings} {s : Shared} {hs : http_state σ}

/-- What becomes of received data. -/
theorem http_recv_cases {p : List (List UInt8)} {r : Shared × http_state σ}
    (h : http_recv tcp root readings s hs (some p) = some r) :
    hs.handle.isSome = true ∧ r = freeRequest { s with pbufs := s.pbufs + p.length } hs ∨
      hs.handle = none ∧ (http_parse_request (hs.req ++ p) = .ERR_INPROGRESS ∧
          r = ({ s with pbufs := s.pbufs + p.length }, { hs with req := hs.req ++ p }) ∨
        (∃ error_nr, http_parse_request (hs.req ++ p) = .http_find_error_file error_nr ∧
          r = http_state_free
            { s with pbufs := s.pbufs + p.length - (hs.req ++ p).length } { hs with req := [] }) ∨
        ∃ uri is_09 found,
          http_parse_request (hs.req ++ p) = .http_find_file uri is_09 ∧
          http_find_file root s.fs_memory ⟨hs.params, s.panel⟩ uri = some found ∧
          r = sendData tcp readings
            ⟨found.fs_memory, found.control.panel, s.pbufs + p.length - (hs.req ++ p).length⟩
            (initFile found is_09 { hs with req := [] })) := by
  rw [http_recv] at h
  dsimp only at h
  split_ifs at h with hhandle
  · cases h
    exact Or.inl ⟨hhandle, rfl⟩
  · have hnone : hs.handle = none := by simpa using hhandle
    refine Or.inr ⟨hnone, ?_⟩
    cases hparse : http_parse_request (hs.req ++ p) with
    | ERR_INPROGRESS =>
      rw [hparse] at h
      cases h
      exact Or.inl ⟨rfl, rfl⟩
    | http_find_error_file error_nr =>
      rw [hparse] at h
      cases h
      exact Or.inr (Or.inl ⟨error_nr, rfl, rfl⟩)
    | http_find_file uri is_09 =>
      rw [hparse] at h
      obtain ⟨found, hfound, hr⟩ := Option.map_eq_some_iff.mp h
      cases hr
      exact Or.inr (Or.inr ⟨uri, is_09, found, rfl, hfound, rfl⟩)

/-- Every call keeps the agreement of the marks with the connections. -/
theorem keeps_react {c : Call σ} {r : Shared × http_state σ}
    (h : react tcp root readings s hs c = some r) :
    Keeps s.fs_memory hs.slot r.1.fs_memory r.2.slot := by
  cases c with
  | http_recv p =>
    cases p with
    | none =>
      cases h
      exact keeps_free s hs
    | some p =>
      obtain ⟨_, rfl⟩ | ⟨hnone, ⟨_, rfl⟩ | ⟨_, _, rfl⟩ | ⟨uri, is_09, found, _, hfound, rfl⟩⟩ :=
        http_recv_cases tcp root h
      · exact Keeps.refl _ _
      · exact Keeps.refl _ _
      · exact keeps_free _ { hs with req := [] }
      · have hopen := keeps_found root hfound
        have hslot : hs.slot = none := by rw [http_state.slot, hnone]; rfl
        rw [hslot]
        exact hopen.trans (keeps_sendData tcp readings
          ⟨found.fs_memory, found.control.panel, s.pbufs + p.length - (hs.req ++ p).length⟩
          (initFile found is_09 { hs with req := [] }))
  | http_sent =>
    cases h
    exact keeps_sendData tcp readings s
      { hs with sending := { hs.sending with retries := 0 } }
  | http_poll =>
    cases h
    rw [http_poll]
    dsimp only
    split_ifs
    · exact keeps_free s { hs with sending := { hs.sending with
        retries := hs.sending.retries + 1, ended := some .timeout } }
    · exact keeps_sendData tcp readings s { hs with sending := { hs.sending with
        retries := hs.sending.retries + 1 } }
    · exact Keeps.refl _ _
  | http_err =>
    cases h
    exact keeps_free s hs
  | tcp state =>
    cases h
    exact Keeps.refl _ _

/-- A connection that is not freed by a call of http_send_data stays as it was. -/
theorem sendData_freed {hs : http_state σ} (hfreed : hs.freed = false)
    (h : (sendData tcp readings s hs).2.freed = true) :
    (sendData tcp readings s hs).2.handle = none := by
  obtain ⟨_, heq⟩ | ⟨_, heq⟩ := sendData_cases tcp readings s hs
  · rw [heq] at h
    exact absurd (hfreed.symm.trans h) (by simp)
  · rw [heq]
    rfl

/-- A call that frees the connection closes its file. -/
theorem react_freed {c : Call σ} {r : Shared × http_state σ} (hfreed : hs.freed = false)
    (h : react tcp root readings s hs c = some r) (hr : r.2.freed = true) :
    r.2.handle = none := by
  have hopen : ¬hs.freed = true := by simp [hfreed]
  cases c with
  | http_recv p =>
    cases p with
    | none =>
      cases h
      rfl
    | some p =>
      obtain ⟨_, rfl⟩ | ⟨_, ⟨_, rfl⟩ | ⟨_, _, rfl⟩ | ⟨uri, is_09, found, _, _, rfl⟩⟩ :=
        http_recv_cases tcp root h
      · exact absurd hr hopen
      · exact absurd hr hopen
      · rfl
      · exact sendData_freed tcp hfreed hr
  | http_sent =>
    cases h
    exact sendData_freed tcp hfreed hr
  | http_poll =>
    cases h
    rw [http_poll] at hr ⊢
    dsimp only at hr ⊢
    split_ifs at hr ⊢
    · rfl
    · exact sendData_freed tcp hfreed hr
    · exact absurd hr hopen
  | http_err =>
    cases h
    rfl
  | tcp state =>
    cases h
    exact absurd hr hopen

/-- The marks are those of the connections, and a freed one has none. -/
structure Slots (s : Server σ) : Prop where
  held : SlotTables.Held s.shared.fs_memory.inuse (s.connections.map http_state.slot)
  freed : ∀ hs ∈ s.connections, hs.freed = true → hs.handle = none

variable {readings : ℕ → ℕ → Readings}

/-- What an event does to the server. -/
theorem step_cases {s s' : Server σ} {e : Event σ} (h : step tcp root readings s e = some s') :
    (∃ state, e = .http_accept state false ∧ s' = s) ∨
      (∃ state, e = .http_accept state true ∧
        s' = { s with connections := s.connections ++ [http_state_alloc state] }) ∨
      ∃ i c hs r, e = .call i c ∧ s.connections[i]? = some hs ∧ hs.freed = false ∧
        react tcp root (readings i) s.shared hs c = some r ∧
        s' = ⟨r.1, s.connections.set i r.2⟩ := by
  cases e with
  | http_accept state memory =>
    cases memory with
    | false =>
      cases h
      exact Or.inl ⟨state, rfl, rfl⟩
    | true =>
      cases h
      exact Or.inr (Or.inl ⟨state, rfl, rfl⟩)
  | call i c =>
    rw [step] at h
    cases hget : s.connections[i]? with
    | none =>
      rw [hget] at h
      cases h
    | some hs =>
      rw [hget] at h
      dsimp only at h
      split_ifs at h with hfreed
      obtain ⟨r, hr, heq⟩ := Option.map_eq_some_iff.mp h
      exact Or.inr (Or.inr ⟨i, c, hs, r, rfl, hget, by simpa using hfreed, hr, heq.symm⟩)

theorem step_slots {s s' : Server σ} {e : Event σ} (h : Slots s)
    (hstep : step tcp root readings s e = some s') : Slots s' := by
  obtain ⟨_, _, rfl⟩ | ⟨state, _, rfl⟩ | ⟨i, c, hs, r, _, hget, hopen, hr, rfl⟩ :=
    step_cases tcp root hstep
  · exact h
  · constructor
    · rw [List.map_append]
      exact h.held.join
    · intro hs hmem hfreed
      obtain hmem | hmem := List.mem_append.mp hmem
      · exact h.freed hs hmem hfreed
      · rw [List.mem_singleton.mp hmem]
        rfl
  · constructor
    · rw [List.map_set]
      refine keeps_react tcp root hr _ i ?_ h.held
      rw [List.getElem?_map, hget]
      rfl
    · intro hs' hmem hfreed
      obtain hmem | rfl := List.mem_or_eq_of_mem_set hmem
      · exact h.freed hs' hmem hfreed
      · exact react_freed tcp root hopen hr hfreed

/-- Whatever the connections do and in whatever order, the entries of the file
table in use are those of the connections with an open file, each of them has
its own, at most ten are answered at a time, and when all connections have been
freed the table is as it was at the start. -/
theorem files_accounted (tcp : Tcp σ) (root : List fsdata_file) (readings : ℕ → ℕ → Readings)
    (panel : Panel) (es : List (Event σ)) (s : Server σ)
    (hrun : TransitionRuns.run (step tcp root readings) (httpd_init panel) es = some s) :
    SlotTables.Held s.shared.fs_memory.inuse (s.connections.map http_state.slot) ∧
      s.connections.countP (fun hs => hs.handle.isSome) ≤ LWIP_MAX_OPEN_FILES ∧
      ((∀ hs ∈ s.connections, hs.freed = true) → s.shared.fs_memory = fs_memory) := by
  have hslots : Slots s := by
    refine TransitionRuns.run_invariant (fun _ _ _ => step_slots tcp root) ?_ hrun
    exact ⟨SlotTables.held_nil LWIP_MAX_OPEN_FILES,
      fun hs hmem => absurd hmem (by simp [httpd_init])⟩
  refine ⟨hslots.held, ?_, fun hall => ?_⟩
  · have hcount := hslots.held.count_le
    rw [s.shared.fs_memory.size, List.countP_map] at hcount
    refine le_trans (le_of_eq ?_) hcount
    refine List.countP_congr fun hs _ => ?_
    simp [http_state.slot]
  · have hfree := hslots.held.all_free fun slot hmem => by
      obtain ⟨hs, hhs, rfl⟩ := List.mem_map.mp hmem
      rw [http_state.slot, hslots.freed hs hhs (hall hs hhs)]
      rfl
    generalize s.shared.fs_memory = m at hfree ⊢
    obtain ⟨inuse, size⟩ := m
    have hreplicate : inuse = List.replicate LWIP_MAX_OPEN_FILES false :=
      List.eq_replicate_iff.mpr ⟨size, hfree⟩
    subst hreplicate
    rfl

/-- One file without a header. -/
def oneFile : List fsdata_file := [⟨ByteStrings.bytes "/a", [65, 66]⟩]

/-- A request for the file. -/
def oneRequest : List (Event Unit) :=
  [.http_accept () true, .http_accept () true,
   .call 1 (.http_recv (some [ByteStrings.bytes "GET /a H\r\n"]))]

/-- The file is sent slowly, and its entry is in use. -/
theorem files_accounted_oneRequest :
    ∃ s, TransitionRuns.run (step sparing oneFile fun _ _ => midnight)
        (httpd_init Smart_IOT_Center) oneRequest = some s ∧
      s.connections.map http_state.slot = [none, some 0] ∧
      SlotTables.Held s.shared.fs_memory.inuse (s.connections.map http_state.slot) := by
  have hslots : (TransitionRuns.run (step sparing oneFile fun _ _ => midnight)
      (httpd_init Smart_IOT_Center) oneRequest).map
        (fun s => s.connections.map http_state.slot) = some [none, some 0] := by
    decide +kernel
  obtain ⟨s, hs, hslot⟩ := Option.map_eq_some_iff.mp hslots
  exact ⟨s, hs, hslot,
    (files_accounted sparing oneFile (fun _ _ => midnight) Smart_IOT_Center oneRequest s hs).1⟩

end SmartHome.HttpServer
