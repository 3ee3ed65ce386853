import SmartHome.HttpAnswers
import Mathlib.Algebra.BigOperators.Group.List.Basic

/-!
# The received buffers of the web server

The server frees the buffers of a request once it has been parsed. It keeps
no others, except those it loses: the ones that come in while a page is being
sent, and the ones of a part of a request whose connection ends.
-/

namespace SmartHome.HttpServer

open HomePanel HttpFiles HttpRequests PageSending SsiTags

variable {σ : Type*}

/-- Buffers queued on a connection that can still free them. -/
def http_state.queued (hs : http_state σ) : ℕ := if hs.freed then 0 else hs.req.length

def Server.queued (s : Server σ) : ℕ := (s.connections.map http_state.queued).sum

/-- Buffers that a call leaves without an owner. -/
def lost (hs : http_state σ) : Call σ → ℕ
  | .http_recv (some p) => if hs.handle.isSome then p.length else 0
  | .http_recv none => hs.req.length
  | .http_sent => hs.req.length
  | .http_poll =>
    if hs.sending.retries + 1 = HTTPD_MAX_RETRIES then hs.req.length else 0
  | .http_err => hs.req.length
  | .tcp _ => 0

/-- Buffers that an event leaves without an owner. -/
def Server.lost (s : Server σ) : Event σ → ℕ
  | .http_accept _ _ => 0
  | .call i c => ((s.connections[i]?).map fun hs => HttpServer.lost hs c).getD 0

/-- Buffers that have been left without an owner in a run. -/
def lostIn (tcp : Tcp σ) (root : List fsdata_file) (readings : ℕ → ℕ → Readings) (s : Server σ) :
    List (Event σ) → ℕ
  | [] => 0
  | e :: es =>
    s.lost e + ((step tcp root readings s e).map fun t => lostIn tcp root readings t es).getD 0

/-- A connection that is being answered has no request, and one that is not
has nothing to send. -/
structure Tidy (hs : http_state σ) : Prop where
  answering : hs.handle.isSome = true → hs.req = []
  waiting : hs.freed = false → hs.handle = none → hs.sending.hs.left = 0

variable {tcp : Tcp σ} {root : List fsdata_file} {feed : ℕ → Readings} {s : Shared}
  {hs : http_state σ}

/-- Sending does not touch the buffers. -/
theorem sendData_buffers (tcp : Tcp σ) (feed : ℕ → Readings) (s : Shared) (hs : http_state σ) :
    (sendData tcp feed s hs).1.pbufs = s.pbufs ∧ (sendData tcp feed s hs).2.req = hs.req := by
  obtain ⟨_, heq⟩ | ⟨_, heq⟩ := sendData_cases tcp feed s hs
  · rw [heq]
    exact ⟨rfl, rfl⟩
  · rw [heq]
    exact ⟨rfl, rfl⟩

theorem queued_of_freed (h : hs.freed = true) : hs.queued = 0 := if_pos h

theorem queued_of_open (h : hs.freed = false) : hs.queued = hs.req.length := by
  rw [http_state.queued, h]
  rfl

/-- Without buffers nothing is queued. -/
theorem queued_of_empty (h : hs.req = []) : hs.queued = 0 := by
  rw [http_state.queued, h]
  exact ite_self _

/-- A call that sends leaves a tidy connection tidy, and frees it if it has no
file. -/
theorem Tidy.sendData (h : Tidy hs) (hopen : hs.freed = false) (tcp : Tcp σ)
    (feed : ℕ → Readings) (s : Shared) :
    Tidy (sendData tcp feed s hs).2 ∧ (sendData tcp feed s hs).2.queued = 0 := by
  have hreq := (sendData_buffers tcp feed s hs).2
  cases hfreed : (HttpServer.sendData tcp feed s hs).2.freed with
  | false =>
    obtain ⟨hleft, hhandle, _⟩ := sendData_open hfreed
    have hsome : hs.handle.isSome = true := by
      by_contra hnot
      have hnone : hs.handle = none := by simpa using hnot
      exact hleft (h.waiting hopen hnone)
    have hempty := hreq.trans (h.answering hsome)
    refine ⟨⟨fun _ => hempty, fun _ hnone => ?_⟩, queued_of_empty hempty⟩
    rw [hhandle.symm.trans hnone] at hsome
    cases hsome
  | true =>
    have hnone := sendData_freed tcp hopen hfreed
    refine ⟨⟨fun hsome => ?_, fun hfalse => ?_⟩, queued_of_freed hfreed⟩
    · rw [hnone] at hsome
      cases hsome
    · cases hfreed.symm.trans hfalse

theorem tidy_free : Tidy (http_state_free s hs).2 ∧ (http_state_free s hs).2.queued = 0 :=
  ⟨⟨nofun, nofun⟩, rfl⟩

/-- What the file that is found leaves is tidy. -/
theorem tidy_initFile (hs : http_state σ) (found : Found) (is_09 : Bool) :
    Tidy (initFile found is_09 { hs with req := [] }) := by
  refine ⟨fun _ => rfl, fun _ hnone => ?_⟩
  have hfile : found.file = none := hnone
  rw [initFile, hfile]
  cases is_09 <;> rfl

/-- Every buffer that comes in or was queued is queued afterwards, freed, or
lost. -/
theorem react_balance {c : Call σ} {r : Shared × http_state σ} (h : Tidy hs)
    (hopen : hs.freed = false) (hheld : hs.queued ≤ s.pbufs)
    (hr : react tcp root feed s hs c = some r) :
    Tidy r.2 ∧ r.1.pbufs + hs.queued = s.pbufs + r.2.queued + lost hs c := by
  have hqueued := queued_of_open hopen
  cases c with
  | http_recv p =>
    cases p with
    | none =>
      cases hr
      refine ⟨tidy_free.1, ?_⟩
      rw [tidy_free.2, hqueued]
      rfl
    | some p =>
      obtain ⟨hsome, rfl⟩ | ⟨hnone, ⟨_, rfl⟩ | ⟨_, _, rfl⟩ | ⟨uri, is_09, found, _, _, rfl⟩⟩ :=
        http_recv_cases tcp root hr
      · have hempty := h.answering hsome
        refine ⟨⟨fun _ => rfl, fun _ hno => ?_⟩, ?_⟩
        · have hno : hs.handle = none := hno
          simp [hno] at hsome
        · have hfreed : (freeRequest { s with pbufs := s.pbufs + p.length } hs).2.queued = 0 :=
            queued_of_empty rfl
          rw [hfreed, queued_of_empty hempty, lost, if_pos hsome]
          simp [freeRequest, hempty]
      · refine ⟨⟨fun hsome => ?_, h.waiting⟩, ?_⟩
        · have hsome : hs.handle.isSome = true := hsome
          simp [hnone] at hsome
        · have hlonger : { hs with req := hs.req ++ p }.queued = (hs.req ++ p).length :=
            queued_of_open hopen
          rw [hlonger, hqueued, lost, hnone, List.length_append]
          simp
          omega
      · refine ⟨tidy_free.1, ?_⟩
        rw [tidy_free.2, hqueued, lost, hnone]
        rw [hqueued] at hheld
        simp [http_state_free]
        omega
      · obtain ⟨htidy, hnothing⟩ := (tidy_initFile hs found is_09).sendData hopen tcp feed _
        refine ⟨htidy, ?_⟩
        rw [hnothing, (sendData_buffers tcp feed _ _).1, hqueued, lost, hnone]
        rw [hqueued] at hheld
        simp
        omega
  | http_sent =>
    cases hr
    have hreset : Tidy { hs with sending := { hs.sending with retries := 0 } } :=
      ⟨h.answering, h.waiting⟩
    obtain ⟨htidy, hnothing⟩ := hreset.sendData hopen tcp feed s
    refine ⟨htidy, ?_⟩
    rw [http_sent, hnothing, (sendData_buffers tcp feed _ _).1, hqueued]
    rfl
  | http_poll =>
    cases hr
    rw [http_poll, lost]
    dsimp only
    split_ifs with hretries hsome
    · refine ⟨tidy_free.1, ?_⟩
      rw [tidy_free.2, hqueued]
      rfl
    · have hpolled : Tidy
          { hs with sending := { hs.sending with retries := hs.sending.retries + 1 } } :=
        ⟨h.answering, h.waiting⟩
      obtain ⟨htidy, hnothing⟩ := hpolled.sendData hopen tcp feed s
      refine ⟨htidy, ?_⟩
      rw [hnothing, (sendData_buffers tcp feed _ _).1, queued_of_empty (h.answering hsome)]
    · exact ⟨⟨h.answering, h.waiting⟩, rfl⟩
  | http_err =>
    cases hr
    refine ⟨tidy_free.1, ?_⟩
    rw [tidy_free.2, hqueued]
    rfl
  | tcp state =>
    cases hr
    exact ⟨⟨h.answering, h.waiting⟩, rfl⟩

/-- A sum after one summand has been replaced. -/
theorem sum_set {xs : List ℕ} {i x : ℕ} (h : xs[i]? = some x) (y : ℕ) :
    (xs.set i y).sum + x = xs.sum + y := by
  induction xs generalizing i with
  | nil => cases h
  | cons z zs ih =>
    cases i with
    | zero =>
      cases h
      rw [List.set_cons_zero, List.sum_cons, List.sum_cons]
      omega
    | succ i =>
      have hrest := ih h
      rw [List.set_cons_succ, List.sum_cons, List.sum_cons]
      omega

/-- All connections are tidy, and no more is queued than has come in. -/
structure Stocked (s : Server σ) : Prop where
  tidy : ∀ hs ∈ s.connections, Tidy hs
  queued_le : s.queued ≤ s.shared.pbufs

variable {readings : ℕ → ℕ → Readings}

theorem step_balance {s t : Server σ} {e : Event σ} (h : Stocked s)
    (hstep : step tcp root readings s e = some t) :
    Stocked t ∧ t.shared.pbufs + s.queued = s.shared.pbufs + t.queued + s.lost e := by
  have hheld := h.queued_le
  obtain ⟨_, rfl, rfl⟩ | ⟨state, rfl, rfl⟩ | ⟨i, c, hs, r, rfl, hget, hopen, hr, rfl⟩ :=
    step_cases tcp root hstep
  · exact ⟨h, rfl⟩
  · have hsame : Server.queued
        { s with connections := s.connections ++ [http_state_alloc state] } = s.queued := by
      simp [Server.queued, http_state.queued, http_state_alloc]
    refine ⟨⟨fun hs hmem => ?_, hsame ▸ hheld⟩, by rw [hsame]; rfl⟩
    obtain hmem | hmem := List.mem_append.mp hmem
    · exact h.tidy hs hmem
    · rw [List.mem_singleton.mp hmem]
      exact ⟨nofun, fun _ _ => rfl⟩
  · have hone : (s.connections.map http_state.queued)[i]? = some hs.queued := by
      rw [List.getElem?_map, hget]
      rfl
    have hmem := List.mem_of_getElem? hget
    have hle : hs.queued ≤ s.queued := by
      have hwithout := sum_set hone 0
      change _ = s.queued + 0 at hwithout
      omega
    obtain ⟨htidy, hbalance⟩ := react_balance (h.tidy hs hmem) hopen (hle.trans hheld) hr
    have hsum := sum_set hone r.2.queued
    have hlost : s.lost (.call i c) = HttpServer.lost hs c := by
      rw [Server.lost, hget]
      rfl
    have hqueued : Server.queued ⟨r.1, s.connections.set i r.2⟩ =
        ((s.connections.map http_state.queued).set i r.2.queued).sum := by
      rw [Server.queued, List.map_set]
    rw [← hqueued] at hsum
    change Server.queued _ + hs.queued = s.queued + r.2.queued at hsum
    refine ⟨⟨fun hs' hmem' => ?_, ?_⟩, ?_⟩
    · obtain hmem' | rfl := List.mem_or_eq_of_mem_set hmem'
      · exact h.tidy hs' hmem'
      · exact htidy
    · dsimp only
      omega
    · rw [hlost]
      dsimp only
      omega

theorem run_balance {s t : Server σ} {es : List (Event σ)} (h : Stocked s)
    (hrun : TransitionRuns.run (step tcp root readings) s es = some t) :
    t.shared.pbufs + s.queued =
      s.shared.pbufs + t.queued + lostIn tcp root readings s es := by
  induction es generalizing s with
  | nil =>
    cases hrun
    rfl
  | cons e es ih =>
    obtain ⟨u, hstep, hrest⟩ := TransitionRuns.run_cons.mp hrun
    obtain ⟨hstocked, hbalance⟩ := step_balance h hstep
    have hlater := ih hstocked hrest
    rw [lostIn, hstep, Option.map_some, Option.getD_some]
    omega

/-- In every run of the server, the received buffers that it has not given back
are those queued on its connections and those that have been lost: the buffers
of data that came in while a page was being sent, and the ones queued on a
connection that ended before its request was complete. No other way of serving
a request, refusing it or ending a connection loses a buffer. -/
theorem buffers_accounted (tcp : Tcp σ) (root : List fsdata_file) (readings : ℕ → ℕ → Readings)
    (panel : Panel) (es : List (Event σ)) (s : Server σ)
    (hrun : TransitionRuns.run (step tcp root readings) (httpd_init panel) es = some s) :
    s.shared.pbufs = s.queued + lostIn tcp root readings (httpd_init panel) es ∧
      ((∀ hs ∈ s.connections, hs.freed = true) →
        s.shared.pbufs = lostIn tcp root readings (httpd_init panel) es) := by
  have hstart : Stocked (httpd_init panel : Server σ) := ⟨nofun, le_rfl⟩
  have hbalance := run_balance hstart hrun
  have hall : s.shared.pbufs = s.queued + lostIn tcp root readings (httpd_init panel) es := by
    simpa [httpd_init, Server.queued] using hbalance
  refine ⟨hall, fun hfreed => ?_⟩
  have hnone : s.queued = 0 := by
    refine List.sum_eq_zero fun n hn => ?_
    obtain ⟨hs, hmem, rfl⟩ := List.mem_map.mp hn
    exact queued_of_freed (hfreed hs hmem)
  rw [hall, hnone, Nat.zero_add]

/-- More data comes in while the file is being sent. -/
def impatient : List (Event Unit) :=
  oneRequest ++ [.call 1 (.http_recv (some [ByteStrings.bytes "x"]))]

theorem buffers_accounted_impatient :
    ∃ s, TransitionRuns.run (step sparing oneFile fun _ _ => midnight)
        (httpd_init Smart_IOT_Center) impatient = some s ∧ s.shared.pbufs = 1 ∧
      s.shared.pbufs = s.queued +
        lostIn sparing oneFile (fun _ _ => midnight) (httpd_init Smart_IOT_Center) impatient := by
  have hpbufs : (TransitionRuns.run (step sparing oneFile fun _ _ => midnight)
      (httpd_init Smart_IOT_Center) impatient).map (fun s => s.shared.pbufs) = some 1 := by
    decide +kernel
  obtain ⟨s, hs, hone⟩ := Option.map_eq_some_iff.mp hpbufs
  exact ⟨s, hs, hone,
    (buffers_accounted sparing oneFile (fun _ _ => midnight) Smart_IOT_Center impatient s hs).1⟩

end SmartHome.HttpServer
