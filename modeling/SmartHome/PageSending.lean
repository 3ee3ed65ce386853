import SmartHome.PageTags

/-!
# Sending a page

The web server hands a page to TCP in pieces, as much as the send buffer
takes at each call, and goes on when TCP has room again. Pages with tags are
scanned on the way. What TCP answers is arbitrary; a write is taken whole or
not at all.
-/

namespace SmartHome.PageSending

open Insertions PageTags SsiTags tag_check_state

/-- Answers of tcp_write. -/
inductive err_t
  | ERR_OK
  | ERR_MEM
  | ERR_CONN
  | ERR_ARG
  deriving DecidableEq

open err_t

/-- What the server sees of TCP, for any kind of protocol state. -/
structure Tcp (σ : Type*) where
  tcp_sndbuf : σ → ℕ
  /-- The queue holds TCP_SND_QUEUELEN segments or more. -/
  queue_full : σ → Bool
  tcp_mss : σ → ℕ
  /-- Answer to a write and the state after it. -/
  answer : σ → List ℕ → err_t × σ

/-- A control block with the bytes it has been given so far. -/
structure tcp_pcb (σ : Type*) where
  state : σ
  written : List ℕ

variable {σ : Type*} (tcp : Tcp σ)

/-- A write that is accepted is accepted whole. -/
def tcp_write (pcb : tcp_pcb σ) (data : List ℕ) : err_t × tcp_pcb σ :=
  let (err, state) := tcp.answer pcb.state data
  (err, ⟨state, if err = ERR_OK then pcb.written ++ data else pcb.written⟩)

/-- The length of the next attempt after one that failed for lack of memory. -/
def retryLength (pcb : tcp_pcb σ) (len : ℕ) : ℕ :=
  if tcp.tcp_sndbuf pcb.state = 0 ∨ tcp.queue_full pcb.state then 1 else len / 2

theorem retryLength_lt {pcb : tcp_pcb σ} {len : ℕ} (h : 1 < retryLength tcp pcb len) :
    retryLength tcp pcb len < len := by
  rw [retryLength] at h ⊢
  split_ifs at h ⊢ <;> omega

/-- What http_write reports, with the length it tried last. -/
structure Attempt (σ : Type*) where
  err : err_t
  length : ℕ
  pcb : tcp_pcb σ

/-- Try to write the data, or smaller and smaller parts of it if memory is short. -/
def http_write (pcb : tcp_pcb σ) (ptr : List ℕ) (len : ℕ) : Attempt σ :=
  let (err, pcb) := tcp_write tcp pcb (ptr.take len)
  if err = ERR_MEM then
    if 1 < retryLength tcp pcb len then http_write pcb ptr (retryLength tcp pcb len)
    else ⟨err, retryLength tcp pcb len, pcb⟩
  else ⟨err, len, pcb⟩
termination_by len
decreasing_by exact retryLength_lt tcp ‹_›

/-- The part of an http_state that sends a page. Positions count from its first
byte. -/
structure send_state where
  /-- Next byte to send. -/
  file : ℕ
  /-- Bytes not sent. -/
  left : ℕ
  /-- Whether tags are replaced. -/
  tag_check : Bool
  /-- Next byte to scan. -/
  parsed : ℕ
  /-- Bytes not scanned. -/
  parse_left : ℕ
  /-- End of the last tag. -/
  tag_end : ℕ
  scan : TagScan
  /-- Name, insert and length of the insert of the last tag. -/
  ssi : tag_state
  /-- Number of tags replaced so far. -/
  tags : ℕ

/-- What one call of http_send_data works on. -/
structure Sending (σ : Type*) where
  hs : send_state
  pcb : tcp_pcb σ
  len : ℕ
  err : err_t
  data_to_send : Bool

/-- Send page data from hs->file on. -/
def sendFile (page : List ℕ) (s : Sending σ) (len : ℕ) : Sending σ :=
  let w := http_write tcp s.pcb (page.drop s.hs.file) len
  let s := { s with pcb := w.pcb, len := w.length, err := w.err }
  if w.err = ERR_OK then
    { s with
      hs := { s.hs with file := s.hs.file + w.length, left := s.hs.left - w.length },
      data_to_send := true }
  else s

/-- Send from the insert of the tag. -/
def sendInsert (s : Sending σ) (len : ℕ) : Sending σ :=
  let w := http_write tcp s.pcb (s.hs.ssi.tag_insert.drop s.hs.scan.tag_index) len
  let s := { s with pcb := w.pcb, len := w.length, err := w.err }
  if w.err = ERR_OK then
    { s with
      hs := { s.hs with scan := { s.hs.scan with tag_index := s.hs.scan.tag_index + w.length } },
      data_to_send := true }
  else s

/-- Bytes to send up to a limit, as the send buffer and the segment size allow. -/
def sendable (pcb : tcp_pcb σ) (limit : ℕ) : ℕ :=
  let len := if tcp.tcp_sndbuf pcb.state < limit then tcp.tcp_sndbuf pcb.state else limit
  if len > 2 * tcp.tcp_mss pcb.state then 2 * tcp.tcp_mss pcb.state else len

/-- Move on to the next byte. -/
def send_state.move (hs : send_state) (scan : TagScan) : send_state :=
  { hs with scan := scan, parse_left := hs.parse_left - 1, parsed := hs.parsed + 1 }

/-- Ask for the insert of the tag that ends here. -/
def send_state.replaceTag (hs : send_state) (readings : ℕ → Readings) : send_state :=
  { hs with
    ssi := get_tag_insert (readings hs.tags) { hs.ssi with tag_name := cString hs.scan.tag_name },
    tags := hs.tags + 1,
    tag_end := hs.parsed }

variable (readings : ℕ → Readings) (page : List ℕ)

/-- A complete lead-out: get the insert and send the page data up to the tag's end. -/
def completeTag (s : Sending σ) : Sending σ :=
  let s := { s with hs := s.hs.replaceTag readings }
  if s.hs.tag_end > s.hs.file then sendFile tcp page s (min s.len (s.hs.tag_end - s.hs.file))
  else s

/-- Send what is left of the page data up to the tag's end, then the insert. -/
def sendTag (s : Sending σ) : Sending σ :=
  let t := s.hs.scan
  if s.hs.tag_end > s.hs.file then
    let len := min s.len (s.hs.tag_end - s.hs.file)
    if len ≠ 0 then sendFile tcp page s len
    else { s with len := len, err := ERR_OK, data_to_send := true }
  else if t.tag_index < s.hs.ssi.tag_insert_len then
    sendInsert tcp s (min s.len (s.hs.ssi.tag_insert_len - t.tag_index))
  else { s with hs := { s.hs with scan := { t with tag_index := 0, tag_state := TAG_NONE } } }

/-- One pass of the loop that scans and sends. -/
def tagStep (s : Sending σ) : Sending σ :=
  let t := s.hs.scan
  let c := page.getD s.hs.parsed 0
  match t.tag_state with
  | TAG_NONE => { s with hs := s.hs.move (scanNone t c) }
  | TAG_LEADIN =>
    if t.tag_index = LEN_TAG_LEAD_IN then
      { s with hs := { s.hs with scan := { t with tag_index := 0, tag_state := TAG_FOUND } } }
    else { s with hs := s.hs.move (scanLeadIn t c) }
  | TAG_FOUND => { s with hs := s.hs.move (scanFound t c) }
  | TAG_LEADOUT =>
    let s := { s with hs := s.hs.move (scanLeadOut t c) }
    if s.hs.scan.tag_state = TAG_SENDING then completeTag tcp readings page s else s
  | TAG_SENDING => sendTag tcp page s

/-- Passes that are left before the next byte is scanned. -/
def passes (s : Sending σ) : ℕ :=
  (if s.err = ERR_OK then 1 else 0) +
    match s.hs.scan.tag_state with
    | TAG_LEADIN => if s.hs.scan.tag_index = LEN_TAG_LEAD_IN then 1 else 0
    | TAG_SENDING => 1 + (s.hs.tag_end - s.hs.file) +
        (s.hs.ssi.tag_insert_len - s.hs.scan.tag_index)
    | _ => 0

/-- What has been written after an attempt. -/
structure Attempt.Good (w : Attempt σ) (pcb : tcp_pcb σ) (ptr : List ℕ) (len : ℕ) : Prop where
  length_le : w.err = ERR_OK → w.length ≤ len
  length_pos : w.err = ERR_OK → 0 < len → 0 < w.length
  written_ok : w.err = ERR_OK → w.pcb.written = pcb.written ++ ptr.take w.length
  written_error : w.err ≠ ERR_OK → w.pcb.written = pcb.written

theorem tcp_write_written {pcb pcb' : tcp_pcb σ} {data : List ℕ} {err : err_t}
    (h : tcp_write tcp pcb data = (err, pcb')) :
    pcb'.written = if err = ERR_OK then pcb.written ++ data else pcb.written := by
  cases h
  rfl

/-- An attempt writes a beginning of the data or nothing. -/
theorem http_write_good (pcb : tcp_pcb σ) (ptr : List ℕ) (len : ℕ) :
    (http_write tcp pcb ptr len).Good pcb ptr len := by
  induction len using Nat.strong_induction_on generalizing pcb with
  | _ len ih =>
    rw [http_write]
    generalize hwrite : tcp_write tcp pcb (ptr.take len) = answer
    obtain ⟨err, pcb'⟩ := answer
    have hwritten := tcp_write_written tcp hwrite
    dsimp only
    by_cases hmem : err = ERR_MEM
    · have hkept : pcb'.written = pcb.written := by rw [hwritten, if_neg (by simp [hmem])]
      rw [if_pos hmem]
      split_ifs with hretry
      · have hlt := retryLength_lt tcp hretry
        have hgood := ih _ hlt pcb'
        exact ⟨fun h => (hgood.length_le h).trans hlt.le,
          fun h _ => hgood.length_pos h (by omega),
          fun h => hkept ▸ hgood.written_ok h, fun h => hkept ▸ hgood.written_error h⟩
      · have hnot : err ≠ ERR_OK := by simp [hmem]
        exact ⟨fun h => absurd h hnot, fun h => absurd h hnot, fun h => absurd h hnot,
          fun _ => hkept⟩
    · rw [if_neg hmem]
      exact ⟨fun _ => le_rfl, fun _ h => h, fun h => hwritten.trans (if_pos h),
        fun h => hwritten.trans (if_neg h)⟩

/-- Sending page data fails and changes nothing, or sends a beginning of it. -/
theorem sendFile_cases (s : Sending σ) (len : ℕ) :
    ((sendFile tcp page s len).err ≠ ERR_OK ∧ (sendFile tcp page s len).hs = s.hs ∧
        (sendFile tcp page s len).pcb.written = s.pcb.written) ∨
      ((sendFile tcp page s len).err = ERR_OK ∧ ∃ n ≤ len, (0 < len → 0 < n) ∧
        (sendFile tcp page s len).hs =
          { s.hs with file := s.hs.file + n, left := s.hs.left - n } ∧
        (sendFile tcp page s len).pcb.written =
          s.pcb.written ++ (page.drop s.hs.file).take n) := by
  have hgood := http_write_good tcp s.pcb (page.drop s.hs.file) len
  rw [sendFile]
  dsimp only
  split_ifs with hok
  · exact Or.inr ⟨hok, _, hgood.length_le hok, hgood.length_pos hok, rfl, hgood.written_ok hok⟩
  · exact Or.inl ⟨hok, rfl, hgood.written_error hok⟩

/-- Sending from an insert fails and changes nothing, or sends a beginning of it. -/
theorem sendInsert_cases (s : Sending σ) (len : ℕ) :
    ((sendInsert tcp s len).err ≠ ERR_OK ∧ (sendInsert tcp s len).hs = s.hs ∧
        (sendInsert tcp s len).pcb.written = s.pcb.written) ∨
      ((sendInsert tcp s len).err = ERR_OK ∧ ∃ n ≤ len, (0 < len → 0 < n) ∧
        (sendInsert tcp s len).hs =
          { s.hs with scan := { s.hs.scan with tag_index := s.hs.scan.tag_index + n } } ∧
        (sendInsert tcp s len).pcb.written =
          s.pcb.written ++ (s.hs.ssi.tag_insert.drop s.hs.scan.tag_index).take n) := by
  have hgood :=
    http_write_good tcp s.pcb (s.hs.ssi.tag_insert.drop s.hs.scan.tag_index) len
  rw [sendInsert]
  dsimp only
  split_ifs with hok
  · exact Or.inr ⟨hok, _, hgood.length_le hok, hgood.length_pos hok, rfl, hgood.written_ok hok⟩
  · exact Or.inl ⟨hok, rfl, hgood.written_error hok⟩

/-- Sending page data scans nothing. -/
theorem sendFile_parse_left (s : Sending σ) (len : ℕ) :
    (sendFile tcp page s len).hs.parse_left = s.hs.parse_left := by
  obtain ⟨_, hhs, _⟩ | ⟨_, n, _, _, hhs, _⟩ := sendFile_cases tcp page s len
  · rw [hhs]
  · rw [hhs]

theorem completeTag_parse_left (s : Sending σ) :
    (completeTag tcp readings page s).hs.parse_left = s.hs.parse_left := by
  rw [completeTag]
  dsimp only
  split_ifs
  · rw [sendFile_parse_left]
    rfl
  · rfl

/-- Sending scans nothing and brings the next byte closer. -/
theorem sendTag_passes {s : Sending σ} (hstate : s.hs.scan.tag_state = TAG_SENDING)
    (herr : s.err = ERR_OK) (hlen : s.len ≠ 0) :
    (sendTag tcp page s).hs.parse_left = s.hs.parse_left ∧
      passes (sendTag tcp page s) < passes s := by
  have hpasses : passes s = 1 + (1 + (s.hs.tag_end - s.hs.file) +
      (s.hs.ssi.tag_insert_len - s.hs.scan.tag_index)) := by
    rw [passes, if_pos herr, hstate]
  rw [sendTag]
  dsimp only
  split_ifs with hfile hzero hinsert
  · refine ⟨sendFile_parse_left tcp page s _, ?_⟩
    obtain ⟨hbad, hhs, _⟩ | ⟨hok, n, hle, hpos, hhs, _⟩ :=
      sendFile_cases tcp page s (min s.len (s.hs.tag_end - s.hs.file))
    · rw [hpasses, passes, if_neg hbad, hhs, hstate]
      dsimp only
      omega
    · have := hpos (by omega)
      rw [hpasses, passes, if_pos hok, hhs, hstate]
      dsimp only
      omega
  · omega
  · obtain ⟨hbad, hhs, _⟩ | ⟨hok, n, hle, hpos, hhs, _⟩ :=
      sendInsert_cases tcp s (min s.len (s.hs.ssi.tag_insert_len - s.hs.scan.tag_index))
    · rw [hpasses, passes, if_neg hbad, hhs, hstate]
      dsimp only
      exact ⟨rfl, by omega⟩
    · have := hpos (by omega)
      rw [hpasses, passes, if_pos hok, hhs, hstate]
      dsimp only
      exact ⟨rfl, by omega⟩
  · rw [hpasses, passes, if_pos herr]
    dsimp only
    exact ⟨rfl, by omega⟩

/-- A pass of the loop scans a byte or brings the next byte closer. -/
theorem tagStep_lex {s : Sending σ} (hparse : s.hs.parse_left ≠ 0) (herr : s.err = ERR_OK)
    (hlen : s.len ≠ 0) :
    (tagStep tcp readings page s).hs.parse_left < s.hs.parse_left ∨
      (tagStep tcp readings page s).hs.parse_left = s.hs.parse_left ∧
        passes (tagStep tcp readings page s) < passes s := by
  have hmove : ∀ t, (s.hs.move t).parse_left < s.hs.parse_left := by
    intro t
    change s.hs.parse_left - 1 < s.hs.parse_left
    omega
  rw [tagStep]
  dsimp only
  split
  · exact Or.inl (hmove _)
  · rename_i hstate
    split_ifs with hindex
    · refine Or.inr ⟨rfl, ?_⟩
      simp [passes, hstate, hindex]
    · exact Or.inl (hmove _)
  · exact Or.inl (hmove _)
  · left
    split_ifs
    · rw [completeTag_parse_left]
      exact hmove _
    · exact hmove _
  · exact Or.inr (sendTag_passes tcp page ‹_› herr hlen)

/-- Scan and send; true if the call returns from inside the loop. -/
def tagLoop (s : Sending σ) : Sending σ × Bool :=
  if s.hs.parse_left ≠ 0 ∧ s.err = ERR_OK then
    if s.len = 0 then (s, true) else tagLoop (tagStep tcp readings page s)
  else (s, false)
termination_by (s.hs.parse_left, passes s)
decreasing_by
  rename_i h hlen
  exact Prod.lex_def.mpr (tagStep_lex tcp readings page h.1 h.2 hlen)

/-- The state after a call and whether the connection has been closed. -/
structure Sent (σ : Type*) where
  hs : send_state
  pcb : tcp_pcb σ
  data_to_send : Bool
  closed : Bool

/-- Close the connection if nothing is left; a file is one block. -/
def finish (s : Sending σ) : Sent σ :=
  if s.hs.left = 0 then ⟨s.hs, s.pcb, false, true⟩ else ⟨s.hs, s.pcb, s.data_to_send, false⟩

/-- Scan from here on and send what has been scanned. -/
def scanAndSend (s : Sending σ) : Sent σ :=
  let (s, returned) := tagLoop tcp readings page s
  if returned then ⟨s.hs, s.pcb, s.data_to_send, false⟩
  else if s.hs.scan.tag_state ≠ TAG_SENDING ∧ s.hs.parsed > s.hs.file then
    finish (sendFile tcp page s (sendable tcp s.pcb (s.hs.parsed - s.hs.file)))
  else finish s

/-- A call for a page with tags: first what has been scanned before. -/
def sendTagged (s : Sending σ) : Sent σ :=
  if s.hs.parsed > s.hs.file then
    let s := sendFile tcp page s (sendable tcp s.pcb (s.hs.parsed - s.hs.file))
    if tcp.tcp_sndbuf s.pcb.state = 0 then ⟨s.hs, s.pcb, s.data_to_send, false⟩
    else scanAndSend tcp readings page s
  else scanAndSend tcp readings page s

/-- Send as much of the page as TCP takes. -/
def http_send_data (pcb : tcp_pcb σ) (hs : send_state) : Sent σ :=
  if hs.left = 0 then ⟨hs, pcb, false, true⟩
  else if !hs.tag_check then
    finish (sendFile tcp page ⟨hs, pcb, 0, ERR_OK, false⟩ (sendable tcp pcb hs.left))
  else sendTagged tcp readings page ⟨hs, pcb, tcp.tcp_sndbuf pcb.state, ERR_OK, false⟩

/-! ### Running the loop -/

/-- The loop with a bound on its passes. -/
def tagLoopWithin : ℕ → Sending σ → Option (Sending σ × Bool)
  | 0, _ => none
  | n + 1, s =>
    if s.hs.parse_left ≠ 0 ∧ s.err = ERR_OK then
      if s.len = 0 then some (s, true) else tagLoopWithin n (tagStep tcp readings page s)
    else some (s, false)

theorem tagLoop_of_within {n : ℕ} {s : Sending σ} {r : Sending σ × Bool}
    (h : tagLoopWithin tcp readings page n s = some r) : tagLoop tcp readings page s = r := by
  induction n generalizing s with
  | zero => cases h
  | succ n ih =>
    rw [tagLoopWithin] at h
    rw [tagLoop]
    split_ifs at h ⊢
    · exact Option.some.inj h
    · exact ih h
    · exact Option.some.inj h

/-- The loop may be evaluated with any bound. -/
theorem tagLoop_eq_within (n : ℕ) : @tagLoop σ = fun tcp readings page s =>
    (tagLoopWithin tcp readings page n s).getD (tagLoop tcp readings page s) := by
  funext tcp readings page s
  cases h : tagLoopWithin tcp readings page n s with
  | none => rfl
  | some r => exact tagLoop_of_within tcp readings page h

end SmartHome.PageSending
