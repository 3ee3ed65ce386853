import SmartHome.PageSending
import SmartHome.TransitionRuns

/-!
# What a client gets of a page

Between the calls for one page the bytes written, the page data that has been
scanned but not sent and the rest of an insert are kept in balance with the
expansion of the page. A connection is followed from the request on through
calls, polls and the steps TCP makes by itself.
-/

namespace SmartHome.PageSending

open Insertions PageTags SsiTags tag_check_state err_t
open ByteStrings (strnstr strnstr_le)

variable {σ : Type*} (tcp : Tcp σ) (readings : ℕ → Readings) (page : List ℕ)

/-- The page with the inserts of the tags scanned so far, without its first
`start` bytes. -/
def emitted (start k : ℕ) : List ℕ :=
  emit (feed readings) PageScan.start start (page.take k)

/-- What is left to send of an insert. -/
def pending (hs : send_state) : List ℕ :=
  if hs.scan.tag_state = TAG_SENDING then hs.ssi.inserted.drop hs.scan.tag_index else []

/-- The insert of a tag at the very end of the page. -/
def lastInsert : List ℕ :=
  if (scanned readings page).scan.tag_state = TAG_SENDING then
    (scanned readings page).ssi.inserted
  else []

/-- A connection in the middle of a page with tags: what has been written,
the page data that has been scanned and the rest of the insert make up the
expansion of the scanned part. -/
structure Good (start : ℕ) (hs : send_state) (written : List ℕ) : Prop where
  tag_check_eq : hs.tag_check = true
  file_le : hs.file ≤ page.length
  left_eq : hs.left = page.length - hs.file
  parsed_le : hs.parsed ≤ page.length
  parse_left_eq : hs.parse_left = page.length - hs.parsed
  start_le : start ≤ hs.file
  file_le_max : hs.file ≤ max start hs.parsed
  scan_eq : hs.scan.settle = (scanned readings (page.take hs.parsed)).scan.settle
  ssi_eq : hs.ssi = (scanned readings (page.take hs.parsed)).ssi
  tags_eq : hs.tags = (scanned readings (page.take hs.parsed)).tags
  sending : hs.scan.tag_state = TAG_SENDING →
    hs.tag_end = hs.parsed ∧ (hs.file < hs.parsed → hs.scan.tag_index = 0)
  last : hs.parse_left = 0 → pending hs = lastInsert readings page
  written_eq : written ++ slice page hs.file hs.parsed ++ pending hs =
    emitted readings page start hs.parsed

variable {readings page} {start : ℕ}

/-- Sending page data that has been scanned keeps the books. -/
theorem Good.file {hs : send_state} {written : List ℕ} (h : Good readings page start hs written)
    {n : ℕ} (hn : n ≤ hs.parsed - hs.file) :
    Good readings page start { hs with file := hs.file + n, left := hs.left - n }
      (written ++ (page.drop hs.file).take n) := by
  have hmax := h.file_le_max
  have hparsed := h.parsed_le
  have hfile := h.file_le
  refine ⟨h.tag_check_eq, ?_, ?_, hparsed, h.parse_left_eq, ?_, ?_,
    h.scan_eq, h.ssi_eq, h.tags_eq, ?_,
    fun hz => h.last hz, ?_⟩
  · dsimp only
    omega
  · have := h.left_eq
    dsimp only
    omega
  · exact h.start_le.trans (Nat.le_add_right _ _)
  · dsimp only
    omega
  · intro hstate
    obtain ⟨hend, hindex⟩ := h.sending hstate
    exact ⟨hend, fun hlt => hindex (by dsimp only at hlt; omega)⟩
  · have hsplit : slice page hs.file hs.parsed =
        slice page hs.file (hs.file + n) ++ slice page (hs.file + n) hs.parsed ∨ n = 0 := by
      obtain rfl | hpos := Nat.eq_zero_or_pos n
      · exact Or.inr rfl
      · exact Or.inl (slice_split (by omega) (by omega))
    rw [← h.written_eq, take_drop_eq_slice]
    obtain hsplit | rfl := hsplit
    · rw [hsplit, List.append_assoc written]
      rfl
    · rw [Nat.add_zero, slice_self page (le_refl _), List.append_nil]
      rfl

/-- The scanner after one more byte. -/
theorem scanned_succ {p : ℕ} (hp : p < page.length) :
    scanned readings (page.take (p + 1)) =
      (feed readings (scanned readings (page.take p)) page[p]).1 := by
  rw [List.take_succ_eq_append_getElem hp, scanned, after_concat]
  rfl

/-- One more byte of the expansion and what is inserted behind it. -/
theorem emitted_succ {p : ℕ} (hp : p < page.length) :
    emitted readings page start (p + 1) =
      emitted readings page start p ++ shown (start - p) page[p] ++
        (feed readings (scanned readings (page.take p)) page[p]).2 := by
  rw [emitted, List.take_succ_eq_append_getElem hp, emit_concat, List.length_take,
    Nat.min_eq_left hp.le]
  rfl

/-- What is inserted behind a byte is the insert of the tag that it ends. -/
theorem feed_inserted (p : PageScan) (c : ℕ) :
    (feed readings p c).2 =
      if (feed readings p c).1.scan.tag_state = TAG_SENDING then
        (feed readings p c).1.ssi.inserted
      else [] := by
  rw [feed]
  dsimp only
  split_ifs with h
  · rfl
  · rfl

/-- The page with all inserts is the expansion and the insert of a last tag. -/
theorem emitted_length :
    emitted readings page start page.length =
      expansion readings start page ++ lastInsert readings page := by
  obtain rfl | ⟨xs, b, rfl⟩ := List.eq_nil_or_concat' page
  · rfl
  · rw [emitted, List.take_length, expansion, emit_concat, expand_concat, lastInsert, scanned,
      after_concat, ← feed_inserted]

/-- The part that has been scanned and not sent grows by the byte unless the
byte is one of the first that are left out. -/
theorem Good.slice_succ {hs : send_state} {written : List ℕ}
    (h : Good readings page start hs written) (hp : hs.parsed < page.length) :
    slice page hs.file (hs.parsed + 1) =
      slice page hs.file hs.parsed ++ shown (start - hs.parsed) page[hs.parsed] := by
  have hstart := h.start_le
  have hmax := h.file_le_max
  by_cases hle : hs.file ≤ hs.parsed
  · rw [Insertions.slice_succ hle hp, shown, if_pos (by omega)]
  · rw [slice_self page (by omega), slice_self page (by omega), shown, if_neg (by omega)]
    rfl

/-- Scanning a byte keeps the books if the state is the scanner's and the
insert is what is to be sent next. -/
theorem Good.advance {hs hs' : send_state} {written : List ℕ}
    (h : Good readings page start hs written) (hp : hs.parsed < page.length)
    (hpending : pending hs = []) (htag : hs'.tag_check = hs.tag_check)
    (hfile : hs'.file = hs.file) (hleft : hs'.left = hs.left)
    (hparsed : hs'.parsed = hs.parsed + 1) (hparse : hs'.parse_left = hs.parse_left - 1)
    (hscan : (⟨hs'.scan, hs'.ssi, hs'.tags⟩ : PageScan) =
      (feed readings (scanned readings (page.take hs.parsed)) page[hs.parsed]).1)
    (hsending : hs'.scan.tag_state = TAG_SENDING →
      hs'.tag_end = hs.parsed + 1 ∧ hs'.scan.tag_index = 0)
    (hinsert : pending hs' =
      (feed readings (scanned readings (page.take hs.parsed)) page[hs.parsed]).2) :
    Good readings page start hs' written := by
  have hparse_left := h.parse_left_eq
  have hmax := h.file_le_max
  rw [← scanned_succ hp, ← hparsed] at hscan
  refine ⟨htag ▸ h.tag_check_eq, hfile ▸ h.file_le, ?_, by omega, by omega,
    hfile ▸ h.start_le, by omega, ?_, ?_, ?_, ?_,
    ?_, ?_⟩
  · rw [hleft, hfile, h.left_eq]
  · exact congrArg (fun q => q.scan.settle) hscan
  · exact congrArg (fun q => q.ssi) hscan
  · exact congrArg (fun q => q.tags) hscan
  · intro hstate
    obtain ⟨hend, hindex⟩ := hsending hstate
    exact ⟨hend.trans hparsed.symm, fun _ => hindex⟩
  · intro hzero
    have hall : hs.parsed + 1 = page.length := by omega
    rw [hinsert, feed_inserted, ← scanned_succ hp, hall, List.take_length]
    rfl
  · have hwritten := h.written_eq
    rw [hpending, List.append_nil] at hwritten
    rw [hinsert, hfile, hparsed, emitted_succ hp, h.slice_succ hp, ← hwritten, ← List.append_assoc]

/-- A byte is scanned while no insert is being sent. -/
theorem Good.byte {hs : send_state} {written : List ℕ} (h : Good readings page start hs written)
    (hparse : hs.parse_left ≠ 0) (hnot : hs.scan.tag_state ≠ TAG_SENDING)
    (hsettle : hs.scan.settle = hs.scan) {t : TagScan}
    (ht : scanByte hs.scan (page.getD hs.parsed 0) = t) :
    (t.tag_state ≠ TAG_SENDING → Good readings page start (hs.move t) written) ∧
      (t.tag_state = TAG_SENDING → t.tag_index = 0 →
        Good readings page start ((hs.move t).replaceTag readings) written) := by
  have hp : hs.parsed < page.length := by
    have := h.parse_left_eq
    omega
  have hc : page.getD hs.parsed 0 = page[hs.parsed] := by
    rw [List.getD_eq_getElem?_getD, List.getElem?_eq_getElem hp]
    rfl
  have hscan : scanByte (scanned readings (page.take hs.parsed)).scan.settle
      page[hs.parsed] = t := by
    rw [← h.scan_eq, hsettle, ← hc, ht]
  have hpending : pending hs = [] := if_neg hnot
  constructor
  · intro hstate
    refine h.advance hp hpending rfl rfl rfl rfl rfl ?_ (fun hs => absurd hs hstate) ?_
    · rw [feed, hscan, if_neg hstate, ← h.ssi_eq, ← h.tags_eq]
      rfl
    · rw [feed, hscan, if_neg hstate]
      exact if_neg hstate
  · intro hstate hindex
    refine h.advance hp hpending rfl rfl rfl rfl rfl ?_ (fun _ => ⟨rfl, hindex⟩) ?_
    · rw [feed, hscan, if_pos hstate, ← h.ssi_eq, ← h.tags_eq]
      rfl
    · rw [feed, hscan, if_pos hstate, ← h.ssi_eq, ← h.tags_eq]
      refine (if_pos hstate).trans ?_
      change List.drop t.tag_index _ = _
      rw [hindex]
      rfl

/-- The last byte of a lead-out leaves no index. -/
theorem scanLeadOut_index {t : TagScan} {c : ℕ} (ht : t.tag_state = TAG_LEADOUT)
    (h : (scanLeadOut t c).tag_state = TAG_SENDING) : (scanLeadOut t c).tag_index = 0 := by
  rw [scanLeadOut] at h ⊢
  split_ifs at h ⊢
  · cases ht.symm.trans h
  · rfl
  · cases ht.symm.trans h

/-- A call in progress with its books in order. -/
def Sending.Good (readings : ℕ → Readings) (page : List ℕ) (start : ℕ) (s : Sending σ) : Prop :=
  PageSending.Good readings page start s.hs s.pcb.written

/-- Sending scanned page data keeps the books. -/
theorem Sending.Good.sendFile {s : Sending σ} (h : s.Good readings page start) {len : ℕ}
    (hlen : len ≤ s.hs.parsed - s.hs.file) :
    (PageSending.sendFile tcp page s len).Good readings page start := by
  obtain ⟨_, hhs, hwritten⟩ | ⟨_, n, hn, _, hhs, hwritten⟩ := sendFile_cases tcp page s len
  · rw [Sending.Good, hhs, hwritten]
    exact h
  · rw [Sending.Good, hhs, hwritten]
    exact h.file (hn.trans hlen)

/-- Sending from the insert keeps the books. -/
theorem Sending.Good.sendInsert {s : Sending σ} (h : s.Good readings page start)
    (hparse : s.hs.parse_left ≠ 0) (hstate : s.hs.scan.tag_state = TAG_SENDING)
    (hfile : s.hs.parsed ≤ s.hs.file) {len : ℕ}
    (hlen : len ≤ s.hs.ssi.tag_insert_len - s.hs.scan.tag_index)
    (hindex : s.hs.scan.tag_index < s.hs.ssi.tag_insert_len) :
    (PageSending.sendInsert tcp s len).Good readings page start := by
  obtain ⟨_, hhs, hwritten⟩ | ⟨_, n, hn, _, hhs, hwritten⟩ := sendInsert_cases tcp s len
  · rw [Sending.Good, hhs, hwritten]
    exact h
  · have hbooks := h.written_eq
    rw [slice_self page hfile, List.append_nil, pending, if_pos hstate,
      show s.hs.ssi.inserted.drop s.hs.scan.tag_index =
        slice s.hs.ssi.tag_insert s.hs.scan.tag_index s.hs.ssi.tag_insert_len from rfl,
      slice_split (Nat.le_add_right _ n) (by omega), ← List.append_assoc] at hbooks
    rw [Sending.Good, hhs, hwritten]
    refine ⟨h.tag_check_eq, h.file_le, h.left_eq, h.parsed_le, h.parse_left_eq,
      h.start_le, h.file_le_max, ?_,
      h.ssi_eq, h.tags_eq, fun _ => ⟨(h.sending hstate).1, fun hlt => absurd hlt (by
        dsimp only
        omega)⟩, fun hz => absurd hz hparse, ?_⟩
    · rw [← h.scan_eq]
      simp only [TagScan.settle, hstate]
    · rw [take_drop_eq_slice, slice_self page hfile, List.append_nil, pending, if_pos hstate]
      exact hbooks

/-- A finished insert is followed by the search for the next tag. -/
theorem Sending.Good.endInsert {s : Sending σ} (h : s.Good readings page start)
    (hparse : s.hs.parse_left ≠ 0) (hstate : s.hs.scan.tag_state = TAG_SENDING)
    (hindex : s.hs.ssi.tag_insert_len ≤ s.hs.scan.tag_index) :
    Sending.Good readings page start { s with
      hs := { s.hs with scan := { s.hs.scan with tag_index := 0, tag_state := TAG_NONE } } } := by
  have hbooks := h.written_eq
  have hpending : pending s.hs = [] := by
    rw [pending, if_pos hstate]
    exact slice_self s.hs.ssi.tag_insert hindex
  refine ⟨h.tag_check_eq, h.file_le, h.left_eq, h.parsed_le, h.parse_left_eq,
    h.start_le, h.file_le_max, ?_,
    h.ssi_eq, h.tags_eq, (fun hs => nomatch hs), fun hz => absurd hz hparse, ?_⟩
  · rw [← h.scan_eq]
    simp only [TagScan.settle, hstate]
  · rw [hpending] at hbooks
    exact hbooks

/-- Sending page data and insert of a tag keeps the books. -/
theorem Sending.Good.sendTag {s : Sending σ} (h : s.Good readings page start)
    (hparse : s.hs.parse_left ≠ 0) (hstate : s.hs.scan.tag_state = TAG_SENDING) :
    (PageSending.sendTag tcp page s).Good readings page start := by
  obtain ⟨hend, _⟩ := h.sending hstate
  rw [PageSending.sendTag]
  dsimp only
  split_ifs with hfile hzero hindex
  · exact Sending.Good.sendFile tcp h (by omega)
  · exact h
  · exact Sending.Good.sendInsert tcp h hparse hstate (by omega) (by omega) hindex
  · exact h.endInsert hparse hstate (by omega)

/-- A complete tag is sent after the page data before it. -/
theorem Sending.Good.completeTag {s : Sending σ}
    (h : PageSending.Good readings page start (s.hs.replaceTag readings) s.pcb.written) :
    (PageSending.completeTag tcp readings page s).Good readings page start := by
  rw [PageSending.completeTag]
  dsimp only
  split_ifs
  · exact Sending.Good.sendFile tcp (s := { s with hs := s.hs.replaceTag readings }) h
      (min_le_right _ _)
  · exact h

/-- Every pass of the loop keeps the books. -/
theorem Sending.Good.tagStep {s : Sending σ} (h : s.Good readings page start)
    (hparse : s.hs.parse_left ≠ 0) :
    (PageSending.tagStep tcp readings page s).Good readings page start := by
  have hbyte := PageSending.Good.byte h hparse
  rw [PageSending.tagStep]
  dsimp only
  split
  · rename_i hstate
    refine (hbyte (by simp [hstate]) (by simp [TagScan.settle, hstate]) ?_).1 ?_
    · rw [scanByte, hstate]
    · rw [scanNone]
      split_ifs <;> simp [hstate]
  · rename_i hstate
    split_ifs with hindex
    · -- the lead-in is complete; no byte is read
      have hbooks := h.written_eq
      rw [pending, if_neg (by simp [hstate])] at hbooks
      refine ⟨h.tag_check_eq, h.file_le, h.left_eq, h.parsed_le, h.parse_left_eq, h.start_le,
        h.file_le_max, ?_, h.ssi_eq, h.tags_eq, fun hs => absurd hs (by simp),
        fun hz => absurd hz hparse, hbooks⟩
      rw [← h.scan_eq]
      simp only [TagScan.settle, hstate, if_pos hindex]
    · refine (hbyte (by simp [hstate]) (by simp [TagScan.settle, hstate, hindex]) ?_).1 ?_
      · rw [scanByte, hstate]
      · rw [scanLeadIn]
        split_ifs <;> simp [hstate]
  · rename_i hstate
    refine (hbyte (by simp [hstate]) (by simp [TagScan.settle, hstate]) ?_).1 ?_
    · rw [scanByte, hstate]
    · rw [scanFound]
      split_ifs <;> simp [hstate]
  · rename_i hstate
    have hleadOut := hbyte (by simp [hstate]) (by simp [TagScan.settle, hstate])
      (t := scanLeadOut s.hs.scan (page.getD s.hs.parsed 0)) (by rw [scanByte, hstate])
    split_ifs with hdone
    · exact Sending.Good.completeTag tcp (hleadOut.2 hdone (scanLeadOut_index hstate hdone))
    · exact hleadOut.1 hdone
  · exact Sending.Good.sendTag tcp h hparse ‹_›

/-- The loop keeps the books. -/
theorem Sending.Good.tagLoop {s : Sending σ} (h : s.Good readings page start) :
    (PageSending.tagLoop tcp readings page s).1.Good readings page start := by
  induction s using PageSending.tagLoop.induct tcp readings page with
  | case1 s hcond hlen =>
    rw [PageSending.tagLoop, if_pos hcond, if_pos hlen]
    exact h
  | case2 s hcond hlen ih =>
    rw [PageSending.tagLoop, if_pos hcond, if_neg hlen]
    exact ih (h.tagStep tcp hcond.1)
  | case3 s hcond =>
    rw [PageSending.tagLoop, if_neg hcond]
    exact h

/-- What has been written is a beginning of the expansion. -/
theorem Good.written_prefix {hs : send_state} {written : List ℕ}
    (h : Good readings page start hs written) :
    written <+: expansion readings start page := by
  have hbooks := h.written_eq
  obtain hlt | heq := Nat.lt_or_eq_of_le h.parsed_le
  · have hprefix : emitted readings page start hs.parsed <+: expansion readings start page :=
      emit_take_prefix _ _ _ hlt
    rw [← hbooks, List.append_assoc] at hprefix
    exact (List.prefix_append _ _).trans hprefix
  · have hlast := h.last (by rw [h.parse_left_eq, heq, Nat.sub_self])
    rw [hlast, heq, emitted_length] at hbooks
    exact ⟨_, List.append_cancel_right hbooks⟩

/-- When nothing is left the whole expansion has been written. -/
theorem Good.written_all {hs : send_state} {written : List ℕ}
    (h : Good readings page start hs written) (hstart : start < page.length)
    (hleft : hs.left = 0) : written = expansion readings start page := by
  have hfile := h.left_eq
  have hmax := h.file_le_max
  have hparsed := h.parsed_le
  have hall : hs.parsed = page.length := by omega
  have hlast := h.last (by rw [h.parse_left_eq, hall, Nat.sub_self])
  have hbooks := h.written_eq
  rw [hlast, hall, slice_self page (by omega), List.append_nil, emitted_length] at hbooks
  exact List.append_cancel_right hbooks

/-- A connection in the middle of a page without tags. -/
structure Plain (page : List ℕ) (start : ℕ) (hs : send_state) (written : List ℕ) : Prop where
  tag_check_eq : hs.tag_check = false
  file_le : hs.file ≤ page.length
  left_eq : hs.left = page.length - hs.file
  start_le : start ≤ hs.file
  written_eq : written = slice page start hs.file

/-- A connection in the middle of a page. -/
def Books (readings : ℕ → Readings) (page : List ℕ) (start : ℕ) (tag_check : Bool)
    (hs : send_state) (written : List ℕ) : Prop :=
  match tag_check with
  | true => Good readings page start hs written
  | false => Plain page start hs written

/-- Sending page data keeps the books without tags, too. -/
theorem Plain.sendFile {s : Sending σ} (h : Plain page start s.hs s.pcb.written) {len : ℕ}
    (hlen : len ≤ s.hs.left) :
    Plain page start (sendFile tcp page s len).hs (sendFile tcp page s len).pcb.written := by
  have hfile := h.file_le
  have hleft := h.left_eq
  have hstart := h.start_le
  obtain ⟨_, hhs, hwritten⟩ | ⟨_, n, hn, _, hhs, hwritten⟩ := sendFile_cases tcp page s len
  · rw [hhs, hwritten]
    exact h
  · rw [hhs, hwritten]
    refine ⟨h.tag_check_eq, ?_, ?_, ?_, ?_⟩
    · dsimp only
      omega
    · dsimp only
      omega
    · dsimp only
      omega
    · rw [h.written_eq, take_drop_eq_slice]
      exact (slice_split hstart (Nat.le_add_right _ n)).symm

theorem sendable_le (pcb : tcp_pcb σ) (limit : ℕ) : sendable tcp pcb limit ≤ limit := by
  rw [sendable]
  split_ifs <;> omega

theorem finish_hs (s : Sending σ) : (finish s).hs = s.hs := by
  rw [finish]
  split_ifs <;> rfl

theorem finish_pcb (s : Sending σ) : (finish s).pcb = s.pcb := by
  rw [finish]
  split_ifs <;> rfl

theorem finish_closed (s : Sending σ) : (finish s).closed = true ↔ s.hs.left = 0 := by
  rw [finish]
  split_ifs with h <;> simp [h]

/-- What a call leaves behind is in order. -/
def Sent.Books (readings : ℕ → Readings) (page : List ℕ) (start : ℕ) (tag_check : Bool)
    (r : Sent σ) : Prop :=
  PageSending.Books readings page start tag_check r.hs r.pcb.written ∧
    (r.closed = true → r.hs.left = 0)

variable {tag_check : Bool}

theorem finish_books {s : Sending σ}
    (h : PageSending.Books readings page start tag_check s.hs s.pcb.written) :
    (finish s).Books readings page start tag_check := by
  rw [Sent.Books, finish_hs, finish_pcb, finish_closed]
  exact ⟨h, id⟩

/-- Scanning and sending keeps the books and closes when nothing is left. -/
theorem scanAndSend_books {s : Sending σ} (h : s.Good readings page start) :
    (scanAndSend tcp readings page s).Books readings page start true := by
  have hloop := h.tagLoop tcp
  rw [scanAndSend]
  generalize tagLoop tcp readings page s = result at hloop
  obtain ⟨s', returned⟩ := result
  dsimp only at hloop ⊢
  split_ifs with hret hrest
  · exact ⟨hloop, fun hc => nomatch hc⟩
  · exact finish_books (hloop.sendFile tcp (sendable_le tcp _ _))
  · exact finish_books hloop

theorem sendTagged_books {s : Sending σ} (h : s.Good readings page start) :
    (sendTagged tcp readings page s).Books readings page start true := by
  have hfirst := h.sendFile tcp (sendable_le tcp s.pcb _)
  rw [sendTagged]
  split_ifs
  · dsimp only
    split_ifs
    · exact ⟨hfirst, fun hc => nomatch hc⟩
    · exact scanAndSend_books tcp hfirst
  · exact scanAndSend_books tcp h

/-- A call keeps the books and closes only when nothing is left. -/
theorem http_send_data_books {pcb : tcp_pcb σ} {hs : send_state}
    (h : Books readings page start tag_check hs pcb.written) :
    (http_send_data tcp readings page pcb hs).Books readings page start tag_check := by
  rw [http_send_data]
  cases tag_check with
  | true =>
    have hgood : Good readings page start hs pcb.written := h
    split_ifs with hleft htag
    · exact ⟨h, fun _ => hleft⟩
    · simp [hgood.tag_check_eq] at htag
    · exact sendTagged_books tcp h
  | false =>
    have hplain : Plain page start hs pcb.written := h
    split_ifs with hleft htag
    · exact ⟨h, fun _ => hleft⟩
    · have hsent := Plain.sendFile tcp (s := ⟨hs, pcb, 0, ERR_OK, false⟩) h
        (sendable_le tcp pcb hs.left)
      exact finish_books (show PageSending.Books readings page start false _ _ from hsent)
    · simp [hplain.tag_check_eq] at htag

/-- Begin with a page; an answer to a request of version 0.9 has no header. -/
def http_init_file (tag_check is_09 : Bool) (page : List ℕ) : send_state :=
  let hs : send_state :=
    { file := 0, left := page.length, tag_check := tag_check, parsed := 0,
      parse_left := page.length, tag_end := 0, scan := PageScan.start.scan,
      ssi := tag_state_alloc, tags := 0 }
  match if is_09 then strnstr (chars "\r\n\r\n") page else none with
  | some file_start => { hs with file := file_start + 4, left := page.length - (file_start + 4) }
  | none => hs

/-- The first byte of the page that is sent. -/
def bodyStart (is_09 : Bool) (page : List ℕ) : ℕ := (http_init_file false is_09 page).file

/-- Nothing has been written when a page is opened. -/
theorem http_init_file_books (tag_check is_09 : Bool) :
    Books readings page (bodyStart is_09 page) tag_check
      (http_init_file tag_check is_09 page) [] := by
  have hfile : bodyStart is_09 page ≤ page.length ∧
      http_init_file tag_check is_09 page =
        { file := bodyStart is_09 page, left := page.length - bodyStart is_09 page,
          tag_check := tag_check, parsed := 0, parse_left := page.length, tag_end := 0,
          scan := PageScan.start.scan, ssi := tag_state_alloc, tags := 0 } := by
    rw [bodyStart, http_init_file, http_init_file]
    split
    · rename_i i hi
      have hsome : strnstr (chars "\r\n\r\n") page = some i := by
        split_ifs at hi with h09
        exact hi
      exact ⟨strnstr_le hsome, rfl⟩
    · exact ⟨Nat.zero_le _, rfl⟩
  rw [hfile.2]
  cases tag_check with
  | false => exact ⟨rfl, hfile.1, rfl, le_rfl, (slice_self page le_rfl).symm⟩
  | true =>
    refine ⟨rfl, hfile.1, rfl, Nat.zero_le _, rfl, le_rfl, le_max_left _ _, ?_, ?_, ?_,
      (fun hs => tag_check_state.noConfusion hs), ?_, ?_⟩
    · rfl
    · rfl
    · rfl
    · intro hempty
      rw [lastInsert, List.eq_nil_of_length_eq_zero hempty]
      rfl
    · rw [slice_self page (Nat.zero_le _)]
      rfl

def HTTPD_MAX_RETRIES : ℕ := 4

/-- How a connection has ended. -/
inductive Ending
  | finished
  | timeout
  deriving DecidableEq

/-- A connection whose request has been parsed. -/
structure Connection (σ : Type*) where
  hs : send_state
  retries : ℕ
  pcb : tcp_pcb σ
  ended : Option Ending

/-- What can happen to the connection. -/
inductive Event (σ : Type*)
  /-- The call that follows the request. -/
  | http_recv
  | http_sent
  | http_poll
  /-- TCP goes on by itself, for example when data is acknowledged. -/
  | tcp (state : σ)

/-- One call of http_send_data. -/
def call (readings : ℕ → Readings) (page : List ℕ) (c : Connection σ) : Connection σ :=
  let r := http_send_data tcp readings page c.pcb c.hs
  { c with hs := r.hs, pcb := r.pcb, ended := if r.closed then some .finished else none }

/-- One event of a connection that has not ended. -/
def step (readings : ℕ → Readings) (page : List ℕ) (c : Connection σ) (e : Event σ) :
    Option (Connection σ) :=
  if c.ended ≠ none then none
  else
    match e with
    | .http_recv => some (call tcp readings page c)
    | .http_sent => some (call tcp readings page { c with retries := 0 })
    | .http_poll =>
      let c := { c with retries := c.retries + 1 }
      if c.retries = HTTPD_MAX_RETRIES then some { c with ended := some .timeout }
      else some (call tcp readings page c)
    | .tcp state => some { c with pcb := { c.pcb with state := state } }

/-- A connection for a page on which nothing has been written. -/
def Connection.open (tag_check is_09 : Bool) (page : List ℕ) (state : σ) : Connection σ where
  hs := http_init_file tag_check is_09 page
  retries := 0
  pcb := ⟨state, []⟩
  ended := none

/-- A connection with its books in order. -/
def Connection.Books (readings : ℕ → Readings) (page : List ℕ) (start : ℕ) (tag_check : Bool)
    (c : Connection σ) : Prop :=
  PageSending.Books readings page start tag_check c.hs c.pcb.written ∧
    (c.ended = some .finished → c.hs.left = 0)

theorem call_books {c : Connection σ}
    (h : PageSending.Books readings page start tag_check c.hs c.pcb.written) :
    (call tcp readings page c).Books readings page start tag_check := by
  obtain ⟨hbooks, hclosed⟩ := http_send_data_books tcp h
  refine ⟨hbooks, fun hfinished => hclosed ?_⟩
  by_contra hopen
  simp [call, hopen] at hfinished

/-- Every event keeps the books. -/
theorem step_books {c c' : Connection σ} {e : Event σ}
    (h : c.Books readings page start tag_check) (hstep : step tcp readings page c e = some c') :
    c'.Books readings page start tag_check := by
  unfold step at hstep
  split_ifs at hstep with hended
  cases e with
  | http_recv =>
    cases hstep
    exact call_books tcp h.1
  | http_sent =>
    cases hstep
    exact call_books tcp h.1
  | http_poll =>
    dsimp only at hstep
    split_ifs at hstep with hretries
    · cases hstep
      exact ⟨h.1, fun hfinished => nomatch hfinished⟩
    · cases hstep
      exact call_books tcp h.1
  | tcp state =>
    cases hstep
    exact h

/-- The page that a client is to get: the expansion of a page with tags,
else the bytes from the first one sent on. -/
def content (readings : ℕ → Readings) (tag_check is_09 : Bool) (page : List ℕ) : List ℕ :=
  if tag_check then expansion readings (bodyStart is_09 page) page
  else page.drop (bodyStart is_09 page)

/-- What has been written begins the content. -/
theorem Connection.Books.written_prefix {c : Connection σ} {is_09 : Bool}
    (h : c.Books readings page (bodyStart is_09 page) tag_check) :
    c.pcb.written <+: content readings tag_check is_09 page := by
  have hbooks := h.1
  rw [content]
  cases tag_check with
  | true => exact Good.written_prefix hbooks
  | false =>
    have hplain : Plain page (bodyStart is_09 page) c.hs c.pcb.written := hbooks
    rw [hplain.written_eq, slice]
    exact List.IsPrefix.drop (List.take_prefix _ _) _

/-- A connection that has finished has written the content. -/
theorem Connection.Books.written_all {c : Connection σ} {is_09 : Bool}
    (h : c.Books readings page (bodyStart is_09 page) tag_check)
    (hbody : bodyStart is_09 page < page.length) (hfinished : c.ended = some .finished) :
    c.pcb.written = content readings tag_check is_09 page := by
  have hbooks := h.1
  have hleft := h.2 hfinished
  rw [content]
  cases tag_check with
  | true => exact Good.written_all hbooks hbody hleft
  | false =>
    have hplain : Plain page (bodyStart is_09 page) c.hs c.pcb.written := hbooks
    have hall : c.hs.file = page.length := by
      have := hplain.left_eq
      have := hplain.file_le
      omega
    rw [hplain.written_eq, hall, slice, List.take_length]
    rfl

theorem Connection.open_books (readings : ℕ → Readings) (page : List ℕ) (tag_check is_09 : Bool)
    (state : σ) :
    (Connection.open tag_check is_09 page state).Books readings page (bodyStart is_09 page)
      tag_check :=
  ⟨http_init_file_books tag_check is_09, by simp [Connection.open]⟩

/-- Whatever TCP answers and however calls, polls and its own steps follow
each other, a beginning of the page's content has been written at every time,
and all of it when the connection is closed because nothing is left of a page that
has anything to send. -/
theorem page_written (tcp : Tcp σ) (readings : ℕ → Readings) (page : List ℕ)
    (tag_check is_09 : Bool) (state : σ) (es : List (Event σ)) (c : Connection σ)
    (hrun : TransitionRuns.run (step tcp readings page)
      (Connection.open tag_check is_09 page state) es = some c) :
    c.pcb.written <+: content readings tag_check is_09 page ∧
      (bodyStart is_09 page < page.length → c.ended = some .finished →
        c.pcb.written = content readings tag_check is_09 page) := by
  have hbooks : c.Books readings page (bodyStart is_09 page) tag_check :=
    TransitionRuns.run_invariant (fun _ _ _ => step_books tcp)
      (Connection.open_books readings page tag_check is_09 state) hrun
  exact ⟨hbooks.written_prefix, hbooks.written_all⟩

/-- A TCP that never has room for more than a byte. -/
def sparing : Tcp Unit where
  tcp_sndbuf _ := 1
  queue_full _ := false
  tcp_mss _ := 1460
  answer _ _ := (ERR_OK, ())

/-- A page with one tag. -/
def taggedPage : List ℕ := chars "at <!--#t--> now"

/-- The page is written in three calls, with the insert behind the tag. -/
theorem page_written_tagged :
    ∃ c, TransitionRuns.run (step sparing (fun _ => midnight) taggedPage)
        (Connection.open true false taggedPage ()) [.http_recv, .http_sent, .http_sent] = some c ∧
      c.pcb.written = content (fun _ => midnight) true false taggedPage ∧
      c.pcb.written = chars "at <!--#t-->20 now" := by
  have hend : (TransitionRuns.run (step sparing (fun _ => midnight) taggedPage)
      (Connection.open true false taggedPage ()) [.http_recv, .http_sent, .http_sent]).any
        (fun c => c.ended = some .finished ∧
          c.pcb.written = chars "at <!--#t-->20 now") = true := by
    delta step call http_send_data sendTagged scanAndSend
    rw [tagLoop_eq_within 100]
    decide +kernel
  obtain ⟨c, hrun, hc⟩ := (Option.any_eq_true _ _).mp hend
  obtain ⟨hended, hwritten⟩ := of_decide_eq_true hc
  exact ⟨c, hrun, (page_written sparing (fun _ => midnight) taggedPage true false () _ c hrun).2
    (by decide) hended, hwritten⟩

end SmartHome.PageSending
