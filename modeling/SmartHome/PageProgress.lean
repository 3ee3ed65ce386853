import SmartHome.PageDelivery

/-!
# A page is finished

A call that finds room in the send buffer writes at least one byte or closes
the connection, so that the number of calls a connection lives through is
bounded by what the page expands to.
-/

namespace SmartHome.PageSending

open Insertions PageTags SsiTags tag_check_state err_t

variable {σ : Type*} (tcp : Tcp σ) {readings : ℕ → Readings} {page : List ℕ} {start : ℕ}
  {tag_check : Bool}

/-- TCP has room for a byte and takes what fits. -/
structure Ready (st : σ) : Prop where
  sndbuf_pos : 0 < tcp.tcp_sndbuf st
  mss_pos : 0 < tcp.tcp_mss st
  accepts : ∀ data, data ≠ [] → data.length ≤ tcp.tcp_sndbuf st →
    (tcp.answer st data).1 = ERR_OK

/-- Data that fits is written at the first attempt. -/
theorem http_write_ready {pcb : tcp_pcb σ} (h : Ready tcp pcb.state) {ptr : List ℕ} {len : ℕ}
    (hpos : 0 < len) (hbuf : len ≤ tcp.tcp_sndbuf pcb.state) (hptr : ptr ≠ []) :
    (http_write tcp pcb ptr len).err = ERR_OK := by
  have hdata : ptr.take len ≠ [] := by
    rw [Ne, List.take_eq_nil_iff]
    exact not_or.mpr ⟨by omega, hptr⟩
  have haccept := h.accepts (ptr.take len) hdata ((List.length_take_le _ _).trans hbuf)
  have herr : (tcp_write tcp pcb (ptr.take len)).1 = ERR_OK := haccept
  rw [http_write]
  generalize tcp_write tcp pcb (ptr.take len) = answer at herr
  obtain ⟨err, pcb'⟩ := answer
  dsimp only at herr ⊢
  rw [if_neg (by simp [herr])]
  exact herr

/-- Nothing that has been written is taken back. -/
theorem sendFile_written (s : Sending σ) (len : ℕ) :
    s.pcb.written <+: (sendFile tcp page s len).pcb.written := by
  obtain ⟨_, _, hwritten⟩ | ⟨_, n, _, _, _, hwritten⟩ := sendFile_cases tcp page s len
  · rw [hwritten]
  · rw [hwritten]
    exact List.prefix_append _ _

theorem sendInsert_written (s : Sending σ) (len : ℕ) :
    s.pcb.written <+: (sendInsert tcp s len).pcb.written := by
  obtain ⟨_, _, hwritten⟩ | ⟨_, n, _, _, _, hwritten⟩ := sendInsert_cases tcp s len
  · rw [hwritten]
  · rw [hwritten]
    exact List.prefix_append _ _

theorem completeTag_written (s : Sending σ) :
    s.pcb.written <+: (completeTag tcp readings page s).pcb.written := by
  rw [completeTag]
  dsimp only
  split_ifs
  · exact sendFile_written tcp { s with hs := s.hs.replaceTag readings } _
  · exact List.prefix_refl _

theorem sendTag_written (s : Sending σ) :
    s.pcb.written <+: (sendTag tcp page s).pcb.written := by
  rw [sendTag]
  dsimp only
  split_ifs
  · exact sendFile_written tcp s _
  · exact List.prefix_refl _
  · exact sendInsert_written tcp s _
  · exact List.prefix_refl _

theorem tagStep_written (s : Sending σ) :
    s.pcb.written <+: (tagStep tcp readings page s).pcb.written := by
  rw [tagStep]
  dsimp only
  split
  · exact List.prefix_refl _
  · split_ifs <;> exact List.prefix_refl _
  · exact List.prefix_refl _
  · split_ifs
    · exact completeTag_written tcp { s with hs := s.hs.move _ }
    · exact List.prefix_refl _
  · exact sendTag_written tcp s

theorem tagLoop_written (s : Sending σ) :
    s.pcb.written <+: (tagLoop tcp readings page s).1.pcb.written := by
  induction s using tagLoop.induct tcp readings page with
  | case1 s hcond hlen =>
    rw [tagLoop, if_pos hcond, if_pos hlen]
  | case2 s hcond hlen ih =>
    rw [tagLoop, if_pos hcond, if_neg hlen]
    exact (tagStep_written tcp s).trans ih
  | case3 s hcond =>
    rw [tagLoop, if_neg hcond]

theorem scanAndSend_written (s : Sending σ) :
    s.pcb.written <+: (scanAndSend tcp readings page s).pcb.written := by
  have hloop : s.pcb.written <+: (tagLoop tcp readings page s).1.pcb.written :=
    tagLoop_written tcp s
  rw [scanAndSend]
  generalize tagLoop tcp readings page s = result at hloop
  obtain ⟨s', returned⟩ := result
  dsimp only at hloop ⊢
  split_ifs
  · exact hloop
  · rw [finish_pcb]
    exact hloop.trans (sendFile_written tcp s' _)
  · rw [finish_pcb]
    exact hloop

/-- Page data that TCP has room for is sent. -/
theorem sendFile_ready {s : Sending σ} (h : Ready tcp s.pcb.state) {len : ℕ} (hpos : 0 < len)
    (hbuf : len ≤ tcp.tcp_sndbuf s.pcb.state) (hfile : s.hs.file < page.length) :
    s.pcb.written.length < (sendFile tcp page s len).pcb.written.length := by
  have hdata : page.drop s.hs.file ≠ [] := by
    rw [Ne, List.drop_eq_nil_iff]
    omega
  have herr : (sendFile tcp page s len).err = ERR_OK := by
    have hok := http_write_ready tcp h hpos hbuf hdata
    rw [sendFile]
    exact (apply_ite Sending.err _ _ _).trans (by rw [ite_self]; exact hok)
  obtain ⟨hbad, _, _⟩ | ⟨_, n, _, hn, _, hwritten⟩ := sendFile_cases tcp page s len
  · exact absurd herr hbad
  · have := hn hpos
    rw [hwritten, List.length_append, List.length_take, List.length_drop]
    omega

/-- Bytes of an insert that TCP has room for are sent. -/
theorem sendInsert_ready {s : Sending σ} (h : Ready tcp s.pcb.state) {len : ℕ} (hpos : 0 < len)
    (hbuf : len ≤ tcp.tcp_sndbuf s.pcb.state)
    (hindex : s.hs.scan.tag_index < s.hs.ssi.tag_insert.length) :
    s.pcb.written.length < (sendInsert tcp s len).pcb.written.length := by
  have hdata : s.hs.ssi.tag_insert.drop s.hs.scan.tag_index ≠ [] := by
    rw [Ne, List.drop_eq_nil_iff]
    omega
  have herr : (sendInsert tcp s len).err = ERR_OK := by
    have hok := http_write_ready tcp h hpos hbuf hdata
    rw [sendInsert]
    exact (apply_ite Sending.err _ _ _).trans (by rw [ite_self]; exact hok)
  obtain ⟨hbad, _, _⟩ | ⟨_, n, _, hn, _, hwritten⟩ := sendInsert_cases tcp s len
  · exact absurd herr hbad
  · have := hn hpos
    rw [hwritten, List.length_append, List.length_take, List.length_drop]
    omega

theorem sendable_ready {pcb : tcp_pcb σ} (h : Ready tcp pcb.state) {limit : ℕ}
    (hlimit : 0 < limit) :
    0 < sendable tcp pcb limit ∧ sendable tcp pcb limit ≤ tcp.tcp_sndbuf pcb.state := by
  have hbuf := h.sndbuf_pos
  have hmss := h.mss_pos
  rw [sendable]
  split_ifs <;> omega

/-- Nothing has been sent since the call began. -/
structure Idle (s₀ s : Sending σ) : Prop where
  pcb_eq : s.pcb = s₀.pcb
  len_eq : s.len = s₀.len
  err_eq : s.err = ERR_OK
  sending : s.hs.scan.tag_state = TAG_SENDING → s.hs.parsed ≤ s.hs.file

/-- An insert lies inside its buffer. -/
theorem get_tag_insert_len_le (r : Readings) (ssi : tag_state) :
    (get_tag_insert r ssi).tag_insert_len ≤ (get_tag_insert r ssi).tag_insert.length := by
  have hstrlen : ∀ buffer : List ℕ, MachineWords.uint16_t (strlen buffer) ≤ buffer.length :=
    fun buffer => (Nat.mod_le _ _).trans (List.takeWhile_prefix _).length_le
  rw [get_tag_insert]
  split
  · exact hstrlen _
  · exact hstrlen _

theorem scanned_len_le (readings : ℕ → Readings) (text : List ℕ) :
    (scanned readings text).ssi.tag_insert_len ≤ (scanned readings text).ssi.tag_insert.length := by
  induction text using List.reverseRecOn with
  | nil => exact Nat.zero_le _
  | append_singleton text c ih =>
    rw [scanned, after_concat, feed]
    dsimp only
    split_ifs
    · exact get_tag_insert_len_le _ _
    · exact ih

/-- A pass either sends something or leaves TCP and the length alone. -/
theorem tagStep_idle {s₀ s : Sending σ} (h : s.Good readings page start) (hidle : Idle s₀ s)
    (hready : Ready tcp s₀.pcb.state) (hlen : 0 < s₀.len)
    (hbuf : s₀.len ≤ tcp.tcp_sndbuf s₀.pcb.state) (hparse : s.hs.parse_left ≠ 0) :
    s.pcb.written.length < (tagStep tcp readings page s).pcb.written.length ∨
      Idle s₀ (tagStep tcp readings page s) ∧
        (tagStep tcp readings page s).hs.file = s.hs.file := by
  obtain ⟨hpcb, hslen, herr, hsending⟩ := hidle
  have hmove : ∀ t : TagScan, t.tag_state ≠ TAG_SENDING →
      Idle s₀ { s with hs := s.hs.move t } ∧ (s.hs.move t).file = s.hs.file :=
    fun t ht => ⟨⟨hpcb, hslen, herr, fun hs => absurd hs ht⟩, rfl⟩
  have hp : s.hs.parsed < page.length := by
    have := h.parse_left_eq
    omega
  rw [← hpcb] at hready hbuf
  rw [← hslen] at hlen hbuf
  rw [tagStep]
  dsimp only
  split
  · rename_i hstate
    exact Or.inr (hmove _ (by rw [scanNone]; split_ifs <;> simp [hstate]))
  · rename_i hstate
    split_ifs
    · exact Or.inr ⟨⟨hpcb, hslen, herr, fun hs => absurd hs (by simp)⟩, rfl⟩
    · exact Or.inr (hmove _ (by rw [scanLeadIn]; split_ifs <;> simp [hstate]))
  · rename_i hstate
    exact Or.inr (hmove _ (by rw [scanFound]; split_ifs <;> simp [hstate]))
  · split_ifs with hdone
    · rw [completeTag]
      dsimp only
      split_ifs with hend
      · left
        have hend' : s.hs.file < s.hs.parsed + 1 := hend
        refine sendFile_ready tcp (s := { s with
          hs := (s.hs.move (scanLeadOut s.hs.scan (page.getD s.hs.parsed 0))).replaceTag readings })
          hready ?_ ?_ ?_
        · show 0 < min s.len (s.hs.parsed + 1 - s.hs.file)
          omega
        · exact (min_le_left _ _).trans hbuf
        · show s.hs.file < page.length
          omega
      · right
        exact ⟨⟨hpcb, hslen, herr, fun _ => Nat.le_of_not_lt hend⟩, rfl⟩
    · exact Or.inr (hmove _ hdone)
  · rename_i hstate
    have hfile := hsending hstate
    have hend := (h.sending hstate).1
    rw [sendTag]
    dsimp only
    rw [if_neg (by omega)]
    split_ifs with hindex
    · left
      have hinside := scanned_len_le readings (page.take s.hs.parsed)
      rw [← h.ssi_eq] at hinside
      exact sendInsert_ready tcp hready (by omega) ((min_le_left _ _).trans hbuf) (by omega)
    · exact Or.inr ⟨⟨hpcb, hslen, herr, fun hs => absurd hs (by simp)⟩, rfl⟩

/-- The loop either sends something or scans the whole page. -/
theorem tagLoop_idle {s₀ s : Sending σ} (h : s.Good readings page start) (hidle : Idle s₀ s)
    (hready : Ready tcp s₀.pcb.state) (hlen : 0 < s₀.len)
    (hbuf : s₀.len ≤ tcp.tcp_sndbuf s₀.pcb.state) :
    s₀.pcb.written.length < (tagLoop tcp readings page s).1.pcb.written.length ∨
      (tagLoop tcp readings page s).2 = false ∧ Idle s₀ (tagLoop tcp readings page s).1 ∧
        (tagLoop tcp readings page s).1.hs.parse_left = 0 ∧
        (tagLoop tcp readings page s).1.hs.file = s.hs.file := by
  induction s using tagLoop.induct tcp readings page with
  | case1 s hcond hzero =>
    exact absurd hzero (by rw [hidle.len_eq]; omega)
  | case2 s hcond hzero ih =>
    rw [tagLoop, if_pos hcond, if_neg hzero]
    obtain hgrown | ⟨hidle', hfile⟩ := tagStep_idle tcp h hidle hready hlen hbuf hcond.1
    · left
      rw [← hidle.pcb_eq]
      exact hgrown.trans_le (tagLoop_written tcp _).length_le
    · rw [← hfile]
      exact ih (h.tagStep tcp hcond.1) hidle'
  | case3 s hcond =>
    rw [tagLoop, if_neg hcond]
    right
    have hparse : s.hs.parse_left = 0 := by
      by_contra hne
      exact hcond ⟨hne, hidle.err_eq⟩
    exact ⟨rfl, hidle, hparse, rfl⟩

/-- A call that finds room sends something or closes the connection. -/
theorem scanAndSend_ready {s : Sending σ} (h : s.Good readings page start)
    (hready : Ready tcp s.pcb.state) (hlen : s.len = tcp.tcp_sndbuf s.pcb.state)
    (herr : s.err = ERR_OK) (hleft : s.hs.left ≠ 0) (hparsed : s.hs.parsed ≤ s.hs.file) :
    s.pcb.written.length < (scanAndSend tcp readings page s).pcb.written.length := by
  have hbuf := hready.sndbuf_pos
  have hidle : Idle s s := ⟨rfl, rfl, herr, fun _ => hparsed⟩
  have hloop := tagLoop_idle tcp h hidle hready (by omega) hlen.le
  have hgood := h.tagLoop tcp
  have hfile := h.left_eq
  rw [scanAndSend]
  generalize tagLoop tcp readings page s = result at hloop hgood
  obtain ⟨s', returned⟩ := result
  dsimp only at hloop hgood ⊢
  obtain hgrown | ⟨rfl, hidle, hparse, hsame⟩ := hloop
  · split_ifs
    · exact hgrown
    · rw [finish_pcb]
      exact hgrown.trans_le (sendFile_written tcp s' _).length_le
    · rw [finish_pcb]
      exact hgrown
  · have hall := hgood.parse_left_eq
    have hle := hgood.parsed_le
    have hmore : s'.hs.file < s'.hs.parsed := by omega
    have hnot : s'.hs.scan.tag_state ≠ TAG_SENDING := by
      intro hstate
      have := hidle.sending hstate
      omega
    rw [if_neg (by simp), if_pos ⟨hnot, hmore⟩, finish_pcb, ← hidle.pcb_eq]
    rw [← hidle.pcb_eq] at hready
    obtain ⟨hpos, hroom⟩ := sendable_ready tcp hready (Nat.sub_pos_of_lt hmore)
    exact sendFile_ready tcp hready hpos hroom (by omega)

/-- A call with something left that finds room sends something. -/
theorem http_send_data_ready {pcb : tcp_pcb σ} {hs : send_state}
    (h : Books readings page start tag_check hs pcb.written) (hready : Ready tcp pcb.state)
    (hleft : hs.left ≠ 0) :
    pcb.written.length < (http_send_data tcp readings page pcb hs).pcb.written.length := by
  rw [http_send_data, if_neg hleft]
  cases tag_check with
  | true =>
    have hgood : Sending.Good readings page start
        ⟨hs, pcb, tcp.tcp_sndbuf pcb.state, ERR_OK, false⟩ := h
    have hfile := hgood.left_eq
    rw [if_neg (by simp [Good.tag_check_eq h]), sendTagged]
    split_ifs with hparsed
    · obtain ⟨hpos, hroom⟩ := sendable_ready tcp hready (Nat.sub_pos_of_lt hparsed)
      have hmore : hs.file < page.length := by
        dsimp only at hfile
        omega
      have hgrown := sendFile_ready tcp (s := ⟨hs, pcb, tcp.tcp_sndbuf pcb.state, ERR_OK, false⟩)
        hready hpos hroom hmore
      dsimp only
      split_ifs
      · exact hgrown
      · exact hgrown.trans_le (scanAndSend_written tcp _).length_le
    · exact scanAndSend_ready tcp hgood hready rfl rfl hleft (Nat.le_of_not_lt hparsed)
  | false =>
    have hplain : Plain page start hs pcb.written := h
    have hfile := hplain.left_eq
    obtain ⟨hpos, hroom⟩ := sendable_ready tcp hready (Nat.pos_of_ne_zero hleft)
    rw [if_pos (by simp [hplain.tag_check_eq]), finish_pcb]
    exact sendFile_ready tcp (s := ⟨hs, pcb, 0, ERR_OK, false⟩) hready hpos hroom
      (by dsimp only; omega)

/-- Events that are not steps of TCP itself. -/
def calls : List (Event σ) → ℕ
  | [] => 0
  | .http_recv :: es => 1 + calls es
  | .http_sent :: es => 1 + calls es
  | .http_poll :: es => 1 + calls es
  | .tcp _ :: es => calls es

/-- An event is a step of TCP itself or comes when TCP has room. -/
def RoomFor (c : Connection σ) : Event σ → Prop
  | .tcp _ => True
  | _ => Ready tcp c.pcb.state

theorem call_grows {c : Connection σ} (h : c.Books readings page start tag_check)
    (hready : Ready tcp c.pcb.state) (hopen : (call tcp readings page c).ended = none) :
    c.pcb.written.length < (call tcp readings page c).pcb.written.length := by
  refine http_send_data_ready tcp h.1 hready fun hleft => ?_
  simp [call, http_send_data, hleft] at hopen

/-- While a connection stays open every call that finds room writes a byte. -/
theorem calls_le {es : List (Event σ)} {c c' : Connection σ}
    (h : c.Books readings page start tag_check)
    (hroom : TransitionRuns.Guarded (RoomFor tcp) (step tcp readings page) c es)
    (hrun : TransitionRuns.run (step tcp readings page) c es = some c') (hopen : c'.ended = none) :
    c.pcb.written.length + calls es ≤ c'.pcb.written.length := by
  induction es generalizing c with
  | nil =>
    cases hrun
    exact le_rfl
  | cons e es ih =>
    obtain ⟨d, hstep, hrest⟩ := TransitionRuns.run_cons.mp hrun
    obtain ⟨hready, hroom⟩ := (TransitionRuns.guarded_cons hstep).mp hroom
    have hih := ih (step_books tcp h hstep) hroom hrest
    have hended : d.ended = none := by
      cases es with
      | nil =>
        cases hrest
        exact hopen
      | cons e' es =>
        obtain ⟨d', hstep', _⟩ := TransitionRuns.run_cons.mp hrest
        by_contra hne
        simp [step, hne] at hstep'
    unfold step at hstep
    split_ifs at hstep
    cases e with
    | http_recv =>
      cases hstep
      have := call_grows tcp h hready hended
      rw [calls]
      omega
    | http_sent =>
      cases hstep
      have := call_grows tcp (c := { c with retries := 0 }) h hready hended
      rw [calls]
      dsimp only at this
      omega
    | http_poll =>
      dsimp only at hstep
      split_ifs at hstep with hretries
      · cases hstep
        cases hended
      · cases hstep
        have := call_grows tcp (c := { c with retries := c.retries + 1 }) h hready hended
        rw [calls]
        dsimp only at this
        omega
    | tcp state =>
      cases hstep
      exact hih

/-- If TCP has room at every call, a connection that is still open has had no
more calls than its content has bytes. -/
theorem calls_le_content (tcp : Tcp σ) (readings : ℕ → Readings) (page : List ℕ)
    (tag_check is_09 : Bool) (state : σ) (es : List (Event σ)) (c : Connection σ)
    (hrun : TransitionRuns.run (step tcp readings page)
      (Connection.open tag_check is_09 page state) es = some c)
    (hroom : TransitionRuns.Guarded (RoomFor tcp) (step tcp readings page)
      (Connection.open tag_check is_09 page state) es)
    (hopen : c.ended = none) :
    calls es ≤ (content readings tag_check is_09 page).length := by
  have hfirst := Connection.open_books readings page tag_check is_09 state
  have hlast : c.Books readings page (bodyStart is_09 page) tag_check :=
    TransitionRuns.run_invariant (fun _ _ _ => step_books tcp) hfirst hrun
  have hcalls := calls_le tcp hfirst hroom hrun hopen
  have hwritten := hlast.written_prefix.length_le
  omega

theorem sparing_ready (st : Unit) : Ready sparing st :=
  ⟨Nat.one_pos, Nat.succ_pos 1459, fun _ _ _ => rfl⟩

/-- After two calls for a page with a tag the connection is still open. -/
theorem calls_le_content_tagged :
    ∃ c, TransitionRuns.run (step sparing (fun _ => midnight) taggedPage)
        (Connection.open true false taggedPage ()) [.http_recv, .http_sent] = some c ∧
      c.ended = none ∧ calls ([.http_recv, .http_sent] : List (Event Unit)) ≤
        (content (fun _ => midnight) true false taggedPage).length := by
  have hopen : (TransitionRuns.run (step sparing (fun _ => midnight) taggedPage)
      (Connection.open true false taggedPage ()) [.http_recv, .http_sent]).any
        (fun c => c.ended = none) = true := by
    delta step call http_send_data sendTagged scanAndSend
    rw [tagLoop_eq_within 100]
    decide +kernel
  obtain ⟨c, hrun, hc⟩ := (Option.any_eq_true _ _).mp hopen
  have hended : c.ended = none := of_decide_eq_true hc
  have hroom : TransitionRuns.Guarded (RoomFor sparing)
      (step sparing (fun _ => midnight) taggedPage)
      (Connection.open true false taggedPage ()) [.http_recv, .http_sent] :=
    fun _ _ => ⟨sparing_ready _, fun _ _ => ⟨sparing_ready _, trivial⟩⟩
  exact ⟨c, hrun, hended, calls_le_content sparing (fun _ => midnight) taggedPage true false () _ c
    hrun hroom hended⟩

end SmartHome.PageSending
