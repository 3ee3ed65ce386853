import SmartHome.Insertions
import SmartHome.SsiTags

/-!
# Tags of a page

The web server scans the bytes of a page for tags of the form
`<!--# t -->` with a name of one character, blanks around it being allowed,
and inserts the text of the tag's handler behind the tag. The scanner is a
state machine over single bytes; it does not look back when a lead-in turns
out not to be one.
-/

namespace SmartHome.PageTags

open Insertions SsiTags

def g_pcTagLeadIn : List ℕ := chars "<!--#"
def g_pcTagLeadOut : List ℕ := chars "-->"
abbrev LEN_TAG_LEAD_IN : ℕ := 5
abbrev LEN_TAG_LEAD_OUT : ℕ := 3
abbrev LWIP_HTTPD_MAX_TAG_NAME_LEN : ℕ := 1

theorem g_pcTagLeadIn_eq : g_pcTagLeadIn = [0x3C, 0x21, 0x2D, 0x2D, 0x23] := by decide

theorem g_pcTagLeadOut_eq : g_pcTagLeadOut = [0x2D, 0x2D, 0x3E] := by decide

/-- What the scanner is looking for. -/
inductive tag_check_state
  | TAG_NONE
  | TAG_LEADIN
  | TAG_FOUND
  | TAG_LEADOUT
  | TAG_SENDING
  deriving DecidableEq

open tag_check_state

/-- The scanner's part of a connection state. -/
structure TagScan where
  tag_state : tag_check_state
  tag_index : ℕ
  /-- The buffer of the name, with room for a terminator. -/
  tag_name : Vector ℕ (LWIP_HTTPD_MAX_TAG_NAME_LEN + 1)
  deriving DecidableEq

/-- Space, tabulator, line feed and carriage return. -/
def blank (c : ℕ) : Prop := c = 0x20 ∨ c = 0x09 ∨ c = 0x0A ∨ c = 0x0D

instance : DecidablePred blank := fun _ => inferInstanceAs (Decidable (_ ∨ _))

/-- One byte while no tag is being read. -/
def scanNone (t : TagScan) (c : ℕ) : TagScan :=
  if g_pcTagLeadIn[0]? = some c then { t with tag_state := TAG_LEADIN, tag_index := 1 } else t

/-- One byte of a lead-in that is not complete. -/
def scanLeadIn (t : TagScan) (c : ℕ) : TagScan :=
  if g_pcTagLeadIn[t.tag_index]? = some c then { t with tag_index := t.tag_index + 1 }
  else { t with tag_state := TAG_NONE }

/-- One byte of the name or of the blanks around it. -/
def scanFound (t : TagScan) (c : ℕ) : TagScan :=
  if t.tag_index = 0 ∧ blank c then t
  else if g_pcTagLeadOut[0]? = some c ∨ blank c then
    if t.tag_index = 0 then { t with tag_state := TAG_NONE }
    else
      { tag_state := TAG_LEADOUT,
        tag_name := t.tag_name.setIfInBounds t.tag_index 0,
        tag_index := if g_pcTagLeadOut[0]? = some c then 1 else 0 }
  else if t.tag_index < LWIP_HTTPD_MAX_TAG_NAME_LEN then
    { t with tag_name := t.tag_name.setIfInBounds t.tag_index c, tag_index := t.tag_index + 1 }
  else { t with tag_state := TAG_NONE }

/-- One byte of the lead-out or of the blanks before it. -/
def scanLeadOut (t : TagScan) (c : ℕ) : TagScan :=
  if t.tag_index = 0 ∧ blank c then t
  else if g_pcTagLeadOut[t.tag_index]? = some c then
    if t.tag_index = LEN_TAG_LEAD_OUT - 1 then { t with tag_index := 0, tag_state := TAG_SENDING }
    else { t with tag_index := t.tag_index + 1 }
  else { t with tag_state := TAG_NONE }

/-- A byte before the name. -/
theorem scanFound_zero (nm : Vector ℕ 2) (c : ℕ) :
    scanFound ⟨TAG_FOUND, 0, nm⟩ c =
      if blank c then ⟨TAG_FOUND, 0, nm⟩
      else if c = 0x2D then ⟨TAG_NONE, 0, nm⟩ else ⟨TAG_FOUND, 1, nm.setIfInBounds 0 c⟩ := by
  by_cases hblank : blank c
  · simp [scanFound, hblank]
  · by_cases hdash : c = 0x2D <;> simp [scanFound, g_pcTagLeadOut_eq, hblank, hdash, eq_comm]

/-- A byte after the name. -/
theorem scanFound_one (nm : Vector ℕ 2) (c : ℕ) :
    scanFound ⟨TAG_FOUND, 1, nm⟩ c =
      if c = 0x2D then ⟨TAG_LEADOUT, 1, nm.setIfInBounds 1 0⟩
      else if blank c then ⟨TAG_LEADOUT, 0, nm.setIfInBounds 1 0⟩ else ⟨TAG_NONE, 1, nm⟩ := by
  by_cases hdash : c = 0x2D
  · simp [scanFound, g_pcTagLeadOut_eq, hdash]
  · by_cases hblank : blank c <;>
      simp [scanFound, g_pcTagLeadOut_eq, hblank, hdash, eq_comm]

/-- The state from which the next byte is read. -/
def TagScan.settle (t : TagScan) : TagScan :=
  match t.tag_state with
  | TAG_LEADIN =>
    if t.tag_index = LEN_TAG_LEAD_IN then { t with tag_index := 0, tag_state := TAG_FOUND } else t
  | TAG_SENDING => { t with tag_index := 0, tag_state := TAG_NONE }
  | _ => t

/-- One byte in a settled state. -/
def scanByte (t : TagScan) (c : ℕ) : TagScan :=
  match t.tag_state with
  | TAG_NONE => scanNone t c
  | TAG_LEADIN => scanLeadIn t c
  | TAG_FOUND => scanFound t c
  | TAG_LEADOUT => scanLeadOut t c
  | TAG_SENDING => t

/-- The C string in a buffer. -/
def cString {n : ℕ} (buffer : Vector ℕ n) : String :=
  String.ofList ((buffer.toList.takeWhile (· ≠ 0)).map Char.ofNat)

/-- The scanner, the insert buffer and how many tags have been replaced. -/
structure PageScan where
  scan : TagScan
  ssi : tag_state
  tags : ℕ

/-- The state in which a page is opened. -/
def PageScan.start : PageScan where
  scan := ⟨TAG_NONE, 0, Vector.replicate _ 0⟩
  ssi := tag_state_alloc
  tags := 0

/-- One byte of the page and what is inserted behind it. The readings are
those at the time of the tag. -/
def feed (readings : ℕ → Readings) (p : PageScan) (c : ℕ) : PageScan × List ℕ :=
  let t := scanByte p.scan.settle c
  if t.tag_state = TAG_SENDING then
    let ssi := get_tag_insert (readings p.tags) { p.ssi with tag_name := cString t.tag_name }
    (⟨t, ssi, p.tags + 1⟩, ssi.inserted)
  else (⟨t, p.ssi, p.tags⟩, [])

/-- What a client gets of a page whose first `n` bytes are left out. -/
def expansion (readings : ℕ → Readings) (n : ℕ) (page : List ℕ) : List ℕ :=
  expand (feed readings) PageScan.start n page

/-- A tag as it can stand on a page. -/
structure Tag where
  pre : List ℕ
  name : ℕ
  post : List ℕ
  pre_blank : ∀ c ∈ pre, blank c
  post_blank : ∀ c ∈ post, blank c
  name_not_blank : ¬blank name
  name_ne_dash : name ≠ 0x2D

/-- The bytes of a tag. -/
def Tag.bytes (g : Tag) : List ℕ :=
  g_pcTagLeadIn ++ g.pre ++ [g.name] ++ g.post ++ g_pcTagLeadOut

/-- The name of a tag as the server reads it. -/
def Tag.key (g : Tag) : String := cString #v[g.name, 0]

/-- No tag is being read. -/
def PageScan.Idle (p : PageScan) : Prop := p.scan.settle.tag_state = TAG_NONE

variable (readings : ℕ → Readings)

/-- The state after a tag and its insert. -/
def PageScan.replaced (p : PageScan) (g : Tag) : PageScan where
  scan := ⟨TAG_SENDING, 0, #v[g.name, 0]⟩
  ssi := get_tag_insert (readings p.tags) { p.ssi with tag_name := g.key }
  tags := p.tags + 1

/-- Settling keeps the name. -/
@[simp] theorem settle_tag_name (t : TagScan) : t.settle.tag_name = t.tag_name := by
  rw [TagScan.settle]
  split
  · split_ifs <;> rfl
  · rfl
  · rfl

/-- A byte that completes no tag changes the scanner only. -/
theorem feed_of_not_sending {p : PageScan} {c : ℕ}
    (h : (scanByte p.scan.settle c).tag_state ≠ TAG_SENDING) :
    feed readings p c = ({ p with scan := scanByte p.scan.settle c }, []) := by
  rw [feed, if_neg h]

/-- A byte that completes no tag is read without an insertion. -/
theorem passes_byte {t u : TagScan} {ssi : tag_state} {tags c : ℕ} {text : List ℕ}
    {q : PageScan} (hbyte : scanByte t.settle c = u) (hu : u.tag_state ≠ TAG_SENDING)
    (hq : Passes (feed readings) ⟨u, ssi, tags⟩ text q) :
    Passes (feed readings) ⟨t, ssi, tags⟩ (c :: text) q := by
  subst hbyte
  exact Passes.cons _ (feed_of_not_sending readings hu) hq

/-- Text without the first byte of a lead-in leaves the scanner idle. -/
theorem passes_text {p : PageScan} (h : p.Idle) {text : List ℕ} (htext : 0x3C ∉ text) :
    ∃ t : TagScan, Passes (feed readings) p text { p with scan := t } ∧
      t.settle.tag_state = TAG_NONE := by
  obtain ⟨t, ssi, tags⟩ := p
  induction text generalizing t with
  | nil => exact ⟨t, Passes.nil _ _, h⟩
  | cons c text ih =>
    have hnone : t.settle.tag_state = TAG_NONE := h
    have hc : g_pcTagLeadIn[0]? ≠ some c := by
      rw [g_pcTagLeadIn_eq]
      intro hhead
      have : c = 0x3C := by simpa using hhead.symm
      exact htext (by simp [this])
    have hbyte : scanByte t.settle c = t.settle := by
      rw [scanByte, hnone]
      exact if_neg hc
    have hidle : t.settle.settle.tag_state = TAG_NONE := by
      rw [TagScan.settle, hnone]
      exact hnone
    obtain ⟨u, hu, huidle⟩ := ih (fun hmem => htext (List.mem_cons_of_mem c hmem)) t.settle hidle
    have hnot : t.settle.tag_state ≠ TAG_SENDING := by rw [hnone]; decide
    exact ⟨u, passes_byte readings hbyte hnot hu, huidle⟩

/-- The lead-in is read from every idle state. -/
theorem passes_leadIn {t : TagScan} (h : t.settle.tag_state = TAG_NONE)
    (ssi : tag_state) (tags : ℕ) :
    Passes (feed readings) ⟨t, ssi, tags⟩ g_pcTagLeadIn
      ⟨⟨TAG_LEADIN, LEN_TAG_LEAD_IN, t.tag_name⟩, ssi, tags⟩ := by
  have hfirst : scanByte t.settle 0x3C = ⟨TAG_LEADIN, 1, t.tag_name⟩ := by
    rw [scanByte, h]
    simp only [scanNone, g_pcTagLeadIn_eq, List.getElem?_cons_zero, if_true, settle_tag_name]
  rw [g_pcTagLeadIn_eq]
  refine passes_byte readings hfirst (by simp) ?_
  refine passes_byte readings (u := ⟨TAG_LEADIN, 2, t.tag_name⟩) ?_ (by simp) ?_
  · rfl
  refine passes_byte readings (u := ⟨TAG_LEADIN, 3, t.tag_name⟩) ?_ (by simp) ?_
  · rfl
  refine passes_byte readings (u := ⟨TAG_LEADIN, 4, t.tag_name⟩) ?_ (by simp) ?_
  · rfl
  refine passes_byte readings (u := ⟨TAG_LEADIN, 5, t.tag_name⟩) ?_ (by simp) ?_
  · rfl
  exact Passes.nil _ _

/-- Blanks before the name are skipped. -/
theorem passes_pre {t : TagScan} {nm : Vector ℕ 2} (h : t.settle = ⟨TAG_FOUND, 0, nm⟩)
    {pre : List ℕ} (hpre : ∀ c ∈ pre, blank c) (ssi : tag_state) (tags : ℕ) :
    ∃ u : TagScan, Passes (feed readings) ⟨t, ssi, tags⟩ pre ⟨u, ssi, tags⟩ ∧
      u.settle = ⟨TAG_FOUND, 0, nm⟩ := by
  induction pre generalizing t with
  | nil => exact ⟨t, Passes.nil _ _, h⟩
  | cons c pre ih =>
    have hc : blank c := hpre c List.mem_cons_self
    have hbyte : scanByte t.settle c = ⟨TAG_FOUND, 0, nm⟩ := by
      rw [h, scanByte, scanFound]
      exact if_pos ⟨rfl, hc⟩
    obtain ⟨u, hu, hsettle⟩ :=
      ih (t := ⟨TAG_FOUND, 0, nm⟩) rfl (fun d hd => hpre d (List.mem_cons_of_mem c hd))
    exact ⟨u, passes_byte readings hbyte (by simp) hu, hsettle⟩

/-- A name of one byte with its terminator. -/
theorem set_name (nm : Vector ℕ 2) (d : ℕ) :
    (nm.setIfInBounds 0 d).setIfInBounds 1 0 = #v[d, 0] := by
  ext i hi
  obtain rfl | rfl : i = 0 ∨ i = 1 := by omega
  · simp
  · simp

/-- After the name the scanner waits for the lead-out. -/
inductive Named (d : ℕ) : TagScan → Prop
  | name (nm : Vector ℕ 2) : Named d ⟨TAG_FOUND, 1, nm.setIfInBounds 0 d⟩
  | blank : Named d ⟨TAG_LEADOUT, 0, #v[d, 0]⟩

/-- Blanks after the name are skipped. -/
theorem passes_post {d : ℕ} {t : TagScan} (h : Named d t) {post : List ℕ}
    (hpost : ∀ c ∈ post, blank c) (ssi : tag_state) (tags : ℕ) :
    ∃ u : TagScan, Passes (feed readings) ⟨t, ssi, tags⟩ post ⟨u, ssi, tags⟩ ∧ Named d u := by
  induction post generalizing t with
  | nil => exact ⟨t, Passes.nil _ _, h⟩
  | cons c post ih =>
    have hc : blank c := hpost c List.mem_cons_self
    have hdash : ¬g_pcTagLeadOut[0]? = some c := by
      rw [g_pcTagLeadOut_eq]
      rintro hdash
      obtain rfl : 0x2D = c := by simpa using hdash
      exact absurd hc (by decide)
    have hbyte : scanByte t.settle c = ⟨TAG_LEADOUT, 0, #v[d, 0]⟩ := by
      cases h with
      | name nm =>
        simp [TagScan.settle, scanByte, scanFound, hc, hdash, set_name]
      | blank =>
        simp only [TagScan.settle, scanByte, scanLeadOut]
        exact if_pos ⟨trivial, hc⟩
    obtain ⟨u, hu, hnamed⟩ :=
      ih (Named.blank (d := d)) (fun x hx => hpost x (List.mem_cons_of_mem c hx))
    exact ⟨u, passes_byte readings hbyte (by simp) hu, hnamed⟩

/-- The bytes of a tag up to its last. -/
def Tag.open (g : Tag) : List ℕ := g_pcTagLeadIn ++ g.pre ++ [g.name] ++ g.post ++ [0x2D, 0x2D]

theorem Tag.bytes_concat (g : Tag) : g.bytes = g.open ++ [0x3E] := by
  rw [Tag.bytes, Tag.open, g_pcTagLeadOut_eq]
  simp only [List.append_assoc, List.cons_append, List.nil_append]

/-- A tag is read up to its last byte from every idle state. -/
theorem passes_tag {t : TagScan} (h : t.settle.tag_state = TAG_NONE) (g : Tag)
    (ssi : tag_state) (tags : ℕ) :
    Passes (feed readings) ⟨t, ssi, tags⟩ g.open ⟨⟨TAG_LEADOUT, 2, #v[g.name, 0]⟩, ssi, tags⟩ := by
  obtain ⟨u, hpre, hu⟩ := passes_pre readings (t := ⟨TAG_LEADIN, LEN_TAG_LEAD_IN, t.tag_name⟩) rfl
    g.pre_blank ssi tags
  have hname : scanByte u.settle g.name =
      ⟨TAG_FOUND, 1, t.tag_name.setIfInBounds 0 g.name⟩ := by
    have hdash : ¬g_pcTagLeadOut[0]? = some g.name := by
      rw [g_pcTagLeadOut_eq]
      intro hdash
      exact g.name_ne_dash (by simpa using hdash.symm)
    rw [hu]
    simp [scanByte, scanFound, g.name_not_blank, hdash]
  obtain ⟨v, hpost, hnamed⟩ := passes_post readings (Named.name t.tag_name (d := g.name))
    g.post_blank ssi tags
  have hdash : scanByte v.settle 0x2D = ⟨TAG_LEADOUT, 1, #v[g.name, 0]⟩ := by
    cases hnamed with
    | name nm => simp [TagScan.settle, scanByte, scanFound, g_pcTagLeadOut_eq, blank, set_name]
    | blank => simp [TagScan.settle, scanByte, scanLeadOut, g_pcTagLeadOut_eq, blank]
  have hout : Passes (feed readings) ⟨v, ssi, tags⟩ [0x2D, 0x2D]
      ⟨⟨TAG_LEADOUT, 2, #v[g.name, 0]⟩, ssi, tags⟩ := by
    refine passes_byte readings hdash (by simp) ?_
    exact passes_byte readings (u := ⟨TAG_LEADOUT, 2, #v[g.name, 0]⟩) rfl (by simp)
      (Passes.nil _ _)
  have hbefore := (passes_leadIn readings h ssi tags).append _ hpre
  have hnamed := hbefore.append _ (passes_byte readings hname (by simp) (Passes.nil _ _))
  exact (hnamed.append _ hpost).append _ hout

/-- A tag is read from every idle state; its insert follows its last byte. -/
theorem tag_read {t : TagScan} (h : t.settle.tag_state = TAG_NONE) (g : Tag)
    (ssi : tag_state) (tags : ℕ) :
    after (feed readings) ⟨t, ssi, tags⟩ g.bytes = PageScan.replaced readings ⟨t, ssi, tags⟩ g ∧
      emit (feed readings) ⟨t, ssi, tags⟩ 0 g.bytes =
        g.bytes ++ (PageScan.replaced readings ⟨t, ssi, tags⟩ g).ssi.inserted := by
  have hopen := passes_tag readings h g ssi tags
  have hlast : feed readings ⟨⟨TAG_LEADOUT, 2, #v[g.name, 0]⟩, ssi, tags⟩ 0x3E =
      (PageScan.replaced readings ⟨t, ssi, tags⟩ g,
        (PageScan.replaced readings ⟨t, ssi, tags⟩ g).ssi.inserted) := rfl
  rw [g.bytes_concat, after_concat, hopen.1, hopen.emit_concat, hlast]
  exact ⟨rfl, rfl⟩

/-- A page is made of plain text and tags. -/
inductive Piece
  | text (bytes : List ℕ) (no_lead_in : 0x3C ∉ bytes)
  | tag (g : Tag)

/-- The bytes of a piece. -/
def Piece.bytes : Piece → List ℕ
  | text bytes _ => bytes
  | tag g => g.bytes

/-- The bytes of a page. -/
def pageBytes (doc : List Piece) : List ℕ := doc.flatMap Piece.bytes

/-- The names of the tags of a page. -/
def keys : List Piece → List String
  | [] => []
  | .text _ _ :: doc => keys doc
  | .tag g :: doc => g.key :: keys doc

/-- The inserts for the names, one after another in the same buffer. -/
def insertsFor (ssi : tag_state) (tags : ℕ) : List String → List (List ℕ)
  | [] => []
  | key :: rest =>
    let ssi := get_tag_insert (readings tags) { ssi with tag_name := key }
    ssi.inserted :: insertsFor ssi (tags + 1) rest

/-- The page with an insert behind every tag. -/
def weave : List Piece → List (List ℕ) → List ℕ
  | [], _ => []
  | .text bytes _ :: doc, inserts => bytes ++ weave doc inserts
  | .tag g :: doc, [] => g.bytes ++ weave doc []
  | .tag g :: doc, insert :: inserts => g.bytes ++ insert ++ weave doc inserts

/-- A page made of pieces is read piece by piece. -/
theorem page_read {p : PageScan} (h : p.Idle) (doc : List Piece) :
    (after (feed readings) p (pageBytes doc)).Idle ∧
      emit (feed readings) p 0 (pageBytes doc) =
        weave doc (insertsFor readings p.ssi p.tags (keys doc)) := by
  induction doc generalizing p with
  | nil => exact ⟨h, rfl⟩
  | cons piece doc ih =>
    rw [pageBytes, List.flatMap_cons, after_append, emit_append, Nat.zero_sub]
    cases piece with
    | text bytes no_lead_in =>
      obtain ⟨t, hpass, hidle⟩ := passes_text readings h no_lead_in
      rw [Piece.bytes, hpass.1, hpass.2]
      obtain ⟨hrest, hemit⟩ := ih (p := { p with scan := t }) hidle
      exact ⟨hrest, congrArg (bytes ++ ·) hemit⟩
    | tag g =>
      obtain ⟨hafter, hbytes⟩ := tag_read readings h g p.ssi p.tags
      rw [Piece.bytes, hafter, hbytes]
      obtain ⟨hrest, hemit⟩ := ih (p := PageScan.replaced readings p g) rfl
      exact ⟨hrest, congrArg (g.bytes ++ (p.replaced readings g).ssi.inserted ++ ·) hemit⟩

/-- The last piece of a page is followed by nothing, even if it is a tag. -/
theorem expand_piece {p : PageScan} (h : p.Idle) (last : Piece) :
    expand (feed readings) p 0 last.bytes = last.bytes := by
  obtain ⟨t, ssi, tags⟩ := p
  cases last with
  | text bytes no_lead_in =>
    obtain rfl | ⟨xs, b, rfl⟩ := List.eq_nil_or_concat' bytes
    · rfl
    · obtain ⟨u, hpass, _⟩ := passes_text readings h
        (show 0x3C ∉ xs from fun hmem => no_lead_in (List.mem_append_left _ hmem))
      exact hpass.expand_concat _ b
  | tag g =>
    have hpass := passes_tag readings h g ssi tags
    rw [Piece.bytes, g.bytes_concat]
    exact hpass.expand_concat _ 0x3E

/-- A page made of plain text and tags is sent with the insert of each tag
behind it; only a tag at the very end of the page has no insert. -/
theorem expansion_document (doc : List Piece) (last : Piece) (hlast : last.bytes ≠ []) :
    expansion readings 0 (pageBytes doc ++ last.bytes) =
      weave doc (insertsFor readings tag_state_alloc 0 (keys doc)) ++ last.bytes := by
  obtain ⟨hidle, hemit⟩ := page_read readings (p := PageScan.start) rfl doc
  rw [expansion, expand_append _ _ _ _ hlast, Nat.zero_sub, expand_piece readings hidle, hemit]
  rfl

/-- The temperature tag without blanks. -/
def temperatureTag : Tag :=
  ⟨[], 0x74, [], by simp, by simp, by decide, by decide⟩

theorem expansion_document_temperature :
    expansion (fun _ => midnight) 0 (pageBytes [.tag temperatureTag] ++ chars " C") =
      weave [.tag temperatureTag]
        (insertsFor (fun _ => midnight) tag_state_alloc 0 [temperatureTag.key]) ++ chars " C" :=
  expansion_document (fun _ => midnight) [.tag temperatureTag] (.text (chars " C") (by decide))
    (by decide)

/-- What the scanner's state says about the bytes it has read. `idle` holds
of the texts after which no tag is being read. -/
inductive Behind (idle : List ℕ → Prop) : TagScan → List ℕ → Prop
  | none {t : TagScan} (text : List ℕ) (h : t.tag_state = TAG_NONE) : Behind idle t text
  | leadIn {head : List ℕ} (hidle : idle head) {i : ℕ} (hi : i ≤ LEN_TAG_LEAD_IN)
      (nm : Vector ℕ 2) : Behind idle ⟨TAG_LEADIN, i, nm⟩ (head ++ g_pcTagLeadIn.take i)
  | pre {head : List ℕ} (hidle : idle head) {pre : List ℕ} (hpre : ∀ c ∈ pre, blank c)
      (nm : Vector ℕ 2) : Behind idle ⟨TAG_FOUND, 0, nm⟩ (head ++ (g_pcTagLeadIn ++ pre))
  | name {head : List ℕ} (hidle : idle head) (g : Tag) (hpost : g.post = []) (nm : Vector ℕ 2) :
      Behind idle ⟨TAG_FOUND, 1, nm.setIfInBounds 0 g.name⟩
        (head ++ (g_pcTagLeadIn ++ g.pre ++ [g.name] ++ g.post))
  | post {head : List ℕ} (hidle : idle head) (g : Tag) {i : ℕ} (hi : i < LEN_TAG_LEAD_OUT) :
      Behind idle ⟨TAG_LEADOUT, i, #v[g.name, 0]⟩
        (head ++ (g_pcTagLeadIn ++ g.pre ++ [g.name] ++ g.post ++ g_pcTagLeadOut.take i))
  | tag {head : List ℕ} (hidle : idle head) (g : Tag) :
      Behind idle ⟨TAG_SENDING, 0, #v[g.name, 0]⟩ (head ++ g.bytes)

/-- A text's next byte, put behind a list. -/
theorem take_concat {xs : List ℕ} {i c : ℕ} (h : xs[i]? = some c) :
    xs.take i ++ [c] = xs.take (i + 1) := by
  obtain ⟨hi, rfl⟩ := List.getElem?_eq_some_iff.mp h
  rw [List.take_succ_eq_append_getElem hi]

variable {idle : List ℕ → Prop}

/-- From an idle state a byte may begin a lead-in. -/
theorem behind_scanNone {t : TagScan} {text : List ℕ} (h : t.tag_state = TAG_NONE)
    (hidle : idle text) (c : ℕ) : Behind idle (scanNone t c) (text ++ [c]) := by
  rw [scanNone]
  split_ifs with hc
  · have htake : g_pcTagLeadIn.take 1 = [c] := (take_concat hc).symm
    rw [← htake]
    exact Behind.leadIn hidle (by decide) t.tag_name
  · exact Behind.none _ h

/-- One byte of a lead-in that is not complete. -/
theorem behind_scanLeadIn {head : List ℕ} (hidle : idle head) (i : ℕ)
    (nm : Vector ℕ 2) (c : ℕ) :
    Behind idle (scanLeadIn ⟨TAG_LEADIN, i, nm⟩ c) (head ++ g_pcTagLeadIn.take i ++ [c]) := by
  rw [scanLeadIn]
  by_cases hc : g_pcTagLeadIn[i]? = some c
  · have hi : i < LEN_TAG_LEAD_IN := (List.getElem?_eq_some_iff.mp hc).1
    rw [if_pos hc, List.append_assoc, take_concat hc]
    exact Behind.leadIn hidle hi nm
  · rw [if_neg hc]
    exact Behind.none _ rfl

/-- The first byte behind the lead-in that is no blank is the name. -/
theorem behind_scanFound_pre {head pre : List ℕ} (hidle : idle head) (hpre : ∀ c ∈ pre, blank c)
    (nm : Vector ℕ 2) (c : ℕ) :
    Behind idle (scanFound ⟨TAG_FOUND, 0, nm⟩ c) (head ++ (g_pcTagLeadIn ++ pre) ++ [c]) := by
  rw [scanFound_zero, List.append_assoc, List.append_assoc]
  split_ifs with hblank hdash
  · refine Behind.pre hidle ?_ nm
    intro d hd
    obtain hd | hd := List.mem_append.mp hd
    · exact hpre d hd
    · rw [List.mem_singleton.mp hd]
      exact hblank
  · exact Behind.none _ rfl
  · have hname := Behind.name hidle ⟨pre, c, [], hpre, by simp, hblank, hdash⟩ rfl nm
    simpa using hname

/-- A name is followed by a blank or by the lead-out. -/
theorem behind_scanFound_name {head : List ℕ} (hidle : idle head) (g : Tag) (hpost : g.post = [])
    (nm : Vector ℕ 2) (c : ℕ) :
    Behind idle (scanFound ⟨TAG_FOUND, 1, nm.setIfInBounds 0 g.name⟩ c)
      (head ++ (g_pcTagLeadIn ++ g.pre ++ [g.name] ++ g.post) ++ [c]) := by
  rw [scanFound_one, set_name, List.append_assoc]
  split_ifs with hdash hblank
  · subst hdash
    exact Behind.post hidle g (i := 1) (by decide)
  · have hg := Behind.post hidle (i := 0)
      ⟨g.pre, g.name, [c], g.pre_blank, by simpa using hblank, g.name_not_blank, g.name_ne_dash⟩
      (by decide)
    simpa [hpost] using hg
  · exact Behind.none _ rfl

/-- A blank before the lead-out, or one byte of the lead-out. -/
theorem behind_scanLeadOut {head : List ℕ} (hidle : idle head) (g : Tag) {i : ℕ}
    (hi : i < LEN_TAG_LEAD_OUT) (c : ℕ) :
    Behind idle (scanLeadOut ⟨TAG_LEADOUT, i, #v[g.name, 0]⟩ c)
      (head ++ (g_pcTagLeadIn ++ g.pre ++ [g.name] ++ g.post ++ g_pcTagLeadOut.take i) ++ [c]) := by
  rw [scanLeadOut, List.append_assoc, List.append_assoc _ _ [c]]
  by_cases hblank : i = 0 ∧ blank c
  · rw [if_pos hblank]
    obtain ⟨rfl, hc⟩ := hblank
    have hg := Behind.post hidle (i := 0)
      ⟨g.pre, g.name, g.post ++ [c], g.pre_blank, ?_, g.name_not_blank, g.name_ne_dash⟩ hi
    · simpa using hg
    · intro d hd
      obtain hd | hd := List.mem_append.mp hd
      · exact g.post_blank d hd
      · rw [List.mem_singleton.mp hd]
        exact hc
  · rw [if_neg hblank]
    by_cases hc : g_pcTagLeadOut[i]? = some c
    · rw [if_pos hc, take_concat hc]
      by_cases hlast : i = LEN_TAG_LEAD_OUT - 1
      · rw [if_pos hlast, hlast]
        exact Behind.tag hidle g
      · have hi' : i + 1 < LEN_TAG_LEAD_OUT := by
          have : i ≠ 2 := hlast
          have : i < 3 := hi
          change i + 1 < 3
          omega
        rw [if_neg hlast]
        exact Behind.post hidle g hi'
    · rw [if_neg hc]
      exact Behind.none _ rfl

/-- Every byte keeps what the state says about the text. -/
theorem behind_scanByte {t : TagScan} {text : List ℕ} (h : Behind idle t text)
    (hidle : t.settle.tag_state = TAG_NONE → idle text) (c : ℕ) :
    Behind idle (scanByte t.settle c) (text ++ [c]) := by
  cases h with
  | none text h =>
    have hsettle : t.settle = t := by rw [TagScan.settle, h]
    rw [hsettle] at hidle ⊢
    rw [scanByte, h]
    exact behind_scanNone h (hidle h) c
  | @leadIn head hhead i hi nm =>
    by_cases hlast : i = LEN_TAG_LEAD_IN
    · subst hlast
      have hpre := behind_scanFound_pre hhead (List.forall_mem_nil blank) nm c
      rwa [List.append_nil] at hpre
    · have hsettle : TagScan.settle ⟨TAG_LEADIN, i, nm⟩ = ⟨TAG_LEADIN, i, nm⟩ := if_neg hlast
      rw [hsettle]
      exact behind_scanLeadIn hhead i nm c
  | pre hhead hpre nm => exact behind_scanFound_pre hhead hpre nm c
  | name hhead g hpost nm => exact behind_scanFound_name hhead g hpost nm c
  | post hhead g hi => exact behind_scanLeadOut hhead g hi c
  | tag hhead g => exact behind_scanNone rfl (hidle rfl) c

/-- The scanner after the first bytes of a page. -/
def scanned (text : List ℕ) : PageScan := after (feed readings) PageScan.start text

/-- The scanner does not depend on what is inserted. -/
theorem feed_scan (p : PageScan) (c : ℕ) :
    (feed readings p c).1.scan = scanByte p.scan.settle c := by
  rw [feed]
  dsimp only
  split_ifs <;> rfl

theorem scanned_behind (text : List ℕ) :
    Behind (fun head => (scanned readings head).Idle) (scanned readings text).scan text := by
  induction text using List.reverseRecOn with
  | nil => exact Behind.none _ rfl
  | append_singleton text c ih =>
    rw [scanned, after_concat, feed_scan]
    exact behind_scanByte ih (fun h => h) c

/-- Something is inserted exactly behind the tags that are met while no other
one is being read, and it is the insert for their name. -/
theorem tag_completed_iff (text : List ℕ) :
    (scanned readings text).scan.tag_state = TAG_SENDING ↔
      ∃ head g, text = head ++ Tag.bytes g ∧ (scanned readings head).Idle ∧
        scanned readings text = (scanned readings head).replaced readings g := by
  have hread : ∀ head g, (scanned readings head).Idle →
      scanned readings (head ++ Tag.bytes g) = (scanned readings head).replaced readings g := by
    intro head g hidle
    rw [scanned, after_append]
    exact (tag_read readings hidle g (scanned readings head).ssi (scanned readings head).tags).1
  constructor
  · intro h
    generalize hscan : (scanned readings text).scan = t at h
    have hbehind := scanned_behind readings text
    rw [hscan] at hbehind
    cases hbehind with
    | none _ hnone => rw [hnone] at h; cases h
    | leadIn | pre | name | post => cases h
    | tag hidle g => exact ⟨_, g, rfl, hidle, hread _ g hidle⟩
  · rintro ⟨head, g, rfl, hidle, hreplaced⟩
    rw [hreplaced]
    rfl

end SmartHome.PageTags
