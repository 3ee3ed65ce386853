import Mathlib.Data.Fintype.Basic
import Mathlib.Data.Rat.Floor
import Mathlib.Tactic.FinCases
import Mathlib.Tactic.Linarith
import SmartHome.ByteStrings
import SmartHome.MachineWords

/-!
# Server-side include tags of the web server

One connection processes the tags of a page one after another into the same
insert buffer, which is zero when the connection state is allocated. The
handlers store their text from the start of the buffer without a terminator,
and the length of the insert is found by scanning for a zero byte.
-/

namespace SmartHome.SsiTags

open MachineWords

/-- The bytes of a literal as numbers. -/
def chars (s : String) : List ℕ := (ByteStrings.bytes s).map UInt8.toNat

/-- The readings a page shows. Voltages are exact and the weekday is the one
computed modulo 7. -/
structure Readings where
  temp : UInt8
  humi : UInt8
  /-- Fire sensor voltage, get_aver_val(5,HZ). -/
  HZ : ℚ
  /-- Gas sensor voltage, get_aver_val(1,MQ). -/
  MQ : ℚ
  /-- Light sensor voltage. -/
  LS1_VAL : ℚ
  hour : UInt8
  min : UInt8
  sec : UInt8
  w_year : UInt16
  w_month : UInt8
  w_date : UInt8
  week : Fin 7
  HZ_range : 0 ≤ HZ ∧ HZ < 10
  MQ_range : 0 ≤ MQ ∧ MQ < 10
  LS1_VAL_range : 0 ≤ LS1_VAL ∧ LS1_VAL < 10

/-- The byte (char)(digit + 0x30). -/
def digit (n : ℕ) : ℕ := uint8_t (uint8_t n + 0x30)

/-- Bytes stored by the temperature handler. -/
def Temperate_Handler (r : Readings) : List ℕ :=
  [digit (r.temp.toNat / 10), digit (r.temp.toNat % 10)]

/-- Bytes stored by the humidity handler. -/
def Humidity_Handler (r : Readings) : List ℕ :=
  [digit (r.humi.toNat / 10), digit (r.humi.toNat % 10)]

/-- Bytes stored by the time handler. -/
def RTCTime_Handler (r : Readings) : List ℕ :=
  [digit (r.hour.toNat / 10), digit (r.hour.toNat % 10), 0x3A,
   digit (r.min.toNat / 10), digit (r.min.toNat % 10), 0x3A,
   digit (r.sec.toNat / 10), digit (r.sec.toNat % 10)]

/-- Bytes stored by the date handler. -/
def RTCdate_Handler (r : Readings) : List ℕ :=
  chars "20" ++ [digit (r.w_year.toNat % 100 / 10), digit (r.w_year.toNat % 10), 0x2D,
   digit (r.w_month.toNat / 10), digit (r.w_month.toNat % 10), 0x2D,
   digit (r.w_date.toNat / 10), digit (r.w_date.toNat % 10)] ++ chars " week:" ++ [digit r.week]

/-- A voltage times 100 as a 16-bit integer. The product is exact here; the
handlers multiply floating-point numbers. -/
def hundredths (v : ℚ) : ℕ := uint16_t ⌊v * 100⌋.toNat

/-- The three digits the sensor handlers compute; 100 itself takes no branch. -/
def sensorDigits (v : ℕ) : ℕ × ℕ × ℕ :=
  if v < 10 then (0, 0, v)
  else if v < 100 then (0, v / 10, v % 10)
  else if v > 100 then (v / 100, v % 100 / 10, v % 10)
  else (0, 0, 0)

/-- Bytes stored by a sensor handler for a reading in hundredths. -/
def sensorText (v : ℕ) : List ℕ :=
  let (Digit1, Digit2, Digit3) := sensorDigits v
  [digit Digit1, 0x2E, digit Digit2, digit Digit3]

/-- Bytes stored by the fire sensor handler. -/
def Fire_Handler (r : Readings) : List ℕ := sensorText (hundredths r.HZ)

/-- Bytes stored by the gas sensor handler. -/
def MQ_Handler (r : Readings) : List ℕ := sensorText (hundredths r.MQ)

/-- Bytes stored by the light sensor handler. -/
def Light_sensor_Handler (r : Readings) : List ℕ := sensorText (hundredths r.LS1_VAL)

/-- Number of tags with a handler. -/
abbrev NUM_CONFIG_SSI_TAGS : ℕ := 7

/-- The tags known to the server, by index. -/
def ppcTAGs : List String := ["t", "h", "f", "m", "l", "s", "y"]

/-- The text the handler of a tag index writes. -/
def handlerText (iIndex : ℕ) (r : Readings) : List ℕ :=
  match iIndex with
  | 0 => Temperate_Handler r
  | 1 => Humidity_Handler r
  | 2 => Fire_Handler r
  | 3 => MQ_Handler r
  | 4 => Light_sensor_Handler r
  | 5 => RTCTime_Handler r
  | 6 => RTCdate_Handler r
  | _ => []

/-- Bytes stored from the start of a buffer. -/
def store (text buffer : List ℕ) : List ℕ := text ++ buffer.drop text.length

/-- Bytes before the first zero byte. -/
def strlen (buffer : List ℕ) : ℕ := (buffer.takeWhile (· ≠ 0)).length

/-- Let the tag's handler write and measure the string in the buffer. -/
def SSIHandler (iIndex : ℕ) (r : Readings) (pcInsert : List ℕ) : List ℕ × ℕ :=
  let pcInsert := store (handlerText iIndex r) pcInsert
  (pcInsert, uint16_t (strlen pcInsert))

def LWIP_HTTPD_MAX_TAG_INSERT_LEN : ℕ := 192

/-- The part of an http_state that tag processing uses. -/
structure tag_state where
  tag_name : String
  tag_insert : List ℕ
  tag_insert_len : ℕ

/-- A zeroed connection state. -/
def tag_state_alloc : tag_state where
  tag_name := ""
  tag_insert := List.replicate (LWIP_HTTPD_MAX_TAG_INSERT_LEN + 1) 0
  tag_insert_len := 0

/-- Marker inserted for a tag without a handler. -/
def unknownTag (tag_name : String) : List ℕ :=
  chars "<b>***UNKNOWN TAG " ++
    (chars tag_name).take (LWIP_HTTPD_MAX_TAG_INSERT_LEN - (18 + 7)) ++ chars "***</b>"

/-- Replace the current tag: the first table entry with its name handles it. -/
def get_tag_insert (r : Readings) (hs : tag_state) : tag_state :=
  match ppcTAGs.findIdx? (hs.tag_name = ·) with
  | some loop =>
    let (tag_insert, len) := SSIHandler loop r hs.tag_insert
    { hs with tag_insert := tag_insert, tag_insert_len := len }
  | none =>
    let tag_insert := store (unknownTag hs.tag_name ++ [0]) hs.tag_insert
    { hs with tag_insert := tag_insert, tag_insert_len := uint16_t (strlen tag_insert) }

/-- Bytes sent to the client for the tag. -/
def tag_state.inserted (hs : tag_state) : List ℕ := hs.tag_insert.take hs.tag_insert_len

/-- A known tag met on a page, with the readings at that time. -/
structure Request where
  tag : Fin NUM_CONFIG_SSI_TAGS
  readings : Readings

/-- The text that belongs in the page for the request. -/
def Request.text (q : Request) : List ℕ := handlerText q.tag q.readings

/-- Connection state after one known tag has been parsed and replaced. -/
def process (hs : tag_state) (q : Request) : tag_state :=
  get_tag_insert q.readings { hs with tag_name := ppcTAGs.get q.tag }

/-- Bytes inserted for each request of a connection, in order. -/
def inserts : tag_state → List Request → List (List ℕ)
  | _, [] => []
  | hs, q :: qs => (process hs q).inserted :: inserts (process hs q) qs

/-- Length of the text of each known tag. -/
def textLength (tag : Fin NUM_CONFIG_SSI_TAGS) : ℕ :=
  [2, 2, 4, 4, 4, 8, 17].get tag

/-- The buffer holds some nonzero bytes followed by zeros. -/
def Holds (hs : tag_state) (used : List ℕ) : Prop :=
  (∀ c ∈ used, c ≠ 0) ∧ ∃ n, hs.tag_insert = used ++ List.replicate n 0

theorem digit_ne_zero {n : ℕ} (h : n < 208) : digit n ≠ 0 := by
  unfold digit
  dsimp only [uint8_t]
  omega

/-- The handler texts have the lengths of their tags. -/
theorem Request.text_length (q : Request) : q.text.length = textLength q.tag := by
  obtain ⟨tag, r⟩ := q
  fin_cases tag <;> rfl

/-- A voltage below 10 is below 1000 hundredths. -/
theorem hundredths_lt {v : ℚ} (h : 0 ≤ v ∧ v < 10) : hundredths v < 1000 := by
  have hfloor : ⌊v * 100⌋ < 1000 := Int.floor_lt.mpr (by push_cast; linarith)
  exact (Nat.mod_le _ _).trans_lt (by omega)

/-- Sensor texts contain no zero byte. -/
theorem sensorText_ne_zero {v : ℕ} (h : v < 1000) : ∀ c ∈ sensorText v, c ≠ 0 := by
  unfold sensorText sensorDigits
  split_ifs
  all_goals
    simp only [List.mem_cons, List.not_mem_nil, or_false, forall_eq_or_imp, forall_eq]
    exact ⟨digit_ne_zero (by omega), by decide, digit_ne_zero (by omega), digit_ne_zero (by omega)⟩

/-- No handler text contains a zero byte. -/
theorem Request.text_ne_zero (q : Request) : ∀ c ∈ q.text, c ≠ 0 := by
  obtain ⟨tag, r⟩ := q
  have htemp := r.temp.toNat_lt
  have hhumi := r.humi.toNat_lt
  have hhour := r.hour.toNat_lt
  have hmin := r.min.toNat_lt
  have hsec := r.sec.toNat_lt
  have hmonth := r.w_month.toNat_lt
  have hdate := r.w_date.toNat_lt
  have hweek := r.week.isLt
  have hchars : ∀ s : String, (chars s).all (· ≠ 0) = true → ∀ c ∈ chars s, c ≠ 0 := by simp
  fin_cases tag
  · show ∀ c ∈ Temperate_Handler r, c ≠ 0
    simp only [Temperate_Handler, List.forall_mem_cons]
    exact ⟨digit_ne_zero (by omega), digit_ne_zero (by omega), by simp⟩
  · show ∀ c ∈ Humidity_Handler r, c ≠ 0
    simp only [Humidity_Handler, List.forall_mem_cons]
    exact ⟨digit_ne_zero (by omega), digit_ne_zero (by omega), by simp⟩
  · exact sensorText_ne_zero (hundredths_lt r.HZ_range)
  · exact sensorText_ne_zero (hundredths_lt r.MQ_range)
  · exact sensorText_ne_zero (hundredths_lt r.LS1_VAL_range)
  · show ∀ c ∈ RTCTime_Handler r, c ≠ 0
    simp only [RTCTime_Handler, List.forall_mem_cons]
    exact ⟨digit_ne_zero (by omega), digit_ne_zero (by omega), by decide, digit_ne_zero (by omega),
      digit_ne_zero (by omega), by decide, digit_ne_zero (by omega), digit_ne_zero (by omega),
      by simp⟩
  · show ∀ c ∈ RTCdate_Handler r, c ≠ 0
    simp only [RTCdate_Handler, List.forall_mem_append, List.forall_mem_cons]
    exact ⟨⟨⟨hchars "20" (by decide), digit_ne_zero (by omega), digit_ne_zero (by omega), by decide,
      digit_ne_zero (by omega), digit_ne_zero (by omega), by decide, digit_ne_zero (by omega),
      digit_ne_zero (by omega), by simp⟩, hchars " week:" (by decide)⟩, digit_ne_zero (by omega),
      by simp⟩

/-- A known tag is served by the handler with its own index. -/
theorem get_tag_insert_known (hs : tag_state) (q : Request) :
    process hs q = { hs with
      tag_name := ppcTAGs.get q.tag,
      tag_insert := store q.text hs.tag_insert,
      tag_insert_len := uint16_t (strlen (store q.text hs.tag_insert)) } := by
  have hindex : ∀ tag : Fin NUM_CONFIG_SSI_TAGS,
      ppcTAGs.findIdx? (ppcTAGs.get tag = ·) = some (tag : ℕ) := by decide
  unfold process get_tag_insert
  dsimp only
  rw [hindex]
  rfl

/-- The string in the buffer ends where the nonzero bytes end. -/
theorem strlen_append {used : List ℕ} (h : ∀ c ∈ used, c ≠ 0) (n : ℕ) :
    strlen (used ++ List.replicate n 0) = used.length := by
  unfold strlen
  rw [List.takeWhile_append_of_pos (by simpa using h)]
  cases n <;> simp [List.replicate_succ]

/-- Processing a tag stores its text over the front of the used bytes and
inserts everything up to the end of the longer of the two. -/
theorem process_spec {hs : tag_state} {used : List ℕ} (h : Holds hs used)
    (hlen : used.length ≤ 17) (q : Request) :
    Holds (process hs q) (q.text ++ used.drop q.text.length) ∧
      (process hs q).inserted = q.text ++ used.drop q.text.length := by
  obtain ⟨hused, n, hbuf⟩ := h
  have htext : q.text.length ≤ 17 := by
    rw [q.text_length]
    have hall : ∀ tag, textLength tag ≤ 17 := by decide
    exact hall q.tag
  have hnew : ∀ c ∈ q.text ++ used.drop q.text.length, c ≠ 0 :=
    List.forall_mem_append.mpr ⟨q.text_ne_zero, fun c hc => hused c (List.mem_of_mem_drop hc)⟩
  have hstore : store q.text hs.tag_insert =
      (q.text ++ used.drop q.text.length) ++
        List.replicate (n - (q.text.length - used.length)) 0 := by
    rw [store, hbuf, List.drop_append, List.drop_replicate, List.append_assoc]
  have hbound : (q.text ++ used.drop q.text.length).length < 65536 := by
    rw [List.length_append, List.length_drop]
    omega
  rw [get_tag_insert_known]
  refine ⟨⟨hnew, _, hstore⟩, ?_⟩
  unfold tag_state.inserted
  dsimp only
  rw [hstore, strlen_append hnew, uint16_t, Nat.mod_eq_of_lt hbound, List.take_left]

/-- From a buffer with some bytes in use, every request gets its own text
exactly if no text is shorter than the bytes in use or than an earlier text. -/
theorem inserts_eq_iff {hs : tag_state} {used : List ℕ} (h : Holds hs used)
    (hlen : used.length ≤ 17) (qs : List Request) :
    inserts hs qs = qs.map Request.text ↔
      (∀ q ∈ qs, used.length ≤ textLength q.tag) ∧
        qs.Pairwise fun p q => textLength p.tag ≤ textLength q.tag := by
  induction qs generalizing hs used with
  | nil => simp [inserts]
  | cons q qs ih =>
    obtain ⟨hnext, hins⟩ := process_spec h hlen q
    have htext := q.text_length
    rw [inserts, List.map_cons, List.cons.injEq, hins, List.pairwise_cons, List.forall_mem_cons]
    by_cases hfit : used.length ≤ q.text.length
    · rw [List.drop_eq_nil_of_le hfit, List.append_nil] at hnext ⊢
      have hall : ∀ tag, textLength tag ≤ 17 := by decide
      have hq := hall q.tag
      rw [ih hnext (by omega), htext]
      constructor
      · rintro ⟨_, hle, hrest⟩
        exact ⟨⟨by omega, fun p hp => by have := hle p hp; omega⟩, hle, hrest⟩
      · rintro ⟨_, hle, hrest⟩
        exact ⟨rfl, hle, hrest⟩
    · constructor
      · rintro ⟨hcut, _⟩
        have hnil := List.append_right_eq_self.mp hcut
        exact absurd (List.drop_eq_nil_iff.mp hnil) hfit
      · rintro ⟨⟨hle, _⟩, _⟩
        omega

/-- A fresh connection state holds no bytes. -/
theorem holds_tag_state_alloc : Holds tag_state_alloc [] :=
  ⟨by simp, LWIP_HTTPD_MAX_TAG_INSERT_LEN + 1, rfl⟩

/-- On a fresh connection every tag is replaced by its own text exactly if
no tag follows one with a longer text. -/
theorem inserts_own_text_iff (qs : List Request) :
    inserts tag_state_alloc qs = qs.map Request.text ↔
      qs.Pairwise fun p q => textLength p.tag ≤ textLength q.tag := by
  rw [inserts_eq_iff holds_tag_state_alloc (by simp)]
  simp

/-- Readings at midnight of a Thursday. -/
def midnight : Readings :=
  ⟨20, 50, 0, 0, 0, 0, 0, 0, 1970, 1, 1, 4, by norm_num, by norm_num, by norm_num⟩

/-- A temperature after a time still shows the end of the time. -/
theorem inserts_time_then_temperature :
    ¬∀ qs, inserts tag_state_alloc qs = qs.map Request.text := by
  intro h
  have hpair := (inserts_eq_iff holds_tag_state_alloc (by simp)
    [⟨5, midnight⟩, ⟨0, midnight⟩]).mp (h _)
  exact absurd hpair.2 (by decide)

end SmartHome.SsiTags
