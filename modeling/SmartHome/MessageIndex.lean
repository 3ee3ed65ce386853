import SmartHome.DecimalText
import SmartHome.StaleFrames

/-!
# The index of a new message

GSM_read_thread compares the text behind '+CMTI: "SM",' with "99" to decide
whether all messages are deleted. The comparison is one of strings, so it is
decided by the first two digits.
-/

namespace SmartHome.MessageIndex

open ByteStrings DecimalText ModemLink StaleFrames

/-- The command that deletes all messages. -/
def deleteAll : List UInt8 := bytes "AT+CMGD=1,4\n"

/-- A notification with an index, CR LF and what follows them. -/
def notification (n : ℕ) (further : List UInt8) : List UInt8 :=
  bytes "+CMTI: \"SM\"," ++ (decimal n ++ 13 :: 10 :: further)

/-- GSM_read_thread has been woken and the first notification in the buffer
has the index. -/
structure Notified (s : Link) (n : ℕ) (further : List UInt8) : Prop where
  reader : s.reader = .loop
  shown : ∃ text, Shows s.uart text ∧
    strstr (bytes "+CMTI:") text = some (notification n further)

/-- All messages are deleted exactly from index 99 on, and below it the line
of the read command, up to its CR, asks for the index. -/
def ActsOnIndex (s : Link) (n : ℕ) : Prop :=
  ∃ t, GSM_read_thread s = some t ∧
    (t.reader = .waitDelete ∧ t.sent = s.sent ++ [deleteAll] ↔ 99 ≤ n) ∧
    (n < 99 → ∃ command, t.sent = s.sent ++ [command] ∧
      command.takeWhile (· ≠ 13) = bytes "AT+CMGR=" ++ decimal n)

/-! ### The comparison -/

theorem strcmp_nil_nonneg : ∀ text, 0 ≤ strcmp text []
  | [] => by rw [strcmp]
  | c :: cs => by
    rw [strcmp]
    exact Int.natCast_nonneg _

/-- Where no byte is greater the comparison goes on while the bytes are the same. -/
theorem strcmp_cons_nonneg_iff {c d : UInt8} (h : c ≤ d) (cs ds : List UInt8) :
    0 ≤ strcmp (c :: cs) (d :: ds) ↔ c = d ∧ 0 ≤ strcmp cs ds := by
  rw [strcmp]
  by_cases hcd : c = d
  · rw [if_pos hcd, and_iff_right hcd]
  · have hle : c.toNat ≤ d.toNat := UInt8.le_iff_toNat_le.mp h
    have hne : c.toNat ≠ d.toNat := fun heq => hcd (UInt8.toNat_inj.mp heq)
    rw [if_neg hcd]
    exact iff_of_false (by omega) fun hboth => hcd hboth.1

/-- Against "99" the comparison sees only whether the first two digits are 99. -/
theorem strcmp_nonneg_iff {digits : List UInt8} (h : ∀ c ∈ digits, c ≤ 57)
    (rest : List UInt8) :
    0 ≤ strcmp (digits ++ 13 :: rest) [57, 57] ↔ [57, 57] <+: digits := by
  match digits with
  | [] =>
    rw [List.nil_append, strcmp_cons_nonneg_iff (by decide)]
    exact iff_of_false (fun hboth => absurd hboth.1 (by decide)) (by simp)
  | [c] =>
    rw [List.singleton_append, strcmp_cons_nonneg_iff (h c List.mem_cons_self),
      strcmp_cons_nonneg_iff (by decide)]
    exact iff_of_false (fun hboth => absurd hboth.2.1 (by decide)) (by simp)
  | c :: d :: digits =>
    have hc : c ≤ 57 := h c List.mem_cons_self
    have hd : d ≤ 57 := h d (List.mem_cons_of_mem c List.mem_cons_self)
    rw [List.cons_append, List.cons_append, strcmp_cons_nonneg_iff hc, strcmp_cons_nonneg_iff hd,
      List.cons_prefix_cons, List.cons_prefix_cons, @eq_comm _ c, @eq_comm _ d]
    exact and_congr_right' (and_congr_right' (iff_of_true (strcmp_nil_nonneg _) List.nil_prefix))

/-- The digits of a number compare with "99" by the first two of them. -/
theorem strcmp_decimal_iff (n : ℕ) (rest : List UInt8) :
    0 ≤ strcmp (decimal n ++ 13 :: rest) (bytes "99") ↔ decimal 99 <+: decimal n := by
  have h99 : bytes "99" = [57, 57] := by decide
  have hdecimal : decimal 99 = [57, 57] := by decide
  rw [h99, hdecimal]
  refine strcmp_nonneg_iff (fun c hc => ?_) rest
  obtain ⟨d, hd, rfl⟩ := mem_decimal hc
  rw [UInt8.le_iff_toNat_le, digitByte_toNat hd]
  have h57 : (57 : UInt8).toNat = 57 := rfl
  omega

/-! ### The search for the notification -/

/-- A search result stands at the end of the text. -/
theorem drop_of_strstr {pattern text rest : List UInt8} (h : strstr pattern text = some rest)
    (k : ℕ) : text.drop (text.length - rest.length + k) = rest.drop k := by
  obtain ⟨lead, rfl⟩ := strstr_suffix h
  rw [List.length_append, Nat.add_sub_cancel, List.drop_length_add_append]

/-- Where a notification is found, the comparison chooses the command. -/
theorem GSM_read_thread_notified {s : Link} {text rest : List UInt8} (hpc : s.reader = .loop)
    (hshown : Shows s.uart text) (hfound : strstr (bytes "+CMTI:") text = some rest)
    (hlen : 12 ≤ rest.length) :
    GSM_read_thread s = some (
      if 0 ≤ strcmp (rest.drop 12) (bytes "99") then
        { s with reader := .waitDelete, sent := s.sent ++ [deleteAll] }
      else
        { s with reader := .waitFirst, GSM_buffer := readCommand (rest.drop 12),
                 sent := s.sent ++ [readCommand (rest.drop 12)],
                 uart := clearBuffer { s.uart with USART_RX2_STA := 0 } }) := by
  have hle : rest.length ≤ text.length := (strstr_suffix hfound).length_le
  have htext : string s.uart 0 = text := hshown.string_eq (Nat.zero_le _)
  have hindex : string s.uart (text.length - rest.length + 12) = rest.drop 12 := by
    rw [hshown.string_eq (by omega), drop_of_strstr hfound]
  rw [GSM_read_thread, hpc]
  dsimp only
  rw [htext, hfound]
  dsimp only
  rw [hindex, apply_ite some]
  rfl

/-- Behind its first twelve bytes a notification has the index. -/
theorem notification_drop (n : ℕ) (further : List UInt8) :
    12 ≤ (notification n further).length ∧
      (notification n further).drop 12 = decimal n ++ 13 :: 10 :: further := by
  have hhead : (bytes "+CMTI: \"SM\",").length = 12 := by decide
  constructor
  · rw [notification, List.length_append, hhead]
    omega
  · rw [notification, ← hhead, List.drop_left]

/-- The line of a read command ends with the index. -/
theorem line_readCommand (n : ℕ) (rest : List UInt8) :
    (readCommand (decimal n ++ 13 :: rest)).takeWhile (· ≠ 13) =
      bytes "AT+CMGR=" ++ decimal n := by
  have hcommand : ∀ c ∈ bytes "AT+CMGR=" ++ decimal n, decide (c ≠ 13) = true := by
    intro c hc
    rw [List.mem_append] at hc
    cases hc with
    | inl hc =>
      have hno : 13 ∉ bytes "AT+CMGR=" := by decide
      exact decide_eq_true (ne_of_mem_of_not_mem hc hno)
    | inr hc =>
      obtain ⟨d, hd, rfl⟩ := mem_decimal hc
      refine decide_eq_true fun h13 => ?_
      have hval := digitByte_toNat hd
      rw [h13] at hval
      have h13' : (13 : UInt8).toNat = 13 := rfl
      omega
  have hsplit : readCommand (decimal n ++ 13 :: rest) =
      (bytes "AT+CMGR=" ++ decimal n) ++ 13 :: (rest ++ [10, 10]) := by
    simp [readCommand]
  rw [hsplit, List.takeWhile_append_of_pos hcommand, List.takeWhile_cons_of_neg (by decide),
    List.append_nil]

/-- A number whose text begins with 99 is at least 99. -/
theorem le_of_digits {n : ℕ} (h : decimal 99 <+: decimal n) : 99 ≤ n := by
  obtain ⟨k, hk⟩ := (decimal_isPrefix_iff (by omega)).mp h
  exact hk ▸ Nat.div_le_self n (10 ^ k)

/-- The thread deletes all messages exactly if the first two digits of the
index are 99, and else it sends the index on. -/
theorem actsOnIndex_iff_digits {s : Link} {n : ℕ} {further : List UInt8}
    (h : Notified s n further) : ActsOnIndex s n ↔ n < 99 ∨ decimal 99 <+: decimal n := by
  obtain ⟨text, hshown, hfound⟩ := h.shown
  obtain ⟨hlen, hdrop⟩ := notification_drop n further
  have hnext := GSM_read_thread_notified h.reader hshown hfound hlen
  rw [hdrop] at hnext
  by_cases hdigits : decimal 99 <+: decimal n
  · have hlarge := le_of_digits hdigits
    rw [if_pos ((strcmp_decimal_iff n _).mpr hdigits)] at hnext
    refine iff_of_true ⟨_, hnext, iff_of_true ⟨rfl, rfl⟩ hlarge, fun hlt => ?_⟩ (.inr hdigits)
    exact absurd hlarge (by omega)
  · rw [if_neg (mt (strcmp_decimal_iff n _).mp hdigits)] at hnext
    constructor
    · rintro ⟨t, ht, hdelete, -⟩
      obtain rfl := Option.some.inj (hnext.symm.trans ht)
      refine .inl (Nat.lt_of_not_le fun hle => ?_)
      exact absurd (hdelete.mpr hle).1 (by simp)
    · rintro (hlt | hdigits')
      · exact ⟨_, hnext, iff_of_false (by simp) (by omega), fun _ => ⟨_, rfl, line_readCommand n _⟩⟩
      · exact absurd hdigits' hdigits

/-- For every index the thread acts as intended exactly if the index is below
99 or begins with the digits 99. -/
theorem actsOnIndex_iff {s : Link} {n : ℕ} {further : List UInt8} (h : Notified s n further) :
    ActsOnIndex s n ↔ n < 99 ∨ ∃ k, n / 10 ^ k = 99 := by
  rw [actsOnIndex_iff_digits h, decimal_isPrefix_iff (by omega)]

/-- A thread that is woken with a text in the buffer. -/
def woken (text : List UInt8) : Link := { start with reader := .loop, uart := holding text }

theorem notified_hundred :
    Notified (woken (bytes "\r\n+CMTI: \"SM\",100\r\n")) 100 [] where
  reader := rfl
  shown := ⟨_, shows_holding (by decide) (by decide), by decide +kernel⟩

theorem notified_seven : Notified (woken (bytes "\r\n+CMTI: \"SM\",7\r\n")) 7 [] where
  reader := rfl
  shown := ⟨_, shows_holding (by decide) (by decide), by decide +kernel⟩

/-- Index 7 is read. -/
theorem actsOnIndex_seven : ActsOnIndex (woken (bytes "\r\n+CMTI: \"SM\",7\r\n")) 7 :=
  (actsOnIndex_iff notified_seven).mpr (.inl (by decide))

/-- At index 100 nothing is deleted. -/
theorem not_actsOnIndex_hundred :
    ¬∀ s n further, 1 ≤ n → Notified s n further → ActsOnIndex s n := by
  intro h
  have hacts := h _ _ _ (by decide) notified_hundred
  exact absurd ((actsOnIndex_iff_digits notified_hundred).mp hacts) (by decide +kernel)

end SmartHome.MessageIndex
