import SmartHome.SensorText

/-!
# Formatted text and the arrays it is written to

Every call of sprintf and of usart2_senddata in the display, the clock setting
and the two message threads, with the array it is about. An array declared
with the initializer {0} has one byte. A text is followed by its terminator,
also where the array has no room for it.
-/

namespace SmartHome.FormattedText

open ByteStrings DecimalText MachineWords SensorText

/-- The calls of sprintf by their destination, with the values they format. -/
inductive Formatting where
  /-- In clock_demo. -/
  | year_mon_dat (w_year : UInt16) (w_month w_date : UInt8)
  /-- In clock_demo. -/
  | hour_min_sec (hour min sec : UInt8)
  /-- In Set_Time, from the calendar or from Set_time. -/
  | set_year_mon_dat (year : UInt16) (mon day : UInt8)
  /-- In Set_Time, from the calendar or from Set_time. -/
  | set_hour_min_sec (hour min sec : UInt8)
  /-- In Get_Sensor_Status_thread. -/
  | temp_buffer (temp : UInt8)
  /-- In Get_Sensor_Status_thread. -/
  | humi_buffer (humi : UInt8)
  /-- In Get_Sensor_Status_thread. -/
  | MQ_buffer (mq : ℚ)
  /-- In Get_Sensor_Status_thread. -/
  | HZ_buffer (hz : ℚ)
  /-- In GSM_read_thread, the text at pt+12. -/
  | GSM_buffer_index (text : List UInt8)
  /-- In GSM_read_thread, the read command for the text at pt+12. -/
  | GSM_buffer_command (text : List UInt8)
  /-- In GSM_SendSMS. -/
  | report_temp_buffer (temp : UInt8)
  /-- In GSM_SendSMS. -/
  | report_humi_buffer (humi : UInt8)
  /-- In GSM_SendSMS. -/
  | report_MQ_buffer (mq : ℚ)

/-- Declared size of the destination. -/
def Formatting.size : Formatting → ℕ
  | .year_mon_dat .. => 10
  | .hour_min_sec .. => 8
  | .set_year_mon_dat .. => 10
  | .set_hour_min_sec .. => 8
  | _ => 1

/-- A date in the format of the clock. -/
def dateLine (year : UInt16) (mon day : UInt8) : List UInt8 :=
  sprintf "%.2d-%.2d-%.2d" [.d year.toNat, .d mon.toNat, .d day.toNat]

/-- A time in the format of the clock. -/
def timeLine (hour min sec : UInt8) : List UInt8 :=
  sprintf "%.2d:%.2d:%.2d" [.d hour.toNat, .d min.toNat, .d sec.toNat]

/-- The text that is written. -/
def Formatting.text : Formatting → List UInt8
  | .year_mon_dat w_year w_month w_date => dateLine w_year w_month w_date
  | .hour_min_sec hour min sec => timeLine hour min sec
  | .set_year_mon_dat year mon day => dateLine year mon day
  | .set_hour_min_sec hour min sec => timeLine hour min sec
  | .temp_buffer temp => sprintf "%d'C" [.d temp.toNat]
  | .humi_buffer humi => sprintf "%d%%" [.d humi.toNat]
  | .MQ_buffer mq => voltageText mq
  | .HZ_buffer hz => voltageText hz
  | .GSM_buffer_index text => sprintf "%s" [.s text]
  | .GSM_buffer_command text => sprintf "AT+CMGR=%s\n\n" [.s text]
  | .report_temp_buffer temp => sprintf "Temperature:%d'C\n" [.d temp.toNat]
  | .report_humi_buffer humi => sprintf "Humidity:%d%%\n" [.d humi.toNat]
  | .report_MQ_buffer mq =>
    sprintf "M       Q:%d.%.2d\n" [.d (uint8_t ⌊mq⌋.toNat), .d (uint8_t (Get_decimal mq 2))]

/-- The arrays passed to usart2_senddata. -/
inductive Sending where
  /-- A string literal. -/
  | literal (s : String)
  /-- In GSM_read_thread, after the read command was written. -/
  | GSM_buffer (text : List UInt8)
  /-- In GSM_SendSMS, after the text was written. -/
  | temp_buffer (temp : UInt8)
  /-- In GSM_SendSMS, after the text was written. -/
  | humi_buffer (humi : UInt8)
  /-- In GSM_SendSMS, after the text was written. -/
  | MQ_buffer (mq : ℚ)
  /-- The array cmd_1A. -/
  | cmd_1A

/-- The bytes of the array within its declared size. -/
def Sending.declared : Sending → List UInt8
  | .literal s => bytes s ++ [0]
  | .GSM_buffer text => ((Formatting.GSM_buffer_command text).text ++ [0]).take 1
  | .temp_buffer temp => ((Formatting.report_temp_buffer temp).text ++ [0]).take 1
  | .humi_buffer humi => ((Formatting.report_humi_buffer humi).text ++ [0]).take 1
  | .MQ_buffer mq => ((Formatting.report_MQ_buffer mq).text ++ [0]).take 1
  | .cmd_1A => [0x1A]

/-- A call of sprintf or of usart2_senddata. -/
inductive Call where
  | sprintf (f : Formatting)
  | usart2_senddata (c : Sending)

/-- The text and its terminator fit the array, or the array to be sent has a
terminator within its declared size. -/
def Call.Contained : Call → Prop
  | .sprintf f => f.text.length + 1 ≤ f.size
  | .usart2_senddata c => 0 ∈ c.declared

/-- The date has at most seven digits when each number has at least two. -/
def ShortDate (year mon day : ℕ) : Prop :=
  year < 100 ∧ (mon < 100 ∨ day < 100) ∨ year < 1000 ∧ mon < 100 ∧ day < 100

instance (year mon day : ℕ) : Decidable (ShortDate year mon day) :=
  inferInstanceAs (Decidable (_ ∨ _))

/-- The calls that stay within their array: short dates, an index that is
empty, and string literals. -/
def Call.Roomy : Call → Prop
  | .sprintf (.year_mon_dat w_year w_month w_date) =>
    ShortDate w_year.toNat w_month.toNat w_date.toNat
  | .sprintf (.set_year_mon_dat year mon day) => ShortDate year.toNat mon.toNat day.toNat
  | .sprintf (.GSM_buffer_index text) => text = []
  | .usart2_senddata (.literal _) => True
  | _ => False

/-! ### Lengths -/

/-- With precision 2 a number has at least two bytes, and more from 100 on. -/
theorem length_padded_two (n : ℕ) :
    2 ≤ (padded 2 n).length ∧ ((padded 2 n).length ≤ 2 ↔ n < 100) ∧
      ((padded 2 n).length ≤ 3 ↔ n < 1000) := by
  have h2 : (decimal n).length ≤ 2 ↔ n < 100 := length_decimal_le_iff (by omega)
  have h3 : (decimal n).length ≤ 3 ↔ n < 1000 := length_decimal_le_iff (by omega)
  rw [length_padded]
  omega

theorem length_dateLine (year : UInt16) (mon day : UInt8) :
    (dateLine year mon day).length = (padded 2 year.toNat).length + (padded 2 mon.toNat).length +
      (padded 2 day.toNat).length + 2 := by
  have htext : dateLine year mon day =
      padded 2 year.toNat ++ 45 :: (padded 2 mon.toNat ++ 45 :: (padded 2 day.toNat ++ [])) := rfl
  rw [htext]
  simp only [List.length_append, List.length_cons, List.length_nil]
  omega

theorem length_timeLine (hour min sec : UInt8) :
    (timeLine hour min sec).length = (padded 2 hour.toNat).length + (padded 2 min.toNat).length +
      (padded 2 sec.toNat).length + 2 := by
  have htext : timeLine hour min sec =
      padded 2 hour.toNat ++ 58 :: (padded 2 min.toNat ++ 58 :: (padded 2 sec.toNat ++ [])) := rfl
  rw [htext]
  simp only [List.length_append, List.length_cons, List.length_nil]
  omega

/-- A date fits ten bytes exactly if it is short. -/
theorem dateLine_fits_iff (year : UInt16) (mon day : UInt8) :
    (dateLine year mon day).length + 1 ≤ 10 ↔ ShortDate year.toNat mon.toNat day.toNat := by
  have hyear := length_padded_two year.toNat
  have hmon := length_padded_two mon.toNat
  have hday := length_padded_two day.toNat
  have hmon' := mon.toNat_lt
  have hday' := day.toNat_lt
  rw [length_dateLine, ShortDate]
  omega

/-- No time fits eight bytes. -/
theorem timeLine_overflows (hour min sec : UInt8) : ¬(timeLine hour min sec).length + 1 ≤ 8 := by
  have hhour := length_padded_two hour.toNat
  have hmin := length_padded_two min.toNat
  have hsec := length_padded_two sec.toNat
  rw [length_timeLine]
  omega

/-- A text that begins with a byte does not fit one byte. -/
theorem overflows_of_ne_nil {text : List UInt8} (h : text ≠ []) : ¬text.length + 1 ≤ 1 := by
  have hpos := List.length_pos_iff.mpr h
  omega

/-- A number in front makes a text nonempty. -/
theorem decimal_append_ne_nil (n : ℕ) (text : List UInt8) : decimal n ++ text ≠ [] := by
  have hpos := length_decimal_pos n
  intro h
  rw [(List.append_eq_nil_iff.mp h).1] at hpos
  exact absurd hpos (by simp)

/-- One byte of a text that begins with another byte has no terminator. -/
theorem unterminated_of_cons {c : UInt8} (h : c ≠ 0) (text : List UInt8) :
    0 ∉ ((c :: text) ++ [0]).take 1 := by
  rw [List.cons_append, List.take_succ_cons, List.take_zero, List.mem_singleton]
  exact h.symm

/-- Every call stays within its array exactly if it is one of the roomy ones. -/
theorem contained_iff_roomy (c : Call) : c.Contained ↔ c.Roomy := by
  cases c with
  | sprintf f =>
    cases f with
    | year_mon_dat w_year w_month w_date => exact dateLine_fits_iff w_year w_month w_date
    | hour_min_sec hour min sec => exact iff_of_false (timeLine_overflows hour min sec) id
    | set_year_mon_dat year mon day => exact dateLine_fits_iff year mon day
    | set_hour_min_sec hour min sec => exact iff_of_false (timeLine_overflows hour min sec) id
    | temp_buffer temp => exact iff_of_false (overflows_of_ne_nil (decimal_append_ne_nil _ _)) id
    | humi_buffer humi => exact iff_of_false (overflows_of_ne_nil (decimal_append_ne_nil _ _)) id
    | MQ_buffer mq => exact iff_of_false (overflows_of_ne_nil (decimal_append_ne_nil _ _)) id
    | HZ_buffer hz => exact iff_of_false (overflows_of_ne_nil (decimal_append_ne_nil _ _)) id
    | GSM_buffer_index text =>
      have htext : (Formatting.GSM_buffer_index text).text = text := List.append_nil text
      have hcontained :
          (Call.sprintf (.GSM_buffer_index text)).Contained ↔ text.length + 1 ≤ 1 := by
        rw [Call.Contained, htext]
        exact Iff.rfl
      rw [hcontained]
      constructor
      · intro h
        exact List.eq_nil_of_length_eq_zero (by omega)
      · rintro rfl
        exact le_rfl
    | GSM_buffer_command text => exact iff_of_false (overflows_of_ne_nil (List.cons_ne_nil _ _)) id
    | report_temp_buffer temp => exact iff_of_false (overflows_of_ne_nil (List.cons_ne_nil _ _)) id
    | report_humi_buffer humi => exact iff_of_false (overflows_of_ne_nil (List.cons_ne_nil _ _)) id
    | report_MQ_buffer mq => exact iff_of_false (overflows_of_ne_nil (List.cons_ne_nil _ _)) id
  | usart2_senddata c =>
    cases c with
    | literal s => exact iff_of_true (List.mem_append_right _ (List.mem_singleton_self 0)) trivial
    | GSM_buffer text => exact iff_of_false (unterminated_of_cons (by decide) _) id
    | temp_buffer temp => exact iff_of_false (unterminated_of_cons (by decide) _) id
    | humi_buffer humi => exact iff_of_false (unterminated_of_cons (by decide) _) id
    | MQ_buffer mq => exact iff_of_false (unterminated_of_cons (by decide) _) id
    | cmd_1A => exact iff_of_false (mt List.mem_singleton.mp (by decide)) id

/-- The first day of 2020 overflows the array of the display. -/
theorem not_contained_date : ¬∀ c : Call, c.Contained := by
  intro h
  have hdate := (dateLine_fits_iff 2020 1 1).mp (h (.sprintf (.year_mon_dat 2020 1 1)))
  exact absurd hdate (by decide)

end SmartHome.FormattedText
