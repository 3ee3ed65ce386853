import SmartHome.HomeSystem

/-!
# Mails posted, waiting and taken

The producers ignore the result of posting. Both mailboxes keep every mail, in
order, exactly as long as each post meets a mailbox with room; the alarms of
security_thread alone can fill the message mailbox.
-/

namespace SmartHome.HomeSystem

open HomePanel Mailboxes TransitionRuns

/-- In both mailboxes the posted mails are the taken ones and the waiting ones. -/
def Home.Delivered (s : Home) : Prop :=
  s.GSM_mq_send.Delivered ∧ s.IRDA_NRF2401_send.Delivered

instance (s : Home) : Decidable s.Delivered := inferInstanceAs (Decidable (_ ∧ _))

/-- The mails of the event fit into the mailboxes they are posted to. -/
def Room (s : Home) (e : Event) : Prop :=
  s.GSM_mq_send.box.mails.length + (mails s e).1.length ≤ 4 ∧
    s.IRDA_NRF2401_send.box.mails.length + (mails s e).2.length ≤ 4

/-- Apart from its posts an event leaves the mailboxes alone or, without
posting, takes the oldest mail of one of them. -/
theorem act_traffic {s : Home} {e : Event} {u : Home} (h : act s e = some u) :
    (u.GSM_mq_send = s.GSM_mq_send ∧ u.IRDA_NRF2401_send = s.IRDA_NRF2401_send) ∨
      (mails s e = ([], []) ∧ u.IRDA_NRF2401_send = s.IRDA_NRF2401_send ∧
        ∃ m, s.GSM_mq_send.take = some (m, u.GSM_mq_send)) ∨
      (mails s e = ([], []) ∧ u.GSM_mq_send = s.GSM_mq_send ∧
        ∃ m, s.IRDA_NRF2401_send.take = some (m, u.IRDA_NRF2401_send)) := by
  cases e with
  | sendSMS =>
    obtain ⟨⟨m, box⟩, hm, rfl⟩ := Option.map_eq_some_iff.mp h
    exact Or.inr (Or.inl ⟨rfl, rfl, m, hm⟩)
  | radioTake =>
    simp only [act, Option.ite_none_right_eq_some] at h
    obtain ⟨⟨m, box⟩, hm, rfl⟩ := Option.map_eq_some_iff.mp h.2
    exact Or.inr (Or.inr ⟨rfl, rfl, m, hm⟩)
  | webDraw =>
    obtain ⟨w, _, rfl⟩ := Option.map_eq_some_iff.mp h
    exact Or.inl ⟨rfl, rfl⟩
  | selectField f =>
    simp only [act, Option.ite_none_right_eq_some, Option.some.injEq] at h
    exact Or.inl (h.2 ▸ ⟨rfl, rfl⟩)
  | leaveSetTime =>
    simp only [act, Option.ite_none_right_eq_some, Option.some.injEq] at h
    exact Or.inl (h.2 ▸ ⟨rfl, rfl⟩)
  | webAssign w =>
    simp only [act, Option.ite_none_right_eq_some, Option.some.injEq] at h
    exact Or.inl (h.2 ▸ ⟨rfl, rfl⟩)
  | radioDone =>
    simp only [act, Option.ite_none_left_eq_some, Option.some.injEq] at h
    exact Or.inl (h.2 ▸ ⟨rfl, rfl⟩)
  | touch a => exact Or.inl ((Option.some.inj h) ▸ ⟨rfl, rfl⟩)
  | openSetTime => exact Or.inl ((Option.some.inj h) ▸ ⟨rfl, rfl⟩)
  | remote k => exact Or.inl ((Option.some.inj h) ▸ ⟨rfl, rfl⟩)
  | readSMS text => exact Or.inl ((Option.some.inj h) ▸ ⟨rfl, rfl⟩)
  | corridor night r => exact Or.inl ((Option.some.inj h) ▸ ⟨rfl, rfl⟩)
  | security r => exact Or.inl ((Option.some.inj h) ▸ ⟨rfl, rfl⟩)
  | USART2_IRQHandler => exact Or.inl ((Option.some.inj h) ▸ ⟨rfl, rfl⟩)
  | TIM5_IRQHandler => exact Or.inl ((Option.some.inj h) ▸ ⟨rfl, rfl⟩)

/-- One step keeps every mail exactly if its posts find room. -/
theorem step_delivered_iff {s : Home} {e : Event} {t : Home} (hs : s.Delivered)
    (h : step s e = some t) : t.Delivered ↔ Room s e := by
  obtain ⟨u, hu, _, rfl⟩ := step_eq_some h
  have hgsm := s.GSM_mq_send.box.bounded
  have hirda := s.IRDA_NRF2401_send.box.bounded
  unfold Home.Delivered Room
  dsimp only
  rcases act_traffic hu with ⟨hg, hi⟩ | ⟨hm, hi, m, hg⟩ | ⟨hm, hg, m, hi⟩
  · rw [hg, hi, Traffic.postAll_delivered_iff hs.1, Traffic.postAll_delivered_iff hs.2]
  · rw [hm, hi]
    exact ⟨fun _ => ⟨hgsm, hirda⟩, fun _ => ⟨Traffic.take_delivered hs.1 hg, hs.2⟩⟩
  · rw [hm, hg]
    exact ⟨fun _ => ⟨hgsm, hirda⟩, fun _ => ⟨hs.1, Traffic.take_delivered hs.2 hi⟩⟩

/-- Along every run all mails are kept exactly as long as every post finds room. -/
theorem delivered_iff_room (es : List Event) :
    Always Home.Delivered step start es ↔ Guarded Room step start es :=
  always_iff_guarded (I := Home.Delivered) (fun _ h => h)
    (fun _ _ _ hs hr ht => (step_delivered_iff hs ht).mpr hr)
    (fun _ _ _ hs hr ht => fun hd => hr ((step_delivered_iff hs ht).mp hd)) es ⟨rfl, rfl⟩

/-- An intruder in a house with a gas leak and a fire. -/
def allAlarms : Sensors := ⟨true, true, 1, 1 / 2⟩

/-- While all alarms last, one mail is sent after alternately one and two
posts, so that the mailbox fills up and the twelfth alarm is dropped. -/
def alarmFlood : List Event :=
  let one := [.security allAlarms, .security allAlarms, .sendSMS]
  let two := [.security allAlarms, .security allAlarms, .security allAlarms, .security allAlarms,
    .sendSMS]
  [.remote .powr, .security allAlarms, .sendSMS] ++ two ++ one ++ two ++ one ++ two ++ one ++ two

/-- A lasting alarm loses mails. -/
theorem alarmFlood_not_delivered : ¬∀ es, Always Home.Delivered step start es := by
  intro h
  have hlost : (run step start alarmFlood).any (fun t => !decide t.Delivered) = true := by
    decide +kernel
  obtain ⟨t, ht, hd⟩ := (Option.any_eq_true _ _).mp hlost
  exact absurd ((h alarmFlood).of_run ht) (by simpa using hd)

end SmartHome.HomeSystem
