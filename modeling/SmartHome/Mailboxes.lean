import Mathlib.Data.List.Basic

/-!
# Bounded mailboxes and their traffic

A mailbox holds a bounded queue of mails. Sending to a full mailbox fails and
changes nothing; receiving takes the oldest mail. The traffic of a mailbox also
records every mail that was posted, delivered or not, and every mail taken.
-/

namespace SmartHome.Mailboxes

variable {α : Type*} {size : ℕ}

/-- A queue of at most size mails, oldest first. -/
structure Mailbox (α : Type*) (size : ℕ) where
  mails : List α
  bounded : mails.length ≤ size

/-- The mailbox without mails. -/
def Mailbox.empty : Mailbox α size := ⟨[], Nat.zero_le size⟩

/-- A mailbox with room holds one more mail. -/
theorem length_append_le {mails : List α} (m : α) (h : mails.length < size) :
    (mails ++ [m]).length ≤ size := by
  rw [List.length_append, List.length_singleton]
  exact h

/-- Append a mail unless the mailbox is full. -/
def Mailbox.send (b : Mailbox α size) (m : α) : Mailbox α size :=
  if h : b.mails.length < size then ⟨b.mails ++ [m], length_append_le m h⟩ else b

/-- Take the oldest mail, if there is one. -/
def Mailbox.recv : Mailbox α size → Option (α × Mailbox α size)
  | ⟨[], _⟩ => none
  | ⟨m :: ms, h⟩ => some (m, ⟨ms, Nat.le_of_succ_le h⟩)

/-- A mailbox with the history of its posts and receptions. -/
structure Traffic (α : Type*) (size : ℕ) where
  box : Mailbox α size
  /-- Every mail a producer posted, in order. -/
  posted : List α
  /-- Every mail the consumer took, in order. -/
  taken : List α

/-- No post and no reception yet. -/
def Traffic.start : Traffic α size := ⟨Mailbox.empty, [], []⟩

/-- A producer posts a mail and ignores the result. -/
def Traffic.post (t : Traffic α size) (m : α) : Traffic α size :=
  { box := t.box.send m, posted := t.posted ++ [m], taken := t.taken }

/-- A producer posts several mails in a row. -/
def Traffic.postAll (t : Traffic α size) (ms : List α) : Traffic α size := ms.foldl Traffic.post t

/-- The consumer takes the oldest mail. -/
def Traffic.take (t : Traffic α size) : Option (α × Traffic α size) :=
  t.box.recv.map fun (m, box) => (m, { t with box := box, taken := t.taken ++ [m] })

/-- The posted mails are the taken ones followed by the waiting ones. -/
def Traffic.Delivered (t : Traffic α size) : Prop := t.posted = t.taken ++ t.box.mails

instance [DecidableEq α] (t : Traffic α size) : Decidable t.Delivered :=
  inferInstanceAs (Decidable (_ = _))

theorem Mailbox.send_mails_of_lt {b : Mailbox α size} (m : α) (h : b.mails.length < size) :
    (b.send m).mails = b.mails ++ [m] := by
  unfold Mailbox.send
  rw [dif_pos h]

/-- Every post is recorded and none of them takes a mail. -/
theorem Traffic.postAll_history (t : Traffic α size) (ms : List α) :
    (t.postAll ms).posted = t.posted ++ ms ∧ (t.postAll ms).taken = t.taken := by
  induction ms generalizing t with
  | nil => simp [Traffic.postAll]
  | cons m ms ih =>
    obtain ⟨hposted, htaken⟩ := ih (t.post m)
    exact ⟨hposted.trans (by simp [Traffic.post]), htaken⟩

/-- Posts that fit are appended to the queue in order. -/
theorem Traffic.postAll_mails {t : Traffic α size} {ms : List α}
    (h : t.box.mails.length + ms.length ≤ size) :
    (t.postAll ms).box.mails = t.box.mails ++ ms := by
  induction ms generalizing t with
  | nil => simp [Traffic.postAll]
  | cons m ms ih =>
    rw [List.length_cons] at h
    have hsend : (t.post m).box.mails = t.box.mails ++ [m] :=
      Mailbox.send_mails_of_lt m (by omega)
    have hrest := ih (t := t.post m) (by
      rw [hsend, List.length_append, List.length_singleton]
      omega)
    rw [hsend] at hrest
    exact hrest.trans (by simp)

/-- Posting keeps every mail exactly if the mails fit into the mailbox. -/
theorem Traffic.postAll_delivered_iff {t : Traffic α size} (ht : t.Delivered) (ms : List α) :
    (t.postAll ms).Delivered ↔ t.box.mails.length + ms.length ≤ size := by
  obtain ⟨hposted, htaken⟩ := t.postAll_history ms
  unfold Traffic.Delivered at ht ⊢
  rw [hposted, htaken, ht]
  constructor
  · intro h
    have hlen := congrArg List.length h
    have hbound := (t.postAll ms).box.bounded
    simp only [List.length_append] at hlen
    omega
  · intro h
    rw [Traffic.postAll_mails h, List.append_assoc]

/-- Taking a mail loses nothing. -/
theorem Traffic.take_delivered {t u : Traffic α size} {m : α} (ht : t.Delivered)
    (h : t.take = some (m, u)) : u.Delivered := by
  obtain ⟨⟨mails, hbound⟩, posted, taken⟩ := t
  cases mails with
  | nil => simp [Traffic.take, Mailbox.recv] at h
  | cons m' ms =>
    simp only [Traffic.take, Mailbox.recv, Option.map_some, Option.some.injEq, Prod.mk.injEq] at h
    obtain ⟨_, rfl⟩ := h
    unfold Traffic.Delivered at ht ⊢
    dsimp only at ht ⊢
    rw [ht, List.append_assoc]
    rfl

end SmartHome.Mailboxes
