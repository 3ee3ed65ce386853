import SmartHome.ModemLink
import SmartHome.TransitionRuns

/-!
# The heap blocks of GSM_SendSMS and GSM_read_thread

Each call of GSM_SendSMS and each pass of GSM_read_thread allocates one block
and remembers it in a static pointer, which keeps its value after the block
has been freed at the regular end. The ledger below counts the calls of the
heap functions for each block. It is balanced as long as the modem answers the
first command of a message with OK; the exit for any other answer frees
nothing.
-/

namespace SmartHome.HeapRelease

open ByteStrings HomePanel ModemLink TransitionRuns

/-- GSM_read_thread is between the allocation and the end of a pass. -/
def InPass (pc : ReaderPc) : Prop := pc ≠ .waitSem ∧ pc ≠ .delay ∧ pc ≠ .returned

/-- The block belongs to the call or the pass that is in progress. -/
def InUse (s : Link) (b : ℕ) : Prop :=
  s.sender ≠ none ∧ s.prt_backup = some b ∨ InPass s.reader ∧ s.point = some b

instance (pc : ReaderPc) : Decidable (InPass pc) := inferInstanceAs (Decidable (_ ∧ _))
instance (s : Link) (b : ℕ) : Decidable (InUse s b) := inferInstanceAs (Decidable (_ ∨ _))

/-- Every block is freed once when its call or pass is over, and not before. -/
structure Released (s : Link) : Prop where
  once : ∀ b, .rt_malloc b ∈ s.heap → ¬InUse s b → s.heap.count (.rt_free b) = 1
  kept : ∀ b, InUse s b → s.heap.count (.rt_free b) = 0
  own : ∀ b, .rt_free b ∈ s.heap → s.heap.count (.rt_malloc b) = 1

/-- The reply to the first command of a message contains OK. -/
def Available (s : Link) (e : Event) : Prop :=
  e = .sendReply → s.sender.map Prod.fst = some .AT →
    (strstr (bytes "OK") (string s.uart 0)).isSome = true

instance (s : Link) (e : Event) : Decidable (Available s e) :=
  inferInstanceAs (Decidable (_ → _ → _))

/-! ### The ledger of heap calls -/

/-- Blocks below the bound have been allocated once, and freed once unless they
are live. -/
structure Ledger (heap : List HeapCall) (blocks : ℕ) (live : ℕ → Prop) : Prop where
  allocated : ∀ b, b < blocks → heap.count (.rt_malloc b) = 1
  freed : ∀ b, b < blocks → ¬live b → heap.count (.rt_free b) = 1
  bound : ∀ b, live b → b < blocks
  kept : ∀ b, live b → heap.count (.rt_free b) = 0
  unused : ∀ b, blocks ≤ b → heap.count (.rt_malloc b) = 0 ∧ heap.count (.rt_free b) = 0

/-- The ledger depends on which blocks are live only. -/
theorem Ledger.congr {heap : List HeapCall} {blocks : ℕ} {live live' : ℕ → Prop}
    (h : Ledger heap blocks live) (hlive : ∀ b, live' b ↔ live b) : Ledger heap blocks live' := by
  obtain rfl : live' = live := funext fun b => propext (hlive b)
  exact h

/-- One more call counts for itself. -/
theorem count_concat_self (heap : List HeapCall) (c : HeapCall) :
    (heap ++ [c]).count c = heap.count c + 1 := by
  rw [List.count_append, List.count_singleton_self]

/-- One more call counts for no other call. -/
theorem count_concat_of_ne (heap : List HeapCall) {c d : HeapCall} (h : c ≠ d) :
    (heap ++ [c]).count d = heap.count d := by
  rw [List.count_append, List.count_eq_zero_of_not_mem fun hd => h (List.mem_singleton.mp hd).symm,
    Nat.add_zero]

/-- An allocation makes the next block live. -/
theorem Ledger.malloc {heap : List HeapCall} {blocks : ℕ} {live : ℕ → Prop}
    (h : Ledger heap blocks live) :
    Ledger (heap ++ [.rt_malloc blocks]) (blocks + 1) (fun b => live b ∨ b = blocks) := by
  have hother : ∀ b, b ≠ blocks → HeapCall.rt_malloc blocks ≠ .rt_malloc b :=
    fun b hb heq => hb (HeapCall.rt_malloc.inj heq).symm
  have hfree : ∀ b, (heap ++ [HeapCall.rt_malloc blocks]).count (.rt_free b) =
      heap.count (.rt_free b) := fun b => count_concat_of_ne heap nofun
  constructor
  · intro b hb
    rcases Nat.lt_succ_iff_lt_or_eq.mp hb with hlt | rfl
    · rw [count_concat_of_ne heap (hother b hlt.ne), h.allocated b hlt]
    · rw [count_concat_self, (h.unused b le_rfl).1]
  · intro b hb hlive
    rw [not_or] at hlive
    rw [hfree]
    exact h.freed b (by omega) hlive.1
  · rintro b (hb | rfl)
    · exact Nat.lt_succ_of_lt (h.bound b hb)
    · exact Nat.lt_succ_self b
  · rintro b (hb | rfl)
    · rw [hfree]
      exact h.kept b hb
    · rw [hfree]
      exact (h.unused b le_rfl).2
  · intro b hb
    rw [hfree, count_concat_of_ne heap (hother b (by omega))]
    exact h.unused b (by omega)

/-- Freeing a live block ends its life. -/
theorem Ledger.free {heap : List HeapCall} {blocks c : ℕ} {live : ℕ → Prop}
    (h : Ledger heap blocks live) (hc : live c) :
    Ledger (heap ++ [.rt_free c]) blocks (fun b => live b ∧ b ≠ c) := by
  have hother : ∀ b, b ≠ c → HeapCall.rt_free c ≠ .rt_free b :=
    fun b hb heq => hb (HeapCall.rt_free.inj heq).symm
  have hmalloc : ∀ b, (heap ++ [HeapCall.rt_free c]).count (.rt_malloc b) =
      heap.count (.rt_malloc b) := fun b => count_concat_of_ne heap nofun
  constructor
  · intro b hb
    rw [hmalloc]
    exact h.allocated b hb
  · intro b hb hlive
    by_cases hbc : b = c
    · subst hbc
      rw [count_concat_self, h.kept b hc]
    · rw [count_concat_of_ne heap (hother b hbc)]
      exact h.freed b hb fun hl => hlive ⟨hl, hbc⟩
  · exact fun b hb => h.bound b hb.1
  · rintro b ⟨hb, hbc⟩
    rw [count_concat_of_ne heap (hother b hbc)]
    exact h.kept b hb
  · intro b hb
    have hcb : c < blocks := h.bound c hc
    rw [hmalloc, count_concat_of_ne heap (hother b (by omega))]
    exact h.unused b hb

/-! ### The link keeps its ledger -/

/-- The heap calls of the link agree with its pointers. -/
structure Accounted (s : Link) : Prop where
  ledger : Ledger s.heap s.blocks (InUse s)
  sending : s.sender ≠ none → s.prt_backup ≠ none ∧ ¬InPass s.reader
  passing : InPass s.reader → s.point ≠ none

/-- A balanced ledger frees every block once. -/
theorem Accounted.released {s : Link} (h : Accounted s) : Released s := by
  have hknown : ∀ c b, c = HeapCall.rt_malloc b ∨ c = .rt_free b → c ∈ s.heap → b < s.blocks := by
    intro c b hcb hc
    by_contra hb
    obtain ⟨hm, hf⟩ := h.ledger.unused b (by omega)
    rcases hcb with rfl | rfl
    · exact List.count_eq_zero.mp hm hc
    · exact List.count_eq_zero.mp hf hc
  exact ⟨fun b hb hlive => h.ledger.freed b (hknown _ b (.inl rfl) hb) hlive, h.ledger.kept,
    fun b hb => h.ledger.allocated b (hknown _ b (.inr rfl) hb)⟩

/-- Steps that leave the heap, the pointers and the positions as they are. -/
theorem Accounted.frame {s t : Link} (h : Accounted s) (hheap : t.heap = s.heap)
    (hblocks : t.blocks = s.blocks) (hsend : t.sender = none ↔ s.sender = none)
    (hprt : t.prt_backup = s.prt_backup) (hpass : InPass t.reader ↔ InPass s.reader)
    (hpoint : t.point = s.point) : Accounted t := by
  have hlive : ∀ b, InUse t b ↔ InUse s b := by
    intro b
    simp only [InUse, ne_eq, hsend, hprt, hpass, hpoint]
  refine ⟨?_, ?_, ?_⟩
  · rw [hheap, hblocks]
    exact h.ledger.congr hlive
  · rw [ne_eq, hsend, hprt, hpass]
    exact h.sending
  · rw [hpass, hpoint]
    exact h.passing

/-- A new message allocates its block while the reader is out of its pass. -/
theorem Accounted.send {s : Link} (h : Accounted s) (hsend : s.sender = none)
    (hpass : ¬InPass s.reader) (next : SenderPc × GSMMail) :
    Accounted { s with sender := some next, prt_backup := some s.blocks,
                       blocks := s.blocks + 1, heap := s.heap ++ [.rt_malloc s.blocks] } := by
  refine ⟨h.ledger.malloc.congr fun b => ?_, fun _ => ⟨by simp, hpass⟩, fun hp => absurd hp hpass⟩
  simp [InUse, hsend, hpass, eq_comm]

/-- The end of a message frees its block. The pointer may stay or be reset. -/
theorem Accounted.endSend {s t : Link} (h : Accounted s) (hsend : s.sender ≠ none)
    (hheap : t.heap = (freePrt s).heap) (hblocks : t.blocks = s.blocks) (hdone : t.sender = none)
    (hreader : t.reader = s.reader) : Accounted t := by
  obtain ⟨hprt, hpass⟩ := h.sending hsend
  obtain ⟨c, hc⟩ := Option.ne_none_iff_exists'.mp hprt
  refine ⟨?_, fun ht => absurd hdone ht, fun hp => absurd (hreader ▸ hp) hpass⟩
  rw [hheap, hblocks]
  simp only [freePrt, hc, Option.map_some, Option.toList_some]
  refine (h.ledger.free (c := c) (.inl ⟨hsend, hc⟩)).congr fun b => ?_
  simp [InUse, hdone, hreader, hpass, hc, eq_comm]

/-- The beginning of a pass allocates its block. -/
theorem Accounted.beginPass {s : Link} (h : Accounted s) (hsend : s.sender = none)
    (hpc : s.reader = .waitSem) (sem : ℕ) :
    Accounted { s with sem := sem, reader := .loop, point := some s.blocks,
                       blocks := s.blocks + 1, heap := s.heap ++ [.rt_malloc s.blocks] } := by
  refine ⟨h.ledger.malloc.congr fun b => ?_, fun hs => absurd hsend hs, fun _ => by simp⟩
  simp [InUse, InPass, hsend, hpc, eq_comm]

/-- The end of a pass frees its block. The pointer may stay or be reset. -/
theorem Accounted.endPass {s t : Link} (h : Accounted s) (hsend : s.sender = none)
    (hpass : InPass s.reader) (hheap : t.heap = (freePoint s).heap) (hblocks : t.blocks = s.blocks)
    (hsender : t.sender = none) (hdone : ¬InPass t.reader) : Accounted t := by
  obtain ⟨c, hc⟩ := Option.ne_none_iff_exists'.mp (h.passing hpass)
  refine ⟨?_, fun ht => absurd hsender ht, fun hp => absurd hp hdone⟩
  rw [hheap, hblocks]
  simp only [freePoint, hc, Option.map_some, Option.toList_some]
  refine (h.ledger.free (c := c) (.inr ⟨hpass, hc⟩)).congr fun b => ?_
  simp [InUse, hsend, hsender, hdone, hpass, hc, eq_comm]

/-- An expiry leaves the threads and the heap as they are. -/
theorem Accounted.expire {s : Link} (h : Accounted s) : Accounted (expire s) := by
  unfold ModemLink.expire
  dsimp only
  split
  · exact h.frame rfl rfl Iff.rfl rfl Iff.rfl rfl
  · exact h.frame rfl rfl Iff.rfl rfl Iff.rfl rfl

/-- The reader allocates when it leaves its semaphore and frees at LOOP. -/
theorem Accounted.read {s t : Link} (h : Accounted s) (hsend : s.sender = none)
    (ht : GSM_read_thread s = some t) : Accounted t := by
  unfold GSM_read_thread at ht
  dsimp only at ht
  split at ht
  case h_1 hpc =>
    obtain ⟨-, ht⟩ := Option.ite_none_left_eq_some.mp ht
    cases ht
    exact h.beginPass hsend hpc _
  case h_2 hpc =>
    have hpass : InPass s.reader := by simp [InPass, hpc]
    split at ht
    · cases ht
      exact h.frame rfl rfl Iff.rfl rfl (iff_of_true (by simp [InPass]) hpass) rfl
    · split at ht <;> cases ht
      · exact h.frame rfl rfl Iff.rfl rfl (iff_of_true (by simp [InPass]) hpass) rfl
      · exact h.frame rfl rfl Iff.rfl rfl (iff_of_true (by simp [InPass]) hpass) rfl
  case h_3 hpc =>
    cases ht
    exact h.frame rfl rfl Iff.rfl rfl (by simp [InPass, hpc]) rfl
  case h_4 hpc =>
    cases ht
    exact h.frame rfl rfl Iff.rfl rfl (by simp [InPass, hpc]) rfl
  case h_5 hpc =>
    cases ht
    exact h.endPass hsend (by simp [InPass, hpc]) rfl rfl hsend (by simp [InPass])
  case h_6 hpc =>
    cases ht
    exact h.frame rfl rfl Iff.rfl rfl (by simp [InPass, hpc]) rfl
  case h_7 => exact absurd ht (by simp)

/-- An accepted reply keeps the reader in its pass. -/
theorem Accounted.readReply {s t : Link} (h : Accounted s) (ht : readReply s = some t) :
    Accounted t := by
  unfold ModemLink.readReply at ht
  split at ht
  case h_4 => exact absurd ht (by simp)
  all_goals
    rename_i hpc
    cases ht
    exact h.frame rfl rfl Iff.rfl rfl (by simp [InPass, hpc]) rfl

/-- A wait that runs out of time frees the block of the pass. -/
theorem Accounted.readTimeout {s t : Link} (h : Accounted s) (hsend : s.sender = none)
    (ht : readTimeout s = some t) : Accounted t := by
  unfold ModemLink.readTimeout at ht
  split at ht
  case h_4 => exact absurd ht (by simp)
  all_goals
    rename_i hpc
    cases ht
    exact h.endPass hsend (by simp [InPass, hpc]) rfl rfl hsend (by simp [InPass])

/-- A modem that is available lets every message end with its block freed. -/
theorem Accounted.sendReply {s t : Link} (h : Accounted s) (hOK : Available s .sendReply)
    (ht : sendReply s = some t) : Accounted t := by
  have hsend : s.sender ≠ none := by
    intro hnone
    simp [ModemLink.sendReply, hnone] at ht
  obtain ⟨u, next, -, rfl⟩ | rfl | ⟨-, hAT, hno⟩ := sendReply_cases ht
  · exact h.frame rfl rfl (iff_of_false (by simp) hsend) rfl Iff.rfl rfl
  · exact h.endSend hsend rfl rfl rfl rfl
  · exact absurd (hOK rfl hAT) (by simp [hno])

/-- Every step of an available modem keeps the ledger. -/
theorem accounted_step {s t : Link} {e : Event} (hs : Accounted s) (he : Available s e)
    (ht : step s e = some t) : Accounted t := by
  cases e with
  | USART2_IRQHandler Res =>
    cases ht
    exact hs.frame rfl rfl Iff.rfl rfl Iff.rfl rfl
  | TIM5_IRQHandler =>
    cases ht
    exact hs.expire
  | poll =>
    obtain ⟨-, ht⟩ := Option.ite_none_right_eq_some.mp ht
    cases ht
    exact hs.frame rfl rfl Iff.rfl rfl Iff.rfl rfl
  | read =>
    obtain ⟨hsend, ht⟩ := Option.ite_none_right_eq_some.mp ht
    exact hs.read hsend ht
  | readReply =>
    obtain ⟨-, ht⟩ := Option.ite_none_right_eq_some.mp ht
    exact hs.readReply ht
  | readTimeout =>
    obtain ⟨hsend, ht⟩ := Option.ite_none_right_eq_some.mp ht
    exact hs.readTimeout hsend ht
  | send content =>
    obtain ⟨⟨hsend, hblocked⟩, ht⟩ := Option.ite_none_right_eq_some.mp ht
    cases ht
    refine hs.send hsend ?_ _
    rintro ⟨hsem, hdelay, hreturned⟩
    unfold Link.readerBlocked at hblocked
    split at hblocked <;> simp_all
  | sendReply =>
    obtain ⟨-, ht⟩ := Option.ite_none_right_eq_some.mp ht
    exact hs.sendReply he ht
  | sendTimeout =>
    obtain ⟨hsend, ht⟩ := Option.ite_none_left_eq_some.mp ht
    cases ht
    exact hs.endSend hsend rfl rfl rfl rfl

/-- Without OK the call ends at once. -/
theorem sendReply_of_unavailable {s : Link} (hAT : s.sender.map Prod.fst = some .AT)
    (hno : (strstr (bytes "OK") (string s.uart 0)).isSome ≠ true) :
    sendReply s = some { acceptReply s with sender := none } := by
  obtain ⟨⟨pc, content⟩, hsend, rfl⟩ := Option.map_eq_some_iff.mp hAT
  unfold sendReply
  rw [hsend]
  exact if_neg hno

/-- A modem that is not available leaves the block of the message allocated. -/
theorem not_released_of_unavailable {s t : Link} {e : Event} (hs : Accounted s)
    (he : ¬Available s e) (ht : step s e = some t) : ¬Released t := by
  simp only [Available, Classical.not_imp] at he
  obtain ⟨rfl, hAT, hno⟩ := he
  obtain ⟨-, ht⟩ := Option.ite_none_right_eq_some.mp ht
  rw [sendReply_of_unavailable hAT hno] at ht
  cases ht
  have hsend : s.sender ≠ none := by
    intro hnone
    simp [hnone] at hAT
  obtain ⟨hprt, hpass⟩ := hs.sending hsend
  obtain ⟨c, hc⟩ := Option.ne_none_iff_exists'.mp hprt
  have hlive : InUse s c := .inl ⟨hsend, hc⟩
  have hcall : .rt_malloc c ∈ s.heap :=
    List.count_pos_iff.mp (by rw [hs.ledger.allocated c (hs.ledger.bound c hlive)]; decide)
  intro hreleased
  have hone := hreleased.once c hcall (by simp [InUse, acceptReply, hpass])
  exact absurd (hs.ledger.kept c hlive) (by rw [show s.heap.count _ = 1 from hone]; decide)

/-- Nothing has been allocated at first. -/
theorem accounted_start : Accounted start := by
  refine ⟨⟨?_, ?_, ?_, ?_, ?_⟩, fun h => absurd rfl h, fun h => absurd h (by decide)⟩
  · exact fun b hb => absurd hb (Nat.not_lt_zero b)
  · exact fun b hb => absurd hb (Nat.not_lt_zero b)
  · exact fun b hb => absurd hb (by simp [InUse, InPass, start])
  · exact fun b hb => absurd hb (by simp [InUse, InPass, start])
  · exact fun b _ => ⟨rfl, rfl⟩

/-- In every run each block is freed once by its own call or pass exactly if
the modem answers the first command of every message with OK. -/
theorem released_iff_available (es : List Event) :
    Always Released step start es ↔ Guarded Available step start es :=
  always_iff_guarded (fun _ h => h.released) (fun _ _ _ => accounted_step)
    (fun _ _ _ => not_released_of_unavailable) es accounted_start

/-- A modem that answers ERROR leaks the block of the message. -/
theorem not_released_after_error : ¬∀ es, Always Released step start es := by
  intro h
  let es := [Event.send .tips] ++ (bytes "\r\nERROR\r\n").map Event.USART2_IRQHandler ++
    [.TIM5_IRQHandler, .sendReply]
  have hend : (run step start es).any (fun t => t.heap = [.rt_malloc 0] ∧ ¬InUse t 0) = true := by
    decide +kernel
  obtain ⟨t, hr, ht⟩ := (Option.any_eq_true _ _).mp hend
  obtain ⟨hheap, huse⟩ := of_decide_eq_true ht
  have hone := ((h es).of_run hr).once 0 (by simp [hheap]) huse
  rw [hheap] at hone
  exact absurd hone (by decide)

end SmartHome.HeapRelease
