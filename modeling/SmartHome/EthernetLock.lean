import SmartHome.TransitionRuns

/-!
# The lock of the Ethernet controller

DM9000_SendPacket and DM9000_Receive_Packet exclude each other with the
semaphore dm9000lock. A call is the list of its accesses to the bus, to the
packet buffers and to the semaphore; what the chip and the buffer pool deliver
is given from outside. A call that waits forever has no successor. The texts
printed and the delay after a reset are left out.
-/

namespace SmartHome.EthernetLock

open TransitionRuns

def DM9000_PKT_MAX : UInt16 := 1536
def DM9000_NCR : UInt16 := 0x00
def DM9000_TCR : UInt16 := 0x02
def DM9000_RCR : UInt16 := 0x05
def DM9000_MRCMDX : UInt16 := 0xF0
def DM9000_MRCMD : UInt16 := 0xF2
def DM9000_MWCMD : UInt16 := 0xF8
def DM9000_TXPLL : UInt16 := 0xFC
def DM9000_TXPLH : UInt16 := 0xFD
def DM9000_ISR : UInt16 := 0xFE
def DM9000_IMR : UInt16 := 0xFF
def NCR_RST : UInt16 := 0x01
def IMR_PAR : UInt8 := 0x80
def IMR_PRI : UInt8 := 0x01
def ISR_PTS : UInt16 := 0x02

/-- What a call does, one access after the other. -/
inductive Op where
  | rt_sem_take
  | rt_sem_release
  /-- A write to the command address. -/
  | REG (value : UInt16)
  /-- A write to the data address. -/
  | DATA (value : UInt16)
  /-- A read of the data address. -/
  | read
  | pbuf_alloc (length : UInt16)
  | pbuf_free
  deriving DecidableEq, Repr

def DM9000_WriteReg (reg data : UInt16) : List Op := [.REG reg, .DATA data]

def DM9000_ReadReg (reg : UInt16) : List Op := [.REG reg, .read]

/-! ### Sending -/

/-- A packet to be sent: the payloads of its buffers and their total length. -/
structure Packet where
  chain : List (List UInt8)
  tot_len : UInt16
  deriving DecidableEq, Repr

/-- Words moved so far, and the byte that waits for its partner. -/
abbrev Moved := List Op × Option UInt8

/-- The next byte of the packet; the word index runs on across the buffers. -/
def moveByte (s : Moved) (byte : UInt8) : Moved :=
  match s.2 with
  | none => (s.1, some byte)
  | some low => (s.1 ++ [.DATA (byte.toUInt16 <<< 8 ||| low.toUInt16)], none)

/-- The whole chain, with a single last byte if the length is odd. -/
def moveChain (chain : List (List UInt8)) : List Op :=
  let s := chain.foldl (fun s q => q.foldl moveByte s) ([], none)
  s.1 ++ (s.2.map fun byte => Op.DATA byte.toUInt16).toList

/-- Poll the interrupt status until the packet is out. -/
def awaitSent : List UInt16 → Option (List Op)
  | [] => none
  | isr :: rest =>
    if isr &&& 0x02 = 0 then (awaitSent rest).map (DM9000_ReadReg DM9000_ISR ++ ·)
    else some (DM9000_ReadReg DM9000_ISR)

/-- Send a packet; the chip answers the polls with the given values. -/
def DM9000_SendPacket (imr_all : UInt8) (p : Packet) (isr : List UInt16) : Option (List Op) :=
  (awaitSent isr).map fun polls =>
    [.rt_sem_take] ++ DM9000_WriteReg DM9000_IMR IMR_PAR.toUInt16 ++ [.REG DM9000_MWCMD] ++
      moveChain p.chain ++ DM9000_WriteReg DM9000_TXPLL (p.tot_len &&& 0xFF) ++
      DM9000_WriteReg DM9000_TXPLH ((p.tot_len >>> 8) &&& 0xFF) ++
      DM9000_WriteReg DM9000_TCR 0x01 ++ polls ++ DM9000_WriteReg DM9000_ISR 0x02 ++
      DM9000_WriteReg DM9000_IMR imr_all.toUInt16 ++ [.rt_sem_release]

/-! ### Receiving -/

/-- What one turn of the loop at __error_retry is given. -/
structure Turn where
  /-- Word of the second read. -/
  second : UInt16
  rx_status : UInt16
  rx_length : UInt16
  /-- Lengths of the buffers, if the pool has enough of them. -/
  buffers : Option (List ℕ)
  /-- Words of the frame. -/
  frame : ℕ → UInt16

/-- The status byte of the turn. -/
def Turn.rxbyte (t : Turn) : UInt8 := t.second.toUInt8

/-- The frame of the turn is discarded. -/
def Turn.discarded (t : Turn) : Bool :=
  decide (t.rx_status &&& 0xBF00 ≠ 0 ∨ t.rx_length < 0x40 ∨ t.rx_length > DM9000_PKT_MAX)

/-- The words read into a buffer of a length, from a position of the frame on. -/
def fillBuffer (frame : ℕ → UInt16) : ℕ → ℕ → List UInt16
  | 0, _ => []
  | 1, i => [frame i]
  | len + 2, i => frame i :: fillBuffer frame len (i + 1)

/-- The words read into a chain of buffers. -/
def fillChain (frame : ℕ → UInt16) : List ℕ → ℕ → List (List UInt16)
  | [], _ => []
  | len :: lens, i =>
    let words := fillBuffer frame len i
    words :: fillChain frame lens (i + words.length)

/-- Read away a frame without a buffer. An odd length is never counted down to zero. -/
def drain : ℕ → Option (List Op)
  | 0 => some []
  | 1 => none
  | len + 2 => (drain len).map (.read :: ·)

/-- The frame of a turn and the reads that fetch it. -/
def Turn.fetch (t : Turn) : Option (Option (List (List UInt16)) × List Op) :=
  match t.buffers with
  | some lens =>
    let p := fillChain t.frame lens 0
    some (some p, List.replicate p.flatten.length .read)
  | none => (drain t.rx_length.toNat).map fun reads => (none, reads)

/-- The result of a call, its accesses and the interrupt mask it leaves. -/
structure Received where
  p : Option (List (List UInt16))
  ops : List Op
  imr_all : UInt8
  deriving DecidableEq, Repr

/-- The turns of the loop, the first of them at the front. -/
def error_retry (imr_all : UInt8) : List Turn → Option Received
  | [] => none
  | t :: rest =>
    let probe := DM9000_ReadReg DM9000_MRCMDX ++ [.read]
    if t.rxbyte = 0 then
      let imr_all := IMR_PAR ||| IMR_PRI
      some ⟨none, probe ++ DM9000_WriteReg DM9000_ISR ISR_PTS ++
        DM9000_WriteReg DM9000_IMR imr_all.toUInt16 ++ [.rt_sem_release], imr_all⟩
    else if t.rxbyte > 1 then
      some ⟨none, probe ++ DM9000_WriteReg DM9000_RCR 0x00 ++ DM9000_WriteReg DM9000_ISR 0x80,
        imr_all⟩
    else
      t.fetch.bind fun (p, reads) =>
        let fetched := probe ++ [.REG DM9000_MRCMD, .read, .read, .pbuf_alloc t.rx_length] ++ reads
        if t.discarded then
          let reset := if t.rx_length > DM9000_PKT_MAX then DM9000_WriteReg DM9000_NCR NCR_RST
            else []
          let freed := if p.isSome then [Op.pbuf_free] else []
          (error_retry imr_all rest).map fun r =>
            { r with ops := fetched ++ reset ++ freed ++ r.ops }
        else some ⟨p, fetched ++ [.rt_sem_release], imr_all⟩

def DM9000_Receive_Packet (imr_all : UInt8) (turns : List Turn) : Option Received :=
  (error_retry imr_all turns).map fun r => { r with ops := .rt_sem_take :: r.ops }

/-! ### Calls in a row -/

/-- Effect of an access on the value of a semaphore; a taker waits at zero. -/
def semaphore (value : ℕ) : Op → Option ℕ
  | .rt_sem_take => if value = 0 then none else some (value - 1)
  | .rt_sem_release => some (value + 1)
  | _ => some value

/-- The driver and the calls that have returned. -/
structure Ethernet where
  /-- Value of dm9000lock. -/
  lock : ℕ
  imr_all : UInt8
  calls : List (List Op)
  deriving DecidableEq, Repr

/-- A call with what the chip and the pool deliver to it. -/
inductive Event where
  | send (p : Packet) (isr : List UInt16)
  | receive (turns : List Turn)

/-- A call runs to its end if it finds the lock free. -/
def complete (s : Ethernet) (imr_all : UInt8) (ops : List Op) : Option Ethernet :=
  (run semaphore s.lock ops).map fun lock => ⟨lock, imr_all, s.calls ++ [ops]⟩

/-- One call that returns. -/
def step (s : Ethernet) : Event → Option Ethernet
  | .send p isr => (DM9000_SendPacket s.imr_all p isr).bind fun ops => complete s s.imr_all ops
  | .receive turns =>
    (DM9000_Receive_Packet s.imr_all turns).bind fun r => complete s r.imr_all r.ops

/-- The driver after its initialisation. -/
def start : Ethernet := ⟨1, IMR_PAR ||| IMR_PRI, []⟩

/-- Accesses to the lock. -/
def Op.isLock : Op → Bool
  | .rt_sem_take | .rt_sem_release => true
  | _ => false

/-- The accesses of a call to the lock, in order. -/
def lockOps (ops : List Op) : List Op := ops.filter Op.isLock

/-- The lock is free, and every call took it once and then released it once. -/
structure Balanced (s : Ethernet) : Prop where
  free : s.lock = 1
  calls : ∀ ops ∈ s.calls, lockOps ops = [.rt_sem_take, .rt_sem_release]

/-- The turn ends the loop: it is no discarded frame. -/
def Turn.last (t : Turn) : Bool := decide ¬(t.rxbyte = 1 ∧ t.discarded)

/-- The turn that ends a receive call has a valid status byte. -/
def EndsValid (turns : List Turn) : Prop := ∀ t ∈ turns.find? Turn.last, t.rxbyte ≤ 1

instance (turns : List Turn) : Decidable (EndsValid turns) :=
  inferInstanceAs (Decidable (∀ t ∈ turns.find? Turn.last, _))

/-- The chip reports no error that stops it during a call. -/
def Sound (_ : Ethernet) : Event → Prop
  | .send .. => True
  | .receive turns => EndsValid turns

instance (s : Ethernet) : ∀ e, Decidable (Sound s e)
  | .send .. => inferInstanceAs (Decidable True)
  | .receive turns => inferInstanceAs (Decidable (EndsValid turns))

/-! ### The lock operations of a call -/

@[simp] theorem lockOps_nil : lockOps [] = [] := rfl

@[simp] theorem lockOps_append (xs ys : List Op) :
    lockOps (xs ++ ys) = lockOps xs ++ lockOps ys := List.filter_append xs ys

@[simp] theorem lockOps_take (ops : List Op) :
    lockOps (.rt_sem_take :: ops) = .rt_sem_take :: lockOps ops := rfl

@[simp] theorem lockOps_release (ops : List Op) :
    lockOps (.rt_sem_release :: ops) = .rt_sem_release :: lockOps ops := rfl

@[simp] theorem lockOps_REG (value : UInt16) (ops : List Op) :
    lockOps (.REG value :: ops) = lockOps ops := rfl

@[simp] theorem lockOps_read (ops : List Op) : lockOps (.read :: ops) = lockOps ops := rfl

@[simp] theorem lockOps_pbuf_alloc (length : UInt16) (ops : List Op) :
    lockOps (.pbuf_alloc length :: ops) = lockOps ops := rfl

@[simp] theorem lockOps_WriteReg (reg data : UInt16) :
    lockOps (DM9000_WriteReg reg data) = [] := rfl

@[simp] theorem lockOps_ReadReg (reg : UInt16) : lockOps (DM9000_ReadReg reg) = [] := rfl

/-- A list without accesses to the lock has no lock operations. -/
theorem lockOps_eq_nil {ops : List Op} (h : ∀ op ∈ ops, op.isLock = false) : lockOps ops = [] :=
  List.filter_eq_nil_iff.mpr fun op hop => by simp [h op hop]

/-- Moving a byte moves data only. -/
theorem lockOps_moveByte (s : Moved) (byte : UInt8) :
    lockOps (moveByte s byte).1 = lockOps s.1 := by
  unfold moveByte
  split
  · rfl
  · simp [lockOps, Op.isLock]

/-- Moving a packet does not touch the lock. -/
theorem lockOps_moveChain (chain : List (List UInt8)) : lockOps (moveChain chain) = [] := by
  have hbuffer : ∀ (q : List UInt8) (s : Moved), lockOps (q.foldl moveByte s).1 = lockOps s.1 := by
    intro q
    induction q with
    | nil => exact fun s => rfl
    | cons byte q ih => exact fun s => (ih (moveByte s byte)).trans (lockOps_moveByte s byte)
  have hchain : ∀ (chain : List (List UInt8)) (s : Moved),
      lockOps (chain.foldl (fun s q => q.foldl moveByte s) s).1 = lockOps s.1 := by
    intro chain
    induction chain with
    | nil => exact fun s => rfl
    | cons q chain ih => exact fun s => (ih (q.foldl moveByte s)).trans (hbuffer q s)
  unfold moveChain
  rw [lockOps_append, hchain, lockOps_nil, List.nil_append]
  apply lockOps_eq_nil
  intro op hop
  obtain ⟨byte, -, rfl⟩ := Option.map_eq_some_iff.mp (Option.mem_toList.mp hop)
  rfl

/-- Polling does not touch the lock. -/
theorem lockOps_awaitSent {isr : List UInt16} {polls : List Op} (h : awaitSent isr = some polls) :
    lockOps polls = [] := by
  induction isr generalizing polls with
  | nil => exact absurd h (by simp [awaitSent])
  | cons value isr ih =>
    unfold awaitSent at h
    split at h
    · obtain ⟨rest, hrest, rfl⟩ := Option.map_eq_some_iff.mp h
      rw [lockOps_append, ih hrest, lockOps_ReadReg, List.append_nil]
    · cases h
      rfl

/-- Every packet that is sent takes the lock and releases it. -/
theorem lockOps_SendPacket {imr_all : UInt8} {p : Packet} {isr : List UInt16} {ops : List Op}
    (h : DM9000_SendPacket imr_all p isr = some ops) :
    lockOps ops = [.rt_sem_take, .rt_sem_release] := by
  obtain ⟨polls, hpolls, rfl⟩ := Option.map_eq_some_iff.mp h
  simp [lockOps_moveChain, lockOps_awaitSent hpolls]

/-- Reading a frame away does not touch the lock. -/
theorem lockOps_drain : ∀ {len : ℕ} {reads : List Op}, drain len = some reads → lockOps reads = []
  | 0, reads, h => by
    cases h
    rfl
  | 1, reads, h => absurd h (by simp [drain])
  | len + 2, reads, h => by
    obtain ⟨rest, hrest, rfl⟩ := Option.map_eq_some_iff.mp h
    rw [lockOps_read]
    exact lockOps_drain hrest

/-- Fetching a frame does not touch the lock. -/
theorem lockOps_fetch {t : Turn} {p : Option (List (List UInt16))} {reads : List Op}
    (h : t.fetch = some (p, reads)) : lockOps reads = [] := by
  unfold Turn.fetch at h
  split at h
  · cases h
    exact lockOps_eq_nil fun op hop => by rw [List.eq_of_mem_replicate hop]; rfl
  · obtain ⟨rest, hrest, heq⟩ := Option.map_eq_some_iff.mp h
    cases heq
    exact lockOps_drain hrest

/-- A turn that ends the loop decides. -/
theorem endsValid_of_last {t : Turn} (h : t.last = true) (rest : List Turn) :
    EndsValid (t :: rest) ↔ t.rxbyte ≤ 1 := by
  unfold EndsValid
  rw [List.find?_cons_of_pos h]
  simp

/-- A discarded frame leaves the decision to the next turns. -/
theorem endsValid_of_not_last {t : Turn} (h : t.last = false) (rest : List Turn) :
    EndsValid (t :: rest) ↔ EndsValid rest := by
  unfold EndsValid
  rw [List.find?_cons_of_neg (by simp [h])]

/-- A receive call that returns gives the lock back exactly if the turn that
ends its loop has a valid status byte. -/
theorem lockOps_error_retry {imr_all : UInt8} {turns : List Turn} {r : Received}
    (h : error_retry imr_all turns = some r) :
    lockOps r.ops = if EndsValid turns then [.rt_sem_release] else [] := by
  induction turns generalizing r with
  | nil => exact absurd h (by simp [error_retry])
  | cons t rest ih =>
    unfold error_retry at h
    dsimp only at h
    split at h
    case isTrue hzero =>
      have hlast : t.last = true := by simp [Turn.last, hzero]
      cases h
      simp [endsValid_of_last hlast, hzero]
    case isFalse hzero =>
      split at h
      case isTrue hbig =>
        have hlast : t.last = true := by
          refine decide_eq_true fun hone => ?_
          rw [hone.1] at hbig
          exact absurd hbig (by decide)
        have hinvalid : ¬t.rxbyte ≤ 1 := UInt8.not_le.mpr hbig
        cases h
        simp [endsValid_of_last hlast, hinvalid]
      case isFalse hsmall =>
        have hone : t.rxbyte = 1 := by
          rw [UInt8.not_lt, UInt8.le_iff_toNat_le] at hsmall
          have hne : t.rxbyte.toNat ≠ 0 := fun h0 => hzero (UInt8.toNat_inj.mp h0)
          exact UInt8.toNat_inj.mp (by simp at hsmall ⊢; omega)
        obtain ⟨⟨p, reads⟩, hfetch, h⟩ := Option.bind_eq_some_iff.mp h
        have hreads := lockOps_fetch hfetch
        dsimp only at h
        split at h
        case isTrue hbad =>
          have hlast : t.last = false := by simp [Turn.last, hone, hbad]
          obtain ⟨u, hu, rfl⟩ := Option.map_eq_some_iff.mp h
          have hreset : lockOps (if t.rx_length > DM9000_PKT_MAX then
              DM9000_WriteReg DM9000_NCR NCR_RST else []) = [] := by split <;> rfl
          have hfreed : lockOps (if p.isSome then [Op.pbuf_free] else []) = [] := by
            split <;> rfl
          simpa [endsValid_of_not_last hlast, hreads, hreset, hfreed] using ih hu
        case isFalse hgood =>
          have hlast : t.last = true := by simp [Turn.last, hgood]
          cases h
          simp [endsValid_of_last hlast, hone, hreads]

/-! ### The lock over all calls -/

/-- Only the lock operations of a call change the semaphore. -/
theorem run_semaphore_lockOps (value : ℕ) (ops : List Op) :
    run semaphore value ops = run semaphore value (lockOps ops) := by
  induction ops generalizing value with
  | nil => rfl
  | cons op ops ih =>
    cases op with
    | rt_sem_take =>
      rw [lockOps_take, run, run]
      exact congrArg (Option.bind _) (funext ih)
    | rt_sem_release =>
      rw [lockOps_release, run, run]
      exact congrArg (Option.bind _) (funext ih)
    | _ => exact ih value

/-- A call that takes and releases keeps the driver balanced. -/
theorem Balanced.complete {s t : Ethernet} {imr_all : UInt8} {ops : List Op} (hs : Balanced s)
    (hops : lockOps ops = [.rt_sem_take, .rt_sem_release])
    (ht : complete s imr_all ops = some t) : Balanced t := by
  obtain ⟨lock, hlock, rfl⟩ := Option.map_eq_some_iff.mp ht
  rw [run_semaphore_lockOps, hops, hs.free] at hlock
  cases hlock
  refine ⟨rfl, fun xs hxs => ?_⟩
  rcases List.mem_append.mp hxs with hxs | hxs
  · exact hs.calls xs hxs
  · rwa [List.mem_singleton.mp hxs]

/-- A call that only takes leaves the lock taken. -/
theorem not_balanced_of_take {s t : Ethernet} {imr_all : UInt8} {ops : List Op}
    (hops : lockOps ops = [.rt_sem_take]) (ht : complete s imr_all ops = some t) :
    ¬Balanced t := by
  obtain ⟨lock, -, rfl⟩ := Option.map_eq_some_iff.mp ht
  intro hbalanced
  have hlast := hbalanced.calls ops (List.mem_append_right _ (List.mem_singleton_self ops))
  exact absurd (hops.symm.trans hlast) (by decide)

/-- The lock operations of a receive call. -/
theorem lockOps_Receive_Packet {imr_all : UInt8} {turns : List Turn} {r : Received}
    (h : DM9000_Receive_Packet imr_all turns = some r) :
    lockOps r.ops = .rt_sem_take :: if EndsValid turns then [.rt_sem_release] else [] := by
  obtain ⟨u, hu, rfl⟩ := Option.map_eq_some_iff.mp h
  rw [lockOps_take, lockOps_error_retry hu]

/-- A call without an invalid status byte keeps the driver balanced. -/
theorem balanced_step {s t : Ethernet} {e : Event} (hs : Balanced s) (he : Sound s e)
    (ht : step s e = some t) : Balanced t := by
  cases e with
  | send p isr =>
    obtain ⟨ops, hops, ht⟩ := Option.bind_eq_some_iff.mp ht
    exact hs.complete (lockOps_SendPacket hops) ht
  | receive turns =>
    obtain ⟨r, hr, ht⟩ := Option.bind_eq_some_iff.mp ht
    refine hs.complete ?_ ht
    have hvalid : EndsValid turns := he
    rw [lockOps_Receive_Packet hr, if_pos hvalid]

/-- A call that ends at an invalid status byte keeps the lock. -/
theorem not_balanced_of_not_sound {s t : Ethernet} {e : Event} (he : ¬Sound s e)
    (ht : step s e = some t) : ¬Balanced t := by
  cases e with
  | send p isr => exact absurd trivial he
  | receive turns =>
    obtain ⟨r, hr, ht⟩ := Option.bind_eq_some_iff.mp ht
    refine not_balanced_of_take ?_ ht
    have hinvalid : ¬EndsValid turns := he
    rw [lockOps_Receive_Packet hr, if_neg hinvalid]

/-- In every sequence of calls the lock is given back exactly if no receive
call ends at an invalid status byte. -/
theorem balanced_iff_sound (es : List Event) :
    Always Balanced step start es ↔ Guarded Sound step start es :=
  always_iff_guarded (fun _ h => h) (fun _ _ _ => balanced_step)
    (fun _ _ _ _ he ht => not_balanced_of_not_sound he ht) es
    ⟨rfl, fun _ h => absurd h List.not_mem_nil⟩

/-- After a status byte of two the next call waits forever. -/
theorem not_balanced_after_error :
    ¬∀ es, Always Balanced step start es := by
  intro h
  have hend : (run step start [.receive [⟨2, 0, 0, none, fun _ => 0⟩]]).any
      (fun t => t.lock = 0) = true := by decide +kernel
  obtain ⟨t, hr, ht⟩ := (Option.any_eq_true _ _).mp hend
  have hfree := ((h _).of_run hr).free
  exact absurd (hfree.symm.trans (of_decide_eq_true ht)) (by decide)

end SmartHome.EthernetLock
