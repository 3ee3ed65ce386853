import SmartHome.FrameReading
import SmartHome.PacketSending

/-!
# Frames from one driver to another

The driver that sends packs the bytes of a packet into words, and the driver
that receives stores the bytes of words. The chips and the line between them
carry as many bytes as the length registers say; what follows them, such as
the check sequence of the frame, is not looked at.
-/

namespace SmartHome.FrameTransfer

open EthernetLock FrameReading PacketSending WordPacking

/-- The words read from one chip from a position on begin with the bytes of the
words written to another. -/
def Carried (sent : List UInt16) (n : ℕ) (chip : ℕ → UInt16) (words : ℕ) : Prop :=
  ∀ i < n, streamByte chip (2 * words + i) = streamByte (fun j => sent.getD j 0) i

/-- The bytes of carried words are those that have been packed. -/
theorem streamBytes_of_carried {chip : ℕ → UInt16} {bytes : List UInt8} {words : ℕ}
    (h : Carried (pack bytes) bytes.length chip words) :
    streamBytes chip (2 * words) bytes.length = bytes := by
  apply List.ext_getElem
  · rw [streamBytes, List.length_map, List.length_range]
  · intro i _ hi
    simp only [streamBytes, List.getElem_map, List.getElem_range]
    rw [h i hi, streamByte_pack hi]

/-- A stream begins with its first bytes. -/
theorem streamBytes_take (chip : ℕ → UInt16) (start : ℕ) {m n : ℕ} (h : m ≤ n) :
    (streamBytes chip start n).take m = streamBytes chip start m := by
  rw [streamBytes, streamBytes, ← List.map_take, List.take_range, Nat.min_eq_left h]

/-- Whatever buffers the packet is split into on one side and the frame on the
other, where only the last one may be odd, the payload of the received chain
begins with the bytes of the packet. -/
theorem frame_transferred (p : Packet) (hp : p.tot_len.toNat = payloadLength p)
    {imr_all : UInt8} {isr : List UInt16} {ops : List Op}
    (hops : DM9000_SendPacket imr_all p isr = some ops) (selected : UInt16)
    (c : Chain) (hlen : p.tot_len.toNat ≤ totalLength c.pbufs)
    (heven : ∀ q ∈ c.pbufs.dropLast, q.len.toNat % 2 = 0) (chip : ℕ → UInt16) (s : Reading)
    (hcarried : Carried (written DM9000_MWCMD selected ops) p.tot_len.toNat chip s.words) :
    ∃ fuel t, copyLoop chip fuel c.pbufs s = some t ∧
      (content t.memory c.pbufs).take p.tot_len.toNat = p.chain.flatten := by
  obtain ⟨t, ht, hdelivered⟩ := copyLoop_spec chip c.apart heven s
  have hbytes : p.tot_len.toNat = p.chain.flatten.length := by
    rw [hp, payloadLength, List.length_flatten]
  refine ⟨32769, t, ht, ?_⟩
  rw [hdelivered.content, streamBytes_take chip _ hlen]
  rw [written_SendPacket hp hops selected, hbytes] at hcarried
  rw [hbytes]
  exact streamBytes_of_carried hcarried

/-- A packet of five bytes in buffers of three and two. -/
def fiveBytes : Packet := ⟨[[1, 2, 3], [4, 5]], 5⟩

/-- The accesses with which it is sent. -/
def fiveOps : List Op := (DM9000_SendPacket 0x81 fiveBytes [0x02]).getD []

/-- The words of the packet, and a check sequence behind them. -/
def fiveChip (j : ℕ) : UInt16 := [0x0201, 0x0403, 0xAA05, 0xBBBB].getD j 0

/-- Two buffers with four and five bytes. -/
def nineBytes : Chain where
  pbufs := [⟨300, 4, 6, by decide, rfl⟩, ⟨400, 5, 8, by decide, rfl⟩]
  apart := List.pairwise_pair.mpr (.inl (by decide))

theorem frame_transferred_fiveBytes : ∃ fuel t,
    copyLoop fiveChip fuel nineBytes.pbufs ⟨fun _ => 0, 0⟩ = some t ∧
      (content t.memory nineBytes.pbufs).take 5 = [1, 2, 3, 4, 5] := by
  have hsent : DM9000_SendPacket 0x81 fiveBytes [0x02] = some fiveOps := rfl
  have hcarried : Carried (written DM9000_MWCMD 0 fiveOps) 5 fiveChip 0 := by
    unfold Carried
    decide
  exact frame_transferred fiveBytes (by decide) hsent 0 nineBytes (by decide) (by decide)
    fiveChip ⟨fun _ => 0, 0⟩ hcarried

end SmartHome.FrameTransfer
