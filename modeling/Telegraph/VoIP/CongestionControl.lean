import Telegraph.Lib.Slots
import Telegraph.VoIP.RecvWindow

/-!
# The Congestion Control of a Call

`CongestionControl` has 100 slots for the packets that are on their way, and keeps the sum of their
sizes and a count of those that were lost. A packet that is sent takes a free slot or that of the
packet sent first, which then is lost; one that is acknowledged frees its slot, and so does one that
is two seconds old. As in the window of the receive thread a reading of the clock is a positive
natural, here of nanoseconds, and a slot that is free has the time `0`. The round-trip times, which
are floating-point numbers, are left out.

The sum has 64 bits and the sizes come with 32, so it is exact. The count of the losses has 32 bits:
it is the number of losses only up to this.

## Main results

* `exists_chooseSlot`: the assertion holds, a packet always gets a slot.
* `totals_free`, `totals_fill`: what writing to a slot does to the sum and to the number of packets.
* `handle_accounted`: **one call keeps the books**.
* `congestion_accounted`: so does every run.
* `not_congestion_counted`: **the count of the losses wraps**.
-/

namespace Telegraph.VoIP

/-! ### The table -/

/-- The slots of `inflightPackets`. -/
abbrev inflightSlotCount : ℕ := 100

/-- Two seconds. -/
def lossTimeout : ℕ := 2000000000

/-- `tgvoip_congestionctl_packet_t`. -/
structure InflightPacket where
  seq : BitVec 32
  sendTime : ℕ
  size : BitVec 64

/-- `CongestionControl`. The last four fields are for the statements: how many packets were
accepted, how many an acknowledgement took out, how many were lost, and whether a size was ever
subtracted from a smaller sum. -/
structure CongestionControl where
  inflightPackets : Fin inflightSlotCount → InflightPacket
  inflightHistory : Fin 30 → BitVec 64
  inflightHistoryTop : Fin 30
  lastSentSeq : BitVec 32
  inflightDataSize : BitVec 64
  lossCount : BitVec 32
  accepted : ℕ
  acknowledged : ℕ
  lost : ℕ
  wrapped : Bool

namespace CongestionControl

/-- The constructor. -/
def new : CongestionControl where
  inflightPackets _ := ⟨0, 0, 0⟩
  inflightHistory _ := 0
  inflightHistoryTop := 0
  lastSentSeq := 0
  inflightDataSize := 0
  lossCount := 0
  accepted := 0
  acknowledged := 0
  lost := 0
  wrapped := false

/-- `inflightDataSize-=inflightPackets[i].size`. -/
def subtractSize (i : Fin inflightSlotCount) (c : CongestionControl) : CongestionControl :=
  { c with
    inflightDataSize := c.inflightDataSize - (c.inflightPackets i).size
    wrapped := c.wrapped || decide (c.inflightDataSize < (c.inflightPackets i).size) }

/-- `inflightPackets[i].sendTime=0`, and the subtraction. -/
def freeSlot (i : Fin inflightSlotCount) (c : CongestionControl) : CongestionControl :=
  { c.subtractSize i with
    inflightPackets :=
      Function.update c.inflightPackets i { c.inflightPackets i with sendTime := 0 } }

/-- `lossCount++`. -/
def countLoss (c : CongestionControl) : CongestionControl :=
  { c with lossCount := c.lossCount + 1, lost := c.lost + 1 }

/-- `PacketAcknowledged`. -/
def packetAcknowledged (seq : BitVec 32) (c : CongestionControl) : CongestionControl :=
  match (List.finRange inflightSlotCount).find? fun i =>
      (c.inflightPackets i).seq = seq && 0 < (c.inflightPackets i).sendTime with
  | some i => { c.freeSlot i with acknowledged := c.acknowledged + 1 }
  | none => c

/-- The loop of `PacketSent` that looks for a slot, with the one found so far. -/
def chooseSlot (c : CongestionControl) :
    List (Fin inflightSlotCount) → Option (Fin inflightSlotCount) → Option (Fin inflightSlotCount)
  | [], slot => slot
  | i :: is, slot =>
      if (c.inflightPackets i).sendTime = 0 then some i
      else
        match slot with
        | none => c.chooseSlot is (some i)
        | some j =>
            if (c.inflightPackets j).sendTime > (c.inflightPackets i).sendTime then
              c.chooseSlot is (some i)
            else c.chooseSlot is (some j)

/-- The packet in the slot is lost if there is one. -/
def evict (i : Fin inflightSlotCount) (c : CongestionControl) : CongestionControl :=
  if 0 < (c.inflightPackets i).sendTime then (c.subtractSize i).countLoss else c

/-- The end of `PacketSent`. -/
def fillSlot (i : Fin inflightSlotCount) (seq : BitVec 32) (size : BitVec 64) (now : ℕ+)
    (c : CongestionControl) : CongestionControl :=
  { c with
    inflightPackets := Function.update c.inflightPackets i ⟨seq, now, size⟩
    inflightDataSize := c.inflightDataSize + size }

/-- `lastSentSeq=seq`: the packet is accepted. -/
def accept (seq : BitVec 32) (c : CongestionControl) : CongestionControl :=
  { c with lastSentSeq := seq, accepted := c.accepted + 1 }

/-- `PacketSent`; no slot would trip the assertion. -/
def packetSent (seq : BitVec 32) (size : BitVec 64) (now : ℕ+) (c : CongestionControl) :
    CongestionControl :=
  if !seqgt seq c.lastSentSeq || seq = c.lastSentSeq then c
  else
    match (c.accept seq).chooseSlot (List.finRange inflightSlotCount) none with
    | some i => ((c.accept seq).evict i).fillSlot i seq size now
    | none => c.accept seq

/-- A round of the loop of `Tick`, at the time that the clock shows in it. -/
def expire (now : Fin inflightSlotCount → ℕ+) (c : CongestionControl)
    (i : Fin inflightSlotCount) : CongestionControl :=
  if (c.inflightPackets i).sendTime ≠ 0 ∧
      (now i : ℕ) - (c.inflightPackets i).sendTime > lossTimeout then
    (c.freeSlot i).countLoss
  else c

/-- `Tick`. -/
def tick (now : Fin inflightSlotCount → ℕ+) (c : CongestionControl) : CongestionControl :=
  let c := (List.finRange inflightSlotCount).foldl (expire now) c
  { c with
    inflightHistory := Function.update c.inflightHistory c.inflightHistoryTop c.inflightDataSize
    inflightHistoryTop := c.inflightHistoryTop + 1 }

end CongestionControl

/-- A call of the congestion control. A packet is sent with the length of its payload, which has 32
bits. -/
inductive CongestionEvent where
  | packetSent (pseq length : BitVec 32) (now : ℕ+)
  | packetAcknowledged (seq : BitVec 32)
  | tick (now : Fin inflightSlotCount → ℕ+)

/-- What a call does. -/
def CongestionControl.handle (c : CongestionControl) : CongestionEvent → CongestionControl
  | .packetSent pseq length now => c.packetSent pseq (length.setWidth 64) now
  | .packetAcknowledged seq => c.packetAcknowledged seq
  | .tick now => c.tick now

/-! ### The books -/

/-- What a slot adds to the sum. -/
def InflightPacket.counted (p : InflightPacket) : ℕ := if p.sendTime = 0 then 0 else p.size.toNat

/-- What a slot adds to the number of packets on their way. -/
def InflightPacket.present (p : InflightPacket) : ℕ := if p.sendTime = 0 then 0 else 1

/-- The sizes of the packets on their way. -/
def CongestionControl.inflightTotal (c : CongestionControl) : ℕ :=
  ∑ i, (c.inflightPackets i).counted

/-- The number of packets on their way. -/
def CongestionControl.occupied (c : CongestionControl) : ℕ :=
  ∑ i, (c.inflightPackets i).present

/-- **The books**: the sum is that of the slots in use, no subtraction went below zero, and every
packet that was accepted was acknowledged, is lost or on its way; the losses are counted with 32
bits. -/
structure Accounted (c : CongestionControl) : Prop where
  size : c.inflightDataSize.toNat = c.inflightTotal
  exact : c.wrapped = false
  count : c.accepted = c.acknowledged + c.lost + c.occupied
  lossCount : c.lossCount.toNat = c.lost % 2 ^ 32

/-- What the books say of the sizes, which have 32 bits. -/
structure Balanced (c : CongestionControl) : Prop where
  size : c.inflightDataSize.toNat = c.inflightTotal
  exact : c.wrapped = false
  small : ∀ i, (c.inflightPackets i).size.toNat < 2 ^ 32

section Slot

variable {c : CongestionControl} {i : Fin inflightSlotCount}

@[simp] theorem counted_free (p : InflightPacket) :
    InflightPacket.counted { p with sendTime := 0 } = 0 := rfl

@[simp] theorem present_free (p : InflightPacket) :
    InflightPacket.present { p with sendTime := 0 } = 0 := rfl

/-- **The sizes of all slots have room in the sum.** -/
theorem inflightTotal_le (h : ∀ i, (c.inflightPackets i).size.toNat < 2 ^ 32) :
    c.inflightTotal ≤ 100 * 2 ^ 32 := by
  have hle : ∀ i ∈ Finset.univ, (c.inflightPackets i).counted ≤ 2 ^ 32 := by
    intro i _
    rw [InflightPacket.counted]
    split
    · exact Nat.zero_le _
    · exact (h i).le
  have hsum := Finset.sum_le_card_nsmul Finset.univ _ _ hle
  rwa [Finset.card_univ, Fintype.card_fin, nsmul_eq_mul, Nat.cast_id] at hsum

/-- There are not more packets than slots. -/
theorem occupied_le (c : CongestionControl) : c.occupied ≤ 100 := by
  have hle : ∀ i ∈ Finset.univ, (c.inflightPackets i).present ≤ 1 := by
    intro i _
    rw [InflightPacket.present]
    split <;> omega
  have hsum := Finset.sum_le_card_nsmul Finset.univ _ _ hle
  rwa [Finset.card_univ, Fintype.card_fin, nsmul_eq_mul, Nat.cast_id, mul_one] at hsum

/-- **A slot is freed**: its size goes off the sum, which is not below it. -/
theorem Balanced.freeSlot (h : Balanced c) (hi : (c.inflightPackets i).sendTime ≠ 0) :
    Balanced (c.freeSlot i) ∧ c.occupied = (c.freeSlot i).occupied + 1 := by
  have hcounted : (c.inflightPackets i).counted = (c.inflightPackets i).size.toNat := if_neg hi
  have hpresent : (c.inflightPackets i).present = 1 := if_neg hi
  have htotal : c.inflightTotal = (c.inflightPackets i).counted + (c.freeSlot i).inflightTotal :=
    Slots.sum_update_of_zero c.inflightPackets i (counted_free _)
  have hoccupied : c.occupied = (c.inflightPackets i).present + (c.freeSlot i).occupied :=
    Slots.sum_update_of_zero c.inflightPackets i (present_free _)
  have hsize := h.size
  have hle : (c.inflightPackets i).size.toNat ≤ c.inflightDataSize.toNat := by omega
  refine ⟨⟨?_, ?_, fun j => ?_⟩, by omega⟩
  · change (c.inflightDataSize - (c.inflightPackets i).size).toNat = _
    rw [BitVec.toNat_sub_of_le (BitVec.le_def.mpr hle)]
    omega
  · change (c.wrapped || decide (c.inflightDataSize < (c.inflightPackets i).size)) = false
    rw [h.exact, decide_eq_false (BitVec.not_lt.mpr (BitVec.le_def.mpr hle))]
    rfl
  · change (Function.update c.inflightPackets i _ j).size.toNat < _
    by_cases hji : j = i
    · subst hji
      rw [Function.update_self]
      exact h.small j
    · rw [Function.update_of_ne hji]
      exact h.small j

/-- **A free slot is filled.** -/
theorem Balanced.fillSlot (h : Balanced c) (hi : (c.inflightPackets i).sendTime = 0)
    {size : BitVec 64} (hsmall : size.toNat < 2 ^ 32) (seq : BitVec 32) (now : ℕ+) :
    Balanced (c.fillSlot i seq size now) ∧
      (c.fillSlot i seq size now).occupied = c.occupied + 1 := by
  have hcounted : InflightPacket.counted ⟨seq, now, size⟩ = size.toNat := if_neg now.ne_zero
  have hpresent : InflightPacket.present ⟨seq, now, size⟩ = 1 := if_neg now.ne_zero
  have htotal : (c.fillSlot i seq size now).inflightTotal =
      InflightPacket.counted ⟨seq, now, size⟩ + c.inflightTotal :=
    Slots.sum_update_of_free c.inflightPackets i _ (if_pos hi)
  have hoccupied : (c.fillSlot i seq size now).occupied =
      InflightPacket.present ⟨seq, now, size⟩ + c.occupied :=
    Slots.sum_update_of_free c.inflightPackets i _ (if_pos hi)
  have hsize := h.size
  have hroom := inflightTotal_le h.small
  refine ⟨⟨?_, h.exact, fun j => ?_⟩, by omega⟩
  · change (c.inflightDataSize + size).toNat = _
    rw [BitVec.toNat_add_of_lt (by omega)]
    omega
  · change (Function.update c.inflightPackets i _ j).size.toNat < _
    by_cases hji : j = i
    · subst hji
      rw [Function.update_self]
      exact hsmall
    · rw [Function.update_of_ne hji]
      exact h.small j

end Slot

/-! ### One call -/

/-- What holds between the calls. -/
structure Booked (c : CongestionControl) : Prop where
  balanced : Balanced c
  count : c.accepted = c.acknowledged + c.lost + c.occupied
  lossCount : c.lossCount.toNat = c.lost % 2 ^ 32

/-- The books are kept. -/
theorem Booked.accounted {c : CongestionControl} (h : Booked c) : Accounted c :=
  ⟨h.balanced.size, h.balanced.exact, h.count, h.lossCount⟩

section Calls

variable {c : CongestionControl} {i : Fin inflightSlotCount}

/-- One more loss is counted. -/
theorem toNat_lossCount_add_one (h : c.lossCount.toNat = c.lost % 2 ^ 32) :
    (c.lossCount + 1).toNat = (c.lost + 1) % 2 ^ 32 := by
  rw [BitVec.toNat_add, h]
  change (c.lost % 2 ^ 32 + 1) % 2 ^ 32 = _
  omega

/-- **A packet is lost.** -/
theorem Booked.lose (h : Booked c) (hi : (c.inflightPackets i).sendTime ≠ 0) :
    Booked (c.freeSlot i).countLoss := by
  obtain ⟨hbalanced, hoccupied⟩ := h.balanced.freeSlot hi
  refine ⟨⟨hbalanced.size, hbalanced.exact, hbalanced.small⟩, ?_,
    toNat_lossCount_add_one h.lossCount⟩
  have hcount := h.count
  change c.accepted = c.acknowledged + (c.lost + 1) + (c.freeSlot i).occupied
  omega

/-- **A packet is acknowledged**, once: its slot is free then. -/
theorem packetAcknowledged_booked (h : Booked c) (seq : BitVec 32) :
    Booked (c.packetAcknowledged seq) := by
  rw [CongestionControl.packetAcknowledged]
  split
  · next i hfind =>
      have hfound := List.find?_some hfind
      rw [Bool.and_eq_true, decide_eq_true_iff, decide_eq_true_iff] at hfound
      obtain ⟨hbalanced, hoccupied⟩ := h.balanced.freeSlot hfound.2.ne'
      refine ⟨⟨hbalanced.size, hbalanced.exact, hbalanced.small⟩, ?_, h.lossCount⟩
      have hcount := h.count
      change c.accepted = c.acknowledged + 1 + c.lost + (c.freeSlot i).occupied
      omega
  · exact h

/-- **The assertion holds**: there is a slot to choose. -/
theorem exists_chooseSlot (l : List (Fin inflightSlotCount)) (slot : Option (Fin inflightSlotCount))
    (h : l ≠ [] ∨ slot.isSome = true) : ∃ i, c.chooseSlot l slot = some i := by
  induction l generalizing slot with
  | nil => exact Option.isSome_iff_exists.mp (h.resolve_left fun hne => hne rfl)
  | cons j l ih =>
      rw [CongestionControl.chooseSlot.eq_def]
      dsimp only
      split
      · exact ⟨j, rfl⟩
      · split
        · exact ih _ (.inr rfl)
        · split
          · exact ih _ (.inr rfl)
          · exact ih _ (.inr rfl)

/-- A slot that is filled anew might as well have been freed before. -/
theorem fillSlot_evict (hi : (c.inflightPackets i).sendTime ≠ 0) (seq : BitVec 32)
    (size : BitVec 64) (now : ℕ+) :
    (c.evict i).fillSlot i seq size now = (c.freeSlot i).countLoss.fillSlot i seq size now := by
  rw [CongestionControl.evict, if_pos (Nat.pos_of_ne_zero hi)]
  simp only [CongestionControl.fillSlot, CongestionControl.countLoss, CongestionControl.freeSlot,
    CongestionControl.subtractSize, Function.update_idem]

/-- **A packet that was accepted gets a slot**: a free one, or that of a packet that is lost. -/
theorem fillSlot_booked (h : Balanced c)
    (hcount : c.accepted = c.acknowledged + c.lost + c.occupied + 1)
    (hlosses : c.lossCount.toNat = c.lost % 2 ^ 32) (seq : BitVec 32) {size : BitVec 64}
    (hsmall : size.toNat < 2 ^ 32) (now : ℕ+) :
    Booked ((c.evict i).fillSlot i seq size now) := by
  by_cases hi : (c.inflightPackets i).sendTime = 0
  · rw [CongestionControl.evict, if_neg fun hpos => hpos.ne' hi]
    obtain ⟨hfilled, hoccupied⟩ := h.fillSlot hi hsmall seq now
    refine ⟨hfilled, ?_, hlosses⟩
    rw [hoccupied]
    change c.accepted = c.acknowledged + c.lost + (c.occupied + 1)
    omega
  · rw [fillSlot_evict hi]
    obtain ⟨hfreed, hfree⟩ := h.freeSlot hi
    have hlost : Balanced (c.freeSlot i).countLoss := ⟨hfreed.size, hfreed.exact, hfreed.small⟩
    have hnow : ((c.freeSlot i).countLoss.inflightPackets i).sendTime = 0 := by
      simp [CongestionControl.countLoss, CongestionControl.freeSlot]
    obtain ⟨hfilled, hoccupied⟩ := hlost.fillSlot hnow hsmall seq now
    refine ⟨hfilled, ?_, toNat_lossCount_add_one hlosses⟩
    rw [hoccupied]
    change c.accepted = c.acknowledged + (c.lost + 1) + ((c.freeSlot i).occupied + 1)
    omega

/-- **A packet is sent.** -/
theorem packetSent_booked (h : Booked c) (seq : BitVec 32) {size : BitVec 64}
    (hsmall : size.toNat < 2 ^ 32) (now : ℕ+) : Booked (c.packetSent seq size now) := by
  rw [CongestionControl.packetSent]
  split
  · exact h
  · obtain ⟨i, hchoose⟩ :=
      exists_chooseSlot (c := c.accept seq) (List.finRange inflightSlotCount) none
        (.inl (List.ne_nil_of_mem (List.mem_finRange 0)))
    rw [hchoose]
    have hbalanced : Balanced (c.accept seq) :=
      ⟨h.balanced.size, h.balanced.exact, h.balanced.small⟩
    exact fillSlot_booked hbalanced (congrArg (· + 1) h.count) h.lossCount seq hsmall now

/-- **A tick** loses the packets that are too old. -/
theorem tick_booked (h : Booked c) (now : Fin inflightSlotCount → ℕ+) : Booked (c.tick now) := by
  have hloop : Booked ((List.finRange inflightSlotCount).foldl
      (CongestionControl.expire now) c) := by
    generalize List.finRange inflightSlotCount = l
    induction l generalizing c with
    | nil => exact h
    | cons i l ih =>
        refine ih ?_
        rw [CongestionControl.expire]
        split
        · next hexpired => exact h.lose hexpired.1
        · exact h
  rw [CongestionControl.tick]
  generalize (List.finRange inflightSlotCount).foldl (CongestionControl.expire now) c = c' at hloop
  exact ⟨⟨hloop.balanced.size, hloop.balanced.exact, hloop.balanced.small⟩, hloop.count,
    hloop.lossCount⟩

/-- **One call keeps the books.** -/
theorem handle_booked (h : Booked c) (e : CongestionEvent) : Booked (c.handle e) := by
  cases e with
  | packetSent pseq length now =>
      refine packetSent_booked h pseq ?_ now
      rw [BitVec.toNat_setWidth]
      have := length.isLt
      omega
  | packetAcknowledged seq => exact packetAcknowledged_booked h seq
  | tick now => exact tick_booked h now

end Calls

/-! ### Runs -/

/-- At the beginning nothing is on its way. -/
theorem new_booked : Booked CongestionControl.new := by
  have htotal : CongestionControl.new.inflightTotal = 0 := Finset.sum_eq_zero fun _ _ => rfl
  have hoccupied : CongestionControl.new.occupied = 0 := Finset.sum_eq_zero fun _ _ => rfl
  exact ⟨⟨htotal.symm, rfl, fun _ => Nat.two_pow_pos 32⟩, hoccupied.symm, rfl⟩

/-- **The books are kept in every run**: `inflightDataSize` is the sum of the sizes of the slots in
use, no subtraction wraps, and every packet that was accepted was acknowledged, is lost or on its
way. `lossCount` is the number of the lost modulo `2 ^ 32`. -/
theorem congestion_accounted (es : List CongestionEvent) :
    Machine.Always CongestionControl.handle Accounted CongestionControl.new es :=
  (Machine.always_of_step (I := Booked) (fun _ e h => handle_booked h e) new_booked).mono
    fun _ => Booked.accounted

/-! ### A long run -/

section LongRun

variable {c : CongestionControl}

/-- The next number is ahead. -/
theorem seqgt_add_one (l : BitVec 32) : seqgt (l + 1) l = true ∧ l + 1 ≠ l := by
  have hlag : SeqNum.lag l (l + 1) = 2 ^ 32 - 1 := by
    rw [SeqNum.lag]
    bv_omega
  refine ⟨seqgt_iff.mpr (.inl ?_), ?_⟩
  · omega
  · intro h
    rw [h, SeqNum.lag_self] at hlag
    omega

/-- A packet with the next number is accepted. -/
theorem packetSent_next (size : BitVec 64) (now : ℕ+) :
    (c.packetSent (c.lastSentSeq + 1) size now).accepted = c.accepted + 1 ∧
      (c.packetSent (c.lastSentSeq + 1) size now).acknowledged = c.acknowledged ∧
      (c.packetSent (c.lastSentSeq + 1) size now).lastSentSeq = c.lastSentSeq + 1 := by
  obtain ⟨hahead, hother⟩ := seqgt_add_one c.lastSentSeq
  obtain ⟨i, hchoose⟩ := exists_chooseSlot (c := c.accept (c.lastSentSeq + 1))
    (List.finRange inflightSlotCount) none (.inl (List.ne_nil_of_mem (List.mem_finRange 0)))
  rw [CongestionControl.packetSent, hahead, hchoose]
  simp only [Bool.not_true, Bool.false_or, decide_eq_true_eq, hother, if_false]
  rw [CongestionControl.evict]
  split <;> exact ⟨rfl, rfl, rfl⟩

/-- Packets that are sent one after the other, without any being acknowledged. -/
def sentPackets (count : ℕ) : List CongestionEvent :=
  (List.range count).map fun k => .packetSent (BitVec.ofNat 32 (k + 1)) 1 1

/-- **All of them are accepted.** -/
theorem run_sentPackets (count : ℕ) :
    (Machine.run CongestionControl.handle .new (sentPackets count)).accepted = count ∧
      (Machine.run CongestionControl.handle .new (sentPackets count)).acknowledged = 0 ∧
      (Machine.run CongestionControl.handle .new (sentPackets count)).lastSentSeq =
        BitVec.ofNat 32 count := by
  induction count with
  | zero => exact ⟨rfl, rfl, rfl⟩
  | succ count ih =>
      obtain ⟨haccepted, hacknowledged, hseq⟩ := ih
      rw [sentPackets, List.range_succ, List.map_append, ← sentPackets, Machine.run_append]
      generalize Machine.run CongestionControl.handle .new (sentPackets count) = c at *
      have hnext : BitVec.ofNat 32 (count + 1) = c.lastSentSeq + 1 := by
        rw [hseq, BitVec.ofNat_add]
        rfl
      obtain ⟨hone, hsame, hlast⟩ := packetSent_next (c := c) ((1 : BitVec 32).setWidth 64) 1
      rw [List.map_singleton, Machine.run_cons, Machine.run_nil, CongestionControl.handle, hnext]
      exact ⟨by rw [hone, haccepted], by rw [hsame, hacknowledged], hlast⟩

/-- So many losses are more than can be counted. -/
theorem not_counted_of_le {count : ℕ} (hcount : 2 ^ 32 + 100 ≤ count) :
    ¬ Machine.Always CongestionControl.handle
      (fun c => c.inflightDataSize.toNat = c.inflightTotal ∧
        c.accepted = c.acknowledged + c.lossCount.toNat + c.occupied)
      CongestionControl.new (sentPackets count) := by
  intro h
  obtain ⟨haccepted, hacknowledged, -⟩ := run_sentPackets count
  have hcounted := h.last.2
  have hoccupied := occupied_le (Machine.run CongestionControl.handle .new (sentPackets count))
  have hlosses :=
    (Machine.run CongestionControl.handle .new (sentPackets count)).lossCount.isLt
  rw [haccepted, hacknowledged] at hcounted
  omega

/-- **After so many losses the count has wrapped**: it is below the number of packets that were
neither acknowledged nor are on their way. -/
theorem not_congestion_counted :
    ¬ Machine.Always CongestionControl.handle
      (fun c => c.inflightDataSize.toNat = c.inflightTotal ∧
        c.accepted = c.acknowledged + c.lossCount.toNat + c.occupied)
      CongestionControl.new (sentPackets 4294967396) :=
  not_counted_of_le (by omega)

end LongRun

end Telegraph.VoIP
