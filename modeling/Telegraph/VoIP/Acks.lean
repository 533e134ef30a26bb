import Telegraph.VoIP.RecvWindow

/-!
# Acknowledgements of a Call

Every packet header carries the sender's `lastRemoteSeq` and a 32-bit mask of its receive
window (`VoIPController::WritePacketHeader`); the peer decodes the two into `remoteAcks`,
reports each acknowledged number to the congestion control, and drops the queued reliable
packets that list one (`VoIPController::RunRecvThread`). This module models both ends and
a network that loses, duplicates and reorders packets.

Two fields of the model exist for the statements only. A packet carries `received`, the
numbers its sender had received when it wrote the header; an endpoint keeps for every
entry of `remoteAcks` the `received` of the mask that set it, and logs every mark.

## Main results

* `maskBit_ackMask`: the writer puts slot `i` of its window in bit `31 - i`.
* `ackSound_step_iff`: **one delivery keeps the acknowledgements sound exactly when its
  mask is honest** — the reader takes bit `31 - i` for number `ackId - (i + 1)`, so a mask
  is honest only if that number was received whenever its successor was.
* `ackSound_iff`: the same over whole runs of the two endpoints.
-/

open SeqNum

namespace Telegraph.VoIP

/-! ### Writing the mask -/

/-- One turn of the mask loop of `WritePacketHeader`. -/
def writeMaskBit (recvPacketTimes : Fin 32 → ℕ) (acks : BitVec 32) (i : ℕ) : BitVec 32 :=
  let acks := if recvPacketTimes (entry i) > 0 then acks ||| 1 else acks
  if i < 31 then acks <<< 1 else acks

/-- The mask of `WritePacketHeader`. -/
def ackMask (recvPacketTimes : Fin 32 → ℕ) : BitVec 32 :=
  (List.range 32).foldl (writeMaskBit recvPacketTimes) 0

/-- `(acks >> (31-i)) & 1`, the test of the reading loop. -/
def maskBit (acks : BitVec 32) (i : ℕ) : Bool :=
  (acks >>> (31 - i)) &&& 1 == 1

/-- A packet header on the wire, with the numbers its sender had received when it wrote
the mask. -/
structure Packet where
  pseq : BitVec 32
  ackId : BitVec 32
  acks : BitVec 32
  received : List (BitVec 32)

/-- The test of the reading loop reads one bit. -/
theorem maskBit_eq_getLsbD (acks : BitVec 32) (i : ℕ) : maskBit acks i = acks.getLsbD (31 - i) := by
  rw [maskBit, Bool.eq_iff_iff, beq_iff_eq]
  constructor
  · intro h
    simpa using congrArg (fun b => BitVec.getLsbD b 0) h
  · intro h
    refine BitVec.eq_of_getLsbD_eq fun j _ => ?_
    cases j with
    | zero => simpa using h
    | succ j => simp

/-- The bit a turn of the writing loop sets before it shifts. -/
theorem getLsbD_setBit (acks : BitVec 32) (b : Prop) [Decidable b] (j : ℕ) :
    (if b then acks ||| 1 else acks).getLsbD j =
      (acks.getLsbD j || (decide b && decide (j = 0))) := by
  by_cases hb : b
  · cases j with
    | zero => simp [hb]
    | succ j => simp [hb]
  · simp [hb]

/-- Where the first `n` turns of the writing loop have shifted each slot: slot `i` is
`n - i` places up. -/
theorem getLsbD_writeMask_turns (recvPacketTimes : Fin 32 → ℕ) {n : ℕ} (hn : n ≤ 31) (j : ℕ) :
    ((List.range n).foldl (writeMaskBit recvPacketTimes) 0).getLsbD j =
      (decide (0 < j ∧ j ≤ n) && decide (0 < recvPacketTimes (entry (n - j)))) := by
  induction n generalizing j with
  | zero =>
      have hj : ¬ (0 < j ∧ j ≤ 0) := by omega
      simp only [List.range_zero, List.foldl_nil, decide_eq_false hj, Bool.false_and]
      exact BitVec.getLsbD_zero
  | succ n ih =>
      have hshift : n < 31 := by omega
      simp only [List.range_succ, List.foldl_append, List.foldl_cons, List.foldl_nil,
        writeMaskBit, if_pos hshift, BitVec.getLsbD_shiftLeft, getLsbD_setBit, ih (by omega)]
      cases j with
      | zero => simp
      | succ j =>
          by_cases hj : j = 0
          · subst hj
            simp
          · have hsub : n + 1 - (j + 1) = n - j := by omega
            have hpos : 0 < j := Nat.pos_of_ne_zero hj
            by_cases hle : j ≤ n
            · have h32 : j + 1 < 32 := by omega
              simp [hj, hpos, hsub, hle, h32]
            · simp [hj, hpos, hle]

/-- **The writer puts slot `i` of its window in bit `31 - i`.** -/
theorem maskBit_ackMask (recvPacketTimes : Fin 32 → ℕ) {i : ℕ} (hi : i ≤ 31) :
    maskBit (ackMask recvPacketTimes) i = decide (0 < recvPacketTimes (entry i)) := by
  have hlast : ¬ 31 < 31 := lt_irrefl 31
  rw [maskBit_eq_getLsbD, ackMask, List.range_succ, List.foldl_append]
  simp only [List.foldl_cons, List.foldl_nil, writeMaskBit, if_neg hlast, getLsbD_setBit,
    getLsbD_writeMask_turns recvPacketTimes (le_refl 31)]
  by_cases h31 : i = 31
  · subst h31
    simp
  · have hpos : 0 < 31 - i := by omega
    have hsub : 31 - (31 - i) = i := by omega
    have hle : 31 - i ≤ 31 := by omega
    simp [hpos.ne', hpos, hle, hsub]

/-! ### Reading the mask -/

/-- A reliable packet waiting for its acknowledgement: the numbers it was sent under, the
latest first, zeros after them. -/
structure QueuedPacket where
  seqs : Fin 16 → BitVec 32

/-- A number marked as acknowledged, with the numbers the peer had received when it built
the mask behind the mark. -/
structure Mark where
  seq : BitVec 32
  received : List (BitVec 32)
deriving DecidableEq

/-- `lastRemoteAckSeq`, `remoteAcks` and `queuedPackets`; `masks` and `log` record where
the marks come from. -/
structure AckState where
  lastRemoteAckSeq : BitVec 32
  remoteAcks : Fin 32 → ℕ
  queuedPackets : List QueuedPacket
  masks : Fin 32 → List (BitVec 32)
  log : List Mark

/-- The acknowledgement state the constructor sets up. -/
def AckState.init : AckState where
  lastRemoteAckSeq := 0
  remoteAcks := fun _ => 0
  queuedPackets := []
  masks := fun _ => []
  log := []

/-- One turn of the mask loop of `RunRecvThread`: entry `i + 1`, if empty, is filled when
bit `31 - i` is set, and number `ackId - (i + 1)` goes to `conctl->PacketAcknowledged`. -/
def readMaskBit (p : Packet) (now : ℕ+) (s : AckState) (i : ℕ) : AckState :=
  let slot : Fin 32 := entry (i + 1)
  if s.remoteAcks slot = 0 then
    if maskBit p.acks i then
      { s with
        remoteAcks := Function.update s.remoteAcks slot now.val
        masks := Function.update s.masks slot p.received
        log := s.log ++ [⟨p.ackId - BitVec.ofNat 32 (i + 1), p.received⟩] }
    else s
  else s

/-- The number a queued packet is found acknowledged by: the first number it lists,
stopping at a zero, that is behind `lastRemoteAckSeq` and has a positive entry. -/
def QueuedPacket.ackedBy (s : AckState) (qp : QueuedPacket) : Option (Fin 32) :=
  ((List.finRange 16).map qp.seqs).takeWhile (· ≠ 0) |>.findSome? fun seq =>
    if h : seqgt s.lastRemoteAckSeq seq ∧ lag s.lastRemoteAckSeq seq < 32 then
      let slot : Fin 32 := ⟨lag s.lastRemoteAckSeq seq, h.2⟩
      if s.remoteAcks slot > 0 then some slot else none
    else none

/-- The sweep of `queuedPackets`: packets found acknowledged are removed. -/
def sweepQueued (s : AckState) : AckState :=
  { s with
    queuedPackets := s.queuedPackets.filter fun qp => (qp.ackedBy s).isNone
    log := s.log ++ s.queuedPackets.filterMap fun qp => (qp.ackedBy s).map fun slot =>
      ⟨s.lastRemoteAckSeq - BitVec.ofNat 32 slot, s.masks slot⟩ }

/-- The slide of `remoteAcks` to a newer `ackId`, which goes to
`conctl->PacketAcknowledged` at once. -/
def slideAcks (p : Packet) (now : ℕ+) (s : AckState) : AckState :=
  let diff := lag p.ackId s.lastRemoteAckSeq
  { s with
    lastRemoteAckSeq := p.ackId
    remoteAcks := slideTimes 0 diff now.val s.remoteAcks
    masks := slideTimes [] diff p.received s.masks
    log := s.log ++ [⟨p.ackId, p.received⟩] }

/-- The acknowledgement code of `RunRecvThread` for a packet the window let through. -/
def receiveAcks (s : AckState) (p : Packet) (now : ℕ+) : AckState :=
  if seqgt p.ackId s.lastRemoteAckSeq then
    sweepQueued ((List.range 31).foldl (readMaskBit p now) (slideAcks p now s))
  else s

/-! ### Soundness of one delivery -/

/-- Every positive entry, and every mark ever made, is for a number the peer had received
when it built the mask behind it. -/
def AckState.Sound (s : AckState) : Prop :=
  (∀ k : Fin 32, 0 < s.remoteAcks k →
    s.lastRemoteAckSeq - BitVec.ofNat 32 k ∈ s.masks k) ∧
  ∀ m ∈ s.log, m.seq ∈ m.received

/-- The packet `p` cannot mislead the state `s`: its sender had received `ackId`, and
wherever bit `31 - i` is set and entry `i + 1` is not positive already, also
`ackId - (i + 1)`. -/
def AckState.Honest (s : AckState) (p : Packet) : Prop :=
  p.ackId ∈ p.received ∧
  ∀ i : Fin 31,
    slideTimes 0 (lag p.ackId s.lastRemoteAckSeq) 0 s.remoteAcks i.succ = 0 →
    maskBit p.acks i = true → p.ackId - BitVec.ofNat 32 (i + 1) ∈ p.received

instance (s : AckState) : Decidable s.Sound :=
  inferInstanceAs (Decidable (_ ∧ _))

instance (s : AckState) (p : Packet) : Decidable (s.Honest p) :=
  inferInstanceAs (Decidable (_ ∧ _))

/-- The slide leaves every entry but the head as it leaves it for any other time. -/
theorem slideTimes_tail {α : Type*} (zero now now' : α) (diff : ℕ) (a : Fin 32 → α)
    {k : Fin 32} (hk : k ≠ 0) : slideTimes zero diff now a k = slideTimes zero diff now' a k := by
  simp only [slideTimes]
  split
  · rfl
  · rw [Function.update_of_ne hk, Function.update_of_ne hk]

/-- A slide to an acknowledged number keeps a sound state sound. -/
theorem sound_slideAcks {s : AckState} {p : Packet} {now : ℕ+} (h : s.Sound)
    (hgt : seqgt p.ackId s.lastRemoteAckSeq = true) (hid : p.ackId ∈ p.received) :
    (slideAcks p now s).Sound := by
  obtain ⟨hacks, hlog⟩ := h
  refine ⟨fun k hk => ?_, ?_⟩
  · simp only [slideAcks] at hk ⊢
    by_cases hjump : 31 < lag p.ackId s.lastRemoteAckSeq
    · rw [slideTimes_jump hjump] at hk
      exact absurd hk (lt_irrefl 0)
    · have hpos : 0 < lag p.ackId s.lastRemoteAckSeq := lag_pos_of_seqgt hgt
      rw [slideTimes_apply hpos (not_lt.mp hjump)] at hk ⊢
      by_cases hk0 : k.val = 0
      · rw [if_pos hk0, hk0]
        simpa using hid
      · rw [if_neg hk0] at hk ⊢
        by_cases hlt : k.val < lag p.ackId s.lastRemoteAckSeq
        · rw [if_pos hlt] at hk
          exact absurd hk (lt_irrefl 0)
        · rw [if_neg hlt] at hk ⊢
          rw [sub_ofNat_advance (not_lt.mp hlt)]
          exact hacks _ hk
  · intro m hm
    rcases List.mem_append.mp hm with hm | hm
    · exact hlog m hm
    · obtain rfl := List.mem_singleton.mp hm
      exact hid

/-- What one turn of the mask loop can do: mark number `ackId - (i + 1)`, or nothing. -/
theorem readMaskBit_cases (p : Packet) (now : ℕ+) (s : AckState) (i : ℕ) :
    (s.remoteAcks (entry (i + 1)) = 0 ∧ maskBit p.acks i = true ∧
      readMaskBit p now s i = { s with
        remoteAcks := Function.update s.remoteAcks (entry (i + 1)) now.val
        masks := Function.update s.masks (entry (i + 1)) p.received
        log := s.log ++ [⟨p.ackId - BitVec.ofNat 32 (i + 1), p.received⟩] }) ∨
    (readMaskBit p now s i = s ∧
      (s.remoteAcks (entry (i + 1)) = 0 → maskBit p.acks i = false)) := by
  by_cases hz : s.remoteAcks (entry (i + 1)) = 0
  · by_cases hb : maskBit p.acks i = true
    · exact Or.inl ⟨hz, hb, by simp only [readMaskBit, if_pos hz, if_pos hb]⟩
    · refine Or.inr ⟨by simp only [readMaskBit, if_pos hz, if_neg hb], fun _ => ?_⟩
      exact Bool.eq_false_of_not_eq_true hb
  · exact Or.inr ⟨by simp only [readMaskBit, if_neg hz], fun h => absurd h hz⟩

/-- The slot of turn `i` of the mask loop. -/
theorem val_slot {i : ℕ} (hi : i < 31) : (entry (i + 1)).val = i + 1 := by
  simp only [Fin.val_ofNat]
  omega

/-- The state of the mask loop: sound, at `ackId`, and holding every entry of the state
`s₀` the loop started from. -/
structure LoopSound (p : Packet) (s₀ s : AckState) : Prop where
  ackId : s.lastRemoteAckSeq = p.ackId
  sound : s.Sound
  kept : ∀ k, s.remoteAcks k = 0 → s₀.remoteAcks k = 0

/-- One turn of the loop keeps the state sound if its bit is honest. -/
theorem loopSound_readMaskBit {p : Packet} {now : ℕ+} {s₀ s : AckState} {i : ℕ}
    (hi : i < 31) (h : LoopSound p s₀ s)
    (hbit : s₀.remoteAcks (entry (i + 1)) = 0 → maskBit p.acks i = true →
      p.ackId - BitVec.ofNat 32 (i + 1) ∈ p.received) :
    LoopSound p s₀ (readMaskBit p now s i) := by
  rcases readMaskBit_cases p now s i with ⟨hz, hb, hr⟩ | ⟨hr, -⟩
  · have hmem := hbit (h.kept _ hz) hb
    rw [hr]
    refine ⟨h.ackId, ⟨fun k hk => ?_, fun m hm => ?_⟩, fun k hk => ?_⟩
    · by_cases hks : k = entry (i + 1)
      · subst hks
        simp only [Function.update_self, val_slot hi, h.ackId]
        exact hmem
      · simp only [Function.update_of_ne hks] at hk ⊢
        exact h.sound.1 k hk
    · rcases List.mem_append.mp hm with hm | hm
      · exact h.sound.2 m hm
      · obtain rfl := List.mem_singleton.mp hm
        exact hmem
    · by_cases hks : k = entry (i + 1)
      · exact h.kept k (hks ▸ hz)
      · simp only [Function.update_of_ne hks] at hk
        exact h.kept k hk
  · rw [hr]
    exact h

/-- An honest mask keeps a sound state sound through the whole loop. -/
theorem loopSound_foldl {p : Packet} {now : ℕ+} {s₀ s : AckState} {is : List ℕ}
    (his : ∀ i ∈ is, i < 31) (h : LoopSound p s₀ s)
    (hbits : ∀ i ∈ is, s₀.remoteAcks (entry (i + 1)) = 0 → maskBit p.acks i = true →
      p.ackId - BitVec.ofNat 32 (i + 1) ∈ p.received) :
    LoopSound p s₀ (is.foldl (readMaskBit p now) s) := by
  induction is generalizing s with
  | nil => exact h
  | cons i is ih =>
      refine ih (fun j hj => his j (List.mem_cons_of_mem _ hj)) ?_
        (fun j hj => hbits j (List.mem_cons_of_mem _ hj))
      exact loopSound_readMaskBit (his i List.mem_cons_self) h (hbits i List.mem_cons_self)

/-- A queued packet is only found acknowledged by a positive entry. -/
theorem ackedBy_pos {s : AckState} {qp : QueuedPacket} {slot : Fin 32}
    (h : qp.ackedBy s = some slot) : 0 < s.remoteAcks slot := by
  obtain ⟨seq, -, hseq⟩ := List.exists_of_findSome?_eq_some h
  split at hseq
  · dsimp only at hseq
    split at hseq
    · cases hseq
      assumption
    · cases hseq
  · cases hseq

/-- The sweep of the queue keeps a sound state sound. -/
theorem sound_sweepQueued {s : AckState} (h : s.Sound) : (sweepQueued s).Sound := by
  refine ⟨h.1, fun m hm => ?_⟩
  rcases List.mem_append.mp hm with hm | hm
  · exact h.2 m hm
  · obtain ⟨qp, -, hqp⟩ := List.mem_filterMap.mp hm
    obtain ⟨slot, hslot, rfl⟩ := Option.map_eq_some_iff.mp hqp
    exact h.1 slot (ackedBy_pos hslot)

/-- An honest delivery keeps a sound state sound. -/
theorem sound_receiveAcks {s : AckState} {p : Packet} {now : ℕ+} (h : s.Sound)
    (hp : seqgt p.ackId s.lastRemoteAckSeq = true → s.Honest p) :
    (receiveAcks s p now).Sound := by
  by_cases hgt : seqgt p.ackId s.lastRemoteAckSeq = true
  · obtain ⟨hid, hbits⟩ := hp hgt
    simp only [receiveAcks, if_pos hgt]
    have hslide : LoopSound p (slideAcks p now s) (slideAcks p now s) :=
      ⟨rfl, sound_slideAcks h hgt hid, fun _ hk => hk⟩
    refine sound_sweepQueued (loopSound_foldl (fun i hi => List.mem_range.mp hi) hslide
      fun i hi hz hb => ?_).sound
    · have hi := List.mem_range.mp hi
      have hslot : (entry (i + 1)) = Fin.succ (⟨i, hi⟩ : Fin 31) :=
        Fin.ext (val_slot hi)
      refine hbits ⟨i, hi⟩ ?_ hb
      rw [slideTimes_tail 0 0 now.val _ _ (Fin.succ_ne_zero _), ← hslot]
      exact hz
  · simp only [receiveAcks, if_neg hgt]
    exact h

/-! ### Unsoundness of one delivery -/

/-- The mask loop never forgets a mark. -/
theorem mem_log_readMaskBit {p : Packet} {now : ℕ+} {s : AckState} {i : ℕ} {m : Mark}
    (hm : m ∈ s.log) : m ∈ (readMaskBit p now s i).log := by
  rcases readMaskBit_cases p now s i with ⟨-, -, hr⟩ | ⟨hr, -⟩
  · rw [hr]
    exact List.mem_append_left _ hm
  · rwa [hr]

/-- The first `n` turns of the mask loop leave the entries past `n` alone, forget no mark,
and mark every number whose bit is set and whose entry was empty. -/
theorem readMask_turns (p : Packet) (now : ℕ+) (s : AckState) {n : ℕ} (hn : n ≤ 31) :
    (∀ k : Fin 32, n < k.val →
      ((List.range n).foldl (readMaskBit p now) s).remoteAcks k = s.remoteAcks k) ∧
    (∀ m ∈ s.log, m ∈ ((List.range n).foldl (readMaskBit p now) s).log) ∧
    ∀ i < n, s.remoteAcks (entry (i + 1)) = 0 → maskBit p.acks i = true →
      ⟨p.ackId - BitVec.ofNat 32 (i + 1), p.received⟩ ∈
        ((List.range n).foldl (readMaskBit p now) s).log := by
  induction n with
  | zero => exact ⟨fun _ _ => rfl, fun _ hm => hm, fun i hi => absurd hi (Nat.not_lt_zero i)⟩
  | succ n ih =>
      obtain ⟨hacks, hlog, hmarks⟩ := ih (by omega)
      simp only [List.range_succ, List.foldl_append, List.foldl_cons, List.foldl_nil]
      refine ⟨fun k hk => ?_, fun m hm => mem_log_readMaskBit (hlog m hm), fun i hi hz hb => ?_⟩
      · rw [← hacks k (by omega)]
        have hne : k ≠ entry (n + 1) := fun h => by
          have hval := val_slot (i := n) (by omega)
          rw [← h] at hval
          omega
        rcases readMaskBit_cases p now ((List.range n).foldl (readMaskBit p now) s) n with
          ⟨-, -, hr⟩ | ⟨hr, -⟩
        · rw [hr]
          exact Function.update_of_ne hne _ _
        · rw [hr]
      · rcases Nat.lt_succ_iff_lt_or_eq.mp hi with hlt | rfl
        · exact mem_log_readMaskBit (hmarks i hlt hz hb)
        · have hslot := hacks (entry (i + 1)) (by rw [val_slot (by omega)]; omega)
          rcases readMaskBit_cases p now ((List.range i).foldl (readMaskBit p now) s) i with
            ⟨-, -, hr⟩ | ⟨-, hno⟩
          · rw [hr]
            exact List.mem_append_right _ (List.mem_singleton.mpr rfl)
          · rw [hno (hslot.trans hz)] at hb
            exact absurd hb Bool.false_ne_true

/-- A sound state can only have come from an honest delivery. -/
theorem honest_of_sound {s : AckState} {p : Packet} {now : ℕ+}
    (h : (receiveAcks s p now).Sound) (hgt : seqgt p.ackId s.lastRemoteAckSeq = true) :
    s.Honest p := by
  simp only [receiveAcks, if_pos hgt] at h
  obtain ⟨-, hlog, hmarks⟩ := readMask_turns p now (slideAcks p now s) (le_refl 31)
  have hsound : ∀ m ∈ ((List.range 31).foldl (readMaskBit p now) (slideAcks p now s)).log,
      m.seq ∈ m.received := fun m hm => h.2 m (List.mem_append_left _ hm)
  refine ⟨?_, fun i hz hb => ?_⟩
  · exact hsound _ (hlog ⟨p.ackId, p.received⟩
      (List.mem_append_right _ (List.mem_singleton.mpr rfl)))
  · have hslot : entry (i.val + 1) = i.succ := Fin.ext (val_slot i.isLt)
    refine hsound _ (hmarks i i.isLt ?_ hb)
    rw [hslot, ← hz]
    exact slideTimes_tail 0 now.val 0 _ _ (Fin.succ_ne_zero _)

/-- **One delivery keeps the acknowledgements sound exactly when its mask is honest.** -/
theorem ackSound_step_iff {s : AckState} {p : Packet} {now : ℕ+} (h : s.Sound) :
    (receiveAcks s p now).Sound ↔
      (seqgt p.ackId s.lastRemoteAckSeq = true → s.Honest p) :=
  ⟨honest_of_sound, sound_receiveAcks h⟩

/-! ### Two endpoints and a network -/

/-- The two ends of a call. -/
inductive Side where
  | caller
  | callee
deriving DecidableEq

/-- The other end of the call. -/
def Side.peer : Side → Side
  | .caller => .callee
  | .callee => .caller

/-- What of a `VoIPController` the acknowledgements rest on, with every number that
arrived so far. -/
structure Endpoint where
  seq : BitVec 32
  sendQueue : List (BitVec 32)
  window : RecvWindow
  acks : AckState
  received : List (BitVec 32)

/-- The endpoint the constructor sets up. -/
def Endpoint.init : Endpoint where
  seq := 1
  sendQueue := []
  window := RecvWindow.init
  acks := AckState.init
  received := []

/-- `GenerateOutSeq`, and the `sendQueue->Put` of a packet under that number. -/
def Endpoint.putPacket (e : Endpoint) : Endpoint :=
  { e with seq := e.seq + 1, sendQueue := e.sendQueue ++ [e.seq] }

/-- `SendPacketReliably`. -/
def Endpoint.sendPacketReliably (e : Endpoint) : Endpoint :=
  { e with acks := { e.acks with
      queuedPackets := e.acks.queuedPackets ++ [⟨fun _ => 0⟩] } }

/-- `memmove(&qp->seqs[1], qp->seqs, 4*9); qp->seqs[0]=seq`. -/
def QueuedPacket.push (qp : QueuedPacket) (seq : BitVec 32) : QueuedPacket where
  seqs := fun j =>
    if j.val = 0 then seq
    else if j.val ≤ 9 then qp.seqs ⟨j.val - 1, by omega⟩
    else qp.seqs j

/-- The tick thread sends queued packet `k` under a new number. -/
def Endpoint.retransmit (e : Endpoint) (k : ℕ) : Endpoint :=
  if k < e.acks.queuedPackets.length then
    { e.putPacket with acks := { e.acks with
        queuedPackets := e.acks.queuedPackets.modify k (·.push e.seq) } }
  else e

/-- The tick thread gives queued packet `k` up. -/
def Endpoint.removeQueued (e : Endpoint) (k : ℕ) : Endpoint :=
  { e with acks := { e.acks with queuedPackets := e.acks.queuedPackets.eraseIdx k } }

/-- `WritePacketHeader`. -/
def Endpoint.writePacketHeader (e : Endpoint) (pseq : BitVec 32) : Packet where
  pseq := pseq
  ackId := e.window.lastRemoteSeq
  acks := ackMask e.window.recvPacketTimes
  received := e.received

/-- `RunRecvThread` for one authenticated packet. -/
def Endpoint.receive (e : Endpoint) (p : Packet) (now : ℕ+) : Endpoint :=
  let r := receiveSeq e.window p.pseq now
  { e with
    window := r.1
    acks := if r.2 then receiveAcks e.acks p now else e.acks
    received := p.pseq :: e.received }

/-- Both endpoints, and every packet each of them ever put on the network. -/
structure Call where
  endpoint : Side → Endpoint
  sent : Side → List Packet

/-- A call being set up. -/
def Call.init : Call where
  endpoint := fun _ => Endpoint.init
  sent := fun _ => []

/-- What can happen next in a call. A packet that is never delivered is lost; one
delivered again is duplicated. -/
inductive Event where
  /-- A packet of any type is put on the send queue. -/
  | putPacket (side : Side)
  | sendPacketReliably (side : Side)
  | retransmit (side : Side) (k : ℕ)
  | removeQueued (side : Side) (k : ℕ)
  /-- The send thread takes the next packet and writes its header. -/
  | transmit (side : Side)
  /-- The next packet is dropped: the queue overflowed, or its endpoint is off. -/
  | drop (side : Side)
  /-- Packet `k` of the peer arrives. -/
  | deliver (side : Side) (k : ℕ) (now : ℕ+)

/-- One endpoint of the call changes. -/
def Call.update (c : Call) (side : Side) (f : Endpoint → Endpoint) : Call :=
  { c with endpoint := Function.update c.endpoint side (f (c.endpoint side)) }

/-- One event of a call. -/
def Call.step (c : Call) : Event → Call
  | .putPacket side => c.update side Endpoint.putPacket
  | .sendPacketReliably side => c.update side Endpoint.sendPacketReliably
  | .retransmit side k => c.update side (Endpoint.retransmit · k)
  | .removeQueued side k => c.update side (Endpoint.removeQueued · k)
  | .transmit side =>
      match (c.endpoint side).sendQueue with
      | [] => c
      | pseq :: rest =>
          { endpoint := Function.update c.endpoint side
              { c.endpoint side with sendQueue := rest }
            sent := Function.update c.sent side
              (c.sent side ++ [(c.endpoint side).writePacketHeader pseq]) }
  | .drop side => c.update side fun e => { e with sendQueue := e.sendQueue.tail }
  | .deliver side k now =>
      match (c.sent side.peer)[k]? with
      | none => c
      | some p => c.update side (Endpoint.receive · p now)

/-- At both ends, every acknowledged number had been received by the peer when it built
the mask it was read from. -/
def AckSound (c : Call) : Prop :=
  ∀ side, (c.endpoint side).acks.Sound

instance (c : Call) : Decidable (AckSound c) :=
  decidable_of_iff ((c.endpoint .caller).acks.Sound ∧ (c.endpoint .callee).acks.Sound)
    ⟨fun ⟨h, h'⟩ side => match side with | .caller => h | .callee => h',
      fun h => ⟨h .caller, h .callee⟩⟩

/-- The event does not deliver a dishonest mask: wherever the window of `side` lets the
packet through and its `ackId` is new, the mask is honest. -/
def MaskHonest (c : Call) : Event → Prop
  | .deliver side k now => ∀ p ∈ (c.sent side.peer)[k]?,
      (receiveSeq (c.endpoint side).window p.pseq now).2 = true →
      seqgt p.ackId (c.endpoint side).acks.lastRemoteAckSeq = true →
      (c.endpoint side).acks.Honest p
  | _ => True

/-- What makes a header honest, in terms of the window it was written from: the number
one below each filled slot must have arrived too. -/
theorem honest_writePacketHeader_iff {s : AckState} {e : Endpoint} {pseq : BitVec 32} :
    s.Honest (e.writePacketHeader pseq) ↔
      e.window.lastRemoteSeq ∈ e.received ∧
      ∀ i : Fin 31,
        slideTimes 0 (lag e.window.lastRemoteSeq s.lastRemoteAckSeq) 0 s.remoteAcks i.succ = 0 →
        0 < e.window.recvPacketTimes i.castSucc →
        e.window.lastRemoteSeq - BitVec.ofNat 32 (i + 1) ∈ e.received := by
  have hbit : ∀ i : Fin 31, maskBit (ackMask e.window.recvPacketTimes) i = true ↔
      0 < e.window.recvPacketTimes i.castSucc := by
    intro i
    have hslot : entry i.val = i.castSucc := by
      ext
      simp only [Fin.val_ofNat, Fin.val_castSucc]
      omega
    rw [maskBit_ackMask _ (by omega), hslot, decide_eq_true_eq]
  simp only [AckState.Honest, Endpoint.writePacketHeader, hbit]

/-- Soundness only looks at the decoded acknowledgements, not at the queue. -/
theorem sound_queuedPackets {s : AckState} (queuedPackets : List QueuedPacket) :
    { s with queuedPackets := queuedPackets }.Sound ↔ s.Sound :=
  Iff.rfl

/-- A call stays sound when one endpoint of it becomes another sound one. -/
theorem ackSound_update {c : Call} {side : Side} {e : Endpoint} {sent : Side → List Packet}
    (h : AckSound c) (he : e.acks.Sound) :
    AckSound ⟨Function.update c.endpoint side e, sent⟩ := by
  intro side'
  by_cases hside : side' = side
  · subst hside
    simpa only [Function.update_self] using he
  · simpa only [Function.update_of_ne hside] using h side'

/-- A packet reaching a sound endpoint keeps it sound exactly when the window drops it,
its `ackId` is old, or its mask is honest. -/
theorem sound_receive_iff {e : Endpoint} {p : Packet} {now : ℕ+} (h : e.acks.Sound) :
    (e.receive p now).acks.Sound ↔
      ((receiveSeq e.window p.pseq now).2 = true →
        seqgt p.ackId e.acks.lastRemoteAckSeq = true → e.acks.Honest p) := by
  by_cases hpass : (receiveSeq e.window p.pseq now).2 = true
  · simp only [Endpoint.receive, hpass, if_true, true_implies]
    exact ackSound_step_iff h
  · simp only [Endpoint.receive, if_neg hpass, h, true_iff]
    exact fun hp => absurd hp hpass

/-- **One event keeps a call sound exactly when it delivers no dishonest mask.** -/
theorem ackSound_call_step_iff {c : Call} {ev : Event} (h : AckSound c) :
    AckSound (c.step ev) ↔ MaskHonest c ev := by
  cases ev with
  | putPacket side => exact iff_of_true (ackSound_update h (h side)) trivial
  | sendPacketReliably side =>
      exact iff_of_true (ackSound_update h ((sound_queuedPackets _).mpr (h side))) trivial
  | retransmit side k =>
      refine iff_of_true (ackSound_update h ?_) trivial
      by_cases hk : k < (c.endpoint side).acks.queuedPackets.length
      · simp only [Endpoint.retransmit, if_pos hk]
        exact (sound_queuedPackets _).mpr (h side)
      · simp only [Endpoint.retransmit, if_neg hk]
        exact h side
  | removeQueued side k =>
      exact iff_of_true (ackSound_update h ((sound_queuedPackets _).mpr (h side))) trivial
  | transmit side =>
      refine iff_of_true ?_ trivial
      simp only [Call.step]
      split
      · exact h
      · exact ackSound_update h (h side)
  | drop side => exact iff_of_true (ackSound_update h (h side)) trivial
  | deliver side k now =>
      simp only [Call.step, MaskHonest]
      cases hk : (c.sent side.peer)[k]? with
      | none => exact iff_of_true h fun p hp => absurd hp (Option.not_mem_none p)
      | some p =>
          constructor
          · intro hs q hq
            obtain rfl := Option.mem_some.mp hq
            have hside := hs side
            simp only [Call.update, Function.update_self] at hside
            exact (sound_receive_iff (h side)).mp hside
          · intro hp
            exact ackSound_update h ((sound_receive_iff (h side)).mpr (hp p rfl))

theorem ackSound_init : AckSound Call.init :=
  fun _ => ⟨fun _ hk => absurd hk (lt_irrefl 0), fun _ hm => absurd hm List.not_mem_nil⟩

/-- **Acknowledgements over whole runs.** Both ends only ever acknowledge numbers the peer
had received when it built the mask, if and only if no delivery of the run lets a
dishonest mask through. -/
theorem ackSound_iff (evs : List Event) :
    Machine.Always Call.step AckSound Call.init evs ↔
      Machine.AllSteps Call.step MaskHonest Call.init evs :=
  ⟨Machine.allSteps_of_always fun _ _ hs hs' => (ackSound_call_step_iff hs).mp hs',
    Machine.always_of_allSteps (fun _ _ hs hc => (ackSound_call_step_iff hs).mpr hc)
      ackSound_init⟩

/-- The reliable packet 1 is lost and packet 2 arrives: the header that acknowledges 2
makes the caller mark 1 as well, and drop it from the queue. -/
theorem ackSound_lost_packet :
    ¬ Machine.Always Call.step AckSound Call.init
      [.sendPacketReliably .caller, .retransmit .caller 0, .putPacket .caller,
        .transmit .caller, .transmit .caller, .deliver .callee 1 1,
        .putPacket .callee, .transmit .callee, .deliver .caller 0 2] := by
  decide +kernel

end Telegraph.VoIP
