import Mathlib.Algebra.Order.Group.Multiset
import Telegraph.Lib.Slots
import Telegraph.VoIP.JitterBuffer

/-!
# What a Jitter Buffer Plays

`PutInternal` does not look whether a packet with the same timestamp is held or was played: every
packet that is not too large gets a slot of its own. `GetInternal` plays one packet of a slot and
frees the slot. So a timestamp may be played again, from another packet that has it: a read at the
present moves on, but one that goes back, as the decoder does after a loss, finds the second packet.

What holds is a balance. The packets that are held, together with those played, are at most the
packets that were held at the last resynchronization or put in since then. The timestamps played at
the present grow by at least a step: after such a play `nextTimestamp` is ahead of all of them, and
stays so until the slots are emptied and the next packet resynchronizes. It cannot run over the
largest 64-bit number before, as the losses that move it on are counted and lead to a reset, and a
step is a frame duration of 16 bits.

## Main results

* `GetOutcome`, `PutOutcome`: all that a read and a put can do.
* `handle_invariant`: one call keeps the balance and the order.
* `playback_inOrder`: **each packet is played at most once, with the bytes it was put in with, and
  the present moves on**.
* `playback_jitterBuffer`: what is recorded of a run does not change the run.
-/

namespace Telegraph.VoIP

/-! ### The packets that are held -/

/-- A packet of the jitter buffer. -/
structure JitterFrame where
  timestamp : BitVec 32
  data : List UInt8
deriving DecidableEq

/-- The packet in a slot, if it is taken. -/
def JitterSlot.frames (memory : ℕ → List UInt8) (slot : JitterSlot) : Multiset JitterFrame :=
  match slot.buffer with
  | some b => {⟨slot.timestamp, (memory b).take slot.size⟩}
  | none => 0

namespace JitterBuffer

/-- The packets that are held. -/
def heldFrames (s : JitterBuffer) : Multiset JitterFrame :=
  ∑ i, (s.slots i).frames s.memory

/-- `timestampToGet`. -/
def timestampToGet (s : JitterBuffer) (offset : BitVec 32) : BitVec 64 :=
  s.nextTimestamp + (offset * s.step).signExtend 64

end JitterBuffer

/-- Nothing is held, and the next packet that is put in resynchronizes. -/
structure Emptied (s : JitterBuffer) : Prop where
  free : ∀ i, (s.slots i).taken = false
  wasReset : s.wasReset = true

/-- No packet that is held is larger than a slot. -/
def SizesFit (s : JitterBuffer) : Prop :=
  ∀ i, (s.slots i).taken = true → (s.slots i).size ≤ JITTER_SLOT_SIZE

section Held

variable {s : JitterBuffer} {i : Fin JITTER_SLOT_COUNT}

/-- A slot that is taken holds the packet in its buffer. -/
theorem JitterSlot.frames_of_buffer {memory : ℕ → List UInt8} {slot : JitterSlot} {b : ℕ}
    (hb : slot.buffer = some b) :
    slot.frames memory = {⟨slot.timestamp, (memory b).take slot.size⟩} := by
  rw [frames, hb]

@[simp] theorem JitterSlot.frames_freed (memory : ℕ → List UInt8) (slot : JitterSlot) :
    JitterSlot.frames memory { slot with buffer := none } = 0 := rfl

/-- A slot that is free holds no packet. -/
theorem JitterSlot.frames_of_free (memory : ℕ → List UInt8) {slot : JitterSlot}
    (h : slot.taken = false) : slot.frames memory = 0 := by
  rw [taken, Option.isSome_eq_false_iff, Option.isNone_iff_eq_none] at h
  rw [frames, h]

/-- A loop that frees slots takes packets away only. -/
theorem JitterSlot.frames_freed_le (memory : ℕ → List UInt8) (cond : JitterSlot → Bool)
    (slot : JitterSlot) : (slot.freed cond).frames memory ≤ slot.frames memory := by
  rw [freed]
  split
  · rw [frames_freed]
    exact Multiset.zero_le _
  · exact le_rfl

/-- Nothing is held once all slots are free. -/
theorem Emptied.heldFrames (h : Emptied s) : s.heldFrames = 0 :=
  Finset.sum_eq_zero fun i _ => JitterSlot.frames_of_free _ (h.free i)

/-- **What is held changes by the packet that is taken out.** -/
theorem heldFrames_release (pool : BufferPool) {b : ℕ} (hb : (s.slots i).buffer = some b) :
    s.heldFrames = {⟨(s.slots i).timestamp, (s.memory b).take (s.slots i).size⟩} +
      JitterBuffer.heldFrames { s with
        bufferPool := pool
        slots := Function.update s.slots i { s.slots i with buffer := none } } := by
  rw [← JitterSlot.frames_of_buffer hb]
  exact Slots.sum_update_of_zero s.slots i (JitterSlot.frames_freed s.memory _)

/-- A loop that frees slots takes packets away only. -/
theorem heldFrames_freed_le (cond : JitterSlot → Bool) {s' : JitterBuffer}
    (hslots : s'.slots = fun i => (s.slots i).freed cond) (hmemory : s'.memory = s.memory) :
    s'.heldFrames ≤ s.heldFrames := by
  rw [JitterBuffer.heldFrames, hslots, hmemory]
  exact Finset.sum_le_sum fun i _ => JitterSlot.frames_freed_le _ _ _

/-- **A packet that is stored is held with the bytes it came with**, and the other packets keep
theirs, as their buffers are others. -/
theorem heldFrames_store (h : MemoryDiscipline s) (hi : (s.slots i).taken = false)
    (data : List UInt8) (timestamp : BitVec 32) :
    (s.store i data timestamp).heldFrames = {⟨timestamp, data⟩} + s.heldFrames := by
  obtain ⟨b, hb⟩ := exists_get h hi
  have hget : s.bufferPool.get = (some b, s.bufferPool.get.2) := Prod.ext hb rfl
  obtain ⟨hlt, hfree, -, -⟩ := BufferPool.get_eq_some hget
  rw [h.count] at hlt
  have hother : ∀ j, (s.slots j).frames (Function.update s.memory b data) =
      (s.slots j).frames s.memory := by
    intro j
    rw [JitterSlot.frames, JitterSlot.frames]
    split
    · next c hc =>
        have hcb : c ≠ b := by
          rintro rfl
          rw [(h.used c hlt).mpr ⟨j, hc⟩] at hfree
          cases hfree
        rw [Function.update_of_ne hcb]
    · rfl
  have hnew : JitterSlot.frames (Function.update s.memory b data)
      ⟨some b, data.length, timestamp⟩ = {⟨timestamp, data⟩} := by
    rw [JitterSlot.frames_of_buffer rfl, Function.update_self, List.take_length]
  have hfill := Slots.sum_update_of_free s.slots i ⟨some b, data.length, timestamp⟩
    (JitterSlot.frames_of_free (Function.update s.memory b data) hi)
  rw [hnew, Finset.sum_congr rfl fun j _ => hother j] at hfill
  rw [JitterBuffer.store, hb]
  exact hfill

end Held

/-! ### What a read can do -/

/-- What a read leaves that takes the packet from a slot; the pool is what `Reuse` left. -/
def JitterBuffer.afterFound (s : JitterBuffer) (offset : BitVec 32) (i : Fin JITTER_SLOT_COUNT)
    (pool : BufferPool) : JitterBuffer :=
  { JitterBuffer.advanceIfNow offset { s with
      bufferPool := pool
      slots := Function.update s.slots i { s.slots i with buffer := none } } with
    lostCount := 0
    needBuffering := false }

/-- All that `GetInternal` can do: it takes a packet from a slot, it finds none while it waits for
the first packet, it counts a loss, or it empties the slots after too many losses. -/
inductive GetOutcome (s : JitterBuffer) (len : ℕ) (offset : BitVec 32) :
    JitterResult × ℕ × List UInt8 → JitterBuffer → Prop
  | found (i : Fin JITTER_SLOT_COUNT) (b : ℕ) (pool : BufferPool)
      (hb : (s.slots i).buffer = some b)
      (htimestamp : (s.slots i).timestamp.setWidth 64 = s.timestampToGet offset) :
      GetOutcome s len offset
        (if len < (s.slots i).size then (.ok, len, [])
          else (.ok, (s.slots i).size, (s.memory b).take (s.slots i).size))
        (s.afterFound offset i pool)
  | buffering (hwait : s.needBuffering = true) :
      GetOutcome s len offset (.buffering, len, []) (s.advanceIfNow offset)
  | missing (lostSinceReset : BitVec 32) (hready : s.needBuffering = false)
      (hfew : s.lostCount + 1 < s.lossesToReset) :
      GetOutcome s len offset (.missing, len, []) { s.advanceIfNow offset with
        lostCount := s.lostCount + 1
        lostSinceReset := lostSinceReset }
  | emptied (s' : JitterBuffer) (hempty : Emptied s') (hstep : s'.step = s.step) :
      GetOutcome s len offset (.missing, len, []) s'

section Reads

variable {s : JitterBuffer}

@[simp] theorem advanceIfNow_needBuffering (offset : BitVec 32) :
    (s.advanceIfNow offset).needBuffering = s.needBuffering := by
  rw [JitterBuffer.advanceIfNow]
  split <;> rfl

@[simp] theorem advanceIfNow_lostCount (offset : BitVec 32) :
    (s.advanceIfNow offset).lostCount = s.lostCount := by
  rw [JitterBuffer.advanceIfNow]
  split <;> rfl

@[simp] theorem advanceIfNow_lossesToReset (offset : BitVec 32) :
    (s.advanceIfNow offset).lossesToReset = s.lossesToReset := by
  rw [JitterBuffer.advanceIfNow]
  split <;> rfl

@[simp] theorem advanceIfNow_step (offset : BitVec 32) :
    (s.advanceIfNow offset).step = s.step := by
  rw [JitterBuffer.advanceIfNow]
  split <;> rfl

@[simp] theorem advanceIfNow_slots (offset : BitVec 32) :
    (s.advanceIfNow offset).slots = s.slots := by
  rw [JitterBuffer.advanceIfNow]
  split <;> rfl

@[simp] theorem advanceIfNow_memory (offset : BitVec 32) :
    (s.advanceIfNow offset).memory = s.memory := by
  rw [JitterBuffer.advanceIfNow]
  split <;> rfl

@[simp] theorem advanceIfNow_wasReset (offset : BitVec 32) :
    (s.advanceIfNow offset).wasReset = s.wasReset := by
  rw [JitterBuffer.advanceIfNow]
  split <;> rfl

section Found

variable {offset : BitVec 32} {i : Fin JITTER_SLOT_COUNT} {pool : BufferPool}

@[simp] theorem afterFound_slots : (s.afterFound offset i pool).slots =
    Function.update s.slots i { s.slots i with buffer := none } :=
  advanceIfNow_slots offset

@[simp] theorem afterFound_memory : (s.afterFound offset i pool).memory = s.memory :=
  advanceIfNow_memory offset

@[simp] theorem afterFound_step : (s.afterFound offset i pool).step = s.step :=
  advanceIfNow_step offset

@[simp] theorem afterFound_nextTimestamp : (s.afterFound offset i pool).nextTimestamp =
    (s.advanceIfNow offset).nextTimestamp := by
  rw [JitterBuffer.afterFound, JitterBuffer.advanceIfNow, JitterBuffer.advanceIfNow]
  split <;> rfl

/-- **The packet that is found goes from those that are held.** -/
theorem heldFrames_afterFound (offset : BitVec 32) (pool : BufferPool) {b : ℕ}
    (hb : (s.slots i).buffer = some b) :
    s.heldFrames = {⟨(s.slots i).timestamp, (s.memory b).take (s.slots i).size⟩} +
      (s.afterFound offset i pool).heldFrames := by
  rw [heldFrames_release pool hb, JitterBuffer.heldFrames, JitterBuffer.heldFrames,
    afterFound_slots, afterFound_memory]

end Found

/-- `Reset` frees all slots. -/
theorem reset_emptied {s' : JitterBuffer} (hreset : s.reset = .ok s') (h : MemoryDiscipline s) :
    Emptied s' ∧ s'.step = s.step := by
  have hstart : MemoryDiscipline
      { s with wasReset := true, needBuffering := true, lastPutTimestamp := 0 } :=
    h.of_eq rfl rfl rfl
  obtain ⟨pool, hloop, -⟩ := releaseWhere_spec (fun _ => true) hstart
  rw [JitterBuffer.reset, hloop] at hreset
  obtain rfl := Except.ok.inj hreset
  exact ⟨⟨fun i => by simp, rfl⟩, rfl⟩

/-- A computation in two parts goes through if both do. -/
theorem bind_eq_ok {ε α β : Type} {x : Except ε α} {f : α → Except ε β} {b : β} :
    x >>= f = .ok b ↔ ∃ a, x = .ok a ∧ f a = .ok b := by
  constructor
  · intro h
    cases x with
    | error e => cases h
    | ok a => exact ⟨a, rfl, h⟩
  · rintro ⟨a, rfl, hf⟩
    exact hf

/-- A loss is one of few, or it empties the slots. -/
theorem resetAfterLosses_cases {s' : JitterBuffer} (hreset : s.resetAfterLosses = .ok s')
    (h : MemoryDiscipline s) :
    (s.lostCount < s.lossesToReset ∧ s' = s) ∨ (Emptied s' ∧ s'.step = s.step) := by
  rw [JitterBuffer.resetAfterLosses] at hreset
  split at hreset
  · obtain ⟨hempty, hstep⟩ := reset_emptied hreset (h.of_eq rfl rfl rfl)
    exact .inr ⟨hempty, hstep⟩
  · next hfew => exact .inl ⟨BitVec.not_le.mp (not_or.mp hfew).1, (Except.ok.inj hreset).symm⟩

/-- **Where no packet was found.** -/
theorem missed_cases (h : MemoryDiscipline s) {offset : BitVec 32} {result : JitterResult}
    {s' : JitterBuffer} (hmissed : s.missed offset = .ok (result, s')) :
    (result = .buffering ∧ s.needBuffering = true ∧ s' = s) ∨
      (result = .missing ∧ s.needBuffering = false ∧ s.lostCount + 1 < s.lossesToReset ∧
        ∃ lostSinceReset,
          s' = { s with lostCount := s.lostCount + 1, lostSinceReset := lostSinceReset }) ∨
      (result = .missing ∧ Emptied s' ∧ s'.step = s.step) := by
  rw [JitterBuffer.missed] at hmissed
  split at hmissed
  · next hwait =>
      obtain ⟨rfl, rfl⟩ := Prod.mk.inj (Except.ok.inj hmissed)
      exact .inl ⟨rfl, hwait, rfl⟩
  · next hready =>
      obtain ⟨s'', hlosses, hresult⟩ := bind_eq_ok.mp hmissed
      obtain ⟨rfl, rfl⟩ := Prod.mk.inj (Except.ok.inj hresult)
      rcases resetAfterLosses_cases hlosses (h.of_eq rfl rfl rfl) with ⟨hfew, hsame⟩ | hempty
      · exact .inr (.inl ⟨rfl, by simpa using hready, hfew, _, hsame⟩)
      · exact .inr (.inr ⟨rfl, hempty⟩)

/-- **What a read does** is one of the outcomes. -/
theorem getInternal_outcome (h : MemoryDiscipline s) {len : ℕ} {offset : BitVec 32}
    {result : JitterResult × ℕ × List UInt8} {s' : JitterBuffer}
    (hget : s.getInternal len offset = .ok (result, s')) :
    GetOutcome s len offset result s' := by
  rw [JitterBuffer.getInternal] at hget
  rcases firstSlot_eq (s.wanted offset) with ⟨i, hi, hwanted⟩ | ⟨hend, -⟩
  · obtain ⟨htaken, htimestamp⟩ := Bool.and_eq_true_iff.mp hwanted
    obtain ⟨b, hb⟩ := Option.isSome_iff_exists.mp htaken
    obtain ⟨pool, hrelease, -⟩ := release_spec h htaken
    rw [hi, if_pos i.isLt, slotIndex_val] at hget
    change (do
      let s' ← s.release i
      pure (_, _)) = _ at hget
    obtain ⟨s'', hfree, hresult⟩ := bind_eq_ok.mp hget
    rw [hrelease] at hfree
    obtain rfl := Except.ok.inj hfree
    obtain ⟨rfl, rfl⟩ := Prod.mk.inj (Except.ok.inj hresult)
    rw [hb]
    exact .found i b pool hb (of_decide_eq_true htimestamp)
  · rw [hend, if_neg (lt_irrefl _)] at hget
    obtain ⟨⟨missed, s''⟩, hmissed, hresult⟩ := bind_eq_ok.mp hget
    obtain ⟨rfl, rfl⟩ := Prod.mk.inj (Except.ok.inj hresult)
    rcases missed_cases (advanceIfNow_spec h offset) hmissed with ⟨rfl, hwait, rfl⟩ |
      ⟨rfl, hready, hfew, lost, rfl⟩ | ⟨rfl, hempty, hstep⟩
    · exact .buffering (by simpa using hwait)
    · rw [advanceIfNow_lostCount, advanceIfNow_lossesToReset] at hfew
      rw [advanceIfNow_lostCount]
      exact .missing lost (by simpa using hready) hfew
    · exact .emptied s'' hempty (by simpa using hstep)

end Reads

/-! ### What a put can do -/

/-- All that `PutInternal` can do with a packet that is not too large: the packet comes to those
that are held, others may go, and unless it resynchronizes the present stays or moves on by a
step, this only where a packet that is not old is held. -/
structure PutOutcome (s : JitterBuffer) (data : List UInt8) (timestamp : BitVec 32)
    (s' : JitterBuffer) : Prop where
  held : s'.heldFrames ≤ {⟨timestamp, data⟩} + s.heldFrames
  sizes : SizesFit s → SizesFit s'
  step : s'.step = s.step
  lostCount : s'.lostCount = s.lostCount
  needBuffering : s'.needBuffering = s.needBuffering
  next : s.wasReset = false → s'.nextTimestamp = s.nextTimestamp ∨
    s'.nextTimestamp = s.advance.nextTimestamp ∧ ∃ t, s.isOld t = false

section Puts

variable {s : JitterBuffer} {i : Fin JITTER_SLOT_COUNT}

@[simp] theorem resync_memory (timestamp : BitVec 32) :
    (s.resync timestamp).memory = s.memory := by
  rw [JitterBuffer.resync]
  split <;> rfl

@[simp] theorem resync_step (timestamp : BitVec 32) : (s.resync timestamp).step = s.step := by
  rw [JitterBuffer.resync]
  split <;> rfl

@[simp] theorem resync_lostCount (timestamp : BitVec 32) :
    (s.resync timestamp).lostCount = s.lostCount := by
  rw [JitterBuffer.resync]
  split <;> rfl

@[simp] theorem resync_needBuffering (timestamp : BitVec 32) :
    (s.resync timestamp).needBuffering = s.needBuffering := by
  rw [JitterBuffer.resync]
  split <;> rfl

/-- Only a packet after a reset resynchronizes. -/
theorem resync_nextTimestamp (h : s.wasReset = false) (timestamp : BitVec 32) :
    (s.resync timestamp).nextTimestamp = s.nextTimestamp := by
  rw [JitterBuffer.resync, h]
  rfl

/-- A slot that is freed keeps its size. -/
@[simp] theorem JitterSlot.freed_size (cond : JitterSlot → Bool) (slot : JitterSlot) :
    (slot.freed cond).size = slot.size := by
  rw [freed]
  split <;> rfl

/-- Freeing a slot leaves the sizes of the packets in the others. -/
theorem SizesFit.update_none {s' : JitterBuffer} (h : SizesFit s)
    (hslots : s'.slots = Function.update s.slots i { s.slots i with buffer := none }) :
    SizesFit s' := by
  intro j hj
  rw [hslots] at hj ⊢
  by_cases hji : j = i
  · subst hji
    rw [Function.update_self] at hj
    cases hj
  · rw [Function.update_of_ne hji] at hj ⊢
    exact h j hj

/-- A packet that is stored fits if it is not too large. -/
theorem SizesFit.store (h : SizesFit s) {data : List UInt8} (timestamp : BitVec 32)
    (hsize : data.length ≤ JITTER_SLOT_SIZE) : SizesFit (s.store i data timestamp) := by
  intro j hj
  rw [JitterBuffer.store] at hj ⊢
  dsimp only at hj ⊢
  by_cases hji : j = i
  · subst hji
    rwa [Function.update_self]
  · rw [Function.update_of_ne hji] at hj ⊢
    exact h j hj

/-- **What is left once the old packets are gone.** -/
theorem dropOld_cases (h : MemoryDiscipline s) {timestamp : BitVec 32} {s' : JitterBuffer}
    (hdrop : s.dropOld timestamp = .ok s') :
    MemoryDiscipline s' ∧ s'.heldFrames ≤ s.heldFrames ∧ (SizesFit s → SizesFit s') ∧
      s'.step = s.step ∧ s'.lostCount = s.lostCount ∧ s'.needBuffering = s.needBuffering ∧
      (s.wasReset = false → s'.nextTimestamp = s.nextTimestamp ∧
        ∀ i, (s'.slots i).taken = true → s.isOld (s'.slots i).timestamp = false) := by
  rw [JitterBuffer.dropOld] at hdrop
  set start := JitterBuffer.resync timestamp { s with gotSinceReset := s.gotSinceReset + 1 }
  have hslots : start.slots = s.slots := resync_slots timestamp
  have hmemory : start.memory = s.memory := resync_memory timestamp
  have hstart : MemoryDiscipline start :=
    h.of_eq (resync_bufferPool timestamp) hslots (resync_getFailed timestamp)
  obtain ⟨pool, hloop, hdiscipline⟩ :=
    releaseWhere_spec (fun slot => start.isOld slot.timestamp) hstart
  rw [hloop] at hdrop
  obtain rfl := Except.ok.inj hdrop
  refine ⟨hdiscipline, ?_, fun hsizes i hi => ?_, resync_step timestamp,
    resync_lostCount timestamp, resync_needBuffering timestamp, fun hreset => ?_⟩
  · exact heldFrames_freed_le (fun slot => start.isOld slot.timestamp) (by rw [hslots]) hmemory
  · rw [JitterSlot.freed_taken, hslots, Bool.and_eq_true] at hi
    rw [JitterSlot.freed_size, hslots]
    exact hsizes i hi.1
  · have hnext : start.nextTimestamp = s.nextTimestamp :=
      resync_nextTimestamp (s := { s with gotSinceReset := s.gotSinceReset + 1 }) hreset timestamp
    refine ⟨hnext, fun i hi => ?_⟩
    rw [JitterSlot.freed_taken, Bool.and_eq_true, Bool.not_eq_true', JitterBuffer.isOld,
      hnext] at hi
    rw [JitterSlot.freed_timestamp]
    exact hi.2

/-- **The slot for a new packet** is free, or its packet is thrown out, and then the present moves
on. -/
theorem makeRoom_cases (h : MemoryDiscipline s) {s' : JitterBuffer}
    (hmake : s.makeRoom = .ok (i, s')) :
    MemoryDiscipline s' ∧ (s'.slots i).taken = false ∧
      (s' = s ∨ (s.slots i).taken = true ∧ ∃ pool, s' = { s.advance with
        bufferPool := pool
        slots := Function.update s.slots i { s.slots i with buffer := none } }) := by
  rw [JitterBuffer.makeRoom] at hmake
  split at hmake
  · next hroom =>
      obtain ⟨j, hindex, hmake⟩ := bind_eq_ok.mp hmake
      obtain ⟨s'', hrelease, hresult⟩ := bind_eq_ok.mp hmake
      obtain ⟨rfl, rfl⟩ := Prod.mk.inj (Except.ok.inj hresult)
      have htaken : (s.slots j).taken = true := by
        by_cases hexists : ∃ k, (s.slots k).taken = true ∧ (s.slots k).timestamp ≠ 0xFFFFFFFF
        · obtain ⟨k, hk, htaken⟩ := oldest_of_exists hexists
          rw [hk, slotIndex_val] at hindex
          rwa [← Except.ok.inj hindex]
        · push Not at hexists
          rw [oldest_of_forall hexists] at hindex
          cases hindex
      have hadvance : MemoryDiscipline s.advance := h.of_eq rfl rfl rfl
      obtain ⟨pool, hfree, hdiscipline⟩ := release_spec hadvance (i := j) htaken
      rw [hfree] at hrelease
      obtain rfl := Except.ok.inj hrelease
      exact ⟨hdiscipline, by simp [JitterSlot.taken], .inr ⟨htaken, pool, rfl⟩⟩
  · next hroom =>
      obtain ⟨j, hindex, hresult⟩ := bind_eq_ok.mp hmake
      obtain ⟨rfl, rfl⟩ := Prod.mk.inj (Except.ok.inj hresult)
      rw [JitterBuffer.crowded, Bool.or_eq_true, not_or] at hroom
      rcases firstSlot_eq fun i => !(s.slots i).taken with ⟨k, hk, hfree⟩ | ⟨hend, -⟩
      · rw [hk, slotIndex_val] at hindex
        obtain rfl := Except.ok.inj hindex
        exact ⟨h, by simpa using hfree, .inl rfl⟩
      · exact absurd (decide_eq_true hend) hroom.1

/-- **What a put does** with a packet that is not too large. -/
theorem putInternal_outcome (h : MemoryDiscipline s) {data : List UInt8} {timestamp : BitVec 32}
    {s' : JitterBuffer} (hsize : data.length ≤ JITTER_SLOT_SIZE)
    (hput : s.putInternal data timestamp = .ok s') : PutOutcome s data timestamp s' := by
  rw [JitterBuffer.putInternal, if_neg hsize.not_gt] at hput
  obtain ⟨dropped, hdrop, hput⟩ := bind_eq_ok.mp hput
  obtain ⟨hdropped, hheld, hsizes, hstep, hlost, hneed, hnext⟩ := dropOld_cases h hdrop
  split at hput
  · obtain rfl := Except.ok.inj hput
    exact ⟨hheld.trans (Multiset.le_add_left _ _), hsizes, hstep, hlost, hneed,
      fun hreset => .inl (hnext hreset).1⟩
  · obtain ⟨⟨i, room⟩, hmake, hput⟩ := bind_eq_ok.mp hput
    obtain rfl := Except.ok.inj hput
    have hnoted : MemoryDiscipline (dropped.noteTimestamp timestamp) := hdropped.of_eq rfl rfl rfl
    obtain ⟨hroom, hfree, hcases⟩ := makeRoom_cases hnoted hmake
    have hstored := heldFrames_store hroom hfree data timestamp
    rcases hcases with rfl | ⟨htaken, pool, rfl⟩
    · refine ⟨?_, fun h => (hsizes h).store timestamp hsize, hstep, hlost, hneed,
        fun hreset => .inl (hnext hreset).1⟩
      rw [hstored]
      exact add_le_add_right hheld _
    · obtain ⟨b, hb⟩ := Option.isSome_iff_exists.mp htaken
      refine ⟨?_, fun h => ?_, hstep, hlost, hneed, fun hreset => .inr ⟨?_, ?_⟩⟩
      · rw [hstored]
        refine add_le_add_right (le_trans ?_ hheld) _
        rw [heldFrames_release (s := dropped) pool hb]
        exact Multiset.le_add_left _ _
      · exact ((hsizes h).update_none (i := i) rfl).store timestamp hsize
      · change dropped.nextTimestamp + dropped.step.setWidth 64 = _
        rw [(hnext hreset).1, hstep]
        rfl
      · exact ⟨_, (hnext hreset).2 i htaken⟩

end Puts

/-! ### The present is ahead -/

/-- `nextTimestamp` is ahead of the timestamps by a step, and is larger than a timestamp can be only
by the losses that were counted. -/
structure AheadOf (s : JitterBuffer) (timestamps : List (BitVec 32)) : Prop where
  ready : s.needBuffering = false
  behind : ∀ t ∈ timestamps, (t.toNat : ℤ) + s.step.toNat ≤ s.nextTimestamp.toInt
  reach : s.nextTimestamp.toInt ≤ 2 ^ 33 + (s.lostCount.toNat * s.step.toNat : ℕ)
  few : s.lostCount.toNat < 2 ^ 32 - 1

/-- Where a jitter buffer stands that played the packets with these timestamps at the present since
the last resynchronization. -/
def Playing (s : JitterBuffer) (timestamps : List (BitVec 32)) : Prop :=
  timestamps = [] ∨ Emptied s ∨ AheadOf s timestamps

section Ahead

variable {s s' : JitterBuffer} {timestamps : List (BitVec 32)}

/-- A timestamp as a 64-bit number. -/
theorem toInt_setWidth_timestamp (t : BitVec 32) : (t.setWidth 64).toInt = t.toNat := by
  have hlt := t.isLt
  have hnat : (t.setWidth 64).toNat = t.toNat := by
    rw [BitVec.toNat_setWidth]
    omega
  rw [BitVec.toInt_eq_toNat_of_lt (by omega), hnat]

/-- **A step moves the present on** as long as there is room above. -/
theorem toInt_advance (h : s.nextTimestamp.toInt + s.step.toNat < 2 ^ 63) :
    s.advance.nextTimestamp.toInt = s.nextTimestamp.toInt + s.step.toNat := by
  have hlow := s.nextTimestamp.le_toInt
  rw [JitterBuffer.advance, BitVec.toInt_add, toInt_setWidth_timestamp]
  apply Int.bmod_eq_of_le <;> omega

/-- At the present the packet with the next timestamp is looked for. -/
@[simp] theorem timestampToGet_zero : s.timestampToGet 0 = s.nextTimestamp := by
  rw [JitterBuffer.timestampToGet]
  simp

/-- The losses and steps of a call stay far below the largest number. -/
theorem AheadOf.lt (h : AheadOf s timestamps) (hstep : s.step.toNat < 2 ^ 16) :
    s.nextTimestamp.toInt < 2 ^ 50 := by
  have hreach := h.reach
  have hlost : s.lostCount.toNat * s.step.toNat ≤ 2 ^ 32 * 2 ^ 16 :=
    Nat.mul_le_mul s.lostCount.isLt.le hstep.le
  omega

/-- **A packet found behind the present** shows that the present is near the timestamps. -/
theorem AheadOf.near (h : AheadOf s timestamps) (hne : timestamps ≠ [])
    (hstep : s.step.toNat < 2 ^ 16) {offset t : BitVec 32}
    (ht : t.setWidth 64 = s.timestampToGet offset) : s.nextTimestamp.toInt ≤ 2 ^ 33 := by
  obtain ⟨u, hu⟩ := List.exists_mem_of_ne_nil _ hne
  have hbehind := h.behind u hu
  have hlt := h.lt hstep
  have hmove : ((offset * s.step).signExtend 64).toInt = (offset * s.step).toInt :=
    BitVec.toInt_signExtend_of_le (by omega)
  have hlow := (offset * s.step).le_toInt
  have hhigh := BitVec.toInt_lt (x := offset * s.step)
  have htlt := t.isLt
  have heq := congrArg BitVec.toInt ht
  rw [toInt_setWidth_timestamp, JitterBuffer.timestampToGet, BitVec.toInt_add, hmove,
    Int.bmod_eq_of_le (by omega) (by omega)] at heq
  omega

/-- **The present is ahead of a packet that is played at it.** -/
theorem AheadOf.played {t : BitVec 32} (htimestamp : t.setWidth 64 = s.nextTimestamp)
    (hstep : s.step.toNat < 2 ^ 16)
    (hbehind : ∀ u ∈ timestamps, u.toNat + s.step.toNat ≤ t.toNat)
    (hnext : s'.nextTimestamp = s.advance.nextTimestamp) (hsame : s'.step = s.step)
    (hready : s'.needBuffering = false) (hlost : s'.lostCount = 0) :
    AheadOf s' (t :: timestamps) := by
  have ht : s.nextTimestamp.toInt = t.toNat := by
    rw [← htimestamp, toInt_setWidth_timestamp]
  have htlt := t.isLt
  have hadvance := toInt_advance (s := s) (by omega)
  rw [← hnext, ht] at hadvance
  refine ⟨hready, fun u hu => ?_, ?_, ?_⟩
  · rw [hsame, hadvance]
    rcases List.mem_cons.mp hu with rfl | hu
    · exact le_rfl
    · have := hbehind u hu
      omega
  · rw [hadvance]
    omega
  · rw [hlost]
    decide

/-- Behind the slots that were emptied the present may go on. -/
theorem Emptied.of_eq (h : Emptied s) (hslots : s'.slots = s.slots)
    (hreset : s'.wasReset = s.wasReset) : Emptied s' := by
  refine ⟨fun i => ?_, hreset.trans h.wasReset⟩
  rw [hslots]
  exact h.free i

/-- **A read that finds nothing.** -/
theorem Playing.missed (h : Playing s timestamps) (hstep : s.step.toNat < 2 ^ 16)
    {len : ℕ} {offset : BitVec 32} {result : JitterResult × ℕ × List UInt8}
    (hget : GetOutcome s len offset result s') (hmissed : result.1 ≠ .ok) :
    Playing s' timestamps := by
  rcases h with rfl | h | h
  · exact .inl rfl
  · refine .inr (.inl ?_)
    cases hget with
    | found i b pool hb htimestamp => exact absurd (by split <;> rfl) hmissed
    | buffering hwait => exact h.of_eq (by simp) (by simp)
    | missing lost hready hfew => exact h.of_eq (by simp) (by simp)
    | emptied s' hempty hsame => exact hempty
  · cases hget with
    | found i b pool hb htimestamp => exact absurd (by split <;> rfl) hmissed
    | buffering hwait =>
        rw [h.ready] at hwait
        cases hwait
    | missing lost hready hfew =>
        refine .inr (.inr ?_)
        have hfew' := BitVec.lt_def.mp hfew
        have hlosses := s.lossesToReset.isLt
        have hcount : (s.lostCount + 1).toNat = s.lostCount.toNat + 1 := by
          have := h.few
          rw [BitVec.toNat_add]
          change (s.lostCount.toNat + 1) % 2 ^ 32 = _
          omega
        have hlt := h.lt hstep
        have hreach := h.reach
        have hmore : (s.lostCount + 1).toNat * s.step.toNat =
            s.lostCount.toNat * s.step.toNat + s.step.toNat := by
          rw [hcount, Nat.add_one_mul]
        -- where the present moves on, it does so by the step that the loss counts for
        have hnext : s.nextTimestamp.toInt ≤ (s.advanceIfNow offset).nextTimestamp.toInt ∧
            (s.advanceIfNow offset).nextTimestamp.toInt ≤
              s.nextTimestamp.toInt + s.step.toNat := by
          rw [JitterBuffer.advanceIfNow]
          split
          · rw [toInt_advance (by omega)]
            omega
          · omega
        refine ⟨by simpa using hready, fun t ht => ?_, ?_, ?_⟩
        · have hbehind := h.behind t ht
          simp only [advanceIfNow_step]
          omega
        · simp only [advanceIfNow_step]
          omega
        · change (s.lostCount + 1).toNat < _
          omega
    | emptied s' hempty hsame => exact .inr (.inl hempty)

/-- **A packet is found behind the present.** -/
theorem Playing.recovered (h : Playing s timestamps) (hstep : s.step.toNat < 2 ^ 16)
    {i : Fin JITTER_SLOT_COUNT} {offset : BitVec 32} (htaken : (s.slots i).taken = true)
    (htimestamp : (s.slots i).timestamp.setWidth 64 = s.timestampToGet offset)
    (hnext : s'.nextTimestamp = s.nextTimestamp) (hsame : s'.step = s.step)
    (hready : s'.needBuffering = false) (hlost : s'.lostCount = 0) : Playing s' timestamps := by
  rcases h with rfl | h | h
  · exact .inl rfl
  · rw [h.free i] at htaken
    cases htaken
  · by_cases hne : timestamps = []
    · exact .inl hne
    · have hnear := h.near hne hstep htimestamp
      refine .inr (.inr ⟨hready, fun t ht => ?_, ?_, ?_⟩)
      · rw [hnext, hsame]
        exact h.behind t ht
      · rw [hnext]
        omega
      · rw [hlost]
        decide

/-- **A packet is found at the present**: it comes after those found there before. -/
theorem Playing.behind (h : Playing s timestamps) {i : Fin JITTER_SLOT_COUNT}
    (htaken : (s.slots i).taken = true)
    (htimestamp : (s.slots i).timestamp.setWidth 64 = s.nextTimestamp) :
    ∀ u ∈ timestamps, u.toNat + s.step.toNat ≤ (s.slots i).timestamp.toNat := by
  intro u hu
  rcases h with rfl | h | h
  · cases hu
  · rw [h.free i] at htaken
    cases htaken
  · have hbehind := h.behind u hu
    rw [← htimestamp, toInt_setWidth_timestamp] at hbehind
    omega

/-- **A put that does not resynchronize.** -/
theorem Playing.put (h : Playing s timestamps) (hstep : s.step.toNat < 2 ^ 16)
    {data : List UInt8} {timestamp : BitVec 32} (hput : PutOutcome s data timestamp s')
    (hreset : s.wasReset = false) : Playing s' timestamps := by
  rcases h with rfl | h | h
  · exact .inl rfl
  · rw [h.wasReset] at hreset
    cases hreset
  · by_cases hne : timestamps = []
    · exact .inl hne
    · obtain ⟨u, hu⟩ := List.exists_mem_of_ne_nil _ hne
      have hpositive := h.behind u hu
      have hreach := h.reach
      have hlt := h.lt hstep
      have hnext : s.nextTimestamp.toInt ≤ s'.nextTimestamp.toInt ∧
          s'.nextTimestamp.toInt ≤ 2 ^ 33 + (s.lostCount.toNat * s.step.toNat : ℕ) := by
        rcases hput.next hreset with hsame | ⟨hmoved, t, ht⟩
        · rw [hsame]
          omega
        · have htlt := t.isLt
          rw [JitterBuffer.isOld, BitVec.slt_eq_decide, decide_eq_false_iff_not,
            toInt_setWidth_timestamp, BitVec.toInt_sub, show (1 : BitVec 64).toInt = 1 from rfl,
            Int.bmod_eq_of_le (by omega) (by omega)] at ht
          rw [hmoved, toInt_advance (by omega)]
          omega
      refine .inr (.inr ⟨hput.needBuffering.trans h.ready, fun t ht => ?_, ?_, ?_⟩)
      · have hbehind := h.behind t ht
        rw [hput.step]
        omega
      · rw [hput.lostCount, hput.step]
        exact hnext.2
      · rw [hput.lostCount]
        exact h.few

end Ahead

/-! ### Runs -/

/-- A packet that was played, and the offset it was read at. -/
structure PlayedFrame where
  offset : BitVec 32
  frame : JitterFrame

/-- The timestamps played at the present. -/
def nowTimestamps (played : List PlayedFrame) : List (BitVec 32) :=
  (played.filter fun f => f.offset = 0).map fun f => f.frame.timestamp

/-- A jitter buffer and what has happened to it: the packets that were put in, those that were held
at the last resynchronization or put in since then, and those played since then, the last one
first. -/
structure Playback where
  jitterBuffer : JitterBuffer
  received : List JitterFrame
  frames : Multiset JitterFrame
  played : List PlayedFrame

namespace Playback

/-- The packets that were played. -/
def playedFrames (p : Playback) : Multiset JitterFrame :=
  (p.played.map PlayedFrame.frame : List JitterFrame)

/-- A put, with which the record starts anew where it resynchronizes. -/
def handleInput (data : List UInt8) (timestamp : BitVec 32) (p : Playback) :
    Except MemoryFault Playback := do
  let jitterBuffer ← p.jitterBuffer.handle (.handleInput data timestamp)
  let received := ⟨timestamp, data⟩ :: p.received
  if p.jitterBuffer.wasReset = true ∧ data.length ≤ JITTER_SLOT_SIZE then
    pure ⟨jitterBuffer, received, jitterBuffer.heldFrames, []⟩
  else pure ⟨jitterBuffer, received, ⟨timestamp, data⟩ ::ₘ p.frames, p.played⟩

/-- A read. The timestamp that is looked for is that of the packet that is found. -/
def handleOutput (len : ℕ) (offset : BitVec 32) (p : Playback) : Except MemoryFault Playback := do
  let ((result, _, bytes), jitterBuffer) ← p.jitterBuffer.getInternal len offset
  if result = .ok then
    let timestamp := (p.jitterBuffer.timestampToGet offset).setWidth 32
    pure { p with
      jitterBuffer := jitterBuffer
      played := ⟨offset, ⟨timestamp, bytes⟩⟩ :: p.played }
  else pure { p with jitterBuffer := jitterBuffer }

/-- A call, and its record. -/
def handle (p : Playback) : JitterEvent → Except MemoryFault Playback
  | .handleInput data timestamp => p.handleInput data timestamp
  | .handleOutput len offsetInSteps => p.handleOutput len offsetInSteps
  | e => do
      let jitterBuffer ← p.jitterBuffer.handle e
      pure { p with jitterBuffer := jitterBuffer }

/-- A new jitter buffer, for frames of a duration. -/
def new (frameDuration : BitVec 16) (lossesToReset maxUsedSlots : BitVec 32)
    (nextTimestamp : BitVec 64) : Except MemoryFault Playback := do
  let jitterBuffer ←
    JitterBuffer.new (frameDuration.setWidth 32) lossesToReset maxUsedSlots nextTimestamp
  pure ⟨jitterBuffer, [], 0, []⟩

end Playback

/-- One call after the others, with the record. -/
def playbackStep (x : Except MemoryFault Playback) (e : JitterEvent) :
    Except MemoryFault Playback := do
  let p ← x
  p.handle e

/-- A read has room for a whole packet. -/
def HasRoom : JitterEvent → Prop
  | .handleOutput len _ => JITTER_SLOT_SIZE ≤ len
  | _ => True

/-- **Each packet is played at most once**, as it was put in, and what is played at the present
moves on by a step at least. -/
structure PlaysInOrder (p : Playback) : Prop where
  once : p.playedFrames ≤ p.frames
  put : ∀ f ∈ p.played, f.frame ∈ p.received
  increasing : (nowTimestamps p.played).Pairwise fun t u =>
    u.toNat + p.jitterBuffer.step.toNat ≤ t.toNat

/-- No timestamp is played twice, what is played was put in so, and what is played at the present
has ever larger timestamps. -/
structure PlaysTimestampsOnce (p : Playback) : Prop where
  once : (p.played.map fun f => f.frame.timestamp).Nodup
  put : ∀ f ∈ p.played, f.frame ∈ p.received
  increasing : (nowTimestamps p.played).Pairwise fun t u => u < t

/-- What holds before and after each call. -/
structure PlaybackInvariant (p : Playback) : Prop where
  disciplined : MemoryDiscipline p.jitterBuffer
  sizes : SizesFit p.jitterBuffer
  step : p.jitterBuffer.step.toNat < 2 ^ 16
  balance : p.jitterBuffer.heldFrames + p.playedFrames ≤ p.frames
  received : ∀ f ∈ p.frames, f ∈ p.received
  increasing : (nowTimestamps p.played).Pairwise fun t u =>
    u.toNat + p.jitterBuffer.step.toNat ≤ t.toNat
  playing : Playing p.jitterBuffer (nowTimestamps p.played)

/-- Between the calls everything is in order. -/
theorem PlaybackInvariant.playsInOrder {p : Playback} (h : PlaybackInvariant p) :
    PlaysInOrder p := by
  have honce : p.playedFrames ≤ p.frames := (Multiset.le_add_left _ _).trans h.balance
  refine ⟨honce, fun f hf => h.received _ (Multiset.mem_of_le honce ?_), h.increasing⟩
  exact Multiset.mem_coe.mpr (List.mem_map_of_mem hf)

/-- **Where no two packets came with one timestamp none is played twice.** -/
theorem PlaysInOrder.nodup {p : Playback} (h : PlaysInOrder p)
    (hdistinct : (p.frames.map JitterFrame.timestamp).Nodup) :
    (p.played.map fun f => f.frame.timestamp).Nodup := by
  have hle := Multiset.map_le_map (f := JitterFrame.timestamp) h.once
  have hnodup := Multiset.nodup_of_le hle hdistinct
  rwa [Playback.playedFrames, Multiset.map_coe, Multiset.coe_nodup, List.map_map] at hnodup

section Steps

variable {p p' : Playback}

/-- Only a packet that is played at the present counts there. -/
theorem nowTimestamps_cons (f : PlayedFrame) (played : List PlayedFrame) :
    nowTimestamps (f :: played) =
      if f.offset = 0 then f.frame.timestamp :: nowTimestamps played
      else nowTimestamps played := by
  rw [nowTimestamps, List.filter_cons]
  simp only [decide_eq_true_eq]
  split <;> rfl

/-- A call that goes through keeps slots and pool in order. -/
theorem MemoryDiscipline.handle {s s' : JitterBuffer} (h : MemoryDiscipline s) {e : JitterEvent}
    (hcall : s.handle e = .ok s') : MemoryDiscipline s' := by
  have hroom : FindsRoom s e := by
    cases e with
    | handleInput data timestamp =>
        intro hlost
        rw [JitterBuffer.handle, putInternal_of_noneToRemove h hlost] at hcall
        cases hcall
    | handleOutput len offsetInSteps => trivial
    | tick resync diff => trivial
    | setMinPacketCount count => trivial
    | reset => trivial
  obtain ⟨s'', hdone, hs''⟩ := (handle_disciplined_iff h e).mpr hroom
  rw [hcall] at hdone
  rwa [Except.ok.inj hdone]

/-- **Emptying the slots keeps the balance and the order.** -/
theorem PlaybackInvariant.emptied (h : PlaybackInvariant p) {s' : JitterBuffer}
    (hdisciplined : MemoryDiscipline s') (hempty : Emptied s')
    (hstep : s'.step = p.jitterBuffer.step) :
    PlaybackInvariant { p with jitterBuffer := s' } := by
  refine ⟨hdisciplined, fun i hi => ?_, ?_, ?_, h.received, ?_, .inr (.inl hempty)⟩
  · rw [hempty.free i] at hi
    cases hi
  · exact hstep ▸ h.step
  · exact hempty.heldFrames ▸ (add_le_add_left (Multiset.zero_le _) _).trans h.balance
  · simp only [hstep]
    exact h.increasing

/-- **A put keeps the balance and the order.** -/
theorem handleInput_invariant (h : PlaybackInvariant p) {data : List UInt8}
    {timestamp : BitVec 32} (hput : p.handleInput data timestamp = .ok p') :
    PlaybackInvariant p' := by
  obtain ⟨s', hcall, hrecord⟩ := bind_eq_ok.mp hput
  have hdisciplined := h.disciplined.handle hcall
  -- what is put in was received, as what was held before
  have hreceived : ∀ frames : Multiset JitterFrame, frames ≤ {⟨timestamp, data⟩} + p.frames →
      ∀ f ∈ frames, f ∈ (⟨timestamp, data⟩ :: p.received : List JitterFrame) := by
    intro frames hle f hf
    rcases Multiset.mem_add.mp (Multiset.mem_of_le hle hf) with hf | hf
    · rw [Multiset.mem_singleton.mp hf]
      exact List.mem_cons_self
    · exact List.mem_cons_of_mem _ (h.received f hf)
  have hheld : p.jitterBuffer.heldFrames ≤ p.frames :=
    (Multiset.le_add_right _ _).trans h.balance
  by_cases hsize : data.length ≤ JITTER_SLOT_SIZE
  · have hout := putInternal_outcome h.disciplined hsize hcall
    split at hrecord
    · obtain rfl := Except.ok.inj hrecord
      refine ⟨hdisciplined, hout.sizes h.sizes, ?_, ?_, hreceived _ ?_, .nil, .inl rfl⟩
      · exact hout.step ▸ h.step
      · exact (add_zero _).le
      · exact hout.held.trans (add_le_add_right hheld _)
    · next hsame =>
        obtain rfl := Except.ok.inj hrecord
        have hreset : p.jitterBuffer.wasReset = false :=
          Bool.eq_false_iff.mpr fun hreset => hsame ⟨hreset, hsize⟩
        refine ⟨hdisciplined, hout.sizes h.sizes, ?_, ?_, hreceived _ le_rfl, ?_,
          h.playing.put h.step hout hreset⟩
        · exact hout.step ▸ h.step
        · calc s'.heldFrames + p.playedFrames
              ≤ {⟨timestamp, data⟩} + p.jitterBuffer.heldFrames + p.playedFrames :=
                add_le_add_left hout.held _
            _ = {⟨timestamp, data⟩} + (p.jitterBuffer.heldFrames + p.playedFrames) :=
                add_assoc _ _ _
            _ ≤ {⟨timestamp, data⟩} + p.frames := add_le_add_right h.balance _
        · simp only [hout.step]
          exact h.increasing
  · rw [JitterBuffer.handle, JitterBuffer.putInternal, if_pos (not_le.mp hsize)] at hcall
    obtain rfl := Except.ok.inj hcall
    rw [if_neg (fun hboth => hsize hboth.2)] at hrecord
    obtain rfl := Except.ok.inj hrecord
    refine ⟨h.disciplined, h.sizes, h.step, ?_, hreceived _ le_rfl, h.increasing, h.playing⟩
    exact h.balance.trans (Multiset.le_cons_self _ _)

/-- **A read keeps the balance and the order.** -/
theorem handleOutput_invariant (h : PlaybackInvariant p) {len : ℕ} {offset : BitVec 32}
    (hroom : JITTER_SLOT_SIZE ≤ len) (hget : p.handleOutput len offset = .ok p') :
    PlaybackInvariant p' := by
  obtain ⟨⟨result, s'⟩, hcall, hrecord⟩ := bind_eq_ok.mp hget
  have hdisciplined : MemoryDiscipline s' := by
    refine h.disciplined.handle (e := .handleOutput len offset) ?_
    rw [JitterBuffer.handle, hcall]
    rfl
  have hout := getInternal_outcome h.disciplined hcall
  -- a read that finds nothing
  have hmissed : ∀ result : JitterResult × ℕ × List UInt8,
      GetOutcome p.jitterBuffer len offset result s' → result.1 ≠ .ok →
      s'.heldFrames ≤ p.jitterBuffer.heldFrames → SizesFit s' →
      s'.step = p.jitterBuffer.step → PlaybackInvariant { p with jitterBuffer := s' } := by
    intro result hout hfailed hheld hsizes hstep
    refine ⟨hdisciplined, hsizes, ?_, ?_, h.received, ?_, h.playing.missed h.step hout hfailed⟩
    · exact hstep ▸ h.step
    · exact (add_le_add_left hheld _).trans h.balance
    · simp only [hstep]
      exact h.increasing
  have hsame : ∀ s'' : JitterBuffer, s''.slots = p.jitterBuffer.slots →
      s''.memory = p.jitterBuffer.memory →
      s''.heldFrames ≤ p.jitterBuffer.heldFrames ∧ SizesFit s'' := by
    intro s'' hslots hmemory
    rw [JitterBuffer.heldFrames, SizesFit, hslots, hmemory]
    exact ⟨le_rfl, h.sizes⟩
  have hout' := hout
  cases hout with
  | buffering hwait =>
      obtain rfl := Except.ok.inj hrecord
      obtain ⟨hheld, hsizes⟩ := hsame (p.jitterBuffer.advanceIfNow offset) (by simp) (by simp)
      exact hmissed _ hout' (by simp) hheld hsizes (by simp)
  | missing lost hready hfew =>
      obtain rfl := Except.ok.inj hrecord
      obtain ⟨hheld, hsizes⟩ := hsame { p.jitterBuffer.advanceIfNow offset with
        lostCount := p.jitterBuffer.lostCount + 1
        lostSinceReset := lost } (by simp) (by simp)
      exact hmissed _ hout' (by simp) hheld hsizes (by simp)
  | emptied s' hempty hstep =>
      obtain rfl := Except.ok.inj hrecord
      refine hmissed _ hout' (by simp) ?_ (fun i hi => ?_) hstep
      · rw [hempty.heldFrames]
        exact Multiset.zero_le _
      · rw [hempty.free i] at hi
        cases hi
  | found i b pool hb htimestamp =>
      have htaken : (p.jitterBuffer.slots i).taken = true := by
        rw [JitterSlot.taken, hb]
        rfl
      have hsize := h.sizes i htaken
      simp only [if_neg (show ¬ len < (p.jitterBuffer.slots i).size by omega)] at hrecord
      obtain rfl := Except.ok.inj hrecord
      have hframe : (p.jitterBuffer.timestampToGet offset).setWidth 32 =
          (p.jitterBuffer.slots i).timestamp := by
        rw [← htimestamp, BitVec.setWidth_setWidth_of_le _ (by omega), BitVec.setWidth_eq]
      rw [hframe]
      refine ⟨hdisciplined, h.sizes.update_none (i := i) afterFound_slots, ?_, ?_, h.received,
        ?_, ?_⟩
      · rw [afterFound_step]
        exact h.step
      · refine le_of_eq_of_le ?_ h.balance
        rw [heldFrames_afterFound offset pool hb]
        simp only [Playback.playedFrames, List.map_cons, ← Multiset.cons_coe,
          ← Multiset.singleton_add]
        exact (add_left_comm _ _ _).trans (add_assoc _ _ _).symm
      · simp only [afterFound_step]
        rw [nowTimestamps_cons]
        split
        · next hzero =>
            subst hzero
            rw [timestampToGet_zero] at htimestamp
            exact List.pairwise_cons.mpr ⟨h.playing.behind htaken htimestamp, h.increasing⟩
        · exact h.increasing
      · rw [nowTimestamps_cons]
        split
        · next hzero =>
            subst hzero
            rw [timestampToGet_zero] at htimestamp
            exact .inr (.inr (AheadOf.played htimestamp h.step
              (h.playing.behind htaken htimestamp) afterFound_nextTimestamp afterFound_step
              rfl rfl))
        · next hoffset =>
            refine h.playing.recovered h.step htaken htimestamp ?_ afterFound_step rfl rfl
            rw [afterFound_nextTimestamp, JitterBuffer.advanceIfNow, if_neg hoffset]

/-- **One call keeps the balance and the order.** -/
theorem handle_invariant (h : PlaybackInvariant p) {e : JitterEvent} (hroom : HasRoom e)
    (hcall : p.handle e = .ok p') : PlaybackInvariant p' := by
  cases e with
  | handleInput data timestamp => exact handleInput_invariant h hcall
  | handleOutput len offsetInSteps => exact handleOutput_invariant h hroom hcall
  | tick resync diff =>
      obtain rfl := Except.ok.inj hcall
      refine ⟨h.disciplined.of_eq rfl rfl rfl, h.sizes, h.step, h.balance, h.received,
        h.increasing, ?_⟩
      rcases h.playing with hnil | hempty | hahead
      · exact .inl hnil
      · refine .inr (.inl ⟨hempty.free, ?_⟩)
        simp [hempty.wasReset]
      · exact .inr (.inr ⟨hahead.ready, hahead.behind, hahead.reach, hahead.few⟩)
  | setMinPacketCount count =>
      obtain ⟨s', hset, hrecord⟩ := bind_eq_ok.mp hcall
      obtain rfl := Except.ok.inj hrecord
      have hdisciplined := h.disciplined.handle hset
      rw [JitterBuffer.handle] at hset
      split at hset
      · obtain rfl := Except.ok.inj hset
        exact h
      · obtain ⟨hempty, hstep⟩ := reset_emptied hset (h.disciplined.of_eq rfl rfl rfl)
        exact h.emptied hdisciplined hempty hstep
  | reset =>
      obtain ⟨s', hset, hrecord⟩ := bind_eq_ok.mp hcall
      obtain rfl := Except.ok.inj hrecord
      obtain ⟨hempty, hstep⟩ := reset_emptied hset h.disciplined
      exact h.emptied (h.disciplined.handle hset) hempty hstep

end Steps

/-- The record of a call does not change what the call does. -/
theorem handle_jitterBuffer (p : Playback) (e : JitterEvent) :
    Playback.jitterBuffer <$> p.handle e = p.jitterBuffer.handle e := by
  cases e with
  | handleInput data timestamp =>
      rw [Playback.handle, Playback.handleInput]
      cases p.jitterBuffer.handle (.handleInput data timestamp) with
      | error e => rfl
      | ok s' =>
          change Playback.jitterBuffer <$> (ite _ _ _ : Except MemoryFault Playback) = _
          split <;> rfl
  | handleOutput len offsetInSteps =>
      rw [Playback.handle, Playback.handleOutput, JitterBuffer.handle]
      cases p.jitterBuffer.getInternal len offsetInSteps with
      | error e => rfl
      | ok read =>
          change Playback.jitterBuffer <$> (ite _ _ _ : Except MemoryFault Playback) = _
          split <;> rfl
  | tick resync diff => rfl
  | setMinPacketCount count =>
      change Playback.jitterBuffer <$> (do
        let s ← p.jitterBuffer.handle (.setMinPacketCount count)
        pure { p with jitterBuffer := s }) = _
      cases p.jitterBuffer.handle (.setMinPacketCount count) <;> rfl
  | reset =>
      change Playback.jitterBuffer <$> (do
        let s ← p.jitterBuffer.handle .reset
        pure { p with jitterBuffer := s }) = _
      cases p.jitterBuffer.handle .reset <;> rfl

/-- **What is recorded of a run does not change the run.** -/
theorem playback_jitterBuffer (x : Except MemoryFault Playback) (es : List JitterEvent) :
    Playback.jitterBuffer <$> Machine.run playbackStep x es =
      Machine.run jitterStep (Playback.jitterBuffer <$> x) es := by
  induction es generalizing x with
  | nil => rfl
  | cons e es ih =>
      rw [Machine.run_cons, Machine.run_cons, ih]
      cases x with
      | error fault => rfl
      | ok p =>
          have hone := handle_jitterBuffer p e
          change Machine.run jitterStep (Playback.jitterBuffer <$> p.handle e) es = _
          rw [hone]
          rfl

/-- A new jitter buffer is in order. -/
theorem new_invariant {frameDuration : BitVec 16} {lossesToReset maxUsedSlots : BitVec 32}
    {nextTimestamp : BitVec 64} {p : Playback}
    (hnew : Playback.new frameDuration lossesToReset maxUsedSlots nextTimestamp = .ok p) :
    PlaybackInvariant p := by
  obtain ⟨s, hs, hp⟩ := bind_eq_ok.mp hnew
  obtain rfl := Except.ok.inj hp
  obtain ⟨s', hs', hdisciplined⟩ :=
    new_disciplined (frameDuration.setWidth 32) lossesToReset maxUsedSlots nextTimestamp
  obtain rfl := Except.ok.inj (hs.symm.trans hs')
  rw [JitterBuffer.new] at hs
  obtain ⟨hempty, hstep⟩ := reset_emptied hs (.of_free rfl (fun _ => rfl) rfl)
  refine ⟨hdisciplined, fun i hi => ?_, ?_, ?_, fun f hf => ?_, .nil, .inl rfl⟩
  · rw [hempty.free i] at hi
    cases hi
  · rw [hstep]
    change (frameDuration.setWidth 32).toNat < _
    rw [BitVec.toNat_setWidth]
    have := frameDuration.isLt
    omega
  · exact (congrArg (· + 0) hempty.heldFrames).le
  · cases hf

/-- **Each packet is played at most once since the last resynchronization, with the bytes it was
put in with, and what is played at the present moves on by a step at least**, whatever calls are
made with room for a whole packet. -/
theorem playback_inOrder (frameDuration : BitVec 16) (lossesToReset maxUsedSlots : BitVec 32)
    (nextTimestamp : BitVec 64) (es : List JitterEvent) (hroom : ∀ e ∈ es, HasRoom e) :
    Machine.Always playbackStep (fun x => ∀ p, x = .ok p → PlaysInOrder p)
      (Playback.new frameDuration lossesToReset maxUsedSlots nextTimestamp) es := by
  have hsteps : Machine.AllSteps playbackStep (fun _ e => HasRoom e)
      (Playback.new frameDuration lossesToReset maxUsedSlots nextTimestamp) es :=
    .of_forall hroom
  refine Machine.Always.mono (fun x h p hp => (h p hp).playsInOrder)
    (Machine.always_of_allSteps (I := fun x => ∀ p, x = .ok p → PlaybackInvariant p) ?_
      (fun p hp => new_invariant hp) hsteps)
  intro x e h hroom p' hstep
  obtain ⟨p, hp, hcall⟩ := bind_eq_ok.mp hstep
  exact handle_invariant (h p hp) hroom hcall

/-- A packet is read at the present, and one with its timestamp again after a loss. -/
theorem playback_inOrder_recovered :
    Machine.Always playbackStep (fun x => ∀ p, x = .ok p → PlaysInOrder p)
      (Playback.new 60 20 20 0)
      [.handleInput [1] 600, .handleInput [7] 240, .handleInput [8] 240, .handleOutput 1024 0,
        .handleOutput 1024 0, .handleOutput 1024 (-2)] :=
  playback_inOrder 60 20 20 0 _ (by simp [HasRoom, JITTER_SLOT_SIZE])

/-- The timestamps played since the last resynchronization, the last one first. -/
def playedTimestamps (x : Except MemoryFault Playback) : List (BitVec 32) :=
  match x with
  | .ok p => p.played.map fun f => f.frame.timestamp
  | .error _ => []

/-- **A packet that came twice is played twice**: at the present, and again when the decoder looks
two steps back after a loss. With frames of no duration this is so at the present. -/
theorem not_playback_timestampsOnce :
    (¬ Machine.Always playbackStep (fun x => ∀ p, x = .ok p → PlaysTimestampsOnce p)
      (Playback.new 60 20 20 0)
      [.handleInput [1] 600, .handleInput [7] 240, .handleInput [7] 240, .handleOutput 1024 0,
        .handleOutput 1024 0, .handleOutput 1024 (-2)]) ∧
    ¬ Machine.Always playbackStep (fun x => ∀ p, x = .ok p → PlaysTimestampsOnce p)
      (Playback.new 0 20 20 0)
      [.handleInput [7] 240, .handleInput [7] 240, .handleOutput 1024 0, .handleOutput 1024 0] := by
  have htwice : ∀ frameDuration es timestamp,
      playedTimestamps (Machine.run playbackStep (Playback.new frameDuration 20 20 0) es) =
        [timestamp, timestamp] →
      ¬ Machine.Always playbackStep (fun x => ∀ p, x = .ok p → PlaysTimestampsOnce p)
        (Playback.new frameDuration 20 20 0) es := by
    intro frameDuration es timestamp hplayed h
    have hlast := h.last
    cases hrun : Machine.run playbackStep (Playback.new frameDuration 20 20 0) es with
    | error fault =>
        rw [hrun] at hplayed
        cases hplayed
    | ok p =>
        rw [hrun] at hplayed hlast
        have honce := (hlast p rfl).once
        rw [show p.played.map (fun f => f.frame.timestamp) = [timestamp, timestamp] from hplayed]
          at honce
        simp at honce
  exact ⟨htwice 60 _ 240 (by decide +kernel), htwice 0 _ 240 (by decide +kernel)⟩

end Telegraph.VoIP
