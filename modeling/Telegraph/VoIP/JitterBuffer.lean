import Mathlib.Data.Fintype.EquivFin
import Telegraph.Lib.Machine
import Telegraph.VoIP.BufferPool

/-!
# The Jitter Buffer of a Call

`JitterBuffer` holds received packets until they are played. A packet lies in one of 64 slots, its
bytes in a buffer of the pool. Before a packet is put in, the slots of old packets are freed; if no
slot is free then, or as many are taken as the configuration allows, the packet with the smallest
timestamp is thrown out. The search for it starts from `0xFFFFFFFF`, which is a timestamp that a
packet may have: if nothing but such packets is left, the search finds no slot and its result is the
place behind the last one.

Whether `Tick` resynchronizes and by how much it changes the minimal delay depends on floating-point
statistics; both are parameters of the event. Counters that only these statistics use are left out.

## Main results

* `releaseWhere_spec`: a loop that frees slots keeps the discipline.
* `exists_get`: while a slot is free the pool has a buffer.
* `putInternal_spec`: **when a packet can be put in.**
* `jitterBuffer_disciplined_iff`: **in which runs slots and pool stay in order.**
-/

namespace Telegraph.VoIP

/-! ### The jitter buffer -/

/-- `JITTER_SLOT_COUNT`. -/
abbrev JITTER_SLOT_COUNT : ℕ := 64

/-- `JITTER_SLOT_SIZE`. -/
def JITTER_SLOT_SIZE : ℕ := 1024

/-- A slot; no buffer is `NULL`. -/
structure JitterSlot where
  buffer : Option ℕ
  size : ℕ
  timestamp : BitVec 32

/-- `JitterBuffer`. The bytes of the buffers are in `memory`; `getFailed` is for the statements and
set once a packet got no buffer. -/
structure JitterBuffer where
  bufferPool : BufferPool
  slots : Fin JITTER_SLOT_COUNT → JitterSlot
  nextTimestamp : BitVec 64
  step : BitVec 32
  minDelay : BitVec 32
  maxUsedSlots : BitVec 32
  lastPutTimestamp : BitVec 32
  lossesToReset : BitVec 32
  lostCount : BitVec 32
  lostSinceReset : BitVec 32
  gotSinceReset : BitVec 32
  wasReset : Bool
  needBuffering : Bool
  memory : ℕ → List UInt8
  getFailed : Bool

/-- What `GetInternal` returns. -/
inductive JitterResult where
  | ok
  | missing
  | buffering
deriving DecidableEq

/-- The slot with an index. -/
def slotIndex (i : ℕ) : Except MemoryFault (Fin JITTER_SLOT_COUNT) :=
  if h : i < JITTER_SLOT_COUNT then .ok ⟨i, h⟩ else .error .outOfBounds

/-- The index at which a loop over the slots breaks, or ends. -/
def firstSlot (cond : Fin JITTER_SLOT_COUNT → Bool) : ℕ :=
  match (List.finRange JITTER_SLOT_COUNT).find? cond with
  | some i => i
  | none => JITTER_SLOT_COUNT

/-- `slots[i].buffer != NULL`. -/
def JitterSlot.taken (slot : JitterSlot) : Bool := slot.buffer.isSome

namespace JitterBuffer

/-- `bufferPool.Reuse(slots[i].buffer); slots[i].buffer = NULL;`. -/
def release (s : JitterBuffer) (i : Fin JITTER_SLOT_COUNT) : Except MemoryFault JitterBuffer := do
  let bufferPool ← s.bufferPool.reuse (s.slots i).buffer
  pure { s with
    bufferPool := bufferPool
    slots := Function.update s.slots i { s.slots i with buffer := none } }

/-- A loop that frees the slots that are taken and meet a condition. -/
def releaseWhere (cond : JitterSlot → Bool) (s : JitterBuffer) : Except MemoryFault JitterBuffer :=
  (List.finRange JITTER_SLOT_COUNT).foldlM
    (fun s i => if (s.slots i).taken && cond (s.slots i) then s.release i else pure s) s

/-- `Reset`. -/
def reset (s : JitterBuffer) : Except MemoryFault JitterBuffer := do
  let s ← releaseWhere (fun _ => true)
    { s with wasReset := true, needBuffering := true, lastPutTimestamp := 0 }
  pure { s with lostSinceReset := 0, gotSinceReset := 0 }

/-- `GetCurrentDelay`. -/
def currentDelay (s : JitterBuffer) : ℕ :=
  (List.finRange JITTER_SLOT_COUNT).countP fun i => (s.slots i).taken

/-- `Advance`. -/
def advance (s : JitterBuffer) : JitterBuffer :=
  { s with nextTimestamp := s.nextTimestamp + s.step.setWidth 64 }

/-! ### Getting a packet -/

/-- The reset of `GetInternal` after too many losses. -/
def resetAfterLosses (s : JitterBuffer) : Except MemoryFault JitterBuffer :=
  let delay := BitVec.ofNat 32 s.currentDelay
  if s.lossesToReset ≤ s.lostCount ∨
      s.minDelay * 25 < s.gotSinceReset ∧ (s.gotSinceReset.sdiv 2).slt s.lostSinceReset then
    reset { s with
      nextTimestamp :=
        if delay < s.minDelay then s.nextTimestamp - (s.minDelay - delay).setWidth 64
        else s.nextTimestamp
      lostCount := 0 }
  else pure s

/-- `if(offset==0) Advance();`. -/
def advanceIfNow (offset : BitVec 32) (s : JitterBuffer) : JitterBuffer :=
  if offset = 0 then s.advance else s

/-- The end of `GetInternal` where no packet was found. -/
def missed (offset : BitVec 32) (s : JitterBuffer) :
    Except MemoryFault (JitterResult × JitterBuffer) :=
  if s.needBuffering then pure (.buffering, s)
  else do
    let s ← resetAfterLosses { s with
      lostCount := s.lostCount + 1
      lostSinceReset := if offset = 0 then s.lostSinceReset + 1 else s.lostSinceReset }
    pure (.missing, s)

/-- Whether a slot has the packet that `GetInternal` looks for. -/
def wanted (s : JitterBuffer) (offset : BitVec 32) (i : Fin JITTER_SLOT_COUNT) : Bool :=
  (s.slots i).taken &&
    (s.slots i).timestamp.setWidth 64 = s.nextTimestamp + (offset * s.step).signExtend 64

/-- `GetInternal`, for a packet with room for `len` bytes: the result, the size left in the packet,
and the bytes copied. A packet that is too large is dropped. -/
def getInternal (len : ℕ) (offset : BitVec 32) (s : JitterBuffer) :
    Except MemoryFault ((JitterResult × ℕ × List UInt8) × JitterBuffer) :=
  if firstSlot (s.wanted offset) < JITTER_SLOT_COUNT then do
    let i ← slotIndex (firstSlot (s.wanted offset))
    let slot := s.slots i
    let bytes := ((slot.buffer.map s.memory).getD []).take slot.size
    let s ← s.release i
    pure (if len < slot.size then (.ok, len, []) else (.ok, slot.size, bytes),
      { s.advanceIfNow offset with lostCount := 0, needBuffering := false })
  else do
    let (result, s) ← (s.advanceIfNow offset).missed offset
    pure ((result, len, []), s)

/-! ### Putting a packet in -/

/-- The resynchronization of `PutInternal`. -/
def resync (timestamp : BitVec 32) (s : JitterBuffer) : JitterBuffer :=
  if s.wasReset then
    { s with
      wasReset := false
      nextTimestamp := timestamp.setWidth 64 - (s.step * s.minDelay).setWidth 64 }
  else s

/-- `timestamp < nextTimestamp - 1`. -/
def isOld (s : JitterBuffer) (timestamp : BitVec 32) : Bool :=
  (timestamp.setWidth 64).slt (s.nextTimestamp - 1)

/-- The second branch on the timestamp: not below `nextTimestamp` and yet below the number before
it, which is so only where this wraps. -/
def tooLate (s : JitterBuffer) (timestamp : BitVec 32) : Bool :=
  !(timestamp.setWidth 64).slt s.nextTimestamp && s.isOld timestamp

/-- A round of the loop that looks for the packet to throw out, with the index and the timestamp
so far. -/
def older (s : JitterBuffer) (best : ℕ × BitVec 32) (i : Fin JITTER_SLOT_COUNT) : ℕ × BitVec 32 :=
  if (s.slots i).taken && (s.slots i).timestamp < best.2 then (i.val, (s.slots i).timestamp)
  else best

/-- The loop: `toRemove` and `bestTimestamp`. -/
def oldest (s : JitterBuffer) : ℕ × BitVec 32 :=
  (List.finRange JITTER_SLOT_COUNT).foldl s.older (JITTER_SLOT_COUNT, 0xFFFFFFFF)

/-- No slot is free, or too many are taken. -/
def crowded (s : JitterBuffer) : Bool :=
  firstSlot (fun i => !(s.slots i).taken) = JITTER_SLOT_COUNT ||
    s.maxUsedSlots ≤ BitVec.ofNat 32 s.currentDelay

/-- The slot for a new packet, where one has to be thrown out that of the oldest. -/
def makeRoom (s : JitterBuffer) : Except MemoryFault (Fin JITTER_SLOT_COUNT × JitterBuffer) :=
  if s.crowded then do
    let toRemove ← slotIndex s.oldest.1
    let s ← s.advance.release toRemove
    pure (toRemove, s)
  else do
    let i ← slotIndex (firstSlot fun i => !(s.slots i).taken)
    pure (i, s)

/-- The end of `PutInternal`: the packet is stored in a slot. -/
def store (i : Fin JITTER_SLOT_COUNT) (data : List UInt8) (timestamp : BitVec 32)
    (s : JitterBuffer) : JitterBuffer :=
  let buffer := s.bufferPool.get.1
  { s with
    bufferPool := s.bufferPool.get.2
    slots := Function.update s.slots i ⟨buffer, data.length, timestamp⟩
    memory := buffer.elim s.memory fun b => Function.update s.memory b data
    getFailed := s.getFailed || buffer.isNone }

/-- The beginning of `PutInternal`, which frees the slots of old packets. -/
def dropOld (timestamp : BitVec 32) (s : JitterBuffer) : Except MemoryFault JitterBuffer :=
  let s := resync timestamp { s with gotSinceReset := s.gotSinceReset + 1 }
  releaseWhere (fun slot => s.isOld slot.timestamp) s

/-- `if(pkt->timestamp>lastPutTimestamp) lastPutTimestamp=pkt->timestamp;`. -/
def noteTimestamp (timestamp : BitVec 32) (s : JitterBuffer) : JitterBuffer :=
  { s with
    lastPutTimestamp :=
      if timestamp > s.lastPutTimestamp then timestamp else s.lastPutTimestamp }

/-- `PutInternal`. -/
def putInternal (data : List UInt8) (timestamp : BitVec 32) (s : JitterBuffer) :
    Except MemoryFault JitterBuffer :=
  if data.length > JITTER_SLOT_SIZE then pure s
  else do
    let s ← s.dropOld timestamp
    if s.tooLate timestamp then pure s
    else do
      let (i, s) ← (s.noteTimestamp timestamp).makeRoom
      pure (s.store i data timestamp)

/-! ### Runs -/

/-- The constructor, where `nextTimestamp` is what the memory held before. -/
def new (step lossesToReset maxUsedSlots : BitVec 32) (nextTimestamp : BitVec 64) :
    Except MemoryFault JitterBuffer :=
  reset {
    bufferPool := BufferPool.new JITTER_SLOT_COUNT le_rfl
    slots := fun _ => ⟨none, 0, 0⟩
    nextTimestamp := nextTimestamp
    step := step
    minDelay := 6
    maxUsedSlots := maxUsedSlots
    lastPutTimestamp := 0
    lossesToReset := lossesToReset
    lostCount := 0
    lostSinceReset := 0
    gotSinceReset := 0
    wasReset := true
    needBuffering := true
    memory := fun _ => []
    getFailed := false }

end JitterBuffer

/-- A call of the jitter buffer. -/
inductive JitterEvent where
  | handleInput (data : List UInt8) (timestamp : BitVec 32)
  | handleOutput (len : ℕ) (offsetInSteps : BitVec 32)
  | tick (resync : Bool) (diff : BitVec 32)
  | setMinPacketCount (count : BitVec 32)
  | reset

/-- What a call does. -/
def JitterBuffer.handle (s : JitterBuffer) : JitterEvent → Except MemoryFault JitterBuffer
  | .handleInput data timestamp => s.putInternal data timestamp
  | .handleOutput len offsetInSteps => Prod.snd <$> s.getInternal len offsetInSteps
  | .tick resync diff =>
      pure { s with wasReset := s.wasReset || resync, minDelay := s.minDelay + diff }
  | .setMinPacketCount count =>
      if s.minDelay = count then pure s else reset { s with minDelay := count }
  | .reset => s.reset

/-- One call after the others, of which one may have been the last. -/
def jitterStep (s : Except MemoryFault JitterBuffer) (e : JitterEvent) :
    Except MemoryFault JitterBuffer := do
  let s ← s
  s.handle e

/-! ### The discipline -/

/-- What is to hold of slots and pool: the buffers of different slots are different buffers of the
pool, just these are marked as used, and every packet got one. -/
structure MemoryDiscipline (s : JitterBuffer) : Prop where
  count : s.bufferPool.bufferCount = JITTER_SLOT_COUNT
  inPool : ∀ i b, (s.slots i).buffer = some b → b < JITTER_SLOT_COUNT
  distinct : ∀ i j b, (s.slots i).buffer = some b → (s.slots j).buffer = some b → i = j
  used : ∀ b < JITTER_SLOT_COUNT,
    s.bufferPool.isUsed b = true ↔ ∃ i, (s.slots i).buffer = some b
  got : s.getFailed = false

/-- The discipline is about the pool, the slots and what the pool gave. -/
theorem MemoryDiscipline.of_eq {s s' : JitterBuffer} (h : MemoryDiscipline s)
    (hpool : s'.bufferPool = s.bufferPool) (hslots : s'.slots = s.slots)
    (hgot : s'.getFailed = s.getFailed) : MemoryDiscipline s' := by
  refine ⟨?_, ?_, ?_, ?_, ?_⟩
  · rw [hpool]
    exact h.count
  · rw [hslots]
    exact h.inPool
  · rw [hslots]
    exact h.distinct
  · rw [hpool, hslots]
    exact h.used
  · rw [hgot]
    exact h.got

/-- A call has gone through and kept the discipline. -/
def Disciplined (x : Except MemoryFault JitterBuffer) : Prop :=
  ∃ s, x = .ok s ∧ MemoryDiscipline s

/-- A call that does nothing more has kept the discipline. -/
theorem MemoryDiscipline.pure {s : JitterBuffer} (h : MemoryDiscipline s) :
    Disciplined (Pure.pure s) := ⟨s, rfl, h⟩

/-- One part of a call after the other. -/
theorem Disciplined.bind {x : Except MemoryFault JitterBuffer}
    {f : JitterBuffer → Except MemoryFault JitterBuffer} (hx : Disciplined x)
    (hf : ∀ s, MemoryDiscipline s → Disciplined (f s)) : Disciplined (x >>= f) := by
  obtain ⟨s, rfl, hs⟩ := hx
  exact hf s hs

section Discipline

variable {s : JitterBuffer} {i j : Fin JITTER_SLOT_COUNT}

/-- Freeing a slot takes away its buffer only. -/
theorem buffer_update_none {slots : Fin JITTER_SLOT_COUNT → JitterSlot} {b : ℕ} :
    (Function.update slots i { slots i with buffer := none } j).buffer = some b ↔
      j ≠ i ∧ (slots j).buffer = some b := by
  by_cases hji : j = i
  · subst hji
    simp
  · rw [Function.update_of_ne hji]
    exact ⟨fun h => ⟨hji, h⟩, And.right⟩

/-- **A slot that is taken is freed**, and its buffer goes back to the pool. -/
theorem release_spec (h : MemoryDiscipline s) (hi : (s.slots i).taken = true) :
    ∃ pool, s.release i = .ok { s with
        bufferPool := pool
        slots := Function.update s.slots i { s.slots i with buffer := none } } ∧
      MemoryDiscipline { s with
        bufferPool := pool
        slots := Function.update s.slots i { s.slots i with buffer := none } } := by
  obtain ⟨b, hb⟩ := Option.isSome_iff_exists.mp hi
  have hlt : b < s.bufferPool.bufferCount := by
    rw [h.count]
    exact h.inPool i b hb
  obtain ⟨pool, hreuse, hcount, hused⟩ := BufferPool.reuse_of_lt hlt
  refine ⟨pool, ?_, ⟨hcount.trans h.count, fun j c hj => ?_, fun j k c hj hk => ?_,
    fun c hc => ?_, h.got⟩⟩
  · rw [JitterBuffer.release, hb, hreuse]
    rfl
  · exact h.inPool j c (buffer_update_none.mp hj).2
  · exact h.distinct j k c (buffer_update_none.mp hj).2 (buffer_update_none.mp hk).2
  · rw [hused c (by rw [h.count]; exact hc), h.used c hc]
    constructor
    · rintro ⟨⟨j, hj⟩, hcb⟩
      have hji : j ≠ i := by
        rintro rfl
        exact hcb (Option.some.inj (hj.symm.trans hb))
      exact ⟨j, buffer_update_none.mpr ⟨hji, hj⟩⟩
    · rintro ⟨j, hj⟩
      obtain ⟨hji, hj⟩ := buffer_update_none.mp hj
      refine ⟨⟨j, hj⟩, ?_⟩
      rintro rfl
      exact hji (h.distinct j i c hj hb)

/-- A slot after the loop that frees those with a condition. -/
def JitterSlot.freed (cond : JitterSlot → Bool) (slot : JitterSlot) : JitterSlot :=
  if slot.taken && cond slot then { slot with buffer := none } else slot

/-- A slot that is free stays as it is. -/
theorem JitterSlot.freed_of_not_taken {cond : JitterSlot → Bool} {slot : JitterSlot}
    (h : slot.taken = false) : slot.freed cond = slot := by
  rw [freed, h]
  rfl

/-- The loop over some of the slots. -/
theorem foldlM_release (cond : JitterSlot → Bool) (l : List (Fin JITTER_SLOT_COUNT))
    (h : MemoryDiscipline s) :
    ∃ pool, l.foldlM (fun s i => if (s.slots i).taken && cond (s.slots i) then s.release i
        else pure s) s = Except.ok { s with
          bufferPool := pool
          slots := fun i => if i ∈ l then (s.slots i).freed cond else s.slots i } ∧
      MemoryDiscipline { s with
        bufferPool := pool
        slots := fun i => if i ∈ l then (s.slots i).freed cond else s.slots i } := by
  induction l generalizing s with
  | nil =>
      refine ⟨s.bufferPool, ?_, h.of_eq rfl ?_ rfl⟩
      · simp only [List.not_mem_nil, if_false]
        rfl
      · simp only [List.not_mem_nil, if_false]
  | cons i l ih =>
      rw [List.foldlM_cons]
      cases hfree : (s.slots i).taken && cond (s.slots i) with
      | false =>
          obtain ⟨pool, hloop, hdiscipline⟩ := ih h
          have hslots : (fun j => if j ∈ i :: l then (s.slots j).freed cond else s.slots j) =
              fun j => if j ∈ l then (s.slots j).freed cond else s.slots j := by
            funext j
            by_cases hji : j = i
            · subst hji
              have hsame : (s.slots j).freed cond = s.slots j := by
                rw [JitterSlot.freed, hfree]
                rfl
              rw [if_pos List.mem_cons_self, hsame, ite_self]
            · simp only [List.mem_cons, hji, false_or]
          rw [hslots]
          exact ⟨pool, hloop, hdiscipline⟩
      | true =>
          have htaken : (s.slots i).taken = true := (Bool.and_eq_true_iff.mp hfree).1
          obtain ⟨pool, hrelease, hdiscipline⟩ := release_spec h htaken
          obtain ⟨pool', hloop, hdiscipline'⟩ := ih hdiscipline
          have hslots : (fun j => if j ∈ i :: l then (s.slots j).freed cond else s.slots j) =
              fun j => if j ∈ l then
                (Function.update s.slots i { s.slots i with buffer := none } j).freed cond
                else Function.update s.slots i { s.slots i with buffer := none } j := by
            funext j
            by_cases hji : j = i
            · subst hji
              have hnow : (s.slots j).freed cond = { s.slots j with buffer := none } := by
                rw [JitterSlot.freed, hfree]
                rfl
              rw [Function.update_self, if_pos List.mem_cons_self, hnow,
                JitterSlot.freed_of_not_taken rfl, ite_self]
            · simp only [List.mem_cons, hji, false_or, Function.update_of_ne hji]
          rw [if_pos rfl, hrelease, hslots]
          exact ⟨pool', hloop, hdiscipline'⟩

/-- **A loop that frees slots goes through**, and keeps the discipline. -/
theorem releaseWhere_spec (cond : JitterSlot → Bool) (h : MemoryDiscipline s) :
    ∃ pool, s.releaseWhere cond = .ok { s with
        bufferPool := pool
        slots := fun i => (s.slots i).freed cond } ∧
      MemoryDiscipline { s with
        bufferPool := pool
        slots := fun i => (s.slots i).freed cond } := by
  have hloop := foldlM_release cond (List.finRange JITTER_SLOT_COUNT) h
  simp only [List.mem_finRange, if_true] at hloop
  exact hloop

/-- **While a slot is free the pool has a buffer**: otherwise every buffer would be in a slot of its
own, and every slot taken. -/
theorem exists_get (h : MemoryDiscipline s) (hi : (s.slots i).taken = false) :
    ∃ b, s.bufferPool.get.1 = some b := by
  rw [← Option.ne_none_iff_exists']
  intro hnone
  have hall := BufferPool.get_eq_none hnone
  rw [h.count] at hall
  choose slotOf hslotOf using fun b : Fin JITTER_SLOT_COUNT =>
    (h.used b b.isLt).mp (hall b b.isLt)
  have hinjective : Function.Injective slotOf := by
    intro b c hbc
    have hb := hslotOf b
    rw [hbc, hslotOf c] at hb
    exact (Fin.ext (Option.some.inj hb)).symm
  obtain ⟨b, hb⟩ := Finite.injective_iff_surjective.mp hinjective i
  have hbuffer := hslotOf b
  rw [hb] at hbuffer
  rw [JitterSlot.taken, hbuffer] at hi
  cases hi

/-- **A packet that is stored in a free slot gets a buffer that no other slot has.** -/
theorem store_spec (h : MemoryDiscipline s) (hi : (s.slots i).taken = false) (data : List UInt8)
    (timestamp : BitVec 32) : MemoryDiscipline (s.store i data timestamp) := by
  obtain ⟨b, hb⟩ := exists_get h hi
  have hget : s.bufferPool.get = (some b, s.bufferPool.get.2) := Prod.ext hb rfl
  obtain ⟨hlt, hfree, hcount, hused⟩ := BufferPool.get_eq_some hget
  rw [h.count] at hlt hused
  -- no slot has the buffer yet
  have hnew : ∀ j, (s.slots j).buffer ≠ some b := by
    intro j hj
    rw [(h.used b hlt).mpr ⟨j, hj⟩] at hfree
    cases hfree
  have hbuffer : ∀ j c, ((s.store i data timestamp).slots j).buffer = some c ↔
      j = i ∧ c = b ∨ j ≠ i ∧ (s.slots j).buffer = some c := by
    intro j c
    rw [JitterBuffer.store, hb]
    dsimp only
    by_cases hji : j = i
    · subst hji
      simp [eq_comm]
    · simp [hji]
  refine ⟨hcount.trans h.count, fun j c hj => ?_, fun j k c hj hk => ?_, fun c hc => ?_, ?_⟩
  · rcases (hbuffer j c).mp hj with ⟨-, rfl⟩ | ⟨-, hj⟩
    · exact hlt
    · exact h.inPool j c hj
  · rcases (hbuffer j c).mp hj with ⟨rfl, rfl⟩ | ⟨-, hj⟩
    · rcases (hbuffer k c).mp hk with ⟨rfl, -⟩ | ⟨-, hk⟩
      · rfl
      · exact absurd hk (hnew k)
    · rcases (hbuffer k c).mp hk with ⟨-, rfl⟩ | ⟨-, hk⟩
      · exact absurd hj (hnew j)
      · exact h.distinct j k c hj hk
  · rw [show (s.store i data timestamp).bufferPool = s.bufferPool.get.2 from rfl, hused c hc,
      h.used c hc]
    constructor
    · rintro (⟨j, hj⟩ | rfl)
      · have hji : j ≠ i := by
          rintro rfl
          rw [JitterSlot.taken, hj] at hi
          cases hi
        exact ⟨j, (hbuffer j c).mpr (.inr ⟨hji, hj⟩)⟩
      · exact ⟨i, (hbuffer i c).mpr (.inl ⟨rfl, rfl⟩)⟩
    · rintro ⟨j, hj⟩
      rcases (hbuffer j c).mp hj with ⟨-, rfl⟩ | ⟨-, hj⟩
      · exact .inr rfl
      · exact .inl ⟨j, hj⟩
  · rw [JitterBuffer.store, hb, h.got]
    rfl

/-! ### Looking for a slot -/

/-- A loop over the slots ends at the last one only if none meets the condition. -/
theorem firstSlot_eq (cond : Fin JITTER_SLOT_COUNT → Bool) :
    (∃ i, firstSlot cond = i.val ∧ cond i = true) ∨
      firstSlot cond = JITTER_SLOT_COUNT ∧ ∀ i, cond i = false := by
  rw [firstSlot]
  split
  · next i hfind => exact .inl ⟨i, rfl, List.find?_some hfind⟩
  · next hfind =>
      refine .inr ⟨rfl, fun i => ?_⟩
      exact Bool.eq_false_iff.mpr (List.find?_eq_none.mp hfind i (List.mem_finRange i))

/-- The index of a slot is a legal one. -/
@[simp] theorem slotIndex_val (i : Fin JITTER_SLOT_COUNT) : slotIndex i.val = .ok i :=
  dif_pos i.isLt

/-- Once a packet is found, the search has one. -/
theorem foldl_older_of_found (l : List (Fin JITTER_SLOT_COUNT)) {best : ℕ × BitVec 32}
    (hbest : ∃ i : Fin JITTER_SLOT_COUNT, best.1 = i.val ∧ (s.slots i).taken = true) :
    ∃ i : Fin JITTER_SLOT_COUNT, (l.foldl s.older best).1 = i.val ∧ (s.slots i).taken = true := by
  induction l generalizing best with
  | nil => exact hbest
  | cons i l ih =>
      rw [List.foldl_cons]
      refine ih ?_
      rw [JitterBuffer.older]
      split
      · next hcond => exact ⟨i, rfl, (Bool.and_eq_true_iff.mp hcond).1⟩
      · exact hbest

/-- The search starts with the largest timestamp, so it passes over just these packets. -/
theorem older_start : s.older (JITTER_SLOT_COUNT, 0xFFFFFFFF) i =
    if (s.slots i).taken = true ∧ (s.slots i).timestamp ≠ 0xFFFFFFFF then
      (i.val, (s.slots i).timestamp)
    else (JITTER_SLOT_COUNT, 0xFFFFFFFF) := by
  have hlt : (s.slots i).timestamp < 0xFFFFFFFF ↔ (s.slots i).timestamp ≠ 0xFFFFFFFF := by
    rw [BitVec.lt_def, ne_eq, ← BitVec.toNat_inj]
    have hbound := (s.slots i).timestamp.isLt
    have hlargest : (0xFFFFFFFF : BitVec 32).toNat = 4294967295 := rfl
    omega
  rw [JitterBuffer.older]
  simp only [hlt, Bool.and_eq_true, decide_eq_true_eq]

/-- **The search finds a packet** if one has not the largest timestamp. -/
theorem oldest_of_exists
    (h : ∃ i, (s.slots i).taken = true ∧ (s.slots i).timestamp ≠ 0xFFFFFFFF) :
    ∃ i : Fin JITTER_SLOT_COUNT, s.oldest.1 = i.val ∧ (s.slots i).taken = true := by
  obtain ⟨i, hi⟩ := h
  rw [JitterBuffer.oldest]
  have hmem := List.mem_finRange i
  generalize List.finRange JITTER_SLOT_COUNT = l at hmem
  induction l with
  | nil => cases hmem
  | cons j l ih =>
      rw [List.foldl_cons, older_start]
      by_cases hj : (s.slots j).taken = true ∧ (s.slots j).timestamp ≠ 0xFFFFFFFF
      · rw [if_pos hj]
        exact foldl_older_of_found l ⟨j, rfl, hj.1⟩
      · rw [if_neg hj]
        refine ih ((List.mem_cons.mp hmem).resolve_left ?_)
        rintro rfl
        exact hj hi

/-- **The search finds none** if all have the largest timestamp. -/
theorem oldest_of_forall
    (h : ∀ i, (s.slots i).taken = true → (s.slots i).timestamp = 0xFFFFFFFF) :
    s.oldest.1 = JITTER_SLOT_COUNT := by
  rw [JitterBuffer.oldest]
  generalize List.finRange JITTER_SLOT_COUNT = l
  induction l with
  | nil => rfl
  | cons j l ih =>
      rw [List.foldl_cons, older_start, if_neg (fun hj => hj.2 (h j hj.1))]
      exact ih

/-- **There is room, or a packet is thrown out to make some.** -/
theorem makeRoom_spec (h : MemoryDiscipline s) (hcrowded : s.crowded = true →
      ∃ i, (s.slots i).taken = true ∧ (s.slots i).timestamp ≠ 0xFFFFFFFF) :
    ∃ i s', s.makeRoom = .ok (i, s') ∧ MemoryDiscipline s' ∧ (s'.slots i).taken = false := by
  rw [JitterBuffer.makeRoom]
  split
  · next hroom =>
      obtain ⟨i, hi, htaken⟩ := oldest_of_exists (hcrowded hroom)
      have hadvance : MemoryDiscipline s.advance := h.of_eq rfl rfl rfl
      obtain ⟨pool, hrelease, hdiscipline⟩ := release_spec hadvance (i := i) htaken
      refine ⟨i, _, ?_, hdiscipline, ?_⟩
      · rw [hi, slotIndex_val]
        change (do let s ← s.advance.release i; pure (i, s)) = _
        rw [hrelease]
        rfl
      · simp [JitterSlot.taken]
  · next hroom =>
      rw [JitterBuffer.crowded, Bool.or_eq_true, not_or] at hroom
      rcases firstSlot_eq fun i => !(s.slots i).taken with ⟨i, hi, hfree⟩ | ⟨hend, -⟩
      · refine ⟨i, s, ?_, h, by simpa using hfree⟩
        rw [hi, slotIndex_val]
        rfl
      · exact absurd (decide_eq_true hend) hroom.1

/-- **If only packets with the largest timestamp are left, none is found**, and the place behind
the last slot is used. -/
theorem makeRoom_of_forall (hcrowded : s.crowded = true)
    (h : ∀ i, (s.slots i).taken = true → (s.slots i).timestamp = 0xFFFFFFFF) :
    s.makeRoom = .error .outOfBounds := by
  rw [JitterBuffer.makeRoom, if_pos hcrowded, oldest_of_forall h]
  rfl

/-! ### One call -/

/-- Resynchronizing touches the number of the next packet only. -/
@[simp] theorem resync_slots (timestamp : BitVec 32) :
    (s.resync timestamp).slots = s.slots := by
  rw [JitterBuffer.resync]
  split <;> rfl

@[simp] theorem resync_bufferPool (timestamp : BitVec 32) :
    (s.resync timestamp).bufferPool = s.bufferPool := by
  rw [JitterBuffer.resync]
  split <;> rfl

@[simp] theorem resync_getFailed (timestamp : BitVec 32) :
    (s.resync timestamp).getFailed = s.getFailed := by
  rw [JitterBuffer.resync]
  split <;> rfl

@[simp] theorem resync_maxUsedSlots (timestamp : BitVec 32) :
    (s.resync timestamp).maxUsedSlots = s.maxUsedSlots := by
  rw [JitterBuffer.resync]
  split <;> rfl

/-- A slot that the loop frees is no longer taken. -/
@[simp] theorem JitterSlot.freed_taken (cond : JitterSlot → Bool) (slot : JitterSlot) :
    (slot.freed cond).taken = (slot.taken && !cond slot) := by
  rw [freed]
  split
  · next h =>
      rw [(Bool.and_eq_true_iff.mp h).2]
      simp [taken]
  · next h =>
      cases htaken : slot.taken <;> simp_all

@[simp] theorem JitterSlot.freed_timestamp (cond : JitterSlot → Bool) (slot : JitterSlot) :
    (slot.freed cond).timestamp = slot.timestamp := by
  rw [freed]
  split <;> rfl

/-- `Reset` goes through. -/
theorem reset_spec (h : MemoryDiscipline s) : Disciplined s.reset := by
  have hstart : MemoryDiscipline
      { s with wasReset := true, needBuffering := true, lastPutTimestamp := 0 } :=
    h.of_eq rfl rfl rfl
  obtain ⟨pool, hloop, hdiscipline⟩ := releaseWhere_spec (fun _ => true) hstart
  refine Disciplined.bind ⟨_, hloop, hdiscipline⟩ fun s hs => ?_
  exact MemoryDiscipline.pure (hs.of_eq rfl rfl rfl)

/-- The reset after too many losses goes through. -/
theorem resetAfterLosses_spec (h : MemoryDiscipline s) : Disciplined s.resetAfterLosses := by
  rw [JitterBuffer.resetAfterLosses]
  split
  · exact reset_spec (h.of_eq rfl rfl rfl)
  · exact h.pure

/-- The number of the next packet is not part of the discipline. -/
theorem advanceIfNow_spec (h : MemoryDiscipline s) (offset : BitVec 32) :
    MemoryDiscipline (s.advanceIfNow offset) := by
  rw [JitterBuffer.advanceIfNow]
  split
  · exact h.of_eq rfl rfl rfl
  · exact h

/-- Where no packet was found nothing happens to the slots, or `Reset` frees them all. -/
theorem missed_spec (h : MemoryDiscipline s) (offset : BitVec 32) :
    ∃ result s', s.missed offset = .ok (result, s') ∧ MemoryDiscipline s' := by
  rw [JitterBuffer.missed]
  split
  · exact ⟨_, _, rfl, h⟩
  · have hcounted : MemoryDiscipline { s with
        lostCount := s.lostCount + 1
        lostSinceReset := if offset = 0 then s.lostSinceReset + 1 else s.lostSinceReset } :=
      h.of_eq rfl rfl rfl
    obtain ⟨s', hreset, hs'⟩ := resetAfterLosses_spec hcounted
    refine ⟨.missing, s', ?_, hs'⟩
    rw [hreset]
    rfl

/-- **A packet is taken from the slot in which it was found.** -/
theorem getInternal_spec (h : MemoryDiscipline s) (len : ℕ) (offset : BitVec 32) :
    ∃ result s', s.getInternal len offset = .ok (result, s') ∧ MemoryDiscipline s' := by
  rw [JitterBuffer.getInternal]
  rcases firstSlot_eq (s.wanted offset) with ⟨i, hi, hwanted⟩ | ⟨hend, -⟩
  · have htaken : (s.slots i).taken = true := (Bool.and_eq_true_iff.mp hwanted).1
    obtain ⟨pool, hrelease, hdiscipline⟩ := release_spec h htaken
    rw [hi, if_pos i.isLt, slotIndex_val]
    change ∃ result s', (do
      let s' ← s.release i
      pure (_, _)) = Except.ok (result, s') ∧ _
    rw [hrelease]
    exact ⟨_, _, rfl, (advanceIfNow_spec hdiscipline offset).of_eq rfl rfl rfl⟩
  · obtain ⟨result, s', hmissed, hs'⟩ := missed_spec (advanceIfNow_spec h offset) offset
    rw [hend, if_neg (lt_irrefl _), hmissed]
    exact ⟨_, _, rfl, hs'⟩

/-! ### Putting a packet in -/

/-- Whether a packet is still held once a put has freed the slots of the old ones. -/
def stillHeld (s : JitterBuffer) (timestamp : BitVec 32) (i : Fin JITTER_SLOT_COUNT) : Bool :=
  (s.slots i).taken && !(s.resync timestamp).isOld (s.slots i).timestamp

/-- **The condition that goes wrong**: a packet is to be put in, as many are held as there may be,
and all of these have the timestamp from which the search starts. -/
def NoneToRemove (s : JitterBuffer) (data : List UInt8) (timestamp : BitVec 32) : Prop :=
  data.length ≤ JITTER_SLOT_SIZE ∧ (s.resync timestamp).tooLate timestamp = false ∧
    ((∀ i, stillHeld s timestamp i = true) ∨
      s.maxUsedSlots ≤
        BitVec.ofNat 32 ((List.finRange JITTER_SLOT_COUNT).countP (stillHeld s timestamp))) ∧
    ∀ i, stillHeld s timestamp i = true → (s.slots i).timestamp = 0xFFFFFFFF

/-- The number the next packet is to have does not depend on the count of packets. -/
theorem resync_counted (timestamp : BitVec 32) :
    (JitterBuffer.resync timestamp
      { s with gotSinceReset := s.gotSinceReset + 1 }).nextTimestamp =
      (s.resync timestamp).nextTimestamp := by
  rw [JitterBuffer.resync, JitterBuffer.resync]
  split <;> rfl

/-- When a slot has to be made free. -/
theorem crowded_iff : s.crowded = true ↔ (∀ i, (s.slots i).taken = true) ∨
    s.maxUsedSlots ≤ BitVec.ofNat 32 s.currentDelay := by
  rw [JitterBuffer.crowded, Bool.or_eq_true, decide_eq_true_iff, decide_eq_true_iff]
  refine or_congr_left ?_
  rcases firstSlot_eq fun i => !(s.slots i).taken with ⟨i, hi, hfree⟩ | ⟨hend, hall⟩
  · rw [hi]
    refine iff_of_false i.isLt.ne fun hall => ?_
    rw [hall i] at hfree
    cases hfree
  · exact iff_of_true hend fun i => by simpa using hall i

/-- **What a put finds** after it freed the slots of old packets. -/
theorem dropOld_spec (h : MemoryDiscipline s) (data : List UInt8) (timestamp : BitVec 32) :
    ∃ s', s.dropOld timestamp = .ok s' ∧ MemoryDiscipline s' ∧
      (NoneToRemove s data timestamp ↔ data.length ≤ JITTER_SLOT_SIZE ∧
        s'.tooLate timestamp = false ∧ s'.crowded = true ∧
        ∀ i, (s'.slots i).taken = true → (s'.slots i).timestamp = 0xFFFFFFFF) := by
  have hstart : MemoryDiscipline
      (JitterBuffer.resync timestamp { s with gotSinceReset := s.gotSinceReset + 1 }) :=
    h.of_eq (resync_bufferPool timestamp) (resync_slots timestamp) (resync_getFailed timestamp)
  obtain ⟨pool, hloop, hdiscipline⟩ := releaseWhere_spec (fun slot => (JitterBuffer.resync timestamp
    { s with gotSinceReset := s.gotSinceReset + 1 }).isOld slot.timestamp) hstart
  refine ⟨_, hloop, hdiscipline, ?_⟩
  rw [NoneToRemove, crowded_iff, JitterBuffer.currentDelay]
  simp only [JitterSlot.freed_taken, JitterSlot.freed_timestamp, JitterBuffer.tooLate,
    JitterBuffer.isOld, resync_slots, resync_maxUsedSlots, resync_counted]
  rfl

/-- What a put does with a packet that is neither too large nor too late. -/
theorem putInternal_eq {s' : JitterBuffer} {data : List UInt8} {timestamp : BitVec 32}
    (hsize : data.length ≤ JITTER_SLOT_SIZE) (hdrop : s.dropOld timestamp = .ok s')
    (hlate : s'.tooLate timestamp = false) :
    s.putInternal data timestamp = (fun room => room.2.store room.1 data timestamp) <$>
      (s'.noteTimestamp timestamp).makeRoom := by
  rw [JitterBuffer.putInternal, if_neg hsize.not_gt, hdrop]
  change (if s'.tooLate timestamp = true then _ else _) = _
  rw [hlate]
  rfl

/-- **A put goes through** unless there is none to remove. -/
theorem putInternal_spec (h : MemoryDiscipline s) {data : List UInt8} {timestamp : BitVec 32}
    (hsafe : ¬ NoneToRemove s data timestamp) : Disciplined (s.putInternal data timestamp) := by
  by_cases hsize : data.length ≤ JITTER_SLOT_SIZE
  · obtain ⟨s', hdrop, hs', hnone⟩ := dropOld_spec h data timestamp
    cases hlate : s'.tooLate timestamp with
    | true =>
        refine ⟨s', ?_, hs'⟩
        rw [JitterBuffer.putInternal, if_neg hsize.not_gt, hdrop]
        exact if_pos hlate
    | false =>
        have hroom : s'.crowded = true →
            ∃ i, (s'.slots i).taken = true ∧ (s'.slots i).timestamp ≠ 0xFFFFFFFF := by
          intro hcrowded
          by_contra hall
          push Not at hall
          exact hsafe (hnone.mpr ⟨hsize, hlate, hcrowded, hall⟩)
        have hnoted : MemoryDiscipline (s'.noteTimestamp timestamp) := hs'.of_eq rfl rfl rfl
        obtain ⟨i, s'', hmake, hs'', hfree⟩ := makeRoom_spec hnoted hroom
        refine ⟨s''.store i data timestamp, ?_, store_spec hs'' hfree data timestamp⟩
        rw [putInternal_eq hsize hdrop hlate, hmake]
        rfl
  · rw [JitterBuffer.putInternal, if_pos (not_le.mp hsize)]
    exact h.pure

/-- **With none to remove a put goes wrong.** -/
theorem putInternal_of_noneToRemove (h : MemoryDiscipline s) {data : List UInt8}
    {timestamp : BitVec 32} (hlost : NoneToRemove s data timestamp) :
    s.putInternal data timestamp = .error .outOfBounds := by
  obtain ⟨s', hdrop, -, hnone⟩ := dropOld_spec h data timestamp
  obtain ⟨hsize, hlate, hcrowded, hall⟩ := hnone.mp hlost
  have hmake := makeRoom_of_forall (s := s'.noteTimestamp timestamp) hcrowded hall
  rw [putInternal_eq hsize hdrop hlate, hmake]
  rfl

end Discipline

/-! ### Runs -/

/-- The calls that need no room, or find it. -/
def FindsRoom (s : JitterBuffer) : JitterEvent → Prop
  | .handleInput data timestamp => ¬ NoneToRemove s data timestamp
  | _ => True

/-- **A call keeps the discipline if and only if** it is no put that finds none to remove. -/
theorem handle_disciplined_iff {s : JitterBuffer} (h : MemoryDiscipline s) (e : JitterEvent) :
    Disciplined (s.handle e) ↔ FindsRoom s e := by
  cases e with
  | handleInput data timestamp =>
      refine ⟨?_, putInternal_spec h⟩
      rintro ⟨s', hput, -⟩ hlost
      rw [JitterBuffer.handle, putInternal_of_noneToRemove h hlost] at hput
      cases hput
  | handleOutput len offsetInSteps =>
      refine iff_of_true ?_ trivial
      obtain ⟨result, s', hget, hs'⟩ := getInternal_spec h len offsetInSteps
      rw [JitterBuffer.handle, hget]
      exact hs'.pure
  | tick resync diff => exact iff_of_true (MemoryDiscipline.pure (h.of_eq rfl rfl rfl)) trivial
  | setMinPacketCount count =>
      refine iff_of_true ?_ trivial
      rw [JitterBuffer.handle]
      split
      · exact h.pure
      · exact reset_spec (h.of_eq rfl rfl rfl)
  | reset => exact iff_of_true (reset_spec h) trivial

/-- With a new pool and no packet all is in order. -/
theorem MemoryDiscipline.of_free {s : JitterBuffer}
    (hpool : s.bufferPool = BufferPool.new JITTER_SLOT_COUNT le_rfl)
    (hfree : ∀ i, (s.slots i).buffer = none) (hgot : s.getFailed = false) :
    MemoryDiscipline s := by
  refine ⟨by rw [hpool]; rfl, fun i b h => ?_, fun i j b h => ?_, fun b _ => ?_, hgot⟩
  · rw [hfree] at h
    cases h
  · rw [hfree] at h
    cases h
  · rw [hpool, BufferPool.isUsed_new]
    refine iff_of_false Bool.false_ne_true ?_
    rintro ⟨i, hi⟩
    rw [hfree] at hi
    cases hi

/-- A new jitter buffer is in order. -/
theorem new_disciplined (step lossesToReset maxUsedSlots : BitVec 32)
    (nextTimestamp : BitVec 64) :
    Disciplined (JitterBuffer.new step lossesToReset maxUsedSlots nextTimestamp) :=
  reset_spec (.of_free rfl (fun _ => rfl) rfl)

/-- **The memory of the jitter buffer stays in order in just the runs in which no put has to throw
out a packet while every packet that is still held has the timestamp `0xFFFFFFFF`**: no place
outside the slots is used, the buffers of the slots are different and just these are marked as
used, every packet gets a buffer, and the pool does not abort. -/
theorem jitterBuffer_disciplined_iff (step lossesToReset maxUsedSlots : BitVec 32)
    (nextTimestamp : BitVec 64) (es : List JitterEvent) :
    Machine.Always jitterStep Disciplined
        (JitterBuffer.new step lossesToReset maxUsedSlots nextTimestamp) es ↔
      Machine.AllSteps jitterStep (fun x e => ∀ s, x = .ok s → FindsRoom s e)
        (JitterBuffer.new step lossesToReset maxUsedSlots nextTimestamp) es := by
  constructor
  · intro h
    refine Machine.allSteps_of_always ?_ h
    rintro x e ⟨s, rfl, hs⟩ hnext s' hs'
    cases hs'
    exact (handle_disciplined_iff hs e).mp hnext
  · refine Machine.always_of_allSteps ?_ (new_disciplined _ _ _ _)
    rintro x e ⟨s, rfl, hs⟩ hsafe
    exact (handle_disciplined_iff hs e).mpr (hsafe s rfl)

/-- Frames of 60 ms: 21 packets that all have the largest timestamp. -/
theorem not_jitterBuffer_disciplined_largest :
    ¬ Machine.Always jitterStep Disciplined (JitterBuffer.new 60 20 20 0)
      (List.replicate 21 (.handleInput [] 0xFFFFFFFF)) := by
  intro h
  obtain ⟨s, hrun, -⟩ := h.last
  have hfails : (Machine.run jitterStep (JitterBuffer.new 60 20 20 0)
      (List.replicate 21 (.handleInput [] 0xFFFFFFFF))).toBool = false := by
    decide +kernel
  rw [hrun] at hfails
  cases hfails

end Telegraph.VoIP
