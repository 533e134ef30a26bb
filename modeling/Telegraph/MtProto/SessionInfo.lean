import Mathlib.Algebra.Ring.Int.Defs
import Mathlib.Data.List.Nodup

/-!
# Session State

`MTSessionInfo` keeps what a client session needs to talk to the server: the last message
id and sequence number it drew, the incoming messages it has processed, the confirmations
it still owes, and which messages each container carried.

Message ids come from the context's clock, `globalTime`, whose readings (already multiplied
by `2^32` and cut to an `int64_t`) are an arbitrary sequence here. Three fields exist for
the statements only: `number` tells a session from those before it, `readings` counts the
clock readings taken, and `draws` lists every id and sequence number drawn, with what the
draw started from.

## Main results

* `toInt_draw`: an id drawn at a reading that is not behind the last id is ahead of it.
* `removeLoop_eq_filter`: the removal loop, which edits the array it indexes, is a filter.
* `scheduleMessageConfirmation_nodup`, `exists_of_not_mem_scheduled_remove`: what the list
  of confirmations keeps and what it gives up.
-/

namespace Telegraph.MtProto

/-- `MTScheduledMessageConfirmation`. -/
structure ScheduledMessageConfirmation where
  messageId : BitVec 64
  size : ℤ
  transactionIds : List ℕ
deriving DecidableEq

/-- `addTransactionId:`. -/
def ScheduledMessageConfirmation.addTransactionId (transactionId : ℕ)
    (c : ScheduledMessageConfirmation) : ScheduledMessageConfirmation :=
  if transactionId ∈ c.transactionIds then c
  else { c with transactionIds := c.transactionIds ++ [transactionId] }

/-- `containedInTransactionId:`. -/
def ScheduledMessageConfirmation.containedInTransactionId (transactionId : ℕ)
    (c : ScheduledMessageConfirmation) : Bool :=
  c.transactionIds.contains transactionId

/-- One call of `generateClientMessageId:` with the `takeSeqNo:` that goes with it. -/
structure Draw where
  /-- Whether a flag was passed for `monotonityViolated`, and what was stored there. -/
  checked : Bool
  monotonityViolated : Bool
  messageIsMeaningful : Bool
  /-- The clock, `_lastClientMessageId` and `_seqNo` before the draw. -/
  reading : BitVec 64
  lastClientMessageId : BitVec 64
  lastSeqNo : BitVec 32
  messageId : BitVec 64
  seqNo : BitVec 32
deriving DecidableEq

/-- `MTSessionInfo`. -/
structure SessionInfo where
  sessionId : BitVec 64
  lastClientMessageId : BitVec 64
  seqNo : BitVec 32
  processedMessageIds : List (BitVec 64)
  scheduledMessageConfirmations : List ScheduledMessageConfirmation
  containerMessagesMapping : List (BitVec 64 × List (BitVec 64))
  number : ℕ
  readings : ℕ
  draws : List Draw
deriving DecidableEq

/-- `initWithSessionId:context:`, for the session of the given number, when `readings` clock
readings have been taken. -/
def SessionInfo.init (sessionId : BitVec 64) (number readings : ℕ) : SessionInfo where
  sessionId := sessionId
  lastClientMessageId := 0
  seqNo := 0
  processedMessageIds := []
  scheduledMessageConfirmations := []
  containerMessagesMapping := []
  number := number
  readings := readings
  draws := []

/-! ### Message ids and sequence numbers -/

/-- `while (messageId % 4 != 0) messageId++`; three rounds are always enough
(`srem_alignMessageId`). -/
def alignMessageId : ℕ → BitVec 64 → BitVec 64
  | 0, messageId => messageId
  | rounds + 1, messageId =>
      if messageId.srem 4 = 0 then messageId else alignMessageId rounds (messageId + 1)

/-- `generateClientMessageId:`: the id, and whether monotonity was violated. -/
def SessionInfo.generateClientMessageId (globalTime : ℕ → BitVec 64) (s : SessionInfo) :
    BitVec 64 × Bool × SessionInfo :=
  let messageId := globalTime s.readings
  let monotonityViolated := messageId.slt s.lastClientMessageId
  let messageId :=
    if messageId = s.lastClientMessageId then s.lastClientMessageId + 1 else messageId
  let messageId := alignMessageId 3 messageId
  (messageId, monotonityViolated,
    { s with lastClientMessageId := messageId, readings := s.readings + 1 })

/-- `actualClientMessagId`, which leaves the last id as it is. -/
def SessionInfo.actualClientMessagId (globalTime : ℕ → BitVec 64) (s : SessionInfo) :
    BitVec 64 × SessionInfo :=
  (alignMessageId 3 (globalTime s.readings), { s with readings := s.readings + 1 })

/-- `takeSeqNo:`. -/
def SessionInfo.takeSeqNo (messageIsMeaningful : Bool) (s : SessionInfo) :
    BitVec 32 × SessionInfo :=
  if messageIsMeaningful then (s.seqNo + 1, { s with seqNo := s.seqNo + 2 })
  else (s.seqNo, s)

/-- A message id and a sequence number are drawn for one message. `checked` is false where
the code passes `NULL` for the flag. -/
def SessionInfo.draw (globalTime : ℕ → BitVec 64) (checked messageIsMeaningful : Bool)
    (s : SessionInfo) : Draw × SessionInfo :=
  let (messageId, monotonityViolated, s₁) := s.generateClientMessageId globalTime
  let (seqNo, s₂) := s₁.takeSeqNo messageIsMeaningful
  let d : Draw :=
    { checked := checked
      monotonityViolated := monotonityViolated
      messageIsMeaningful := messageIsMeaningful
      reading := globalTime s.readings
      lastClientMessageId := s.lastClientMessageId
      lastSeqNo := s.seqNo
      messageId := messageId
      seqNo := seqNo }
  (d, { s₂ with draws := s₂.draws ++ [d] })

section Align

variable {m : BitVec 64}

theorem toInt_add_one (h : m.toInt + 1 < 2 ^ 63) : (m + 1).toInt = m.toInt + 1 := by
  have hle := BitVec.le_toInt m
  rw [BitVec.toInt_add, show (1 : BitVec 64).toInt = 1 by decide]
  apply Int.bmod_eq_of_le <;> omega

theorem srem_four_eq_zero_iff : m.srem 4 = 0 ↔ m.toNat % 4 = 0 := by
  rw [← BitVec.toInt_inj, BitVec.toInt_srem, show (4 : BitVec 64).toInt = 4 by decide,
    show (0 : BitVec 64).toInt = 0 by decide, ← Int.dvd_iff_tmod_eq_zero,
    BitVec.toInt_eq_toNat_cond]
  split <;> omega

/-- The loop reaches the next multiple of four when it has the rounds to. -/
theorem srem_alignMessageId_of_le {rounds k : ℕ} (hk : k ≤ rounds)
    (hm : (m.toNat + k) % 4 = 0) : (alignMessageId rounds m).srem 4 = 0 := by
  induction rounds generalizing m k with
  | zero =>
      obtain rfl : k = 0 := by omega
      exact srem_four_eq_zero_iff.mpr hm
  | succ rounds ih =>
      unfold alignMessageId
      split
      case isTrue h => exact h
      case isFalse h =>
        rw [srem_four_eq_zero_iff] at h
        refine ih (k := k - 1) (by omega) ?_
        rw [BitVec.toNat_add, show (1 : BitVec 64).toNat = 1 by decide]
        omega

/-- Three rounds always reach a multiple of four. -/
theorem srem_alignMessageId (m : BitVec 64) : (alignMessageId 3 m).srem 4 = 0 :=
  srem_alignMessageId_of_le (k := (4 - m.toNat % 4) % 4) (by omega) (by omega)

/-- The loop goes up, if nothing overflows. -/
theorem le_toInt_alignMessageId (rounds : ℕ) (h : m.toInt + rounds < 2 ^ 63) :
    m.toInt ≤ (alignMessageId rounds m).toInt := by
  induction rounds generalizing m with
  | zero => exact Int.le_refl _
  | succ rounds ih =>
      unfold alignMessageId
      split
      · exact Int.le_refl _
      · have hadd : (m + 1).toInt = m.toInt + 1 := toInt_add_one (by omega)
        have hle := ih (m := m + 1) (by omega)
        omega

end Align

/-- Nothing overflows in the draw. -/
structure Draw.NoOverflow (d : Draw) : Prop where
  reading : d.reading.toInt + 4 < 2 ^ 63
  seqNo : d.messageIsMeaningful = true → d.lastSeqNo.toInt + 2 < 2 ^ 31

section Draws

variable (globalTime : ℕ → BitVec 64) (checked messageIsMeaningful : Bool) (s : SessionInfo)

@[simp] theorem draw_draws :
    (s.draw globalTime checked messageIsMeaningful).2.draws =
      s.draws ++ [(s.draw globalTime checked messageIsMeaningful).1] := by
  cases messageIsMeaningful <;> rfl

@[simp] theorem draw_monotonityViolated :
    (s.draw globalTime checked messageIsMeaningful).1.monotonityViolated =
      (globalTime s.readings).slt s.lastClientMessageId := rfl

@[simp] theorem draw_reading :
    (s.draw globalTime checked messageIsMeaningful).1.reading = globalTime s.readings := rfl

@[simp] theorem draw_session_lastClientMessageId :
    (s.draw globalTime checked messageIsMeaningful).2.lastClientMessageId =
      (s.draw globalTime checked messageIsMeaningful).1.messageId := by
  cases messageIsMeaningful <;> rfl

@[simp] theorem draw_session_number :
    (s.draw globalTime checked messageIsMeaningful).2.number = s.number := by
  cases messageIsMeaningful <;> rfl

@[simp] theorem draw_session_scheduledMessageConfirmations :
    (s.draw globalTime checked messageIsMeaningful).2.scheduledMessageConfirmations =
      s.scheduledMessageConfirmations := by
  cases messageIsMeaningful <;> rfl

end Draws

/-- **An id drawn at a reading that is not behind the last id is ahead of it.** -/
theorem toInt_draw {globalTime : ℕ → BitVec 64} {checked messageIsMeaningful : Bool}
    {s : SessionInfo}
    (hno : (s.draw globalTime checked messageIsMeaningful).1.NoOverflow)
    (hforward : s.lastClientMessageId.toInt ≤ (globalTime s.readings).toInt) :
    s.lastClientMessageId.toInt <
      (s.draw globalTime checked messageIsMeaningful).1.messageId.toInt := by
  have hreading := hno.reading
  simp only [draw_reading] at hreading
  change _ < (alignMessageId 3 (if globalTime s.readings = s.lastClientMessageId then
    s.lastClientMessageId + 1 else globalTime s.readings)).toInt
  split
  case isTrue heq =>
    rw [← heq]
    have hadd : (globalTime s.readings + 1).toInt = (globalTime s.readings).toInt + 1 :=
      toInt_add_one (by omega)
    have hle := le_toInt_alignMessageId (m := globalTime s.readings + 1) 3 (by omega)
    omega
  case isFalse hne =>
    have hle := le_toInt_alignMessageId (m := globalTime s.readings) 3 (by omega)
    have hlt : s.lastClientMessageId.toInt ≠ (globalTime s.readings).toInt :=
      fun h => hne (BitVec.toInt_inj.mp h).symm
    omega

/-! ### Processed messages and containers -/

/-- `messageProcessed:`. -/
def SessionInfo.messageProcessed (messageId : BitVec 64) (s : SessionInfo) : Bool :=
  s.processedMessageIds.contains messageId

/-- `setMessageProcessed:`. -/
def SessionInfo.setMessageProcessed (messageId : BitVec 64) (s : SessionInfo) : SessionInfo :=
  { s with processedMessageIds := s.processedMessageIds.insert messageId }

/-- `addContainerMessageIdMapping:childMessageIds:`. -/
def SessionInfo.addContainerMessageIdMapping (containerMessageId : BitVec 64)
    (childMessageIds : List (BitVec 64)) (s : SessionInfo) : SessionInfo :=
  { s with
    containerMessagesMapping := (containerMessageId, childMessageIds) ::
      s.containerMessagesMapping.filter fun entry => entry.1 ≠ containerMessageId }

/-- `messageIdsInContainer:`. -/
def SessionInfo.messageIdsInContainer (containerMessageId : BitVec 64) (s : SessionInfo) :
    Option (List (BitVec 64)) :=
  s.containerMessagesMapping.lookup containerMessageId

/-- `messageIdsInContainersAfterMessageId:`. -/
def SessionInfo.messageIdsInContainersAfterMessageId (firstMessageId : BitVec 64)
    (s : SessionInfo) : List (BitVec 64) :=
  s.containerMessagesMapping.flatMap fun entry =>
    entry.2.filter fun messageId =>
      firstMessageId.sle entry.1 || firstMessageId.sle messageId

/-! ### Scheduled confirmations -/

/-- `scheduleMessageConfirmation:size:`. -/
def SessionInfo.scheduleMessageConfirmation (messageId : BitVec 64) (size : ℤ)
    (s : SessionInfo) : SessionInfo :=
  if s.scheduledMessageConfirmations.any fun c => c.messageId = messageId then s
  else
    { s with
      scheduledMessageConfirmations := s.scheduledMessageConfirmations ++
        [{ messageId := messageId, size := size, transactionIds := [] }] }

/-- `scheduledMessageConfirmations`: the ids that still have to be confirmed. -/
def SessionInfo.scheduled (s : SessionInfo) : List (BitVec 64) :=
  s.scheduledMessageConfirmations.map ScheduledMessageConfirmation.messageId

/-- `scheduledMessageConfirmationsExceedSize:orCount:`. -/
def SessionInfo.scheduledMessageConfirmationsExceed (sizeLimit : ℤ) (countLimit : ℕ)
    (s : SessionInfo) : Bool :=
  if s.scheduledMessageConfirmations.length > countLimit then true
  else if s.scheduledMessageConfirmations = [] then false
  else decide (sizeLimit <
    (s.scheduledMessageConfirmations.map ScheduledMessageConfirmation.size).sum)

/-- `assignTransactionId:toScheduledMessageConfirmationsWithIds:`. -/
def SessionInfo.assignTransactionId (transactionId : ℕ) (messageIds : List (BitVec 64))
    (s : SessionInfo) : SessionInfo :=
  { s with
    scheduledMessageConfirmations := s.scheduledMessageConfirmations.map fun c =>
      if messageIds.contains c.messageId then c.addTransactionId transactionId else c }

/-- The loop of `removeScheduledMessageConfirmationsWithTransactionIds:` at index `i`, with
`rounds` rounds to go: where an entry is removed, the next one moves to its index. -/
def removeLoop (contained : ScheduledMessageConfirmation → Bool) :
    ℕ → ℕ → List ScheduledMessageConfirmation → List ScheduledMessageConfirmation
  | 0, _, cs => cs
  | rounds + 1, i, cs =>
      match cs[i]? with
      | none => cs
      | some c =>
          if contained c then removeLoop contained rounds i (cs.eraseIdx i)
          else removeLoop contained rounds (i + 1) cs

/-- `removeScheduledMessageConfirmationsWithTransactionIds:`. -/
def SessionInfo.removeScheduledMessageConfirmations (transactionIds : List ℕ)
    (s : SessionInfo) : SessionInfo :=
  { s with
    scheduledMessageConfirmations :=
      removeLoop (fun c => transactionIds.any c.containedInTransactionId)
        s.scheduledMessageConfirmations.length 0 s.scheduledMessageConfirmations }

section Scheduled

variable {s : SessionInfo} {messageId : BitVec 64} {size : ℤ} {transactionId : ℕ}
  {transactionIds : List ℕ} {messageIds : List (BitVec 64)}

@[simp] theorem addTransactionId_messageId (c : ScheduledMessageConfirmation) :
    (c.addTransactionId transactionId).messageId = c.messageId := by
  unfold ScheduledMessageConfirmation.addTransactionId
  split <;> rfl

/-- Assigning a transaction id to a confirmation adds that one only. -/
theorem mem_addTransactionId {c : ScheduledMessageConfirmation} {t : ℕ}
    (h : t ∈ (c.addTransactionId transactionId).transactionIds) :
    t ∈ c.transactionIds ∨ t = transactionId := by
  unfold ScheduledMessageConfirmation.addTransactionId at h
  split at h
  · exact .inl h
  · simpa using h

/-- **The removal loop is a filter**: from index `i` on, what is contained goes. -/
theorem removeLoop_eq_filter (contained : ScheduledMessageConfirmation → Bool) (rounds i : ℕ)
    (cs : List ScheduledMessageConfirmation) (h : cs.length ≤ rounds + i) :
    removeLoop contained rounds i cs =
      cs.take i ++ (cs.drop i).filter fun c => !contained c := by
  induction rounds generalizing i cs with
  | zero =>
      simp only [removeLoop]
      rw [List.take_of_length_le (by omega), List.drop_of_length_le (by omega)]
      simp
  | succ rounds ih =>
      unfold removeLoop
      cases hc : cs[i]? with
      | none =>
          have hlen : cs.length ≤ i := List.getElem?_eq_none_iff.mp hc
          dsimp only
          rw [List.take_of_length_le hlen, List.drop_of_length_le hlen]
          simp
      | some c =>
          obtain ⟨hi, rfl⟩ := List.getElem?_eq_some_iff.mp hc
          have hdrop : cs.drop i = cs[i] :: cs.drop (i + 1) := List.drop_eq_getElem_cons hi
          dsimp only
          split
          case isTrue hcontained =>
            rw [ih i _ (by rw [List.length_eraseIdx_of_lt hi]; omega), hdrop,
              List.filter_cons_of_neg (by simp [hcontained]),
              List.eraseIdx_eq_take_drop_succ]
            simp [Nat.min_eq_left (Nat.le_of_lt hi)]
          case isFalse hcontained =>
            rw [ih (i + 1) cs (by omega), hdrop,
              List.filter_cons_of_pos (by simp [hcontained]), List.take_succ_eq_append_getElem hi,
              List.append_assoc, List.singleton_append]

theorem remove_scheduledMessageConfirmations :
    (s.removeScheduledMessageConfirmations transactionIds).scheduledMessageConfirmations =
      s.scheduledMessageConfirmations.filter fun c =>
        !transactionIds.any c.containedInTransactionId := by
  simp [SessionInfo.removeScheduledMessageConfirmations, removeLoop_eq_filter]

/-- Scheduling keeps what is scheduled and adds the id. -/
theorem mem_scheduled_schedule {x : BitVec 64} :
    x ∈ (s.scheduleMessageConfirmation messageId size).scheduled ↔
      x ∈ s.scheduled ∨ x = messageId := by
  unfold SessionInfo.scheduleMessageConfirmation SessionInfo.scheduled
  split
  case isTrue h =>
    obtain ⟨c, hc, hid⟩ := List.any_eq_true.mp h
    constructor
    · exact .inl
    · rintro (hx | rfl)
      · exact hx
      · exact List.mem_map.mpr ⟨c, hc, of_decide_eq_true hid⟩
  case isFalse => simp [List.map_append]

/-- Scheduling never puts an id in twice. -/
theorem scheduleMessageConfirmation_nodup (h : s.scheduled.Nodup) :
    (s.scheduleMessageConfirmation messageId size).scheduled.Nodup := by
  unfold SessionInfo.scheduleMessageConfirmation
  split
  case isTrue => exact h
  case isFalse hnew =>
    have hfresh : messageId ∉ s.scheduled := by
      intro hm
      obtain ⟨c, hc, rfl⟩ := List.mem_map.mp hm
      exact hnew (List.any_eq_true.mpr ⟨c, hc, by simp⟩)
    change (List.map _ (s.scheduledMessageConfirmations ++ _)).Nodup
    rw [List.map_append, List.nodup_append]
    refine ⟨h, by simp, ?_⟩
    rintro x hx y hy rfl
    rw [List.map_singleton, List.mem_singleton] at hy
    obtain rfl : x = messageId := hy
    exact hfresh hx

/-- Assigning a transaction id leaves the scheduled ids as they are. -/
@[simp] theorem scheduled_assignTransactionId :
    (s.assignTransactionId transactionId messageIds).scheduled = s.scheduled := by
  unfold SessionInfo.assignTransactionId SessionInfo.scheduled
  rw [List.map_map]
  refine List.map_congr_left fun c _ => ?_
  simp only [Function.comp_apply]
  split
  · exact addTransactionId_messageId c
  · rfl

/-- Removal only removes. -/
theorem scheduled_remove_sublist :
    (s.removeScheduledMessageConfirmations transactionIds).scheduled.Sublist s.scheduled := by
  unfold SessionInfo.scheduled
  rw [remove_scheduledMessageConfirmations]
  exact (List.filter_sublist).map _

/-- An id is removed only if its confirmation contains one of the transaction ids. -/
theorem exists_of_not_mem_scheduled_remove {x : BitVec 64} (hx : x ∈ s.scheduled)
    (hrem : x ∉ (s.removeScheduledMessageConfirmations transactionIds).scheduled) :
    ∃ c ∈ s.scheduledMessageConfirmations, c.messageId = x ∧
      ∃ t ∈ transactionIds, t ∈ c.transactionIds := by
  obtain ⟨c, hc, rfl⟩ := List.mem_map.mp hx
  refine ⟨c, hc, rfl, ?_⟩
  by_contra hno
  refine hrem (List.mem_map.mpr ⟨c, ?_, rfl⟩)
  rw [remove_scheduledMessageConfirmations, List.mem_filter]
  refine ⟨hc, ?_⟩
  simp only [Bool.not_eq_true', List.any_eq_false]
  intro t ht hcontained
  exact hno ⟨t, ht, by
    simpa [ScheduledMessageConfirmation.containedInTransactionId] using hcontained⟩

end Scheduled

end Telegraph.MtProto
