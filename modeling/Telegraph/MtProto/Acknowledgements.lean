import Telegraph.MtProto.SessionRun

/-!
# No Acknowledgement is Lost

A message the server sends with an odd sequence number has to be acknowledged. Its id is
scheduled when the message is processed, goes out in the `msgs_ack` of some transactions,
is marked with the transaction ids under which the transport accepts them, and leaves the
list when data comes in under one of these. The four things happen in different callbacks,
in any order and any number of times.

## Main results

* `msgsAck_data`: the message a transaction looks up as its `msgs_ack` is that message.
* `ackHistory_step`: every event keeps the history of the transaction ids.
* `scheduled_not_lost`: **an id leaves the list only when data comes in under a transaction
  id under which the transport accepted a `msgs_ack` with the id**, and it is never in the
  list twice.
-/

namespace Telegraph.MtProto

/-! ### The message with the acknowledgements -/

section MsgsAck

variable {globalTime : ℕ → BitVec 64} {ctx : TransactionContext} {s : SessionInfo}

/-- An outgoing message with the next internal id is the `msgs_ack`. -/
theorem eq_msgsAckMessage {m : OutgoingMessage} (hm : m ∈ ctx.outgoing s)
    (hid : m.internalId = ctx.nextInternalId) : m = ctx.msgsAckMessage s := by
  rcases mem_outgoing hm with hm | hm
  · have := internalId_lt_nextInternalId hm
    omega
  · exact hm

/-- The payload `t` carries a `msgs_ack` with the id. -/
def TransportTransaction.Acknowledges (t : TransportTransaction) (messageId : BitVec 64) :
    Prop :=
  ∃ m ∈ t.payload.messages, ∃ messageIds,
    m.data = msgsAckData messageIds ∧ messageId ∈ messageIds

/-- What a completion block takes for the `msgs_ack` of its payload is a `msgs_ack` with
the ids the block captures. -/
def TransportTransaction.AckSound (t : TransportTransaction) : Prop :=
  ∀ internalId messageIds, t.msgsAck = some (internalId, messageIds) →
    ∀ m ∈ t.payload.messages, m.messageInternalId = internalId →
      m.data = msgsAckData messageIds

/-- **The message a transaction looks up as its `msgs_ack` is that message.** -/
theorem msgsAck_data {t : TransportTransaction}
    (h : t ∈ (transportReadyForTransaction globalTime ctx s).transactions) : t.AckSound := by
  intro internalId messageIds hack m hm hid
  obtain ⟨hprepared, hmsgsAck, hmessages⟩ := mem_transactions h
  obtain ⟨out, hout, hfrom⟩ := mem_prepared (hprepared ▸ hmessages m hm)
  rw [hmsgsAck] at hack
  unfold TransactionContext.msgsAck at hack
  split at hack
  · simp at hack
  · obtain ⟨rfl, rfl⟩ := Prod.mk.inj (Option.some.inj hack)
    obtain rfl := eq_msgsAckMessage hout (hfrom.internalId.symm.trans hid)
    exact hfrom.data rfl

/-- A completion block that confirms does so for a payload with a `msgs_ack`. -/
theorem acknowledges_of_transactionIdFor {t : TransportTransaction} (ht : t.AckSound)
    {internalId transactionId : ℕ} {messageIds : List (BitVec 64)} {messageId : BitVec 64}
    (hack : t.msgsAck = some (internalId, messageIds))
    (hid : t.transactionIdFor transactionId internalId ≠ none)
    (hmem : messageId ∈ messageIds) : t.Acknowledges messageId := by
  unfold TransportTransaction.transactionIdFor at hid
  split at hid
  case isTrue hcontains =>
    obtain ⟨m, hm, hmid⟩ := List.mem_map.mp (List.contains_iff_mem.mp hcontains)
    exact ⟨m, hm, messageIds, ht internalId messageIds hack m hm hmid, hmem⟩
  case isFalse => exact absurd rfl hid

/-- A time-fix ping is no `msgs_ack`. -/
theorem timeFixPing_ackSound {authInfo : Option TransactionAuthInfo} {randomId : BitVec 64}
    {t : TransportTransaction} (h : t ∈ (timeFixPing globalTime authInfo randomId s).1) :
    t.AckSound := by
  unfold timeFixPing at h
  dsimp only at h
  split at h
  · obtain rfl := List.mem_singleton.mp h
    intro internalId messageIds hack
    simp at hack
  · simp at h

end MsgsAck

/-! ### The history of the transaction ids -/

section History

variable {α : Type} (globalTime : ℕ → BitVec 64) (sessionId : BitVec 64)

/-- In the run `es`, the transport accepted a payload with a `msgs_ack` for the id under
the transaction id. -/
def Acknowledged (es : List (SessionEvent α)) (transactionId : ℕ) (messageId : BitVec 64) :
    Prop :=
  ∃ es₁ index es₂ t, es = es₁ ++ .completion index (some transactionId) :: es₂ ∧
    (SessionRun.after globalTime sessionId es₁).handed[index]? = some t ∧
    t.Acknowledges messageId

/-- What is behind the confirmations of the session `s` after the run `es`. -/
structure Backed (es : List (SessionEvent α)) (s : SessionInfo) : Prop where
  nodup : s.scheduled.Nodup
  /-- A confirmation is marked with a transaction id only after it was accepted there. -/
  marked : ∀ c ∈ s.scheduledMessageConfirmations, ∀ t ∈ c.transactionIds,
    Acknowledged globalTime sessionId es t c.messageId

variable {globalTime sessionId} {es : List (SessionEvent α)} {s : SessionInfo}

theorem Acknowledged.append {transactionId : ℕ} {messageId : BitVec 64}
    (h : Acknowledged globalTime sessionId es transactionId messageId) (ev : SessionEvent α) :
    Acknowledged globalTime sessionId (es ++ [ev]) transactionId messageId := by
  obtain ⟨es₁, index, es₂, t, rfl, hrest⟩ := h
  exact ⟨es₁, index, es₂ ++ [ev], t, by simp, hrest⟩

theorem Backed.append (h : Backed globalTime sessionId es s) (ev : SessionEvent α) :
    Backed globalTime sessionId (es ++ [ev]) s where
  nodup := h.nodup
  marked c hc t ht := (h.marked c hc t ht).append ev

/-- What is behind the confirmations depends on nothing else of the session. -/
theorem Backed.congr {s' : SessionInfo} (h : Backed globalTime sessionId es s)
    (hs : s'.scheduledMessageConfirmations = s.scheduledMessageConfirmations) :
    Backed globalTime sessionId es s' where
  nodup := by
    have := h.nodup
    unfold SessionInfo.scheduled at this ⊢
    rwa [hs]
  marked c hc := h.marked c (hs ▸ hc)

/-- A new confirmation is not marked yet. -/
theorem Backed.schedule (h : Backed globalTime sessionId es s) (messageId : BitVec 64)
    (size : ℤ) : Backed globalTime sessionId es (s.scheduleMessageConfirmation messageId size)
    where
  nodup := scheduleMessageConfirmation_nodup h.nodup
  marked c hc t ht := by
    unfold SessionInfo.scheduleMessageConfirmation at hc
    split at hc
    · exact h.marked c hc t ht
    · rw [List.mem_append, List.mem_singleton] at hc
      rcases hc with hc | rfl
      · exact h.marked c hc t ht
      · simp at ht

/-- Removal leaves the other confirmations as they are. -/
theorem Backed.remove (h : Backed globalTime sessionId es s) (transactionIds : List ℕ) :
    Backed globalTime sessionId es (s.removeScheduledMessageConfirmations transactionIds) where
  nodup := scheduled_remove_sublist.nodup h.nodup
  marked c hc := by
    rw [remove_scheduledMessageConfirmations] at hc
    exact h.marked c (List.mem_of_mem_filter hc)

/-- Marking what a payload acknowledges is backed by its acceptance. -/
theorem Backed.confirm (h : Backed globalTime sessionId es s) {t : TransportTransaction}
    (ht : t.AckSound) {transactionId : ℕ}
    (hacc : ∀ messageId, t.Acknowledges messageId →
      Acknowledged globalTime sessionId es transactionId messageId) :
    Backed globalTime sessionId es (t.confirm transactionId s) := by
  unfold TransportTransaction.confirm
  split
  · exact h
  · rename_i internalId messageIds hack
    split
    case isFalse => exact h
    case isTrue hid =>
      refine ⟨by simpa using h.nodup, fun c hc u hu => ?_⟩
      obtain ⟨c', hc', rfl⟩ := List.mem_map.mp hc
      split at hu
      case isTrue hcontains =>
        rw [if_pos hcontains, addTransactionId_messageId]
        rcases mem_addTransactionId hu with hu | rfl
        · exact h.marked c' hc' u hu
        · exact hacc _ (acknowledges_of_transactionIdFor ht hack hid.1
            (List.contains_iff_mem.mp hcontains))
      case isFalse hcontains =>
        rw [if_neg hcontains]
        exact h.marked c' hc' u hu

/-- The history of a run: every mark is backed, and every payload's `msgs_ack` is one. -/
structure AckHistory (globalTime : ℕ → BitVec 64) (sessionId : BitVec 64)
    (es : List (SessionEvent α)) (r : SessionRun) : Prop where
  backed : Backed globalTime sessionId es r.session
  handed : ∀ t ∈ r.handed, t.AckSound

/-- **Every event keeps the history of the transaction ids.** -/
theorem ackHistory_step {ev : SessionEvent α} {r' : SessionRun}
    (h : AckHistory globalTime sessionId es (SessionRun.after globalTime sessionId es))
    (hmoves : (SessionRun.after globalTime sessionId es).Moves globalTime ev r') :
    AckHistory globalTime sessionId (es ++ [ev]) r' := by
  have hbacked := h.backed.append ev
  cases hmoves with
  | ignored => exact ⟨hbacked, h.handed⟩
  | transaction ctx _ =>
      refine ⟨hbacked.congr transaction_scheduled, fun t ht => ?_⟩
      rcases List.mem_append.mp ht with ht | ht
      · exact h.handed t ht
      · exact msgsAck_data ht
  | timeFixPing authInfo randomId _ =>
      refine ⟨hbacked.congr (by simp), fun t ht => ?_⟩
      rcases List.mem_append.mp ht with ht | ht
      · exact h.handed t ht
      · exact timeFixPing_ackSound ht
  | completion transactionId ht =>
      refine ⟨hbacked.confirm (h.handed _ (List.mem_of_getElem? ht)) ?_, h.handed⟩
      exact fun messageId hm => ⟨es, _, [], _, rfl, ht, hm⟩
  | incomingData transactionId _ => exact ⟨hbacked.remove _, h.handed⟩
  | incomingMessage useUnauthorizedMode message shouldRequest _ =>
      refine ⟨processIncomingMessage_induction _ _ _ (fun _ _ hs => hs.congr rfl)
        (fun _ _ _ hs => hs.schedule _ _) hbacked, ?_⟩
      rw [processIncomingMessage_handed]
      exact h.handed
  | resetSessionInfo => exact ⟨hbacked, h.handed⟩

/-- The history holds after every run. -/
theorem ackHistory_after (es : List (SessionEvent α)) :
    AckHistory globalTime sessionId es (SessionRun.after globalTime sessionId es) := by
  induction es using List.reverseRecOn with
  | nil =>
      refine ⟨⟨List.nodup_nil, fun c hc => ?_⟩, fun t ht => ?_⟩
      · simp [SessionRun.after, SessionRun.init, SessionInfo.init] at hc
      · simp [SessionRun.after, SessionRun.init] at ht
  | append_singleton es ev ih =>
      rw [session_after_append_singleton]
      exact ackHistory_step ih (session_moves_step globalTime _ ev)

/-- An event that takes an id off the list is data under a marked transaction id. -/
theorem removed_by_incomingData {r r' : SessionRun} {ev : SessionEvent α}
    {messageId : BitVec 64} (hmoves : r.Moves globalTime ev r')
    (hmem : messageId ∈ r.session.scheduled) (hrem : messageId ∉ r'.session.scheduled) :
    ∃ transactionId, ev = .incomingData transactionId ∧
      ∃ c ∈ r.session.scheduledMessageConfirmations,
        c.messageId = messageId ∧ transactionId ∈ c.transactionIds := by
  cases hmoves with
  | ignored => exact absurd hmem hrem
  | transaction ctx _ =>
      unfold SessionInfo.scheduled at hrem
      rw [transaction_scheduled] at hrem
      exact absurd hmem hrem
  | timeFixPing authInfo randomId _ =>
      refine absurd hmem ?_
      unfold SessionInfo.scheduled at hrem ⊢
      rwa [timeFixPing_session, draw_session_scheduledMessageConfirmations] at hrem
  | completion transactionId ht =>
      refine absurd hmem ?_
      unfold TransportTransaction.confirm at hrem
      dsimp only at hrem
      split at hrem
      · exact hrem
      · split at hrem
        · rwa [scheduled_assignTransactionId] at hrem
        · exact hrem
  | incomingData transactionId _ =>
      obtain ⟨c, hc, hid, t, ht, hct⟩ := exists_of_not_mem_scheduled_remove hmem hrem
      obtain rfl := List.mem_singleton.mp ht
      exact ⟨t, rfl, c, hc, hid, hct⟩
  | incomingMessage useUnauthorizedMode message shouldRequest _ =>
      refine absurd ?_ hrem
      exact processIncomingMessage_induction (P := fun s => messageId ∈ s.scheduled) _ _ _
        (fun _ _ hs => hs) (fun _ _ _ hs => mem_scheduled_schedule.mpr (.inl hs)) hmem
  | resetSessionInfo => exact absurd hmem hrem

end History

/-- **No acknowledgement is lost.** In every run of a session the list of confirmations
holds no id twice, and an event takes an id off the list only if it is data under a
transaction id under which the transport had accepted a payload with a `msgs_ack` for the
id. -/
theorem scheduled_not_lost {α : Type} (globalTime : ℕ → BitVec 64) (sessionId : BitVec 64)
    (es : List (SessionEvent α)) :
    (SessionRun.after globalTime sessionId es).session.scheduled.Nodup ∧
    ∀ ev messageId, messageId ∈ (SessionRun.after globalTime sessionId es).session.scheduled →
      messageId ∉ (SessionRun.after globalTime sessionId (es ++ [ev])).session.scheduled →
      ∃ transactionId, ev = .incomingData transactionId ∧
        Acknowledged globalTime sessionId es transactionId messageId := by
  have history : AckHistory globalTime sessionId es (SessionRun.after globalTime sessionId es) :=
    ackHistory_after es
  refine ⟨history.backed.nodup, fun ev messageId hmem hrem => ?_⟩
  rw [session_after_append_singleton] at hrem
  obtain ⟨transactionId, rfl, c, hc, rfl, ht⟩ :=
    removed_by_incomingData (session_moves_step globalTime _ ev) hmem hrem
  exact ⟨transactionId, rfl, history.backed.marked c hc transactionId ht⟩

end Telegraph.MtProto
