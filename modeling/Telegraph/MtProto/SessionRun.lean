import Telegraph.Lib.Machine
import Telegraph.MtProto.IncomingMessages
import Telegraph.MtProto.Transaction

/-!
# Runs of One Session

What happens to one `MTSessionInfo` from the moment `MTProto` makes it: transactions and
time-fix pings draw on it, completion blocks of the transport come back to it at any time,
incoming data clears confirmations, and incoming messages schedule new ones. When
`MTProto` resets its session, the object stays reachable from completion blocks only.

Which of its many conditions `MTProto` is in (authorized, paused, waiting for a time sync)
is not tracked: any event may come at any time.

## Main results

* `session_moves_step`: everything one event can do to a session.

What this means for the confirmations a session owes is in
`Telegraph.MtProto.Acknowledgements`, what it means for the order of its message ids in
`Telegraph.MtProto.MessageOrder`.
-/

namespace Telegraph.MtProto

/-- A session, whether `MTProto` still uses it, and everything handed to the transport. -/
structure SessionRun where
  session : SessionInfo
  current : Bool
  handed : List TransportTransaction
deriving DecidableEq

/-- A session just made. -/
def SessionRun.init (sessionId : BitVec 64) : SessionRun where
  session := .init sessionId 0 0
  current := true
  handed := []

/-- What can happen to a session, in any order. -/
inductive SessionEvent (α : Type) where
  /-- The transport is ready, and transactions may be asked for. -/
  | transaction (ctx : TransactionContext)
  /-- The transport is ready, but the time or the salts are missing. -/
  | timeFixPing (authInfo : Option TransactionAuthInfo) (randomId : BitVec 64)
  /-- The transport accepts one of its transactions under a transaction id, or does not. -/
  | completion (index : ℕ) (accepted : Option ℕ)
  /-- Data that decrypts and parses comes in. -/
  | incomingData (transactionId : ℕ)
  /-- One of the messages in the data is processed; `shouldRequest` is the answer of the
  services to `shouldRequestMessageWithId:`. -/
  | incomingMessage (useUnauthorizedMode : Bool) (message : MTIncomingMessage α)
      (shouldRequest : Bool)
  | resetSessionInfo

/-! ### The completion block -/

/-- `messageInternalIdsByPayload[i]`. -/
def TransportTransaction.messageInternalIds (t : TransportTransaction) : List ℕ :=
  t.payload.messages.map PreparedMessage.messageInternalId

/-- `messageInternalIdToTransactionId[internalId]` in the completion block. -/
def TransportTransaction.transactionIdFor (transactionId internalId : ℕ)
    (t : TransportTransaction) : Option ℕ :=
  if t.messageInternalIds.contains internalId then some transactionId else none

/-- `transactionMessageInternalIdToPreparedMessage[internalId]` in the completion block. -/
def TransportTransaction.preparedFor (internalId : ℕ) (t : TransportTransaction) :
    Option PreparedMessage :=
  if t.messageInternalIds.contains internalId then lookupPrepared t.prepared internalId
  else none

/-- The completion block of the `msgs_ack` transaction, called for a payload the transport
has accepted. -/
def TransportTransaction.confirm (transactionId : ℕ) (t : TransportTransaction)
    (s : SessionInfo) : SessionInfo :=
  match t.msgsAck with
  | none => s
  | some (internalId, messageIds) =>
      if t.transactionIdFor transactionId internalId ≠ none ∧ t.preparedFor internalId ≠ none
      then s.assignTransactionId transactionId messageIds
      else s

/-! ### Incoming messages -/

variable {α : Type}

/-- `_processIncomingMessage:withTransactionId:`, as far as it touches the session. -/
def SessionRun.processIncomingMessage (useUnauthorizedMode : Bool)
    (message : MTIncomingMessage α) (shouldRequest : Bool) (r : SessionRun) : SessionRun :=
  if r.session.messageProcessed message.messageId then
    { r with
      session := r.session.scheduleMessageConfirmation message.messageId message.size.toInt }
  else
    let s := r.session.setMessageProcessed message.messageId
    let s :=
      if !useUnauthorizedMode && message.seqNo.srem 2 ≠ 0 then
        s.scheduleMessageConfirmation message.messageId message.size.toInt
      else s
    match message.body with
    | .internal (.badMsgNotification _ _ errorCode) =>
        if !useUnauthorizedMode && (errorCode = 32 || errorCode = 33) then
          { r with session := s, current := false }
        else { r with session := s }
    | .internal (.msgDetailedResponseInfo _ responseMessageId responseLength _) =>
        if shouldRequest then { r with session := s }
        else
          { r with
            session := s.scheduleMessageConfirmation responseMessageId responseLength.toInt }
    | _ => { r with session := s }

/-- What processing a message does to the session: it notes the message and schedules
confirmations. -/
theorem processIncomingMessage_induction {P : SessionInfo → Prop}
    (useUnauthorizedMode shouldRequest : Bool) (message : MTIncomingMessage α)
    (hprocessed : ∀ s messageId, P s → P (s.setMessageProcessed messageId))
    (hschedule : ∀ s messageId size, P s → P (s.scheduleMessageConfirmation messageId size))
    {r : SessionRun} (hr : P r.session) :
    P (r.processIncomingMessage useUnauthorizedMode message shouldRequest).session := by
  unfold SessionRun.processIncomingMessage
  dsimp only
  split
  · exact hschedule _ _ _ hr
  · have hmessage : P (if !useUnauthorizedMode && message.seqNo.srem 2 ≠ 0 then
        (r.session.setMessageProcessed message.messageId).scheduleMessageConfirmation
          message.messageId message.size.toInt
        else r.session.setMessageProcessed message.messageId) := by
      split
      · exact hschedule _ _ _ (hprocessed _ _ hr)
      · exact hprocessed _ _ hr
    split
    · split
      · exact hmessage
      · exact hmessage
    · split
      · exact hmessage
      · exact hschedule _ _ _ hmessage
    · exact hmessage

@[simp] theorem processIncomingMessage_handed (useUnauthorizedMode shouldRequest : Bool)
    (message : MTIncomingMessage α) (r : SessionRun) :
    (r.processIncomingMessage useUnauthorizedMode message shouldRequest).handed = r.handed := by
  unfold SessionRun.processIncomingMessage
  dsimp only
  split
  · rfl
  · split
    · split <;> rfl
    · split <;> rfl
    · rfl

/-! ### Steps -/

/-- One event. Once the session is reset, only completion blocks reach it. -/
def SessionRun.step (globalTime : ℕ → BitVec 64) (r : SessionRun) :
    SessionEvent α → SessionRun
  | .transaction ctx =>
      if r.current then
        let result := transportReadyForTransaction globalTime ctx r.session
        { session := result.session
          current := !result.monotonityViolated
          handed := r.handed ++ result.transactions }
      else r
  | .timeFixPing authInfo randomId =>
      if r.current then
        let (transactions, session) := MtProto.timeFixPing globalTime authInfo randomId r.session
        { r with session := session, handed := r.handed ++ transactions }
      else r
  | .completion index accepted =>
      match r.handed[index]?, accepted with
      | some t, some transactionId => { r with session := t.confirm transactionId r.session }
      | _, _ => r
  | .incomingData transactionId =>
      if r.current then
        { r with session := r.session.removeScheduledMessageConfirmations [transactionId] }
      else r
  | .incomingMessage useUnauthorizedMode message shouldRequest =>
      if r.current then
        r.processIncomingMessage useUnauthorizedMode message shouldRequest
      else r
  | .resetSessionInfo => { r with current := false }

/-- The ways an event can take a session from `r` to another state. -/
inductive SessionRun.Moves (globalTime : ℕ → BitVec 64) (r : SessionRun) :
    SessionEvent α → SessionRun → Prop where
  | ignored (ev : SessionEvent α) : Moves globalTime r ev r
  | transaction (ctx : TransactionContext) (current : r.current = true) :
      Moves globalTime r (.transaction ctx)
        { session := (transportReadyForTransaction globalTime ctx r.session).session
          current := !(transportReadyForTransaction globalTime ctx r.session).monotonityViolated
          handed := r.handed ++
            (transportReadyForTransaction globalTime ctx r.session).transactions }
  | timeFixPing (authInfo : Option TransactionAuthInfo) (randomId : BitVec 64)
      (current : r.current = true) :
      Moves globalTime r (.timeFixPing authInfo randomId)
        { r with
          session := (MtProto.timeFixPing globalTime authInfo randomId r.session).2
          handed := r.handed ++
            (MtProto.timeFixPing globalTime authInfo randomId r.session).1 }
  | completion {index : ℕ} {t : TransportTransaction} (transactionId : ℕ)
      (handed : r.handed[index]? = some t) :
      Moves globalTime r (.completion index (some transactionId))
        { r with session := t.confirm transactionId r.session }
  | incomingData (transactionId : ℕ) (current : r.current = true) :
      Moves globalTime r (.incomingData transactionId)
        { r with session := r.session.removeScheduledMessageConfirmations [transactionId] }
  | incomingMessage (useUnauthorizedMode : Bool) (message : MTIncomingMessage α)
      (shouldRequest : Bool) (current : r.current = true) :
      Moves globalTime r (.incomingMessage useUnauthorizedMode message shouldRequest)
        (r.processIncomingMessage useUnauthorizedMode message shouldRequest)
  | resetSessionInfo : Moves globalTime r .resetSessionInfo { r with current := false }

/-- **Everything one event can do to a session.** -/
theorem session_moves_step (globalTime : ℕ → BitVec 64) (r : SessionRun)
    (ev : SessionEvent α) : r.Moves globalTime ev (r.step globalTime ev) := by
  unfold SessionRun.step
  cases ev with
  | transaction ctx =>
      dsimp only
      split
      case isTrue h => exact .transaction ctx h
      case isFalse => exact .ignored _
  | timeFixPing authInfo randomId =>
      dsimp only
      split
      case isTrue h => exact .timeFixPing authInfo randomId h
      case isFalse => exact .ignored _
  | completion index accepted =>
      dsimp only
      split
      · exact .completion _ ‹_›
      · exact .ignored _
  | incomingData transactionId =>
      dsimp only
      split
      case isTrue h => exact .incomingData transactionId h
      case isFalse => exact .ignored _
  | incomingMessage useUnauthorizedMode message shouldRequest =>
      dsimp only
      split
      case isTrue h => exact .incomingMessage useUnauthorizedMode message shouldRequest h
      case isFalse => exact .ignored _
  | resetSessionInfo => exact .resetSessionInfo

/-- The state a run reaches. -/
def SessionRun.after (globalTime : ℕ → BitVec 64) (sessionId : BitVec 64)
    (es : List (SessionEvent α)) : SessionRun :=
  Machine.run (SessionRun.step globalTime) (.init sessionId) es

@[simp] theorem session_after_append_singleton (globalTime : ℕ → BitVec 64)
    (sessionId : BitVec 64) (es : List (SessionEvent α)) (ev : SessionEvent α) :
    SessionRun.after globalTime sessionId (es ++ [ev]) =
      (SessionRun.after globalTime sessionId es).step globalTime ev := by
  simp [SessionRun.after]

end Telegraph.MtProto
