import Mathlib.Data.List.MinMax
import Mathlib.Data.List.Sort
import Telegraph.Lib.Bytes
import Telegraph.MtProto.SessionInfo

/-!
# Transactions

`transportReadyForTransaction:` is where `MTProto` turns what its services want to say into
payloads for the transport. It collects the message transactions, adds a `msgs_ack` for the
scheduled confirmations, draws an id and a sequence number for every message that has none,
sorts the messages, cuts them into containers of at most three kilobytes, and draws the ids
of the containers.

Payloads are kept as what is encrypted; the ciphers, the quick-ack ids (hashes of the
ciphertext) and the log are left out. Two fields exist for the statements only: `session`
is the number of the session a message id was drawn in, and `fresh` tells an id drawn for
this message from one that the message brought along.

## Main results

* `containers_flatten`: every message goes into exactly one payload, in order.
* `mem_prepared`: what is prepared, and under which id.
* `mem_transactions`: what is handed to the transport.
-/

open Bytes

namespace Telegraph.MtProto

/-! ### Messages -/

/-- The id and the sequence number of a message. -/
structure MessageIdentity where
  messageId : BitVec 64
  seqNo : BitVec 32
  session : ℕ
  fresh : Bool
deriving DecidableEq

/-- `MTPreparedMessage`, with the internal id of the outgoing message it was made from. -/
structure PreparedMessage extends MessageIdentity where
  messageInternalId : ℕ
  data : List UInt8
  salt : BitVec 64
  requiresConfirmation : Bool
  hasHighPriority : Bool
  inResponseToMessageId : BitVec 64
deriving DecidableEq

/-- `MTOutgoingMessage`; `messageId` is zero unless the message was prepared before. -/
structure OutgoingMessage where
  internalId : ℕ
  data : List UInt8
  messageId : BitVec 64
  messageSeqNo : BitVec 32
  session : ℕ
  requiresConfirmation : Bool
  needsQuickAck : Bool
  hasHighPriority : Bool
  inResponseToMessageId : BitVec 64
  dynamicDecorator : Option (List UInt8 → List PreparedMessage → Option (List UInt8))

/-- `initWithData:metadata:`. -/
def OutgoingMessage.init (internalId : ℕ) (data : List UInt8) : OutgoingMessage where
  internalId := internalId
  data := data
  messageId := 0
  messageSeqNo := 0
  session := 0
  requiresConfirmation := true
  needsQuickAck := false
  hasHighPriority := false
  inResponseToMessageId := 0
  dynamicDecorator := none

/-- `messageInternalIdToPreparedMessage[internalId]`, for the dictionary with these values. -/
def lookupPrepared (prepared : List PreparedMessage) (internalId : ℕ) :
    Option PreparedMessage :=
  prepared.reverse.find? fun m => m.messageInternalId = internalId

/-- `MTMessageTransaction`, without its blocks. -/
structure MessageTransaction where
  messagePayload : List OutgoingMessage
  requiresEncryption : Bool

/-- What is encrypted and handed to the transport. -/
inductive Payload where
  /-- `_dataForPlainMessage:`. -/
  | plain (message : PreparedMessage)
  /-- `_dataForEncryptedMessage:`. -/
  | encrypted (sessionId : BitVec 64) (message : PreparedMessage)
  /-- `_dataForEncryptedContainerWithMessages:`. -/
  | container (sessionId salt : BitVec 64) (identity : MessageIdentity)
      (messages : List PreparedMessage)
  | timeFixPing (sessionId salt : BitVec 64) (identity : MessageIdentity)
      (randomId : BitVec 64)
deriving DecidableEq

/-- The messages of the services that a payload carries. -/
def Payload.messages : Payload → List PreparedMessage
  | .plain message => [message]
  | .encrypted _ message => [message]
  | .container _ _ _ messages => messages
  | .timeFixPing _ _ _ _ => []

/-- The id and the sequence number of the payload itself, where they are its own. -/
def Payload.ownIdentity : Payload → Option MessageIdentity
  | .plain _ => none
  | .encrypted _ _ => none
  | .container _ _ identity _ => some identity
  | .timeFixPing _ _ identity _ => some identity

/-- Every id and sequence number in a payload. -/
def Payload.identities (p : Payload) : List MessageIdentity :=
  p.messages.map PreparedMessage.toMessageIdentity ++ p.ownIdentity.toList

/-- `MTTransportTransaction`, with what its completion block captures: the dictionary of
the whole transaction, and the internal id of its `msgs_ack` with the ids in it. -/
structure TransportTransaction where
  payload : Payload
  prepared : List PreparedMessage
  msgsAck : Option (ℕ × List (BitVec 64))
  needsQuickAck : Bool
  expectsDataInResponse : Bool
deriving DecidableEq

/-! ### What goes into a transaction -/

/-- What `transportReadyForTransaction:` uses of an `MTDatacenterAuthInfo`. -/
structure TransactionAuthInfo where
  authKey : List UInt8
  authSaltForMessageId : BitVec 64 → BitVec 64

/-- What a transaction is made from, besides the session. -/
structure TransactionContext where
  transportSpecificTransaction : Option MessageTransaction
  /-- What `mtProtoMessageTransaction:` of the services returns. -/
  serviceTransactions : List MessageTransaction
  forceConfirmations : Bool
  needsParityCorrection : Bool
  useUnauthorizedMode : Bool
  authInfo : Option TransactionAuthInfo

/-- `MTMaxContainerSize`. -/
def maxContainerSize : ℕ := 3 * 1024

/-- `MTMaxUnacknowledgedMessageSize`. -/
def maxUnacknowledgedMessageSize : ℤ := 1 * 1024 * 1024

/-- `MTMaxUnacknowledgedMessageCount`. -/
def maxUnacknowledgedMessageCount : ℕ := 64

/-- The transport's own transaction, where it is allowed. -/
def TransactionContext.transportTransactions (ctx : TransactionContext) :
    List MessageTransaction :=
  ctx.transportSpecificTransaction.toList.filter fun t =>
    !(t.requiresEncryption && ctx.useUnauthorizedMode) &&
      (!t.requiresEncryption || ctx.authInfo.isSome)

/-- The data of a `msgs_ack`. -/
def msgsAckData (messageIds : List (BitVec 64)) : List UInt8 :=
  toLE 4 0x62d6b459 ++ toLE 4 481674261 ++ toLE 4 messageIds.length ++
    messageIds.flatMap fun messageId => toLE 8 messageId.toNat

/-- The internal id of the next outgoing message: they come from a counter. -/
def TransactionContext.nextInternalId (ctx : TransactionContext) : ℕ :=
  (((ctx.transportTransactions ++ ctx.serviceTransactions).flatMap
    MessageTransaction.messagePayload).map OutgoingMessage.internalId).foldr max 0 + 1

/-- The ids of the `msgs_ack` that is added to the transaction, if one is. -/
def TransactionContext.confirmations (ctx : TransactionContext) (s : SessionInfo) :
    List (BitVec 64) :=
  let anyTransactionHasHighPriorityMessages :=
    ctx.serviceTransactions.any fun t =>
      t.messagePayload.any OutgoingMessage.hasHighPriority
  if ctx.forceConfirmations || !anyTransactionHasHighPriorityMessages ||
      s.scheduledMessageConfirmationsExceed maxUnacknowledgedMessageSize
        maxUnacknowledgedMessageCount
  then s.scheduled else []

/-- The `msgs_ack` of the transaction. -/
def TransactionContext.msgsAckMessage (ctx : TransactionContext) (s : SessionInfo) :
    OutgoingMessage :=
  { OutgoingMessage.init ctx.nextInternalId (msgsAckData (ctx.confirmations s)) with
    requiresConfirmation := false }

/-- What the completion block of the `msgs_ack` captures. -/
def TransactionContext.msgsAck (ctx : TransactionContext) (s : SessionInfo) :
    Option (ℕ × List (BitVec 64)) :=
  if ctx.confirmations s = [] then none else some (ctx.nextInternalId, ctx.confirmations s)

/-- `messageTransactions`. -/
def TransactionContext.messageTransactions (ctx : TransactionContext) (s : SessionInfo) :
    List MessageTransaction :=
  ctx.transportTransactions ++
    (if ctx.confirmations s = [] then [] else [⟨[ctx.msgsAckMessage s], false⟩]) ++
    ctx.serviceTransactions

/-! ### Preparing the messages -/

/-- The variables of the loop over the messages. -/
structure Batch where
  session : SessionInfo
  prepared : List PreparedMessage
  monotonityViolated : Bool
  needsQuickAck : Bool
  expectsDataInResponse : Bool

section Prepare

variable (globalTime : ℕ → BitVec 64) (ctx : TransactionContext)

/-- The id and the sequence number of an outgoing message: its own, or a fresh one. -/
def OutgoingMessage.identify (m : OutgoingMessage) (s : SessionInfo) :
    MessageIdentity × Bool × SessionInfo :=
  if m.messageId = 0 then
    let (d, s') := s.draw globalTime true m.requiresConfirmation
    (⟨d.messageId, d.seqNo, s.number, true⟩, d.monotonityViolated, s')
  else (⟨m.messageId, m.messageSeqNo, m.session, false⟩, false, s)

/-- One message of the loop. -/
def Batch.prepareMessage (messageSalt : BitVec 64) (b : Batch) (m : OutgoingMessage) : Batch :=
  let data :=
    match m.dynamicDecorator with
    | some decorator => (decorator m.data b.prepared).getD m.data
    | none => m.data
  let (identity, violated, session) := m.identify globalTime b.session
  if !(b.monotonityViolated || violated) || ctx.useUnauthorizedMode then
    { session := session
      monotonityViolated := b.monotonityViolated || violated
      needsQuickAck := b.needsQuickAck || m.needsQuickAck
      expectsDataInResponse := b.expectsDataInResponse || m.requiresConfirmation
      prepared := b.prepared ++
        [{ toMessageIdentity := identity
           messageInternalId := m.internalId
           data := data
           salt := messageSalt
           requiresConfirmation := m.requiresConfirmation
           hasHighPriority := m.hasHighPriority
           inResponseToMessageId := m.inResponseToMessageId }] }
  else { b with session := session, monotonityViolated := true }

/-- One message transaction of the loop. -/
def Batch.prepareTransaction (messageSalt : BitVec 64) (b : Batch) (t : MessageTransaction) :
    Batch :=
  let b := t.messagePayload.foldl (Batch.prepareMessage globalTime ctx messageSalt) b
  if ctx.needsParityCorrection && !b.expectsDataInResponse then { b with needsQuickAck := true }
  else b

end Prepare

/-! ### Cutting into payloads -/

/-- The order the messages are sent in: by id, but those of high priority first unless
`forceConfirmations` is set. -/
def orderMessages (forceConfirmations : Bool) (ms : List PreparedMessage) :
    List PreparedMessage :=
  let sorted := ms.insertionSort fun a b => a.messageId.sle b.messageId = true
  if forceConfirmations || ms.length = 1 then sorted
  else sorted.filter PreparedMessage.hasHighPriority ++
    sorted.filter fun m => !m.hasHighPriority

/-- The inner loop: messages go into the current container until it is full or the last
high-priority message is in. Returns the container, `currentlyProcessingHighPriority` and
the messages left. -/
def fillContainer (forceConfirmations : Bool) :
    Bool → ℕ → List PreparedMessage → List PreparedMessage →
      List PreparedMessage × Bool × List PreparedMessage
  | high, _, current, [] => (current, high, [])
  | high, size, current, m :: ms =>
      let breakContainer := !forceConfirmations && !m.hasHighPriority && high
      let high' := if forceConfirmations then high else m.hasHighPriority
      if size + m.data.length > maxContainerSize ∨ (breakContainer = true ∧ size ≠ 0) then
        if size = 0 then (current ++ [m], high', ms) else (current, high', m :: ms)
      else
        fillContainer forceConfirmations high' (size + m.data.length) (current ++ [m]) ms

/-- The outer loop: the messages of each payload. Every round takes at least one message
(`containers_flatten`). -/
def containers (forceConfirmations : Bool) :
    ℕ → Bool → List PreparedMessage → List (List PreparedMessage)
  | 0, _, _ => []
  | _ + 1, _, [] => []
  | rounds + 1, high, m :: ms =>
      let (current, high', rest) := fillContainer forceConfirmations high 0 [] (m :: ms)
      current :: containers forceConfirmations rounds high' rest

/-- `_dataForEncryptedContainerWithMessages:`; there is no data without a key. -/
def dataForEncryptedContainer (globalTime : ℕ → BitVec 64) (hasKey : Bool)
    (ms : List PreparedMessage) (s : SessionInfo) : Option Payload × SessionInfo :=
  let containerMessageIds :=
    (ms.filter PreparedMessage.requiresConfirmation).map fun m => m.messageId
  let (d, s') := s.draw globalTime false false
  let payload : Payload := .container s.sessionId ((ms.getLast?.map PreparedMessage.salt).getD 0)
    ⟨d.messageId, d.seqNo, s.number, true⟩ ms
  (if hasKey then some payload else none,
    if containerMessageIds = [] then s'
    else s'.addContainerMessageIdMapping d.messageId containerMessageIds)

/-- The payload of one container's worth of messages: a single message goes bare. -/
def encryptedPayload (globalTime : ℕ → BitVec 64) (hasKey : Bool) :
    List PreparedMessage → SessionInfo → Option Payload × SessionInfo
  | [], s => (none, s)
  | [m], s => (if hasKey then some (.encrypted s.sessionId m) else none, s)
  | ms, s => dataForEncryptedContainer globalTime hasKey ms s

/-- The payloads of all containers, in order. -/
def encryptedPayloads (globalTime : ℕ → BitVec 64) (hasKey : Bool) :
    List (List PreparedMessage) → SessionInfo → List Payload × SessionInfo
  | [], s => ([], s)
  | ms :: rest, s =>
      let (payload, s') := encryptedPayload globalTime hasKey ms s
      let (payloads, s'') := encryptedPayloads globalTime hasKey rest s'
      (payload.toList ++ payloads, s'')

/-! ### The whole transaction -/

/-- What `transportReadyForTransaction:` leaves behind: the session, the prepared messages,
whether the session is reset, and what the transport is given. Where it is given nothing,
the completion blocks are called with `nil`. -/
structure TransactionResult where
  session : SessionInfo
  prepared : List PreparedMessage
  monotonityViolated : Bool
  transactions : List TransportTransaction

section Transaction

variable (globalTime : ℕ → BitVec 64) (ctx : TransactionContext) (s : SessionInfo)

/-- `messageSalt`, looked up by a clock reading of its own. -/
def TransactionContext.messageSalt : BitVec 64 × SessionInfo :=
  if ctx.useUnauthorizedMode then (0, s)
  else
    let (messageId, s') := s.actualClientMessagId globalTime
    ((ctx.authInfo.map fun a => a.authSaltForMessageId messageId).getD 0, s')

/-- The loop over all messages of the transaction. -/
def TransactionContext.prepare : Batch :=
  let (messageSalt, s') := ctx.messageSalt globalTime s
  (ctx.messageTransactions s).foldl (Batch.prepareTransaction globalTime ctx messageSalt)
    ⟨s', [], false, false, false⟩

/-- `saltSetEmpty`. -/
def TransactionContext.saltSetEmpty : Bool :=
  !ctx.useUnauthorizedMode && (ctx.messageSalt globalTime s).1 = 0

/-- The payloads for the prepared messages of `b`. -/
def TransactionContext.payloads (b : Batch) : List Payload × SessionInfo :=
  let ms := orderMessages ctx.forceConfirmations b.prepared
  if ctx.useUnauthorizedMode then (ms.map Payload.plain, b.session)
  else
    encryptedPayloads globalTime (ctx.authInfo.any fun a => a.authKey ≠ [])
      (containers ctx.forceConfirmations ms.length false ms) b.session

/-- `transportReadyForTransaction:`, for the transport in use and when transactions may be
asked for. -/
def transportReadyForTransaction : TransactionResult :=
  let b := ctx.prepare globalTime s
  if b.monotonityViolated || ctx.saltSetEmpty globalTime s then
    ⟨b.session, b.prepared, b.monotonityViolated, []⟩
  else
    let (payloads, s') := ctx.payloads globalTime b
    ⟨s', b.prepared, false,
      payloads.map fun payload =>
        { payload := payload
          prepared := b.prepared
          msgsAck := ctx.msgsAck s
          needsQuickAck := b.needsQuickAck
          expectsDataInResponse := b.expectsDataInResponse }⟩

end Transaction

/-- `transportReadyForTransaction:` when the time or the salts are missing: a ping, whose
id is drawn without a flag. -/
def timeFixPing (globalTime : ℕ → BitVec 64) (authInfo : Option TransactionAuthInfo)
    (randomId : BitVec 64) (s : SessionInfo) : List TransportTransaction × SessionInfo :=
  let (d, s') := s.draw globalTime false false
  let payload : Payload := .timeFixPing s.sessionId
    ((authInfo.map fun a => a.authSaltForMessageId d.messageId).getD 0)
    ⟨d.messageId, d.seqNo, s.number, true⟩ randomId
  (if authInfo.any fun a => a.authKey ≠ [] then [⟨payload, [], none, false, true⟩] else [], s')

/-! ### The dictionary of prepared messages -/

/-- What the dictionary returns was put in under that internal id. -/
theorem mem_of_lookupPrepared {prepared : List PreparedMessage} {internalId : ℕ}
    {m : PreparedMessage} (h : lookupPrepared prepared internalId = some m) :
    m ∈ prepared ∧ m.messageInternalId = internalId := by
  unfold lookupPrepared at h
  refine ⟨List.mem_reverse.mp (List.mem_of_find?_eq_some h), ?_⟩
  simpa using List.find?_some h

/-! ### Every message goes into one payload -/

section Containers

variable (forceConfirmations : Bool)

/-- Ordering only permutes. -/
theorem orderMessages_perm (ms : List PreparedMessage) :
    (orderMessages forceConfirmations ms).Perm ms := by
  unfold orderMessages
  have hsort := List.perm_insertionSort
    (fun a b : PreparedMessage => a.messageId.sle b.messageId = true) ms
  dsimp only
  split
  · exact hsort
  · exact (List.filter_append_perm _ _).trans hsort

/-- The container and what is left make up what there was. -/
theorem fillContainer_append (high : Bool) (size : ℕ) (current ms : List PreparedMessage) :
    (fillContainer forceConfirmations high size current ms).1 ++
      (fillContainer forceConfirmations high size current ms).2.2 = current ++ ms := by
  induction ms generalizing high size current with
  | nil => rfl
  | cons m ms ih =>
      unfold fillContainer
      dsimp only
      split
      · split
        · simp
        · rfl
      · rw [ih]
        simp

/-- Filling never takes a message out again. -/
theorem length_le_fillContainer (high : Bool) (size : ℕ) (current ms : List PreparedMessage) :
    current.length ≤ (fillContainer forceConfirmations high size current ms).1.length := by
  induction ms generalizing high size current with
  | nil => exact le_rfl
  | cons m ms ih =>
      unfold fillContainer
      dsimp only
      split
      · split
        · simp
        · exact le_rfl
      · exact le_trans (by simp) (ih _ _ (current ++ [m]))

/-- An empty container takes the first message, whatever its size. -/
theorem length_lt_fillContainer (high : Bool) (m : PreparedMessage)
    (ms : List PreparedMessage) :
    0 < (fillContainer forceConfirmations high 0 [] (m :: ms)).1.length := by
  unfold fillContainer
  dsimp only
  split
  · simp
  · exact lt_of_lt_of_le (by simp) (length_le_fillContainer _ _ _ ([] ++ [m]) ms)

/-- **Every message goes into exactly one payload, in order.** -/
theorem containers_flatten (rounds : ℕ) (high : Bool) (ms : List PreparedMessage)
    (h : ms.length ≤ rounds) : (containers forceConfirmations rounds high ms).flatten = ms := by
  induction rounds generalizing high ms with
  | zero =>
      obtain rfl := List.eq_nil_of_length_eq_zero (Nat.le_zero.mp h)
      rfl
  | succ rounds ih =>
      cases ms with
      | nil => rfl
      | cons m ms =>
          have happend := fillContainer_append forceConfirmations high 0 [] (m :: ms)
          have hpos := length_lt_fillContainer forceConfirmations high m ms
          have hlen := congrArg List.length happend
          simp only [List.length_append, List.nil_append, List.length_cons] at hlen h
          have hrest := ih (fillContainer forceConfirmations high 0 [] (m :: ms)).2.1
            (fillContainer forceConfirmations high 0 [] (m :: ms)).2.2 (by omega)
          unfold containers
          dsimp only
          rw [List.flatten_cons, hrest]
          exact happend

end Containers

/-! ### What is prepared -/

section Prepared

variable {globalTime : ℕ → BitVec 64} {ctx : TransactionContext} {s : SessionInfo}

/-- The outgoing messages of a transaction. -/
def TransactionContext.outgoing (ctx : TransactionContext) (s : SessionInfo) :
    List OutgoingMessage :=
  (ctx.messageTransactions s).flatMap MessageTransaction.messagePayload

/-- The next internal id is larger than those of the messages already made. -/
theorem internalId_lt_nextInternalId {m : OutgoingMessage}
    (h : m ∈ (ctx.transportTransactions ++ ctx.serviceTransactions).flatMap
      MessageTransaction.messagePayload) : m.internalId < ctx.nextInternalId := by
  unfold TransactionContext.nextInternalId
  exact Nat.lt_succ_of_le (List.le_max_of_le' 0 (List.mem_map_of_mem h) le_rfl)

/-- An outgoing message is of the transport, of a service, or the `msgs_ack`. -/
theorem mem_outgoing {m : OutgoingMessage} (h : m ∈ ctx.outgoing s) :
    m ∈ (ctx.transportTransactions ++ ctx.serviceTransactions).flatMap
      MessageTransaction.messagePayload ∨ m = ctx.msgsAckMessage s := by
  unfold TransactionContext.outgoing TransactionContext.messageTransactions at h
  simp only [List.flatMap_append, List.mem_append] at h ⊢
  rcases h with (h | h) | h
  · exact .inl (.inl h)
  · split at h
    · simp at h
    · exact .inr (by simpa using h)
  · exact .inl (.inr h)

/-- **The induction rule of the loop over the messages.** -/
theorem prepare_induction {P : Batch → Prop} (ctx : TransactionContext) (s : SessionInfo)
    (hinit : P ⟨(ctx.messageSalt globalTime s).2, [], false, false, false⟩)
    (hquick : ∀ b, P b → P { b with needsQuickAck := true })
    (hstep : ∀ messageSalt b, ∀ m ∈ ctx.outgoing s, P b →
      P (b.prepareMessage globalTime ctx messageSalt m)) :
    P (ctx.prepare globalTime s) := by
  have hmessages : ∀ messageSalt (ms : List OutgoingMessage) b, ms ⊆ ctx.outgoing s → P b →
      P (ms.foldl (Batch.prepareMessage globalTime ctx messageSalt) b) := by
    intro messageSalt ms
    induction ms with
    | nil => exact fun b _ hb => hb
    | cons m ms ih =>
        intro b hms hb
        exact ih _ (fun x hx => hms (List.mem_cons_of_mem m hx))
          (hstep messageSalt b m (hms (List.mem_cons_self)) hb)
  have htransactions : ∀ messageSalt (ts : List MessageTransaction) b,
      ts ⊆ ctx.messageTransactions s → P b →
      P (ts.foldl (Batch.prepareTransaction globalTime ctx messageSalt) b) := by
    intro messageSalt ts
    induction ts with
    | nil => exact fun b _ hb => hb
    | cons t ts ih =>
        intro b hts hb
        refine ih _ (fun x hx => hts (List.mem_cons_of_mem t hx)) ?_
        have hP := hmessages messageSalt t.messagePayload b
          (fun m hm => List.mem_flatMap.mpr ⟨t, hts List.mem_cons_self, hm⟩) hb
        unfold Batch.prepareTransaction
        dsimp only
        split
        · exact hquick _ hP
        · exact hP
  exact htransactions _ _ _ (fun _ h => h) hinit

/-- The prepared message `p` was made from the outgoing message `m` in session `number`. -/
structure PreparedFrom (number : ℕ) (m : OutgoingMessage) (p : PreparedMessage) : Prop where
  internalId : p.messageInternalId = m.internalId
  data : m.dynamicDecorator = none → p.data = m.data
  session : p.session = if m.messageId = 0 then number else m.session
  fresh : p.fresh = decide (m.messageId = 0)
  identity : m.messageId ≠ 0 → p.messageId = m.messageId ∧ p.seqNo = m.messageSeqNo

@[simp] theorem messageSalt_number :
    (ctx.messageSalt globalTime s).2.number = s.number := by
  unfold TransactionContext.messageSalt
  split <;> rfl

@[simp] theorem identify_number (m : OutgoingMessage) :
    (m.identify globalTime s).2.2.number = s.number := by
  unfold OutgoingMessage.identify
  split <;> simp

@[simp] theorem prepareMessage_session (messageSalt : BitVec 64) (b : Batch)
    (m : OutgoingMessage) :
    (b.prepareMessage globalTime ctx messageSalt m).session =
      (m.identify globalTime b.session).2.2 := by
  unfold Batch.prepareMessage
  dsimp only
  split <;> rfl

/-- A message is prepared or not; in either case nothing prepared before is lost. -/
theorem mem_prepareMessage {messageSalt : BitVec 64} {b : Batch} {m : OutgoingMessage}
    {p : PreparedMessage} (h : p ∈ (b.prepareMessage globalTime ctx messageSalt m).prepared) :
    p ∈ b.prepared ∨ PreparedFrom b.session.number m p := by
  unfold Batch.prepareMessage at h
  dsimp only at h
  split at h
  · rw [List.mem_append, List.mem_singleton] at h
    rcases h with h | rfl
    · exact .inl h
    · refine .inr ⟨rfl, fun hd => by simp [hd], ?_, ?_, fun hm => ?_⟩
      · unfold OutgoingMessage.identify
        split <;> rfl
      · unfold OutgoingMessage.identify
        split <;> simp_all
      · unfold OutgoingMessage.identify
        rw [if_neg hm]
        exact ⟨rfl, rfl⟩
  · exact .inl h

/-- **What is prepared**, and in which session: each prepared message comes from an
outgoing one. -/
theorem mem_prepared {p : PreparedMessage} (h : p ∈ (ctx.prepare globalTime s).prepared) :
    ∃ m ∈ ctx.outgoing s, PreparedFrom s.number m p := by
  have hP : (ctx.prepare globalTime s).session.number = s.number ∧
      ∀ p ∈ (ctx.prepare globalTime s).prepared,
        ∃ m ∈ ctx.outgoing s, PreparedFrom s.number m p := by
    refine prepare_induction (P := fun b => b.session.number = s.number ∧
      ∀ p ∈ b.prepared, ∃ m ∈ ctx.outgoing s, PreparedFrom s.number m p) ctx s ?_ ?_ ?_
    · exact ⟨by simp, by simp⟩
    · exact fun b hb => hb
    · rintro messageSalt b m hm ⟨hnumber, hb⟩
      refine ⟨by simp [hnumber], fun p hp => ?_⟩
      rcases mem_prepareMessage hp with hp | hp
      · exact hb p hp
      · exact ⟨m, hm, hnumber ▸ hp⟩
  exact hP.2 p h

end Prepared

/-! ### What is handed to the transport -/

section Transactions

variable {globalTime : ℕ → BitVec 64} {ctx : TransactionContext} {s : SessionInfo}

/-- A payload carries the messages it was made for. -/
theorem encryptedPayload_messages {hasKey : Bool} {ms : List PreparedMessage} {p : Payload}
    (h : p ∈ (encryptedPayload globalTime hasKey ms s).1) : p.messages = ms := by
  unfold encryptedPayload at h
  split at h
  · simp at h
  · split at h
    · obtain rfl := Option.some.inj h
      rfl
    · simp at h
  · unfold dataForEncryptedContainer at h
    dsimp only at h
    split at h
    · obtain rfl := Option.some.inj h
      rfl
    · simp at h

/-- **The induction rule of the payloads**: what holds of the session is kept by making
one payload. -/
theorem encryptedPayloads_induction {P : SessionInfo → Prop} {hasKey : Bool}
    (hstep : ∀ ms s, P s → P (encryptedPayload globalTime hasKey ms s).2)
    (groups : List (List PreparedMessage)) (hs : P s) :
    P (encryptedPayloads globalTime hasKey groups s).2 := by
  induction groups generalizing s with
  | nil => exact hs
  | cons ms rest ih => exact ih (hstep ms s hs)

/-- Every payload is made for one of the groups. -/
theorem encryptedPayloads_messages {hasKey : Bool} {groups : List (List PreparedMessage)}
    {p : Payload} (h : p ∈ (encryptedPayloads globalTime hasKey groups s).1) :
    p.messages ∈ groups := by
  induction groups generalizing s with
  | nil => simp [encryptedPayloads] at h
  | cons ms rest ih =>
      simp only [encryptedPayloads, List.mem_append, Option.mem_toList] at h
      rcases h with h | h
      · rw [encryptedPayload_messages h]
        exact List.mem_cons_self
      · exact List.mem_cons_of_mem ms (ih h)

/-- The payloads carry prepared messages. -/
theorem mem_payloads {b : Batch} {p : Payload} (h : p ∈ (ctx.payloads globalTime b).1)
    {m : PreparedMessage} (hm : m ∈ p.messages) : m ∈ b.prepared := by
  rw [← (orderMessages_perm ctx.forceConfirmations b.prepared).mem_iff]
  unfold TransactionContext.payloads at h
  dsimp only at h
  split at h
  · obtain ⟨m', hm', rfl⟩ := List.mem_map.mp h
    obtain rfl := List.mem_singleton.mp hm
    exact hm'
  · have hgroup := List.mem_flatten.mpr ⟨_, encryptedPayloads_messages h, hm⟩
    rwa [containers_flatten _ _ _ _ le_rfl] at hgroup

/-- **What is handed to the transport**: payloads of prepared messages, each with the
dictionary and the `msgs_ack` of the whole transaction. -/
theorem mem_transactions {t : TransportTransaction}
    (h : t ∈ (transportReadyForTransaction globalTime ctx s).transactions) :
    t.prepared = (ctx.prepare globalTime s).prepared ∧ t.msgsAck = ctx.msgsAck s ∧
      ∀ m ∈ t.payload.messages, m ∈ t.prepared := by
  unfold transportReadyForTransaction at h
  dsimp only at h
  split at h
  · simp at h
  · obtain ⟨p, hp, rfl⟩ := List.mem_map.mp h
    exact ⟨rfl, rfl, fun m hm => mem_payloads hp hm⟩

@[simp] theorem transaction_prepared :
    (transportReadyForTransaction globalTime ctx s).prepared =
      (ctx.prepare globalTime s).prepared := by
  unfold transportReadyForTransaction
  dsimp only
  split <;> rfl

/-- What every draw keeps is kept by a transaction. -/
theorem transaction_induction {P : SessionInfo → Prop} (ctx : TransactionContext)
    (hread : ∀ s : SessionInfo, P s → P { s with readings := s.readings + 1 })
    (hdraw : ∀ (s : SessionInfo) checked messageIsMeaningful, P s →
      P (s.draw globalTime checked messageIsMeaningful).2)
    (hmap : ∀ (s : SessionInfo) containerMessageId childMessageIds, P s →
      P (s.addContainerMessageIdMapping containerMessageId childMessageIds)) (hs : P s) :
    P (transportReadyForTransaction globalTime ctx s).session := by
  have hprepare : P (ctx.prepare globalTime s).session := by
    refine prepare_induction (P := fun b => P b.session) ctx s ?_ (fun b hb => hb) ?_
    · unfold TransactionContext.messageSalt
      split
      · exact hs
      · exact hread s hs
    · intro messageSalt b m _ hb
      rw [prepareMessage_session]
      unfold OutgoingMessage.identify
      split
      · exact hdraw _ _ _ hb
      · exact hb
  unfold transportReadyForTransaction
  dsimp only
  split
  · exact hprepare
  · unfold TransactionContext.payloads
    dsimp only
    split
    · exact hprepare
    · refine encryptedPayloads_induction (fun ms s hs => ?_) _ hprepare
      unfold encryptedPayload
      split
      · exact hs
      · exact hs
      · unfold dataForEncryptedContainer
        dsimp only
        split
        · exact hdraw _ _ _ hs
        · exact hmap _ _ _ (hdraw _ _ _ hs)

@[simp] theorem transaction_number :
    (transportReadyForTransaction globalTime ctx s).session.number = s.number :=
  transaction_induction (P := fun s' => s'.number = s.number) ctx (fun _ h => h)
    (fun _ _ _ h => by simp [h]) (fun _ _ _ h => h) rfl

@[simp] theorem transaction_scheduled :
    (transportReadyForTransaction globalTime ctx s).session.scheduledMessageConfirmations =
      s.scheduledMessageConfirmations :=
  transaction_induction
    (P := fun s' => s'.scheduledMessageConfirmations = s.scheduledMessageConfirmations) ctx
    (fun _ h => h) (fun _ _ _ h => by simp [h]) (fun _ _ _ h => h) rfl

@[simp] theorem timeFixPing_session (authInfo : Option TransactionAuthInfo)
    (randomId : BitVec 64) :
    (timeFixPing globalTime authInfo randomId s).2 = (s.draw globalTime false false).2 := rfl

end Transactions

end Telegraph.MtProto
