import Mathlib.Data.List.ReduceOption
import Telegraph.MtProto.Transaction

/-!
# Quick Acknowledgements

The server may acknowledge a payload before it has worked on it, by the first bits of the hash that
the message key is taken from. `MTProto` notes these bits for the messages of every payload that it
encrypts, and a request hears of the acknowledgement whose bits its context has. The routine that
encrypts a container takes the bits from the hash; the one that encrypts a single message does so
only in the branch for the first version of the protocol, and leaves 0 otherwise.

The hash is a parameter, and so is what the random generator gives for the padding. The ciphers are
left out.

## Main results

* `quickAckId_eq_iff`: the bits that are noted are those of the hash for a container, or if these
  are 0.
* `quickAcks_iff`: **when the acknowledgements of a transaction find their requests.**
-/

open Bytes

namespace Telegraph.MtProto

/-! ### Encrypting -/

/-- What `paddedData:` is given by the random generator. -/
structure PaddingSource where
  randomBytes : ℕ → UInt8
  /-- `arc4random_uniform`. -/
  uniform : ℕ → ℕ

/-- `paddedData:`. The first two loops take twelve bytes and as many as are missing to a multiple of
16; `remainingCount` is counted down to a multiple of 16. -/
def paddedData (source : PaddingSource) (data : List UInt8) : List UInt8 :=
  let take := 12 + (16 - (data.length + 12) % 16) % 16
  let remainingCount := source.uniform (72 + 1 - take) / 16 * 16
  data ++ (List.range (take + remainingCount)).map source.randomBytes

/-- The data of a `msg_container`. -/
def containerData (messages : List PreparedMessage) : List UInt8 :=
  toLE 4 0x73f1f8dc ++ toLE 4 messages.length ++
    messages.flatMap fun m =>
      toLE 8 m.messageId.toNat ++ toLE 4 m.seqNo.toNat ++ toLE 4 m.data.length ++ m.data

/-- What is padded and encrypted of a payload. Plain payloads are not encrypted, and no quick-ack id
is asked for with a ping. -/
def Payload.decryptedData : Payload → Option (List UInt8)
  | .plain _ => none
  | .encrypted sessionId m =>
      some (toLE 8 m.salt.toNat ++ toLE 8 sessionId.toNat ++ toLE 8 m.messageId.toNat ++
        toLE 4 m.seqNo.toNat ++ toLE 4 m.data.length ++ m.data)
  | .container sessionId salt identity messages =>
      some (toLE 8 salt.toNat ++ toLE 8 sessionId.toNat ++ toLE 8 identity.messageId.toNat ++
        toLE 4 identity.seqNo.toNat ++ toLE 4 (containerData messages).length ++
        containerData messages)
  | .timeFixPing _ _ _ _ => none

/-- The first four bytes of a hash without the top bit. -/
def hashPrefix (msgKeyLarge : List UInt8) : BitVec 32 :=
  BitVec.ofNat 32 (leNat (msgKeyLarge.take 4)) &&& 0x7fffffff

/-- The value of `quickAckId` after `_dataForEncryptedMessage:` or
`_dataForEncryptedContainerWithMessages:`, which was 0 before. -/
def Payload.quickAckId (msgKeyLarge : List UInt8) : Payload → BitVec 32
  | .container _ _ _ _ => hashPrefix msgKeyLarge
  | _ => 0

/-- An encrypted payload with its hash and what stands for it in `quickAckIdsByPayload`. -/
structure SentPayload where
  payload : Payload
  msgKeyLarge : List UInt8
  quickAckId : BitVec 32
deriving DecidableEq

/-- The part of the two routines that the quick-ack id depends on. -/
def Payload.send (sha256 : List UInt8 → List UInt8) (authKey : List UInt8)
    (source : PaddingSource) (p : Payload) : Option SentPayload :=
  p.decryptedData.map fun data =>
    let msgKeyLarge := sha256 ((authKey.drop 88).take 32 ++ paddedData source data)
    ⟨p, msgKeyLarge, p.quickAckId msgKeyLarge⟩

/-- The encrypted payloads of a transaction; each draws its own padding. -/
def sentPayloads (sha256 : List UInt8 → List UInt8) (authKey : List UInt8)
    (source : ℕ → PaddingSource) (ts : List TransportTransaction) : List SentPayload :=
  (ts.mapIdx fun i t => t.payload.send sha256 authKey (source i)).reduceOption

/-! ### Acknowledgements -/

/-- `messageInternalIdsByPayload[i]`. -/
def SentPayload.messageInternalIds (p : SentPayload) : List ℕ :=
  p.payload.messages.map PreparedMessage.messageInternalId

/-- `messageInternalIdToQuickAckId`, once the transport has accepted all payloads. -/
def messageInternalIdToQuickAckId (sent : List SentPayload) : List (ℕ × BitVec 32) :=
  sent.flatMap fun p => p.messageInternalIds.map fun internalId => (internalId, p.quickAckId)

/-- `mtProto:receivedQuickAck:`, for contexts that have what the dictionary says: the messages whose
requests hear of it. -/
def receivedQuickAck (contexts : List (ℕ × BitVec 32)) (quickAckId : BitVec 32) : List ℕ :=
  (contexts.filter fun context => context.2 = quickAckId).map Prod.fst

/-- What is noted for the messages of a payload are the first bits of its hash, and a quick ack is
heard of by exactly the messages of the payloads with these bits. -/
structure QuickAcksAgree (sent : List SentPayload) : Prop where
  noted : ∀ p ∈ sent, ∀ context ∈ messageInternalIdToQuickAckId [p],
    context.2 = hashPrefix p.msgKeyLarge
  heard : ∀ quickAckId, receivedQuickAck (messageInternalIdToQuickAckId sent) quickAckId =
    (sent.filter fun p => hashPrefix p.msgKeyLarge = quickAckId).flatMap
      SentPayload.messageInternalIds

/-- The payload carries a container. -/
def Payload.IsContainer : Payload → Prop
  | .container _ _ _ _ => True
  | _ => False

section Agree

variable {sha256 : List UInt8 → List UInt8} {authKey : List UInt8} {source : ℕ → PaddingSource}
  {ts : List TransportTransaction} {p : SentPayload}

/-- What is known of an encrypted payload: it has a message or is a container, and what is noted
for it. -/
theorem mem_sentPayloads (h : p ∈ sentPayloads sha256 authKey source ts) :
    (p.payload.IsContainer ∧ p.quickAckId = hashPrefix p.msgKeyLarge) ∨
      (¬p.payload.IsContainer ∧ p.quickAckId = 0 ∧ p.messageInternalIds ≠ []) := by
  obtain ⟨i, hi, hsend⟩ := List.mem_mapIdx.mp (List.reduceOption_mem_iff.mp h)
  rw [Payload.send, Option.map_eq_some_iff] at hsend
  obtain ⟨data, hdata, rfl⟩ := hsend
  cases hp : ts[i].payload with
  | plain m => simp [hp, Payload.decryptedData] at hdata
  | encrypted sessionId m =>
      exact .inr ⟨id, rfl, by simp [SentPayload.messageInternalIds, Payload.messages]⟩
  | container sessionId salt identity ms => exact .inl ⟨trivial, rfl⟩
  | timeFixPing sessionId salt identity randomId => simp [hp, Payload.decryptedData] at hdata

/-- **What is noted for a payload** are the bits of its hash for a container, or if these are 0. -/
theorem quickAckId_eq_iff (h : p ∈ sentPayloads sha256 authKey source ts) :
    p.quickAckId = hashPrefix p.msgKeyLarge ↔
      p.payload.IsContainer ∨ hashPrefix p.msgKeyLarge = 0 := by
  rcases mem_sentPayloads h with ⟨hcontainer, hid⟩ | ⟨hsingle, hid, -⟩
  · exact iff_of_true hid (.inl hcontainer)
  · rw [hid, eq_comm]
    exact ⟨.inr, fun hor => hor.resolve_left hsingle⟩

theorem receivedQuickAck_append (contexts others : List (ℕ × BitVec 32)) (quickAckId : BitVec 32) :
    receivedQuickAck (contexts ++ others) quickAckId =
      receivedQuickAck contexts quickAckId ++ receivedQuickAck others quickAckId := by
  rw [receivedQuickAck, List.filter_append, List.map_append]
  rfl

/-- With the right bits noted, a quick ack finds its messages. -/
theorem heard_of_noted {sent : List SentPayload}
    (h : ∀ p ∈ sent, p.quickAckId = hashPrefix p.msgKeyLarge) (quickAckId : BitVec 32) :
    receivedQuickAck (messageInternalIdToQuickAckId sent) quickAckId =
      (sent.filter fun p => hashPrefix p.msgKeyLarge = quickAckId).flatMap
        SentPayload.messageInternalIds := by
  induction sent with
  | nil => rfl
  | cons p sent ih =>
      have hp := h p List.mem_cons_self
      have hrest := ih fun p hp => h p (List.mem_cons_of_mem _ hp)
      rw [messageInternalIdToQuickAckId, List.flatMap_cons, ← messageInternalIdToQuickAckId,
        receivedQuickAck_append, hrest, receivedQuickAck]
      by_cases hbits : hashPrefix p.msgKeyLarge = quickAckId
      · rw [List.filter_cons_of_pos (by simpa using hbits), List.flatMap_cons,
          List.filter_eq_self.mpr, List.map_map]
        · simp [Function.comp_def]
        · intro context hcontext
          obtain ⟨internalId, -, rfl⟩ := List.mem_map.mp hcontext
          simpa [hp] using hbits
      · rw [List.filter_cons_of_neg (by simpa using hbits), List.filter_eq_nil_iff.mpr]
        · rfl
        · intro context hcontext
          obtain ⟨internalId, -, rfl⟩ := List.mem_map.mp hcontext
          simpa [hp] using hbits

/-- **Quick acknowledgements.** For the payloads of a transaction the noted bits are those of the
hashes, and every quick ack finds its messages, exactly if each payload is a container or has a hash
whose first bits are 0. -/
theorem quickAcks_iff (sha256 : List UInt8 → List UInt8) (globalTime : ℕ → BitVec 64)
    (ctx : TransactionContext) (s : SessionInfo) (source : ℕ → PaddingSource) :
    let sent := sentPayloads sha256 ((ctx.authInfo.map TransactionAuthInfo.authKey).getD []) source
      (transportReadyForTransaction globalTime ctx s).transactions
    QuickAcksAgree sent ↔
      ∀ p ∈ sent, p.payload.IsContainer ∨ hashPrefix p.msgKeyLarge = 0 := by
  intro sent
  constructor
  · intro h p hp
    refine (quickAckId_eq_iff hp).mp ?_
    rcases mem_sentPayloads hp with ⟨-, hid⟩ | ⟨-, -, hne⟩
    · exact hid
    · obtain ⟨internalId, hmem⟩ := List.exists_mem_of_ne_nil _ hne
      refine h.noted p hp (internalId, p.quickAckId) ?_
      rw [messageInternalIdToQuickAckId, List.flatMap_singleton]
      exact List.mem_map_of_mem hmem
  · intro h
    have hnoted : ∀ p ∈ sent, p.quickAckId = hashPrefix p.msgKeyLarge :=
      fun p hp => (quickAckId_eq_iff hp).mpr (h p hp)
    refine ⟨fun p hp context hcontext => ?_, heard_of_noted hnoted⟩
    rw [messageInternalIdToQuickAckId, List.flatMap_singleton] at hcontext
    obtain ⟨internalId, -, rfl⟩ := List.mem_map.mp hcontext
    exact hnoted p hp

end Agree

/-- A transaction of one message of four bytes. -/
def oneMessage : TransactionContext where
  transportSpecificTransaction := none
  serviceTransactions := [⟨[OutgoingMessage.init 1 [1, 2, 3, 4]], false⟩]
  forceConfirmations := false
  needsParityCorrection := false
  useUnauthorizedMode := false
  authInfo := some ⟨List.replicate 256 1, fun _ => 1⟩

/-- What is hashed of the payload of `oneMessage`, with a padding of zeros. -/
def oneMessageHashed : List UInt8 :=
  List.replicate 32 1 ++ toLE 8 1 ++ toLE 8 5 ++ toLE 8 8 ++ toLE 4 1 ++ toLE 4 4 ++
    [1, 2, 3, 4] ++ List.replicate 12 0

/-- The SHA-256 of `oneMessageHashed`, and zeros for all else. -/
def oneMessageSha256 (data : List UInt8) : List UInt8 :=
  if data = oneMessageHashed then
    [25, 20, 9, 6, 218, 208, 45, 166, 89, 233, 187, 203, 105, 46, 173, 208, 32, 101, 101, 133, 186,
      43, 26, 236, 74, 141, 227, 38, 54, 154, 156, 143]
  else List.replicate 32 0

/-- For a message that is sent alone 0 is noted, and the first bits of the hash are `0x06091419`. -/
theorem not_quickAcksAgree_single :
    ¬QuickAcksAgree (sentPayloads oneMessageSha256 (List.replicate 256 1)
      (fun _ => ⟨fun _ => 0, fun _ => 0⟩)
      (transportReadyForTransaction (fun n => 4 * (n + 1 : BitVec 64)) oneMessage
        (.init 5 0 0)).transactions) := by
  intro h
  have hsent : ∃ p ∈ sentPayloads oneMessageSha256 (List.replicate 256 1)
      (fun _ => ⟨fun _ => 0, fun _ => 0⟩) (transportReadyForTransaction
        (fun n => 4 * (n + 1 : BitVec 64)) oneMessage (.init 5 0 0)).transactions,
      ∃ context ∈ messageInternalIdToQuickAckId [p], context.2 ≠ hashPrefix p.msgKeyLarge := by
    decide +kernel
  obtain ⟨p, hp, context, hcontext, hne⟩ := hsent
  exact hne (h.noted p hp context hcontext)

end Telegraph.MtProto
