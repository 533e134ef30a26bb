import Mathlib.Logic.Function.Basic
import Telegraph.Lib.Bytes
import Telegraph.Lib.Machine
import Telegraph.Secret.Keys

/-!
# The Rekey Handshake of a Secret Chat

Two clients of one secret chat agree on new keys by four service messages: `requestKey` from
`maybeRekeyPeerId:`, and `acceptKey`, `commitKey` and `abortKey` from the handlers of
`TGSecretIncomingQueueActor`. On each client the stage queue runs the handlers of a block of
messages one statement after the other, the database thread runs `maybeRekeyPeerId:`, and other
threads enqueue messages; a message is enqueued by reading the id of the current key first and
inserting the row later. The rows of one client reach the other in order, a block at a time.

What a client has drawn, accepted and stored so far is kept beside its state.
-/

open Bytes

namespace Telegraph.Secret

/-! ### Keys of an exchange -/

/-- What both clients take from `cachedEncryptionConfig`, and the hash of keys. -/
structure RekeyConfig where
  g : ℕ
  p : ℕ
  sha1 : List UInt8 → List UInt8

/-- `MTExp`, on the numbers that the bytes denote. -/
def MTExp (base exponent modulus : ℕ) : ℕ :=
  base ^ exponent % modulus

/-- `MTCheckIsSafeGAOrB`. -/
def MTCheckIsSafeGAOrB (gAOrB p : ℕ) : Bool :=
  gAOrB > 1 && gAOrB + 1 < p

namespace RekeyConfig

/-- The bytes of a key: the number with zeros in front, up to 256 bytes. -/
def keyBytes (number : ℕ) : List UInt8 :=
  (toLE 256 number).reverse

/-- The last eight bytes of the hash of a key. -/
def keyFingerprint (config : RekeyConfig) (key : List UInt8) : BitVec 64 :=
  BitVec.ofNat 64 (leNat ((config.sha1 key).drop ((config.sha1 key).length - 8)))

end RekeyConfig

/-! ### One client -/

/-- The messages of the handshake; `noop` and all others are `other`. -/
inductive RekeyMessage where
  | requestKey (exchangeId : ℤ) (gA : ℕ)
  | acceptKey (exchangeId : ℤ) (gB : ℕ) (keyFingerprint : BitVec 64)
  | commitKey (exchangeId : ℤ) (keyFingerprint : BitVec 64)
  | abortKey (exchangeId : ℤ)
  | other
deriving DecidableEq

/-- `TGEncryptedConversationData`, as far as the handshake goes. -/
structure EncryptedConversationData where
  encryptedConversationId : ℤ
  keyFingerprint : BitVec 64
  currentRekeyExchangeId : ℤ := 0
  currentRekeyIsInitiatedByLocalClient : Bool := false
  currentRekeyNumber : Option ℕ := none
  currentRekeyKey : Option (List UInt8) := none
  currentRekeyKeyId : BitVec 64 := 0
deriving DecidableEq

/-- The exchange is over. -/
def EncryptedConversationData.cleared (data : EncryptedConversationData) :
    EncryptedConversationData :=
  { data with
    currentRekeyExchangeId := 0
    currentRekeyIsInitiatedByLocalClient := false
    currentRekeyNumber := none
    currentRekeyKey := none
    currentRekeyKeyId := 0 }

/-- The key of an exchange. -/
structure ExchangedKey where
  exchangeId : ℤ
  key : List UInt8
  keyFingerprint : BitVec 64
deriving DecidableEq

/-- What a handler on the stage queue has still to do. A row that is to be inserted may bring a
key that is stored with the number of the row. -/
inductive HandlerStep where
  | write (data : EncryptedConversationData)
  | readKey (message : RekeyMessage) (key : Option ExchangedKey)
  | insert (keyId : BitVec 64) (message : RekeyMessage) (key : Option ExchangedKey)
  | peerNextSeqOut (key : ExchangedKey)
  | storeKey (key : ExchangedKey) (firstSeqOut : ℤ)
  | markHandshakeAsAborted (exchangeId : ℤ)
deriving DecidableEq

/-- A row of the outgoing table; its number is its place among all rows. -/
structure RekeyRow where
  keyId : BitVec 64
  seqIn : ℕ
  message : RekeyMessage
deriving DecidableEq

/-- A key that was stored, with the number of the rows that were there. -/
structure StoredKey where
  exchanged : ExchangedKey
  firstSeqOut : ℤ
  rows : ℕ
deriving DecidableEq

/-- A client of the chat. `enqueues` are the messages that other threads are about to enqueue,
each with the key id that was read for it. -/
structure RekeyClient where
  data : EncryptedConversationData
  keys : List EncryptionKeyData
  outgoing : List RekeyRow := []
  seqIn : ℕ := 0
  confirmed : ℕ := 0
  actions : List RekeyMessage := []
  handler : List HandlerStep := []
  enqueues : List (RekeyMessage × Option (BitVec 64)) := []
  drawn : List (ℤ × ℕ) := []
  accepted : List (ℤ × ℕ) := []
  stored : List StoredKey := []
deriving DecidableEq

/-- `enqueueOutgoingServiceMessageForPeerId:…` with the key id 0, if the layer of the peer has
the message. -/
def enqueueOutgoingServiceMessage (serializes : Bool) (message : RekeyMessage) :
    List HandlerStep :=
  if serializes then [.readKey message none] else []

/-- `abortHandshake:`. -/
def abortHandshake (serializes : Bool) (exchangeId : ℤ) : List HandlerStep :=
  enqueueOutgoingServiceMessage serializes (.abortKey exchangeId) ++
    [.markHandshakeAsAborted exchangeId]

namespace RekeyClient

/-- A row is inserted. -/
def insertRow (client : RekeyClient) (keyId : BitVec 64) (message : RekeyMessage) :
    RekeyClient :=
  { client with outgoing := client.outgoing ++ [⟨keyId, client.seqIn, message⟩] }

/-- A key is stored, unless one with its fingerprint is found. -/
def storeKey (client : RekeyClient) (key : ExchangedKey) (firstSeqOut : ℤ) : RekeyClient :=
  { client with
    keys := storeEncryptionKey client.keys key.key key.keyFingerprint firstSeqOut
    stored :=
      if (encryptionKeyForConversationId client.keys key.keyFingerprint).1 = none then
        client.stored ++ [⟨key, firstSeqOut, client.outgoing.length⟩]
      else client.stored }

/-- `maybeRekeyPeerId:`, with the id and the number that are drawn. The message is enqueued from
the database thread. -/
def maybeRekey (config : RekeyConfig) (client : RekeyClient) (exchangeId : ℤ) (a : ℕ)
    (configured serializes : Bool) : RekeyClient :=
  if client.data.encryptedConversationId ≠ 0 && client.data.keyFingerprint ≠ 0 &&
      client.data.currentRekeyExchangeId = 0 && configured then
    let gA := MTExp config.g a config.p
    if !MTCheckIsSafeGAOrB gA config.p then client
    else
      { client with
        data :=
          { client.data with
            currentRekeyExchangeId := exchangeId
            currentRekeyIsInitiatedByLocalClient := true
            currentRekeyNumber := some a }
        enqueues :=
          if serializes then client.enqueues ++ [(.requestKey exchangeId gA, none)]
          else client.enqueues
        drawn := client.drawn ++ [(exchangeId, a)] }
  else client

/-- Whether a request is accepted, another exchange aborted for it. -/
def acceptsRequest (client : RekeyClient) (exchangeId : ℤ) : Bool :=
  if client.data.currentRekeyExchangeId ≠ 0 then
    client.data.currentRekeyIsInitiatedByLocalClient &&
      !(client.data.currentRekeyExchangeId > exchangeId)
  else true

/-- The handler of `requestKey`, with the number `b` that is drawn. -/
def handleRequestKey (config : RekeyConfig) (client : RekeyClient)
    (configured serializes : Bool) (b : ℕ) (exchangeId : ℤ) (gA : ℕ) : RekeyClient :=
  if client.acceptsRequest exchangeId then
    if configured then
      if !MTCheckIsSafeGAOrB gA config.p then
        { client with handler := abortHandshake serializes exchangeId }
      else
        let gB := MTExp config.g b config.p
        let key := RekeyConfig.keyBytes (MTExp gA b config.p)
        let keyId := config.keyFingerprint key
        { client with
          handler :=
            .write { client.data with
              currentRekeyExchangeId := exchangeId
              currentRekeyKey := some key
              currentRekeyKeyId := keyId
              currentRekeyIsInitiatedByLocalClient := false } ::
            enqueueOutgoingServiceMessage serializes (.acceptKey exchangeId gB keyId)
          accepted := client.accepted ++ [(exchangeId, b)] }
    else
      { client with
        handler := enqueueOutgoingServiceMessage serializes (.abortKey exchangeId) }
  else if client.data.currentRekeyIsInitiatedByLocalClient then
    { client with handler := enqueueOutgoingServiceMessage serializes (.abortKey exchangeId) }
  else client

/-- The handler of `acceptKey`. -/
def handleAcceptKey (config : RekeyConfig) (client : RekeyClient)
    (configured serializes : Bool) (exchangeId : ℤ) (gB : ℕ) (keyFingerprint : BitVec 64) :
    RekeyClient :=
  if client.data.currentRekeyExchangeId = exchangeId &&
      client.data.currentRekeyIsInitiatedByLocalClient && configured then
    if !MTCheckIsSafeGAOrB gB config.p then
      { client with handler := abortHandshake serializes exchangeId }
    else
      let key := RekeyConfig.keyBytes
        (MTExp gB (client.data.currentRekeyNumber.getD 0) config.p)
      let keyId := config.keyFingerprint key
      if keyId = keyFingerprint then
        { client with
          handler :=
            (if serializes then
              [.readKey (.commitKey exchangeId keyId) (some ⟨exchangeId, key, keyId⟩),
                .readKey .other none]
            else []) ++ [.write client.data.cleared] }
      else { client with handler := abortHandshake serializes exchangeId }
  else client

/-- The handler of `commitKey`. -/
def handleCommitKey (client : RekeyClient) (serializes : Bool) (exchangeId : ℤ)
    (keyFingerprint : BitVec 64) : RekeyClient :=
  if client.data.currentRekeyExchangeId = exchangeId &&
      !client.data.currentRekeyIsInitiatedByLocalClient &&
      client.data.currentRekeyKeyId = keyFingerprint then
    { client with
      handler :=
        .peerNextSeqOut ⟨exchangeId, client.data.currentRekeyKey.getD [],
          client.data.currentRekeyKeyId⟩ ::
        enqueueOutgoingServiceMessage serializes .other ++ [.write client.data.cleared] }
  else client

/-- One message of a block. -/
def handle (config : RekeyConfig) (client : RekeyClient) (configured serializes : Bool)
    (b : ℕ) : RekeyMessage → RekeyClient
  | .requestKey exchangeId gA =>
      client.handleRequestKey config configured serializes b exchangeId gA
  | .acceptKey exchangeId gB keyFingerprint =>
      client.handleAcceptKey config configured serializes exchangeId gB keyFingerprint
  | .commitKey exchangeId keyFingerprint =>
      client.handleCommitKey serializes exchangeId keyFingerprint
  | .abortKey exchangeId => { client with handler := [.markHandshakeAsAborted exchangeId] }
  | .other => client

/-- The next statement of a handler. -/
def runHandler (client : RekeyClient) : RekeyClient :=
  match client.handler with
  | [] => client
  | .write data :: rest => { client with data := data, handler := rest }
  | .readKey message key :: rest =>
      { client with handler := .insert (currentKeyId client.keys) message key :: rest }
  | .insert keyId message none :: rest =>
      { client with handler := rest }.insertRow keyId message
  | .insert keyId message (some key) :: rest =>
      { client with
        handler := .storeKey key client.outgoing.length :: rest }.insertRow keyId message
  | .peerNextSeqOut key :: rest =>
      { client with handler := .storeKey key client.outgoing.length :: rest }
  | .storeKey key firstSeqOut :: rest =>
      { client with handler := rest }.storeKey key firstSeqOut
  | .markHandshakeAsAborted exchangeId :: rest =>
      if client.data.currentRekeyExchangeId = exchangeId then
        { client with handler := .write client.data.cleared :: rest }
      else { client with handler := rest }

/-- A block takes the next rows of the peer: their number and what they confirm is stored and
the keys that this makes needless are discarded. -/
def receive (client : RekeyClient) (rows : List RekeyRow) : RekeyClient :=
  let maxSeqIn := rows.foldl (fun seqIn row => max seqIn row.seqIn) 0
  let client := { client with
    seqIn := client.seqIn + rows.length
    actions := rows.map (·.message) }
  if maxSeqIn > 0 then
    { client with
      confirmed := max client.confirmed maxSeqIn
      keys := discardEncryptionKeys client.keys maxSeqIn }
  else client

end RekeyClient

/-! ### Both clients -/

/-- The two clients of a chat. -/
inductive Participant where
  | creator
  | invited
deriving DecidableEq

/-- The other one. -/
def Participant.peer : Participant → Participant
  | creator => invited
  | invited => creator

/-- The state of both. -/
abbrev RekeyChat := Participant → RekeyClient

/-- What can happen at a client. The database thread draws an exchange, another thread comes
further with a message, or the stage queue begins a block, begins with the next message of it
or goes on with a handler. -/
inductive RekeyEvent where
  | maybeRekey (x : Participant) (exchangeId : ℤ) (a : ℕ) (configured serializes : Bool)
  | enqueue (x : Participant)
  | readKey (x : Participant) (i : ℕ)
  | insert (x : Participant) (i : ℕ)
  | receive (x : Participant) (n : ℕ)
  | handle (x : Participant) (configured serializes : Bool) (b : ℕ)
  | runHandler (x : Participant)

namespace RekeyChat

open Function

/-- One event. -/
def step (config : RekeyConfig) (s : RekeyChat) : RekeyEvent → RekeyChat
  | .maybeRekey x exchangeId a configured serializes =>
      update s x ((s x).maybeRekey config exchangeId a configured serializes)
  | .enqueue x => update s x { s x with enqueues := (s x).enqueues ++ [(.other, none)] }
  | .readKey x i =>
      match (s x).enqueues[i]? with
      | some (message, none) =>
          update s x { s x with
            enqueues := (s x).enqueues.set i (message, some (currentKeyId (s x).keys)) }
      | _ => s
  | .insert x i =>
      match (s x).enqueues[i]? with
      | some (message, some keyId) =>
          update s x ({ s x with
            enqueues := (s x).enqueues.eraseIdx i }.insertRow keyId message)
      | _ => s
  | .receive x n =>
      if (s x).handler = [] ∧ (s x).actions = [] then
        update s x ((s x).receive (((s x.peer).outgoing.drop (s x).seqIn).take n))
      else s
  | .handle x configured serializes b =>
      if (s x).handler = [] then
        match (s x).actions with
        | message :: rest =>
            update s x ({ s x with actions := rest }.handle config configured serializes b
              message)
        | [] => s
      else s
  | .runHandler x => update s x (s x).runHandler

/-- A chat with its first key and no message. -/
def start (data : EncryptedConversationData) (key : List UInt8) (keyFingerprint : BitVec 64) :
    RekeyChat := fun _ =>
  { data := data.cleared
    keys := [⟨keyFingerprint, key, 0⟩]
    stored := [⟨⟨0, key, keyFingerprint⟩, 0, 0⟩] }

end RekeyChat

end Telegraph.Secret
