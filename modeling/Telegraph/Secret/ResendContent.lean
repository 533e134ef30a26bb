import Telegraph.Secret.Client
import Telegraph.Secret.Envelope
import Telegraph.Secret.OutgoingSent

/-!
# The Content of a Resend

`requestForAction:…` sends a stored message only if an executing send actor waits for the number
of its row; else it takes the message for one that was cancelled, and sends a deletion of it. A
row to be sent once more is a copy in another table, with a number of its own that no actor was
given: unless an actor waits for that number by chance, the peer gets a deletion where it had
asked for the message. The key, too, is looked up when the request is made.

The send actors begin and end at any time, keys are stored and discarded, and the client is
restarted, which loses what waits and what is executing.

## Main results

* `madeFromRows_step`: every message is made from its row, by what was known then.
* `messageFor_eq_iff`: when a row is sent with its own content.
* `resend_carriesOriginal`: **exactly when the resends of a run carry the original**.
* `resend_deletion`: a message that has been delivered is sent once more as its deletion.
-/

open Bytes Machine

namespace Telegraph.Secret

/-! ### The message of a request -/

/-- What is encrypted for a request. The numbers are sent from layer 17 on. -/
structure SentMessage where
  layer : ℕ
  seqIn : ℤ
  seqOut : ℤ
  keyId : BitVec 64
  randomId : ℤ
  actionData : List UInt8
deriving DecidableEq

/-- The bytes given to `encryptMessage:key:keyId:`. -/
def SentMessage.serialized (message : SentMessage) (isCreator : Bool) (randomBytes : List UInt8) :
    List UInt8 :=
  if message.layer ≥ 17 then
    envelope isCreator randomBytes message.layer message.seqIn message.seqOut message.actionData
  else message.actionData

/-- The bytes of a `long`. -/
def longBytes (v : ℤ) : List UInt8 := toLE 8 (v % 18446744073709551616).toNat

/-- `decryptedMessageActionDeleteMessages`, serialized. -/
def deleteMessagesAction (randomIds : List ℤ) : List UInt8 :=
  int32LE 0x65614304 ++ (int32LE 0x1cb5c415 ++ (int32LE randomIds.length ++
    randomIds.flatMap longBytes))

/-- `decryptedServiceMessageActionWithLayer:deleteMessagesWithRandomIds:randomId:`. The 15 random
bytes are part of the message in layer 1. -/
def deleteMessagesData (randomBytes : List UInt8) (layer : ℕ) (randomIds : List ℤ)
    (randomId : ℤ) : Option (List UInt8) :=
  if layer = 1 then
    some (int32LE 0xaa48327d ++ (longBytes randomId ++ (15 :: randomBytes ++
      deleteMessagesAction randomIds)))
  else if layer ∈ [17, 20, 23, 46, 66] then
    some (int32LE 0x73164160 ++ (longBytes randomId ++ deleteMessagesAction randomIds))
  else none

/-- `waitsForActionWithId:` of a send actor with this `_actionId`. -/
def waitsForActionWithId (_actionId actionId : ℕ) : Bool := _actionId == actionId

/-- `actionData`: a service message is always sent as it is stored. -/
def actionDataFor (executingActors : List ℕ) (randomBytes : List UInt8)
    (row : Row OutgoingActionWithSeq) : Option (List UInt8) :=
  if row.value.action.service then some row.value.action.data
  else if executingActors.any fun _actionId => waitsForActionWithId _actionId row.id then
    some row.value.action.data
  else deleteMessagesData randomBytes row.value.action.layer [row.value.action.randomId]
    row.value.action.randomId

/-- What `requestForAction:actionId:seqIn:seqOut:isResend:` encrypts; without a key there is
nothing. -/
def messageFor (keys : List EncryptionKeyData) (executingActors : List ℕ)
    (randomBytes : List UInt8) (row : Row OutgoingActionWithSeq) : Option SentMessage :=
  let action := row.value.action
  let actionData := actionDataFor executingActors randomBytes row
  match encryptionKeyForConversationId keys action.keyId with
  | (some key, keyId) =>
      if key.length = 0 then none
      else if action.layer ≥ 17 then
        some ⟨action.layer, row.value.seqIn, row.value.seqOut, keyId, action.randomId,
          actionData.getD []⟩
      else actionData.map fun data => ⟨action.layer, 0, 0, keyId, action.randomId, data⟩
  | (none, _) => none

/-! ### Messages and rows -/

section Message

variable {keys keys' : List EncryptionKeyData} {actors actors' : List ℕ}
  {randomBytes randomBytes' : List UInt8} {row row' : Row OutgoingActionWithSeq}
  {message : SentMessage}

/-- From layer 17 on the receiving client reads the layer and the numbers back, and the content
stands behind them. -/
theorem SentMessage.header_serialized (isCreator : Bool) (hlayer : message.layer ≥ 17)
    (hbytes : randomBytes.length = 15) :
    contentHeader (message.serialized isCreator randomBytes) =
        (max 1 (toNSUInteger (toInt32 message.layer)),
          toInt32 (message.seqIn * 2 + if isCreator then 0 else 1),
          toInt32 (message.seqOut * 2 + if isCreator then 1 else 0)) ∧
      (message.serialized isCreator randomBytes).drop 32 = message.actionData := by
  rw [SentMessage.serialized, if_pos hlayer]
  constructor
  · rw [← contentHeader_envelope hbytes, List.append_nil]
  · rw [envelope, List.drop_left']
    simp [hbytes]

/-- What a message has of the stored action: all but the key and the content. -/
structure SentMessage.Of (message : SentMessage) (value : OutgoingActionWithSeq) : Prop where
  layer : message.layer = value.action.layer
  seqIn : message.seqIn = if value.action.layer ≥ 17 then value.seqIn else 0
  seqOut : message.seqOut = if value.action.layer ≥ 17 then value.seqOut else 0
  randomId : message.randomId = value.action.randomId

theorem SentMessage.of_iff {value : OutgoingActionWithSeq} : message.Of value ↔
    message.layer = value.action.layer ∧
      (message.seqIn = if value.action.layer ≥ 17 then value.seqIn else 0) ∧
      (message.seqOut = if value.action.layer ≥ 17 then value.seqOut else 0) ∧
      message.randomId = value.action.randomId :=
  ⟨fun h => ⟨h.layer, h.seqIn, h.seqOut, h.randomId⟩, fun h => ⟨h.1, h.2.1, h.2.2.1, h.2.2.2⟩⟩

/-- The content `actionData` of a message of a layer, `nil` being no bytes in an envelope. -/
def Content (layer : ℕ) (actionData : Option (List UInt8)) (content : List UInt8) : Prop :=
  actionData = some content ∨ layer ≥ 17 ∧ content = [] ∧ actionData = none

theorem SentMessage.eq_mk_iff {layer : ℕ} {seqIn seqOut randomId : ℤ} {keyId : BitVec 64}
    {actionData : List UInt8} :
    ⟨layer, seqIn, seqOut, keyId, randomId, actionData⟩ = message ↔
      (message.layer = layer ∧ message.seqIn = seqIn ∧ message.seqOut = seqOut ∧
        message.randomId = randomId) ∧ actionData = message.actionData ∧
        keyId = message.keyId := by
  obtain ⟨_, _, _, _, _, _⟩ := message
  simp only [SentMessage.mk.injEq]
  constructor
  · rintro ⟨rfl, rfl, rfl, rfl, rfl, rfl⟩
    exact ⟨⟨rfl, rfl, rfl, rfl⟩, rfl, rfl⟩
  · rintro ⟨⟨rfl, rfl, rfl, rfl⟩, rfl, rfl⟩
    exact ⟨rfl, rfl, rfl, rfl, rfl, rfl⟩

/-- **The message of a row**: it is made from the stored action, with the key that is found and
the content that is chosen. -/
theorem messageFor_eq_some :
    messageFor keys actors randomBytes row = some message ↔
      message.Of row.value ∧
      Content row.value.action.layer (actionDataFor actors randomBytes row) message.actionData ∧
      ∃ key : List UInt8, key ≠ [] ∧
        encryptionKeyForConversationId keys row.value.action.keyId =
          (some key, message.keyId) := by
  rw [messageFor]
  rcases hkey : encryptionKeyForConversationId keys row.value.action.keyId with ⟨_ | key, keyId⟩
  · refine iff_of_false (fun h => ?_) (fun h => ?_)
    · cases h
    · obtain ⟨-, -, key, -, heq⟩ := h
      cases heq
  · have hfound : (∃ key' : List UInt8, key' ≠ [] ∧
        (some key, keyId) = (some key', message.keyId)) ↔
        ¬ key.length = 0 ∧ keyId = message.keyId := by
      rw [List.length_eq_zero_iff]
      constructor
      · rintro ⟨_, hne, ⟨⟩⟩
        exact ⟨hne, rfl⟩
      · rintro ⟨hne, rfl⟩
        exact ⟨key, hne, rfl⟩
    rw [hfound]
    dsimp only
    split
    · next hempty => exact iff_of_false nofun fun h => h.2.2.1 hempty
    · next hkey =>
        split
        · next hlayer =>
            have hcontent : Content row.value.action.layer (actionDataFor actors randomBytes row)
                message.actionData ↔
                (actionDataFor actors randomBytes row).getD [] = message.actionData := by
              cases actionDataFor actors randomBytes row with
              | none => simp [Content, hlayer, eq_comm]
              | some data => simp [Content]
            rw [Option.some_inj, SentMessage.eq_mk_iff, SentMessage.of_iff, if_pos hlayer,
              if_pos hlayer, hcontent]
            exact and_congr_right' (and_congr_right' ⟨fun h => ⟨hkey, h⟩, fun h => h.2⟩)
        · next hlayer =>
            have hcontent : Content row.value.action.layer (actionDataFor actors randomBytes row)
                message.actionData ↔
                actionDataFor actors randomBytes row = some message.actionData := by
              simp [Content, hlayer]
            rw [Option.map_eq_some_iff, SentMessage.of_iff, if_neg hlayer, if_neg hlayer,
              hcontent]
            constructor
            · rintro ⟨data, hdata, hmessage⟩
              obtain ⟨hfields, rfl, hid⟩ := SentMessage.eq_mk_iff.mp hmessage
              exact ⟨hfields, hdata, hkey, hid⟩
            · rintro ⟨hfields, hdata, -, hid⟩
              exact ⟨_, hdata, SentMessage.eq_mk_iff.mpr ⟨hfields, rfl, hid⟩⟩

/-- **When a row is sent as the message of its action**: the action's content is chosen, and the
key is found. -/
theorem messageFor_eq_iff (hof : message.Of row.value)
    (hdata : message.actionData = row.value.action.data) :
    messageFor keys actors randomBytes row = some message ↔
      (row.value.action.service = true ∨ row.id ∈ actors ∨
        Content row.value.action.layer
          (deleteMessagesData randomBytes row.value.action.layer [row.value.action.randomId]
            row.value.action.randomId) row.value.action.data) ∧
      ∃ key : List UInt8, key ≠ [] ∧
        encryptionKeyForConversationId keys row.value.action.keyId =
          (some key, message.keyId) := by
  rw [messageFor_eq_some, hdata]
  have hwaits : (actors.any fun _actionId => waitsForActionWithId _actionId row.id) = true ↔
      row.id ∈ actors := by
    simp [waitsForActionWithId]
  have hcontent : Content row.value.action.layer (actionDataFor actors randomBytes row)
      row.value.action.data ↔ row.value.action.service = true ∨ row.id ∈ actors ∨
        Content row.value.action.layer
          (deleteMessagesData randomBytes row.value.action.layer [row.value.action.randomId]
            row.value.action.randomId) row.value.action.data := by
    rw [actionDataFor]
    split
    · next hservice => exact iff_of_true (Or.inl rfl) (Or.inl hservice)
    · next hservice =>
        split
        · next hactor => exact iff_of_true (Or.inl rfl) (Or.inr (Or.inl (hwaits.mp hactor)))
        · next hactor =>
            rw [or_iff_right hservice, or_iff_right fun h => hactor (hwaits.mpr h)]
  rw [hcontent]
  exact and_iff_right hof

end Message

/-! ### The client and its send actors -/

/-- A request that was made: its row, of one of the two tables, and what was encrypted. -/
structure Transmission where
  row : Row OutgoingActionWithSeq
  isResend : Bool
  message : Option SentMessage
deriving DecidableEq

/-- The client, the `_actionId` of each executing send actor, the keys of the chat, and the
requests made so far. -/
structure SecretSender where
  client : SecretClient
  executingActors : List ℕ
  keys : List EncryptionKeyData
  transmitted : List Transmission

/-- What can happen. -/
inductive SenderEvent (κ : Type*) where
  /-- An event of the client; a block of the outgoing queue draws random bytes for its rows. -/
  | client (e : SecretEvent κ) (randomBytes : ℕ → List UInt8)
  /-- Send actors begin, are given the numbers of their rows, and end. -/
  | sendActors (executingActors : List ℕ)
  /-- `storeEncryptionKeyForConversationId:key:keyFingerprint:firstSeqOut:`. -/
  | storeKey (key : List UInt8) (keyFingerprint : BitVec 64) (firstSeqOut : ℤ)
  /-- `discardEncryptionKeysForConversationId:beforeSeqOut:`. -/
  | discardKeys (beforeSeqOut : ℤ)
  /-- The client is started again. -/
  | restart

namespace SecretSender

/-- A client before its first request, with what is stored for the chat. -/
def start (database : SecretDatabase) (keys : List EncryptionKeyData) : SecretSender :=
  ⟨{ freshClient with database }, [], keys, []⟩

/-- The rows of a poll that a request is made for, each with the table it is from. -/
def requestedRows (poll : OutgoingPoll) (executing : List ℕ) :
    List (Row OutgoingActionWithSeq × Bool) :=
  (poll.actions.map (·, false) ++ poll.resendActions.map (·, true)).filter
    fun row => !(row.1.id ∈ executing)

/-- The requests of a block of the outgoing queue, with their messages. -/
def transmissions (s : SecretSender) (randomBytes : ℕ → List UInt8) (poll : OutgoingPoll) :
    List Transmission :=
  (requestedRows poll s.client.executingRequestsActionIds).map fun row =>
    ⟨row.1, row.2, messageFor s.keys s.executingActors (randomBytes row.1.id) row.1⟩

section Step

variable {κ : Type*} (chat : SecretChat κ)

/-- The requests that an event of the client makes. -/
def transmits (s : SecretSender) (randomBytes : ℕ → List UInt8) :
    SecretEvent κ → List Transmission
  | .runBlock _ _ =>
      match s.client.blocks with
      | .outgoing poll :: _ => s.transmissions randomBytes poll
      | _ => []
  | _ => []

/-- One event. -/
def step (s : SecretSender) : SenderEvent κ → SecretSender
  | .client e randomBytes =>
      { s with
        client := s.client.step chat e
        transmitted := s.transmitted ++ s.transmits randomBytes e }
  | .sendActors executingActors => { s with executingActors }
  | .storeKey key keyFingerprint firstSeqOut =>
      { s with keys := storeEncryptionKey s.keys key keyFingerprint firstSeqOut }
  | .discardKeys beforeSeqOut => { s with keys := discardEncryptionKeys s.keys beforeSeqOut }
  | .restart =>
      { s with
        client := { s.client with
          jobs := []
          blocks := []
          executingRequestsActionIds := []
          requests := [] }
        executingActors := [] }

/-! ### The property -/

/-- An action of the outgoing table was first sent with its own content, as `message`. -/
def SentFirst (transmitted : List Transmission) (value : OutgoingActionWithSeq)
    (message : SentMessage) : Prop :=
  ∃ before first after, transmitted = before ++ first :: after ∧ first.isResend = false ∧
    (∀ t ∈ before, t.isResend = false → t.row.id ≠ first.row.id) ∧ first.row.value = value ∧
    first.message = some message ∧ message.actionData = value.action.data

/-- A resend request of the peer copies the rows it covers, a poll takes all copies, and its block
makes a request for each copy of an action that was sent with its own content, unless one is
outstanding, with the message that was sent first. -/
def CarriesOriginal (s : SecretSender) : SenderEvent κ → Prop
  | .client (.runJob peerLayer) randomBytes =>
      let s' := s.step chat (.client (.runJob peerLayer) randomBytes)
      (∀ fromSeq toSeq jobs,
        s.client.jobs = .enqueuePeerOutgoingResendActions fromSeq toSeq :: jobs →
        ∀ row ∈ s.client.database.outgoing.rows, fromSeq ≤ row.value.seqOut →
          row.value.seqOut ≤ toSeq →
            ∃ copy ∈ s'.client.database.outgoingResend.rows, copy.value = row.value) ∧
      ∀ jobs, s.client.jobs = .dequeuePeerOutgoingActions :: jobs →
        ∃ poll, s'.client.blocks = s.client.blocks ++ [.outgoing poll] ∧
          poll.resendActions = s.client.database.outgoingResend.rows
  | .client (.runBlock keys peerLayer) randomBytes =>
      ∀ poll blocks, s.client.blocks = .outgoing poll :: blocks →
        ∀ row ∈ poll.resendActions, ∀ message, SentFirst s.transmitted row.value message →
          (s.client.Outstanding true row.id ∨
            ∃ t ∈ s.transmits randomBytes (.runBlock keys peerLayer),
              t.row = row ∧ t.isResend = true) ∧
          ∀ t ∈ s.transmits randomBytes (.runBlock keys peerLayer),
            t.row = row → t.isResend = true → t.message = some message
  | _ => True

/-- The condition at a block: the number of a copy to be sent is not executing, unless for this
very copy; an actor waits for it, or the message is a service message or a deletion of itself;
and the key that was used first is still found. -/
def ContentKnown (s : SecretSender) : SenderEvent κ → Prop
  | .client (.runBlock _ _) randomBytes =>
      ∀ poll blocks, s.client.blocks = .outgoing poll :: blocks →
        ∀ row ∈ poll.resendActions, ∀ message, SentFirst s.transmitted row.value message →
          if row.id ∈ s.client.executingRequestsActionIds then s.client.Outstanding true row.id
          else (row.value.action.service = true ∨ row.id ∈ s.executingActors ∨
              Content row.value.action.layer
                (deleteMessagesData (randomBytes row.id) row.value.action.layer
                  [row.value.action.randomId] row.value.action.randomId)
                row.value.action.data) ∧
            ∃ key : List UInt8, key ≠ [] ∧
              encryptionKeyForConversationId s.keys row.value.action.keyId =
                (some key, message.keyId)
  | _ => True

end Step

/-! ### Whole runs -/

section Runs

variable {κ : Type*} {chat : SecretChat κ} {s : SecretSender}

/-- Every message was made from its row, with what was known at the time. -/
def MadeFromRows (s : SecretSender) : Prop :=
  ∀ t ∈ s.transmitted, ∃ keys actors randomBytes,
    t.message = messageFor keys actors randomBytes t.row

theorem mem_transmits {randomBytes : ℕ → List UInt8} {e : SecretEvent κ} {t : Transmission}
    (h : t ∈ s.transmits randomBytes e) :
    t.message = messageFor s.keys s.executingActors (randomBytes t.row.id) t.row := by
  cases e with
  | runBlock keys peerLayer =>
      rw [transmits] at h
      split at h
      · obtain ⟨row, -, rfl⟩ := List.mem_map.mp h
        rfl
      · exact absurd h List.not_mem_nil
  | _ => exact absurd h List.not_mem_nil

theorem madeFromRows_step (h : MadeFromRows s) (e : SenderEvent κ) :
    MadeFromRows (s.step chat e) := by
  cases e with
  | client e randomBytes =>
      intro t ht
      rcases List.mem_append.mp ht with hold | hnew
      · exact h t hold
      · exact ⟨_, _, _, mem_transmits hnew⟩
  | _ => exact h

/-- The requests are those of the block. -/
theorem map_transmissions (s : SecretSender) (randomBytes : ℕ → List UInt8)
    (poll : OutgoingPoll) :
    (s.transmissions randomBytes poll).map (fun t => requestForAction t.row t.isResend) =
      poll.requests s.client.executingRequestsActionIds := by
  rw [transmissions, List.map_map, requestedRows, OutgoingPoll.requests, List.filter_append,
    List.filter_append, List.map_append, List.filter_map, List.filter_map, List.filter_map,
    List.filter_map, List.map_map, List.map_map]
  rfl

/-- A copy has its request exactly if its number is not executing. -/
theorem mem_transmits_resend {keys : κ} {peerLayer : ℕ} {randomBytes : ℕ → List UInt8}
    {poll : OutgoingPoll} {blocks : List StageBlock} {row : Row OutgoingActionWithSeq}
    (hblocks : s.client.blocks = .outgoing poll :: blocks) (hrow : row ∈ poll.resendActions) :
    (∃ t ∈ s.transmits randomBytes (.runBlock keys peerLayer), t.row = row ∧ t.isResend = true) ↔
      row.id ∉ s.client.executingRequestsActionIds := by
  rw [transmits, hblocks]
  constructor
  · rintro ⟨t, ht, rfl, -⟩
    obtain ⟨requested, hrequested, rfl⟩ := List.mem_map.mp ht
    simpa using (List.mem_filter.mp hrequested).2
  · intro hid
    refine ⟨_, List.mem_map_of_mem (List.mem_filter.mpr
      ⟨List.mem_append_right _ (List.mem_map_of_mem hrow), ?_⟩), rfl, rfl⟩
    simpa using hid

/-- A resend request copies the rows it covers. -/
theorem exists_copy {database : SecretDatabase} {fromSeq toSeq : ℤ}
    {row : Row OutgoingActionWithSeq} (hrow : row ∈ database.outgoing.rows)
    (hfrom : fromSeq ≤ row.value.seqOut) (hto : row.value.seqOut ≤ toSeq) :
    ∃ copy ∈ (database.enqueuePeerOutgoingResendActions fromSeq toSeq).1.outgoingResend.rows,
      copy.value = row.value := by
  refine Table.exists_mem_insertAll (List.mem_map_of_mem (List.mem_mergeSort.mpr ?_))
  refine List.mem_filter.mpr ⟨hrow, ?_⟩
  rw [Bool.and_eq_true, decide_eq_true_eq, decide_eq_true_eq]
  exact ⟨hfrom, hto⟩

/-- Jobs of the database thread copy what is asked for, and hand all copies to the polls. -/
theorem carriesOriginal_runJob (peerLayer : ℕ) (randomBytes : ℕ → List UInt8) :
    CarriesOriginal chat s (.client (.runJob peerLayer) randomBytes) := by
  constructor
  · intro fromSeq toSeq jobs hjobs row hrow hfrom hto
    simp only [step, SecretClient.step, hjobs]
    exact exists_copy hrow hfrom hto
  · intro jobs hjobs
    simp only [step, SecretClient.step, hjobs]
    exact ⟨_, rfl, rfl⟩

/-- **One step** carries the original exactly under the condition. -/
theorem carriesOriginal_iff (h : MadeFromRows s) (e : SenderEvent κ) :
    CarriesOriginal chat s e ↔ ContentKnown s e := by
  cases e with
  | client e randomBytes =>
      cases e with
      | runJob peerLayer =>
          exact iff_of_true (carriesOriginal_runJob peerLayer randomBytes) trivial
      | runBlock keys peerLayer =>
          rw [CarriesOriginal, ContentKnown]
          refine forall₃_congr fun poll blocks hblocks => forall₂_congr fun row hrow =>
            forall₂_congr fun message hfirst => ?_
          have hown : message.Of row.value ∧ message.actionData = row.value.action.data := by
            obtain ⟨before, first, after, heq, -, -, hvalue, hmessage, hdata⟩ := hfirst
            obtain ⟨keys, actors, bytes, hmade⟩ := h first (by rw [heq]; simp)
            rw [hmade] at hmessage
            exact ⟨hvalue ▸ (messageFor_eq_some.mp hmessage).1, hdata⟩
          rw [mem_transmits_resend hblocks hrow]
          split
          · next hid =>
              refine ⟨fun hcarries => hcarries.1.resolve_right fun hnot => hnot hid,
                fun houtstanding => ⟨Or.inl houtstanding, fun t ht heq hresend => ?_⟩⟩
              exact absurd ((mem_transmits_resend hblocks hrow).mp ⟨t, ht, heq, hresend⟩)
                (not_not.mpr hid)
          · next hid =>
              rw [← messageFor_eq_iff hown.1 hown.2]
              constructor
              · rintro ⟨-, hall⟩
                obtain ⟨t, ht, rfl, hresend⟩ := (mem_transmits_resend hblocks hrow).mpr hid
                rw [← hall t ht rfl hresend, mem_transmits ht]
              · intro hmessage
                refine ⟨Or.inr hid, fun t ht heq _ => ?_⟩
                rw [mem_transmits ht, heq, hmessage]
      | _ => exact Iff.rfl
  | _ => exact Iff.rfl

/-- **When the resends of a run carry the original**: exactly if at every block of the outgoing
queue the content and the key of the copies to be sent are known. -/
theorem resend_carriesOriginal (chat : SecretChat κ) (database : SecretDatabase)
    (keys : List EncryptionKeyData) (es : List (SenderEvent κ)) :
    AllSteps (step chat) (CarriesOriginal chat) (start database keys) es ↔
      AllSteps (step chat) ContentKnown (start database keys) es := by
  have hmade : Always (step chat) MadeFromRows (start database keys) es :=
    always_of_step (fun _ e h => madeFromRows_step h e) fun _ h => absurd h List.not_mem_nil
  constructor
  · exact AllSteps.of_always (D := ContentKnown)
      (fun _ e h hcarries => (carriesOriginal_iff h e).mp hcarries) hmade
  · exact AllSteps.of_always (D := CarriesOriginal chat)
      (fun _ e h hknown => (carriesOriginal_iff h e).mpr hknown) hmade

end Runs

/-! ### A delivered message -/

/-- Events of the client, with no random bytes. -/
def clientEvents (es : List (SecretEvent Unit)) : List (SenderEvent Unit) :=
  es.map fun e => .client e fun _ => []

/-- A message is sent by an actor that ends when it is delivered. -/
def deliver : List (SenderEvent Unit) :=
  clientEvents [.send ⟨false, 1, 17, 5, [9]⟩, .runJob 17] ++
    .sendActors [1] :: clientEvents [.pollOutgoing, .runJob 17, .runBlock () 17,
      .requestSucceeded 0, .runJob 17]

/-- The peer asks for it once more. The first number of the other table belongs to another
chat. -/
def deliverOne : List (SenderEvent Unit) :=
  deliver ++ .sendActors [] :: clientEvents [.otherChats 0 0 0 1, .runJob 17,
    .receive [⟨⟨17, [], 0⟩, 0, 0⟩], .pollIncoming, .runJob 17, .runJob 17, .runBlock () 17,
    .runJob 17, .runJob 17, .runJob 17, .runJob 17, .runJob 17, .pollOutgoing, .runJob 17]

/-- A chat with one key. -/
def keyed : SecretSender := start .empty [⟨5, [7], 0⟩]

/-- **A delivered message is sent once more as its deletion**: no actor waits for the number of
the copy. -/
theorem resend_deletion :
    ¬ AllSteps (step SecretClient.resendingChat) (CarriesOriginal SecretClient.resendingChat)
      keyed (deliverOne ++ [.client (.runBlock () 17) fun _ => []]) := by
  intro hall
  have hblocks : (run (step SecretClient.resendingChat) keyed deliverOne).client.blocks =
      [.outgoing ⟨[], [⟨2, ⟨⟨false, 1, 17, 5, [9]⟩, 0, 0⟩⟩]⟩] := by
    decide +kernel
  have hfirst : (run (step SecretClient.resendingChat) keyed deliverOne).transmitted =
      [⟨⟨1, ⟨⟨false, 1, 17, 5, [9]⟩, 0, 0⟩⟩, false, some ⟨17, 0, 0, 5, 1, [9]⟩⟩] := by
    decide +kernel
  have hfree : 2 ∉ (run (step SecretClient.resendingChat) keyed
      deliverOne).client.executingRequestsActionIds := by
    decide +kernel
  have hdeleted : messageFor (run (step SecretClient.resendingChat) keyed deliverOne).keys
      (run (step SecretClient.resendingChat) keyed deliverOne).executingActors []
      ⟨2, ⟨⟨false, 1, 17, 5, [9]⟩, 0, 0⟩⟩ ≠ some ⟨17, 0, 0, 5, 1, [9]⟩ := by
    decide +kernel
  obtain ⟨t, ht, heq, hresend⟩ :=
    (mem_transmits_resend hblocks (List.mem_singleton_self _)).mpr hfree
  obtain ⟨-, hsame⟩ := hall.last _ _ hblocks _ (List.mem_singleton_self _) _
    ⟨[], _, [], hfirst, rfl, fun _ h => absurd h List.not_mem_nil, rfl, rfl, rfl⟩
  refine hdeleted ?_
  rw [← hsame t ht heq hresend, mem_transmits ht, heq]

end SecretSender

end Telegraph.Secret
