import Telegraph.Messages.Database

/-!
# The Transaction on Messages

`transactionAddMessages:…` of `TGDatabase` loads the conversations that a request can touch into
a dictionary of peers, lets its steps edit the dictionary and the tables one after the other,
stores the conversations that were modified and adds to the global unread count by how much the
unread counts of the dictionary have changed. Sets and dictionaries that the transaction builds
itself are enumerated in any order.
-/

namespace Telegraph.Messages

/-! ### Requests -/

/-- What becomes of a stored message: the kinds of `TGDatabaseUpdateMessage`. -/
inductive MessageChange where
  | deliveredInBackground (updatedMessageId : ℤ)
  | failedDeliveryInBackground
  | contentsRead
  | withMessage (message : TGMessage)

/-- `TGDatabaseUpdateMessage`. -/
structure TGDatabaseUpdateMessage where
  peerId : ℤ
  messageId : ℤ
  change : MessageChange

/-- The arguments of a transaction. A read state that is no `TGPeerReadState` is `none`, as is a
draft that is taken away. -/
structure Request where
  addMessages : List TGMessage := []
  removeMessages : Dictionary ℤ (List ℤ) := ∅
  updateMessages : List TGDatabaseUpdateMessage := []
  updatePeerDrafts : Dictionary ℤ (Option TGDatabaseMessageDraft) := ∅
  removeMessagesInteractive : Dictionary ℤ (List ℤ) := ∅
  updateConversationDatas : Dictionary ℤ TGConversation := ∅
  applyMaxIncomingReadIds : Dictionary ℤ ℤ := ∅
  applyMaxOutgoingReadIds : Dictionary ℤ ℤ := ∅
  applyMaxOutgoingReadDates : Dictionary ℤ ℤ := ∅
  readHistoryForPeerIds : List ℤ := []
  resetPeerReadStates : Dictionary ℤ (Option TGPeerReadState) := ∅
  clearConversationsWithPeerIds : List ℤ := []
  removeConversationsWithPeerIds : List ℤ := []
  updatePinnedConversations : Option (List ℤ) := none
  forceReplacePinnedConversations : Bool := false

/-- An order in which sets and dictionaries are enumerated. -/
structure HashOrder where
  arrange : List ℤ → List ℤ
  perm : ∀ keys, (arrange keys).Perm keys

/-! ### Preparing -/

/-- What `_prepareTransactionWithMessages:…` collects. -/
structure Prepared where
  peerIds : List ℤ := []
  addMessagesByPeerId : Dictionary ℤ (List TGMessage) := ∅
  removeMessagesByPeerId : Dictionary ℤ (List ℤ) := ∅
  removeEmptyConversations : List ℤ := []

/-- Whether the id or the random id of a message is stored; the messages of a request are not
compared with each other. -/
def isStored (database : Database) (message : TGMessage) : Bool :=
  (database.messages.lookup message.mid).isSome ||
    message.randomId ≠ 0 && database.randomIds.contains message.randomId

namespace Prepared

/-- Peers are added to the set. -/
def addPeers (prepared : Prepared) (peerIds : List ℤ) : Prepared :=
  { prepared with peerIds := peerIds.foldl (fun set peerId => set.insert peerId) prepared.peerIds }

/-- A message that is not stored is collected. -/
def addMessage (database : Database) (prepared : Prepared) (message : TGMessage) : Prepared :=
  if isStored database message then prepared
  else
    { prepared with
      addMessagesByPeerId := prepared.addMessagesByPeerId.append message.cid [message]
      peerIds := prepared.peerIds.insert message.cid }

/-- The peer of a message to be updated. -/
def addUpdate (database : Database) (prepared : Prepared)
    (updateMessage : TGDatabaseUpdateMessage) : Prepared :=
  if TGPeerIdIsChannel updateMessage.peerId then prepared.addPeers [updateMessage.peerId]
  else
    match database.messages.lookup updateMessage.messageId with
    | some row => prepared.addPeers [row.cid]
    | none => prepared

/-- Messages of a peer are to be removed. -/
def remove (interactive : Bool) (prepared : Prepared) (peerId : ℤ) (messageIds : List ℤ) :
    Prepared :=
  { prepared with
    peerIds := prepared.peerIds.insert peerId
    removeEmptyConversations :=
      if interactive then prepared.removeEmptyConversations
      else prepared.removeEmptyConversations.insert peerId
    removeMessagesByPeerId := prepared.removeMessagesByPeerId.append peerId messageIds }

/-- One entry of `removeMessages` or `removeMessagesInteractive`; under the peer 0 the peers are
looked up. -/
def addRemoved (database : Database) (interactive : Bool) (prepared : Prepared) (nPeerId : ℤ)
    (messageIds : List ℤ) : Prepared :=
  if nPeerId.bmod 4294967296 = 0 then
    messageIds.foldl
      (fun prepared messageId =>
        match database.messages.lookup messageId with
        | some row => prepared.remove interactive row.cid [messageId]
        | none => prepared) prepared
  else prepared.remove interactive nPeerId messageIds

end Prepared

/-- `_prepareTransactionWithMessages:…`, without the loading of the peers. -/
def prepareTransaction (request : Request) (database : Database) : Prepared :=
  let prepared := request.addMessages.foldl (Prepared.addMessage database) {}
  let prepared := request.updateMessages.foldl (Prepared.addUpdate database) prepared
  let prepared := request.removeMessages.foldl (Prepared.addRemoved database false) prepared
  let prepared :=
    request.removeMessagesInteractive.foldl (Prepared.addRemoved database true) prepared
  let prepared := prepared.addPeers request.updateConversationDatas.keys
  let prepared := prepared.addPeers request.applyMaxIncomingReadIds.keys
  let prepared := prepared.addPeers request.applyMaxOutgoingReadIds.keys
  let prepared := prepared.addPeers request.applyMaxOutgoingReadDates.keys
  let prepared := prepared.addPeers request.resetPeerReadStates.keys
  let prepared := prepared.addPeers request.readHistoryForPeerIds
  let prepared := prepared.addPeers request.updatePeerDrafts.keys
  let prepared := prepared.addPeers request.clearConversationsWithPeerIds
  let prepared := prepared.addPeers request.removeConversationsWithPeerIds
  match request.updatePinnedConversations with
  | some peerIds => (prepared.addPeers database.getPinnedConversations).addPeers peerIds
  | none => prepared

/-- A conversation that is stored is put into the dictionary. -/
def loadPeer (database : Database) (peers : Dictionary ℤ TGConversation) (peerId : ℤ) :
    Dictionary ℤ TGConversation :=
  match database.loadConversationWithId peerId with
  | some conversation => peers.insert peerId conversation
  | none => peers

/-- The stored conversations of these peers. -/
def loadPeers (database : Database) (peerIds : List ℤ) : Dictionary ℤ TGConversation :=
  peerIds.foldl (loadPeer database) ∅

/-! ### The steps -/

/-- What the steps of a transaction work on. -/
structure Transaction where
  database : Database
  peers : Dictionary ℤ TGConversation
  modifiedPeerIds : List ℤ := []
  invalidatedPeerReadStates : List ℤ := []

namespace Transaction

/-- A copy of a conversation is put into the dictionary. -/
def setPeer (tr : Transaction) (peerId : ℤ) (conversation : TGConversation) : Transaction :=
  { tr with peers := tr.peers.insert peerId conversation }

/-- A peer is added to `modifiedPeerIds`. -/
def touch (tr : Transaction) (peerId : ℤ) : Transaction :=
  { tr with modifiedPeerIds := tr.modifiedPeerIds.insert peerId }

/-- Both of these. -/
def modify (tr : Transaction) (peerId : ℤ) (conversation : TGConversation) : Transaction :=
  (tr.setPeer peerId conversation).touch peerId

/-- The tables are written. -/
def write (tr : Transaction) (database : Database) : Transaction :=
  { tr with database := database }

/-- A peer is added to `invalidatedPeerReadStates`. -/
def invalidate (tr : Transaction) (peerId : ℤ) : Transaction :=
  { tr with invalidatedPeerReadStates := tr.invalidatedPeerReadStates.insert peerId }

/-- `_resetPeerReadStates:…`, for one peer. -/
def resetPeerReadState (tr : Transaction) (nPeerId : ℤ) (readState : Option TGPeerReadState) :
    Transaction :=
  let tr := tr.write { tr.database with
    validateReadState := tr.database.validateReadState.erase nPeerId }
  match readState, tr.peers.lookup nPeerId with
  | some readState, some conversation =>
      tr.modify nPeerId
        { conversation with
          maxReadMessageId := readState.maxReadMessageId
          maxOutgoingReadMessageId := readState.maxOutgoingReadMessageId
          maxKnownMessageId := readState.maxKnownMessageId
          unreadCount := readState.unreadCount }
  | _, _ => tr

/-- `_readPeersHistories:…`, for one peer. -/
def readPeerHistory (tr : Transaction) (nPeerId : ℤ) : Transaction :=
  match tr.peers.lookup nPeerId with
  | none => tr
  | some conversation =>
      let topMessageId := tr.database.topMessageId nPeerId
      let topMessageDate :=
        if TGPeerIdIsSecretChat nPeerId then tr.database.topMessageDate nPeerId else 0
      if conversation.unreadCount ≠ 0 || conversation.serviceUnreadCount ≠ 0 ||
          TGPeerIdIsSecretChat nPeerId && topMessageDate ≠ 0 then
        tr.modify nPeerId
          { conversation with
            unreadCount := 0
            serviceUnreadCount := 0
            maxReadMessageId := max topMessageId conversation.maxReadMessageId
            maxReadDate := max topMessageDate conversation.maxReadDate }
      else tr

/-- Whether an added message counts as unread. -/
def countsAsUnread (conversation : Option TGConversation) (nPeerId : ℤ) (message : TGMessage) :
    Bool :=
  match conversation with
  | none => false
  | some conversation =>
      !message.outgoing &&
        ((TGPeerIdIsSecretChat message.cid || message.mid > conversation.maxKnownMessageId) &&
            conversation.isMessageUnread nPeerId message.mid message.date message.outgoing ||
          message.mid ≥ TGMessageLocalMidBaseline && message.cid = 777000)

/-- One message of `_addMessages:…`: it is counted and inserted. -/
def addMessage (conversation : Option TGConversation) (nPeerId : ℤ)
    (state : Database × ℤ) (message : TGMessage) : Database × ℤ :=
  if message.isClearChat then state
  else
    (state.1.insertMessage message,
      if countsAsUnread conversation nPeerId message then state.2 + 1 else state.2)

/-- `_addMessages:…`, for one peer. -/
def addPeerMessages (tr : Transaction) (nPeerId : ℤ) (messages : List TGMessage) :
    Transaction :=
  let conversation := tr.peers.lookup nPeerId
  let (database, addedUnreadCount) :=
    messages.foldl (addMessage conversation nPeerId) (tr.database, 0)
  let tr := tr.write database
  let tr :=
    match conversation with
    | some conversation =>
        if addedUnreadCount ≠ 0 then
          if conversation.maxReadMessageId ≠ 0 || TGPeerIdIsSecretChat nPeerId then
            tr.setPeer nPeerId
              { conversation with unreadCount := conversation.unreadCount + addedUnreadCount }
          else tr.invalidate nPeerId
        else tr
    | none =>
        if addedUnreadCount ≠ 0 then tr.invalidate nPeerId
        else if TGPeerIdIsUser nPeerId then
          (tr.setPeer nPeerId {}).invalidate nPeerId
        else tr.invalidate nPeerId
  tr.touch nPeerId

/-- One message of `_removeMessages:…`: it is counted and deleted. -/
def removeMessage (conversation : Option TGConversation) (nPeerId : ℤ) (state : Database × ℤ)
    (messageId : ℤ) : Database × ℤ :=
  match state.1.messages.lookup messageId with
  | none => state
  | some row =>
      ({ state.1 with messages := state.1.messages.erase messageId },
        match conversation with
        | some conversation =>
            if !row.outgoing &&
                conversation.isMessageUnread nPeerId messageId row.date row.outgoing then
              state.2 + 1
            else state.2
        | none => state.2)

/-- `_removeMessages:…`, for one peer. -/
def removePeerMessages (tr : Transaction) (nPeerId : ℤ) (messageIds : List ℤ) : Transaction :=
  let tr := tr.touch nPeerId
  let conversation := tr.peers.lookup nPeerId
  let (database, removedUnreadCount) :=
    messageIds.foldl (removeMessage conversation nPeerId) (tr.database, 0)
  let tr := tr.write database
  if removedUnreadCount ≠ 0 then
    match conversation with
    | some conversation =>
        if conversation.maxReadMessageId ≠ 0 then
          tr.modify nPeerId
            { conversation with
              unreadCount :=
                if conversation.unreadCount - removedUnreadCount < 0 then 0
                else conversation.unreadCount - removedUnreadCount }
        else tr.invalidate nPeerId
    | none => tr.invalidate nPeerId
  else tr

/-- The id, the date and the properties of a stored message after an update; `none` where
nothing is to be updated. -/
def updatedMessage (messageId : ℤ) (row : StoredMessage) :
    MessageChange → Option (ℤ × StoredMessage)
  | .deliveredInBackground updatedMessageId => some (updatedMessageId, row)
  | .failedDeliveryInBackground => some (messageId, row)
  | .contentsRead =>
      if row.contentsRead then none else some (messageId, { row with contentsRead := true })
  | .withMessage message =>
      some (message.mid, { row with date := message.date, contentsRead := message.contentsRead })

/-- `_updateMessages:…`, for one message outside the channels. The row keeps its place if the new
id is taken. -/
def updateMessage (tr : Transaction) (updateMessage : TGDatabaseUpdateMessage) : Transaction :=
  if TGPeerIdIsChannel updateMessage.peerId then tr
  else
    match tr.database.messages.lookup updateMessage.messageId with
    | none => tr
    | some row =>
        match updatedMessage updateMessage.messageId row updateMessage.change with
        | none => tr
        | some (mid, updated) =>
            if TGPeerIdIsChannel row.cid then tr.touch row.cid
            else
              let messages := tr.database.messages
              let messages :=
                if mid ≠ updateMessage.messageId && (messages.lookup mid).isSome then messages
                else (messages.erase updateMessage.messageId).insert mid updated
              (tr.write { tr.database with messages := messages }).touch row.cid

/-- `_applyMaxIncomingReadIds:…`, for one peer. -/
def applyMaxIncomingReadId (tr : Transaction) (nPeerId maxId : ℤ) : Transaction :=
  match tr.peers.lookup nPeerId with
  | none => tr.invalidate nPeerId
  | some conversation =>
      if conversation.maxReadMessageId ≠ 0 then
        if conversation.maxReadMessageId < maxId then
          let known := tr.database.messageIds nPeerId fun mid _ =>
            mid ≤ conversation.maxReadMessageId
          let tr := if known = [] then tr.invalidate nPeerId else tr
          let topMessageId := (tr.database.messageIds nPeerId fun mid _ =>
            mid < TGMessageLocalMidBaseline).max?.getD 0
          let count :=
            if topMessageId ≠ 0 && maxId = topMessageId then conversation.unreadCount
            else
              tr.database.incomingMessageCount nPeerId conversation.maxReadMessageId (maxId + 1)
          tr.modify nPeerId
            { conversation with
              unreadCount :=
                if conversation.unreadCount - count < 0 then 0
                else conversation.unreadCount - count
              maxReadMessageId := maxId }
        else tr
      else tr.invalidate nPeerId

/-- `_applyMaxOutgoingReadIds:…`, for one peer. -/
def applyMaxOutgoingReadId (tr : Transaction) (nPeerId maxId : ℤ) : Transaction :=
  match tr.peers.lookup nPeerId with
  | none => if 0 < maxId then tr.touch nPeerId else tr
  | some conversation =>
      if conversation.maxOutgoingReadMessageId < maxId then
        tr.modify nPeerId { conversation with maxOutgoingReadMessageId := maxId }
      else tr

/-- `_applyMaxOutgoingReadDates:…`, for one peer. -/
def applyMaxOutgoingReadDate (tr : Transaction) (nPeerId date : ℤ) : Transaction :=
  match tr.peers.lookup nPeerId with
  | none => if 0 < date then tr.touch nPeerId else tr
  | some conversation =>
      if conversation.maxOutgoingReadDate < date then
        tr.modify nPeerId { conversation with maxOutgoingReadDate := date }
      else tr

/-- The peers with a deactivated group that has unread messages. -/
def readDeactivatedPeerIds (tr : Transaction) : List ℤ :=
  (tr.peers.entries.filter fun entry =>
    !entry.2.isChannel && entry.2.isDeactivated && entry.2.unreadCount ≠ 0).map (·.1)

/-- `_removeMessagesFromConversationsWithPeerIds:…`, for one peer. -/
def removeMessagesFromConversation (tr : Transaction) (nPeerId : ℤ) : Transaction :=
  let tr := tr.write { tr.database with
    messages := (tr.database.messageIds nPeerId fun _ _ => true).foldl
      (fun messages mid => messages.erase mid) tr.database.messages }
  match tr.peers.lookup nPeerId with
  | some conversation =>
      tr.modify nPeerId { conversation with unreadCount := 0, serviceUnreadCount := 0 }
  | none => tr

/-- The row of a conversation that is removed; channels have none in this list. -/
def deleteConversation (tr : Transaction) (nPeerId : ℤ) : Transaction :=
  if TGPeerIdIsChannel nPeerId then tr
  else
    tr.write { tr.database with
      conversationList := tr.database.conversationList.erase nPeerId }

/-- `_removeConversationsWithPeerIds:…`. -/
def removeConversations (tr : Transaction) (peerIds : List ℤ) : Transaction :=
  peerIds.foldl deleteConversation (peerIds.foldl removeMessagesFromConversation tr)

/-- `_updateConversationDatas:…`, for one peer. -/
def updateConversationData (tr : Transaction) (nPeerId : ℤ)
    (updatedConversation : TGConversation) : Transaction :=
  match tr.peers.lookup nPeerId with
  | none => tr.modify nPeerId updatedConversation
  | some currentConversation =>
      tr.modify nPeerId
        (if TGPeerIdIsChannel nPeerId then
          if !updatedConversation.isMin then currentConversation.mergeChannel updatedConversation
          else currentConversation
        else currentConversation.mergeConversation updatedConversation)

/-- `_updatePeerDrafts:…`, for one peer. -/
def updatePeerDraft (tr : Transaction) (nPeerId : ℤ) (draft : Option TGDatabaseMessageDraft) :
    Transaction :=
  if tr.database.drafts.lookup nPeerId ≠ draft then
    let drafts :=
      match draft with
      | some draft => tr.database.drafts.insert nPeerId draft
      | none => tr.database.drafts.erase nPeerId
    (tr.write { tr.database with drafts := drafts }).touch nPeerId
  else tr

/-- The peers that the list of pinned conversations is replaced with: unless that is forced, the
secret chats keep their places. -/
def updatedPinnedPeerIds (force : Bool) (previous updated : List ℤ) : List ℤ :=
  if force then updated
  else
    ((previous.zipIdx).filter fun entry => TGPeerIdIsSecretChat entry.1).foldl
      (fun updated entry =>
        if updated.contains entry.1 then updated
        else updated.insertIdx (min entry.2 (updated.length - 1)) entry.1) updated

/-- The pinned conversations are replaced. -/
def updatePinned (force : Bool) (tr : Transaction) (updated : List ℤ) : Transaction :=
  let previous := tr.database.getPinnedConversations
  let updated := updatedPinnedPeerIds force previous updated
  let tr := updated.foldl touch (previous.foldl touch tr)
  tr.write { tr.database with pinned := updated.eraseDups }

/-- The conversations that are removed are no longer pinned. -/
def unpinRemoved (tr : Transaction) (removed : List ℤ) : Transaction :=
  let previous := tr.database.getPinnedConversations
  let updated := previous.filter fun peerId => !removed.contains peerId
  if updated.length ≠ previous.length then
    let tr := updated.foldl touch tr
    tr.write { tr.database with pinned := updated }
  else tr

end Transaction

/-! ### The transaction -/

/-- The unread counts outside the channels. -/
def nonChannelUnread (peerId : ℤ) (conversation : TGConversation) : ℤ :=
  if TGPeerIdIsChannel peerId then 0 else conversation.unreadCount

/-- The state in which the steps start. -/
def startTransaction (request : Request) (database : Database) : Transaction :=
  { database := database
    peers := loadPeers database (prepareTransaction request database).peerIds }

open Transaction in
/-- The steps up to the clearing of conversations. -/
def runSteps (order : HashOrder) (request : Request) (database : Database) : Transaction :=
  let prepared := prepareTransaction request database
  let tr := startTransaction request database
  let tr := request.resetPeerReadStates.foldl resetPeerReadState tr
  let tr := request.readHistoryForPeerIds.foldl readPeerHistory tr
  let tr := (order.arrange prepared.addMessagesByPeerId.keys).foldl
    (fun tr nPeerId => tr.addPeerMessages nPeerId (prepared.addMessagesByPeerId.listAt nPeerId)) tr
  let tr := (order.arrange prepared.removeMessagesByPeerId.keys).foldl
    (fun tr nPeerId =>
      tr.removePeerMessages nPeerId (prepared.removeMessagesByPeerId.listAt nPeerId)) tr
  let tr := request.updateMessages.foldl updateMessage tr
  let tr := request.applyMaxIncomingReadIds.foldl applyMaxIncomingReadId tr
  let tr := request.applyMaxOutgoingReadIds.foldl applyMaxOutgoingReadId tr
  let tr := request.applyMaxOutgoingReadDates.foldl applyMaxOutgoingReadDate tr
  let tr := (order.arrange tr.readDeactivatedPeerIds).foldl readPeerHistory tr
  request.clearConversationsWithPeerIds.foldl removeMessagesFromConversation tr

open Transaction in
/-- All steps, up to the storing of the conversations. -/
def runTransaction (order : HashOrder) (request : Request) (database : Database) : Transaction :=
  let tr := (runSteps order request database).removeConversations
    request.removeConversationsWithPeerIds
  let tr := request.updateConversationDatas.foldl updateConversationData tr
  let tr := request.updatePeerDrafts.foldl updatePeerDraft tr
  let tr :=
    match request.updatePinnedConversations with
    | some updated => tr.updatePinned request.forceReplacePinnedConversations updated
    | none => tr
  tr.unpinRemoved request.removeConversationsWithPeerIds

/-- Whether a modified conversation is dropped from the list in place of being stored. -/
def isDropped (request : Request) (removeEmptyConversations : List ℤ) (tr : Transaction)
    (nPeerId : ℤ) : Bool :=
  request.removeConversationsWithPeerIds.contains nPeerId ||
    ((tr.database.messageIds nPeerId fun _ _ => true).isEmpty &&
      (removeEmptyConversations ++ request.removeConversationsWithPeerIds).contains nPeerId &&
      !TGPeerIdIsSecretChat nPeerId)

/-- The end of a modified conversation outside the channels. The query that deletes the row of a
dropped one is prepared by `executeQuery:` and never stepped. -/
def storeConversation (dropped : ℤ → Bool) (peers : Dictionary ℤ TGConversation)
    (conversationList : Dictionary ℤ TGConversation) (nPeerId : ℤ) :
    Dictionary ℤ TGConversation :=
  if TGPeerIdIsChannel nPeerId then conversationList
  else
    match peers.lookup nPeerId with
    | some conversation =>
        if nPeerId = 0 || dropped nPeerId then conversationList
        else conversationList.insert nPeerId conversation
    | none => conversationList

/-- `_enqueueValidatePeersReadStates:`. -/
def enqueueValidatePeersReadStates (validateReadState invalidated : List ℤ) : List ℤ :=
  invalidated.foldl (fun set peerId => set.insert peerId) validateReadState

/-- `transactionAddMessages:…`. -/
def transactionAddMessages (order : HashOrder) (request : Request) (database : Database) :
    Database :=
  let prepared := prepareTransaction request database
  let previousUnreadCount := (startTransaction request database).peers.total nonChannelUnread
  let tr := runTransaction order request database
  let dropped := isDropped request prepared.removeEmptyConversations tr
  let updatedUnreadCount := tr.peers.total nonChannelUnread
  { tr.database with
    conversationList := (order.arrange tr.modifiedPeerIds).foldl
      (storeConversation dropped tr.peers) tr.database.conversationList
    validateReadState :=
      enqueueValidatePeersReadStates tr.database.validateReadState tr.invalidatedPeerReadStates
    unreadCount :=
      if previousUnreadCount ≠ updatedUnreadCount then
        max 0 (tr.database.unreadCount + (updatedUnreadCount - previousUnreadCount))
      else tr.database.unreadCount }

end Telegraph.Messages
