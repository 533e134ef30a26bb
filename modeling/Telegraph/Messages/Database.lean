import Telegraph.Lib.Dictionary

/-!
# Messages and Conversations of the Database

The tables of `TGDatabase` that a transaction on messages reads and writes: the list of
conversations with their read states, the messages, and what is kept beside them. A conversation
is named by its peer id, which is the key of its row and of every dictionary that holds it.
Messages and rows keep what decides on the unread counts.
-/

namespace Telegraph.Messages

/-! ### Peer ids -/

def TGPeerIdIsUser (peerId : ℤ) : Bool :=
  peerId > 0 && peerId < 2147483647

def TGPeerIdIsChannel (peerId : ℤ) : Bool :=
  peerId ≤ -2147483648 * 2 && peerId > -2147483648 * 3

def TGPeerIdIsSecretChat (peerId : ℤ) : Bool :=
  peerId ≤ -2147483648 && peerId > -2147483648 * 2

/-- The local ids of messages start here. -/
def TGMessageLocalMidBaseline : ℤ := 800000000

/-! ### Conversations -/

/-- `TGConversation`. `isPersistentChannel` is its kind, `isMin` belongs to received data only. -/
structure TGConversation where
  isChannel : Bool := false
  isPersistentChannel : Bool := false
  isMin : Bool := false
  leftChat : Bool := false
  kickedFromChat : Bool := false
  isDeactivated : Bool := false
  maxReadMessageId : ℤ := 0
  maxOutgoingReadMessageId : ℤ := 0
  maxKnownMessageId : ℤ := 0
  maxReadDate : ℤ := 0
  maxOutgoingReadDate : ℤ := 0
  unreadCount : ℤ := 0
  serviceUnreadCount : ℤ := 0
deriving DecidableEq

namespace TGConversation

/-- `isMessageUnread:date:outgoing:` of the conversation with a peer. -/
def isMessageUnread (conversation : TGConversation) (conversationId messageId messageDate : ℤ)
    (outgoing : Bool) : Bool :=
  if TGPeerIdIsSecretChat conversationId then
    if outgoing then messageDate > conversation.maxOutgoingReadDate
    else messageDate > conversation.maxReadDate
  else if TGPeerIdIsChannel conversationId && !conversation.isPersistentChannel then false
  else if outgoing then
    if messageId < TGMessageLocalMidBaseline then
      messageId > conversation.maxOutgoingReadMessageId
    else true
  else if messageId < TGMessageLocalMidBaseline then messageId > conversation.maxReadMessageId
  else false

/-- `mergeConversation:`; the counts and read states stay. -/
def mergeConversation (self conversation : TGConversation) : TGConversation :=
  { self with
    leftChat := conversation.leftChat
    kickedFromChat := conversation.kickedFromChat
    isDeactivated := conversation.isDeactivated }

/-- `mergeChannel:`. -/
def mergeChannel (self channel : TGConversation) : TGConversation :=
  if !channel.isMin then
    { self with
      leftChat := channel.leftChat
      kickedFromChat := channel.kickedFromChat
      isPersistentChannel := !(channel.leftChat || channel.kickedFromChat) }
  else self

end TGConversation

/-- `TGPeerReadState`. -/
structure TGPeerReadState where
  maxReadMessageId : ℤ
  maxOutgoingReadMessageId : ℤ
  maxKnownMessageId : ℤ
  unreadCount : ℤ
deriving DecidableEq

/-! ### Messages -/

/-- `TGMessage`. `isClearChat` is its action type, `contentsRead` one of its content
properties. -/
structure TGMessage where
  mid : ℤ
  cid : ℤ
  randomId : ℤ := 0
  outgoing : Bool := false
  date : ℤ := 0
  isClearChat : Bool := false
  contentsRead : Bool := false
deriving DecidableEq

/-- A row of the table of messages, which has the id for its key. -/
structure StoredMessage where
  cid : ℤ
  outgoing : Bool
  date : ℤ
  contentsRead : Bool
deriving DecidableEq

/-- The row of a message. -/
def TGMessage.row (message : TGMessage) : StoredMessage :=
  ⟨message.cid, message.outgoing, message.date, message.contentsRead⟩

/-- `TGDatabaseMessageDraft`. -/
structure TGDatabaseMessageDraft where
  text : String
  date : ℤ
deriving DecidableEq

/-! ### The database -/

/-- The tables. Channels have a list and messages of their own; `pinned` holds the peers with a
pinned date, the latest first. -/
structure Database where
  conversationList : Dictionary ℤ TGConversation
  channelList : Dictionary ℤ TGConversation
  messages : Dictionary ℤ StoredMessage
  channelMessages : List (ℤ × ℤ)
  randomIds : List ℤ
  validateReadState : List ℤ
  drafts : Dictionary ℤ TGDatabaseMessageDraft
  pinned : List ℤ
  unreadCount : ℤ

namespace Database

/-- `loadConversationWithId:`. -/
def loadConversationWithId (database : Database) (peerId : ℤ) : Option TGConversation :=
  if TGPeerIdIsChannel peerId then database.channelList.lookup peerId
  else database.conversationList.lookup peerId

/-- `_getPinnedConversations`, by their ids. -/
def getPinnedConversations (database : Database) : List ℤ :=
  database.pinned.filter fun peerId => (database.loadConversationWithId peerId).isSome

/-- The insertion of a message, which fails where its id is taken. -/
def insertRow (messages : Dictionary ℤ StoredMessage) (message : TGMessage) :
    Dictionary ℤ StoredMessage :=
  if (messages.lookup message.mid).isSome then messages
  else messages.insert message.mid message.row

/-- The insertion of a message and of its random id. -/
def insertMessage (database : Database) (message : TGMessage) : Database :=
  { database with
    messages := insertRow database.messages message
    randomIds :=
      if message.randomId ≠ 0 then database.randomIds.insert message.randomId
      else database.randomIds }

/-- The ids of the messages of a conversation that meet a condition. -/
def messageIds (database : Database) (peerId : ℤ) (condition : ℤ → StoredMessage → Bool) :
    List ℤ :=
  (database.messages.entries.filter fun entry =>
    entry.2.cid = peerId && condition entry.1 entry.2).map (·.1)

/-- `SELECT MAX(mid)` of a conversation below the local ids; `NULL` is read as 0. -/
def topMessageId (database : Database) (peerId : ℤ) : ℤ :=
  if TGPeerIdIsChannel peerId then
    ((database.channelMessages.filter fun row =>
      row.1 = peerId && row.2 < TGMessageLocalMidBaseline).map (·.2)).max?.getD 0
  else
    (database.messageIds peerId fun mid _ => mid < TGMessageLocalMidBaseline).max?.getD 0

/-- `SELECT MAX(date)` of a conversation. -/
def topMessageDate (database : Database) (peerId : ℤ) : ℤ :=
  ((database.messages.entries.filter fun entry => entry.2.cid = peerId).map
    (·.2.date)).max?.getD 0

/-- `_incomingMessageCountForPeerId:minId:maxId:`. -/
def incomingMessageCount (database : Database) (peerId minId maxId : ℤ) : ℤ :=
  (database.messageIds peerId fun mid row => minId < mid && mid < maxId && !row.outgoing).length

end Database

end Telegraph.Messages
