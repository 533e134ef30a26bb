import Telegraph.Messages.Database
import Telegraph.Messages.SortKeys
import Mathlib.Data.Finset.Basic
import Mathlib.Data.Finset.Lattice.Lemmas
import Mathlib.Data.List.Sort

/-!
# The Conversation List

`loadConversationListFromDate:limit:excludeConversationIds:completion:` fills a page of the list
of conversations. A loop takes the rows of the conversation table with one date and the rows
below that date, `limit` of each, and goes on from the date of the last row; deactivated and
excluded rows are passed over. Then channels are added, and the whole is sorted.
-/

namespace Telegraph.Database

open Bytes
open Messages (swappedInt length_swappedInt TGPeerIdIsChannel)

/-! ### Sort keys of conversations -/

/-- `TGConversationSortKey`, an array of 9 bytes. -/
structure TGConversationSortKey where
  key : List UInt8
  length_key : key.length = 9
deriving DecidableEq

/-- `TGConversationKindPersistentChannel`. -/
def TGConversationKindPersistentChannel : UInt8 := 0

/-- `INT32_MAX`. -/
def int32Max : ℤ := 2147483647

/-- `TGConversationSortKeyMake`. -/
def TGConversationSortKeyMake (kind : UInt8) (timestamp mid : ℤ) : TGConversationSortKey where
  key := kind :: (swappedInt timestamp ++ swappedInt mid)
  length_key := by simp

/-- `TGConversationSortKeyLowerBound`. -/
def TGConversationSortKeyLowerBound (kind : UInt8) : TGConversationSortKey :=
  TGConversationSortKeyMake kind 0 0

/-- `TGConversationSortKeyKind`. -/
def TGConversationSortKeyKind (key : TGConversationSortKey) : UInt8 :=
  key.key.get ⟨0, by rw [key.length_key]; decide⟩

/-- `TGConversationSortKeyTimestamp`. -/
def TGConversationSortKeyTimestamp (key : TGConversationSortKey) : ℤ :=
  leInt32 ((key.key.drop 1).take 4).reverse

/-- `TGConversationSortKeyMid`. -/
def TGConversationSortKeyMid (key : TGConversationSortKey) : ℤ :=
  leInt32 ((key.key.drop 5).take 4).reverse

/-! ### Conversations and tables -/

/-- What the list reads of a `TGConversation`. `draftDate` is the date of its draft, 0 if it has
none. -/
structure TGConversation where
  conversationId : ℤ
  messageDate : ℤ
  minMessageDate : ℤ
  draftDate : ℤ
  pinnedDate : ℤ
  isDeactivated : Bool
  isChannel : Bool
  variantSortKey : TGConversationSortKey
deriving DecidableEq

namespace TGConversation

/-- `date`. -/
def date (conversation : TGConversation) : ℤ :=
  max conversation.pinnedDate
    (max conversation.minMessageDate (max conversation.draftDate conversation.messageDate))

/-- A later date is written into the sort key. -/
def raiseSortKey (conversation : TGConversation) (date : ℤ) : TGConversation :=
  if TGConversationSortKeyTimestamp conversation.variantSortKey < date then
    { conversation with
      variantSortKey := TGConversationSortKeyMake
        (TGConversationSortKeyKind conversation.variantSortKey) date
        (TGConversationSortKeyMid conversation.variantSortKey) }
  else conversation

/-- `mergeDraft:`. -/
def mergeDraft (conversation : TGConversation) (draftDate : ℤ) : TGConversation :=
  raiseSortKey { conversation with draftDate := draftDate } draftDate

/-- `setPinnedDate:`. -/
def setPinnedDate (conversation : TGConversation) (pinnedDate : ℤ) : TGConversation :=
  raiseSortKey { conversation with pinnedDate := pinnedDate } pinnedDate

@[simp] theorem conversationId_raiseSortKey (conversation : TGConversation) (date : ℤ) :
    (conversation.raiseSortKey date).conversationId = conversation.conversationId := by
  rw [raiseSortKey]
  split <;> rfl

@[simp] theorem isChannel_raiseSortKey (conversation : TGConversation) (date : ℤ) :
    (conversation.raiseSortKey date).isChannel = conversation.isChannel := by
  rw [raiseSortKey]
  split <;> rfl

end TGConversation

/-- A row of the table of conversations: its columns, and the fields kept in the column
`chat_photo`. -/
structure ConversationRow where
  cid : ℤ
  date : ℤ
  messageDate : ℤ
  minMessageDate : ℤ
  isDeactivated : Bool
deriving DecidableEq

/-- `loadConversationFromDatabase`. -/
def loadConversationFromDatabase (row : ConversationRow) : TGConversation where
  conversationId := row.cid
  messageDate := if row.messageDate = 0 then row.date else row.messageDate
  minMessageDate := row.minMessageDate
  draftDate := 0
  pinnedDate := 0
  isDeactivated := row.isDeactivated
  isChannel := false
  variantSortKey := TGConversationSortKeyLowerBound 0

/-- A row of the table of channels, with its data. -/
structure ChannelRow where
  cid : ℤ
  variantSortKey : TGConversationSortKey
  data : TGConversation

/-- `initWithKeyValueCoder:`; `minMessageDate` and the draft are not coded. -/
def ChannelRow.channel (row : ChannelRow) : TGConversation :=
  { row.data with minMessageDate := 0, draftDate := 0, isChannel := true }

/-- The tables that the list reads: conversations and channels, the dates of the drafts (0 for a
peer without) and the dates of the pinned conversations. `date` was written as the date of the
conversation in the row, with its draft and its pinned date. -/
structure ConversationTables where
  conversations : List ConversationRow
  channels : List ChannelRow
  peerDraft : ℤ → ℤ
  pinnedConversationDates : List (ℤ × ℤ)
  cid_nodup : (conversations.map ConversationRow.cid).Nodup
  not_channel : ∀ row ∈ conversations, TGPeerIdIsChannel row.cid = false
  date_le : ∀ row ∈ conversations, (loadConversationFromDatabase row).date ≤ row.date
  is_channel : ∀ row ∈ channels, TGPeerIdIsChannel row.cid = true
  channel_id : ∀ row ∈ channels, row.data.conversationId = row.cid ∨ row.data.conversationId = 0
  pinned_nodup : (pinnedConversationDates.map Prod.fst).Nodup

namespace ConversationTables

variable (tables : ConversationTables)

/-- `_peerPinnedDate:`. -/
def peerPinnedDate (peerId : ℤ) : ℤ := (tables.pinnedConversationDates.lookup peerId).getD 0

/-- `_renderConversations:` for one conversation. -/
def renderConversation (conversation : TGConversation) : TGConversation :=
  (conversation.mergeDraft (tables.peerDraft conversation.conversationId)).setPinnedDate
    (tables.peerPinnedDate conversation.conversationId)

/-- `_loadChannelConversation:`. -/
def loadChannelConversation (peerId : ℤ) : Option TGConversation :=
  match tables.channels.find? fun row => row.cid = peerId with
  | some row =>
      if row.channel.conversationId ≠ 0 then some (tables.renderConversation row.channel)
      else none
  | none => none

/-- `loadConversationWithId:`. -/
def loadConversationWithId (conversationId : ℤ) : Option TGConversation :=
  (if TGPeerIdIsChannel conversationId then tables.loadChannelConversation conversationId
    else (tables.conversations.find? fun row => row.cid = conversationId).map
      loadConversationFromDatabase).map tables.renderConversation

/-- The peers that are pinned. -/
def pinnedPeerIds : List ℤ := tables.pinnedConversationDates.map Prod.fst

/-- `_getPinnedConversations`. -/
def getPinnedConversations : List TGConversation :=
  ((tables.pinnedConversationDates.insertionSort fun lhs rhs => rhs.2 ≤ lhs.2).map
    Prod.fst).filterMap tables.loadConversationWithId

/-- `_loadChannelsWithLowerBound:upperBound:count:`. -/
def loadChannels (lowerBoundKey upperBoundKey : TGConversationSortKey) (count : ℕ) :
    List TGConversation :=
  ((((tables.channels.filter fun row =>
      memcmp row.variantSortKey.key lowerBoundKey.key > 0 ∧
        memcmp row.variantSortKey.key upperBoundKey.key < 0).insertionSort fun lhs rhs =>
      memcmp lhs.variantSortKey.key rhs.variantSortKey.key ≥ 0).take count).map
    ChannelRow.channel).filter fun channel => channel.conversationId ≠ 0

end ConversationTables

/-! ### The loop -/

/-- The variables of the loop. -/
structure LoadState where
  array : List TGConversation
  excludeConversationIdsSet : Finset ℤ
  upperBound : ℤ
  loadedAny : Bool

namespace LoadState

/-- The conversation is added to the array and to the set. -/
def add (s : LoadState) (conversation : TGConversation) : LoadState :=
  { s with
    array := s.array ++ [conversation]
    excludeConversationIdsSet := insert conversation.conversationId s.excludeConversationIdsSet
    loadedAny := true }

/-- A channel is added unless it is in the set. -/
def addChannel (s : LoadState) (channel : TGConversation) : LoadState :=
  if channel.conversationId ∈ s.excludeConversationIdsSet then s else s.add channel

end LoadState

/-- The loop over the rows of a query; the one over `followingDatesResult` moves `upperBound`. -/
def loadRows (limit : ℕ) (following : Bool) : List ConversationRow → LoadState → LoadState
  | [], s => s
  | row :: rows, s =>
      let conversation := loadConversationFromDatabase row
      let s := if following then { s with upperBound := conversation.date } else s
      if conversation.isDeactivated then loadRows limit following rows s
      else if conversation.conversationId ∈ s.excludeConversationIdsSet then
        loadRows limit following rows s
      else if limit ≤ (s.add conversation).array.length then s.add conversation
      else loadRows limit following rows (s.add conversation)

/-- `exactDateResult`. -/
def exactDateRows (rows : List ConversationRow) (limit : ℕ) (upperBound : ℤ) :
    List ConversationRow :=
  (rows.filter fun row => row.date = upperBound).take limit

/-- `followingDatesResult`. -/
def followingDatesRows (rows : List ConversationRow) (limit : ℕ) (upperBound : ℤ) :
    List ConversationRow :=
  ((rows.filter fun row => row.date < upperBound).insertionSort fun lhs rhs =>
    rhs.date ≤ lhs.date).take limit

/-- The two loops of one round. -/
def loadExact (rows : List ConversationRow) (limit : ℕ) (s : LoadState) : LoadState :=
  loadRows limit false (exactDateRows rows limit s.upperBound) s

def loadFollowing (rows : List ConversationRow) (limit : ℕ) (s : LoadState) : LoadState :=
  loadRows limit true (followingDatesRows rows limit s.upperBound) { s with loadedAny := false }

/-- `while (true)`. -/
def loadPages (rows : List ConversationRow) (limit : ℕ) : ℕ → LoadState → Option LoadState
  | 0, _ => none
  | fuel + 1, s =>
      let exact := loadExact rows limit s
      if limit ≤ exact.array.length then some exact
      else
        let following := loadFollowing rows limit exact
        if limit ≤ following.array.length then some following
        else if !following.loadedAny then some following
        else loadPages rows limit fuel following

/-! ### The function -/

/-- `NSOrderedAscending` of the comparator. -/
def ascending (lhs rhs : TGConversation) : Prop :=
  lhs.date > rhs.date ∨ lhs.date = rhs.date ∧ rhs.conversationId ≤ lhs.conversationId

instance : DecidableRel ascending := fun _ _ => inferInstanceAs (Decidable (_ ∨ _))

def sortConversations (array : List TGConversation) : List TGConversation :=
  array.insertionSort ascending

namespace ConversationTables

variable (tables : ConversationTables)

/-- The state before the loop. -/
def startLoading (date : ℤ) (excludeConversationIds : List ℤ) : LoadState :=
  let array := if date = int32Max ∨ date = 0 then tables.getPinnedConversations else []
  { array := array
    excludeConversationIdsSet := excludeConversationIds.toFinset ∪ tables.pinnedPeerIds.toFinset ∪
      (array.map TGConversation.conversationId).toFinset
    upperBound := date
    loadedAny := false }

/-- The channels up to the date are added, and the array is sorted. -/
def addChannels (date : ℤ) (limit : ℕ) (s : LoadState) : LoadState :=
  let s := (tables.loadChannels
    (TGConversationSortKeyLowerBound TGConversationKindPersistentChannel)
    (TGConversationSortKeyMake TGConversationKindPersistentChannel date int32Max) limit).foldl
      LoadState.addChannel s
  { s with array := sortConversations s.array }

/-- The channels between the last channel and the last conversation are added. -/
def addMoreChannels (limit : ℕ) (s : LoadState) : LoadState :=
  match s.array.reverse.find? fun conversation => conversation.isChannel, s.array.getLast? with
  | some lastChannel, some lastConversation =>
      if lastChannel ≠ lastConversation then
        (tables.loadChannels
          (TGConversationSortKeyMake TGConversationKindPersistentChannel lastConversation.date 0)
          (TGConversationSortKeyMake TGConversationKindPersistentChannel
            (TGConversationSortKeyTimestamp lastChannel.variantSortKey)
            ((TGConversationSortKeyMid lastChannel.variantSortKey - 1).bmod 4294967296))
          limit).foldl LoadState.addChannel s
      else s
  | _, _ => s

/-- The array after the loop is completed with channels, rendered and sorted. -/
def finishLoading (date : ℤ) (limit : ℕ) (s : LoadState) : List TGConversation :=
  sortConversations ((tables.addMoreChannels limit (tables.addChannels date limit s)).array.map
    tables.renderConversation)

/-- `loadConversationListFromDate:limit:excludeConversationIds:completion:`, the result and
`loadedAllRegular`. -/
def loadConversationListFromDate (fuel : ℕ) (date : ℤ) (limit : ℕ)
    (excludeConversationIds : List ℤ) : Option (List TGConversation × Bool) :=
  (loadPages tables.conversations limit fuel
    (tables.startLoading date excludeConversationIds)).map fun s =>
      (tables.finishLoading date limit s, decide (s.array.length < limit))

end ConversationTables

end Telegraph.Database
