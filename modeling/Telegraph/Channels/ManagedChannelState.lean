import Mathlib.Data.List.Sort
import Telegraph.Channels.ChannelLog
import Telegraph.Lib.Dictionary

/-!
# The State of a Channel

How `TGManagedChannelState` brings a channel up to date. Updates come in batches: what continues
the stored number is applied, in the order of the numbers, and a batch that leaves something out
asks the server for the difference. A difference is written as it comes. Neither waits for the
other: a batch is applied to the number that it has found, and written when the messages that it
replies to have been loaded.
-/

namespace Telegraph.Channels

variable {Body : Type}

/-! ### Updates -/

/-- The updates that `applyUpdates:` looks at. -/
inductive ChannelUpdate (Body : Type) where
  | pts (update : PtsUpdate Body)
  | channelTooLong
  | messageID (randomId nId : ℤ)
  | other
deriving DecidableEq

/-- Those with a number. -/
def ptsUpdates (updates : List (ChannelUpdate Body)) : List (PtsUpdate Body) :=
  updates.filterMap fun
    | .pts update => some update
    | _ => none

/-- Whether there is an `updateChannelTooLong`. -/
def isTooLong (updates : List (ChannelUpdate Body)) : Bool :=
  updates.any fun
    | .channelTooLong => true
    | _ => false

/-- One round of the loop that fills `randomIdToMessageId`. -/
def setMessageId (ids : Dictionary ℤ ℤ) : ChannelUpdate Body → Dictionary ℤ ℤ
  | .messageID randomId nId => ids.insert randomId nId
  | _ => ids

/-- `randomIdToMessageId`. -/
def randomIdToMessageId (updates : List (ChannelUpdate Body)) : Dictionary ℤ ℤ :=
  updates.foldl setMessageId ∅

/-- `skipMessageIds`: the messages that are being sent from here. The sending actors are given by
their random identifiers. -/
def skipMessageIds (executing : List ℤ) (updates : List (ChannelUpdate Body)) : List ℤ :=
  executing.filterMap fun randomId =>
    if randomId ≠ 0 then (randomIdToMessageId updates).lookup randomId else none

/-- The block that sorts the updates. The number on the right is that of the left one where the
right one is of a web page. -/
def ptsComparator (lhs rhs : PtsUpdate Body) : Bool :=
  match rhs.change with
  | .webPage => false
  | _ => lhs.pts < rhs.pts

/-- The block tells of any two updates which one comes first. -/
def Comparable (updates : List (PtsUpdate Body)) : Prop :=
  updates.Pairwise fun update other => ptsComparator update other ≠ ptsComparator other update

/-- What a method that sorts an array does with the block: it changes the order, and where the
block tells of any two which one comes first, it is that order. -/
structure Sorts (sort : List (PtsUpdate Body) → List (PtsUpdate Body)) : Prop where
  perm : ∀ updates, (sort updates).Perm updates
  sorted : ∀ updates, Comparable updates →
    (sort updates).Pairwise fun update later => ptsComparator update later = true

/-- What a batch has collected. -/
structure CollectedUpdates (Body : Type) where
  addedMessages : List (ChannelMessage Body)
  updatedMessages : List (ChannelMessage Body)
  deletedMessageIds : List ℤ
  updatedPts : ℤ
  failed : Bool
deriving DecidableEq

/-- A message of a batch is collected unless it has no identifier or is being sent from here. -/
def collectMessage (skip : List ℤ) (messages : List (ChannelMessage Body))
    (message : ChannelMessage Body) : List (ChannelMessage Body) :=
  if message.mid ≠ 0 ∧ message.mid ∉ skip then messages ++ [message] else messages

/-- One round of the `for` over the sorted updates. -/
def collectUpdate (skip : List ℤ) (c : CollectedUpdates Body) (update : PtsUpdate Body) :
    CollectedUpdates Body :=
  if update.pts ≤ c.updatedPts then c
  else if c.updatedPts + update.ptsCount = update.pts then
    match update.change with
    | .newMessage message =>
        { c with
          addedMessages := collectMessage skip c.addedMessages message
          updatedPts := update.pts }
    | .editMessage message =>
        { c with
          updatedMessages := collectMessage skip c.updatedMessages message
          updatedPts := update.pts }
    | .deleteMessages messages =>
        { c with
          deletedMessageIds := c.deletedMessageIds ++ messages
          updatedPts := update.pts }
    | .webPage => { c with updatedPts := update.pts }
  else { c with failed := true }

/-- What `applyUpdates:` collects from a batch behind the number that it has found. -/
def collectUpdates (sort : List (PtsUpdate Body) → List (PtsUpdate Body)) (pts : ℤ)
    (updates : List (ChannelUpdate Body)) (executing : List ℤ) : CollectedUpdates Body :=
  (sort (ptsUpdates updates)).foldl (collectUpdate (skipMessageIds executing updates))
    ⟨[], [], [], pts, isTooLong updates⟩

/-! ### The database -/

/-- A channel in the database: its number and its messages. -/
structure ChannelStore (Body : Type) where
  pts : ℤ
  messages : Dictionary ℤ Body

namespace ChannelStore

/-- `_updateMessages:…`: messages that are there are replaced. -/
def updateMessages (peerId : ℤ) (store : ChannelStore Body)
    (updatedMessages : List (ChannelMessage Body)) : ChannelStore Body :=
  { store with
    messages := updatedMessages.foldl (fun messages message =>
      if message.cid = peerId ∧ (messages.lookup message.mid).isSome then
        messages.insert message.mid message.body
      else messages) store.messages }

/-- `addMessagesToChannel:…`: messages that are there when it begins are left out. -/
def addMessagesToChannel (store : ChannelStore Body) (messages : List (ChannelMessage Body))
    (deleteMessages : List ℤ) : ChannelStore Body :=
  let skipMessages := (messages.map ChannelMessage.mid).filter fun mid =>
    (store.messages.lookup mid).isSome
  { store with
    messages := messages.foldl (fun stored message =>
      if message.mid ∈ skipMessages then stored else stored.insert message.mid message.body)
      (deleteMessages.foldl (fun stored mid => stored.erase mid) store.messages) }

/-- `addMessagesToChannelAndDispatch:…`. -/
def addMessagesToChannelAndDispatch (store : ChannelStore Body)
    (messages : List (ChannelMessage Body)) (deletedMessages : List ℤ) (pts : ℤ) :
    ChannelStore Body :=
  { store with pts := if pts > 0 then pts else store.pts }.addMessagesToChannel messages
    deletedMessages

/-- What `applyUpdates:` writes; the conversation had the number `pts` when it began. -/
def writeUpdates (peerId : ℤ) (store : ChannelStore Body) (pts : ℤ)
    (c : CollectedUpdates Body) : ChannelStore Body :=
  let store := store.updateMessages peerId c.updatedMessages
  if c.updatedPts ≠ pts then
    store.addMessagesToChannelAndDispatch c.addedMessages c.deletedMessageIds c.updatedPts
  else store

end ChannelStore

/-! ### Differences -/

/-- An answer to `getChannelDifference`; an error is taken for an empty one. Without a timeout
there is more to come. -/
inductive ChannelDifference (Body : Type) where
  | empty
  | channelDifference (pts : ℤ) (timeout : Option ℕ) (newMessages : List (ChannelMessage Body))
      (otherUpdates : List (ChannelUpdate Body))
deriving DecidableEq

/-- What `pollOnce:` writes. The messages that are being sent from here are not left out: the
signal that collects them is never started. -/
def ChannelStore.writeDifference (peerId : ℤ) (store : ChannelStore Body) (pts : ℤ)
    (newMessages : List (ChannelMessage Body)) (otherUpdates : List (ChannelUpdate Body)) :
    ChannelStore Body :=
  let messages := newMessages.filter fun message => message.mid ≠ 0 ∧ message.cid = peerId
  let changes := (ptsUpdates otherUpdates).map PtsUpdate.change
  (store.addMessagesToChannelAndDispatch messages (deletedIn changes) pts).updateMessages peerId
    (editedIn changes)

/-! ### The state -/

/-- A batch that is being applied, with the number that it has found. -/
structure ApplyingUpdates (Body : Type) where
  pts : ℤ
  updates : List (ChannelUpdate Body)

/-- `TGManagedChannelState`: the batches that are being applied, the polls that wait in the queue,
and the number that the running one has asked with. -/
structure ManagedChannelState (Body : Type) where
  store : ChannelStore Body
  applying : List (ApplyingUpdates Body)
  waitingPolls : ℕ
  polling : Option ℤ

/-- What happens to a channel: a batch arrives and is begun, one is written (the actors that are
sending at that time are given), a poll is asked for, the running one gets its answer. -/
inductive ChannelEvent (Body : Type) where
  | addUpdates (updates : List (ChannelUpdate Body))
  | applied (place : ℕ) (executing : List ℤ)
  | poll
  | difference (result : ChannelDifference Body)
deriving DecidableEq

namespace ManagedChannelState

/-- A channel that nothing happens to. -/
def start (store : ChannelStore Body) : ManagedChannelState Body :=
  ⟨store, [], 0, none⟩

/-- `pollOnce:` asks from the stored number on, and from the first one at least. -/
def pollOnce (s : ManagedChannelState Body) : ManagedChannelState Body :=
  { s with polling := some (max s.store.pts 1) }

/-- The pipe of the polls, of which one runs at a time. -/
def poll (s : ManagedChannelState Body) : ManagedChannelState Body :=
  match s.polling with
  | some _ => { s with waitingPolls := s.waitingPolls + 1 }
  | none => s.pollOnce

/-- The running poll is over. -/
def pollCompleted (s : ManagedChannelState Body) : ManagedChannelState Body :=
  if s.waitingPolls = 0 then { s with polling := none }
  else { s with waitingPolls := s.waitingPolls - 1 }.pollOnce

/-- `applyUpdates:` for a batch that has been begun; a failure asks for a poll. -/
def applyUpdates (peerId : ℤ) (sort : List (PtsUpdate Body) → List (PtsUpdate Body))
    (s : ManagedChannelState Body) (batch : ApplyingUpdates Body) (executing : List ℤ) :
    ManagedChannelState Body :=
  let c := collectUpdates sort batch.pts batch.updates executing
  let s := { s with store := s.store.writeUpdates peerId batch.pts c }
  if c.failed then s.poll else s

/-- The answer to the running poll. -/
def difference (peerId : ℤ) (s : ManagedChannelState Body) :
    ChannelDifference Body → ManagedChannelState Body
  | .empty => s.pollCompleted
  | .channelDifference pts timeout newMessages otherUpdates =>
      let s := { s with store := s.store.writeDifference peerId pts newMessages otherUpdates }
      if timeout = none then s.pollOnce else s.pollCompleted

/-- One event. -/
def step (peerId : ℤ) (sort : List (PtsUpdate Body) → List (PtsUpdate Body))
    (s : ManagedChannelState Body) : ChannelEvent Body → ManagedChannelState Body
  | .addUpdates updates => { s with applying := s.applying ++ [⟨s.store.pts, updates⟩] }
  | .applied place executing =>
      match s.applying[place]? with
      | none => s
      | some batch =>
          { s with applying := s.applying.eraseIdx place }.applyUpdates peerId sort batch executing
  | .poll => s.poll
  | .difference result =>
      match s.polling with
      | none => s
      | some _ => s.difference peerId result

end ManagedChannelState

end Telegraph.Channels
