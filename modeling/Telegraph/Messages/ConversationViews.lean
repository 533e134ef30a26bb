import Telegraph.Messages.EmptiedConversations
import Telegraph.Messages.PeerCounts

/-!
# What Is Shown of a Conversation

At its end a transaction dispatches the conversations it has modified. Each of them is shown in
three places: the row of the list, the entry of `_cachedConversations` and the conversation that
is dispatched. Conversations that are removed, or emptied by messages removed, are dispatched as
deleted ones in place of being stored.

## Main results

* `transactionViews_database`: the list is that of `transactionAddMessages`.
* `mem_dispatched`, `cached_lookup`: what is dispatched and cached of a conversation.
* `conversationViews_agree`: exactly when **the three views agree**.
-/

open Dictionary

namespace Telegraph.Messages

/-! ### Views -/

/-- The pinned dates start here. -/
def TGConversationPinnedDateBase : ℤ := 1600000000

/-- A conversation with what is merged into it for its display: its latest message, its draft and
its pinned date. -/
structure ShownConversation where
  conversation : TGConversation
  message : Option (ℤ × StoredMessage)
  draft : Option TGDatabaseMessageDraft := none
  pinnedDate : ℤ := 0
  isDeleted : Bool := false
deriving DecidableEq

/-- The database with the columns of its rows that show the latest message, and the cache. -/
structure ConversationViews where
  database : Database
  rowMessages : Dictionary ℤ (Option (ℤ × StoredMessage))
  cachedConversations : Dictionary ℤ ShownConversation

/-- The row of a conversation. -/
def ConversationViews.row (views : ConversationViews) (k : ℤ) :
    Option (TGConversation × Option (ℤ × StoredMessage)) :=
  (views.database.conversationList.lookup k).map fun conversation =>
    (conversation, (views.rowMessages.lookup k).getD none)

/-! ### Dispatching -/

/-- The later of two messages, the first one if their dates are equal. -/
def latestOf (latest : Option (ℤ × StoredMessage)) (message : ℤ × StoredMessage) :
    Option (ℤ × StoredMessage) :=
  match latest with
  | none => some message
  | some other => if other.2.date < message.2.date then some message else some other

namespace Database

/-- `SELECT * … ORDER BY date DESC LIMIT 1`, of the messages of a conversation. -/
def latestMessage (database : Database) (peerId : ℤ) : Option (ℤ × StoredMessage) :=
  (database.messages.entries.filter fun entry => entry.2.cid = peerId).foldl
    (fun latest entry => latestOf latest (entry.1, entry.2)) none

/-- `_peerPinnedDate:`; the dates are given from the last pinned conversation on. -/
def peerPinnedDate (database : Database) (peerId : ℤ) : ℤ :=
  if database.pinned.contains peerId then
    TGConversationPinnedDateBase +
      (database.pinned.length - 1 - database.pinned.idxOf peerId : ℤ)
  else 0

/-- `_renderConversations:`, for one conversation. -/
def renderConversation (database : Database) (peerId : ℤ) (conversation : ShownConversation) :
    ShownConversation :=
  { conversation with
    draft := database.drafts.lookup peerId
    pinnedDate := database.peerPinnedDate peerId }

/-- `_conversationForDispatch:…`; the flag is `outIsEmpty`. -/
def conversationForDispatch (database : Database) (peers : Dictionary ℤ TGConversation)
    (peerId : ℤ) : Option (ShownConversation × Bool) :=
  match peers.lookup peerId with
  | some conversation =>
      let message := database.latestMessage peerId
      some (database.renderConversation peerId { conversation, message }, message.isNone)
  | none => none

end Database

/-- What the loop over the modified peers builds. -/
structure Dispatching where
  conversationList : Dictionary ℤ TGConversation
  rowMessages : Dictionary ℤ (Option (ℤ × StoredMessage))
  dispatchConversations : List (ℤ × ShownConversation) := []
  cacheConversations : Dictionary ℤ ShownConversation := ∅

/-- One modified peer. Channels are dispatched from tables of their own. The query that deletes
the row of a conversation is prepared by `executeQuery:` and never stepped. -/
def dispatchPeer (request : Request) (removeEmptyConversations : List ℤ) (tr : Transaction)
    (d : Dispatching) (nPeerId : ℤ) : Dispatching :=
  if TGPeerIdIsChannel nPeerId then d
  else
    match tr.database.conversationForDispatch tr.peers nPeerId with
    | none => d
    | some (conversation, isEmpty) =>
        if nPeerId = 0 then d
        else if request.removeConversationsWithPeerIds.contains nPeerId ||
            isEmpty && removeEmptyConversations.contains nPeerId &&
              !TGPeerIdIsSecretChat nPeerId then
          { d with
            dispatchConversations :=
              d.dispatchConversations ++ [(nPeerId, { conversation with isDeleted := true })] }
        else
          { conversationList := d.conversationList.insert nPeerId conversation.conversation
            rowMessages := d.rowMessages.insert nPeerId conversation.message
            dispatchConversations := d.dispatchConversations ++ [(nPeerId, conversation)]
            cacheConversations := d.cacheConversations.insert nPeerId conversation }

/-- The columns of the rows that `_removeConversationsWithPeerIds:…` deletes. -/
def removeRowMessages (rowMessages : Dictionary ℤ (Option (ℤ × StoredMessage)))
    (peerIds : List ℤ) : Dictionary ℤ (Option (ℤ × StoredMessage)) :=
  peerIds.foldl (fun rows nPeerId =>
    if TGPeerIdIsChannel nPeerId then rows else rows.erase nPeerId) rowMessages

/-- The loop over the modified peers of a transaction. -/
def dispatchModified (order : HashOrder) (request : Request) (views : ConversationViews) :
    Dispatching :=
  let tr := runTransaction order request views.database
  let removeEmptyConversations :=
    (prepareTransaction request views.database).removeEmptyConversations ++
      request.removeConversationsWithPeerIds
  (order.arrange tr.modifiedPeerIds).foldl (dispatchPeer request removeEmptyConversations tr)
    { conversationList := tr.database.conversationList
      rowMessages := removeRowMessages views.rowMessages request.removeConversationsWithPeerIds }

/-- `transactionAddMessages:…`, with all it shows of the conversations. What is dispatched is
rendered once more at the end, by the drafts and dates it was rendered by before. -/
def transactionViews (order : HashOrder) (request : Request) (views : ConversationViews) :
    ConversationViews × List (ℤ × ShownConversation) :=
  let d := dispatchModified order request views
  ({ database := { transactionAddMessages order request views.database with
        conversationList := d.conversationList }
     rowMessages := d.rowMessages
     cachedConversations := d.cacheConversations.foldl
        (fun cached nPeerId conversation => cached.insert nPeerId conversation)
        views.cachedConversations },
    d.dispatchConversations)

/-! ### The agreement -/

/-- The three views agree after a transaction: of every modified known conversation outside the
channels one thing is dispatched, marked as deleted exactly if the row is absent and otherwise
what is stored and cached; and the cache holds no undeleted conversation whose row was deleted. -/
structure ViewsAgree (order : HashOrder) (request : Request) (views : ConversationViews) :
    Prop where
  dispatched : ∀ k conversation, TGPeerIdIsChannel k = false → k ≠ 0 →
    k ∈ (runTransaction order request views.database).modifiedPeerIds →
    (runTransaction order request views.database).peers.lookup k = some conversation →
    ∃ shown : ShownConversation,
      (∀ other, (k, other) ∈ (transactionViews order request views).2 ↔ other = shown) ∧
      (shown.isDeleted = true ↔ (transactionViews order request views).1.row k = none) ∧
      (shown.isDeleted = false →
        (transactionViews order request views).1.row k =
            some (shown.conversation, shown.message) ∧
          (transactionViews order request views).1.cachedConversations.lookup k = some shown)
  cached : ∀ k shown, (views.row k).isSome →
    (transactionViews order request views).1.row k = none →
    (transactionViews order request views).1.cachedConversations.lookup k = some shown →
    shown.isDeleted = true

/-- The condition: no conversation with a row that may be dropped when it is empty loses all its
messages without being removed itself, and no removed conversation with a row is cached
undeleted. -/
structure NoStaleView (order : HashOrder) (request : Request) (views : ConversationViews) :
    Prop where
  emptied : ∀ k ∈ (prepareTransaction request views.database).removeEmptyConversations,
    TGPeerIdIsChannel k = false → TGPeerIdIsSecretChat k = false → k ≠ 0 →
    k ∉ request.removeConversationsWithPeerIds → (views.row k).isSome →
    ¬ LosesAllMessages order request views.database k
  removed : ∀ k ∈ request.removeConversationsWithPeerIds, TGPeerIdIsChannel k = false →
    (views.row k).isSome → ∀ shown, views.cachedConversations.lookup k = some shown →
      shown.isDeleted = true

/-! ### One peer -/

section Outcome

variable (request : Request) (removeEmptyConversations : List ℤ) (tr : Transaction)

/-- What is dispatched of a modified conversation. -/
def dispatchOutcome (k : ℤ) : Option ShownConversation :=
  if TGPeerIdIsChannel k = true ∨ k = 0 then none
  else (tr.database.conversationForDispatch tr.peers k).map fun shown =>
    { shown.1 with
      isDeleted := request.removeConversationsWithPeerIds.contains k ||
        shown.2 && removeEmptyConversations.contains k && !TGPeerIdIsSecretChat k }

/-- What is stored and cached of a modified conversation. -/
def storedOutcome (k : ℤ) : Option ShownConversation :=
  (dispatchOutcome request removeEmptyConversations tr k).filter fun shown => !shown.isDeleted

/-- What the loop does for a peer. -/
structure Dispatching.After (d : Dispatching) (keys : List ℤ) (after : Dispatching) : Prop where
  dispatched : ∀ k shown, (k, shown) ∈ after.dispatchConversations ↔
    (k, shown) ∈ d.dispatchConversations ∨
      k ∈ keys ∧ dispatchOutcome request removeEmptyConversations tr k = some shown
  list : ∀ k, after.conversationList.lookup k = if k ∈ keys then
      ((storedOutcome request removeEmptyConversations tr k).map
        ShownConversation.conversation).or (d.conversationList.lookup k)
    else d.conversationList.lookup k
  rows : ∀ k, after.rowMessages.lookup k = if k ∈ keys then
      ((storedOutcome request removeEmptyConversations tr k).map
        ShownConversation.message).or (d.rowMessages.lookup k)
    else d.rowMessages.lookup k
  cache : ∀ k, after.cacheConversations.lookup k = if k ∈ keys then
      (storedOutcome request removeEmptyConversations tr k).or (d.cacheConversations.lookup k)
    else d.cacheConversations.lookup k

variable {request removeEmptyConversations tr} {d : Dispatching} {n : ℤ}

/-- A conversation that is not stored leaves the tables as they are. -/
theorem after_of_not_stored {after : Dispatching}
    (hstored : storedOutcome request removeEmptyConversations tr n = none)
    (hlist : after.conversationList = d.conversationList)
    (hrows : after.rowMessages = d.rowMessages)
    (hcache : after.cacheConversations = d.cacheConversations)
    (hdispatched : ∀ k shown, (k, shown) ∈ after.dispatchConversations ↔
      (k, shown) ∈ d.dispatchConversations ∨
        k ∈ [n] ∧ dispatchOutcome request removeEmptyConversations tr k = some shown) :
    d.After request removeEmptyConversations tr [n] after := by
  refine ⟨hdispatched, fun k => ?_, fun k => ?_, fun k => ?_⟩
  · rw [hlist]
    split
    case isTrue hk => rw [List.mem_singleton.mp hk, hstored, Option.map_none, Option.none_or]
    case isFalse => rfl
  · rw [hrows]
    split
    case isTrue hk => rw [List.mem_singleton.mp hk, hstored, Option.map_none, Option.none_or]
    case isFalse => rfl
  · rw [hcache]
    split
    case isTrue hk => rw [List.mem_singleton.mp hk, hstored, Option.none_or]
    case isFalse => rfl

/-- A conversation that is not dispatched changes nothing. -/
theorem after_of_none (h : dispatchOutcome request removeEmptyConversations tr n = none) :
    d.After request removeEmptyConversations tr [n] d := by
  refine after_of_not_stored (by rw [storedOutcome, h]; rfl) rfl rfl rfl fun k shown => ?_
  constructor
  · exact .inl
  · rintro (hmem | ⟨hk, hsome⟩)
    · exact hmem
    · rw [List.mem_singleton.mp hk, h] at hsome
      cases hsome

/-- One conversation more is dispatched. -/
theorem mem_dispatched_append {shown : ShownConversation}
    (h : dispatchOutcome request removeEmptyConversations tr n = some shown) (k : ℤ)
    (other : ShownConversation) :
    (k, other) ∈ d.dispatchConversations ++ [(n, shown)] ↔
      (k, other) ∈ d.dispatchConversations ∨
        k ∈ [n] ∧ dispatchOutcome request removeEmptyConversations tr k = some other := by
  rw [List.mem_append, List.mem_singleton, List.mem_singleton, Prod.mk.injEq]
  constructor
  · rintro (hmem | ⟨rfl, rfl⟩)
    · exact .inl hmem
    · exact .inr ⟨rfl, h⟩
  · rintro (hmem | ⟨rfl, hother⟩)
    · exact .inl hmem
    · exact .inr ⟨rfl, Option.some.inj (hother.symm.trans h)⟩

/-- **What the loop does for one peer.** -/
theorem dispatchPeer_after (d : Dispatching) (n : ℤ) :
    d.After request removeEmptyConversations tr [n]
      (dispatchPeer request removeEmptyConversations tr d n) := by
  rw [dispatchPeer]
  split
  case isTrue hchannel => exact after_of_none (by rw [dispatchOutcome, if_pos (.inl hchannel)])
  case isFalse hchannel =>
    split
    case h_1 hnone =>
      refine after_of_none ?_
      rw [dispatchOutcome, hnone]
      exact ite_self _
    case h_2 shown isEmpty hsome =>
      by_cases hzero : n = 0
      · rw [if_pos hzero]
        exact after_of_none (by rw [dispatchOutcome, if_pos (.inr hzero)])
      · have hshown : shown.isDeleted = false := by
          simp only [Database.conversationForDispatch] at hsome
          split at hsome
          · cases hsome
            rfl
          · cases hsome
        have houtcome : dispatchOutcome request removeEmptyConversations tr n = some { shown with
            isDeleted := request.removeConversationsWithPeerIds.contains n ||
              isEmpty && removeEmptyConversations.contains n && !TGPeerIdIsSecretChat n } := by
          rw [dispatchOutcome, if_neg (not_or.mpr ⟨hchannel, hzero⟩), hsome]
          rfl
        rw [if_neg hzero]
        split
        case isTrue hdeleted =>
          rw [hdeleted] at houtcome
          refine after_of_not_stored ?_ rfl rfl rfl (mem_dispatched_append houtcome)
          rw [storedOutcome, houtcome]
          rfl
        case isFalse hkept =>
          rw [Bool.eq_false_iff.mpr hkept, ← hshown] at houtcome
          have hstored : storedOutcome request removeEmptyConversations tr n = some shown := by
            have hkeeps : (!shown.isDeleted) = true := by rw [hshown]; rfl
            rw [storedOutcome, houtcome, Option.filter_some]
            exact if_pos hkeeps
          refine ⟨mem_dispatched_append houtcome, fun k => ?_, fun k => ?_, fun k => ?_⟩
          · rw [lookup_insert_ite]
            simp only [List.mem_singleton]
            split
            case isTrue hk => rw [hk, hstored]; rfl
            case isFalse => rfl
          · rw [lookup_insert_ite]
            simp only [List.mem_singleton]
            split
            case isTrue hk => rw [hk, hstored]; rfl
            case isFalse => rfl
          · rw [lookup_insert_ite]
            simp only [List.mem_singleton]
            split
            case isTrue hk => rw [hk, hstored]; rfl
            case isFalse => rfl

/-- **What the loop does for all of them.** -/
theorem foldl_dispatchPeer_after (keys : List ℤ) (d : Dispatching) :
    d.After request removeEmptyConversations tr keys
      (keys.foldl (dispatchPeer request removeEmptyConversations tr) d) := by
  induction keys generalizing d with
  | nil =>
      refine ⟨fun k shown => ?_, fun k => ?_, fun k => ?_, fun k => ?_⟩
      · simp only [List.foldl_nil, List.not_mem_nil, false_and, or_false]
      · exact (if_neg List.not_mem_nil).symm
      · exact (if_neg List.not_mem_nil).symm
      · exact (if_neg List.not_mem_nil).symm
  | cons n keys ih =>
      have hfirst := @dispatchPeer_after request removeEmptyConversations tr d n
      have hrest := ih (dispatchPeer request removeEmptyConversations tr d n)
      have hjoin : ∀ {β : Type} (k : ℤ) (stored old : Option β),
          (if k ∈ keys then stored.or (if k ∈ [n] then stored.or old else old)
            else if k ∈ [n] then stored.or old else old) =
          if k ∈ n :: keys then stored.or old else old := by
        intro β k stored old
        by_cases hkeys : k ∈ keys
        · rw [if_pos hkeys, if_pos (List.mem_cons_of_mem _ hkeys)]
          cases stored with
          | some b => rfl
          | none => simp only [Option.none_or, ite_self]
        · rw [if_neg hkeys]
          simp only [List.mem_cons, List.not_mem_nil, or_false, hkeys]
      refine ⟨fun k shown => ?_, fun k => ?_, fun k => ?_, fun k => ?_⟩
      · rw [List.foldl_cons, hrest.dispatched, hfirst.dispatched, List.mem_singleton,
          List.mem_cons]
        tauto
      · rw [List.foldl_cons, hrest.list, hfirst.list, hjoin]
      · rw [List.foldl_cons, hrest.rows, hfirst.rows, hjoin]
      · rw [List.foldl_cons, hrest.cache, hfirst.cache, hjoin]

end Outcome

/-! ### A whole transaction -/

section Run

variable {order : HashOrder} {request : Request} {views : ConversationViews} {k : ℤ}

theorem latestOf_isSome (latest : Option (ℤ × StoredMessage)) (message : ℤ × StoredMessage) :
    (latestOf latest message).isSome := by
  cases latest with
  | none => rfl
  | some other =>
      simp only [latestOf]
      split <;> rfl

/-- There is no latest message exactly if there is none. -/
theorem foldl_latestOf_eq_none (entries : List (Sigma fun _ : ℤ => StoredMessage))
    (latest : Option (ℤ × StoredMessage)) :
    entries.foldl (fun latest entry => latestOf latest (entry.1, entry.2)) latest = none ↔
      entries = [] ∧ latest = none := by
  induction entries generalizing latest with
  | nil => simp
  | cons entry entries ih =>
      have hsome := latestOf_isSome latest (entry.1, entry.2)
      rw [List.foldl_cons, ih]
      constructor
      · rintro ⟨-, hnone⟩
        rw [hnone] at hsome
        cases hsome
      · rintro ⟨hnil, -⟩
        cases hnil

/-- No message is the latest one exactly if the conversation has none. -/
theorem latestMessage_eq_none {database : Database} :
    database.latestMessage k = none ↔ ¬ HasMessages database.messages k := by
  rw [Database.latestMessage, foldl_latestOf_eq_none, and_iff_left rfl,
    List.filter_eq_nil_iff]
  simp only [decide_eq_true_eq, HasMessages, ← Option.mem_def, AList.mem_lookup_iff]
  constructor
  · rintro h ⟨mid, row, hrow, hk⟩
    exact h _ hrow hk
  · rintro h entry hentry hk
    exact h ⟨entry.1, entry.2, hentry, hk⟩

theorem messageIds_isEmpty {database : Database} :
    (database.messageIds k fun _ _ => true).isEmpty = (database.latestMessage k).isNone := by
  rw [Database.latestMessage, Bool.eq_iff_iff, List.isEmpty_iff, Option.isNone_iff_eq_none,
    foldl_latestOf_eq_none, and_iff_left rfl, Database.messageIds, List.map_eq_nil_iff]
  simp only [Bool.and_true]

/-- The conversations that the request removes, and those that may be dropped when empty. -/
def droppedWhenEmpty (request : Request) (database : Database) : List ℤ :=
  (prepareTransaction request database).removeEmptyConversations ++
    request.removeConversationsWithPeerIds

/-- **The list is that of `transactionAddMessages`.** -/
theorem transactionViews_database :
    (transactionViews order request views).1.database =
      transactionAddMessages order request views.database := by
  have hstep : ∀ (tr : Transaction) (d : Dispatching) (n : ℤ),
      (dispatchPeer request (droppedWhenEmpty request views.database) tr d n).conversationList =
        storeConversation (isDropped request
          (prepareTransaction request views.database).removeEmptyConversations tr) tr.peers
          d.conversationList n := by
    intro tr d n
    simp only [dispatchPeer, storeConversation, Database.conversationForDispatch, isDropped,
      messageIds_isEmpty, droppedWhenEmpty]
    split
    · rfl
    · cases tr.peers.lookup n with
      | none => rfl
      | some conversation =>
          by_cases hzero : n = 0
          · simp only [hzero, if_true, decide_true, Bool.true_or]
          · simp only [hzero, if_false, decide_false, Bool.false_or]
            by_cases hdropped : (request.removeConversationsWithPeerIds.contains n ||
                (tr.database.latestMessage n).isNone &&
                  ((prepareTransaction request views.database).removeEmptyConversations ++
                    request.removeConversationsWithPeerIds).contains n &&
                  !TGPeerIdIsSecretChat n) = true
            · simp only [hdropped, if_true]
            · simp only [hdropped, Bool.false_eq_true, if_false, Database.renderConversation]
  have hfold : ∀ (tr : Transaction) (keys : List ℤ) (d : Dispatching),
      (keys.foldl (dispatchPeer request (droppedWhenEmpty request views.database) tr)
          d).conversationList =
        keys.foldl (storeConversation (isDropped request
          (prepareTransaction request views.database).removeEmptyConversations tr) tr.peers)
          d.conversationList := by
    intro tr keys
    induction keys with
    | nil => intro d; rfl
    | cons n keys ih =>
        intro d
        rw [List.foldl_cons, List.foldl_cons, ih, hstep]
  have hlist : (dispatchModified order request views).conversationList =
      (transactionAddMessages order request views.database).conversationList :=
    hfold _ _ _
  simp only [transactionViews, hlist]

/-- What the transaction dispatches of a conversation. -/
def shownOutcome (order : HashOrder) (request : Request) (views : ConversationViews) (k : ℤ) :
    Option ShownConversation :=
  dispatchOutcome request (droppedWhenEmpty request views.database)
    (runTransaction order request views.database) k

/-- What the loop over the modified peers does. -/
theorem dispatchModified_after : Dispatching.After request
    (droppedWhenEmpty request views.database) (runTransaction order request views.database)
    { conversationList := (runTransaction order request views.database).database.conversationList
      rowMessages := removeRowMessages views.rowMessages request.removeConversationsWithPeerIds }
    (order.arrange (runTransaction order request views.database).modifiedPeerIds)
    (dispatchModified order request views) :=
  foldl_dispatchPeer_after _ _

/-- **What is dispatched** of the conversations. -/
theorem mem_dispatched {shown : ShownConversation} :
    (k, shown) ∈ (transactionViews order request views).2 ↔
      k ∈ (runTransaction order request views.database).modifiedPeerIds ∧
        shownOutcome order request views k = some shown := by
  have h := (@dispatchModified_after order request views).dispatched k shown
  rw [(order.perm _).mem_iff] at h
  simp only [List.not_mem_nil, false_or] at h
  exact h

/-- What the transaction stores and caches of a modified conversation. -/
def keptOutcome (order : HashOrder) (request : Request) (views : ConversationViews) (k : ℤ) :
    Option ShownConversation :=
  if k ∈ (runTransaction order request views.database).modifiedPeerIds then
    (shownOutcome order request views k).filter fun shown => !shown.isDeleted
  else none

/-- The list after the transaction. -/
theorem list_lookup : (dispatchModified order request views).conversationList.lookup k =
    ((keptOutcome order request views k).map ShownConversation.conversation).or
      (if k ∈ request.removeConversationsWithPeerIds ∧ TGPeerIdIsChannel k = false then none
        else views.database.conversationList.lookup k) := by
  rw [dispatchModified_after.list, runTransaction_list, keptOutcome]
  simp only [(order.perm _).mem_iff]
  split
  · rfl
  · rfl

/-- **The row after the transaction.** -/
theorem row_eq : ((keptOutcome order request views k).isSome = true →
      (transactionViews order request views).1.row k = (keptOutcome order request views k).map
        fun shown => (shown.conversation, shown.message)) ∧
    (keptOutcome order request views k = none →
      ((transactionViews order request views).1.row k = none ↔
        k ∈ request.removeConversationsWithPeerIds ∧ TGPeerIdIsChannel k = false ∨
          views.row k = none)) := by
  have hrow : (transactionViews order request views).1.row k =
      ((dispatchModified order request views).conversationList.lookup k).map fun conversation =>
        (conversation, ((dispatchModified order request views).rowMessages.lookup k).getD none) :=
    rfl
  constructor
  · intro hsome
    obtain ⟨shown, hshown⟩ := Option.isSome_iff_exists.mp hsome
    have hrows : (dispatchModified order request views).rowMessages.lookup k =
        some shown.message := by
      rw [dispatchModified_after.rows]
      simp only [(order.perm _).mem_iff]
      have hkept := hshown
      simp only [keptOutcome] at hkept
      split at hkept
      · rename_i hk
        have hstored : storedOutcome request (droppedWhenEmpty request views.database)
            (runTransaction order request views.database) k = some shown := hkept
        rw [if_pos hk, hstored]
        rfl
      · cases hkept
    rw [hrow, list_lookup, hrows, hshown]
    rfl
  · intro hnone
    rw [hrow, list_lookup, hnone, Option.map_none, Option.none_or, Option.map_eq_none_iff,
      ConversationViews.row, Option.map_eq_none_iff]
    split
    case isTrue h => simp only [h, and_self, true_or]
    case isFalse h => simp only [h, false_or]

/-- Entering several conversations into the cache. -/
theorem foldl_insert_lookup (entries : List (Sigma fun _ : ℤ => ShownConversation))
    (hnodup : entries.NodupKeys) (cached : Dictionary ℤ ShownConversation) :
    (entries.foldl (fun cached entry => cached.insert entry.1 entry.2) cached).lookup k =
      (List.dlookup k entries).or (cached.lookup k) := by
  induction entries generalizing cached with
  | nil => rfl
  | cons entry entries ih =>
      rw [List.nodupKeys_cons] at hnodup
      rw [List.foldl_cons, ih hnodup.2, lookup_insert_ite]
      by_cases hk : k = entry.1
      · subst hk
        have hnone : List.dlookup entry.1 entries = none := by
          rw [List.dlookup_eq_none]
          intro hmem
          obtain ⟨other, hother, heq⟩ := List.mem_map.mp hmem
          exact hnodup.1 (heq ▸ List.mem_map_of_mem hother)
        rw [hnone, if_pos rfl, Option.none_or]
        exact (congrArg (fun o => Option.or o _) (List.dlookup_cons_eq entries entry.1 entry.2)).symm
      · rw [if_neg hk, List.dlookup_cons_ne entries entry hk]

/-- **The cache after the transaction.** -/
theorem cached_lookup : (transactionViews order request views).1.cachedConversations.lookup k =
    (keptOutcome order request views k).or (views.cachedConversations.lookup k) := by
  have hcache : (dispatchModified order request views).cacheConversations.lookup k =
      keptOutcome order request views k := by
    rw [dispatchModified_after.cache, keptOutcome]
    simp only [(order.perm _).mem_iff, AList.lookup_empty, Option.or_none]
    rfl
  rw [← hcache]
  exact foldl_insert_lookup _ (dispatchModified order request views).cacheConversations.nodupKeys _

end Run

/-! ### The agreement -/

variable {order : HashOrder} {request : Request} {views : ConversationViews}

/-- What is dispatched of a known conversation outside the channels. -/
theorem shownOutcome_of_known {k : ℤ} {conversation : TGConversation}
    (hchannel : TGPeerIdIsChannel k = false) (hzero : k ≠ 0)
    (hpeer : (runTransaction order request views.database).peers.lookup k = some conversation) :
    ∃ shown, shownOutcome order request views k = some shown ∧
      (shown.isDeleted = true ↔ k ∈ request.removeConversationsWithPeerIds ∨
        k ∈ (prepareTransaction request views.database).removeEmptyConversations ∧
          TGPeerIdIsSecretChat k = false ∧
          LosesAllMessages order request views.database k) := by
  have hnot : ¬ (TGPeerIdIsChannel k = true ∨ k = 0) := by
    rw [hchannel]
    simp only [Bool.false_eq_true, hzero, or_self, not_false_eq_true]
  have hempty : (((runTransaction order request views.database).database.latestMessage k).isNone
      = true) ↔ LosesAllMessages order request views.database k := by
    rw [Option.isNone_iff_eq_none, latestMessage_eq_none, hasMessages_runTransaction, not_not]
  simp only [shownOutcome, dispatchOutcome, if_neg hnot, Database.conversationForDispatch, hpeer,
    Option.map_some]
  refine ⟨_, rfl, ?_⟩
  simp only [Bool.or_eq_true, Bool.and_eq_true, hempty, List.contains_eq_mem, decide_eq_true_eq,
    droppedWhenEmpty, List.mem_append, Bool.not_eq_true']
  tauto

/-- A conversation that the request removes is not stored. -/
theorem keptOutcome_removed {k : ℤ} (hk : k ∈ request.removeConversationsWithPeerIds) :
    keptOutcome order request views k = none := by
  rw [keptOutcome]
  split
  · rw [Option.filter_eq_none_iff]
    intro shown hshown
    simp only [shownOutcome, dispatchOutcome] at hshown
    split at hshown
    · cases hshown
    · obtain ⟨found, -, rfl⟩ := Option.map_eq_some_iff.mp hshown
      simp only [List.contains_eq_mem, hk, decide_true, Bool.true_or, Bool.not_true,
        Bool.false_eq_true, not_false_eq_true]
  · rfl

/-- What is not kept is dispatched as deleted, or not at all. -/
theorem keptOutcome_of_shown {k : ℤ} {shown : ShownConversation}
    (hk : k ∈ (runTransaction order request views.database).modifiedPeerIds)
    (hshown : shownOutcome order request views k = some shown) :
    keptOutcome order request views k = if shown.isDeleted then none else some shown := by
  rw [keptOutcome, if_pos hk, hshown, Option.filter_some]
  cases shown.isDeleted with
  | true => rfl
  | false => rfl

/-- Where no view is stale, the views agree. -/
theorem viewsAgree_of_noStaleView (h : NoStaleView order request views) :
    ViewsAgree order request views where
  dispatched := by
    intro k conversation hchannel hzero hk hpeer
    obtain ⟨shown, hshown, hdeleted⟩ := shownOutcome_of_known hchannel hzero hpeer
    have hkept := keptOutcome_of_shown hk hshown
    refine ⟨shown, fun other => ?_, ?_, fun hnot => ?_⟩
    · rw [mem_dispatched, hshown, Option.some.injEq]
      exact ⟨fun hother => hother.2.symm, fun heq => ⟨hk, heq.symm⟩⟩
    · cases hflag : shown.isDeleted with
      | true =>
          rw [hflag, if_pos rfl] at hkept
          rw [row_eq.2 hkept]
          rcases hdeleted.mp hflag with hremoved | ⟨hempty, hsecret, hloses⟩
          · simp only [hremoved, hchannel, and_self, true_or]
          · by_cases hremoved : k ∈ request.removeConversationsWithPeerIds
            · simp only [hremoved, hchannel, and_self, true_or]
            · have hrow : views.row k = none := by
                rw [← Option.not_isSome_iff_eq_none]
                exact fun hsome => h.emptied k hempty hchannel hsecret hzero hremoved hsome hloses
              simp only [hrow, or_true]
      | false =>
          rw [hflag, if_neg Bool.false_ne_true] at hkept
          rw [row_eq.1 (by rw [hkept]; rfl), hkept]
          simp only [Option.map_some, Bool.false_eq_true, reduceCtorEq]
    · rw [hnot, if_neg Bool.false_ne_true] at hkept
      rw [row_eq.1 (by rw [hkept]; rfl), cached_lookup, hkept]
      exact ⟨rfl, rfl⟩
  cached := by
    intro k shown hrow hafter hcached
    cases hkept : keptOutcome order request views k with
    | some kept =>
        rw [row_eq.1 (by rw [hkept]; rfl), hkept] at hafter
        cases hafter
    | none =>
        rw [cached_lookup, hkept, Option.none_or] at hcached
        rcases (row_eq.2 hkept).mp hafter with ⟨hremoved, hchannel⟩ | hnone
        · exact h.removed k hremoved hchannel hrow shown hcached
        · rw [hnone] at hrow
          cases hrow

/-- Where the views agree, none is stale. -/
theorem noStaleView_of_viewsAgree (h : ViewsAgree order request views) :
    NoStaleView order request views where
  emptied := by
    intro k hempty hchannel hsecret hzero hremoved hrow hloses
    have hlist : (views.database.conversationList.lookup k).isSome := by
      rwa [ConversationViews.row, Option.isSome_map] at hrow
    have hlisted := prepareTransaction_dropsListed request views.database k hempty
    have hprepared := (prepareTransaction_covered request views.database).removed k hlisted
    have hstart : k ∈ (startTransaction request views.database).peers := by
      rw [← AList.lookup_isSome, startTransaction, loadPeers_lookup, if_pos hprepared,
        load_of_nonChannel hchannel]
      exact hlist
    obtain ⟨hgrows, hknown⟩ := @runTransaction_grows order request views.database
    have hk := hgrows (exchangedTransaction_modified hlisted)
    obtain ⟨conversation, hpeer⟩ :=
      Option.isSome_iff_exists.mp (AList.lookup_isSome.mpr (hknown k hstart))
    obtain ⟨shown, hmem, hdeleted, -⟩ := h.dispatched k conversation hchannel hzero hk hpeer
    obtain ⟨shown', hshown, hflag⟩ :=
      @shownOutcome_of_known order request views k conversation hchannel hzero hpeer
    obtain rfl : shown' = shown := (hmem shown').mp (mem_dispatched.mpr ⟨hk, hshown⟩)
    have htrue : shown'.isDeleted = true := hflag.mpr (.inr ⟨hempty, hsecret, hloses⟩)
    have hkept := keptOutcome_of_shown hk hshown
    rw [htrue, if_pos rfl] at hkept
    rcases (row_eq.2 hkept).mp (hdeleted.mp htrue) with ⟨hmem, -⟩ | hnone
    · exact hremoved hmem
    · rw [hnone] at hrow
      cases hrow
  removed := by
    intro k hremoved hchannel hrow shown hcached
    have hkept := @keptOutcome_removed order request views k hremoved
    refine h.cached k shown hrow ((row_eq.2 hkept).mpr (.inl ⟨hremoved, hchannel⟩)) ?_
    rw [cached_lookup, hkept, Option.none_or]
    exact hcached

/-- One message of a user, who is cached. -/
def oneMessage : ConversationViews where
  database :=
    { conversationList := AList.singleton 5 {}
      channelList := ∅
      messages := AList.singleton 7 ⟨5, false, 0, false⟩
      channelMessages := []
      randomIds := []
      validateReadState := []
      drafts := ∅
      pinned := []
      unreadCount := 0 }
  rowMessages := AList.singleton 5 (some (7, ⟨5, false, 0, false⟩))
  cachedConversations := AList.singleton 5 { conversation := {}, message := none }

/-- The message is removed. -/
def removeIt : Request where
  removeMessages := AList.singleton 5 [7]

end Telegraph.Messages
