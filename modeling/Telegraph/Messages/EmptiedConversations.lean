import Telegraph.Messages.PeerSteps
import Telegraph.Messages.Steps

/-!
# Conversations That a Transaction Empties

What the steps of a transaction do to the peers they have touched, to the list of conversations
and to the question whether a conversation still has messages. No assumption on the request or
the database is made here.

## Main results

* `runTransaction_grows`: no step takes a touched peer or a known conversation back.
* `runTransaction_list`: **only removed conversations lose their row** before the end.
* `hasMessages_runTransaction`: **which conversations have messages at the end**.
-/

open Dictionary

namespace Telegraph.Messages

/-! ### What no step takes back -/

/-- What holds between two moments of a transaction. -/
structure Grows (before after : Transaction) : Prop where
  modified : before.modifiedPeerIds ⊆ after.modifiedPeerIds
  known : ∀ k, k ∈ before.peers → k ∈ after.peers
  list : after.database.conversationList = before.database.conversationList

/-- What holds between two moments if no message is written between them. -/
structure Quiet (before after : Transaction) : Prop extends Grows before after where
  messages : after.database.messages = before.database.messages

section Quiet

variable {before after : Transaction}

theorem Grows.refl (tr : Transaction) : Grows tr tr :=
  ⟨List.Subset.refl _, fun _ hk => hk, rfl⟩

theorem Grows.trans {a b c : Transaction} (hab : Grows a b) (hbc : Grows b c) : Grows a c :=
  ⟨List.Subset.trans hab.modified hbc.modified, fun k hk => hbc.known k (hab.known k hk),
    hbc.list.trans hab.list⟩

theorem Grows.foldl {α : Type*} {step : Transaction → α → Transaction}
    (hstep : ∀ tr a, Grows tr (step tr a)) (items : List α) (tr : Transaction) :
    Grows tr (items.foldl step tr) :=
  List.foldlRecOn items step (Grows.refl tr) fun after h a _ => h.trans (hstep after a)

theorem Grows.touch (h : Grows before after) (k : ℤ) : Grows before (after.touch k) :=
  ⟨fun _ hk => List.mem_insert_of_mem (h.modified hk), h.known, h.list⟩

theorem Grows.invalidate (h : Grows before after) (k : ℤ) : Grows before (after.invalidate k) :=
  ⟨h.modified, h.known, h.list⟩

theorem Grows.setPeer (h : Grows before after) (k : ℤ) (c : TGConversation) :
    Grows before (after.setPeer k c) :=
  ⟨h.modified, fun other hother => (AList.mem_insert _).mpr (.inr (h.known other hother)),
    h.list⟩

theorem Grows.write (h : Grows before after) {database : Database}
    (hlist : database.conversationList = after.database.conversationList) :
    Grows before (after.write database) :=
  ⟨h.modified, h.known, hlist.trans h.list⟩

theorem Grows.ite {a b : Transaction} {p : Prop} [Decidable p] (ha : Grows before a)
    (hb : Grows before b) : Grows before (if p then a else b) := by
  split
  · exact ha
  · exact hb

theorem Quiet.refl (tr : Transaction) : Quiet tr tr := ⟨.refl tr, rfl⟩

theorem Quiet.trans {a b c : Transaction} (hab : Quiet a b) (hbc : Quiet b c) : Quiet a c :=
  ⟨hab.toGrows.trans hbc.toGrows, hbc.messages.trans hab.messages⟩

theorem Quiet.foldl {α : Type*} {step : Transaction → α → Transaction}
    (hstep : ∀ tr a, Quiet tr (step tr a)) (items : List α) (tr : Transaction) :
    Quiet tr (items.foldl step tr) :=
  List.foldlRecOn items step (Quiet.refl tr) fun after h a _ => h.trans (hstep after a)

theorem Quiet.touch (h : Quiet before after) (k : ℤ) : Quiet before (after.touch k) :=
  ⟨h.toGrows.touch k, h.messages⟩

theorem Quiet.invalidate (h : Quiet before after) (k : ℤ) : Quiet before (after.invalidate k) :=
  ⟨h.toGrows.invalidate k, h.messages⟩

theorem Quiet.modify (h : Quiet before after) (k : ℤ) (c : TGConversation) :
    Quiet before (after.modify k c) :=
  ⟨(h.toGrows.setPeer k c).touch k, h.messages⟩

theorem Quiet.write (h : Quiet before after) {database : Database}
    (hlist : database.conversationList = after.database.conversationList)
    (hmessages : database.messages = after.database.messages) :
    Quiet before (after.write database) :=
  ⟨h.toGrows.write hlist, hmessages.trans h.messages⟩

theorem Quiet.ite {a b : Transaction} {p : Prop} [Decidable p] (ha : Quiet before a)
    (hb : Quiet before b) : Quiet before (if p then a else b) := by
  split
  · exact ha
  · exact hb

end Quiet

/-! ### The steps that write no messages -/

section Steps

variable (tr : Transaction) (k : ℤ)

theorem resetPeerReadState_quiet (readState : Option TGPeerReadState) :
    Quiet tr (tr.resetPeerReadState k readState) := by
  have hwrite := @Quiet.write tr tr (.refl tr) { tr.database with
    validateReadState := tr.database.validateReadState.erase k } rfl rfl
  simp only [Transaction.resetPeerReadState]
  split
  · exact hwrite.modify k _
  · exact hwrite

theorem readPeerHistory_quiet : Quiet tr (tr.readPeerHistory k) := by
  rw [Transaction.readPeerHistory]
  cases tr.peers.lookup k with
  | none => exact .refl tr
  | some conversation => exact .ite ((Quiet.refl tr).modify k _) (.refl tr)

theorem applyMaxIncomingReadId_quiet (maxId : ℤ) :
    Quiet tr (tr.applyMaxIncomingReadId k maxId) := by
  have hrefl := Quiet.refl tr
  rw [Transaction.applyMaxIncomingReadId]
  cases tr.peers.lookup k with
  | none => exact hrefl.invalidate k
  | some conversation =>
      dsimp only
      split
      · split
        · split
          · exact (hrefl.invalidate k).modify k _
          · exact hrefl.modify k _
        · exact hrefl
      · exact hrefl.invalidate k

theorem applyMaxOutgoingReadId_quiet (maxId : ℤ) :
    Quiet tr (tr.applyMaxOutgoingReadId k maxId) := by
  have hrefl := Quiet.refl tr
  rw [Transaction.applyMaxOutgoingReadId]
  split
  · split
    · exact hrefl.touch k
    · exact hrefl
  · split
    · exact hrefl.modify k _
    · exact hrefl

theorem applyMaxOutgoingReadDate_quiet (date : ℤ) :
    Quiet tr (tr.applyMaxOutgoingReadDate k date) := by
  have hrefl := Quiet.refl tr
  rw [Transaction.applyMaxOutgoingReadDate]
  split
  · split
    · exact hrefl.touch k
    · exact hrefl
  · split
    · exact hrefl.modify k _
    · exact hrefl

theorem updateConversationData_quiet (updatedConversation : TGConversation) :
    Quiet tr (tr.updateConversationData k updatedConversation) := by
  rw [Transaction.updateConversationData]
  split
  · exact (Quiet.refl tr).modify k _
  · exact (Quiet.refl tr).modify k _

theorem updatePeerDraft_quiet (draft : Option TGDatabaseMessageDraft) :
    Quiet tr (tr.updatePeerDraft k draft) := by
  simp only [Transaction.updatePeerDraft]
  refine .ite (Quiet.touch (Quiet.write (.refl tr) ?_ ?_) k) (.refl tr)
  · rfl
  · rfl

theorem touchAll_quiet (keys : List ℤ) : Quiet tr (keys.foldl Transaction.touch tr) :=
  Quiet.foldl (fun tr k => (Quiet.refl tr).touch k) keys tr

theorem updatePinned_quiet (force : Bool) (updated : List ℤ) :
    Quiet tr (tr.updatePinned force updated) :=
  ((touchAll_quiet tr _).trans (touchAll_quiet _ _)).write rfl rfl

theorem unpinRemoved_quiet (removed : List ℤ) : Quiet tr (tr.unpinRemoved removed) := by
  simp only [Transaction.unpinRemoved]
  split
  · exact (touchAll_quiet tr _).write rfl rfl
  · exact .refl tr

end Steps

/-! ### The steps that write messages -/

/-- Whether a conversation has messages. -/
def HasMessages (messages : Dictionary ℤ StoredMessage) (k : ℤ) : Prop :=
  ∃ mid row, messages.lookup mid = some row ∧ row.cid = k

section Messages

variable (tr : Transaction) (k : ℤ)

theorem addPeerMessages_grows (messages : List TGMessage) :
    Grows tr (tr.addPeerMessages k messages) := by
  have hwrite : Grows tr (tr.write (messages.foldl
      (Transaction.addMessage (tr.peers.lookup k) k) (tr.database, 0)).1) :=
    (Grows.refl tr).write (foldl_addMessage_frame _ _ _ _).1
  simp only [Transaction.addPeerMessages]
  refine Grows.touch ?_ k
  split
  · exact .ite (.ite (hwrite.setPeer k _) (hwrite.invalidate k)) hwrite
  · exact .ite (hwrite.invalidate k)
      (.ite ((hwrite.setPeer k _).invalidate k) (hwrite.invalidate k))

theorem removePeerMessages_grows (messageIds : List ℤ) :
    Grows tr (tr.removePeerMessages k messageIds) := by
  have hwrite : Grows tr ((tr.touch k).write (messageIds.foldl
      (Transaction.removeMessage (tr.peers.lookup k) k) (tr.database, 0)).1) :=
    ((Grows.refl tr).touch k).write (foldl_removeMessage_frame _ _ _ _).1
  simp only [Transaction.removePeerMessages]
  refine .ite ?_ hwrite
  split
  · exact .ite ((hwrite.setPeer k _).touch k) (hwrite.invalidate k)
  · exact hwrite.invalidate k

theorem updateMessage_grows (update : TGDatabaseUpdateMessage) :
    Grows tr (tr.updateMessage update) := by
  have hrefl := Grows.refl tr
  simp only [Transaction.updateMessage]
  refine .ite hrefl ?_
  split
  · exact hrefl
  · split
    · exact hrefl
    · refine .ite (hrefl.touch _) (Grows.touch (Grows.write hrefl ?_) _)
      rfl

theorem removeMessagesFromConversation_grows :
    Grows tr (tr.removeMessagesFromConversation k) := by
  have hwrite : Grows tr (tr.write { tr.database with
      messages := (tr.database.messageIds k fun _ _ => true).foldl
        (fun messages mid => messages.erase mid) tr.database.messages }) :=
    (Grows.refl tr).write rfl
  simp only [Transaction.removeMessagesFromConversation, Transaction.write]
  split
  · exact (hwrite.setPeer k _).touch k
  · exact hwrite

/-- An update leaves a message with its conversation. -/
theorem updatedMessage_cid {messageId mid : ℤ} {row updated : StoredMessage}
    {change : MessageChange}
    (h : Transaction.updatedMessage messageId row change = some (mid, updated)) :
    updated.cid = row.cid := by
  cases change with
  | deliveredInBackground updatedMessageId =>
      cases h
      rfl
  | failedDeliveryInBackground =>
      cases h
      rfl
  | contentsRead =>
      simp only [Transaction.updatedMessage] at h
      split at h
      · cases h
      · cases h
        rfl
  | withMessage message =>
      cases h
      rfl

/-- A message that takes a free id, or keeps its own, stays one of its conversation. -/
theorem hasMessages_move {messages : Dictionary ℤ StoredMessage} {messageId mid : ℤ}
    {row updated : StoredMessage} (hrow : messages.lookup messageId = some row)
    (hcid : updated.cid = row.cid)
    (hfree : mid = messageId ∨ messages.lookup mid = none) :
    HasMessages ((messages.erase messageId).insert mid updated) k ↔ HasMessages messages k := by
  have hlookup : ∀ other, ((messages.erase messageId).insert mid updated).lookup other =
      if other = mid then some updated
      else if other = messageId then none else messages.lookup other := fun other => by
    rw [lookup_insert_ite, lookup_erase_ite]
  constructor
  · rintro ⟨other, found, hfound, hk⟩
    rw [hlookup] at hfound
    split at hfound
    · cases hfound
      exact ⟨messageId, row, hrow, hcid ▸ hk⟩
    · split at hfound
      · cases hfound
      · exact ⟨other, found, hfound, hk⟩
  · rintro ⟨other, found, hfound, hk⟩
    by_cases hother : other = messageId
    · subst hother
      obtain rfl := Option.some.inj (hrow.symm.trans hfound)
      exact ⟨mid, updated, by rw [hlookup, if_pos rfl], hcid.trans hk⟩
    · refine ⟨other, found, ?_, hk⟩
      have hne : other ≠ mid := by
        rintro rfl
        rcases hfree with heq | hnone
        · exact hother heq
        · exact absurd (hnone.symm.trans hfound) (Option.some_ne_none _).symm
      rw [hlookup, if_neg hne, if_neg hother, hfound]

/-- **An update empties no conversation** and gives none its first message. -/
theorem hasMessages_updateMessage (update : TGDatabaseUpdateMessage) :
    HasMessages (tr.updateMessage update).database.messages k ↔
      HasMessages tr.database.messages k := by
  simp only [Transaction.updateMessage]
  split
  · rfl
  · split
    · rfl
    · rename_i row hrow
      split
      · rfl
      · rename_i mid updated hupdated
        split
        · rfl
        · simp only [Transaction.touch, Transaction.write]
          split
          · rfl
          · rename_i htaken
            refine hasMessages_move k hrow (updatedMessage_cid hupdated) ?_
            simp only [ne_eq, decide_not, Bool.and_eq_true, Bool.not_eq_true',
              decide_eq_false_iff_not, not_and_or, not_not, Bool.not_eq_true,
              Option.isSome_eq_false_iff, Option.isNone_iff_eq_none] at htaken
            exact htaken

/-- A cleared conversation has no messages; the others keep theirs. -/
theorem hasMessages_clear (other : ℤ) :
    HasMessages (tr.removeMessagesFromConversation k).database.messages other ↔
      other ≠ k ∧ HasMessages tr.database.messages other := by
  have herase : ∀ (ids : List ℤ) (messages : Dictionary ℤ StoredMessage) (mid : ℤ),
      (ids.foldl (fun messages mid => messages.erase mid) messages).lookup mid =
        if mid ∈ ids then none else messages.lookup mid := by
    intro ids
    induction ids with
    | nil => intro messages mid; rfl
    | cons id ids ih =>
        intro messages mid
        rw [List.foldl_cons, ih, lookup_erase_ite]
        by_cases hmid : mid = id
        · simp only [hmid, if_true, ite_self, List.mem_cons, true_or]
        · simp only [hmid, if_false, List.mem_cons, false_or]
  have hids : ∀ {mid : ℤ} {row : StoredMessage}, tr.database.messages.lookup mid = some row →
      (mid ∈ tr.database.messageIds k (fun _ _ => true) ↔ row.cid = k) := by
    intro mid row hrow
    simp only [Database.messageIds, Bool.and_true, List.mem_map, List.mem_filter,
      decide_eq_true_eq]
    constructor
    · rintro ⟨entry, ⟨hentry, hcid⟩, rfl⟩
      obtain rfl := Option.some.inj (hrow.symm.trans (AList.mem_lookup_iff.mpr hentry))
      exact hcid
    · intro hcid
      exact ⟨⟨mid, row⟩, ⟨AList.mem_lookup_iff.mp hrow, hcid⟩, rfl⟩
  have hmessages : (tr.removeMessagesFromConversation k).database.messages =
      (tr.database.messageIds k fun _ _ => true).foldl (fun messages mid => messages.erase mid)
        tr.database.messages := by
    simp only [Transaction.removeMessagesFromConversation, Transaction.write]
    split <;> rfl
  simp only [hmessages, HasMessages, herase]
  constructor
  · rintro ⟨mid, row, hrow, rfl⟩
    split at hrow
    · cases hrow
    · rename_i hmid
      exact ⟨fun heq => hmid ((hids hrow).mpr heq), mid, row, hrow, rfl⟩
  · rintro ⟨hne, mid, row, hrow, rfl⟩
    exact ⟨mid, row, by rw [if_neg (mt (hids hrow).mp hne), hrow], rfl⟩

/-- Of several cleared conversations none has messages. -/
theorem hasMessages_clearAll (keys : List ℤ) :
    HasMessages (keys.foldl Transaction.removeMessagesFromConversation tr).database.messages k ↔
      k ∉ keys ∧ HasMessages tr.database.messages k := by
  induction keys generalizing tr with
  | nil => simp only [List.foldl_nil, List.not_mem_nil, not_false_eq_true, true_and]
  | cons key keys ih =>
      rw [List.foldl_cons, ih, hasMessages_clear, List.mem_cons, not_or]
      tauto

end Messages

/-! ### A whole transaction -/

/-- The table of messages with those of a request inserted. -/
def receivedMessages (order : HashOrder) (request : Request) (database : Database) :
    Dictionary ℤ StoredMessage :=
  let added := (prepareTransaction request database).addMessagesByPeerId
  (((order.arrange added.keys).flatMap added.listAt).filter fun message =>
    !message.isClearChat).foldl Database.insertRow database.messages

/-- The ids listed for removal under any peer. -/
def removedMessageIds (request : Request) (database : Database) : List ℤ :=
  let removed := (prepareTransaction request database).removeMessagesByPeerId
  removed.keys.flatMap removed.listAt

/-- A transaction leaves a conversation without messages: it clears or removes it, or it removes
every message stored or received. -/
def LosesAllMessages (order : HashOrder) (request : Request) (database : Database) (k : ℤ) :
    Prop :=
  k ∈ request.clearConversationsWithPeerIds ∨ k ∈ request.removeConversationsWithPeerIds ∨
    ∀ mid row, (receivedMessages order request database).lookup mid = some row → row.cid = k →
      mid ∈ removedMessageIds request database

variable {order : HashOrder} {request : Request} {database : Database}

/-- The steps before messages are added. -/
def readTransaction (request : Request) (database : Database) : Transaction :=
  request.readHistoryForPeerIds.foldl Transaction.readPeerHistory
    (request.resetPeerReadStates.foldl Transaction.resetPeerReadState
      (startTransaction request database))

theorem readTransaction_quiet :
    Quiet (startTransaction request database) (readTransaction request database) :=
  (Quiet.foldl (fun tr entry => resetPeerReadState_quiet tr entry.1 entry.2)
    request.resetPeerReadStates.entries _).trans
      (Quiet.foldl (fun tr k => readPeerHistory_quiet tr k) request.readHistoryForPeerIds _)

/-- The steps that add and remove messages. -/
def exchangedTransaction (order : HashOrder) (request : Request) (database : Database) :
    Transaction :=
  let prepared := prepareTransaction request database
  (order.arrange prepared.removeMessagesByPeerId.keys).foldl
    (fun tr k => tr.removePeerMessages k (prepared.removeMessagesByPeerId.listAt k))
    ((order.arrange prepared.addMessagesByPeerId.keys).foldl
      (fun tr k => tr.addPeerMessages k (prepared.addMessagesByPeerId.listAt k))
      (readTransaction request database))

theorem exchangedTransaction_grows :
    Grows (startTransaction request database) (exchangedTransaction order request database) :=
  (readTransaction_quiet.toGrows.trans
    (Grows.foldl (fun tr k => addPeerMessages_grows tr k _) _ _)).trans
      (Grows.foldl (fun tr k => removePeerMessages_grows tr k _) _ _)

/-- Every peer with messages to remove is touched. -/
theorem exchangedTransaction_modified {k : ℤ}
    (hk : k ∈ (prepareTransaction request database).removeMessagesByPeerId) :
    k ∈ (exchangedTransaction order request database).modifiedPeerIds := by
  obtain ⟨earlier, later, hkeys⟩ := List.append_of_mem
    ((order.perm _).mem_iff.mpr (AList.mem_keys.mp hk))
  rw [exchangedTransaction, hkeys, List.foldl_append, List.foldl_cons]
  exact (Grows.foldl (fun tr k => removePeerMessages_grows tr k _) later _).modified
    (removePeerMessages_modified _ k _)

/-- What is left of the messages stored and received. -/
theorem hasMessages_exchanged (k : ℤ) :
    HasMessages (exchangedTransaction order request database).database.messages k ↔
      ∃ mid row, (receivedMessages order request database).lookup mid = some row ∧
        row.cid = k ∧ mid ∉ removedMessageIds request database := by
  have hentries : (exchangedTransaction order request database).database.messages.entries =
      (receivedMessages order request database).entries.filter fun entry =>
        !((order.arrange (prepareTransaction request database).removeMessagesByPeerId.keys).flatMap
          (prepareTransaction request database).removeMessagesByPeerId.listAt).contains entry.1 := by
    simp only [exchangedTransaction]
    rw [foldl_removePeerMessages_entries, foldl_addPeerMessages_messages,
      readTransaction_quiet.messages]
    rfl
  have hids : ∀ mid,
      mid ∈ (order.arrange (prepareTransaction request database).removeMessagesByPeerId.keys).flatMap
        (prepareTransaction request database).removeMessagesByPeerId.listAt ↔
      mid ∈ removedMessageIds request database := fun mid => by
    simp only [removedMessageIds, List.mem_flatMap, (order.perm _).mem_iff]
  simp only [HasMessages, ← Option.mem_def, AList.mem_lookup_iff, hentries, List.mem_filter,
    Bool.not_eq_true', List.contains_eq_mem, decide_eq_false_iff_not, hids]
  constructor
  · rintro ⟨mid, row, ⟨hrow, hmid⟩, hk⟩
    exact ⟨mid, row, hrow, hk, hmid⟩
  · rintro ⟨mid, row, hrow, hk, hmid⟩
    exact ⟨mid, row, ⟨hrow, hmid⟩, hk⟩

/-- The steps up to the clearing of conversations. -/
def appliedTransaction (order : HashOrder) (request : Request) (database : Database) :
    Transaction :=
  let tr := request.updateMessages.foldl Transaction.updateMessage
    (exchangedTransaction order request database)
  let tr := request.applyMaxIncomingReadIds.foldl Transaction.applyMaxIncomingReadId tr
  let tr := request.applyMaxOutgoingReadIds.foldl Transaction.applyMaxOutgoingReadId tr
  let tr := request.applyMaxOutgoingReadDates.foldl Transaction.applyMaxOutgoingReadDate tr
  (order.arrange tr.readDeactivatedPeerIds).foldl Transaction.readPeerHistory tr

theorem appliedTransaction_quiet :
    Quiet (request.updateMessages.foldl Transaction.updateMessage
      (exchangedTransaction order request database))
      (appliedTransaction order request database) := by
  have hincoming := fun tr => Quiet.foldl
    (fun tr (entry : Sigma fun _ : ℤ => ℤ) => applyMaxIncomingReadId_quiet tr entry.1 entry.2)
    request.applyMaxIncomingReadIds.entries tr
  have houtgoing := fun tr => Quiet.foldl
    (fun tr (entry : Sigma fun _ : ℤ => ℤ) => applyMaxOutgoingReadId_quiet tr entry.1 entry.2)
    request.applyMaxOutgoingReadIds.entries tr
  have hdates := fun tr => Quiet.foldl
    (fun tr (entry : Sigma fun _ : ℤ => ℤ) => applyMaxOutgoingReadDate_quiet tr entry.1 entry.2)
    request.applyMaxOutgoingReadDates.entries tr
  exact (((hincoming _).trans (houtgoing _)).trans (hdates _)).trans
    (Quiet.foldl (fun tr k => readPeerHistory_quiet tr k) _ _)

theorem appliedTransaction_grows :
    Grows (exchangedTransaction order request database)
      (appliedTransaction order request database) :=
  (Grows.foldl (fun tr update => updateMessage_grows tr update) _ _).trans
    appliedTransaction_quiet.toGrows

theorem hasMessages_applied (k : ℤ) :
    HasMessages (appliedTransaction order request database).database.messages k ↔
      HasMessages (exchangedTransaction order request database).database.messages k := by
  rw [appliedTransaction_quiet.messages]
  exact List.foldlRecOn request.updateMessages Transaction.updateMessage
    (motive := fun tr : Transaction => HasMessages tr.database.messages k ↔
      HasMessages (exchangedTransaction order request database).database.messages k)
    Iff.rfl fun tr h update _ => (hasMessages_updateMessage tr k update).trans h

theorem runSteps_eq : runSteps order request database =
    request.clearConversationsWithPeerIds.foldl Transaction.removeMessagesFromConversation
      (appliedTransaction order request database) := rfl

/-- Deleting a row changes nothing but the list. -/
theorem deleteConversation_spec (tr : Transaction) (key : ℤ) :
    (tr.deleteConversation key).modifiedPeerIds = tr.modifiedPeerIds ∧
      (tr.deleteConversation key).peers = tr.peers ∧
      (tr.deleteConversation key).database.messages = tr.database.messages ∧
      ∀ k, (tr.deleteConversation key).database.conversationList.lookup k =
        if k = key ∧ TGPeerIdIsChannel k = false then none
        else tr.database.conversationList.lookup k := by
  rw [Transaction.deleteConversation]
  split
  case isTrue hchannel =>
    refine ⟨rfl, rfl, rfl, fun k => (if_neg ?_).symm⟩
    rintro ⟨rfl, hnot⟩
    rw [hchannel] at hnot
    cases hnot
  case isFalse hchannel =>
    refine ⟨rfl, rfl, rfl, fun k => ?_⟩
    rw [Transaction.write, lookup_erase_ite]
    by_cases hk : k = key
    · rw [if_pos hk, if_pos ⟨hk, hk ▸ Bool.eq_false_iff.mpr hchannel⟩]
    · rw [if_neg hk, if_neg fun h => hk h.1]

/-- Deleting rows changes nothing but the list. -/
theorem foldl_deleteConversation (tr : Transaction) (keys : List ℤ) :
    let after := keys.foldl Transaction.deleteConversation tr
    after.modifiedPeerIds = tr.modifiedPeerIds ∧ after.peers = tr.peers ∧
      after.database.messages = tr.database.messages ∧
      ∀ k, after.database.conversationList.lookup k =
        if k ∈ keys ∧ TGPeerIdIsChannel k = false then none
        else tr.database.conversationList.lookup k := by
  induction keys generalizing tr with
  | nil =>
      refine ⟨rfl, rfl, rfl, fun k => ?_⟩
      rw [if_neg fun h => List.not_mem_nil h.1]
      rfl
  | cons key keys ih =>
      obtain ⟨hmodified, hpeers, hmessages, hlist⟩ := ih (tr.deleteConversation key)
      obtain ⟨hmodified', hpeers', hmessages', hlist'⟩ := deleteConversation_spec tr key
      refine ⟨hmodified.trans hmodified', hpeers.trans hpeers', hmessages.trans hmessages',
        fun k => ?_⟩
      rw [List.foldl_cons, hlist, hlist']
      by_cases hk : k = key
      · subst hk
        by_cases hchannel : TGPeerIdIsChannel k = false
        · simp only [hchannel, and_true, if_true, ite_self, List.mem_cons, true_or]
        · rw [if_neg fun h => hchannel h.2, if_neg fun h => hchannel h.2,
            if_neg fun h => hchannel h.2]
      · simp only [hk, false_and, if_false, List.mem_cons, false_or]

/-- The steps after the conversations are removed write no messages. -/
theorem runTransaction_quiet :
    Quiet ((runSteps order request database).removeConversations
      request.removeConversationsWithPeerIds) (runTransaction order request database) := by
  have hdatas := Quiet.foldl
    (fun tr (entry : Sigma fun _ : ℤ => TGConversation) =>
      updateConversationData_quiet tr entry.1 entry.2) request.updateConversationDatas.entries
    ((runSteps order request database).removeConversations request.removeConversationsWithPeerIds)
  have hdrafts := fun tr => Quiet.foldl
    (fun tr (entry : Sigma fun _ : ℤ => Option TGDatabaseMessageDraft) =>
      updatePeerDraft_quiet tr entry.1 entry.2) request.updatePeerDrafts.entries tr
  simp only [runTransaction]
  refine Quiet.trans ?_ (unpinRemoved_quiet _ _)
  split
  · exact (hdatas.trans (hdrafts _)).trans (updatePinned_quiet _ _ _)
  · exact hdatas.trans (hdrafts _)

theorem clearedTransaction_grows :
    Grows (exchangedTransaction order request database)
      (request.removeConversationsWithPeerIds.foldl Transaction.removeMessagesFromConversation
        (runSteps order request database)) :=
  (appliedTransaction_grows.trans
    (Grows.foldl (fun tr k => removeMessagesFromConversation_grows tr k) _ _)).trans
      (Grows.foldl (fun tr k => removeMessagesFromConversation_grows tr k) _ _)

/-- **Only removed conversations lose their row** before the conversations are stored. -/
theorem runTransaction_list (k : ℤ) :
    (runTransaction order request database).database.conversationList.lookup k =
      if k ∈ request.removeConversationsWithPeerIds ∧ TGPeerIdIsChannel k = false then none
      else database.conversationList.lookup k := by
  obtain ⟨-, -, -, hlist⟩ := foldl_deleteConversation
    (request.removeConversationsWithPeerIds.foldl Transaction.removeMessagesFromConversation
      (runSteps order request database)) request.removeConversationsWithPeerIds
  rw [runTransaction_quiet.list, Transaction.removeConversations, hlist,
    clearedTransaction_grows.list, exchangedTransaction_grows.list]
  rfl

/-- What is touched when the messages are exchanged stays touched, and what is known known. -/
theorem runTransaction_grows :
    (exchangedTransaction order request database).modifiedPeerIds ⊆
        (runTransaction order request database).modifiedPeerIds ∧
      ∀ k ∈ (startTransaction request database).peers,
        k ∈ (runTransaction order request database).peers := by
  obtain ⟨hmodified, hpeers, -, -⟩ := foldl_deleteConversation
    (request.removeConversationsWithPeerIds.foldl Transaction.removeMessagesFromConversation
      (runSteps order request database)) request.removeConversationsWithPeerIds
  constructor
  · intro k hk
    refine runTransaction_quiet.modified ?_
    rw [Transaction.removeConversations, hmodified]
    exact clearedTransaction_grows.modified hk
  · intro k hk
    refine runTransaction_quiet.known k ?_
    rw [Transaction.removeConversations, hpeers]
    exact clearedTransaction_grows.known k (exchangedTransaction_grows.known k hk)

/-- **Which conversations have messages at the end** of a transaction. -/
theorem hasMessages_runTransaction (k : ℤ) :
    HasMessages (runTransaction order request database).database.messages k ↔
      ¬ LosesAllMessages order request database k := by
  obtain ⟨-, -, hmessages, -⟩ := foldl_deleteConversation
    (request.removeConversationsWithPeerIds.foldl Transaction.removeMessagesFromConversation
      (runSteps order request database)) request.removeConversationsWithPeerIds
  rw [runTransaction_quiet.messages, Transaction.removeConversations, hmessages,
    hasMessages_clearAll, runSteps_eq, hasMessages_clearAll, hasMessages_applied,
    hasMessages_exchanged, LosesAllMessages]
  push Not
  tauto

/-! ### Conversations that may be dropped -/

/-- What may be dropped when it is empty has messages to remove. -/
def Prepared.DropsListed (prepared : Prepared) : Prop :=
  ∀ k ∈ prepared.removeEmptyConversations, k ∈ prepared.removeMessagesByPeerId

theorem Prepared.DropsListed.remove {prepared : Prepared} (h : prepared.DropsListed)
    (interactive : Bool) (peerId : ℤ) (messageIds : List ℤ) :
    (prepared.remove interactive peerId messageIds).DropsListed := by
  intro k hk
  refine Dictionary.mem_append.mpr ?_
  simp only [Prepared.remove] at hk
  split at hk
  · exact .inr (h k hk)
  · rcases List.mem_insert_iff.mp hk with heq | hk
    · exact .inl heq
    · exact .inr (h k hk)

theorem Prepared.DropsListed.addRemoved {prepared : Prepared} (h : prepared.DropsListed)
    (interactive : Bool) (nPeerId : ℤ) (messageIds : List ℤ) :
    (prepared.addRemoved database interactive nPeerId messageIds).DropsListed := by
  simp only [Prepared.addRemoved]
  split
  · refine List.foldlRecOn messageIds _ h ?_
    rintro prepared h messageId -
    split
    · exact h.remove _ _ _
    · exact h
  · exact h.remove _ _ _

/-- Conversations that may be dropped when they are empty have messages to remove. -/
theorem prepareTransaction_dropsListed (request : Request) (database : Database) :
    (prepareTransaction request database).DropsListed := by
  have hstart : Prepared.DropsListed {} := fun k hk => absurd hk List.not_mem_nil
  have hadded : Prepared.DropsListed
      (request.addMessages.foldl (Prepared.addMessage database) {}) := by
    refine List.foldlRecOn request.addMessages (Prepared.addMessage database) hstart ?_
    rintro prepared h message -
    simp only [Prepared.addMessage]
    split
    · exact h
    · exact h
  have hupdated : Prepared.DropsListed
      (request.updateMessages.foldl (Prepared.addUpdate database)
        (request.addMessages.foldl (Prepared.addMessage database) {})) := by
    refine List.foldlRecOn request.updateMessages (Prepared.addUpdate database) hadded ?_
    rintro prepared h update -
    simp only [Prepared.addUpdate]
    split
    · exact h
    · split
      · exact h
      · exact h
  have hremoved : Prepared.DropsListed (request.removeMessages.foldl
      (Prepared.addRemoved database false) _) :=
    List.foldlRecOn request.removeMessages.entries _ hupdated
      fun _ h entry _ => h.addRemoved false entry.1 entry.2
  have hinteractive : Prepared.DropsListed (request.removeMessagesInteractive.foldl
      (Prepared.addRemoved database true) _) :=
    List.foldlRecOn request.removeMessagesInteractive.entries _ hremoved
      fun _ h entry _ => h.addRemoved true entry.1 entry.2
  simp only [prepareTransaction]
  split
  · exact hinteractive
  · exact hinteractive

end Telegraph.Messages
