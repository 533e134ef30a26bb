import Telegraph.Messages.Transaction

/-!
# What the Steps of a Transaction Do

Each step edits the dictionary of peers one peer at a time and puts every peer it edits into
`modifiedPeerIds`. No step before the storing writes a row of the list of conversations, apart
from the removal of conversations.

## Main results

* `Follows`: **what holds of a transaction between two of its steps**.
* `follows_runTransaction`: **it holds at the end of all steps**.
* `prepareTransaction_covered`: every peer with messages to add or to remove is prepared.
* `removed_unreadCount`: a conversation that is removed ends without unread messages.
-/

open Dictionary

namespace Telegraph.Messages

/-! ### Messages leave the conversations alone -/

/-- Without unread messages. -/
def TGConversation.cleared (conversation : TGConversation) : TGConversation :=
  { conversation with unreadCount := 0, serviceUnreadCount := 0 }

/-- Adding messages changes neither the list nor the global count, and counts upwards. -/
theorem foldl_addMessage_frame (conversation : Option TGConversation) (nPeerId : ℤ)
    (messages : List TGMessage) (database : Database) :
    let state := messages.foldl (Transaction.addMessage conversation nPeerId) (database, 0)
    state.1.conversationList = database.conversationList ∧
      state.1.unreadCount = database.unreadCount ∧ 0 ≤ state.2 := by
  refine List.foldlRecOn messages _ (motive := fun state : Database × ℤ =>
    state.1.conversationList = database.conversationList ∧
      state.1.unreadCount = database.unreadCount ∧ 0 ≤ state.2) ⟨rfl, rfl, Int.le_refl 0⟩ ?_
  rintro state ⟨hlist, hglobal, hadded⟩ message -
  unfold Transaction.addMessage
  split
  · exact ⟨hlist, hglobal, hadded⟩
  · refine ⟨hlist, hglobal, ?_⟩
    dsimp only
    split <;> omega

/-- Removing messages changes neither the list nor the global count. -/
theorem foldl_removeMessage_frame (conversation : Option TGConversation) (nPeerId : ℤ)
    (messageIds : List ℤ) (database : Database) :
    let state := messageIds.foldl (Transaction.removeMessage conversation nPeerId) (database, 0)
    state.1.conversationList = database.conversationList ∧
      state.1.unreadCount = database.unreadCount := by
  refine List.foldlRecOn messageIds _ (motive := fun state : Database × ℤ =>
    state.1.conversationList = database.conversationList ∧
      state.1.unreadCount = database.unreadCount) ⟨rfl, rfl⟩ ?_
  rintro state ⟨hlist, hglobal⟩ messageId -
  unfold Transaction.removeMessage
  split
  · exact ⟨hlist, hglobal⟩
  · exact ⟨hlist, hglobal⟩

theorem ne_zero_of_user {k : ℤ} (h : TGPeerIdIsUser k = true) : k ≠ 0 := by
  rintro rfl
  revert h
  decide

theorem clamp_nonneg (count : ℤ) : 0 ≤ if count < 0 then 0 else count := by
  split <;> omega

/-! ### Between two steps -/

/-- What holds of a transaction between two of its steps. -/
structure Follows (peerIds removed : List ℤ) (start tr : Transaction) : Prop where
  list : ∀ k, TGPeerIdIsChannel k = false → tr.database.conversationList.lookup k =
    if k ∈ removed then none else start.database.conversationList.lookup k
  global : tr.database.unreadCount = start.database.unreadCount
  edited : ∀ k, tr.peers.lookup k ≠ start.peers.lookup k →
    k ∈ peerIds ∧ k ∈ tr.modifiedPeerIds
  known : ∀ k, k ∈ start.peers → k ∈ tr.peers
  counts : ∀ k c, tr.peers.lookup k = some c → 0 ≤ c.unreadCount
  nonzero : tr.peers.lookup 0 = none

namespace Follows

variable {peerIds removed : List ℤ} {start tr : Transaction} {k : ℤ}

theorem touch (h : Follows peerIds removed start tr) (k : ℤ) :
    Follows peerIds removed start (tr.touch k) :=
  ⟨h.list, h.global, fun other hother =>
    ⟨(h.edited other hother).1, List.mem_insert_of_mem (h.edited other hother).2⟩,
    h.known, h.counts, h.nonzero⟩

theorem invalidate (h : Follows peerIds removed start tr) (k : ℤ) :
    Follows peerIds removed start (tr.invalidate k) :=
  ⟨h.list, h.global, h.edited, h.known, h.counts, h.nonzero⟩

theorem write (h : Follows peerIds removed start tr) {database : Database}
    (hlist : database.conversationList = tr.database.conversationList)
    (hglobal : database.unreadCount = tr.database.unreadCount) :
    Follows peerIds removed start (tr.write database) :=
  ⟨fun k hk => (congrArg (AList.lookup k) hlist).trans (h.list k hk), hglobal.trans h.global,
    h.edited, h.known, h.counts, h.nonzero⟩

theorem ne_zero (h : Follows peerIds removed start tr) {c : TGConversation}
    (hpeer : tr.peers.lookup k = some c) : k ≠ 0 := by
  rintro rfl
  rw [h.nonzero] at hpeer
  cases hpeer

theorem modify (h : Follows peerIds removed start tr) {c : TGConversation} (hk : k ∈ peerIds)
    (hne : k ≠ 0) (hc : 0 ≤ c.unreadCount) :
    Follows peerIds removed start (tr.modify k c) where
  list := h.list
  global := h.global
  edited := by
    intro other hother
    by_cases heq : other = k
    · exact ⟨heq ▸ hk, heq ▸ List.mem_insert_self⟩
    · simp only [Transaction.modify, Transaction.setPeer, Transaction.touch, lookup_insert_ite,
        if_neg heq] at hother ⊢
      exact ⟨(h.edited other hother).1, List.mem_insert_of_mem (h.edited other hother).2⟩
  known := fun other hother => (AList.mem_insert _).mpr (Or.inr (h.known other hother))
  counts := by
    intro other c' hother
    simp only [Transaction.modify, Transaction.setPeer, Transaction.touch,
      lookup_insert_ite] at hother
    split at hother
    · exact Option.some.inj hother ▸ hc
    · exact h.counts other c' hother
  nonzero := (AList.lookup_insert_ne hne.symm).trans h.nonzero

theorem modifyIf (h : Follows peerIds removed start tr) {c : TGConversation} (hk : k ∈ peerIds)
    (hne : k ≠ 0) (hc : 0 ≤ c.unreadCount) (condition : Prop) [Decidable condition] :
    Follows peerIds removed start (if condition then tr.modify k c else tr) := by
  split
  · exact h.modify hk hne hc
  · exact h

/-! ### One peer -/

theorem resetPeerReadState (h : Follows peerIds removed start tr) (hk : k ∈ peerIds)
    {readState : Option TGPeerReadState}
    (hcount : ∀ given, readState = some given → 0 ≤ given.unreadCount) :
    Follows peerIds removed start (tr.resetPeerReadState k readState) := by
  have hwrite : Follows peerIds removed start (tr.write { tr.database with
      validateReadState := tr.database.validateReadState.erase k }) := h.write rfl rfl
  unfold Transaction.resetPeerReadState
  dsimp only
  split
  · rename_i given conversation hpeer
    exact hwrite.modify hk (h.ne_zero hpeer) (hcount given rfl)
  · exact hwrite

theorem readPeerHistory (h : Follows peerIds removed start tr) (hk : k ∈ peerIds) :
    Follows peerIds removed start (tr.readPeerHistory k) := by
  unfold Transaction.readPeerHistory
  split
  · exact h
  · rename_i conversation hpeer
    refine Follows.modifyIf h hk (h.ne_zero hpeer) ?_ _
    exact Int.le_refl 0

theorem addPeerMessages (h : Follows peerIds removed start tr) (hk : k ∈ peerIds)
    (messages : List TGMessage) :
    Follows peerIds removed start (tr.addPeerMessages k messages) := by
  obtain ⟨hlist, hglobal, hadded⟩ :=
    foldl_addMessage_frame (tr.peers.lookup k) k messages tr.database
  unfold Transaction.addPeerMessages
  dsimp only
  generalize messages.foldl (Transaction.addMessage (tr.peers.lookup k) k) (tr.database, 0)
    = state at hlist hglobal hadded ⊢
  have hwrite := h.write hlist hglobal
  split
  · rename_i conversation hpeer
    have hcount := h.counts k conversation hpeer
    split
    · split
      · exact hwrite.modify hk (h.ne_zero hpeer) (Int.add_nonneg hcount hadded)
      · exact (hwrite.invalidate k).touch k
    · exact hwrite.touch k
  · split
    · exact (hwrite.invalidate k).touch k
    · split
      · rename_i huser
        exact (hwrite.modify hk (ne_zero_of_user huser) (Int.le_refl 0)).invalidate k
      · exact (hwrite.invalidate k).touch k

theorem removePeerMessages (h : Follows peerIds removed start tr) (hk : k ∈ peerIds)
    (messageIds : List ℤ) :
    Follows peerIds removed start (tr.removePeerMessages k messageIds) := by
  obtain ⟨hlist, hglobal⟩ :=
    foldl_removeMessage_frame (tr.peers.lookup k) k messageIds tr.database
  unfold Transaction.removePeerMessages
  dsimp only [Transaction.touch]
  generalize messageIds.foldl (Transaction.removeMessage (tr.peers.lookup k) k) (tr.database, 0)
    = state at hlist hglobal ⊢
  have hwrite := (h.touch k).write hlist hglobal
  split
  · split
    · rename_i conversation hpeer
      split
      · exact hwrite.modify hk (h.ne_zero hpeer) (clamp_nonneg _)
      · exact hwrite.invalidate k
    · exact hwrite.invalidate k
  · exact hwrite

theorem updateMessage (h : Follows peerIds removed start tr) (update : TGDatabaseUpdateMessage) :
    Follows peerIds removed start (tr.updateMessage update) := by
  unfold Transaction.updateMessage
  split
  · exact h
  · split
    · exact h
    · split
      · exact h
      · split
        · exact h.touch _
        · refine Follows.touch (Follows.write h ?_ ?_) _ <;> rfl

theorem applyMaxIncomingReadId (h : Follows peerIds removed start tr) (hk : k ∈ peerIds)
    (maxId : ℤ) : Follows peerIds removed start (tr.applyMaxIncomingReadId k maxId) := by
  unfold Transaction.applyMaxIncomingReadId
  split
  · exact h.invalidate k
  · rename_i conversation hpeer
    split
    · split
      · dsimp only
        refine Follows.modify ?_ hk (h.ne_zero hpeer) (clamp_nonneg _)
        split
        · exact h.invalidate k
        · exact h
      · exact h
    · exact h.invalidate k

theorem applyMaxOutgoingReadId (h : Follows peerIds removed start tr) (hk : k ∈ peerIds)
    (maxId : ℤ) : Follows peerIds removed start (tr.applyMaxOutgoingReadId k maxId) := by
  unfold Transaction.applyMaxOutgoingReadId
  split
  · split
    · exact h.touch k
    · exact h
  · rename_i conversation hpeer
    refine Follows.modifyIf h hk (h.ne_zero hpeer) ?_ _
    exact h.counts k conversation hpeer

theorem applyMaxOutgoingReadDate (h : Follows peerIds removed start tr) (hk : k ∈ peerIds)
    (date : ℤ) : Follows peerIds removed start (tr.applyMaxOutgoingReadDate k date) := by
  unfold Transaction.applyMaxOutgoingReadDate
  split
  · split
    · exact h.touch k
    · exact h
  · rename_i conversation hpeer
    refine Follows.modifyIf h hk (h.ne_zero hpeer) ?_ _
    exact h.counts k conversation hpeer

theorem removeMessagesFromConversation (h : Follows peerIds removed start tr)
    (hk : k ∈ peerIds) :
    Follows peerIds removed start (tr.removeMessagesFromConversation k) := by
  unfold Transaction.removeMessagesFromConversation
  dsimp only
  split
  · rename_i conversation hpeer
    refine Follows.modify (Follows.write h ?_ ?_) hk (h.ne_zero hpeer) ?_
    · rfl
    · rfl
    · exact Int.le_refl 0
  · refine Follows.write h ?_ ?_ <;> rfl

theorem mergeChannel_unreadCount (self channel : TGConversation) :
    (self.mergeChannel channel).unreadCount = self.unreadCount := by
  unfold TGConversation.mergeChannel
  split <;> rfl

theorem updateConversationData (h : Follows peerIds removed start tr) (hk : k ∈ peerIds)
    (hne : k ≠ 0) {given : TGConversation} (hgiven : 0 ≤ given.unreadCount) :
    Follows peerIds removed start (tr.updateConversationData k given) := by
  unfold Transaction.updateConversationData
  split
  · exact h.modify hk hne hgiven
  · rename_i current hpeer
    refine h.modify hk hne ?_
    have hcurrent := h.counts k current hpeer
    split
    · split
      · rw [mergeChannel_unreadCount]
        exact hcurrent
      · exact hcurrent
    · exact hcurrent

theorem updatePeerDraft (h : Follows peerIds removed start tr)
    (draft : Option TGDatabaseMessageDraft) :
    Follows peerIds removed start (tr.updatePeerDraft k draft) := by
  unfold Transaction.updatePeerDraft
  dsimp only
  split
  · refine Follows.touch (Follows.write h ?_ ?_) k <;> rfl
  · exact h

theorem touchAll (h : Follows peerIds removed start tr) (keys : List ℤ) :
    Follows peerIds removed start (keys.foldl Transaction.touch tr) :=
  List.foldlRecOn keys _ h fun _ h k _ => h.touch k

theorem updatePinned (h : Follows peerIds removed start tr) (force : Bool) (updated : List ℤ) :
    Follows peerIds removed start (tr.updatePinned force updated) :=
  ((h.touchAll _).touchAll _).write rfl rfl

theorem unpinRemoved (h : Follows peerIds removed start tr) (keys : List ℤ) :
    Follows peerIds removed start (tr.unpinRemoved keys) := by
  unfold Transaction.unpinRemoved
  dsimp only
  split
  · exact (h.touchAll _).write rfl rfl
  · exact h

theorem deleteConversation (h : Follows peerIds removed start tr) (k : ℤ) :
    Follows peerIds (k :: removed) start (tr.deleteConversation k) := by
  unfold Transaction.deleteConversation
  split
  · rename_i hchannel
    refine ⟨?_, h.global, h.edited, h.known, h.counts, h.nonzero⟩
    intro other hother
    have hne : other ≠ k := by
      rintro rfl
      rw [hother] at hchannel
      cases hchannel
    rw [h.list other hother]
    simp only [List.mem_cons, hne, false_or]
  · refine ⟨?_, h.global, h.edited, h.known, h.counts, h.nonzero⟩
    intro other hother
    dsimp only [Transaction.write]
    rw [lookup_erase_ite, h.list other hother]
    by_cases heq : other = k
    · simp [heq]
    · simp only [List.mem_cons, heq, false_or, if_false]

end Follows

/-! ### Prepared peers -/

namespace Prepared

variable {prepared : Prepared} {database : Database} {k : ℤ}

theorem mem_addPeers {keys : List ℤ} :
    k ∈ (prepared.addPeers keys).peerIds ↔ k ∈ keys ∨ k ∈ prepared.peerIds := by
  unfold addPeers
  dsimp only
  induction keys generalizing prepared with
  | nil => simp
  | cons key keys ih =>
      have hnext := @ih { prepared with peerIds := prepared.peerIds.insert key }
      dsimp only at hnext
      rw [List.foldl_cons, hnext, List.mem_insert_iff, List.mem_cons]
      tauto

/-- Every peer with messages to add or to remove is one of the peers. -/
structure Covered (prepared : Prepared) : Prop where
  added : ∀ k ∈ prepared.addMessagesByPeerId, k ∈ prepared.peerIds
  removed : ∀ k ∈ prepared.removeMessagesByPeerId, k ∈ prepared.peerIds

namespace Covered

theorem addPeers (h : Covered prepared) (keys : List ℤ) : Covered (prepared.addPeers keys) :=
  ⟨fun k hk => mem_addPeers.mpr (Or.inr (h.added k hk)),
    fun k hk => mem_addPeers.mpr (Or.inr (h.removed k hk))⟩

theorem addMessage (h : Covered prepared) (message : TGMessage) :
    Covered (prepared.addMessage database message) := by
  unfold Prepared.addMessage
  split
  · exact h
  · refine ⟨fun k hk => ?_, fun k hk => List.mem_insert_of_mem (h.removed k hk)⟩
    rcases Dictionary.mem_append.mp hk with heq | hold
    · exact heq ▸ List.mem_insert_self
    · exact List.mem_insert_of_mem (h.added k hold)

theorem remove (h : Covered prepared) (interactive : Bool) (peerId : ℤ) (messageIds : List ℤ) :
    Covered (prepared.remove interactive peerId messageIds) := by
  refine ⟨fun k hk => List.mem_insert_of_mem (h.added k hk), fun k hk => ?_⟩
  rcases Dictionary.mem_append.mp hk with heq | hold
  · exact heq ▸ List.mem_insert_self
  · exact List.mem_insert_of_mem (h.removed k hold)

theorem addUpdate (h : Covered prepared) (update : TGDatabaseUpdateMessage) :
    Covered (prepared.addUpdate database update) := by
  unfold Prepared.addUpdate
  split
  · exact h.addPeers _
  · split
    · exact h.addPeers _
    · exact h

theorem addRemoved (h : Covered prepared) (interactive : Bool) (nPeerId : ℤ)
    (messageIds : List ℤ) :
    Covered (prepared.addRemoved database interactive nPeerId messageIds) := by
  unfold Prepared.addRemoved
  split
  · refine List.foldlRecOn messageIds _ h ?_
    intro prepared h messageId _
    split
    · exact h.remove _ _ _
    · exact h
  · exact h.remove _ _ _

end Covered
end Prepared

theorem prepareTransaction_covered (request : Request) (database : Database) :
    (prepareTransaction request database).Covered := by
  have hstart : Prepared.Covered {} :=
    ⟨fun k hk => (AList.notMem_empty k hk).elim, fun k hk => (AList.notMem_empty k hk).elim⟩
  have hadded := List.foldlRecOn request.addMessages (Prepared.addMessage database) hstart
    fun _ h message _ => h.addMessage message
  have hupdated := List.foldlRecOn request.updateMessages (Prepared.addUpdate database) hadded
    fun _ h update _ => h.addUpdate update
  have hremoved : Prepared.Covered (request.removeMessages.foldl
      (Prepared.addRemoved database false) _) :=
    List.foldlRecOn request.removeMessages.entries _ hupdated
      fun _ h entry _ => h.addRemoved false entry.1 entry.2
  have hinteractive : Prepared.Covered (request.removeMessagesInteractive.foldl
      (Prepared.addRemoved database true) _) :=
    List.foldlRecOn request.removeMessagesInteractive.entries _ hremoved
      fun _ h entry _ => h.addRemoved true entry.1 entry.2
  have hpeers := ((((((((hinteractive.addPeers request.updateConversationDatas.keys).addPeers
    request.applyMaxIncomingReadIds.keys).addPeers request.applyMaxOutgoingReadIds.keys).addPeers
    request.applyMaxOutgoingReadDates.keys).addPeers request.resetPeerReadStates.keys).addPeers
    request.readHistoryForPeerIds).addPeers request.updatePeerDrafts.keys).addPeers
    request.clearConversationsWithPeerIds).addPeers request.removeConversationsWithPeerIds
  unfold prepareTransaction
  dsimp only
  split
  · exact (hpeers.addPeers _).addPeers _
  · exact hpeers

/-- The peers that the request names. -/
def Request.namedPeers (request : Request) : List ℤ :=
  request.updateConversationDatas.keys ++ request.applyMaxIncomingReadIds.keys ++
    request.applyMaxOutgoingReadIds.keys ++ request.applyMaxOutgoingReadDates.keys ++
    request.resetPeerReadStates.keys ++ request.readHistoryForPeerIds ++
    request.clearConversationsWithPeerIds ++ request.removeConversationsWithPeerIds

theorem namedPeers_prepared {request : Request} {database : Database} {k : ℤ}
    (hk : k ∈ request.namedPeers) : k ∈ (prepareTransaction request database).peerIds := by
  simp only [Request.namedPeers, List.mem_append] at hk
  unfold prepareTransaction
  dsimp only
  split <;> simp only [Prepared.mem_addPeers] <;> tauto

theorem removed_prepared {request : Request} {database : Database} {k : ℤ}
    (hk : k ∈ request.removeConversationsWithPeerIds) :
    k ∈ (prepareTransaction request database).peerIds :=
  namedPeers_prepared (by simp [Request.namedPeers, hk])

theorem foldl_loadPeer_lookup (database : Database) (peerIds : List ℤ)
    (peers : Dictionary ℤ TGConversation) (k : ℤ) :
    (peerIds.foldl (loadPeer database) peers).lookup k
      = if k ∈ peerIds then (database.loadConversationWithId k).or (peers.lookup k)
        else peers.lookup k := by
  induction peerIds generalizing peers with
  | nil => simp
  | cons peerId peerIds ih =>
      rw [List.foldl_cons, ih, loadPeer]
      by_cases heq : k = peerId
      · subst heq
        cases hload : database.loadConversationWithId k <;> simp
      · cases database.loadConversationWithId peerId <;> simp [heq]

/-- Every prepared peer with a row is loaded. -/
theorem loadPeers_lookup (database : Database) (peerIds : List ℤ) (k : ℤ) :
    (loadPeers database peerIds).lookup k
      = if k ∈ peerIds then database.loadConversationWithId k else none := by
  rw [loadPeers, foldl_loadPeer_lookup, AList.lookup_empty, Option.or_none]

/-! ### A run -/

namespace Follows

variable {peerIds removed : List ℤ} {start tr : Transaction}

/-- Peers whose conversation is in the dictionary were loaded or are among those named. -/
theorem mem_peerIds (h : Follows peerIds removed start tr)
    (hstart : ∀ k ∈ start.peers, k ∈ peerIds) {k : ℤ} (hk : k ∈ tr.peers) : k ∈ peerIds := by
  by_cases hsame : tr.peers.lookup k = start.peers.lookup k
  · refine hstart k (AList.lookup_isSome.mp ?_)
    rw [← hsame]
    exact AList.lookup_isSome.mpr hk
  · exact (h.edited k hsame).1

theorem removeConversations (h : Follows peerIds [] start tr) {keys : List ℤ}
    (hkeys : ∀ k ∈ keys, k ∈ peerIds) :
    Follows peerIds keys start (tr.removeConversations keys) := by
  have hcleared := List.foldlRecOn keys Transaction.removeMessagesFromConversation h
    fun _ h k hk => h.removeMessagesFromConversation (hkeys k hk)
  have hdeleted : ∀ (rest : List ℤ) {removed : List ℤ} {tr : Transaction},
      Follows peerIds removed start tr →
        Follows peerIds (rest.reverse ++ removed) start
          (rest.foldl Transaction.deleteConversation tr) := by
    intro rest
    induction rest with
    | nil => exact fun h => h
    | cons k rest ih =>
        intro removed tr h
        rw [List.reverse_cons, List.append_assoc]
        exact ih (h.deleteConversation k)
  have hall := hdeleted keys hcleared
  refine ⟨fun k hk => ?_, hall.global, hall.edited, hall.known, hall.counts, hall.nonzero⟩
  rw [List.append_nil] at hall
  have hlookup := hall.list k hk
  simp only [List.mem_reverse] at hlookup
  exact hlookup

end Follows

/-- A state in which the global count is the sum of the counts outside the channels. -/
structure Database.Counted (database : Database) : Prop where
  global : database.unreadCount = database.conversationList.total nonChannelUnread
  counts : ∀ k c, database.loadConversationWithId k = some c → 0 ≤ c.unreadCount
  nonzero : database.conversationList.lookup 0 = none

/-- The counts that a request gives are not negative. Data of a conversation that the same
request removes have no unread messages, unless it is known. -/
structure Request.WellGiven (request : Request) (database : Database) : Prop where
  reset : ∀ k readState, request.resetPeerReadStates.lookup k = some (some readState) →
    0 ≤ readState.unreadCount
  datas : ∀ k given, request.updateConversationDatas.lookup k = some given →
    k ≠ 0 ∧ 0 ≤ given.unreadCount
  removed : ∀ k ∈ request.removeConversationsWithPeerIds, ∀ given,
    request.updateConversationDatas.lookup k = some given →
      database.loadConversationWithId k = none → given.unreadCount = 0

section Run

variable {order : HashOrder} {request : Request} {database : Database}

theorem mem_keys_of_mem_entries {α : Type*} {d : Dictionary ℤ α} {entry : Sigma fun _ : ℤ => α}
    (h : entry ∈ d.entries) : entry.1 ∈ d.keys :=
  List.mem_map_of_mem h

/-- A deactivated group that is read is in the dictionary. -/
theorem mem_of_readDeactivated {tr : Transaction} {k : ℤ} (hk : k ∈ tr.readDeactivatedPeerIds) :
    k ∈ tr.peers := by
  obtain ⟨entry, hentry, rfl⟩ := List.mem_map.mp hk
  exact AList.mem_keys.mpr (mem_keys_of_mem_entries (List.mem_filter.mp hentry).1)

theorem startTransaction_mem {k : ℤ} (hk : k ∈ (startTransaction request database).peers) :
    k ∈ (prepareTransaction request database).peerIds := by
  have hsome := AList.lookup_isSome.mpr hk
  rw [startTransaction, loadPeers_lookup] at hsome
  by_contra hnot
  rw [if_neg hnot] at hsome
  cases hsome

theorem follows_start (hdatabase : database.Counted) :
    Follows (prepareTransaction request database).peerIds []
      (startTransaction request database) (startTransaction request database) := by
  refine ⟨fun _ _ => by simp, rfl, fun k hk => (hk rfl).elim, fun _ hk => hk, ?_, ?_⟩
  · intro k c hpeer
    rw [startTransaction, loadPeers_lookup] at hpeer
    split at hpeer
    · exact hdatabase.counts k c hpeer
    · cases hpeer
  · rw [startTransaction, loadPeers_lookup]
    split
    · exact hdatabase.nonzero
    · rfl

theorem follows_runSteps (hdatabase : database.Counted)
    (hrequest : request.WellGiven database) :
    Follows (prepareTransaction request database).peerIds []
      (startTransaction request database) (runSteps order request database) := by
  have hcovered := prepareTransaction_covered request database
  have hnamed : ∀ {k}, k ∈ request.namedPeers →
      k ∈ (prepareTransaction request database).peerIds := namedPeers_prepared
  have harranged : ∀ {keys : List ℤ} {k : ℤ}, k ∈ order.arrange keys → k ∈ keys :=
    fun hk => (order.perm _).mem_iff.mp hk
  have hstart := @follows_start request database hdatabase
  have hreset := List.foldlRecOn request.resetPeerReadStates.entries
    (fun tr entry => tr.resetPeerReadState entry.1 entry.2) hstart
    fun _ h entry hentry => h.resetPeerReadState
      (hnamed (by simp [Request.namedPeers, mem_keys_of_mem_entries hentry])) fun given heq =>
        hrequest.reset entry.1 given (heq ▸ AList.mem_lookup_iff.mpr hentry)
  have hread := List.foldlRecOn request.readHistoryForPeerIds Transaction.readPeerHistory hreset
    fun _ h k hk => h.readPeerHistory (hnamed (by simp [Request.namedPeers, hk]))
  have hadded := List.foldlRecOn
    (order.arrange (prepareTransaction request database).addMessagesByPeerId.keys)
    (fun tr k => tr.addPeerMessages k
      ((prepareTransaction request database).addMessagesByPeerId.listAt k)) hread
    fun _ h k hk => h.addPeerMessages (hcovered.added k (AList.mem_keys.mpr (harranged hk))) _
  have hremoved := List.foldlRecOn
    (order.arrange (prepareTransaction request database).removeMessagesByPeerId.keys)
    (fun tr k => tr.removePeerMessages k
      ((prepareTransaction request database).removeMessagesByPeerId.listAt k)) hadded
    fun _ h k hk => h.removePeerMessages (hcovered.removed k (AList.mem_keys.mpr (harranged hk))) _
  have hupdated := List.foldlRecOn request.updateMessages Transaction.updateMessage hremoved
    fun _ h update _ => h.updateMessage update
  have hincoming := List.foldlRecOn request.applyMaxIncomingReadIds.entries
    (fun tr entry => tr.applyMaxIncomingReadId entry.1 entry.2) hupdated
    fun _ h entry hentry => h.applyMaxIncomingReadId
      (hnamed (by simp [Request.namedPeers, mem_keys_of_mem_entries hentry])) entry.2
  have houtgoing := List.foldlRecOn request.applyMaxOutgoingReadIds.entries
    (fun tr entry => tr.applyMaxOutgoingReadId entry.1 entry.2) hincoming
    fun _ h entry hentry => h.applyMaxOutgoingReadId
      (hnamed (by simp [Request.namedPeers, mem_keys_of_mem_entries hentry])) entry.2
  have hdates := List.foldlRecOn request.applyMaxOutgoingReadDates.entries
    (fun tr entry => tr.applyMaxOutgoingReadDate entry.1 entry.2) houtgoing
    fun _ h entry hentry => h.applyMaxOutgoingReadDate
      (hnamed (by simp [Request.namedPeers, mem_keys_of_mem_entries hentry])) entry.2
  have hdeactivated := List.foldlRecOn (order.arrange (Transaction.readDeactivatedPeerIds _))
    Transaction.readPeerHistory hdates fun _ h k hk => h.readPeerHistory
      (hdates.mem_peerIds (fun _ => startTransaction_mem)
        (mem_of_readDeactivated (harranged hk)))
  exact List.foldlRecOn request.clearConversationsWithPeerIds
    Transaction.removeMessagesFromConversation hdeactivated fun _ h k hk =>
      h.removeMessagesFromConversation (hnamed (by simp [Request.namedPeers, hk]))

theorem follows_runTransaction (hdatabase : database.Counted)
    (hrequest : request.WellGiven database) :
    Follows (prepareTransaction request database).peerIds request.removeConversationsWithPeerIds
      (startTransaction request database) (runTransaction order request database) := by
  have hnamed : ∀ {k}, k ∈ request.namedPeers →
      k ∈ (prepareTransaction request database).peerIds := namedPeers_prepared
  have hremoved := (@follows_runSteps order request database hdatabase hrequest).removeConversations
    fun k (hk : k ∈ request.removeConversationsWithPeerIds) => removed_prepared hk
  have hdatas := List.foldlRecOn request.updateConversationDatas.entries
    (fun tr entry => tr.updateConversationData entry.1 entry.2) hremoved
    fun _ h entry hentry => h.updateConversationData
      (hnamed (by simp [Request.namedPeers, mem_keys_of_mem_entries hentry]))
      (hrequest.datas entry.1 entry.2 (AList.mem_lookup_iff.mpr hentry)).1
      (hrequest.datas entry.1 entry.2 (AList.mem_lookup_iff.mpr hentry)).2
  have hdrafts := List.foldlRecOn request.updatePeerDrafts.entries
    (fun tr entry => tr.updatePeerDraft entry.1 entry.2) hdatas
    fun _ h entry _ => h.updatePeerDraft entry.2
  unfold runTransaction
  dsimp only
  refine Follows.unpinRemoved ?_ _
  split
  · exact hdrafts.updatePinned _ _
  · exact hdrafts

/-! ### Removed conversations -/

theorem touchAll_peers (tr : Transaction) (keys : List ℤ) :
    (keys.foldl Transaction.touch tr).peers = tr.peers :=
  List.foldlRecOn keys Transaction.touch (motive := fun after : Transaction =>
    after.peers = tr.peers) rfl fun _ h _ _ => h

theorem unpinRemoved_peers (tr : Transaction) (keys : List ℤ) :
    (tr.unpinRemoved keys).peers = tr.peers := by
  unfold Transaction.unpinRemoved
  dsimp only
  split
  · exact touchAll_peers _ _
  · rfl

theorem updatePinned_peers (tr : Transaction) (force : Bool) (updated : List ℤ) :
    (tr.updatePinned force updated).peers = tr.peers :=
  (touchAll_peers _ _).trans (touchAll_peers _ _)

theorem updatePeerDrafts_peers (tr : Transaction)
    (drafts : Dictionary ℤ (Option TGDatabaseMessageDraft)) :
    (drafts.foldl Transaction.updatePeerDraft tr).peers = tr.peers := by
  refine List.foldlRecOn drafts.entries _ (motive := fun after : Transaction =>
    after.peers = tr.peers) rfl ?_
  intro after h entry _
  unfold Transaction.updatePeerDraft
  dsimp only
  split <;> exact h

/-- The conversations of the dictionary at the end come from the data given. -/
theorem runTransaction_peers :
    (runTransaction order request database).peers =
      (request.updateConversationDatas.foldl Transaction.updateConversationData
        ((runSteps order request database).removeConversations
          request.removeConversationsWithPeerIds)).peers := by
  unfold runTransaction
  dsimp only
  rw [unpinRemoved_peers]
  split
  · rw [updatePinned_peers, updatePeerDrafts_peers]
  · rw [updatePeerDrafts_peers]

theorem removeMessagesFromConversation_lookup (tr : Transaction) (k other : ℤ) :
    (tr.removeMessagesFromConversation k).peers.lookup other =
      if other = k then (tr.peers.lookup k).map TGConversation.cleared
      else tr.peers.lookup other := by
  unfold Transaction.removeMessagesFromConversation
  dsimp only [Transaction.write]
  by_cases heq : other = k
  · subst heq
    cases hpeer : tr.peers.lookup other with
    | none => simp [hpeer]
    | some conversation =>
        simp only [Transaction.modify, Transaction.setPeer, Transaction.touch, lookup_insert_ite,
          if_true, Option.map_some]
        rfl
  · cases tr.peers.lookup k with
    | none => simp only [heq, if_false]
    | some conversation =>
        simp only [Transaction.modify, Transaction.setPeer, Transaction.touch, lookup_insert_ite,
          heq, if_false]

/-- A conversation that is removed has its counts cleared. -/
theorem removeConversations_peers {tr : Transaction} {keys : List ℤ} {k : ℤ}
    {c : TGConversation} (hk : k ∈ keys)
    (hpeer : (tr.removeConversations keys).peers.lookup k = some c) : c.unreadCount = 0 := by
  have hdeleted : (tr.removeConversations keys).peers
      = (keys.foldl Transaction.removeMessagesFromConversation tr).peers := by
    refine List.foldlRecOn keys Transaction.deleteConversation (motive := fun after : Transaction =>
      after.peers = (keys.foldl Transaction.removeMessagesFromConversation tr).peers) rfl ?_
    intro after h other _
    unfold Transaction.deleteConversation
    split <;> exact h
  have hcleared : ∀ (rest : List ℤ) (tr : Transaction),
      (k ∈ rest ∨ ∀ before, tr.peers.lookup k = some before → before.unreadCount = 0) →
        ∀ c, (rest.foldl Transaction.removeMessagesFromConversation tr).peers.lookup k = some c →
          c.unreadCount = 0 := by
    intro rest
    induction rest with
    | nil => exact fun tr h c hc => (h.resolve_left List.not_mem_nil) c hc
    | cons other rest ih =>
        intro tr h
        refine ih _ (or_iff_not_imp_left.mpr fun hrest before hbefore => ?_)
        rw [removeMessagesFromConversation_lookup] at hbefore
        split at hbefore
        · obtain ⟨conversation, -, rfl⟩ := Option.map_eq_some_iff.mp hbefore
          rfl
        · rename_i hne
          refine h.resolve_left (fun hmem => ?_) before hbefore
          exact (List.mem_cons.mp hmem).elim hne hrest
  rw [hdeleted] at hpeer
  exact hcleared keys tr (Or.inl hk) c hpeer

/-- The data of an unknown conversation is taken, that of a known one keeps its count. -/
theorem updateConversationData_lookup {tr : Transaction} {k other : ℤ} {given c : TGConversation}
    (hpeer : (tr.updateConversationData k given).peers.lookup other = some c) :
    (∃ before, tr.peers.lookup other = some before ∧ c.unreadCount = before.unreadCount) ∨
      (tr.peers.lookup other = none ∧ other = k ∧ c = given) := by
  unfold Transaction.updateConversationData at hpeer
  cases hcurrent : tr.peers.lookup k with
  | none =>
      simp only [hcurrent, Transaction.modify, Transaction.setPeer, Transaction.touch,
        lookup_insert_ite] at hpeer
      split at hpeer
      · rename_i heq
        exact Or.inr ⟨heq ▸ hcurrent, heq, (Option.some.inj hpeer).symm⟩
      · exact Or.inl ⟨c, hpeer, rfl⟩
  | some current =>
      simp only [hcurrent, Transaction.modify, Transaction.setPeer, Transaction.touch,
        lookup_insert_ite] at hpeer
      split at hpeer
      · rename_i heq
        refine Or.inl ⟨current, heq ▸ hcurrent, ?_⟩
        rw [← Option.some.inj hpeer]
        split
        · split
          · exact Follows.mergeChannel_unreadCount current given
          · rfl
        · rfl
      · exact Or.inl ⟨c, hpeer, rfl⟩

theorem updateConversationData_none {tr : Transaction} {k other : ℤ} {given : TGConversation}
    (hnone : (tr.updateConversationData k given).peers.lookup other = none) :
    tr.peers.lookup other = none := by
  unfold Transaction.updateConversationData at hnone
  split at hnone <;>
    simp only [Transaction.modify, Transaction.setPeer, Transaction.touch,
      lookup_insert_ite] at hnone <;>
    split at hnone <;> first | exact hnone | cases hnone

/-- Conversation data decide the count of an unknown conversation only. -/
theorem updateConversationDatas_peers {tr : Transaction} {datas : Dictionary ℤ TGConversation}
    {k : ℤ} {c : TGConversation}
    (hpeer : (datas.foldl Transaction.updateConversationData tr).peers.lookup k = some c) :
    (∃ before, tr.peers.lookup k = some before ∧ c.unreadCount = before.unreadCount) ∨
      (tr.peers.lookup k = none ∧
        ∃ given, datas.lookup k = some given ∧ c.unreadCount = given.unreadCount) := by
  have hfold : ∀ (rest : List (Sigma fun _ : ℤ => TGConversation)) (tr : Transaction) (c),
      (rest.foldl (fun tr entry => tr.updateConversationData entry.1 entry.2) tr).peers.lookup k
        = some c →
      (∃ before, tr.peers.lookup k = some before ∧ c.unreadCount = before.unreadCount) ∨
        (tr.peers.lookup k = none ∧
          ∃ given, ⟨k, given⟩ ∈ rest ∧ c.unreadCount = given.unreadCount) := by
    intro rest
    induction rest with
    | nil => exact fun tr c hc => Or.inl ⟨c, hc, rfl⟩
    | cons entry rest ih =>
        intro tr c hc
        rcases ih _ c hc with ⟨next, hnext, heq⟩ | ⟨hnone, given, hgiven, heq⟩
        · rcases updateConversationData_lookup hnext with
            ⟨before, hbefore, hsame⟩ | ⟨hnone, hkey, hdata⟩
          · exact Or.inl ⟨before, hbefore, heq.trans hsame⟩
          · refine Or.inr ⟨hnone, entry.2, ?_, heq.trans (congrArg _ hdata)⟩
            rw [hkey]
            exact List.mem_cons_self
        · refine Or.inr ⟨?_, given, List.mem_cons_of_mem _ hgiven, heq⟩
          exact updateConversationData_none hnone
  rcases hfold datas.entries tr c hpeer with hold | ⟨hnone, given, hgiven, heq⟩
  · exact Or.inl hold
  · exact Or.inr ⟨hnone, given, AList.mem_lookup_iff.mpr hgiven, heq⟩

/-- A peer that is prepared is loaded. -/
theorem start_lookup {k : ℤ} (hk : k ∈ (prepareTransaction request database).peerIds) :
    (startTransaction request database).peers.lookup k = database.loadConversationWithId k := by
  rw [startTransaction, loadPeers_lookup, if_pos hk]

/-- A removed conversation ends without unread messages. -/
theorem removed_unreadCount (hdatabase : database.Counted)
    (hrequest : request.WellGiven database) {k : ℤ} {c : TGConversation}
    (hk : k ∈ request.removeConversationsWithPeerIds)
    (hpeer : (runTransaction order request database).peers.lookup k = some c) :
    c.unreadCount = 0 := by
  have hprepared := @removed_prepared request database k hk
  have hfollows := (@follows_runSteps order request database hdatabase hrequest).removeConversations
    fun k (hk : k ∈ request.removeConversationsWithPeerIds) => removed_prepared hk
  rw [runTransaction_peers] at hpeer
  rcases updateConversationDatas_peers hpeer with
    ⟨before, hbefore, heq⟩ | ⟨hnone, given, hgiven, heq⟩
  · exact heq.trans (removeConversations_peers hk hbefore)
  · refine heq.trans (hrequest.removed k hk given hgiven ?_)
    rw [← start_lookup hprepared]
    by_contra hstart
    have hmem := hfollows.known k
      (AList.lookup_isSome.mp (Option.isSome_iff_ne_none.mpr hstart))
    rw [AList.lookup_eq_none] at hnone
    exact hnone hmem

end Run

end Telegraph.Messages
