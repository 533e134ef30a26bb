import Telegraph.Lib.Multiplicity
import Telegraph.Messages.PeerSteps

/-!
# The Unread Count of One Peer

A transaction that only adds and removes messages follows the counts of the peers: a known
conversation outside the channels gains the messages that became stored and count as unread, and
loses the stored incoming unread messages that were deleted, down to zero at the least.

## Main results

* `unreadCount_of_peer`: **the count of a peer** after adding and removing messages.
* `unread_accounting`: **the global count and the counts of the peers** after a transaction.
-/

open Dictionary

namespace Telegraph.Messages

/-! ### What is prepared -/

/-- The messages of a request that become stored. -/
def Request.newMessages (request : Request) (database : Database) : List TGMessage :=
  request.addMessages.filter fun message => !isStored database message && !message.isClearChat

/-- The entries of the table of messages between adding and removing, in some order. -/
def Request.storedMessages (request : Request) (database : Database) :
    List (Sigma fun _ : ℤ => StoredMessage) :=
  (request.newMessages database).map TGMessage.entry ++ database.messages.entries

namespace Prepared

variable {prepared : Prepared} {database : Database}

theorem foldl_addMessage_listAt (messages : List TGMessage) (prepared : Prepared) (k : ℤ) :
    (messages.foldl (Prepared.addMessage database) prepared).addMessagesByPeerId.listAt k =
      prepared.addMessagesByPeerId.listAt k ++
        (messages.filter fun message => !isStored database message).filter
          fun message => message.cid = k := by
  induction messages generalizing prepared with
  | nil => simp
  | cons message messages ih =>
      rw [List.foldl_cons, ih, Prepared.addMessage]
      cases hstored : isStored database message with
      | true => simp [hstored]
      | false =>
          simp only [hstored, Bool.false_eq_true, if_false, listAt_append, Bool.not_false,
            List.filter_cons_of_pos, List.append_assoc]
          by_cases heq : message.cid = k
          · simp [heq]
          · simp [heq, Ne.symm heq]

/-- Collecting the messages to be removed leaves those to be added alone. -/
theorem addRemoved_added (interactive : Bool) (nPeerId : ℤ) (messageIds : List ℤ) :
    (prepared.addRemoved database interactive nPeerId messageIds).addMessagesByPeerId
      = prepared.addMessagesByPeerId := by
  unfold Prepared.addRemoved
  split
  · refine List.foldlRecOn messageIds _ (motive := fun after : Prepared =>
      after.addMessagesByPeerId = prepared.addMessagesByPeerId) rfl ?_
    intro after h messageId _
    split <;> exact h
  · rfl

theorem addUpdate_added (update : TGDatabaseUpdateMessage) :
    (prepared.addUpdate database update).addMessagesByPeerId = prepared.addMessagesByPeerId := by
  unfold Prepared.addUpdate
  split
  · rfl
  · split <;> rfl

end Prepared

theorem prepareTransaction_added (request : Request) (database : Database) :
    (prepareTransaction request database).addMessagesByPeerId =
      (request.addMessages.foldl (Prepared.addMessage database) {}).addMessagesByPeerId := by
  have hstart : (request.addMessages.foldl (Prepared.addMessage database) {}).addMessagesByPeerId
      = (request.addMessages.foldl (Prepared.addMessage database) {}).addMessagesByPeerId := rfl
  have hupdated := List.foldlRecOn (motive := fun after : Prepared => after.addMessagesByPeerId =
      (request.addMessages.foldl (Prepared.addMessage database) {}).addMessagesByPeerId)
    request.updateMessages (Prepared.addUpdate database) hstart
    fun _ h update _ => (Prepared.addUpdate_added update).trans h
  have hremoved := List.foldlRecOn (motive := fun after : Prepared => after.addMessagesByPeerId =
      (request.addMessages.foldl (Prepared.addMessage database) {}).addMessagesByPeerId)
    request.removeMessages.entries
    (fun after entry => after.addRemoved database false entry.1 entry.2) hupdated
    fun _ h entry _ => (Prepared.addRemoved_added false entry.1 entry.2).trans h
  have hinteractive := List.foldlRecOn (motive := fun after : Prepared =>
      after.addMessagesByPeerId =
        (request.addMessages.foldl (Prepared.addMessage database) {}).addMessagesByPeerId)
    request.removeMessagesInteractive.entries
    (fun after entry => after.addRemoved database true entry.1 entry.2) hremoved
    fun _ h entry _ => (Prepared.addRemoved_added true entry.1 entry.2).trans h
  unfold prepareTransaction
  dsimp only
  split <;> exact hinteractive

/-- What is added for a peer. -/
theorem prepareTransaction_listAt (request : Request) (database : Database) (k : ℤ) :
    (prepareTransaction request database).addMessagesByPeerId.listAt k =
      (request.addMessages.filter fun message => !isStored database message).filter
        fun message => message.cid = k := by
  rw [prepareTransaction_added, Prepared.foldl_addMessage_listAt]
  rfl

/-- The messages of all peers are those that are not stored. -/
theorem added_perm (order : HashOrder) (request : Request) (database : Database) :
    ((order.arrange (prepareTransaction request database).addMessagesByPeerId.keys).flatMap
      (prepareTransaction request database).addMessagesByPeerId.listAt).Perm
        (request.addMessages.filter fun message => !isStored database message) := by
  have hlists : (prepareTransaction request database).addMessagesByPeerId.listAt = fun k =>
      (request.addMessages.filter fun message => !isStored database message).filter
        fun message => message.cid = k :=
    funext fun k => prepareTransaction_listAt request database k
  have hperm := order.perm (prepareTransaction request database).addMessagesByPeerId.keys
  have hkeys : ∀ message ∈ request.addMessages.filter fun message => !isStored database message,
      message.cid ∈
        order.arrange (prepareTransaction request database).addMessagesByPeerId.keys := by
    intro message hmessage
    refine hperm.mem_iff.mpr (AList.mem_keys.mp ?_)
    by_contra hnot
    have hlist := prepareTransaction_listAt request database message.cid
    rw [listAt, AList.lookup_eq_none.mpr hnot, Option.getD_none] at hlist
    exact List.not_mem_nil (hlist ▸ List.mem_filter.mpr ⟨hmessage, by simp⟩)
  rw [hlists]
  exact Multiplicity.flatMap_filter_perm (hperm.nodup_iff.mpr (AList.keys_nodup _)) hkeys

/-! ### Requests that add and remove messages -/

/-- A request that only adds and removes messages. -/
structure Request.OnlyMessages (request : Request) : Prop where
  updateMessages : request.updateMessages = []
  updatePeerDrafts : request.updatePeerDrafts = ∅
  updateConversationDatas : request.updateConversationDatas = ∅
  applyMaxIncomingReadIds : request.applyMaxIncomingReadIds = ∅
  applyMaxOutgoingReadIds : request.applyMaxOutgoingReadIds = ∅
  applyMaxOutgoingReadDates : request.applyMaxOutgoingReadDates = ∅
  readHistoryForPeerIds : request.readHistoryForPeerIds = []
  resetPeerReadStates : request.resetPeerReadStates = ∅
  clearConversationsWithPeerIds : request.clearConversationsWithPeerIds = []
  removeConversationsWithPeerIds : request.removeConversationsWithPeerIds = []
  updatePinnedConversations : request.updatePinnedConversations = none

/-- The ids listed under a peer belong to messages of that peer. Under the peer 0, whose ids are
looked up, any may be listed. -/
def Request.ListsOwn (request : Request) (database : Database) : Prop :=
  ∀ list ∈ request.removeMessages.entries ++ request.removeMessagesInteractive.entries,
    list.1.bmod 4294967296 ≠ 0 → ∀ entry ∈ request.storedMessages database,
      entry.1 ∈ list.2 → entry.2.cid = list.1

variable {order : HashOrder} {request : Request} {database : Database}

/-- The steps of such a request. -/
theorem runTransaction_onlyMessages (hrequest : request.OnlyMessages) :
    runTransaction order request database =
      let prepared := prepareTransaction request database
      let added := (order.arrange prepared.addMessagesByPeerId.keys).foldl
        (fun tr k => tr.addPeerMessages k (prepared.addMessagesByPeerId.listAt k))
        (startTransaction request database)
      let removed := (order.arrange prepared.removeMessagesByPeerId.keys).foldl
        (fun tr k => tr.removePeerMessages k (prepared.removeMessagesByPeerId.listAt k)) added
      (order.arrange removed.readDeactivatedPeerIds).foldl Transaction.readPeerHistory removed := by
  unfold runTransaction runSteps
  rw [hrequest.updateMessages, hrequest.updatePeerDrafts, hrequest.updateConversationDatas,
    hrequest.applyMaxIncomingReadIds, hrequest.applyMaxOutgoingReadIds,
    hrequest.applyMaxOutgoingReadDates, hrequest.readHistoryForPeerIds,
    hrequest.resetPeerReadStates, hrequest.clearConversationsWithPeerIds,
    hrequest.removeConversationsWithPeerIds, hrequest.updatePinnedConversations]
  dsimp only
  have hunpin : ∀ tr : Transaction, tr.unpinRemoved [] = tr := by
    intro tr
    unfold Transaction.unpinRemoved
    rw [if_neg]
    simp
  rw [hunpin]
  rfl

/-- The entries that may be removed under a peer belong to it. -/
def Prepared.Owns (stored : List (Sigma fun _ : ℤ => StoredMessage)) (prepared : Prepared) :
    Prop :=
  ∀ k, ∀ entry ∈ stored, entry.1 ∈ prepared.removeMessagesByPeerId.listAt k → entry.2.cid = k

theorem Prepared.Owns.remove {stored : List (Sigma fun _ : ℤ => StoredMessage)}
    {prepared : Prepared} (h : prepared.Owns stored) (interactive : Bool) {peerId : ℤ}
    {messageIds : List ℤ} (hown : ∀ entry ∈ stored, entry.1 ∈ messageIds → entry.2.cid = peerId) :
    (prepared.remove interactive peerId messageIds).Owns stored := by
  intro k entry hentry hmem
  rw [Prepared.remove, listAt_append, List.mem_append] at hmem
  rcases hmem with hold | hnew
  · exact h k entry hentry hold
  · split at hnew
    · rename_i heq
      exact (hown entry hentry hnew).trans heq.symm
    · exact (List.not_mem_nil hnew).elim

/-- The stored entry of a known id is the known row. -/
theorem storedMessages_row {messageId : ℤ} {row : StoredMessage}
    (hlookup : database.messages.lookup messageId = some row)
    {entry : Sigma fun _ : ℤ => StoredMessage} (hentry : entry ∈ request.storedMessages database)
    (heq : entry.1 = messageId) : entry.2 = row := by
  rcases List.mem_append.mp hentry with hnew | hold
  · obtain ⟨message, hmessage, rfl⟩ := List.mem_map.mp hnew
    have hstored := (List.mem_filter.mp hmessage).2
    simp only [isStored, TGMessage.entry] at hstored heq
    rw [heq, hlookup] at hstored
    simp at hstored
  · have hfound : database.messages.lookup entry.1 = some entry.2 :=
      AList.mem_lookup_iff.mpr hold
    rw [heq, hlookup] at hfound
    exact (Option.some.inj hfound).symm

theorem Prepared.Owns.addRemoved {prepared : Prepared}
    (h : prepared.Owns (request.storedMessages database)) (interactive : Bool) {k : ℤ}
    {messageIds : List ℤ}
    (hown : k.bmod 4294967296 ≠ 0 → ∀ entry ∈ request.storedMessages database,
      entry.1 ∈ messageIds → entry.2.cid = k) :
    (prepared.addRemoved database interactive k messageIds).Owns
      (request.storedMessages database) := by
  unfold Prepared.addRemoved
  split
  · refine List.foldlRecOn messageIds _ h ?_
    intro prepared h messageId _
    split
    · rename_i row hlookup
      refine h.remove interactive fun entry hentry hmem => ?_
      rw [storedMessages_row hlookup hentry (List.mem_singleton.mp hmem)]
    · exact h
  · rename_i hne
    exact h.remove interactive (hown hne)

theorem prepareTransaction_owns (hrequest : request.OnlyMessages)
    (hown : request.ListsOwn database) :
    (prepareTransaction request database).Owns (request.storedMessages database) := by
  have hadded : (request.addMessages.foldl (Prepared.addMessage database) {}).Owns
      (request.storedMessages database) := by
    have hempty : (request.addMessages.foldl (Prepared.addMessage database)
        {}).removeMessagesByPeerId = ∅ := by
      refine List.foldlRecOn request.addMessages _ (motive := fun after : Prepared =>
        after.removeMessagesByPeerId = ∅) rfl ?_
      intro after h message _
      unfold Prepared.addMessage
      split <;> exact h
    intro k entry _ hmem
    rw [hempty] at hmem
    exact (List.not_mem_nil hmem).elim
  have hremoved := List.foldlRecOn request.removeMessages.entries
    (fun after entry => after.addRemoved database false entry.1 entry.2) hadded
    fun _ h list hlist => h.addRemoved false (hown list (List.mem_append_left _ hlist))
  have hinteractive := List.foldlRecOn request.removeMessagesInteractive.entries
    (fun after entry => after.addRemoved database true entry.1 entry.2) hremoved
    fun _ h list hlist => h.addRemoved true (hown list (List.mem_append_right _ hlist))
  unfold prepareTransaction
  rw [hrequest.updateMessages, hrequest.updatePinnedConversations]
  exact hinteractive

/-! ### The counts of a peer -/

/-- How many of the messages that become stored count as unread for a peer. -/
def Request.addedUnread (request : Request) (database : Database) (k : ℤ) (c : TGConversation) :
    ℕ :=
  (request.newMessages database).countP fun message =>
    message.cid = k && Transaction.countsAsUnread (some c) k message

/-- How many incoming unread messages of a peer are stored and then deleted. -/
def Request.deletedUnread (request : Request) (database after : Database) (k : ℤ)
    (c : TGConversation) : ℕ :=
  (request.storedMessages database).countP fun entry =>
    entry.2.cid = k && isUnreadOf (some c) k entry && (after.messages.lookup entry.1).isNone

/-- The step that adds the messages of all peers. -/
def addedTransaction (order : HashOrder) (request : Request) (database : Database) :
    Transaction :=
  (order.arrange (prepareTransaction request database).addMessagesByPeerId.keys).foldl
    (fun tr k => tr.addPeerMessages k
      ((prepareTransaction request database).addMessagesByPeerId.listAt k))
    (startTransaction request database)

/-- The step that removes the messages of all peers. -/
def removedTransaction (order : HashOrder) (request : Request) (database : Database) :
    Transaction :=
  (order.arrange (prepareTransaction request database).removeMessagesByPeerId.keys).foldl
    (fun tr k => tr.removePeerMessages k
      ((prepareTransaction request database).removeMessagesByPeerId.listAt k))
    (addedTransaction order request database)

/-- Between adding and removing the table holds the stored messages. -/
theorem added_entries (hnodup : (request.addMessages.map (·.mid)).Nodup) :
    (addedTransaction order request database).database.messages.entries.Perm
      (request.storedMessages database) := by
  have hperm := ((added_perm order request database).filter fun message => !message.isClearChat)
  have hnew : (request.addMessages.filter fun message => !isStored database message).filter
      (fun message => !message.isClearChat) = request.newMessages database := by
    rw [List.filter_filter, Request.newMessages]
    exact List.filter_congr fun message _ => Bool.and_comm _ _
  rw [hnew] at hperm
  rw [addedTransaction, foldl_addPeerMessages_messages, foldl_insertRow]
  · exact ((List.reverse_perm _).trans (hperm.map _)).append_right _
  · refine (hperm.map _).nodup_iff.mpr (hnodup.sublist ?_)
    exact List.filter_sublist.map _
  · intro message hmessage
    have hmem := (List.mem_filter.mp (hperm.mem_iff.mp hmessage)).2
    rw [Bool.and_eq_true, Bool.not_eq_true', isStored, Bool.or_eq_false_iff] at hmem
    exact Option.isSome_eq_false_iff.mp hmem.1.1 |> Option.isNone_iff_eq_none.mp

/-- What is counted for a peer is what becomes stored for it. -/
theorem countP_added (c : TGConversation) (k : ℤ) :
    ((prepareTransaction request database).addMessagesByPeerId.listAt k).countP
        (fun message => !message.isClearChat && Transaction.countsAsUnread (some c) k message)
      = request.addedUnread database k c := by
  rw [prepareTransaction_listAt, Request.addedUnread, Request.newMessages, List.countP_filter,
    List.countP_filter, List.countP_filter]
  refine List.countP_congr fun message _ => ?_
  simp only [Bool.and_eq_true]
  tauto

/-- Of a peer with nothing to add nothing becomes stored. -/
theorem addedUnread_eq_zero (c : TGConversation) {k : ℤ}
    (hk : k ∉ (prepareTransaction request database).addMessagesByPeerId.keys) :
    request.addedUnread database k c = 0 := by
  rw [← countP_added c k, listAt, AList.lookup_eq_none.mpr (mt AList.mem_keys.mp hk),
    Option.getD_none, List.countP_nil]

theorem added_lookup {k : ℤ} {c : TGConversation}
    (hstart : (startTransaction request database).peers.lookup k = some c)
    (hvalid : k ∉ (addedTransaction order request database).invalidatedPeerReadStates) :
    (addedTransaction order request database).peers.lookup k =
      some { c with unreadCount := c.unreadCount + request.addedUnread database k c } := by
  have hperm := order.perm (prepareTransaction request database).addMessagesByPeerId.keys
  have hsame := fun tr other (hne : other ≠ k) => addPeerMessages_sameAt hne tr
    ((prepareTransaction request database).addMessagesByPeerId.listAt other)
  by_cases hk : k ∈ order.arrange (prepareTransaction request database).addMessagesByPeerId.keys
  · obtain ⟨earlier, -, -, hbefore, hafter⟩ := foldl_once
      (hperm.nodup_iff.mpr (AList.keys_nodup _)) hsame hk (startTransaction request database)
    have hstep := addPeerMessages_unread (hbefore.peer.trans hstart) _
      fun hmem => hvalid (hafter.invalidated hmem)
    rw [countP_added c k] at hstep
    exact hafter.peer.trans hstep
  · rw [addedUnread_eq_zero c (mt hperm.mem_iff.mpr hk), Nat.cast_zero, Int.add_zero]
    exact (SameAt.foldl hsame hk (startTransaction request database)).peer.trans hstart

/-- What the removal deletes is no longer stored at the end. -/
theorem removed_isNone {entry : Sigma fun _ : ℤ => StoredMessage}
    (hentry : entry ∈ (addedTransaction order request database).database.messages.entries) :
    ((removedTransaction order request database).database.messages.lookup entry.1).isNone =
      ((order.arrange (prepareTransaction request database).removeMessagesByPeerId.keys).flatMap
        (prepareTransaction request database).removeMessagesByPeerId.listAt).contains entry.1 := by
  have hentries := foldl_removePeerMessages_entries
    (prepareTransaction request database).removeMessagesByPeerId.listAt
    (order.arrange (prepareTransaction request database).removeMessagesByPeerId.keys)
    (addedTransaction order request database)
  cases hlisted : ((order.arrange
      (prepareTransaction request database).removeMessagesByPeerId.keys).flatMap
        (prepareTransaction request database).removeMessagesByPeerId.listAt).contains entry.1 with
  | true =>
      rw [Option.isNone_iff_eq_none, AList.lookup_eq_none]
      intro hmem
      obtain ⟨row, hrow⟩ := Option.isSome_iff_exists.mp (AList.lookup_isSome.mpr hmem)
      have hkept := AList.mem_lookup_iff.mp hrow
      rw [removedTransaction, hentries, List.mem_filter] at hkept
      rw [hlisted] at hkept
      cases hkept.2
  | false =>
      have hkept : entry ∈
          (removedTransaction order request database).database.messages.entries := by
        rw [removedTransaction, hentries, List.mem_filter]
        exact ⟨hentry, by rw [hlisted]; rfl⟩
      rw [show (removedTransaction order request database).database.messages.lookup entry.1
        = some entry.2 from AList.mem_lookup_iff.mpr hkept]
      rfl

/-- What is counted for a peer is what is deleted of it. -/
theorem countP_removed (hown : (prepareTransaction request database).Owns
      (request.storedMessages database))
    (hnodup : (request.addMessages.map (·.mid)).Nodup) (c : TGConversation) {k : ℤ}
    {earlier : List ℤ} (hearlier : k ∉ earlier)
    (hk : k ∈ order.arrange (prepareTransaction request database).removeMessagesByPeerId.keys) :
    ((addedTransaction order request database).database.messages.entries.filter fun entry =>
      !(earlier.flatMap
        (prepareTransaction request database).removeMessagesByPeerId.listAt).contains
          entry.1).countP (fun entry =>
            ((prepareTransaction request database).removeMessagesByPeerId.listAt k).contains
              entry.1 && isUnreadOf (some c) k entry)
      = request.deletedUnread database
          (removedTransaction order request database).database k c := by
  rw [Request.deletedUnread, ← (@added_entries order request database hnodup).countP_eq,
    List.countP_filter]
  refine List.countP_congr fun entry hentry => ?_
  rw [removed_isNone hentry]
  have howner : ∀ other, entry.1 ∈
      (prepareTransaction request database).removeMessagesByPeerId.listAt other →
        entry.2.cid = other :=
    fun other => hown other entry ((added_entries hnodup).mem_iff.mp hentry)
  simp only [Bool.and_eq_true, Bool.not_eq_true', List.contains_eq_mem, decide_eq_true_eq,
    decide_eq_false_iff_not, List.mem_flatMap, not_exists, not_and]
  constructor
  · rintro ⟨⟨hlisted, hunread⟩, -⟩
    exact ⟨⟨howner k hlisted, hunread⟩, k, hk, hlisted⟩
  · rintro ⟨⟨hcid, hunread⟩, other, hother, hlisted⟩
    obtain rfl : k = other := hcid.symm.trans (howner other hlisted)
    refine ⟨⟨hlisted, hunread⟩, fun previous hprevious hmem => hearlier ?_⟩
    exact (hcid.symm.trans (howner previous hmem)) ▸ hprevious

/-- Of a peer with nothing to remove nothing is deleted. -/
theorem deletedUnread_eq_zero (hown : (prepareTransaction request database).Owns
      (request.storedMessages database))
    (hnodup : (request.addMessages.map (·.mid)).Nodup) (c : TGConversation) {k : ℤ}
    (hk : k ∉ (prepareTransaction request database).removeMessagesByPeerId.keys) :
    request.deletedUnread database (removedTransaction order request database).database k c
      = 0 := by
  rw [Request.deletedUnread, ← (@added_entries order request database hnodup).countP_eq]
  refine List.countP_eq_zero.mpr fun entry hentry hdeleted => hk ?_
  rw [removed_isNone hentry] at hdeleted
  simp only [Bool.and_eq_true, List.contains_eq_mem, decide_eq_true_eq,
    List.mem_flatMap] at hdeleted
  obtain ⟨⟨hcid, -⟩, other, hother, hlisted⟩ := hdeleted
  have howner := hown other entry ((added_entries hnodup).mem_iff.mp hentry) hlisted
  obtain rfl : k = other := hcid.symm.trans howner
  exact (order.perm _).mem_iff.mp hother

theorem removed_lookup (hown : (prepareTransaction request database).Owns
      (request.storedMessages database))
    (hnodup : (request.addMessages.map (·.mid)).Nodup) {k : ℤ} {c : TGConversation}
    (hadded : (addedTransaction order request database).peers.lookup k = some c)
    (hcount : 0 ≤ c.unreadCount)
    (hvalid : k ∉ (removedTransaction order request database).invalidatedPeerReadStates) :
    (removedTransaction order request database).peers.lookup k =
      some { c with unreadCount := max 0 (c.unreadCount -
        request.deletedUnread database
          (removedTransaction order request database).database k c) } := by
  have hperm := order.perm (prepareTransaction request database).removeMessagesByPeerId.keys
  have hsame := fun tr other (hne : other ≠ k) => removePeerMessages_sameAt hne tr
    ((prepareTransaction request database).removeMessagesByPeerId.listAt other)
  by_cases hk : k ∈ order.arrange (prepareTransaction request database).removeMessagesByPeerId.keys
  · obtain ⟨earlier, -, hearlier, hbefore, hafter⟩ := foldl_once
      (hperm.nodup_iff.mpr (AList.keys_nodup _)) hsame hk
      (addedTransaction order request database)
    have hstep := removePeerMessages_unread (hbefore.peer.trans hadded) hcount _
      fun hmem => hvalid (hafter.invalidated hmem)
    rw [foldl_removePeerMessages_entries, countP_removed hown hnodup c hearlier hk] at hstep
    exact hafter.peer.trans hstep
  · have hnone := @deletedUnread_eq_zero order request database hown hnodup c _
      (mt hperm.mem_iff.mpr hk)
    rw [hnone, Nat.cast_zero, Int.sub_zero, max_eq_right hcount]
    exact (SameAt.foldl hsame hk (addedTransaction order request database)).peer.trans hadded

theorem notMem_readDeactivated {tr : Transaction} {k : ℤ}
    (hactive : ∀ c, tr.peers.lookup k = some c → (!c.isChannel && c.isDeactivated) = false) :
    k ∉ tr.readDeactivatedPeerIds := by
  intro hk
  obtain ⟨entry, hentry, rfl⟩ := List.mem_map.mp hk
  have hmem := List.mem_filter.mp hentry
  have hflags := hactive entry.2 (AList.mem_lookup_iff.mpr hmem.1)
  rw [Bool.and_eq_true, hflags] at hmem
  cases hmem.2.1

theorem Request.OnlyMessages.wellGiven (hrequest : request.OnlyMessages) :
    request.WellGiven database where
  reset := by
    intro k readState hlookup
    rw [hrequest.resetPeerReadStates] at hlookup
    cases hlookup
  datas := by
    intro k given hlookup
    rw [hrequest.updateConversationDatas] at hlookup
    cases hlookup
  removed := by
    intro k hk
    rw [hrequest.removeConversationsWithPeerIds] at hk
    cases hk

/-- The end of the steps: deactivated groups are read. -/
theorem runTransaction_sameAt (hrequest : request.OnlyMessages) {k : ℤ}
    (hactive : ∀ c, (removedTransaction order request database).peers.lookup k = some c →
      (!c.isChannel && c.isDeactivated) = false) :
    SameAt k (removedTransaction order request database)
      (runTransaction order request database) := by
  rw [runTransaction_onlyMessages hrequest]
  refine SameAt.foldl (fun tr other hne => readPeerHistory_sameAt hne tr) (fun hk => ?_) _
  exact notMem_readDeactivated hactive ((order.perm _).mem_iff.mp hk)

theorem runTransaction_frame (hrequest : request.OnlyMessages) :
    (runTransaction order request database).database =
        (removedTransaction order request database).database ∧
      (runTransaction order request database).invalidatedPeerReadStates =
        (removedTransaction order request database).invalidatedPeerReadStates := by
  rw [runTransaction_onlyMessages hrequest]
  exact List.foldlRecOn _ Transaction.readPeerHistory
    (motive := fun after : Transaction =>
      after.database = (removedTransaction order request database).database ∧
        after.invalidatedPeerReadStates =
          (removedTransaction order request database).invalidatedPeerReadStates) ⟨rfl, rfl⟩
    fun _ h k _ =>
      ⟨(readPeerHistory_frame _ k).1.trans h.1, (readPeerHistory_frame _ k).2.trans h.2⟩

theorem removed_invalidated {k : ℤ}
    (hk : k ∈ (addedTransaction order request database).invalidatedPeerReadStates) :
    k ∈ (removedTransaction order request database).invalidatedPeerReadStates :=
  List.foldlRecOn _ _ (motive := fun after : Transaction => k ∈ after.invalidatedPeerReadStates) hk
    fun _ h other _ => removePeerMessages_invalidated h other _

/-- A peer with messages to add or to remove is modified. -/
theorem removed_modified {k : ℤ}
    (hk : k ∈ (prepareTransaction request database).addMessagesByPeerId.keys ∨
      k ∈ (prepareTransaction request database).removeMessagesByPeerId.keys) :
    k ∈ (removedTransaction order request database).modifiedPeerIds := by
  have hremoved := order.perm (prepareTransaction request database).removeMessagesByPeerId.keys
  have hadded := order.perm (prepareTransaction request database).addMessagesByPeerId.keys
  have hremove := fun tr other (hne : other ≠ k) => removePeerMessages_sameAt hne tr
    ((prepareTransaction request database).removeMessagesByPeerId.listAt other)
  have hadd := fun tr other (hne : other ≠ k) => addPeerMessages_sameAt hne tr
    ((prepareTransaction request database).addMessagesByPeerId.listAt other)
  by_cases hlisted : k ∈ (prepareTransaction request database).removeMessagesByPeerId.keys
  · obtain ⟨earlier, -, -, -, hafter⟩ := foldl_once
      (hremoved.nodup_iff.mpr (AList.keys_nodup _)) hremove (hremoved.mem_iff.mpr hlisted)
      (addedTransaction order request database)
    exact hafter.modified (removePeerMessages_modified _ k _)
  · obtain ⟨earlier, -, -, -, hafter⟩ := foldl_once
      (hadded.nodup_iff.mpr (AList.keys_nodup _)) hadd
      (hadded.mem_iff.mpr (hk.resolve_right hlisted)) (startTransaction request database)
    have hmodified : k ∈ (addedTransaction order request database).modifiedPeerIds :=
      hafter.modified (addPeerMessages_modified _ k _)
    exact (SameAt.foldl hremove (mt hremoved.mem_iff.mp hlisted) _).modified hmodified

/-- A peer with nothing to add or to remove stays as it was loaded. -/
theorem removed_untouched {k : ℤ}
    (hadded : k ∉ (prepareTransaction request database).addMessagesByPeerId.keys)
    (hremoved : k ∉ (prepareTransaction request database).removeMessagesByPeerId.keys) :
    SameAt k (startTransaction request database) (removedTransaction order request database) :=
  (SameAt.foldl (fun tr _ hne => addPeerMessages_sameAt hne tr _)
      (mt (order.perm _).mem_iff.mp hadded) _).trans
    (SameAt.foldl (fun tr _ hne => removePeerMessages_sameAt hne tr _)
      (mt (order.perm _).mem_iff.mp hremoved) _)

/-- **The count of a peer** whose messages are added and removed. -/
theorem unreadCount_of_peer (hdatabase : database.Counted) (hrequest : request.OnlyMessages)
    (hnodup : (request.addMessages.map (·.mid)).Nodup) (hown : request.ListsOwn database)
    {k : ℤ} {c : TGConversation} (hchannel : TGPeerIdIsChannel k = false)
    (hknown : database.conversationList.lookup k = some c)
    (hactive : (!c.isChannel && c.isDeactivated) = false)
    (hvalid : k ∉ (runTransaction order request database).invalidatedPeerReadStates)
    (hkept : drops order request database k = false) :
    ∃ stored, (transactionAddMessages order request database).conversationList.lookup k
        = some stored ∧
      stored.unreadCount = max 0 (c.unreadCount + request.addedUnread database k c
        - request.deletedUnread database (transactionAddMessages order request database) k c) := by
  have howns := prepareTransaction_owns hrequest hown
  have hcovered := prepareTransaction_covered request database
  have hcount := hdatabase.counts k c ((load_of_nonChannel hchannel).trans hknown)
  obtain ⟨hend, hsame⟩ := @runTransaction_frame order request database hrequest
  have hdeleted : request.deletedUnread database (transactionAddMessages order request database) k c
      = request.deletedUnread database
        (removedTransaction order request database).database k c := by
    rw [← hend]
    rfl
  have hstored := @stored_lookup order request database hdatabase hrequest.wellGiven k hchannel
  rw [hrequest.removeConversationsWithPeerIds, if_neg List.not_mem_nil, hknown] at hstored
  rw [hdeleted]
  by_cases htouched : k ∈ (prepareTransaction request database).addMessagesByPeerId.keys ∨
      k ∈ (prepareTransaction request database).removeMessagesByPeerId.keys
  · have hprepared : k ∈ (prepareTransaction request database).peerIds :=
      htouched.elim (fun hk => hcovered.added k (AList.mem_keys.mpr hk))
        fun hk => hcovered.removed k (AList.mem_keys.mpr hk)
    have hstart := ((start_lookup hprepared).trans (load_of_nonChannel hchannel)).trans hknown
    rw [hsame] at hvalid
    have hadded := added_lookup hstart fun hk => hvalid (removed_invalidated hk)
    have hremoved := removed_lookup howns hnodup hadded
      (Int.add_nonneg hcount (Int.natCast_nonneg _)) hvalid
    have hrun := @runTransaction_sameAt order request database hrequest k fun final hfinal => by
        rw [hremoved] at hfinal
        exact Option.some.inj hfinal ▸ hactive
    have hne : k ≠ 0 := by
      rintro rfl
      rw [hdatabase.nonzero] at hknown
      cases hknown
    rw [if_pos ⟨hrun.modified (removed_modified htouched), hne, hkept⟩, hrun.peer,
      hremoved] at hstored
    exact ⟨_, hstored, rfl⟩
  · rw [not_or] at htouched
    have huntouched := @removed_untouched order request database k htouched.1 htouched.2
    have hstart : ∀ final, (startTransaction request database).peers.lookup k = some final →
        final = c := by
      intro final hfinal
      have hprepared := startTransaction_mem (AList.lookup_isSome.mp (by rw [hfinal]; rfl))
      rw [start_lookup hprepared, load_of_nonChannel hchannel, hknown] at hfinal
      exact (Option.some.inj hfinal).symm
    have hrun := @runTransaction_sameAt order request database hrequest k fun final hfinal => by
        rw [huntouched.peer] at hfinal
        exact hstart final hfinal ▸ hactive
    have hor : ((startTransaction request database).peers.lookup k).or (some c) = some c := by
      cases hfinal : (startTransaction request database).peers.lookup k with
      | none => rfl
      | some final => rw [Option.some_or, hstart final hfinal]
    rw [hrun.peer, huntouched.peer, hor, ite_self] at hstored
    refine ⟨c, hstored, ?_⟩
    rw [addedUnread_eq_zero c htouched.1, deletedUnread_eq_zero howns hnodup c htouched.2,
      Nat.cast_zero, Int.add_zero, Int.sub_zero, max_eq_right hcount]

/-- **The global count and the counts of the peers** after a transaction. -/
theorem unread_accounting (order : HashOrder) (request : Request) (database : Database)
    (hdatabase : database.Counted) (hrequest : request.WellGiven database) :
    (DroppedUnchanged order request database →
      (transactionAddMessages order request database).unreadCount =
        (transactionAddMessages order request database).conversationList.total
          nonChannelUnread) ∧
      (∀ k c, TGPeerIdIsChannel k = false →
        (transactionAddMessages order request database).conversationList.lookup k = some c →
          0 ≤ c.unreadCount) ∧
      0 ≤ (transactionAddMessages order request database).unreadCount ∧
      (request.OnlyMessages → (request.addMessages.map (·.mid)).Nodup →
        request.ListsOwn database →
        ∀ k c, TGPeerIdIsChannel k = false → database.conversationList.lookup k = some c →
          (!c.isChannel && c.isDeactivated) = false →
          k ∉ (runTransaction order request database).invalidatedPeerReadStates →
          drops order request database k = false →
          ∃ stored, (transactionAddMessages order request database).conversationList.lookup k
              = some stored ∧
            stored.unreadCount = max 0 (c.unreadCount + request.addedUnread database k c
              - request.deletedUnread database
                (transactionAddMessages order request database) k c)) := by
  refine ⟨fun hdropped => unreadCount_eq_total hdatabase hrequest hdropped,
    fun k c hchannel => stored_nonneg hdatabase hrequest hchannel,
    unreadCount_nonneg hdatabase hrequest, ?_⟩
  intro honly hnodup hown k c hchannel hknown hactive hvalid hkept
  exact unreadCount_of_peer hdatabase honly hnodup hown hchannel hknown hactive hvalid hkept

/-- Sets and dictionaries in the order in which they were built. -/
def HashOrder.built : HashOrder := ⟨id, fun _ => .refl _⟩

/-- The user 5 has read up to 3; the message 4 is unread. -/
def readUpTo3 (maxKnownMessageId : ℤ) : Database where
  conversationList := AList.insert 5
    { maxReadMessageId := 3, maxKnownMessageId := maxKnownMessageId, unreadCount := 1 } ∅
  channelList := ∅
  messages := AList.insert 4 ⟨5, false, 0, false⟩ ∅
  channelMessages := []
  randomIds := []
  validateReadState := []
  drafts := ∅
  pinned := []
  unreadCount := 1

theorem readUpTo3_counted (maxKnownMessageId : ℤ) : (readUpTo3 maxKnownMessageId).Counted where
  global := rfl
  counts := by
    intro k c hload
    unfold Database.loadConversationWithId at hload
    split at hload
    · cases hload
    · rw [readUpTo3, lookup_insert_ite] at hload
      split at hload
      · rw [← Option.some.inj hload]
        exact Int.one_nonneg
      · cases hload
  nonzero := rfl

/-- The message 7 is received and the message 4 deleted. -/
def receive7 : Request where
  addMessages := [{ mid := 7, cid := 5 }]
  removeMessagesInteractive := AList.insert 5 [4] ∅

theorem receive7_onlyMessages : receive7.OnlyMessages :=
  ⟨rfl, rfl, rfl, rfl, rfl, rfl, rfl, rfl, rfl, rfl, rfl⟩

theorem receive7_drops (k : ℤ) : drops .built receive7 (readUpTo3 4) k = false := by
  have hempty : (prepareTransaction receive7 (readUpTo3 4)).removeEmptyConversations = [] := by
    decide +kernel
  rw [drops, hempty]
  unfold isDropped
  simp [receive7_onlyMessages.removeConversationsWithPeerIds]

/-- With 7 not known before, one comes and one goes. -/
theorem unread_accounting_receive7 :
    (transactionAddMessages .built receive7 (readUpTo3 4)).unreadCount =
        (transactionAddMessages .built receive7 (readUpTo3 4)).conversationList.total
          nonChannelUnread ∧
      ∃ stored, (transactionAddMessages .built receive7 (readUpTo3 4)).conversationList.lookup 5
          = some stored ∧ stored.unreadCount = max 0 (1 + 1 - 1) := by
  have haccounting := unread_accounting .built receive7 (readUpTo3 4) (readUpTo3_counted 4)
    receive7_onlyMessages.wellGiven
  refine ⟨haccounting.1 fun k c _ _ hdrops => ?_, ?_⟩
  · rw [receive7_drops] at hdrops
    cases hdrops
  · exact haccounting.2.2.2 receive7_onlyMessages (by decide)
      (by unfold Request.ListsOwn; decide +kernel) 5 _ rfl rfl rfl
      (by decide +kernel) (receive7_drops 5)

/-- A message up to the largest known id is unread and stored, and the count stays. -/
theorem unread_accounting_knownMessage :
    (readUpTo3 10).Counted ∧ receive7.OnlyMessages ∧
      5 ∉ (runTransaction .built receive7 (readUpTo3 10)).invalidatedPeerReadStates ∧
      ((readUpTo3 10).conversationList.lookup 5).map (·.unreadCount) = some 1 ∧
      (receive7.newMessages (readUpTo3 10)).countP (fun message =>
        isUnreadOf ((readUpTo3 10).conversationList.lookup 5) 5 message.entry) = 1 ∧
      ((transactionAddMessages .built receive7 (readUpTo3 10)).messages.lookup 7).isSome ∧
      (transactionAddMessages .built receive7 (readUpTo3 10)).messages.lookup 4 = none ∧
      ((transactionAddMessages .built receive7 (readUpTo3 10)).conversationList.lookup 5).map
        (·.unreadCount) = some 0 := by
  refine ⟨readUpTo3_counted 10, receive7_onlyMessages, ?_, ?_, ?_, ?_, ?_, ?_⟩ <;> decide +kernel

end Telegraph.Messages
