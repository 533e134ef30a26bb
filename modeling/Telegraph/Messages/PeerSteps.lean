import Telegraph.Messages.UnreadCount

/-!
# What a Step Does to One Peer

A step for one peer leaves every other peer of the dictionary as it is. For its own peer, adding
counts the messages that count as unread, and removing takes off the stored unread messages that
it deletes, unless the peer is invalidated. The table of messages grows by what is added and is
filtered by what is removed.

## Main results

* `addPeerMessages_unread`, `removePeerMessages_unread`: **the counts after a step**.
* `foldl_addPeerMessages_messages`, `foldl_removePeerMessages_entries`: the table after all.
* `foldl_once`: among steps for several peers a peer has one.
-/

open Dictionary

namespace Telegraph.Messages

/-! ### Removing -/

/-- Whether a stored message is an incoming unread one of a conversation. -/
def isUnreadOf (conversation : Option TGConversation) (k : ℤ)
    (entry : Sigma fun _ : ℤ => StoredMessage) : Bool :=
  match conversation with
  | some conversation =>
      !entry.2.outgoing &&
        conversation.isMessageUnread k entry.1 entry.2.date entry.2.outgoing
  | none => false

theorem removeMessage_eq (conversation : Option TGConversation) (k : ℤ) (state : Database × ℤ)
    (messageId : ℤ) :
    Transaction.removeMessage conversation k state messageId =
      ({ state.1 with messages := state.1.messages.erase messageId },
        state.2 + (state.1.messages.entries.countP
          fun entry => entry.1 = messageId && isUnreadOf conversation k entry : ℕ)) := by
  rw [countP_key]
  unfold Transaction.removeMessage
  cases hlookup : state.1.messages.lookup messageId with
  | none =>
      have herase : state.1.messages.erase messageId = state.1.messages :=
        AList.ext (List.kerase_of_notMem_keys (AList.lookup_eq_none.mp hlookup))
      simp [herase]
  | some row =>
      cases conversation with
      | none => simp [isUnreadOf]
      | some conversation =>
          simp only [isUnreadOf]
          by_cases hunread : (!row.outgoing &&
              conversation.isMessageUnread k messageId row.date row.outgoing) = true
          · simp only [hunread, if_true, Nat.cast_one]
          · simp only [hunread, Bool.false_eq_true, if_false, Nat.cast_zero, Int.add_zero]

/-- Every id is deleted, and each stored unread message counted once. -/
theorem foldl_removeMessage (conversation : Option TGConversation) (k : ℤ)
    (messageIds : List ℤ) (state : Database × ℤ) :
    (messageIds.foldl (Transaction.removeMessage conversation k) state).1.messages.entries
        = state.1.messages.entries.filter (fun entry => !messageIds.contains entry.1) ∧
      (messageIds.foldl (Transaction.removeMessage conversation k) state).2
        = state.2 + (state.1.messages.entries.countP fun entry =>
            messageIds.contains entry.1 && isUnreadOf conversation k entry : ℕ) := by
  induction messageIds generalizing state with
  | nil => simp
  | cons messageId messageIds ih =>
      obtain ⟨hentries, hcount⟩ := ih (Transaction.removeMessage conversation k state messageId)
      rw [List.foldl_cons, hentries, hcount, removeMessage_eq]
      dsimp only
      rw [entries_erase, List.filter_filter, List.countP_filter]
      constructor
      · refine List.filter_congr fun entry _ => ?_
        by_cases heq : entry.1 = messageId <;> simp [heq]
      · have hsplit := List.countP_eq_countP_filter_add state.1.messages.entries
          (fun entry => (messageId :: messageIds).contains entry.1 &&
            isUnreadOf conversation k entry) fun entry => entry.1 = messageId
        rw [hsplit, List.countP_filter, List.countP_filter, Int.add_assoc, ← Nat.cast_add]
        congr 3 <;> refine List.countP_congr fun entry _ => ?_ <;>
          by_cases heq : entry.1 = messageId <;> simp [heq]

/-! ### Adding -/

/-- The entry of a message in the table. -/
def TGMessage.entry (message : TGMessage) : Sigma fun _ : ℤ => StoredMessage :=
  ⟨message.mid, message.row⟩

/-- Every message but those that clear a chat is inserted, and counted where it counts. -/
theorem foldl_addMessage (conversation : Option TGConversation) (k : ℤ)
    (messages : List TGMessage) (state : Database × ℤ) :
    (messages.foldl (Transaction.addMessage conversation k) state).1.messages
        = (messages.filter fun message => !message.isClearChat).foldl Database.insertRow
            state.1.messages ∧
      (messages.foldl (Transaction.addMessage conversation k) state).2
        = state.2 + (messages.countP fun message =>
            !message.isClearChat && Transaction.countsAsUnread conversation k message : ℕ) := by
  induction messages generalizing state with
  | nil => simp
  | cons message messages ih =>
      rw [List.foldl_cons, (ih _).1, (ih _).2, List.countP_cons]
      unfold Transaction.addMessage
      by_cases hclear : message.isClearChat = true
      · simp [hclear]
      · by_cases hcounts : Transaction.countsAsUnread conversation k message = true
        · simp [hclear, hcounts, Database.insertMessage]
          omega
        · simp [hclear, hcounts, Database.insertMessage]

/-- Messages with new ids are stored in front of the others. -/
theorem foldl_insertRow {messages : List TGMessage} {table : Dictionary ℤ StoredMessage}
    (hnodup : (messages.map (·.mid)).Nodup)
    (hnew : ∀ message ∈ messages, table.lookup message.mid = none) :
    (messages.foldl Database.insertRow table).entries
      = (messages.map TGMessage.entry).reverse ++ table.entries := by
  induction messages generalizing table with
  | nil => rfl
  | cons message messages ih =>
      rw [List.map_cons, List.nodup_cons] at hnodup
      have hfirst := hnew message List.mem_cons_self
      have hinsert : Database.insertRow table message = table.insert message.mid message.row := by
        rw [Database.insertRow, hfirst]
        rfl
      rw [List.foldl_cons, hinsert, ih hnodup.2 ?_,
        AList.entries_insert_of_notMem (AList.lookup_eq_none.mp hfirst)]
      · simp [TGMessage.entry]
      · intro other hother
        rw [AList.lookup_insert_ne]
        · exact hnew other (List.mem_cons_of_mem _ hother)
        · intro heq
          exact hnodup.1 (heq ▸ List.mem_map_of_mem hother)

/-! ### The tables between the steps -/

theorem addPeerMessages_messages (tr : Transaction) (k : ℤ) (messages : List TGMessage) :
    (tr.addPeerMessages k messages).database.messages =
      (messages.filter fun message => !message.isClearChat).foldl Database.insertRow
        tr.database.messages := by
  rw [← (foldl_addMessage (tr.peers.lookup k) k messages (tr.database, 0)).1]
  unfold Transaction.addPeerMessages
  dsimp only
  split
  · split
    · split <;> rfl
    · rfl
  · split
    · rfl
    · split <;> rfl

theorem foldl_addPeerMessages_messages (f : ℤ → List TGMessage) (keys : List ℤ)
    (tr : Transaction) :
    (keys.foldl (fun tr k => tr.addPeerMessages k (f k)) tr).database.messages =
      ((keys.flatMap f).filter fun message => !message.isClearChat).foldl Database.insertRow
        tr.database.messages := by
  induction keys generalizing tr with
  | nil => rfl
  | cons k keys ih =>
      rw [List.foldl_cons, ih, addPeerMessages_messages, List.flatMap_cons, List.filter_append,
        List.foldl_append]

theorem removePeerMessages_entries (tr : Transaction) (k : ℤ) (messageIds : List ℤ) :
    (tr.removePeerMessages k messageIds).database.messages.entries =
      tr.database.messages.entries.filter fun entry => !messageIds.contains entry.1 := by
  rw [← (foldl_removeMessage (tr.peers.lookup k) k messageIds (tr.database, 0)).1]
  unfold Transaction.removePeerMessages
  dsimp only [Transaction.touch]
  split
  · split
    · split <;> rfl
    · rfl
  · rfl

theorem foldl_removePeerMessages_entries (f : ℤ → List ℤ) (keys : List ℤ) (tr : Transaction) :
    (keys.foldl (fun tr k => tr.removePeerMessages k (f k)) tr).database.messages.entries =
      tr.database.messages.entries.filter fun entry => !(keys.flatMap f).contains entry.1 := by
  induction keys generalizing tr with
  | nil => simp
  | cons k keys ih =>
      rw [List.foldl_cons, ih, removePeerMessages_entries, List.filter_filter]
      refine List.filter_congr fun entry _ => ?_
      rw [List.flatMap_cons, List.contains_append, Bool.not_or, Bool.and_comm]

/-! ### One peer -/

/-- What a step for another peer leaves of a peer. -/
structure SameAt (k : ℤ) (before after : Transaction) : Prop where
  peer : after.peers.lookup k = before.peers.lookup k
  invalidated : k ∈ before.invalidatedPeerReadStates → k ∈ after.invalidatedPeerReadStates
  modified : k ∈ before.modifiedPeerIds → k ∈ after.modifiedPeerIds

theorem SameAt.refl (k : ℤ) (tr : Transaction) : SameAt k tr tr := ⟨rfl, id, id⟩

theorem SameAt.trans {k : ℤ} {a b c : Transaction} (hab : SameAt k a b) (hbc : SameAt k b c) :
    SameAt k a c :=
  ⟨hbc.peer.trans hab.peer, hbc.invalidated ∘ hab.invalidated, hbc.modified ∘ hab.modified⟩

theorem SameAt.foldl {k : ℤ} {step : Transaction → ℤ → Transaction} {keys : List ℤ}
    (hstep : ∀ tr other, other ≠ k → SameAt k tr (step tr other)) (hk : k ∉ keys)
    (tr : Transaction) : SameAt k tr (keys.foldl step tr) :=
  List.foldlRecOn keys step (SameAt.refl k tr) fun after h other hother =>
    h.trans (hstep after other fun heq => hk (heq ▸ hother))

theorem SameAt.touch {k : ℤ} {before after : Transaction} (h : SameAt k before after)
    (other : ℤ) : SameAt k before (after.touch other) :=
  ⟨h.peer, h.invalidated, fun hk => List.mem_insert_of_mem (h.modified hk)⟩

theorem SameAt.invalidate {k : ℤ} {before after : Transaction} (h : SameAt k before after)
    (other : ℤ) : SameAt k before (after.invalidate other) :=
  ⟨h.peer, fun hk => List.mem_insert_of_mem (h.invalidated hk), h.modified⟩

theorem SameAt.write {k : ℤ} {before after : Transaction} (h : SameAt k before after)
    (database : Database) : SameAt k before (after.write database) :=
  ⟨h.peer, h.invalidated, h.modified⟩

theorem SameAt.setPeer {k other : ℤ} {before after : Transaction} (h : SameAt k before after)
    (hne : other ≠ k) (c : TGConversation) : SameAt k before (after.setPeer other c) :=
  ⟨(AList.lookup_insert_ne (Ne.symm hne)).trans h.peer, h.invalidated, h.modified⟩

theorem SameAt.ite {k : ℤ} {before a b : Transaction} {p : Prop} [Decidable p]
    (ha : SameAt k before a) (hb : SameAt k before b) :
    SameAt k before (if p then a else b) := by
  split
  · exact ha
  · exact hb

theorem addPeerMessages_sameAt {k other : ℤ} (hne : other ≠ k) (tr : Transaction)
    (messages : List TGMessage) : SameAt k tr (tr.addPeerMessages other messages) := by
  have hwrite := (SameAt.refl k tr).write
    (messages.foldl (Transaction.addMessage (tr.peers.lookup other) other) (tr.database, 0)).1
  unfold Transaction.addPeerMessages
  dsimp only
  refine SameAt.touch ?_ other
  split
  · split
    · split
      · exact hwrite.setPeer hne _
      · exact hwrite.invalidate other
    · exact hwrite
  · split
    · exact hwrite.invalidate other
    · split
      · exact (hwrite.setPeer hne _).invalidate other
      · exact hwrite.invalidate other

theorem removePeerMessages_sameAt {k other : ℤ} (hne : other ≠ k) (tr : Transaction)
    (messageIds : List ℤ) : SameAt k tr (tr.removePeerMessages other messageIds) := by
  have hwrite := ((SameAt.refl k tr).touch other).write
    (messageIds.foldl (Transaction.removeMessage (tr.peers.lookup other) other)
      (tr.database, 0)).1
  unfold Transaction.removePeerMessages
  dsimp only [Transaction.touch]
  split
  · split
    · split
      · exact (hwrite.setPeer hne _).touch other
      · exact hwrite.invalidate other
    · exact hwrite.invalidate other
  · exact hwrite

theorem readPeerHistory_sameAt {k other : ℤ} (hne : other ≠ k) (tr : Transaction) :
    SameAt k tr (tr.readPeerHistory other) := by
  unfold Transaction.readPeerHistory
  split
  · exact SameAt.refl k tr
  · refine SameAt.ite ?_ (SameAt.refl k tr)
    exact ((SameAt.refl k tr).setPeer hne _).touch other

/-- The added messages are counted, or the peer is invalidated. -/
theorem addPeerMessages_unread {k : ℤ} {c : TGConversation} {tr : Transaction}
    (hpeer : tr.peers.lookup k = some c) (messages : List TGMessage)
    (hvalid : k ∉ (tr.addPeerMessages k messages).invalidatedPeerReadStates) :
    (tr.addPeerMessages k messages).peers.lookup k =
      some { c with unreadCount := c.unreadCount + (messages.countP fun message =>
        !message.isClearChat && Transaction.countsAsUnread (some c) k message : ℕ) } := by
  have hcount := (foldl_addMessage (tr.peers.lookup k) k messages (tr.database, 0)).2
  rw [hpeer, Int.zero_add] at hcount
  unfold Transaction.addPeerMessages at hvalid ⊢
  rw [hpeer] at hvalid ⊢
  dsimp only at hvalid ⊢
  rw [hcount] at hvalid ⊢
  split at hvalid
  · rename_i hne
    rw [if_pos hne]
    split at hvalid
    · rename_i hread
      rw [if_pos hread]
      exact AList.lookup_insert _
    · exact (hvalid List.mem_insert_self).elim
  · rename_i hzero
    rw [if_neg hzero, not_not.mp hzero, Int.add_zero]
    exact hpeer

/-- The deleted messages are counted, or the peer is invalidated. -/
theorem removePeerMessages_unread {k : ℤ} {c : TGConversation} {tr : Transaction}
    (hpeer : tr.peers.lookup k = some c) (hcount : 0 ≤ c.unreadCount) (messageIds : List ℤ)
    (hvalid : k ∉ (tr.removePeerMessages k messageIds).invalidatedPeerReadStates) :
    (tr.removePeerMessages k messageIds).peers.lookup k =
      some { c with unreadCount := max 0 (c.unreadCount -
        (tr.database.messages.entries.countP fun entry =>
          messageIds.contains entry.1 && isUnreadOf (some c) k entry : ℕ)) } := by
  have hremoved := (foldl_removeMessage (tr.peers.lookup k) k messageIds (tr.database, 0)).2
  rw [hpeer, Int.zero_add] at hremoved
  unfold Transaction.removePeerMessages at hvalid ⊢
  dsimp only [Transaction.touch] at hvalid ⊢
  rw [hpeer] at hvalid ⊢
  rw [hremoved] at hvalid ⊢
  dsimp only at hvalid ⊢
  have hclamp : ∀ count : ℤ, (if count < 0 then 0 else count) = max 0 count := by
    intro count
    split <;> omega
  split at hvalid
  · rename_i hne
    rw [if_pos hne]
    split at hvalid
    · rename_i hread
      rw [if_pos hread, ← hclamp]
      exact AList.lookup_insert _
    · exact (hvalid List.mem_insert_self).elim
  · rename_i hzero
    rw [if_neg hzero, not_not.mp hzero, Int.sub_zero, max_eq_right hcount]
    exact hpeer

theorem addPeerMessages_modified (tr : Transaction) (k : ℤ) (messages : List TGMessage) :
    k ∈ (tr.addPeerMessages k messages).modifiedPeerIds :=
  List.mem_insert_self

theorem removePeerMessages_modified (tr : Transaction) (k : ℤ) (messageIds : List ℤ) :
    k ∈ (tr.removePeerMessages k messageIds).modifiedPeerIds := by
  unfold Transaction.removePeerMessages
  dsimp only [Transaction.touch]
  split
  · split
    · split
      · exact List.mem_insert_self
      · exact List.mem_insert_self
    · exact List.mem_insert_self
  · exact List.mem_insert_self

theorem readPeerHistory_frame (tr : Transaction) (k : ℤ) :
    (tr.readPeerHistory k).database = tr.database ∧
      (tr.readPeerHistory k).invalidatedPeerReadStates = tr.invalidatedPeerReadStates := by
  have hite : ∀ {p : Prop} [Decidable p] {after : Transaction},
      after.database = tr.database ∧
        after.invalidatedPeerReadStates = tr.invalidatedPeerReadStates →
      (if p then after else tr).database = tr.database ∧
        (if p then after else tr).invalidatedPeerReadStates = tr.invalidatedPeerReadStates := by
    intro p _ after hafter
    split
    · exact hafter
    · exact ⟨rfl, rfl⟩
  unfold Transaction.readPeerHistory
  split
  · exact ⟨rfl, rfl⟩
  · exact hite ⟨rfl, rfl⟩

/-- Peers that were invalidated stay so when messages are removed. -/
theorem removePeerMessages_invalidated {k : ℤ} {tr : Transaction}
    (hk : k ∈ tr.invalidatedPeerReadStates) (other : ℤ) (messageIds : List ℤ) :
    k ∈ (tr.removePeerMessages other messageIds).invalidatedPeerReadStates := by
  unfold Transaction.removePeerMessages
  dsimp only [Transaction.touch]
  split
  · split
    · split
      · exact hk
      · exact List.mem_insert_of_mem hk
    · exact List.mem_insert_of_mem hk
  · exact hk

/-- A step for each of several peers comes to a peer once. -/
theorem foldl_once {step : Transaction → ℤ → Transaction} {k : ℤ} {keys : List ℤ}
    (hnodup : keys.Nodup) (hstep : ∀ tr other, other ≠ k → SameAt k tr (step tr other))
    (hk : k ∈ keys) (tr : Transaction) :
    ∃ earlier, earlier ⊆ keys ∧ k ∉ earlier ∧ SameAt k tr (earlier.foldl step tr) ∧
      SameAt k (step (earlier.foldl step tr) k) (keys.foldl step tr) := by
  obtain ⟨earlier, later, rfl⟩ := List.append_of_mem hk
  have hsplit := List.nodup_append.mp hnodup
  have hearlier : k ∉ earlier := fun hmem => hsplit.2.2 k hmem k List.mem_cons_self rfl
  have hlater : k ∉ later := (List.nodup_cons.mp hsplit.2.1).1
  refine ⟨earlier, List.subset_append_left _ _, hearlier, SameAt.foldl hstep hearlier tr, ?_⟩
  rw [List.foldl_append, List.foldl_cons]
  exact SameAt.foldl hstep hlater _

end Telegraph.Messages
