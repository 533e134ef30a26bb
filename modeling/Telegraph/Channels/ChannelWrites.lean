import Telegraph.Channels.ChannelBatches

/-!
# What Is Written of a Channel

A batch is written kind by kind: the messages that it edits, then those that it deletes, then
those that it adds, a difference with the edits at the end. What becomes of one message is told by
the changes of each kind, and it is what the changes make of it in the order of the log if no
message that is added is changed otherwise.

## Main results

* `lookup_updateMessages`, `lookup_addMessagesToChannel`: what becomes of one message.
* `Settled.lookup_eq`: **settled changes are made**, though they are written kind by kind.
* `Collected.lookup_writeUpdates`, `Answers.lookup_writeDifference`: so a batch, and a difference,
  makes what the log makes.
-/

namespace Telegraph.Channels

variable {Body : Type} {peerId : ℤ} {store : ChannelStore Body} {mid : ℤ}

/-! ### The kinds -/

namespace ChannelStore

/-- Messages are edited. -/
theorem lookup_updateMessages {updatedMessages : List (ChannelMessage Body)}
    (hours : ∀ message ∈ updatedMessages, message.cid = peerId) :
    (store.updateMessages peerId updatedMessages).messages.lookup mid =
      contentAfter (updatedMessages.map .editMessage) mid (store.messages.lookup mid) := by
  rw [updateMessages]
  dsimp only
  generalize store.messages = messages
  induction updatedMessages generalizing messages with
  | nil => rfl
  | cons message updatedMessages ih =>
      rw [List.foldl_cons, ih fun other hother => hours other (List.mem_cons_of_mem _ hother),
        List.map_cons, contentAfter_cons]
      congr 1
      have hcid := hours message List.mem_cons_self
      rw [PtsChange.changeAt]
      by_cases hmid : message.mid = mid
      · rw [if_pos hmid, ← hmid]
        cases hlookup : messages.lookup message.mid with
        | none => rw [if_neg fun h => Bool.false_ne_true h.2, hlookup, Option.map_none]
        | some body => rw [if_pos ⟨hcid, rfl⟩, AList.lookup_insert, Option.map_some]
      · rw [if_neg hmid]
        split
        · rw [Dictionary.lookup_insert_ite, if_neg (Ne.symm hmid)]
        · rfl

/-- Messages are deleted. -/
theorem lookup_foldl_erase (deleteMessages : List ℤ) (messages : Dictionary ℤ Body) (mid : ℤ) :
    (deleteMessages.foldl (fun stored mid => stored.erase mid) messages).lookup mid =
      if mid ∈ deleteMessages then none else messages.lookup mid := by
  induction deleteMessages generalizing messages with
  | nil => rfl
  | cons first deleteMessages ih =>
      rw [List.foldl_cons, ih, Dictionary.lookup_erase_ite]
      by_cases hrest : mid ∈ deleteMessages
      · rw [if_pos hrest, if_pos (List.mem_cons_of_mem _ hrest)]
      · rw [if_neg hrest]
        refine if_congr ?_ rfl rfl
        rw [List.mem_cons, or_iff_left hrest]

/-- Messages are added, but for those that are skipped. -/
theorem lookup_foldl_insert (newMessages : List (ChannelMessage Body)) (skipMessages : List ℤ)
    (messages : Dictionary ℤ Body) (mid : ℤ) :
    (newMessages.foldl (fun stored message =>
        if message.mid ∈ skipMessages then stored else stored.insert message.mid message.body)
      messages).lookup mid =
      if mid ∈ skipMessages then messages.lookup mid
      else contentAfter (newMessages.map .newMessage) mid (messages.lookup mid) := by
  induction newMessages generalizing messages with
  | nil => exact (ite_self _).symm
  | cons message newMessages ih =>
      rw [List.foldl_cons, ih, List.map_cons, contentAfter_cons, PtsChange.changeAt]
      by_cases hmid : message.mid = mid
      · rw [if_pos hmid, hmid]
        by_cases hskip : mid ∈ skipMessages
        · rw [if_pos hskip, if_pos hskip, if_pos hskip]
        · rw [if_neg hskip, if_neg hskip, if_neg hskip, AList.lookup_insert]
      · have hkeep : (if message.mid ∈ skipMessages then messages
            else messages.insert message.mid message.body).lookup mid = messages.lookup mid := by
          split
          · rfl
          · rw [Dictionary.lookup_insert_ite, if_neg (Ne.symm hmid)]
        rw [hkeep, if_neg hmid]

/-- A message that is not there is added if it is among the new ones. -/
theorem not_kept {content : Option Body} {newMessages : List (ChannelMessage Body)}
    (hnone : content = none) (hadded : ∃ message ∈ newMessages, message.mid = mid) :
    ¬ (content.isSome = true ∨ ∀ message ∈ newMessages, message.mid ≠ mid) := by
  obtain ⟨message, hmem, hmid⟩ := hadded
  exact not_or.mpr ⟨hnone ▸ Bool.false_ne_true, fun hall => hall message hmem hmid⟩

/-- **What becomes of a message when others are added and deleted**: one that is there is not added
again. -/
theorem lookup_addMessagesToChannel (newMessages : List (ChannelMessage Body))
    (deleteMessages : List ℤ) :
    (store.addMessagesToChannel newMessages deleteMessages).messages.lookup mid =
      if (store.messages.lookup mid).isSome ∨ ∀ message ∈ newMessages, message.mid ≠ mid then
        if mid ∈ deleteMessages then none else store.messages.lookup mid
      else contentAfter (newMessages.map .newMessage) mid none := by
  rw [addMessagesToChannel, lookup_foldl_insert, lookup_foldl_erase]
  by_cases hadded : ∃ message ∈ newMessages, message.mid = mid
  · have hlisted : mid ∈ newMessages.map ChannelMessage.mid := List.mem_map.mpr hadded
    by_cases hthere : (store.messages.lookup mid).isSome
    · rw [if_pos (Or.inl hthere), if_pos (List.mem_filter.mpr ⟨hlisted, hthere⟩)]
    · have hnotSkipped : mid ∉ (newMessages.map ChannelMessage.mid).filter fun mid =>
          (store.messages.lookup mid).isSome := fun h => hthere (List.mem_filter.mp h).2
      have hnone := Option.not_isSome_iff_eq_none.mp hthere
      rw [if_neg (not_kept hnone hadded), if_neg hnotSkipped, hnone, ite_self]
  · have hnone : ∀ message ∈ newMessages, message.mid ≠ mid :=
      fun message hmem hmid => hadded ⟨message, hmem, hmid⟩
    rw [if_pos (Or.inr hnone)]
    refine (ite_congr rfl (fun _ => rfl) fun _ => ?_).trans (ite_self _)
    refine contentAfter_of_not_about fun change hchange => ?_
    obtain ⟨message, hmem, rfl⟩ := List.mem_map.mp hchange
    exact hnone message hmem

end ChannelStore

namespace ChannelStore

/-- An edit leaves no message and brings none. -/
theorem isSome_updateMessages {updatedMessages : List (ChannelMessage Body)}
    (hours : ∀ message ∈ updatedMessages, message.cid = peerId) :
    ((store.updateMessages peerId updatedMessages).messages.lookup mid).isSome =
      (store.messages.lookup mid).isSome := by
  rw [lookup_updateMessages hours]
  clear hours
  generalize store.messages.lookup mid = content
  induction updatedMessages generalizing content with
  | nil => rfl
  | cons message updatedMessages ih =>
      rw [List.map_cons, contentAfter_cons, ih, PtsChange.changeAt]
      split
      · exact Option.isSome_map
      · rfl

/-- A message that is there or added, and not deleted, is there then. -/
theorem isSome_addMessagesToChannel {newMessages : List (ChannelMessage Body)}
    {deleteMessages : List ℤ} (hnot : mid ∉ deleteMessages)
    (h : (store.messages.lookup mid).isSome ∨ ∃ message ∈ newMessages, message.mid = mid) :
    ((store.addMessagesToChannel newMessages deleteMessages).messages.lookup mid).isSome := by
  rw [lookup_addMessagesToChannel, if_neg hnot]
  by_cases hthere : (store.messages.lookup mid).isSome
  · rw [if_pos (Or.inl hthere)]
    exact hthere
  · rw [if_neg (not_kept (Option.not_isSome_iff_eq_none.mp hthere) (h.resolve_left hthere))]
    obtain ⟨message, hmem, rfl⟩ := h.resolve_left hthere
    refine isSome_contentAfter_of_added (List.mem_map_of_mem hmem) fun change hchange => ?_
    obtain ⟨_, -, rfl⟩ := List.mem_map.mp hchange
    exact List.not_mem_nil

/-- What a message is after edits comes from before or from one of them. -/
theorem lookup_updateMessages_eq_some {updatedMessages : List (ChannelMessage Body)} {body : Body}
    (hours : ∀ message ∈ updatedMessages, message.cid = peerId)
    (h : (store.updateMessages peerId updatedMessages).messages.lookup mid = some body) :
    store.messages.lookup mid = some body ∨
      ∃ message ∈ updatedMessages, message.mid = mid ∧ message.body = body := by
  rw [lookup_updateMessages hours] at h
  refine (contentAfter_eq_some h).imp_right ?_
  rintro ⟨message, hmid, hbody, hnew | hedit⟩
  · obtain ⟨_, -, heq⟩ := List.mem_map.mp hnew
    cases heq
  · obtain ⟨other, hother, heq⟩ := List.mem_map.mp hedit
    cases heq
    exact ⟨message, hother, hmid, hbody⟩

/-- What a message is after others are added comes from before or from one of them. -/
theorem lookup_addMessagesToChannel_eq_some {newMessages : List (ChannelMessage Body)}
    {deleteMessages : List ℤ} {body : Body}
    (h : (store.addMessagesToChannel newMessages deleteMessages).messages.lookup mid =
      some body) :
    store.messages.lookup mid = some body ∨
      ∃ message ∈ newMessages, message.mid = mid ∧ message.body = body := by
  rw [lookup_addMessagesToChannel] at h
  split at h
  · split at h
    · cases h
    · exact .inl h
  · rcases contentAfter_eq_some h with hnone | ⟨message, hmid, hbody, hnew | hedit⟩
    · cases hnone
    · obtain ⟨other, hother, heq⟩ := List.mem_map.mp hnew
      cases heq
      exact .inr ⟨message, hother, hmid, hbody⟩
    · obtain ⟨_, -, heq⟩ := List.mem_map.mp hedit
      cases heq

end ChannelStore

open PtsChange

/-! ### Settled changes -/

section Kinds

variable {changes : List (PtsChange Body)}

/-- Edits bring no message. -/
theorem contentAfter_edits_none (messages : List (ChannelMessage Body)) (mid : ℤ) :
    contentAfter (messages.map editMessage) mid none = none := by
  refine contentAfter_none fun other hother => ?_
  obtain ⟨_, -, heq⟩ := List.mem_map.mp (mem_addedIn.mp hother)
  cases heq

/-- **The kinds of settled changes make what the changes make**: edits, deletions and additions. -/
theorem Settled.lookup_eq (h : Settled changes)
    (hours : ∀ message ∈ editedIn changes, message.cid = peerId)
    (hnew : ∀ message ∈ addedIn changes, message.mid = mid → store.messages.lookup mid = none) :
    ((store.updateMessages peerId (editedIn changes)).addMessagesToChannel (addedIn changes)
      (deletedIn changes)).messages.lookup mid =
      contentAfter changes mid (store.messages.lookup mid) := by
  rw [ChannelStore.lookup_addMessagesToChannel, ChannelStore.lookup_updateMessages hours]
  by_cases hadded : ∃ message ∈ addedIn changes, message.mid = mid
  · obtain ⟨message, hmem, rfl⟩ := hadded
    rw [hnew message hmem rfl, contentAfter_edits_none,
      if_neg (ChannelStore.not_kept rfl ⟨message, hmem, rfl⟩),
      h.contentAfter_added (mem_addedIn.mp hmem), h.contentAfter_eq (mem_addedIn.mp hmem)]
  · have hnone : ∀ message ∈ addedIn changes, message.mid ≠ mid :=
      fun message hmem hmid => hadded ⟨message, hmem, hmid⟩
    rw [if_pos (Or.inr hnone), contentAfter_of_not_added hnone]

/-- The same with the edits at the end. -/
theorem Settled.lookup_eq_editsLast (h : Settled changes)
    (hours : ∀ message ∈ editedIn changes, message.cid = peerId)
    (hnew : ∀ message ∈ addedIn changes, message.mid = mid → store.messages.lookup mid = none) :
    ((store.addMessagesToChannel (addedIn changes) (deletedIn changes)).updateMessages peerId
      (editedIn changes)).messages.lookup mid =
      contentAfter changes mid (store.messages.lookup mid) := by
  rw [ChannelStore.lookup_updateMessages hours, ChannelStore.lookup_addMessagesToChannel]
  by_cases hadded : ∃ message ∈ addedIn changes, message.mid = mid
  · obtain ⟨message, hmem, rfl⟩ := hadded
    have hunedited : ∀ change ∈ (editedIn changes).map editMessage,
        ¬ change.About message.mid := by
      intro change hchange habout
      obtain ⟨other, hother, rfl⟩ := List.mem_map.mp hchange
      cases h.eq_of_about (mem_addedIn.mp hmem) (mem_editedIn.mp hother) habout
    rw [hnew message hmem rfl,
      if_neg (ChannelStore.not_kept rfl ⟨message, hmem, rfl⟩),
      h.contentAfter_added (mem_addedIn.mp hmem), h.contentAfter_eq (mem_addedIn.mp hmem),
      contentAfter_of_not_about hunedited]
  · have hnone : ∀ message ∈ addedIn changes, message.mid ≠ mid :=
      fun message hmem hmid => hadded ⟨message, hmem, hmid⟩
    rw [if_pos (Or.inr hnone), contentAfter_of_not_added hnone]
    split
    · exact contentAfter_edits_none _ mid
    · rfl

end Kinds

/-! ### Batches -/

section Batches

variable {log : List (PtsUpdate Body)} {skip : List ℤ} {pts : ℤ} {updates : List (PtsUpdate Body)}
  {c : CollectedUpdates Body}

/-- What is not collected is about messages that are skipped. -/
theorem contentAfter_keptChanges {content : Option Body}
    (hnamed : ∀ update ∈ updates, ∀ message, update.change = newMessage message ∨
      update.change = editMessage message → message.mid ≠ 0) (hmid : mid ∉ skip) :
    contentAfter (keptChanges skip updates) mid content =
      contentAfter (updates.map PtsUpdate.change) mid content := by
  induction updates generalizing content with
  | nil => rfl
  | cons update updates ih =>
      have hrest : ∀ content, contentAfter (keptChanges skip updates) mid content =
          contentAfter (updates.map PtsUpdate.change) mid content := fun _ =>
        ih fun other hother => hnamed other (List.mem_cons_of_mem _ hother)
      rw [List.map_cons, contentAfter_cons, ← hrest, keptChanges, List.map_cons, List.filter_cons]
      split
      · rfl
      · next hnot =>
        rw [changeAt_of_not_about]
        · rfl
        · have hfirst := hnamed update List.mem_cons_self
          revert hnot hfirst
          cases update.change with
          | newMessage message =>
              rintro hnot hfirst rfl
              exact hnot (decide_eq_true ⟨hfirst message (.inl rfl), hmid⟩)
          | editMessage message =>
              rintro hnot hfirst rfl
              exact hnot (decide_eq_true ⟨hfirst message (.inr rfl), hmid⟩)
          | deleteMessages messages => exact fun hnot => absurd rfl hnot
          | webPage => exact fun hnot => absurd rfl hnot

/-- Nothing lies between a number and itself. -/
theorem between_self (log : List (PtsUpdate Body)) (pts : ℤ) : between log pts pts = [] := by
  refine List.filter_eq_nil_iff.mpr fun update _ => ?_
  rw [decide_eq_true_eq]
  omega

section Written

variable (h : Collected log skip pts updates c)
include h

/-- What a batch has collected is written. -/
theorem Collected.messages_writeUpdates : (store.writeUpdates peerId pts c).messages =
    ((store.updateMessages peerId c.updatedMessages).addMessagesToChannel c.addedMessages
      c.deletedMessageIds).messages := by
  rw [ChannelStore.writeUpdates]
  split
  · rfl
  · next heq =>
    rw [not_not] at heq
    rw [h.added, h.deleted, heq, between_self]
    rfl

variable (hlog : IsLog peerId log)
include hlog

/-- The messages of the log are of the channel. -/
theorem Collected.ours : ∀ message ∈ c.updatedMessages, message.cid = peerId := by
  intro message hmem
  rw [h.edited] at hmem
  obtain ⟨update, hupdate, hchange⟩ :=
    List.mem_map.mp (List.mem_filter.mp (mem_editedIn.mp hmem)).1
  exact (hlog.ours update (mem_between.mp hupdate).1 message (.inr hchange)).1

/-- **A batch makes what the log makes** of a message that is not being sent from here, if what it
adds is not changed otherwise and not there. -/
theorem Collected.lookup_writeUpdates
    (hsettled : Settled ((between log pts c.updatedPts).map PtsUpdate.change)) (hmid : mid ∉ skip)
    (hnew : ∀ message ∈ addedIn ((between log pts c.updatedPts).map PtsUpdate.change),
      message.mid = mid → store.messages.lookup mid = none) :
    (store.writeUpdates peerId pts c).messages.lookup mid =
      contentAfter ((between log pts c.updatedPts).map PtsUpdate.change) mid
        (store.messages.lookup mid) := by
  have hours := h.ours hlog
  have hsublist : (keptChanges skip (between log pts c.updatedPts)).Sublist
      ((between log pts c.updatedPts).map PtsUpdate.change) := List.filter_sublist
  rw [h.messages_writeUpdates, h.added, h.deleted]
  rw [h.edited] at hours ⊢
  rw [(hsettled.sublist hsublist).lookup_eq hours fun message hmem =>
      hnew message (mem_addedIn.mpr (hsublist.subset (mem_addedIn.mp hmem))),
    contentAfter_keptChanges _ hmid]
  intro update hupdate message hchange
  exact (hlog.ours update (mem_between.mp hupdate).1 message hchange).2

/-- A message of the log that is never deleted is there once it has been added. -/
theorem Collected.isSome_writeUpdates (hmid : mid ∉ skip)
    (hstays : ∀ update ∈ log, mid ∉ update.change.deleted)
    (hthere : (store.messages.lookup mid).isSome ∨
      ∃ update ∈ between log pts c.updatedPts, ∃ message, update.change = newMessage message ∧
        message.mid = mid) :
    ((store.writeUpdates peerId pts c).messages.lookup mid).isSome := by
  rw [h.messages_writeUpdates]
  refine ChannelStore.isSome_addMessagesToChannel ?_ ?_
  · rw [h.deleted, mem_deletedIn]
    rintro ⟨messages, hmem, hdeleted⟩
    obtain ⟨update, hupdate, hchange⟩ := List.mem_map.mp (List.mem_filter.mp hmem).1
    exact hstays update (mem_between.mp hupdate).1 (mem_deleted.mpr ⟨messages, hchange, hdeleted⟩)
  · rw [ChannelStore.isSome_updateMessages (h.ours hlog)]
    refine hthere.imp_right ?_
    rintro ⟨update, hupdate, message, hchange, rfl⟩
    have hnamed := (hlog.ours update (mem_between.mp hupdate).1 message (.inl hchange)).2
    refine ⟨message, ?_, rfl⟩
    rw [h.added, mem_addedIn, keptChanges, List.mem_filter]
    exact ⟨List.mem_map.mpr ⟨update, hupdate, hchange⟩, decide_eq_true ⟨hnamed, hmid⟩⟩

/-- What a batch writes, the log tells of. -/
theorem Collected.lookup_writeUpdates_eq_some {body : Body}
    (hwritten : (store.writeUpdates peerId pts c).messages.lookup mid = some body) :
    store.messages.lookup mid = some body ∨ ∃ message, Tells log message ∧ message.mid = mid ∧
      message.body = body := by
  have htells : ∀ change : PtsChange Body, ∀ message,
      change ∈ keptChanges skip (between log pts c.updatedPts) →
      change = newMessage message ∨ change = editMessage message → Tells log message := by
    intro change message hmem hchange
    obtain ⟨update, hupdate, rfl⟩ := List.mem_map.mp (List.mem_filter.mp hmem).1
    exact ⟨update, (mem_between.mp hupdate).1, hchange⟩
  rw [h.messages_writeUpdates] at hwritten
  rcases ChannelStore.lookup_addMessagesToChannel_eq_some hwritten with
    hedited | ⟨message, hmem, hmid, hbody⟩
  · rcases ChannelStore.lookup_updateMessages_eq_some (h.ours hlog) hedited with
      hbefore | ⟨message, hmem, hmid, hbody⟩
    · exact .inl hbefore
    · rw [h.edited] at hmem
      exact .inr ⟨message, htells _ message (mem_editedIn.mp hmem) (.inr rfl), hmid, hbody⟩
  · rw [h.added] at hmem
    exact .inr ⟨message, htells _ message (mem_addedIn.mp hmem) (.inl rfl), hmid, hbody⟩

end Written

end Batches

/-! ### Differences -/

section Differences

variable {log : List (PtsUpdate Body)} {pts next : ℤ} {newMessages : List (ChannelMessage Body)}
  {otherUpdates : List (ChannelUpdate Body)}

/-- The changes that a difference tells of. -/
def differenceChanges (newMessages : List (ChannelMessage Body))
    (otherUpdates : List (ChannelUpdate Body)) : List (PtsChange Body) :=
  newMessages.map newMessage ++ (ptsUpdates otherUpdates).map PtsUpdate.change

/-- The answer of a server to a question from a number on: what it tells of makes what the log
makes up to the number that it comes to. It may leave changes out that others make up for. -/
structure Answers (log : List (PtsUpdate Body)) (pts next : ℤ)
    (newMessages : List (ChannelMessage Body)) (otherUpdates : List (ChannelUpdate Body)) :
    Prop where
  le : pts ≤ next
  aligned : Aligned log next
  told : ∀ message, newMessage message ∈ differenceChanges newMessages otherUpdates ∨
    editMessage message ∈ differenceChanges newMessages otherUpdates → Tells log message
  deleted : ∀ mid ∈ deletedIn (differenceChanges newMessages otherUpdates),
    ∃ update ∈ log, mid ∈ update.change.deleted
  new : ∀ message ∈ newMessages, contentAt log pts message.mid = none
  notNew : ∀ update ∈ ptsUpdates otherUpdates, ∀ message, update.change ≠ newMessage message
  settled : Settled (differenceChanges newMessages otherUpdates)
  content : ∀ mid, contentAfter (differenceChanges newMessages otherUpdates) mid
    (contentAt log pts mid) = contentAt log next mid

section Written

variable (h : Answers log pts next newMessages otherUpdates) (hlog : IsLog peerId log)
include h

/-- The new messages of a difference are those that it adds. -/
theorem Answers.addedIn_eq :
    addedIn (differenceChanges newMessages otherUpdates) = newMessages := by
  have hnew : addedIn (newMessages.map newMessage) = newMessages := by
    rw [addedIn, List.filterMap_map]
    exact List.filterMap_some
  have hother : addedIn ((ptsUpdates otherUpdates).map PtsUpdate.change) = [] := by
    refine List.eq_nil_iff_forall_not_mem.mpr fun message hmem => ?_
    obtain ⟨update, hupdate, hchange⟩ := List.mem_map.mp (mem_addedIn.mp hmem)
    exact h.notNew update hupdate message hchange
  rw [differenceChanges, addedIn, List.filterMap_append]
  exact (congrArg₂ _ hnew hother).trans (List.append_nil _)

omit h in
/-- The other updates of a difference tell what it edits and deletes. -/
theorem editedIn_differenceChanges :
    editedIn (differenceChanges newMessages otherUpdates) =
        editedIn ((ptsUpdates otherUpdates).map PtsUpdate.change) ∧
      deletedIn (differenceChanges newMessages otherUpdates) =
        deletedIn ((ptsUpdates otherUpdates).map PtsUpdate.change) := by
  have hedited : editedIn (newMessages.map newMessage) = [] := by
    refine List.eq_nil_iff_forall_not_mem.mpr fun message hmem => ?_
    obtain ⟨_, -, heq⟩ := List.mem_map.mp (mem_editedIn.mp hmem)
    cases heq
  have hdeleted : deletedIn (newMessages.map newMessage) = [] := by
    refine List.eq_nil_iff_forall_not_mem.mpr fun mid hmem => ?_
    obtain ⟨messages, hchange, -⟩ := mem_deletedIn.mp hmem
    obtain ⟨_, -, heq⟩ := List.mem_map.mp hchange
    cases heq
  constructor
  · rw [differenceChanges, editedIn, List.filterMap_append]
    exact congrArg (· ++ _) hedited
  · rw [differenceChanges, deletedIn, List.flatMap_append]
    exact congrArg (· ++ _) hdeleted

include hlog

/-- What a difference tells of is written. -/
theorem Answers.messages_writeDifference :
    (store.writeDifference peerId next newMessages otherUpdates).messages =
      ((store.addMessagesToChannel (addedIn (differenceChanges newMessages otherUpdates))
        (deletedIn (differenceChanges newMessages otherUpdates))).updateMessages peerId
          (editedIn (differenceChanges newMessages otherUpdates))).messages := by
  have hall : newMessages.filter (fun message => message.mid ≠ 0 ∧ message.cid = peerId) =
      newMessages := by
    refine List.filter_eq_self.mpr fun message hmem => decide_eq_true ?_
    obtain ⟨update, hupdate, hchange⟩ :=
      h.told message (.inl (List.mem_append_left _ (List.mem_map_of_mem hmem)))
    exact (hlog.ours update hupdate message hchange).symm
  rw [ChannelStore.writeDifference, hall, h.addedIn_eq, editedIn_differenceChanges.1,
    editedIn_differenceChanges.2]
  rfl

/-- The messages of an answer are of the channel. -/
theorem Answers.ours : ∀ message ∈ editedIn (differenceChanges newMessages otherUpdates),
    message.cid = peerId := by
  intro message hmem
  obtain ⟨update, hupdate, hchange⟩ := h.told message (.inr (mem_editedIn.mp hmem))
  exact (hlog.ours update hupdate message hchange).1

/-- **A difference makes what the log makes** of a message that is as it has been at the number
that has been asked with. -/
theorem Answers.lookup_writeDifference
    (hexact : store.messages.lookup mid = contentAt log pts mid) :
    (store.writeDifference peerId next newMessages otherUpdates).messages.lookup mid =
      contentAt log next mid := by
  rw [h.messages_writeDifference hlog, h.settled.lookup_eq_editsLast (h.ours hlog), hexact,
    h.content]
  rintro message hmem rfl
  rw [h.addedIn_eq] at hmem
  exact hexact.trans (h.new message hmem)

/-- A message of the log that is never deleted is there once it has been added. -/
theorem Answers.isSome_writeDifference (hstays : ∀ update ∈ log, mid ∉ update.change.deleted)
    (hthere : (store.messages.lookup mid).isSome ∨
      ∃ update ∈ between log pts next, ∃ message, update.change = newMessage message ∧
        message.mid = mid) :
    ((store.writeDifference peerId next newMessages otherUpdates).messages.lookup mid).isSome := by
  rw [h.messages_writeDifference hlog, ChannelStore.isSome_updateMessages (h.ours hlog)]
  refine ChannelStore.isSome_addMessagesToChannel ?_ (hthere.imp_right ?_)
  · intro hmem
    obtain ⟨update, hupdate, hdeleted⟩ := h.deleted mid hmem
    exact hstays update hupdate hdeleted
  · rintro ⟨update, hupdate, message, hchange, rfl⟩
    obtain ⟨hlogged, hlt, hle⟩ := mem_between.mp hupdate
    by_contra hnone
    have hcontent := h.content message.mid
    rw [hlog.contentAt_eq_none hlogged hchange hlt, contentAfter_none] at hcontent
    · have hsome := isSome_contentAt hlogged hchange hle hstays
      rw [← hcontent] at hsome
      exact absurd hsome Bool.false_ne_true
    · exact fun other hother hmid => hnone ⟨other, hother, hmid⟩

/-- What a difference writes, the log tells of. -/
theorem Answers.lookup_writeDifference_eq_some {body : Body}
    (hwritten : (store.writeDifference peerId next newMessages otherUpdates).messages.lookup mid =
      some body) :
    store.messages.lookup mid = some body ∨ ∃ message, Tells log message ∧ message.mid = mid ∧
      message.body = body := by
  rw [h.messages_writeDifference hlog] at hwritten
  rcases ChannelStore.lookup_updateMessages_eq_some (h.ours hlog) hwritten with
    hadded | ⟨message, hmem, hmid, hbody⟩
  · rcases ChannelStore.lookup_addMessagesToChannel_eq_some hadded with
      hbefore | ⟨message, hmem, hmid, hbody⟩
    · exact .inl hbefore
    · exact .inr ⟨message, h.told message (.inl (mem_addedIn.mp hmem)), hmid, hbody⟩
  · exact .inr ⟨message, h.told message (.inr (mem_editedIn.mp hmem)), hmid, hbody⟩

end Written

end Differences

end Telegraph.Channels
