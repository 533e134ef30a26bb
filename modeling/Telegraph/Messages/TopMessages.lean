import Telegraph.Messages.SortKeys

/-!
# Top Messages of a Channel

`addMessagesToChannel:…` keeps two running maxima, of the important and of the unimportant
messages it adds and of those whose sort keys it updates, and hands them to
`_updateChannelConversationSortKeys:…`. In the loop over the updates an important key is compared
with the maximum of the unimportant keys, which is always below it: the last update wins.

## Main results

* `mem_skipMessages`: the blocks of 1024 ids ask for every message.
* `bestOf_foldl`: the running maximum.
* `foldl_updateMessage`: **the last important update is taken**, the unimportant ones are compared.
* `topMessages_max`: exactly when the messages handed on are those with the greatest keys.
* `topMessages_older`: an older message is handed on.
-/

namespace Telegraph.Messages

/-! ### The function -/

/-- A message of a channel. -/
structure ChannelMessage where
  mid : ℤ
  sortKey : TGMessageSortKey
deriving DecidableEq

/-- Three elements of `updatedMessageSortKeys`. -/
structure SortKeyUpdate where
  previousSortKey : TGMessageSortKey
  updatedSortKey : TGMessageSortKey
  updatedMessage : ChannelMessage

/-- A running maximum: `maxImportantSortKey` with `maxImportantMessage`, or the unimportant ones. -/
structure TopMessage where
  sortKey : TGMessageSortKey
  message : Option ChannelMessage
deriving DecidableEq

/-- The two running maxima. -/
structure TopMessages where
  important : TopMessage
  unimportant : TopMessage

/-- The blocks of messages whose ids one query looks for. -/
def queriedBlocks (messages : List ChannelMessage) : List (List ChannelMessage) :=
  (List.range ((messages.length + 1023) / 1024)).map fun block =>
    (messages.take (block * 1024 + 1024)).drop (block * 1024)

/-- `skipMessages`, the ids that have a row in the table. -/
def skipMessages (stored : List ℤ) (messages : List ChannelMessage) : List ℤ :=
  (queriedBlocks messages).flatMap fun block =>
    stored.filter fun mid => mid ∈ block.map ChannelMessage.mid

/-- The messages that are added. -/
def newMessages (stored : List ℤ) (messages : List ChannelMessage) : List ChannelMessage :=
  messages.filter fun message => message.mid ∉ skipMessages stored messages

/-- A message replaces the top one if its key is greater. -/
def TopMessage.offer (top : TopMessage) (sortKey : TGMessageSortKey) (message : ChannelMessage) :
    TopMessage :=
  if TGMessageSortKeyCompare sortKey top.sortKey > 0 then ⟨sortKey, some message⟩ else top

/-- The loop body for a message that is added. -/
def TopMessages.addMessage (tops : TopMessages) (message : ChannelMessage) : TopMessages :=
  if TGMessageSortKeySpace message.sortKey = TGMessageSpaceImportant then
    { tops with important := tops.important.offer message.sortKey message }
  else { tops with unimportant := tops.unimportant.offer message.sortKey message }

/-- The loop body for an update. The important key is compared with `maxUnimportantSortKey`. -/
def TopMessages.updateMessage (tops : TopMessages) (update : SortKeyUpdate) : TopMessages :=
  if TGMessageSortKeySpace update.updatedSortKey = TGMessageSpaceImportant then
    if TGMessageSortKeyCompare update.updatedSortKey tops.unimportant.sortKey > 0 then
      { tops with important := ⟨update.updatedSortKey, some update.updatedMessage⟩ }
    else tops
  else if TGMessageSortKeySpace update.updatedSortKey = TGMessageSpaceUnimportant then
    { tops with
      unimportant := tops.unimportant.offer update.updatedSortKey update.updatedMessage }
  else tops

/-- The maxima before the loops. -/
def TopMessages.start (peerId : ℤ) : TopMessages where
  important := ⟨TGMessageSortKeyLowerBound peerId TGMessageSpaceImportant, none⟩
  unimportant := ⟨TGMessageSortKeyLowerBound peerId TGMessageSpaceUnimportant, none⟩

/-- What `addMessagesToChannel:…` hands to `_updateChannelConversationSortKeys:…`; `stored` are
the ids of the channel's messages in the table. -/
def topMessages (peerId : ℤ) (stored : List ℤ) (messages : List ChannelMessage)
    (updates : List SortKeyUpdate) : TopMessages :=
  updates.foldl TopMessages.updateMessage
    ((newMessages stored messages).foldl TopMessages.addMessage (.start peerId))

/-! ### New messages -/

/-- **Every message is looked up.** -/
theorem mem_skipMessages {stored : List ℤ} {messages : List ChannelMessage} {mid : ℤ} :
    mid ∈ skipMessages stored messages ↔ mid ∈ stored ∧ mid ∈ messages.map ChannelMessage.mid := by
  simp only [skipMessages, queriedBlocks, List.mem_flatMap, List.mem_map, List.mem_range,
    List.mem_filter, decide_eq_true_eq]
  constructor
  · rintro ⟨_, ⟨block, -, rfl⟩, hstored, message, hmessage, rfl⟩
    exact ⟨hstored, message, List.mem_of_mem_take (List.mem_of_mem_drop hmessage), rfl⟩
  · rintro ⟨hstored, message, hmessage, rfl⟩
    obtain ⟨i, hi, rfl⟩ := List.mem_iff_getElem.mp hmessage
    refine ⟨_, ⟨i / 1024, by omega, rfl⟩, hstored, _, ?_, rfl⟩
    refine List.mem_iff_getElem.mpr ⟨i - i / 1024 * 1024, ?_, ?_⟩
    · rw [List.length_drop, List.length_take]
      omega
    · rw [List.getElem_drop, List.getElem_take]
      congr 1
      omega

/-! ### The running maximum -/

section Best

variable {bound : TGMessageSortKey} {messages before : List ChannelMessage}
  {message : ChannelMessage} {top : TopMessage}

/-- A maximum of the messages above a bound: no key is greater, and it is the bound's or one of
theirs. -/
structure BestOf (bound : TGMessageSortKey) (messages : List ChannelMessage) (top : TopMessage) :
    Prop where
  le_top : ∀ message ∈ messages, message.sortKey.rank ≤ top.sortKey.rank
  achieved : top = ⟨bound, none⟩ ∨
    ∃ message ∈ messages, top = ⟨message.sortKey, some message⟩ ∧
      bound.rank < message.sortKey.rank

theorem BestOf.nil : BestOf bound [] ⟨bound, none⟩ :=
  ⟨fun _ h => absurd h List.not_mem_nil, Or.inl rfl⟩

/-- One more message. -/
theorem BestOf.offer (h : BestOf bound messages top) :
    BestOf bound (messages ++ [message]) (top.offer message.sortKey message) := by
  have hbound : bound.rank ≤ top.sortKey.rank := by
    rcases h.achieved with rfl | ⟨best, -, rfl, hlt⟩
    · exact le_refl _
    · exact hlt.le
  rw [TopMessage.offer]
  split
  · next hgt =>
      have hgt := sortKeyCompare_pos.mp hgt
      refine ⟨fun other hother => ?_, Or.inr ⟨message, by simp, rfl, hbound.trans_lt hgt⟩⟩
      rcases List.mem_append.mp hother with hother | hother
      · exact (h.le_top other hother).trans hgt.le
      · obtain rfl := List.mem_singleton.mp hother
        exact le_refl _
  · next hle =>
      have hle := sortKeyCompare_nonpos.mp (not_lt.mp hle)
      refine ⟨fun other hother => ?_, ?_⟩
      · rcases List.mem_append.mp hother with hother | hother
        · exact h.le_top other hother
        · obtain rfl := List.mem_singleton.mp hother
          exact hle
      · rcases h.achieved with htop | ⟨best, hbest, htop⟩
        · exact Or.inl htop
        · exact Or.inr ⟨best, List.mem_append_left _ hbest, htop⟩

/-- The loop keeps a maximum of what it has seen. -/
theorem bestOf_foldl (h : BestOf bound before top) (messages : List ChannelMessage) :
    BestOf bound (before ++ messages)
      (messages.foldl (fun top message => top.offer message.sortKey message) top) := by
  induction messages generalizing before top with
  | nil => rwa [List.append_nil, List.foldl_nil]
  | cons message messages ih =>
      rw [List.foldl_cons, ← List.singleton_append, ← List.append_assoc]
      exact ih h.offer

/-- A message with the greatest key among the candidates, or none if there are none. -/
def IsTop (candidates : List ChannelMessage) : Option ChannelMessage → Prop
  | none => candidates = []
  | some message => message ∈ candidates ∧
      ∀ other ∈ candidates, TGMessageSortKeyCompare other.sortKey message.sortKey ≤ 0

/-- There are no candidates, or one with a key above the bound. -/
def AboveBound (bound : TGMessageSortKey) (candidates : List ChannelMessage) : Prop :=
  candidates = [] ∨ ∃ message ∈ candidates, TGMessageSortKeyCompare message.sortKey bound > 0

/-- The running maximum is right unless all keys are the bound. -/
theorem BestOf.isTop_iff (h : BestOf bound messages top) :
    IsTop messages top.message ↔ AboveBound bound messages := by
  rcases h.achieved with rfl | ⟨best, hbest, rfl, hlt⟩
  · refine ⟨Or.inl, ?_⟩
    rintro (hnil | ⟨message, hmessage, hgt⟩)
    · exact hnil
    · exact absurd (sortKeyCompare_pos.mp hgt) (h.le_top message hmessage).not_gt
  · refine ⟨fun _ => Or.inr ⟨best, hbest, sortKeyCompare_pos.mpr hlt⟩, fun _ => ⟨hbest, ?_⟩⟩
    exact fun other hother => sortKeyCompare_nonpos.mpr (h.le_top other hother)

end Best

/-! ### The two loops -/

section Loops

variable {peerId : ℤ} {stored : List ℤ} {messages : List ChannelMessage}
  {updates : List SortKeyUpdate} {tops : TopMessages} {space : UInt8}

/-- A key that `TGMessageSortKeyMake` makes for a message of the channel. -/
def OfChannel (peerId : ℤ) (space : UInt8) (sortKey : TGMessageSortKey) : Prop :=
  ∃ timestamp mid, sortKey = TGMessageSortKeyMake peerId space timestamp mid

/-- The messages of one space. -/
def ofSpace (space : UInt8) (messages : List ChannelMessage) : List ChannelMessage :=
  messages.filter fun message => TGMessageSortKeySpace message.sortKey = space

/-- The messages that may be the top one of a space. -/
def candidates (space : UInt8) (stored : List ℤ) (messages : List ChannelMessage)
    (updates : List SortKeyUpdate) : List ChannelMessage :=
  ofSpace space (newMessages stored messages ++ updates.map SortKeyUpdate.updatedMessage)

/-- A key of the channel, important or not. -/
def KeyOf (peerId : ℤ) (sortKey : TGMessageSortKey) : Prop :=
  OfChannel peerId TGMessageSpaceImportant sortKey ∨
    OfChannel peerId TGMessageSpaceUnimportant sortKey

/-- An update has the new key of its message. -/
def UpdateOf (peerId : ℤ) (update : SortKeyUpdate) : Prop :=
  update.updatedSortKey = update.updatedMessage.sortKey ∧ KeyOf peerId update.updatedSortKey

theorem OfChannel.space_eq {sortKey : TGMessageSortKey} (h : OfChannel peerId space sortKey) :
    TGMessageSortKeySpace sortKey = space := by
  obtain ⟨timestamp, mid, rfl⟩ := h
  exact space_make

/-- The loop over the messages is two loops. -/
theorem TopMessages.foldl_addMessage
    (hmessages : ∀ message ∈ messages, KeyOf peerId message.sortKey) :
    messages.foldl TopMessages.addMessage tops =
      { important := (ofSpace TGMessageSpaceImportant messages).foldl
          (fun top message => top.offer message.sortKey message) tops.important
        unimportant := (ofSpace TGMessageSpaceUnimportant messages).foldl
          (fun top message => top.offer message.sortKey message) tops.unimportant } := by
  induction messages generalizing tops with
  | nil => rfl
  | cons message messages ih =>
      obtain ⟨hmessage, hrest⟩ := List.forall_mem_cons.mp hmessages
      rw [List.foldl_cons, ih hrest, TopMessages.addMessage]
      rcases hmessage with h | h
      · have hspace := h.space_eq
        simp [ofSpace, hspace, TGMessageSpaceImportant, TGMessageSpaceUnimportant]
      · have hspace := h.space_eq
        simp [ofSpace, hspace, TGMessageSpaceImportant, TGMessageSpaceUnimportant]

/-- The updates to keys of the important space. -/
def importantUpdates (updates : List SortKeyUpdate) : List SortKeyUpdate :=
  updates.filter fun update =>
    TGMessageSortKeySpace update.updatedSortKey = TGMessageSpaceImportant

/-- The top key of the unimportant space stays one of its keys. -/
theorem OfChannel.offer {top : TopMessage} {message : ChannelMessage}
    (h : OfChannel peerId space top.sortKey) (hmessage : OfChannel peerId space message.sortKey) :
    OfChannel peerId space (top.offer message.sortKey message).sortKey := by
  rw [TopMessage.offer]
  split
  · exact hmessage
  · exact h

/-- Offers keep the top key in its space. -/
theorem OfChannel.foldl_offer {top : TopMessage} (h : OfChannel peerId space top.sortKey)
    (hmessages : ∀ message ∈ messages, OfChannel peerId space message.sortKey) :
    OfChannel peerId space
      (messages.foldl (fun top message => top.offer message.sortKey message) top).sortKey := by
  induction messages generalizing top with
  | nil => exact h
  | cons message messages ih =>
      obtain ⟨hmessage, hrest⟩ := List.forall_mem_cons.mp hmessages
      exact ih (h.offer hmessage) hrest

/-- The messages of a space have its keys. -/
theorem ofChannel_of_mem_ofSpace {message : ChannelMessage}
    (hmessages : ∀ message ∈ messages, KeyOf peerId message.sortKey)
    (hmessage : message ∈ ofSpace TGMessageSpaceUnimportant messages) :
    OfChannel peerId TGMessageSpaceUnimportant message.sortKey := by
  obtain ⟨hmem, hspace⟩ := List.mem_filter.mp hmessage
  refine (hmessages message hmem).resolve_left fun himportant => ?_
  have heq := himportant.space_eq.symm.trans (of_decide_eq_true hspace)
  exact absurd heq (by decide)

/-- An important update is always taken. -/
theorem updateMessage_important {update : SortKeyUpdate}
    (htop : OfChannel peerId TGMessageSpaceUnimportant tops.unimportant.sortKey)
    (h : OfChannel peerId TGMessageSpaceImportant update.updatedSortKey) :
    tops.updateMessage update =
      { tops with important := ⟨update.updatedSortKey, some update.updatedMessage⟩ } := by
  have hgt : TGMessageSortKeyCompare update.updatedSortKey tops.unimportant.sortKey > 0 := by
    obtain ⟨timestamp, mid, htop⟩ := htop
    obtain ⟨timestamp', mid', hupdate⟩ := h
    rw [htop, hupdate]
    exact sortKeyCompare_pos.mpr sortKey_space_lt
  rw [TopMessages.updateMessage, if_pos h.space_eq, if_pos hgt]

/-- An unimportant update is offered. -/
theorem updateMessage_unimportant {update : SortKeyUpdate}
    (h : OfChannel peerId TGMessageSpaceUnimportant update.updatedSortKey) :
    tops.updateMessage update =
      { tops with
        unimportant := tops.unimportant.offer update.updatedSortKey update.updatedMessage } := by
  have hspace := h.space_eq
  rw [TopMessages.updateMessage, if_neg (by rw [hspace]; decide), if_pos hspace]

/-- **Of the important updates the last one is taken; the unimportant ones are compared.** -/
theorem foldl_updateMessage (hupdates : ∀ update ∈ updates, UpdateOf peerId update)
    (htop : OfChannel peerId TGMessageSpaceUnimportant tops.unimportant.sortKey) :
    updates.foldl TopMessages.updateMessage tops =
      { important := match (importantUpdates updates).getLast? with
          | some update => ⟨update.updatedSortKey, some update.updatedMessage⟩
          | none => tops.important
        unimportant := (ofSpace TGMessageSpaceUnimportant
            (updates.map SortKeyUpdate.updatedMessage)).foldl
          (fun top message => top.offer message.sortKey message) tops.unimportant } := by
  induction updates generalizing tops with
  | nil => rfl
  | cons update updates ih =>
      obtain ⟨⟨hkey, hof⟩, hrest⟩ := List.forall_mem_cons.mp hupdates
      rcases hof with himportant | hunimportant
      · have hspace := himportant.space_eq
        have htop' : OfChannel peerId TGMessageSpaceUnimportant (TopMessages.mk
            ⟨update.updatedSortKey, some update.updatedMessage⟩
            tops.unimportant).unimportant.sortKey := htop
        rw [List.foldl_cons, updateMessage_important htop himportant, ih hrest htop']
        have hlist : importantUpdates (update :: updates) = update :: importantUpdates updates :=
          List.filter_cons_of_pos (by simpa using hspace)
        have hother : ofSpace TGMessageSpaceUnimportant
            ((update :: updates).map SortKeyUpdate.updatedMessage) =
              ofSpace TGMessageSpaceUnimportant (updates.map SortKeyUpdate.updatedMessage) := by
          refine List.filter_cons_of_neg ?_
          rw [← hkey, hspace]
          decide
        rw [hlist, hother, List.getLast?_cons]
        cases (importantUpdates updates).getLast? <;> rfl
      · have hspace := hunimportant.space_eq
        have htop' : OfChannel peerId TGMessageSpaceUnimportant
            (tops.unimportant.offer update.updatedSortKey update.updatedMessage).sortKey := by
          rw [hkey] at hunimportant ⊢
          exact htop.offer hunimportant
        rw [List.foldl_cons, updateMessage_unimportant hunimportant, ih hrest htop']
        have hlist : importantUpdates (update :: updates) = importantUpdates updates := by
          refine List.filter_cons_of_neg ?_
          rw [hspace]
          decide
        have hother : ofSpace TGMessageSpaceUnimportant
            ((update :: updates).map SortKeyUpdate.updatedMessage) = update.updatedMessage ::
              ofSpace TGMessageSpaceUnimportant (updates.map SortKeyUpdate.updatedMessage) := by
          refine List.filter_cons_of_pos ?_
          rw [← hkey, hspace]
          rfl
        rw [hlist, hother, List.foldl_cons, hkey]

/-- When the important top message is right: that of the last update, if there is one, has the
greatest key; else not all keys are the lower bound. -/
def ImportantRight (peerId : ℤ) (stored : List ℤ) (messages : List ChannelMessage)
    (updates : List SortKeyUpdate) : Prop :=
  match (importantUpdates updates).getLast? with
  | some update => ∀ message ∈ candidates TGMessageSpaceImportant stored messages updates,
      TGMessageSortKeyCompare message.sortKey update.updatedSortKey ≤ 0
  | none => AboveBound (TGMessageSortKeyLowerBound peerId TGMessageSpaceImportant)
      (candidates TGMessageSpaceImportant stored messages updates)

theorem candidates_eq : candidates space stored messages updates =
    ofSpace space (newMessages stored messages) ++
      ofSpace space (updates.map SortKeyUpdate.updatedMessage) := by
  rw [candidates, ofSpace, List.filter_append, ofSpace, ofSpace]

/-- Without important updates only the added messages are important candidates. -/
theorem ofSpace_important_eq_nil (hupdates : ∀ update ∈ updates, UpdateOf peerId update)
    (hnone : (importantUpdates updates).getLast? = none) :
    ofSpace TGMessageSpaceImportant (updates.map SortKeyUpdate.updatedMessage) = [] := by
  have hempty := List.getLast?_eq_none_iff.mp hnone
  refine List.filter_eq_nil_iff.mpr fun message hmessage => ?_
  obtain ⟨update, hupdate, rfl⟩ := List.mem_map.mp hmessage
  have hspace := List.filter_eq_nil_iff.mp hempty update hupdate
  rwa [(hupdates update hupdate).1] at hspace

/-- **The unimportant message handed on is one with the greatest key, unless all keys are the
lower bound; the important one exactly if it is that of the last important update, where there is
one.** The keys are those that the callers make. -/
theorem topMessages_max (hmessages : ∀ message ∈ messages, KeyOf peerId message.sortKey)
    (hupdates : ∀ update ∈ updates, UpdateOf peerId update) :
    (IsTop (candidates TGMessageSpaceImportant stored messages updates)
        (topMessages peerId stored messages updates).important.message ↔
      ImportantRight peerId stored messages updates) ∧
    (IsTop (candidates TGMessageSpaceUnimportant stored messages updates)
        (topMessages peerId stored messages updates).unimportant.message ↔
      AboveBound (TGMessageSortKeyLowerBound peerId TGMessageSpaceUnimportant)
        (candidates TGMessageSpaceUnimportant stored messages updates)) := by
  have hnew : ∀ message ∈ newMessages stored messages, KeyOf peerId message.sortKey :=
    fun message h => hmessages message (List.mem_filter.mp h).1
  have hstart : OfChannel peerId TGMessageSpaceUnimportant
      (TopMessages.start peerId).unimportant.sortKey := ⟨0, 0, rfl⟩
  have hadded := hstart.foldl_offer fun message h => ofChannel_of_mem_ofSpace hnew h
  rw [topMessages, TopMessages.foldl_addMessage hnew, foldl_updateMessage hupdates hadded]
  constructor
  · rw [ImportantRight]
    cases hlast : (importantUpdates updates).getLast? with
    | none =>
        rw [candidates_eq, ofSpace_important_eq_nil hupdates hlast, List.append_nil]
        exact (bestOf_foldl BestOf.nil _).isTop_iff
    | some update =>
        obtain ⟨hupdate, hspace⟩ := List.mem_filter.mp (List.mem_of_getLast? hlast)
        have hkey := (hupdates update hupdate).1
        rw [hkey] at hspace
        simp only [hkey]
        refine ⟨fun h => h.2, fun h => ⟨?_, h⟩⟩
        refine List.mem_filter.mpr ⟨List.mem_append_right _ ?_, hspace⟩
        exact List.mem_map_of_mem hupdate
  · rw [candidates_eq]
    exact (bestOf_foldl (bestOf_foldl BestOf.nil _) _).isTop_iff

end Loops

/-- A message of the channel 0, for the runs below. -/
def messageAt (space : UInt8) (timestamp mid : ℤ) : ChannelMessage :=
  ⟨mid, TGMessageSortKeyMake 0 space timestamp mid⟩

/-- An update to the key of a message. -/
def updateTo (message : ChannelMessage) : SortKeyUpdate := ⟨message.sortKey, message.sortKey, message⟩

/-- A newer message is added and another one updated. -/
theorem topMessages_newer :
    IsTop (candidates TGMessageSpaceUnimportant [] [messageAt 0 20 2] [updateTo (messageAt 0 10 1)])
      (topMessages 0 [] [messageAt 0 20 2] [updateTo (messageAt 0 10 1)]).unimportant.message := by
  refine (topMessages_max ?_ ?_).2.mpr (Or.inr ⟨messageAt 0 20 2, by decide, by decide⟩)
  · exact fun message h => List.mem_singleton.mp h ▸ Or.inr ⟨20, 2, rfl⟩
  · exact fun update h => List.mem_singleton.mp h ▸ ⟨rfl, Or.inr ⟨10, 1, rfl⟩⟩

/-- A newer important message is added and an older one updated: the older one is handed on. -/
theorem topMessages_older :
    ¬ IsTop (candidates TGMessageSpaceImportant [] [messageAt 1 20 2] [updateTo (messageAt 1 10 1)])
      (topMessages 0 [] [messageAt 1 20 2] [updateTo (messageAt 1 10 1)]).important.message := by
  intro h
  exact absurd (h.2 (messageAt 1 20 2) (by decide)) (by decide)

end Telegraph.Messages
