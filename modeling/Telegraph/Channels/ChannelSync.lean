import Telegraph.Channels.ChannelWrites
import Telegraph.Lib.Machine

/-!
# A Channel Is Brought Up to Date

Batches and polls go on side by side, and each is written when it comes to it: what a batch or an
answer is written to need not be what it has been begun with. Whatever the order, a channel has all
messages of the log up to the number that it stores. If nothing is written in between, it has them
as the log has them.

## Main results

* `channel_complete`: **no message is missed**, in any run, and none is made up.
* `channel_exact`: **the channel is what the log makes**, in every run without a write in between.
-/

namespace Telegraph.Channels

open PtsChange

variable {Body : Type} {peerId : ℤ} {sort : List (PtsUpdate Body) → List (PtsUpdate Body)}
  {log : List (PtsUpdate Body)} {own : Set ℤ}

/-! ### Honest servers -/

/-- What comes from the server is of its log; the messages that it says are being sent from here
are. -/
def Honest (log : List (PtsUpdate Body)) (own : Set ℤ) (s : ManagedChannelState Body) :
    ChannelEvent Body → Prop
  | .addUpdates updates => (∀ update ∈ ptsUpdates updates, update ∈ log) ∧
      ∀ randomId nId, .messageID randomId nId ∈ updates → nId ∈ own
  | .difference (.channelDifference next _ newMessages otherUpdates) =>
      ∀ pts, s.polling = some pts → Answers log pts next newMessages otherUpdates
  | _ => True

/-- A batch of an honest server. -/
structure HonestBatch (log : List (PtsUpdate Body)) (own : Set ℤ)
    (updates : List (ChannelUpdate Body)) : Prop where
  logged : ∀ update ∈ ptsUpdates updates, update ∈ log
  skipped : ∀ randomId nId, .messageID randomId nId ∈ updates → nId ∈ own

/-- The identifiers are those of the updates. -/
theorem mem_of_lookup_randomIdToMessageId {updates : List (ChannelUpdate Body)}
    {randomId nId : ℤ} (h : (randomIdToMessageId updates).lookup randomId = some nId) :
    .messageID randomId nId ∈ updates := by
  induction updates using List.reverseRecOn with
  | nil => cases h
  | append_singleton updates update ih =>
      rw [randomIdToMessageId, List.foldl_append, List.foldl_cons, List.foldl_nil,
        ← randomIdToMessageId] at h
      cases update with
      | messageID otherId otherNId =>
          rw [setMessageId, Dictionary.lookup_insert_ite] at h
          split at h
          · next heq =>
            obtain rfl := Option.some.inj h
            rw [heq]
            exact List.mem_append_right _ List.mem_cons_self
          · exact List.mem_append_left _ (ih h)
      | _ => exact List.mem_append_left _ (ih h)

/-- What is skipped is being sent from here. -/
theorem HonestBatch.mem_own {updates : List (ChannelUpdate Body)} {executing : List ℤ} {mid : ℤ}
    (h : HonestBatch log own updates) (hmem : mid ∈ skipMessageIds executing updates) :
    mid ∈ own := by
  obtain ⟨randomId, -, hlookup⟩ := List.mem_filterMap.mp hmem
  split at hlookup
  · exact h.skipped randomId mid (mem_of_lookup_randomIdToMessageId hlookup)
  · cases hlookup

/-! ### No message is missed -/

/-- A message that is not sent from here and that no update of the log deletes. -/
def Stays (log : List (PtsUpdate Body)) (own : Set ℤ) (mid : ℤ) : Prop :=
  mid ∉ own ∧ ∀ update ∈ log, mid ∉ update.change.deleted

/-- The messages that the log adds up to a number are there. -/
def Reached (log : List (PtsUpdate Body)) (own : Set ℤ) (messages : Dictionary ℤ Body) (pts : ℤ) :
    Prop :=
  ∀ update ∈ upTo log pts, ∀ message, update.change = newMessage message →
    Stays log own message.mid → (messages.lookup message.mid).isSome

/-- The log tells of the messages that are there. -/
def Told (log : List (PtsUpdate Body)) (messages : Dictionary ℤ Body) : Prop :=
  ∀ mid body, messages.lookup mid = some body →
    ∃ message, Tells log message ∧ message.mid = mid ∧ message.body = body

/-- A channel that has all messages up to the number that it stores. -/
structure Complete (log : List (PtsUpdate Body)) (own : Set ℤ) (store : ChannelStore Body) :
    Prop where
  aligned : Aligned log store.pts
  reached : Reached log own store.messages store.pts
  told : Told log store.messages

/-- What holds in every run: the messages are also there up to every number that a batch or a poll
has been begun with. -/
structure InRun (log : List (PtsUpdate Body)) (own : Set ℤ) (s : ManagedChannelState Body) :
    Prop where
  complete : Complete log own s.store
  applying : ∀ batch ∈ s.applying, HonestBatch log own batch.updates ∧ Aligned log batch.pts ∧
    Reached log own s.store.messages batch.pts
  polling : ∀ pts, s.polling = some pts → Reached log own s.store.messages pts

/-- Nothing that stays is lost. -/
def Keeps (log : List (PtsUpdate Body)) (own : Set ℤ) (messages later : Dictionary ℤ Body) :
    Prop :=
  ∀ mid, Stays log own mid → (messages.lookup mid).isSome → (later.lookup mid).isSome

section Complete

variable {messages later : Dictionary ℤ Body} {pts next : ℤ} {store : ChannelStore Body}
  {s : ManagedChannelState Body}

theorem Reached.keeps (h : Reached log own messages pts) (hkeeps : Keeps log own messages later) :
    Reached log own later pts :=
  fun update hupdate message hchange hstays =>
    hkeeps message.mid hstays (h update hupdate message hchange hstays)

/-- The numbers of a log begin behind one. -/
theorem one_le_of_aligned (hlog : IsLog peerId log) (h : Aligned log pts) : 1 ≤ pts := by
  rcases h with rfl | ⟨update, hmem, rfl⟩
  · exact le_rfl
  · exact (hlog.one_lt hmem).le

/-- An answer stores the number that it comes to. -/
theorem pts_writeDifference (hlog : IsLog peerId log) (haligned : Aligned log next)
    (store : ChannelStore Body)
    (newMessages : List (ChannelMessage Body)) (otherUpdates : List (ChannelUpdate Body)) :
    (store.writeDifference peerId next newMessages otherUpdates).pts = next := by
  have hpos := one_le_of_aligned hlog haligned
  exact if_pos (by omega)

/-- A stretch of the log is added to what is there. -/
theorem Reached.extend (h : Reached log own messages pts) (hkeeps : Keeps log own messages later)
    (hadds : ∀ update ∈ between log pts next, ∀ message, update.change = newMessage message →
      Stays log own message.mid → (later.lookup message.mid).isSome) :
    Reached log own later next := by
  intro update hupdate message hchange hstays
  obtain ⟨hmem, hle⟩ := mem_upTo.mp hupdate
  rcases le_or_gt update.pts pts with hbefore | hbehind
  · exact h.keeps hkeeps update (mem_upTo.mpr ⟨hmem, hbefore⟩) message hchange hstays
  · exact hadds update (mem_between.mpr ⟨hmem, hbehind, hle⟩) message hchange hstays

/-- **Something is written**: nothing is lost by it. -/
theorem InRun.write (h : InRun log own s) (hcomplete : Complete log own store)
    (hkeeps : Keeps log own s.store.messages store.messages) :
    InRun log own { s with store := store } := by
  refine ⟨hcomplete, fun batch hbatch => ?_, fun pts hpts => (h.polling pts hpts).keeps hkeeps⟩
  obtain ⟨hhonest, haligned, hreached⟩ := h.applying batch hbatch
  exact ⟨hhonest, haligned, hreached.keeps hkeeps⟩

/-- A poll asks from the stored number on. -/
theorem InRun.pollOnce (hlog : IsLog peerId log) (h : InRun log own s) :
    InRun log own s.pollOnce := by
  refine { h with polling := ?_ }
  rintro pts ⟨⟩
  rw [max_eq_left (one_le_of_aligned hlog h.complete.aligned)]
  exact h.complete.reached

theorem InRun.poll (hlog : IsLog peerId log) (h : InRun log own s) : InRun log own s.poll := by
  rw [ManagedChannelState.poll]
  split
  · exact { h with }
  · exact h.pollOnce hlog

theorem InRun.pollCompleted (hlog : IsLog peerId log) (h : InRun log own s) :
    InRun log own s.pollCompleted := by
  rw [ManagedChannelState.pollCompleted]
  split
  · exact { h with polling := by rintro pts ⟨⟩ }
  · have hnext : InRun log own { s with waitingPolls := s.waitingPolls - 1 } := { h with }
    exact hnext.pollOnce hlog

/-- **A batch is written** to what has become of the channel. -/
theorem InRun.applyUpdates (hlog : IsLog peerId log) (hsort : Sorts sort) (h : InRun log own s)
    {batch : ApplyingUpdates Body} (hhonest : HonestBatch log own batch.updates)
    (haligned : Aligned log batch.pts) (hreached : Reached log own s.store.messages batch.pts)
    (executing : List ℤ) : InRun log own (s.applyUpdates peerId sort batch executing) := by
  have hcollected := collected_collectUpdates hlog hsort hhonest.logged batch.pts executing
  rw [ManagedChannelState.applyUpdates]
  generalize collectUpdates sort batch.pts batch.updates executing = c at hcollected ⊢
  have hskip : ∀ mid, Stays log own mid → mid ∉ skipMessageIds executing batch.updates :=
    fun mid hstays hmem => hstays.1 (hhonest.mem_own hmem)
  have hkeeps : Keeps log own s.store.messages
      (s.store.writeUpdates peerId batch.pts c).messages := fun mid hstays hthere =>
    hcollected.isSome_writeUpdates hlog (hskip mid hstays) hstays.2 (.inl hthere)
  have hadded : Reached log own (s.store.writeUpdates peerId batch.pts c).messages
      c.updatedPts := by
    refine hreached.extend hkeeps fun update hupdate message hchange hstays => ?_
    exact hcollected.isSome_writeUpdates hlog (hskip message.mid hstays) hstays.2
      (.inr ⟨update, hupdate, message, hchange, rfl⟩)
  have htold : Told log (s.store.writeUpdates peerId batch.pts c).messages := by
    intro mid body hwritten
    rcases hcollected.lookup_writeUpdates_eq_some hlog hwritten with hbefore | htold
    · exact h.complete.told mid body hbefore
    · exact htold
  have hend : Aligned log c.updatedPts := hcollected.aligned hhonest.logged haligned
  have hcomplete : Complete log own (s.store.writeUpdates peerId batch.pts c) := by
    by_cases heq : c.updatedPts = batch.pts
    · have hpts : (s.store.writeUpdates peerId batch.pts c).pts = s.store.pts := by
        rw [ChannelStore.writeUpdates, if_neg (not_not.mpr heq)]
        rfl
      refine ⟨?_, ?_, htold⟩
      · rw [hpts]
        exact h.complete.aligned
      · rw [hpts]
        exact h.complete.reached.keeps hkeeps
    · have hpts : (s.store.writeUpdates peerId batch.pts c).pts = c.updatedPts := by
        have hpos := one_le_of_aligned hlog hend
        rw [ChannelStore.writeUpdates, if_pos heq]
        exact if_pos (by omega)
      refine ⟨?_, ?_, htold⟩
      · rw [hpts]
        exact hend
      · rw [hpts]
        exact hadded
  have hwritten := h.write hcomplete hkeeps
  split
  · exact hwritten.poll hlog
  · exact hwritten

/-- **An answer is written** to what has become of the channel. -/
theorem InRun.difference (hlog : IsLog peerId log) (h : InRun log own s)
    {result : ChannelDifference Body} (hpolling : s.polling = some pts)
    (hhonest : Honest log own s (.difference result)) :
    InRun log own (s.difference peerId result) := by
  cases result with
  | empty => exact h.pollCompleted hlog
  | channelDifference next timeout newMessages otherUpdates =>
      have hanswers : Answers log pts next newMessages otherUpdates := hhonest pts hpolling
      have hkeeps : Keeps log own s.store.messages
          (s.store.writeDifference peerId next newMessages otherUpdates).messages :=
        fun mid hstays hthere => hanswers.isSome_writeDifference hlog hstays.2 (.inl hthere)
      have hpts : (s.store.writeDifference peerId next newMessages otherUpdates).pts = next :=
        pts_writeDifference hlog hanswers.aligned _ newMessages otherUpdates
      have hcomplete : Complete log own
          (s.store.writeDifference peerId next newMessages otherUpdates) := by
        refine ⟨?_, ?_, fun mid body hwritten => ?_⟩
        · rw [hpts]
          exact hanswers.aligned
        · rw [hpts]
          refine (h.polling pts hpolling).extend hkeeps fun update hupdate message hchange hstays =>
            ?_
          exact hanswers.isSome_writeDifference hlog hstays.2
            (.inr ⟨update, hupdate, message, hchange, rfl⟩)
        · rcases hanswers.lookup_writeDifference_eq_some hlog hwritten with hbefore | htold
          · exact h.complete.told mid body hbefore
          · exact htold
      have hwritten := h.write hcomplete hkeeps
      rw [ManagedChannelState.difference]
      split
      · exact hwritten.pollOnce hlog
      · exact hwritten.pollCompleted hlog

/-- One event of an honest server. -/
theorem InRun.step (hlog : IsLog peerId log) (hsort : Sorts sort) (h : InRun log own s)
    {event : ChannelEvent Body} (hhonest : Honest log own s event) :
    InRun log own (s.step peerId sort event) := by
  cases event with
  | addUpdates updates =>
      refine { h with applying := fun batch hbatch => ?_ }
      rcases List.mem_append.mp hbatch with hbefore | hnew
      · exact h.applying batch hbefore
      · rw [List.mem_singleton.mp hnew]
        exact ⟨⟨hhonest.1, hhonest.2⟩, h.complete.aligned, h.complete.reached⟩
  | applied place executing =>
      rw [ManagedChannelState.step]
      split
      · exact h
      · next batch hbatch =>
        obtain ⟨hhonestBatch, haligned, hreached⟩ :=
          h.applying batch (List.mem_of_getElem? hbatch)
        have hrest : InRun log own { s with applying := s.applying.eraseIdx place } :=
          { h with
            applying := fun other hother => h.applying other (List.mem_of_mem_eraseIdx hother) }
        exact hrest.applyUpdates hlog hsort hhonestBatch haligned hreached executing
  | poll => exact h.poll hlog
  | difference result =>
      rw [ManagedChannelState.step]
      split
      · exact h
      · next pts hpolling => exact h.difference hlog hpolling hhonest

/-- **No message is missed, and none is made up**: whatever the order in which batches and answers
are written, a channel has the messages that the log adds up to the number that it stores, unless
they are sent from here or deleted at some time. -/
theorem channel_complete (hlog : IsLog peerId log) (hsort : Sorts sort)
    (hstore : Complete log own store) {events : List (ChannelEvent Body)}
    (hevents : Machine.AllSteps (ManagedChannelState.step peerId sort) (Honest log own)
      (.start store) events) :
    Complete log own (Machine.run (ManagedChannelState.step peerId sort) (.start store)
      events).store := by
  have hstart : InRun log own (ManagedChannelState.start store) :=
    ⟨hstore, fun batch hbatch => absurd hbatch List.not_mem_nil, by rintro pts ⟨⟩⟩
  exact (Machine.always_of_allSteps (fun _ _ h hhonest => h.step hlog hsort hhonest) hstart
    hevents).last.complete

/-- The second message comes alone, and the difference brings both. -/
def gapClosed : List (ChannelEvent ℕ) :=
  [.addUpdates secondOnly, .applied 0 [],
    .difference (.channelDifference 3 (some 30) [⟨-5, 1, 10⟩, ⟨-5, 2, 20⟩] [])]

/-- A channel without messages. -/
def noMessages : ChannelStore ℕ :=
  ⟨1, ∅⟩

theorem answers_twoMessages :
    Answers twoMessages 1 3 [⟨-5, 1, 10⟩, ⟨-5, 2, 20⟩] [] where
  le := by decide
  aligned := .inr ⟨_, List.mem_cons_of_mem _ List.mem_cons_self, rfl⟩
  told := by
    rintro message (hmem | hmem)
    · rcases List.mem_cons.mp hmem with heq | hmem
      · exact ⟨_, List.mem_cons_self, .inl heq.symm⟩
      · exact ⟨_, List.mem_cons_of_mem _ List.mem_cons_self,
          .inl (List.mem_singleton.mp hmem).symm⟩
    · rcases List.mem_cons.mp hmem with heq | hmem
      · cases heq
      · cases List.mem_singleton.mp hmem
  deleted := fun mid hmem => absurd hmem List.not_mem_nil
  new := by decide
  notNew := fun update hmem => absurd hmem List.not_mem_nil
  settled := by
    refine List.pairwise_pair.mpr fun mid habout hother => ?_
    exact absurd ((habout : (1 : ℤ) = mid).trans (hother : (2 : ℤ) = mid).symm) (by decide)
  content := fun mid => rfl

/-- The run of an honest server. -/
theorem honest_gapClosed :
    Machine.AllSteps (ManagedChannelState.step (-5) sortByPts) (Honest twoMessages ∅)
      (.start noMessages) gapClosed := by
  refine ⟨⟨by decide, ?_⟩, trivial, ?_, trivial⟩
  · intro randomId nId hmem
    cases List.mem_singleton.mp hmem
  · intro pts hpolling
    obtain rfl : 1 = pts := Option.some.inj hpolling
    exact answers_twoMessages

/-- Both messages are there when the gap is closed. -/
theorem channel_complete_gapClosed :
    Complete twoMessages ∅ (Machine.run (ManagedChannelState.step (-5) sortByPts)
      (.start noMessages) gapClosed).store := by
  refine channel_complete isLog_twoMessages sorts_sortByPts ⟨.inl rfl, ?_, ?_⟩ honest_gapClosed
  · intro update hupdate
    exact absurd hupdate List.not_mem_nil
  · intro mid body hlookup
    cases hlookup

end Complete

/-! ### The channel is what the log makes -/

/-- A channel that is what the log makes up to the number that it stores, but for the messages that
are sent from here. -/
structure Exact (log : List (PtsUpdate Body)) (own : Set ℤ) (store : ChannelStore Body) :
    Prop where
  aligned : Aligned log store.pts
  content : ∀ mid, mid ∉ own → store.messages.lookup mid = contentAt log store.pts mid

/-- Of the updates of a batch behind a number, one that adds a message is the only one about it. -/
def SettledBatch (pts : ℤ) (updates : List (PtsUpdate Body)) : Prop :=
  ∀ update ∈ updates, ∀ other ∈ updates, pts < update.pts → pts < other.pts → update ≠ other →
    ∀ mid, update.change.About mid → other.change.About mid →
      ∀ message, update.change ≠ newMessage message

/-- Nothing has been written since a batch or a poll was begun, and the batch is settled. -/
def OnTime (s : ManagedChannelState Body) : ChannelEvent Body → Prop
  | .applied place _ => ∀ batch, s.applying[place]? = some batch →
      batch.pts = s.store.pts ∧ SettledBatch batch.pts (ptsUpdates batch.updates)
  | .difference _ => ∀ pts, s.polling = some pts → pts = s.store.pts
  | _ => True

section Exact

variable {pts low high mid : ℤ} {store : ChannelStore Body} {s : ManagedChannelState Body}

/-- The content at a later number. -/
theorem contentAt_eq (hlog : IsLog peerId log) (hle : low ≤ high) (mid : ℤ) :
    contentAt log high mid =
      contentAfter ((between log low high).map PtsUpdate.change) mid (contentAt log low mid) := by
  rw [contentAt, hlog.upTo_append_between hle, List.map_append, contentAfter_append, contentAt]

/-- A stretch of the log that is from a settled batch is settled. -/
theorem SettledBatch.settled (hlog : IsLog peerId log) {updates : List (PtsUpdate Body)}
    (h : SettledBatch low updates) (hlisted : ∀ update ∈ between log low high, update ∈ updates) :
    Settled ((between log low high).map PtsUpdate.change) := by
  have hascending : (between log low high).Pairwise fun update later => update.pts < later.pts :=
    hlog.ascending.filter _
  refine List.pairwise_map.mpr (hascending.imp_of_mem ?_)
  intro update later hupdate hlater hlt mid habout hother
  have hne : update ≠ later := fun heq => absurd (heq ▸ hlt) (lt_irrefl _)
  have hlow := (mem_between.mp hupdate).2.1
  have hlowLater := (mem_between.mp hlater).2.1
  exact ⟨h update (hlisted update hupdate) later (hlisted later hlater) hlow hlowLater hne mid
      habout hother,
    h later (hlisted later hlater) update (hlisted update hupdate) hlowLater hlow hne.symm mid
      hother habout⟩

/-- A batch that is on time stores the number that it comes to. -/
theorem pts_writeUpdates (peerId : ℤ) (hlog : IsLog peerId log) (haligned : Aligned log store.pts)
    {skip : List ℤ} {updates : List (PtsUpdate Body)} {c : CollectedUpdates Body}
    (hcollected : Collected log skip store.pts updates c)
    (hupdates : ∀ update ∈ updates, update ∈ log) :
    (store.writeUpdates peerId store.pts c).pts = c.updatedPts := by
  rw [ChannelStore.writeUpdates]
  split
  · have hpos := one_le_of_aligned hlog (hcollected.aligned hupdates haligned)
    exact if_pos (by omega)
  · next heq => exact (not_not.mp heq).symm

/-- **A batch that is on time** brings the channel to the number that it comes to. -/
theorem Exact.writeUpdates (hlog : IsLog peerId log) (h : Exact log own store)
    {skip : List ℤ} {updates : List (PtsUpdate Body)} {c : CollectedUpdates Body}
    (hcollected : Collected log skip store.pts updates c)
    (hupdates : ∀ update ∈ updates, update ∈ log) (hskip : ∀ mid ∈ skip, mid ∈ own)
    (hsettled : SettledBatch store.pts updates) :
    Exact log own (store.writeUpdates peerId store.pts c) := by
  have hpts : (store.writeUpdates peerId store.pts c).pts = c.updatedPts :=
    pts_writeUpdates peerId hlog h.aligned hcollected hupdates
  constructor
  · rw [hpts]
    exact hcollected.aligned hupdates h.aligned
  intro mid hmid
  rw [hpts, contentAt_eq hlog hcollected.le, ← h.content mid hmid]
  refine hcollected.lookup_writeUpdates hlog (hsettled.settled hlog hcollected.listed)
    (fun hmem => hmid (hskip mid hmem)) ?_
  rintro message hmem rfl
  obtain ⟨update, hupdate, hchange⟩ := List.mem_map.mp (mem_addedIn.mp hmem)
  obtain ⟨hlogged, hlt, -⟩ := mem_between.mp hupdate
  rw [h.content _ hmid]
  exact hlog.contentAt_eq_none hlogged hchange hlt

/-- **An answer that is on time** brings the channel to the number that it comes to. -/
theorem Exact.writeDifference (hlog : IsLog peerId log) (h : Exact log own store) {next : ℤ}
    {newMessages : List (ChannelMessage Body)} {otherUpdates : List (ChannelUpdate Body)}
    (hanswers : Answers log store.pts next newMessages otherUpdates) :
    Exact log own (store.writeDifference peerId next newMessages otherUpdates) := by
  have hpts : (store.writeDifference peerId next newMessages otherUpdates).pts = next :=
    pts_writeDifference hlog hanswers.aligned _ newMessages otherUpdates
  constructor
  · rw [hpts]
    exact hanswers.aligned
  · intro mid hmid
    rw [hpts]
    exact hanswers.lookup_writeDifference hlog (h.content mid hmid)

/-- What holds in every run that is on time. -/
structure InStep (log : List (PtsUpdate Body)) (own : Set ℤ) (s : ManagedChannelState Body) :
    Prop where
  stored : Exact log own s.store
  applying : ∀ batch ∈ s.applying, HonestBatch log own batch.updates

/-- Polls change nothing that is stored. -/
theorem InStep.poll (h : InStep log own s) : InStep log own s.poll := by
  rw [ManagedChannelState.poll]
  split
  · exact { h with }
  · exact { h with }

theorem InStep.pollCompleted (h : InStep log own s) : InStep log own s.pollCompleted := by
  rw [ManagedChannelState.pollCompleted]
  split
  · exact { h with }
  · exact { h with }

/-- One event of an honest server that is on time. -/
theorem InStep.step (hlog : IsLog peerId log) (hsort : Sorts sort) (h : InStep log own s)
    {event : ChannelEvent Body} (hhonest : Honest log own s event) (honTime : OnTime s event) :
    InStep log own (s.step peerId sort event) := by
  cases event with
  | addUpdates updates =>
      refine { h with applying := fun batch hbatch => ?_ }
      rcases List.mem_append.mp hbatch with hbefore | hnew
      · exact h.applying batch hbefore
      · rw [List.mem_singleton.mp hnew]
        exact ⟨hhonest.1, hhonest.2⟩
  | applied place executing =>
      rw [ManagedChannelState.step]
      split
      · exact h
      · next batch hbatch =>
        have hhonestBatch := h.applying batch (List.mem_of_getElem? hbatch)
        obtain ⟨hpts, hsettled⟩ := honTime batch hbatch
        have hcollected := collected_collectUpdates hlog hsort hhonestBatch.logged batch.pts
          executing
        rw [ManagedChannelState.applyUpdates]
        rw [hpts] at hcollected hsettled ⊢
        have hwritten := h.stored.writeUpdates hlog hcollected hhonestBatch.logged
          (fun mid hmem => hhonestBatch.mem_own hmem) hsettled
        have hrest : InStep log own
            { s with
              applying := s.applying.eraseIdx place
              store := s.store.writeUpdates peerId s.store.pts
                (collectUpdates sort s.store.pts batch.updates executing) } :=
          ⟨hwritten, fun other hother => h.applying other (List.mem_of_mem_eraseIdx hother)⟩
        split
        · exact hrest.poll
        · exact hrest
  | poll => exact h.poll
  | difference result =>
      rw [ManagedChannelState.step]
      split
      · exact h
      · next pts hpolling =>
        cases result with
        | empty => exact h.pollCompleted
        | channelDifference next timeout newMessages otherUpdates =>
            obtain rfl : pts = s.store.pts := honTime pts hpolling
            have hwritten := h.stored.writeDifference hlog (hhonest s.store.pts hpolling)
            have hrest : InStep log own
                { s with
                  store := s.store.writeDifference peerId next newMessages otherUpdates } :=
              ⟨hwritten, h.applying⟩
            rw [ManagedChannelState.difference]
            split
            · exact { hrest with }
            · exact hrest.pollCompleted

/-- **The channel is what the log makes** up to the number that it stores, in every run in which
nothing is written between the beginning of a batch or a poll and its end. -/
theorem channel_exact (hlog : IsLog peerId log) (hsort : Sorts sort)
    (hstore : Exact log own store) {events : List (ChannelEvent Body)}
    (hevents : Machine.AllSteps (ManagedChannelState.step peerId sort)
      (fun s event => Honest log own s event ∧ OnTime s event) (.start store) events) :
    Exact log own (Machine.run (ManagedChannelState.step peerId sort) (.start store)
      events).store := by
  have hstart : InStep log own (ManagedChannelState.start store) :=
    ⟨hstore, fun batch hbatch => absurd hbatch List.not_mem_nil⟩
  exact (Machine.always_of_allSteps
    (fun _ _ h hevent => h.step hlog hsort hevent.1 hevent.2) hstart hevents).last.stored

/-- Nothing is written in between. -/
theorem onTime_gapClosed :
    Machine.AllSteps (ManagedChannelState.step (-5) sortByPts)
      (fun s event => Honest twoMessages ∅ s event ∧ OnTime s event) (.start noMessages)
      gapClosed := by
  refine honest_gapClosed.and ⟨trivial, ?_, ?_, trivial⟩
  · intro batch hbatch
    obtain rfl : ⟨1, secondOnly⟩ = batch := Option.some.inj hbatch
    refine ⟨rfl, fun update hmem other hother _ _ hne => absurd ?_ hne⟩
    rw [List.mem_singleton.mp hmem, List.mem_singleton.mp hother]
  · intro pts hpolling
    exact (Option.some.inj hpolling).symm

/-- Both messages are as the log has them. -/
theorem channel_exact_gapClosed :
    Exact twoMessages ∅ (Machine.run (ManagedChannelState.step (-5) sortByPts)
      (.start noMessages) gapClosed).store :=
  channel_exact isLog_twoMessages sorts_sortByPts ⟨.inl rfl, fun _ _ => rfl⟩ onTime_gapClosed

/-- A message that is added and deleted in one batch is there afterwards. -/
example :
    ((Machine.run (ManagedChannelState.step (-5) sortByPts) (.start noMessages)
      [.addUpdates [.pts ⟨2, 1, .newMessage ⟨-5, 1, 10⟩⟩, .pts ⟨3, 1, .deleteMessages [1]⟩],
        .applied 0 []]).store.messages.lookup 1) = some 10 := by
  decide

end Exact

end Telegraph.Channels
