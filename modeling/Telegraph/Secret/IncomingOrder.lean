import Telegraph.Secret.Client

/-!
# Secret Messages in Order

The number expected next is read by a dequeue on the database thread, used by its block on the
stage queue, and written back by a job of the database thread. Between the dequeue and the
block nothing keeps the number: the block of another poll may have moved it. This module shows
that this is all that can go wrong. The invariant follows the numbers from the stored one
through the pending writes, and the rows from the dequeues through the pending deletes.

## Main results

* `frame_step`: what the events other than a block of the incoming queue leave alone.
* `seqInv_runIncoming`: **a block with an up to date number keeps the order**.
* `handed_in_order`: **messages are handed over in order and once**, the stored number follows,
  and only rows are deleted that were handed over or lie below it, in every run whose blocks
  have up to date numbers.
-/

open Machine

namespace Telegraph.Secret

namespace SecretClient

/-! ### The property -/

/-- The number a job of the database thread stores. -/
def storedNumber : DatabaseJob → Option ℤ
  | .applyPeerSeqIn seqIn => some seqIn
  | _ => none

/-- The stored `seq_in` and those that pending writes will store. -/
def numbers (s : SecretClient) : List ℤ :=
  s.database.nextExpectedSeqOut :: s.jobs.filterMap storedNumber

/-- The `seq_in` that is stored after all pending writes. -/
def seqInAfterWrites (s : SecretClient) : ℤ :=
  s.numbers.getLast (List.cons_ne_nil _ _)

section Property

variable {κ : Type*} (chat : SecretChat κ)

/-- The messages that are no resend requests have been handed over in the order of the numbers
`0, 1, 2, …`, each once, and the stored number will be that of the messages handed over in
sequence. -/
def InOrder (s : SecretClient) : Prop :=
  ∃ sequenced : List SecretActionWithSeq, sequenced.Sublist s.handed ∧
    (s.handed.filter fun action => !chat.isResendAction action.action).Sublist sequenced ∧
    sequenced.map SecretActionWithSeq.seqOut = (List.range sequenced.length).map Int.ofNat ∧
    s.seqInAfterWrites = sequenced.length

/-- A message with this number was handed over, or the stored number has passed it. -/
def Passed (s : SecretClient) (seqOut : ℤ) : Prop :=
  (∃ action ∈ s.handed, action.seqOut = seqOut) ∨ seqOut < s.database.nextExpectedSeqOut

/-- The number a message has that is still encrypted: what some keys decrypt it to. -/
def HasSeqOut (action : EncryptedAction) (seqOut : ℤ) : Prop :=
  ∃ keys message, chat.decrypt keys action = some message ∧ message.seqOut = seqOut

/-- An event does not lower the stored number, and deletes only rows whose number was handed
over or is below the stored one. -/
structure KeepsRows (s : SecretClient) (e : SecretEvent κ) : Prop where
  seqIn_le : s.database.nextExpectedSeqOut ≤ (step chat s e).database.nextExpectedSeqOut
  incoming : ∀ row ∈ s.database.incoming.rows,
    row ∉ (step chat s e).database.incoming.rows → s.Passed row.value.seqOut
  encrypted : ∀ row ∈ s.database.incomingEncrypted.rows,
    row ∉ (step chat s e).database.incomingEncrypted.rows →
      ∃ seqOut, HasSeqOut chat row.value seqOut ∧ s.Passed seqOut

end Property

/-! ### The conditions -/

variable {κ : Type*} {chat : SecretChat κ}

/-- The peer is at layer 17 or above when a block runs. -/
def PeerLayer17 (_ : SecretClient) : SecretEvent κ → Prop
  | .runBlock _ peerLayer => peerLayer ≥ 17
  | _ => True

/-- The number that the dequeue of a block has read is still the one that all pending writes
lead to when the block runs. -/
def UpToDate (s : SecretClient) : SecretEvent κ → Prop
  | .runBlock _ _ =>
      match s.blocks with
      | .incoming poll :: _ => poll.nextExpectedSeqOut = s.seqInAfterWrites
      | _ => True
  | _ => True

/-! ### The invariant -/

/-- A message with this number was handed over, or none ever will be. -/
def Done (s : SecretClient) (seqOut : ℤ) : Prop :=
  (∃ action ∈ s.handed, action.seqOut = seqOut) ∨ seqOut < 0

/-- A poll holds rows of the tables. -/
structure PollRows (database : SecretDatabase) (poll : IncomingPoll) : Prop where
  incoming : ∀ action ∈ poll.actions, ∃ row, .ofRow row = action ∧
    database.incoming.Names row.id row.value
  encrypted : ∀ row ∈ poll.encryptedActions, database.incomingEncrypted.Names row.id row.value

/-- **The invariant**: messages were handed over in order up to the number that pending writes
lead to, the numbers stored on the way grow, and what waits in polls and deletes are rows of
the tables, those of the deletes done. -/
structure SeqInv (chat : SecretChat κ) (s : SecretClient) : Prop where
  order : HandedInOrder chat.isResendAction s.handed s.seqInAfterWrites
  grows : s.numbers.Pairwise (· ≤ ·)
  nonneg : ∀ n ∈ s.numbers, 0 ≤ n
  polls : ∀ poll, .incoming poll ∈ s.blocks → PollRows s.database poll
  deletes : ∀ ids, .deletePeerIncomingActions ids ∈ s.jobs → ∀ id ∈ ids,
    ∃ value, s.database.incoming.Names id value ∧ s.Done value.seqOut
  deletesEncrypted : ∀ ids, .deletePeerIncomingEncryptedActions ids ∈ s.jobs → ∀ id ∈ ids,
    ∃ value, s.database.incomingEncrypted.Names id value ∧
      ∃ seqOut, HasSeqOut chat value seqOut ∧ s.Done seqOut

theorem seqInv_fresh : SeqInv chat freshClient where
  order := .nil
  grows := List.pairwise_singleton _ _
  nonneg := by
    intro n hn
    rw [List.mem_singleton.mp hn]
    exact Int.le_refl 0
  polls := fun _ h => (List.not_mem_nil h).elim
  deletes := fun _ h => (List.not_mem_nil h).elim
  deletesEncrypted := fun _ h => (List.not_mem_nil h).elim

/-! ### Frames -/

/-- What an event other than a block of the incoming queue leaves alone. -/
structure Frame (s s' : SecretClient) : Prop where
  handed : s'.handed = s.handed
  incoming : s.database.incoming.Evolves s'.database.incoming
  encrypted : s.database.incomingEncrypted.Evolves s'.database.incomingEncrypted
  numbers : s'.numbers <:+ s.numbers
  polls : ∀ poll, .incoming poll ∈ s'.blocks →
    .incoming poll ∈ s.blocks ∨ poll = s.database.dequeuePeerIncomingActions
  deletes : ∀ ids, .deletePeerIncomingActions ids ∈ s'.jobs →
    .deletePeerIncomingActions ids ∈ s.jobs
  deletesEncrypted : ∀ ids, .deletePeerIncomingEncryptedActions ids ∈ s'.jobs →
    .deletePeerIncomingEncryptedActions ids ∈ s.jobs

theorem PollRows.evolves {database later : SecretDatabase} {poll : IncomingPoll}
    (h : PollRows database poll) (hincoming : database.incoming.Evolves later.incoming)
    (hencrypted : database.incomingEncrypted.Evolves later.incomingEncrypted) :
    PollRows later poll := by
  refine ⟨fun action haction => ?_, fun row hrow => (h.encrypted row hrow).evolves hencrypted⟩
  obtain ⟨row, heq, hnames⟩ := h.incoming action haction
  exact ⟨row, heq, hnames.evolves hincoming⟩

/-- A dequeue takes rows of the tables. -/
theorem pollRows_dequeue (database : SecretDatabase) :
    PollRows database database.dequeuePeerIncomingActions := by
  constructor
  · intro action haction
    obtain ⟨row, hrow, heq⟩ := List.mem_map.mp (List.mem_mergeSort.mp haction)
    exact ⟨row, heq, Table.names_of_mem hrow⟩
  · exact fun row hrow => Table.names_of_mem hrow

theorem le_seqInAfterWrites {s : SecretClient} (hgrows : s.numbers.Pairwise (· ≤ ·)) {n : ℤ}
    (hn : n ∈ s.numbers) : n ≤ s.seqInAfterWrites :=
  hgrows.rel_getLast hn

theorem seqInAfterWrites_frame {s s' : SecretClient} (hframe : Frame s s') :
    s'.seqInAfterWrites = s.seqInAfterWrites :=
  hframe.numbers.getLast (List.cons_ne_nil _ _)

theorem SeqInv.frame {s s' : SecretClient} (h : SeqInv chat s) (hframe : Frame s s') :
    SeqInv chat s' where
  order := by
    rw [seqInAfterWrites_frame hframe, hframe.handed]
    exact h.order
  grows := h.grows.sublist hframe.numbers.sublist
  nonneg := fun n hn => h.nonneg n (hframe.numbers.subset hn)
  polls := by
    intro poll hpoll
    rcases hframe.polls poll hpoll with hold | rfl
    · exact (h.polls poll hold).evolves hframe.incoming hframe.encrypted
    · exact (pollRows_dequeue _).evolves hframe.incoming hframe.encrypted
  deletes := by
    intro ids hids id hid
    obtain ⟨value, hnames, hdone⟩ := h.deletes ids (hframe.deletes ids hids) id hid
    exact ⟨value, hnames.evolves hframe.incoming, by rwa [Done, hframe.handed]⟩
  deletesEncrypted := by
    intro ids hids id hid
    obtain ⟨value, hnames, seqOut, hhas, hdone⟩ :=
      h.deletesEncrypted ids (hframe.deletesEncrypted ids hids) id hid
    exact ⟨value, hnames.evolves hframe.encrypted, seqOut, hhas, by rwa [Done, hframe.handed]⟩

/-- The jobs that neither store the number nor delete incoming messages. -/
def Harmless : DatabaseJob → Prop
  | .applyPeerSeqIn _ => False
  | .deletePeerIncomingActions _ => False
  | .deletePeerIncomingEncryptedActions _ => False
  | _ => True

theorem Harmless.storedNumber {job : DatabaseJob} (h : Harmless job) :
    storedNumber job = none := by
  cases job with
  | applyPeerSeqIn => exact h.elim
  | _ => rfl

/-- A frame in which only a client without part in the incoming queue has changed. -/
theorem frame_of_same {s s' : SecretClient} (hdatabase : s'.database = s.database)
    (hjobs : s'.jobs = s.jobs) (hhanded : s'.handed = s.handed)
    (hblocks : ∀ poll, .incoming poll ∈ s'.blocks → .incoming poll ∈ s.blocks) :
    Frame s s' where
  handed := hhanded
  incoming := hdatabase ▸ .refl _
  encrypted := hdatabase ▸ .refl _
  numbers := by
    rw [numbers, numbers, hdatabase, hjobs]
  polls := fun poll hpoll => .inl (hblocks poll hpoll)
  deletes := fun ids hids => hjobs ▸ hids
  deletesEncrypted := fun ids hids => hjobs ▸ hids

theorem Frame.trans {s s' s'' : SecretClient} (h : Frame s s') (h' : Frame s' s'')
    (hdatabase : s'.database = s.database) : Frame s s'' where
  handed := h'.handed.trans h.handed
  incoming := h.incoming.trans h'.incoming
  encrypted := h.encrypted.trans h'.encrypted
  numbers := h'.numbers.trans h.numbers
  polls := by
    intro poll hpoll
    rcases h'.polls poll hpoll with hold | hnew
    · exact h.polls poll hold
    · exact .inr (hdatabase ▸ hnew)
  deletes := fun ids hids => h.deletes ids (h'.deletes ids hids)
  deletesEncrypted := fun ids hids => h.deletesEncrypted ids (h'.deletesEncrypted ids hids)

theorem frame_call {s : SecretClient} {job : DatabaseJob} (h : Harmless job) :
    Frame s (s.call [job]) where
  handed := rfl
  incoming := .refl _
  encrypted := .refl _
  numbers := by
    show _ :: (s.jobs ++ [job]).filterMap storedNumber <:+ _
    rw [List.filterMap_append, List.filterMap_cons_none h.storedNumber, List.filterMap_nil,
      List.append_nil]
    exact List.suffix_refl _
  polls := fun _ hpoll => .inl hpoll
  deletes := by
    intro ids hids
    rcases List.mem_append.mp hids with hold | hnew
    · exact hold
    · rw [← List.mem_singleton.mp hnew] at h
      exact h.elim
  deletesEncrypted := by
    intro ids hids
    rcases List.mem_append.mp hids with hold | hnew
    · exact hold
    · rw [← List.mem_singleton.mp hnew] at h
      exact h.elim

/-- The database thread runs a job. -/
theorem frame_runJob {s : SecretClient} {job : DatabaseJob} {jobs : List DatabaseJob}
    {peerLayer : ℕ} (hjobs : s.jobs = job :: jobs) :
    Frame s ({ s with jobs }.runJob peerLayer job) := by
  have hnumbers : storedNumber job = none →
      s.database.nextExpectedSeqOut :: jobs.filterMap storedNumber = s.numbers := by
    intro hnone
    rw [numbers, hjobs, List.filterMap_cons_none hnone]
  have hsub : ∀ other ∈ jobs, other ∈ s.jobs := fun other h =>
    hjobs ▸ List.mem_cons_of_mem _ h
  have hkept : ∀ {s' : SecretClient}, s'.handed = s.handed →
      s.database.incoming.Evolves s'.database.incoming →
      s.database.incomingEncrypted.Evolves s'.database.incomingEncrypted →
      s'.jobs = jobs → s'.blocks = s.blocks → s'.database.seqIn = s.database.seqIn →
      storedNumber job = none → Frame s s' := by
    intro s' hhanded hincoming hencrypted hjobs' hblocks hseqIn hnone
    refine ⟨hhanded, hincoming, hencrypted, ?_, fun _ h => .inl (hblocks ▸ h),
      fun _ h => hsub _ (hjobs' ▸ h), fun _ h => hsub _ (hjobs' ▸ h)⟩
    rw [← hnumbers hnone, numbers, SecretDatabase.nextExpectedSeqOut, hseqIn, hjobs']
    exact List.suffix_refl _
  cases job with
  | applyPeerSeqIn seqIn =>
      refine ⟨rfl, .refl _, .refl _, ?_, fun _ h => .inl h, fun _ h => hsub _ h,
        fun _ h => hsub _ h⟩
      rw [numbers, numbers, hjobs]
      exact List.suffix_cons _ _
  | dequeuePeerIncomingActions =>
      refine ⟨rfl, .refl _, .refl _, ?_, ?_, fun _ h => hsub _ h, fun _ h => hsub _ h⟩
      · rw [← hnumbers rfl]
        exact List.suffix_refl _
      · intro poll hpoll
        rcases List.mem_append.mp hpoll with hold | hnew
        · exact .inl hold
        · exact .inr (StageBlock.incoming.inj (List.mem_singleton.mp hnew))
  | dequeuePeerOutgoingActions =>
      refine ⟨rfl, .refl _, .refl _, ?_, ?_, fun _ h => hsub _ h, fun _ h => hsub _ h⟩
      · rw [← hnumbers rfl]
        exact List.suffix_refl _
      · intro poll hpoll
        rcases List.mem_append.mp hpoll with hold | hnew
        · exact .inl hold
        · cases List.mem_singleton.mp hnew
  | enqueuePeerIncomingActions actions =>
      exact hkept rfl (.insertAll _ _) (.refl _) rfl rfl rfl rfl
  | enqueuePeerIncomingEncryptedActions actions =>
      exact hkept rfl (.refl _) (.insertAll _ _) rfl rfl rfl rfl
  | deletePeerIncomingActions ids => exact hkept rfl (.delete _ _) (.refl _) rfl rfl rfl rfl
  | deletePeerIncomingEncryptedActions ids =>
      exact hkept rfl (.refl _) (.delete _ _) rfl rfl rfl rfl
  | otherChats incoming encrypted outgoing resend =>
      exact hkept rfl (.skip _ _) (.skip _ _) rfl rfl rfl rfl
  | enqueuePeerOutgoingAction action =>
      simp only [runJob, SecretDatabase.enqueuePeerOutgoingAction]
      split
      · exact hkept rfl (.refl _) (.refl _) rfl rfl rfl rfl
      · exact hkept rfl (.refl _) (.refl _) rfl rfl rfl rfl
  | _ => exact hkept rfl (.refl _) (.refl _) rfl rfl rfl rfl

/-- **What the events other than a block of the incoming queue leave alone.** -/
theorem frame_step {s : SecretClient} {e : SecretEvent κ}
    (h : ∀ keys peerLayer poll blocks, e = .runBlock keys peerLayer →
      s.blocks ≠ .incoming poll :: blocks) : Frame s (step chat s e) := by
  cases e with
  | receive actions => exact frame_call trivial
  | receiveEncrypted actions => exact frame_call trivial
  | pollIncoming => exact frame_call trivial
  | send action => exact frame_call trivial
  | pollOutgoing => exact frame_call trivial
  | otherChats incoming encrypted outgoing resend => exact frame_call trivial
  | runJob peerLayer =>
      simp only [step]
      split
      next job jobs hjobs => exact frame_runJob hjobs
      next => exact frame_of_same rfl rfl rfl fun _ h => h
  | runBlock keys peerLayer =>
      simp only [step]
      split
      next poll blocks hblocks => exact absurd hblocks (h _ _ _ _ rfl)
      next poll blocks hblocks =>
        exact frame_of_same rfl rfl rfl fun _ h => hblocks ▸ List.mem_cons_of_mem _ h
      next => exact frame_of_same rfl rfl rfl fun _ h => h
  | requestSucceeded index =>
      simp only [step]
      split
      next request _ =>
        have hanswered : Frame s { s with
            requests := s.requests.eraseIdx index
            answered := s.answered ++ [request] } := frame_of_same rfl rfl rfl fun _ h => h
        refine hanswered.trans (frame_call ?_) rfl
        simp only [actionCompleted]
        split
        · trivial
        · split <;> trivial
      next => exact frame_of_same rfl rfl rfl fun _ h => h
  | requestFailed index =>
      simp only [step]
      split
      · exact frame_of_same rfl rfl rfl fun _ h => h
      · exact frame_of_same rfl rfl rfl fun _ h => h

/-! ### Blocks of the incoming queue -/

section Block

variable {s : SecretClient} {keys : κ} {peerLayer : ℕ} {poll : IncomingPoll}

theorem harmless_resendWrites {c : Classification} :
    ∀ job ∈ resendWrites chat keys poll c, Harmless job := by
  intro job hjob
  rcases mem_resendWrites hjob with ⟨_, rfl⟩ | ⟨_, _, rfl⟩
  · trivial
  · trivial

theorem harmless_otherWrites {c : Classification} :
    ∀ job ∈ confirmWrites c ++ peerResends chat c, Harmless job := by
  intro job hjob
  rcases List.mem_append.mp hjob with hconfirm | hresend
  · rw [mem_confirmWrites hconfirm]
    trivial
  · obtain ⟨_, _, _, _, _, rfl⟩ := mem_peerResends hresend
    trivial

theorem filterMap_harmless {jobs : List DatabaseJob} (h : ∀ job ∈ jobs, Harmless job) :
    jobs.filterMap storedNumber = [] :=
  List.filterMap_eq_nil_iff.mpr fun job hjob => (h job hjob).storedNumber

/-- The number stored by the writes of a block. -/
theorem filterMap_incomingWrites (c : Classification) :
    (incomingWrites chat keys poll c).filterMap storedNumber = [c.nextExpectedSeqOut] := by
  rw [incomingWrites, List.append_assoc, List.filterMap_append,
    filterMap_harmless harmless_otherWrites, List.filterMap_append,
    filterMap_harmless harmless_resendWrites]
  rfl

/-- The jobs among the writes of a block that are not harmless. -/
theorem mem_incomingWrites {c : Classification} {job : DatabaseJob}
    (h : job ∈ incomingWrites chat keys poll c) :
    Harmless job ∨ job = .deletePeerIncomingActions (idsOfType .generic c.removeIds) ∨
      job = .deletePeerIncomingEncryptedActions (idsOfType .encrypted c.removeIds) ∨
      job = .applyPeerSeqIn c.nextExpectedSeqOut := by
  rw [incomingWrites, List.append_assoc] at h
  rcases List.mem_append.mp h with hwrites | hother
  · rcases List.mem_append.mp hwrites with hresend | hown
    · exact .inl (harmless_resendWrites job hresend)
    · simpa using Or.inr (a := Harmless job) hown
  · exact .inl (harmless_otherWrites job hother)

theorem mem_idsOfType {type : ActionIdType} {ids : List ActionId} {id : ℕ} :
    id ∈ idsOfType type ids ↔ ⟨type, id⟩ ∈ ids := by
  simp only [idsOfType, List.mem_map, List.mem_filter, decide_eq_true_eq]
  constructor
  · rintro ⟨⟨_, _⟩, ⟨hmem, rfl⟩, rfl⟩
    exact hmem
  · exact fun hmem => ⟨_, ⟨hmem, rfl⟩, rfl⟩

/-- **A block with an up to date number keeps the order.** -/
theorem seqInv_runIncoming (h : SeqInv chat s) (hlayer : peerLayer ≥ 17)
    (hpoll : PollRows s.database poll) (hdate : poll.nextExpectedSeqOut = s.seqInAfterWrites) :
    SeqInv chat (s.runIncoming chat keys peerLayer poll) := by
  have hc : Classified chat s.handed (chat.mergedActions keys poll)
      (chat.classifyAll keys peerLayer poll) :=
    classified_classifyAll hlayer (hdate ▸ h.order)
  set c := chat.classifyAll keys peerLayer poll
  have hnumbers : (s.runIncoming chat keys peerLayer poll).numbers =
      s.numbers ++ [c.nextExpectedSeqOut] := by
    show _ :: (s.jobs ++ _).filterMap storedNumber = _
    rw [List.filterMap_append, filterMap_incomingWrites]
    rfl
  have hle : ∀ n ∈ s.numbers, n ≤ c.nextExpectedSeqOut := by
    intro n hn
    exact Int.le_trans (le_seqInAfterWrites h.grows hn)
      (hdate ▸ @nextExpectedSeqOut_le_foldl _ chat _ _)
  have hdone : ∀ seqOut, s.Done seqOut →
      (s.runIncoming chat keys peerLayer poll).Done seqOut := by
    rintro seqOut (⟨action, haction, heq⟩ | hneg)
    · exact .inl ⟨action, List.mem_append_left _ haction, heq⟩
    · exact .inr hneg
  refine ⟨?_, ?_, ?_, h.polls, ?_, ?_⟩
  · have hlast : (s.runIncoming chat keys peerLayer poll).seqInAfterWrites =
        c.nextExpectedSeqOut := by
      simp only [seqInAfterWrites, hnumbers, List.getLast_concat]
    rw [hlast]
    exact hc.order
  · rw [hnumbers]
    refine List.pairwise_append.mpr ⟨h.grows, List.pairwise_singleton _ _, ?_⟩
    intro n hn m hm
    rw [List.mem_singleton.mp hm]
    exact hle n hn
  · intro n hn
    rw [hnumbers] at hn
    rcases List.mem_append.mp hn with hold | hnew
    · exact h.nonneg n hold
    · rw [List.mem_singleton.mp hnew]
      exact hc.order.nonneg
  · intro ids hids id hid
    rcases List.mem_append.mp hids with hold | hnew
    · obtain ⟨value, hnames, hvalue⟩ := h.deletes ids hold id hid
      exact ⟨value, hnames, hdone _ hvalue⟩
    · rcases mem_incomingWrites hnew with hharm | heq | heq | heq
      · exact hharm.elim
      · rw [DatabaseJob.deletePeerIncomingActions.inj heq] at hid
        obtain ⟨action, hmem, haction, hvalue⟩ := hc.removeIds_done (mem_idsOfType.mp hid)
        rcases mem_mergedActions.mp hmem with hrow | ⟨row, _, message, _, rfl⟩
        · obtain ⟨row, rfl, hnames⟩ := hpoll.incoming action hrow
          obtain rfl : row.id = id := congrArg ActionId.value haction
          exact ⟨row.value, hnames, hvalue⟩
        · cases congrArg ActionId.type haction
      · cases heq
      · cases heq
  · intro ids hids id hid
    rcases List.mem_append.mp hids with hold | hnew
    · obtain ⟨value, hnames, seqOut, hhas, hvalue⟩ := h.deletesEncrypted ids hold id hid
      exact ⟨value, hnames, seqOut, hhas, hdone _ hvalue⟩
    · rcases mem_incomingWrites hnew with hharm | heq | heq | heq
      · exact hharm.elim
      · cases heq
      · rw [DatabaseJob.deletePeerIncomingEncryptedActions.inj heq] at hid
        obtain ⟨action, hmem, haction, hvalue⟩ := hc.removeIds_done (mem_idsOfType.mp hid)
        rcases mem_mergedActions.mp hmem with hrow | ⟨row, hrow, message, hdecrypt, rfl⟩
        · obtain ⟨row, rfl, -⟩ := hpoll.incoming action hrow
          cases congrArg ActionId.type haction
        · obtain rfl : row.id = id := congrArg ActionId.value haction
          exact ⟨row.value, hpoll.encrypted row hrow, message.seqOut,
            ⟨keys, message, hdecrypt, rfl⟩, hvalue⟩
      · cases heq

end Block

/-! ### Rows and their deletion -/

/-- The rows a job of the database thread deletes. -/
theorem kept_or_deleted {s : SecretClient} {peerLayer : ℕ} {job : DatabaseJob} :
    (∀ row ∈ s.database.incoming.rows,
      row ∈ (s.runJob peerLayer job).database.incoming.rows ∨
        ∃ ids, job = .deletePeerIncomingActions ids ∧ row.id ∈ ids) ∧
    (∀ row ∈ s.database.incomingEncrypted.rows,
      row ∈ (s.runJob peerLayer job).database.incomingEncrypted.rows ∨
        ∃ ids, job = .deletePeerIncomingEncryptedActions ids ∧ row.id ∈ ids) := by
  cases job with
  | enqueuePeerIncomingActions actions =>
      exact ⟨fun _ h => .inl (Table.mem_insertAll_of_mem h), fun _ h => .inl h⟩
  | enqueuePeerIncomingEncryptedActions actions =>
      exact ⟨fun _ h => .inl h, fun _ h => .inl (Table.mem_insertAll_of_mem h)⟩
  | deletePeerIncomingActions ids =>
      refine ⟨fun row h => ?_, fun _ h => .inl h⟩
      by_cases hid : row.id ∈ ids
      · exact .inr ⟨ids, rfl, hid⟩
      · exact .inl (Table.mem_delete.mpr ⟨h, decide_eq_false hid⟩)
  | deletePeerIncomingEncryptedActions ids =>
      refine ⟨fun _ h => .inl h, fun row h => ?_⟩
      by_cases hid : row.id ∈ ids
      · exact .inr ⟨ids, rfl, hid⟩
      · exact .inl (Table.mem_delete.mpr ⟨h, decide_eq_false hid⟩)
  | enqueuePeerOutgoingAction action =>
      simp only [runJob, SecretDatabase.enqueuePeerOutgoingAction]
      split <;> exact ⟨fun _ h => .inl h, fun _ h => .inl h⟩
  | _ => exact ⟨fun _ h => .inl h, fun _ h => .inl h⟩

/-- Only the database thread changes the database. -/
theorem database_step {s : SecretClient} {e : SecretEvent κ} :
    (step chat s e).database = s.database ∨ ∃ peerLayer job jobs, s.jobs = job :: jobs ∧
      step chat s e = { s with jobs }.runJob peerLayer job := by
  cases e with
  | runJob peerLayer =>
      simp only [step]
      split
      next job jobs hjobs => exact .inr ⟨peerLayer, job, jobs, hjobs, rfl⟩
      next => exact .inl rfl
  | runBlock keys peerLayer =>
      simp only [step]
      split <;> exact .inl rfl
  | requestSucceeded index =>
      simp only [step]
      split <;> exact .inl rfl
  | requestFailed index =>
      simp only [step]
      split <;> exact .inl rfl
  | _ => exact .inl rfl

theorem SeqInv.passed {s : SecretClient} (h : SeqInv chat s) {seqOut : ℤ}
    (hdone : s.Done seqOut) : s.Passed seqOut := by
  rcases hdone with hhanded | hneg
  · exact .inl hhanded
  · exact .inr (Int.lt_of_lt_of_le hneg (h.nonneg _ List.mem_cons_self))

/-- **Every event keeps the rows** that are not done, and the stored number. -/
theorem keepsRows_step {s : SecretClient} {e : SecretEvent κ} (h : SeqInv chat s) :
    KeepsRows chat s e := by
  rcases @database_step _ chat s e with
    hsame | ⟨peerLayer, job, jobs, hjobs, hstep⟩
  · refine ⟨Int.le_of_eq (by rw [hsame]), fun row hrow hgone => ?_, fun row hrow hgone => ?_⟩
    · exact absurd (hsame ▸ hrow) hgone
    · exact absurd (hsame ▸ hrow) hgone
  · have hframe : Frame s ({ s with jobs }.runJob peerLayer job) := frame_runJob hjobs
    have hfirst : job ∈ s.jobs := hjobs ▸ List.mem_cons_self
    have hkept := @kept_or_deleted { s with jobs } peerLayer job
    rw [← hstep] at hframe hkept
    refine ⟨?_, fun row hrow hgone => ?_, fun row hrow hgone => ?_⟩
    · have hmem : (step chat s e).database.nextExpectedSeqOut ∈ s.numbers :=
        hframe.numbers.subset List.mem_cons_self
      rcases List.mem_cons.mp hmem with heq | hlater
      · exact Int.le_of_eq heq.symm
      · exact List.rel_of_pairwise_cons h.grows hlater
    · rcases hkept.1 row hrow with hin | ⟨ids, rfl, hid⟩
      · exact absurd hin hgone
      · obtain ⟨value, hnames, hdone⟩ := h.deletes ids hfirst row.id hid
        rw [hnames.unique row hrow rfl]
        exact h.passed hdone
    · rcases hkept.2 row hrow with hin | ⟨ids, rfl, hid⟩
      · exact absurd hin hgone
      · obtain ⟨value, hnames, seqOut, hhas, hdone⟩ :=
          h.deletesEncrypted ids hfirst row.id hid
        rw [hnames.unique row hrow rfl]
        exact ⟨seqOut, hhas, h.passed hdone⟩

/-! ### Whole runs -/

theorem seqInv_step {s : SecretClient} {e : SecretEvent κ} (h : SeqInv chat s)
    (hcond : PeerLayer17 s e ∧ UpToDate s e) : SeqInv chat (step chat s e) := by
  by_cases hblock : ∃ keys peerLayer poll blocks, e = .runBlock keys peerLayer ∧
      s.blocks = .incoming poll :: blocks
  · obtain ⟨keys, peerLayer, poll, blocks, rfl, hblocks⟩ := hblock
    have hpop : SeqInv chat { s with blocks } :=
      h.frame (frame_of_same rfl rfl rfl fun _ hmem => hblocks ▸ List.mem_cons_of_mem _ hmem)
    have hpoll : PollRows s.database poll := h.polls poll (hblocks ▸ List.mem_cons_self)
    have hdate : poll.nextExpectedSeqOut = s.seqInAfterWrites := by
      have hcurrent := hcond.2
      simpa only [UpToDate, hblocks] using hcurrent
    simp only [step, hblocks]
    exact seqInv_runIncoming hpop hcond.1 hpoll hdate
  · refine h.frame (frame_step fun keys peerLayer poll blocks he hblocks => ?_)
    exact hblock ⟨keys, peerLayer, poll, blocks, he, hblocks⟩

theorem SeqInv.inOrder {s : SecretClient} (h : SeqInv chat s) : InOrder chat s :=
  h.order.exists_sequenced

/-- **Secret messages are handed over in order and once**, in every run of a client whose peer
is at layer 17 or above, if every block of the incoming queue runs while the number its
dequeue has read is still the one that all pending writes lead to. -/
theorem handed_in_order (chat : SecretChat κ) (es : List (SecretEvent κ))
    (hlayer : AllSteps (step chat) PeerLayer17 freshClient es)
    (hdate : AllSteps (step chat) UpToDate freshClient es) :
    Always (step chat) (InOrder chat) freshClient es ∧
      AllSteps (step chat) (KeepsRows chat) freshClient es := by
  have hcond := hlayer.and hdate
  have hinv : Always (step chat) (SeqInv chat) freshClient es :=
    always_of_allSteps (fun _ _ h hc => seqInv_step h hc) seqInv_fresh hcond
  exact ⟨hinv.mono fun _ h => h.inOrder,
    .of_always (D := KeepsRows chat) (fun _ _ h _ => keepsRows_step h) hinv hcond⟩

/-! ### Runs on a chat without keys and resend requests -/

/-- A chat in which nothing can be decrypted and no message is a resend request. -/
def plainChat : SecretChat Unit := .bare fun _ => none

/-- A message of layer 17 with a number. -/
def plainMessage (seqOut : ℤ) : IncomingActionWithSeq := ⟨⟨17, [], 0⟩, 0, seqOut⟩

/-- A message arrives; its poll reaches the block, which runs and writes. -/
def oneMessage : List (SecretEvent Unit) :=
  [.receive [plainMessage 0], .pollIncoming, .runJob 17, .runJob 17, .runBlock () 17,
    .runJob 17, .runJob 17, .runJob 17, .runJob 17]

/-- A message arrives, and two polls are dequeued before the first block runs. -/
def twoPolls : List (SecretEvent Unit) :=
  [.receive [plainMessage 0], .pollIncoming, .pollIncoming, .runJob 17, .runJob 17, .runJob 17,
    .runBlock () 17, .runBlock () 17]

theorem handed_in_order_oneMessage :
    Always (step plainChat) (InOrder plainChat) freshClient oneMessage ∧
      AllSteps (step plainChat) (KeepsRows plainChat) freshClient oneMessage := by
  refine handed_in_order plainChat oneMessage ?_ ?_
  · exact ⟨trivial, trivial, trivial, trivial, Nat.le_refl 17, trivial, trivial, trivial,
      trivial, trivial⟩
  · exact ⟨trivial, trivial, trivial, trivial, rfl, trivial, trivial, trivial, trivial, trivial⟩

/-- **The block of the second poll hands the message over once more.** -/
theorem handed_in_order_twoPolls :
    AllSteps (step plainChat) PeerLayer17 freshClient twoPolls ∧
      ¬ Always (step plainChat) (InOrder plainChat) freshClient twoPolls := by
  constructor
  · exact ⟨trivial, trivial, trivial, trivial, trivial, trivial, Nat.le_refl 17,
      Nat.le_refl 17, trivial⟩
  · intro halways
    have hnumbers : (run (step plainChat) freshClient twoPolls).handed.map
        SecretActionWithSeq.seqOut = [0, 0] := by
      decide +kernel
    obtain ⟨sequenced, hsub, hfilter, hrange, -⟩ := halways.last
    have hall : sequenced = (run (step plainChat) freshClient twoPolls).handed := by
      refine hsub.antisymm ?_
      rwa [show (run (step plainChat) freshClient twoPolls).handed.filter
        (fun action => !plainChat.isResendAction action.action) = _ from
          List.filter_eq_self.mpr fun _ _ => rfl] at hfilter
    rw [← hall] at hnumbers
    have hlength : sequenced.length = 2 := by
      rw [← List.length_map (f := SecretActionWithSeq.seqOut), hnumbers]
      rfl
    rw [hrange, hlength] at hnumbers
    exact absurd hnumbers (by decide)

end SecretClient

end Telegraph.Secret
