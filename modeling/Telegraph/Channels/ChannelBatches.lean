import Telegraph.Channels.ManagedChannelState

/-!
# What a Batch Applies

A batch of updates of the log is applied as far as it continues the stored number, whatever is in
it: what has been collected is the log up to the number that it comes to. Where the updates can be
sorted, that is as far as none is missing, and it fails exactly if one is.

## Main results

* `collected_collectUpdates`: a batch collects a stretch of the log.
* `collectUpdates_complete`: **an update is applied exactly if none is missing before it**, and a
  batch fails exactly if it has one that is not.
-/

namespace Telegraph.Channels

variable {Body : Type} {peerId : ℤ} {log : List (PtsUpdate Body)} {skip : List ℤ} {pts mid : ℤ}
  {updates : List (PtsUpdate Body)} {update : PtsUpdate Body} {c : CollectedUpdates Body}

open PtsChange

/-! ### Collecting -/

/-- Whether a change is collected: a message without an identifier is not, nor is one that is
being sent from here. -/
def PtsChange.kept (skip : List ℤ) : PtsChange Body → Bool
  | newMessage message => message.mid ≠ 0 ∧ message.mid ∉ skip
  | editMessage message => message.mid ≠ 0 ∧ message.mid ∉ skip
  | _ => true

/-- The changes of some updates that are collected. -/
def keptChanges (skip : List ℤ) (updates : List (PtsUpdate Body)) : List (PtsChange Body) :=
  (updates.map PtsUpdate.change).filter (PtsChange.kept skip)

theorem keptChanges_append (updates more : List (PtsUpdate Body)) :
    keptChanges skip (updates ++ more) = keptChanges skip updates ++ keptChanges skip more := by
  rw [keptChanges, List.map_append, List.filter_append]
  rfl

/-- What has been collected is a stretch of the log behind a number, and of the updates that have
been listed. -/
structure Collected (log : List (PtsUpdate Body)) (skip : List ℤ) (pts : ℤ)
    (updates : List (PtsUpdate Body)) (c : CollectedUpdates Body) : Prop where
  le : pts ≤ c.updatedPts
  listed : ∀ update ∈ between log pts c.updatedPts, update ∈ updates
  reached : c.updatedPts = pts ∨ ∃ update ∈ updates, update.pts = c.updatedPts
  added : c.addedMessages = addedIn (keptChanges skip (between log pts c.updatedPts))
  edited : c.updatedMessages = editedIn (keptChanges skip (between log pts c.updatedPts))
  deleted : c.deletedMessageIds = deletedIn (keptChanges skip (between log pts c.updatedPts))

/-- Nothing has been collected yet. -/
theorem collected_nil (failed : Bool) : Collected log skip pts [] ⟨[], [], [], pts, failed⟩ := by
  have hnone : between log pts pts = [] := by
    refine List.filter_eq_nil_iff.mpr fun update _ => ?_
    rw [decide_eq_true_eq]
    omega
  refine ⟨le_rfl, ?_, .inl rfl, ?_, ?_, ?_⟩
  all_goals rw [hnone]
  · exact fun update h => absurd h List.not_mem_nil
  · rfl
  · rfl
  · rfl

/-- An update that is passed over changes nothing but whether there is a failure. -/
theorem Collected.pass (h : Collected log skip pts updates c) (update : PtsUpdate Body)
    (failed : Bool) : Collected log skip pts (updates ++ [update]) { c with failed := failed } :=
  { h with
    listed := fun other hother => List.mem_append_left _ (h.listed other hother)
    reached := h.reached.imp_right fun ⟨other, hother, heq⟩ =>
      ⟨other, List.mem_append_left _ hother, heq⟩ }

/-- A message is collected with its change. -/
theorem collectMessage_eq (messages : List (ChannelMessage Body))
    (message : ChannelMessage Body) :
    collectMessage skip messages message =
        messages ++ addedIn ([newMessage message].filter (PtsChange.kept skip)) ∧
      collectMessage skip messages message =
        messages ++ editedIn ([editMessage message].filter (PtsChange.kept skip)) := by
  rw [collectMessage, List.filter_cons, List.filter_cons, List.filter_nil, PtsChange.kept,
    PtsChange.kept]
  split
  · next h =>
    rw [if_pos (decide_eq_true h), if_pos (decide_eq_true h)]
    exact ⟨rfl, rfl⟩
  · next h =>
    rw [if_neg (by rwa [decide_eq_true_eq]), if_neg (by rwa [decide_eq_true_eq])]
    exact ⟨(List.append_nil _).symm, (List.append_nil _).symm⟩

/-- Where a message is added, none is edited or deleted. -/
theorem only_added (skip : List ℤ) (message : ChannelMessage Body) :
    editedIn ([newMessage message].filter (PtsChange.kept skip)) = [] ∧
      deletedIn ([newMessage message].filter (PtsChange.kept skip)) = [] := by
  rw [List.filter_cons, List.filter_nil]
  split
  · exact ⟨rfl, rfl⟩
  · exact ⟨rfl, rfl⟩

/-- Where a message is edited, none is added or deleted. -/
theorem only_edited (skip : List ℤ) (message : ChannelMessage Body) :
    addedIn ([editMessage message].filter (PtsChange.kept skip)) = [] ∧
      deletedIn ([editMessage message].filter (PtsChange.kept skip)) = [] := by
  rw [List.filter_cons, List.filter_nil]
  split
  · exact ⟨rfl, rfl⟩
  · exact ⟨rfl, rfl⟩

/-- **An update of the log is collected, or passed over.** -/
theorem Collected.collectUpdate (hlog : IsLog peerId log) (h : Collected log skip pts updates c)
    (hmem : update ∈ log) :
    Collected log skip pts (updates ++ [update]) (collectUpdate skip c update) := by
  rw [Channels.collectUpdate]
  split
  · exact h.pass update c.failed
  · next hlt =>
    split
    · next hnext =>
      have hle : c.updatedPts ≤ update.pts := (not_le.mp hlt).le
      have hbetween : between log pts update.pts =
          between log pts c.updatedPts ++ [update] := by
        rw [hlog.between_append h.le hle, hlog.between_eq_singleton hmem hnext]
      have hchanges : keptChanges skip (between log pts update.pts) =
          keptChanges skip (between log pts c.updatedPts) ++
            [update.change].filter (PtsChange.kept skip) := by
        rw [hbetween, keptChanges_append]
        rfl
      have hadded : addedIn (keptChanges skip (between log pts update.pts)) =
          c.addedMessages ++ addedIn ([update.change].filter (PtsChange.kept skip)) := by
        rw [hchanges, h.added, addedIn, List.filterMap_append]
        rfl
      have hedited : editedIn (keptChanges skip (between log pts update.pts)) =
          c.updatedMessages ++ editedIn ([update.change].filter (PtsChange.kept skip)) := by
        rw [hchanges, h.edited, editedIn, List.filterMap_append]
        rfl
      have hdeleted : deletedIn (keptChanges skip (between log pts update.pts)) =
          c.deletedMessageIds ++ deletedIn ([update.change].filter (PtsChange.kept skip)) := by
        rw [hchanges, h.deleted, deletedIn, List.flatMap_append]
        rfl
      have hlisted : ∀ other ∈ between log pts update.pts, other ∈ updates ++ [update] := by
        intro other hother
        rw [hbetween] at hother
        exact (List.mem_append.mp hother).elim
          (fun hbefore => List.mem_append_left _ (h.listed other hbefore))
          (List.mem_append_right _)
      have hreached : ∃ other ∈ updates ++ [update], other.pts = update.pts :=
        ⟨update, List.mem_append_right _ List.mem_cons_self, rfl⟩
      cases hchange : update.change with
      | newMessage message =>
          obtain ⟨hnoEdited, hnoDeleted⟩ := only_added skip message
          rw [hchange] at hadded hedited hdeleted
          rw [hnoEdited, List.append_nil] at hedited
          rw [hnoDeleted, List.append_nil] at hdeleted
          rw [← (collectMessage_eq c.addedMessages message).1] at hadded
          exact ⟨h.le.trans hle, hlisted, .inr hreached, hadded.symm, hedited.symm, hdeleted.symm⟩
      | editMessage message =>
          obtain ⟨hnoAdded, hnoDeleted⟩ := only_edited skip message
          rw [hchange] at hadded hedited hdeleted
          rw [hnoAdded, List.append_nil] at hadded
          rw [hnoDeleted, List.append_nil] at hdeleted
          rw [← (collectMessage_eq c.updatedMessages message).2] at hedited
          exact ⟨h.le.trans hle, hlisted, .inr hreached, hadded.symm, hedited.symm, hdeleted.symm⟩
      | deleteMessages messages =>
          have hmessages : deletedIn ([(deleteMessages messages : PtsChange Body)].filter
              (PtsChange.kept skip)) = messages := List.append_nil messages
          rw [hchange] at hadded hedited hdeleted
          rw [hmessages] at hdeleted
          exact ⟨h.le.trans hle, hlisted, .inr hreached, (hadded.trans (List.append_nil _)).symm,
            (hedited.trans (List.append_nil _)).symm, hdeleted.symm⟩
      | webPage =>
          rw [hchange] at hadded hedited hdeleted
          exact ⟨h.le.trans hle, hlisted, .inr hreached, (hadded.trans (List.append_nil _)).symm,
            (hedited.trans (List.append_nil _)).symm, (hdeleted.trans (List.append_nil _)).symm⟩
    · exact h.pass update true

/-- Updates of the log collect a stretch of it. -/
theorem collected_foldl (hlog : IsLog peerId log) (failed : Bool)
    (hupdates : ∀ update ∈ updates, update ∈ log) :
    Collected log skip pts updates
      (updates.foldl (collectUpdate skip) ⟨[], [], [], pts, failed⟩) := by
  induction updates using List.reverseRecOn with
  | nil => exact collected_nil failed
  | append_singleton updates update ih =>
      rw [List.foldl_append]
      exact (ih fun other hother => hupdates other (List.mem_append_left _ hother)).collectUpdate
        hlog (hupdates update (List.mem_append_right _ List.mem_cons_self))

/-! ### Batches without a gap -/

/-- The number that one round comes to. -/
theorem updatedPts_collectUpdate (skip : List ℤ) (c : CollectedUpdates Body)
    (update : PtsUpdate Body) : (collectUpdate skip c update).updatedPts =
      if c.updatedPts < update.pts ∧ c.updatedPts + update.ptsCount = update.pts then update.pts
      else c.updatedPts := by
  rw [collectUpdate]
  split
  · next hle => rw [if_neg fun h => absurd h.1 (not_lt_of_ge hle)]
  · next hlt =>
    split
    · next hnext =>
      rw [if_pos ⟨not_le.mp hlt, hnext⟩]
      cases update.change with
      | _ => rfl
    · next hgap => rw [if_neg fun h => hgap h.2]

/-- When one round fails. -/
theorem failed_collectUpdate (skip : List ℤ) (c : CollectedUpdates Body) (update : PtsUpdate Body) :
    (collectUpdate skip c update).failed = true ↔ c.failed = true ∨
      c.updatedPts < update.pts ∧ c.updatedPts + update.ptsCount ≠ update.pts := by
  rw [collectUpdate]
  split
  · next hle => exact (or_iff_left fun h => absurd h.1 (not_lt_of_ge hle)).symm
  · next hlt =>
    split
    · next hnext =>
      refine Iff.trans ?_ (or_iff_left fun h => h.2 hnext).symm
      cases update.change with
      | _ => exact Iff.rfl
    · next hgap => exact ⟨fun _ => .inr ⟨not_le.mp hlt, hgap⟩, fun _ => rfl⟩

/-- The number that rounds come to is the first one, or that of an update. -/
theorem updatedPts_foldl (skip : List ℤ) (c : CollectedUpdates Body)
    (updates : List (PtsUpdate Body)) :
    (updates.foldl (collectUpdate skip) c).updatedPts = c.updatedPts ∨
      ∃ update ∈ updates, update.pts = (updates.foldl (collectUpdate skip) c).updatedPts := by
  induction updates generalizing c with
  | nil => exact .inl rfl
  | cons update updates ih =>
      rcases ih (collectUpdate skip c update) with heq | ⟨other, hother, heq⟩
      · rw [List.foldl_cons, heq, updatedPts_collectUpdate]
        split
        · exact .inr ⟨update, List.mem_cons_self, rfl⟩
        · exact .inl rfl
      · exact .inr ⟨other, List.mem_cons_of_mem _ hother, heq⟩

/-- **Sorted updates are taken as far as they go on.** -/
theorem not_next_of_foldl (hascending : updates.Pairwise fun update later => update.pts < later.pts)
    (hcount : 0 < update.ptsCount) (hmem : update ∈ updates) (c : CollectedUpdates Body) :
    (updates.foldl (collectUpdate skip) c).updatedPts + update.ptsCount ≠ update.pts := by
  intro hnext
  obtain ⟨before, behind, rfl⟩ := List.append_of_mem hmem
  obtain ⟨-, hbehind, -⟩ := List.pairwise_append.mp hascending
  rw [List.foldl_append, List.foldl_cons] at hnext
  rcases updatedPts_foldl skip
    (collectUpdate skip (before.foldl (collectUpdate skip) c) update) behind with
    heq | ⟨other, hother, heq⟩
  · rw [heq, updatedPts_collectUpdate] at hnext
    split at hnext
    · omega
    · next hnot => exact hnot ⟨by omega, hnext⟩
  · have hlt := (List.pairwise_cons.mp hbehind).1 other hother
    omega

/-- **Sorted updates fail if one is left over**, and not otherwise. -/
theorem failed_foldl (hlog : IsLog peerId log)
    (hascending : updates.Pairwise fun update later => update.pts < later.pts)
    (hupdates : ∀ update ∈ updates, update ∈ log) (c : CollectedUpdates Body) :
    (updates.foldl (collectUpdate skip) c).failed = true ↔ c.failed = true ∨
      ∃ update ∈ updates, (updates.foldl (collectUpdate skip) c).updatedPts < update.pts := by
  induction updates using List.reverseRecOn with
  | nil => exact (or_iff_left fun ⟨_, hmem, _⟩ => absurd hmem List.not_mem_nil).symm
  | append_singleton updates update ih =>
      obtain ⟨hbefore, -, hlast⟩ := List.pairwise_append.mp hascending
      have hmem : update ∈ log := hupdates update (List.mem_append_right _ List.mem_cons_self)
      have hrest := ih hbefore fun other hother => hupdates other (List.mem_append_left _ hother)
      rw [List.foldl_append, List.foldl_cons, List.foldl_nil, failed_collectUpdate, hrest,
        updatedPts_collectUpdate]
      generalize (updates.foldl (collectUpdate skip) c).updatedPts = reached
      constructor
      · rintro ((hfailed | ⟨other, hother, hlt⟩) | ⟨hlt, hgap⟩)
        · exact .inl hfailed
        · refine .inr ⟨other, List.mem_append_left _ hother, ?_⟩
          split
          · next hnext =>
            have hbehind := hlast other hother update List.mem_cons_self
            have hpos := hlog.counts other (hupdates other (List.mem_append_left _ hother))
            rcases hlog.trichotomy (hupdates other (List.mem_append_left _ hother)) hmem with
              rfl | hle | hle
            · omega
            · omega
            · omega
          · exact hlt
        · refine .inr ⟨update, List.mem_append_right _ List.mem_cons_self, ?_⟩
          rwa [if_neg fun h => hgap h.2]
      · rintro (hfailed | ⟨other, hother, hlt⟩)
        · exact .inl (.inl hfailed)
        · split at hlt
          · rcases List.mem_append.mp hother with hother | hother
            · have hbehind := hlast other hother update List.mem_cons_self
              omega
            · rw [List.mem_singleton.mp hother] at hlt
              omega
          · next hnot =>
            rcases List.mem_append.mp hother with hother | hother
            · exact .inl (.inr ⟨other, hother, hlt⟩)
            · rw [List.mem_singleton.mp hother] at hlt
              exact .inr ⟨hlt, fun hnext => hnot ⟨hlt, hnext⟩⟩

/-- A stretch of the log ends at an update of it. -/
theorem Collected.aligned (h : Collected log skip pts updates c)
    (hupdates : ∀ update ∈ updates, update ∈ log) (haligned : Aligned log pts) :
    Aligned log c.updatedPts := by
  rcases h.reached with heq | ⟨update, hmem, heq⟩
  · rwa [heq]
  · exact .inr ⟨update, hupdates update hmem, heq⟩

/-- Behind the number of an update, and before a later one, there is the next one. -/
theorem IsLog.exists_next (h : IsLog peerId log) (haligned : Aligned log pts)
    (hmem : update ∈ log) (hlt : pts < update.pts) :
    ∃ next ∈ between log pts update.pts, pts + next.ptsCount = next.pts := by
  have hcounts : ∀ other ∈ log, 0 ≤ other.ptsCount := fun other hother => (h.counts other hother).le
  have hend := ((h.continues.bounds hcounts).2 update hmem).2
  obtain ⟨next, hnext, hstart, hbehind⟩ :=
    h.continues.exists_next hcounts haligned (hlt.trans_le hend)
  refine ⟨next, mem_between.mpr ⟨hnext, hbehind, ?_⟩, by omega⟩
  rcases h.trichotomy hnext hmem with rfl | hle | hle
  · exact le_rfl
  · have hpos := hcounts update hmem
    omega
  · omega

section Batch

variable {sort : List (PtsUpdate Body) → List (PtsUpdate Body)}
  {batch : List (ChannelUpdate Body)}

/-- **A batch collects a stretch of the log**, in whatever order its updates are sorted. -/
theorem collected_collectUpdates (hlog : IsLog peerId log) (hsort : Sorts sort)
    (hbatch : ∀ update ∈ ptsUpdates batch, update ∈ log) (pts : ℤ) (executing : List ℤ) :
    Collected log (skipMessageIds executing batch) pts (ptsUpdates batch)
      (collectUpdates sort pts batch executing) := by
  have hperm := hsort.perm (ptsUpdates batch)
  have h : Collected log (skipMessageIds executing batch) pts (sort (ptsUpdates batch))
      (collectUpdates sort pts batch executing) :=
    collected_foldl hlog (isTooLong batch) fun update hmem =>
      hbatch update (hperm.mem_iff.mp hmem)
  exact { h with
    listed := fun update hmem => hperm.mem_iff.mp (h.listed update hmem)
    reached := h.reached.imp_right fun ⟨update, hmem, heq⟩ =>
      ⟨update, hperm.mem_iff.mp hmem, heq⟩ }

/-- Where the block says which one comes first, that is the order of the numbers. -/
theorem lt_of_ptsComparator {other : PtsUpdate Body} (h : ptsComparator update other = true) :
    update.pts < other.pts := by
  rw [ptsComparator] at h
  split at h
  · cases h
  · exact of_decide_eq_true h

/-- Updates of different numbers that are not of web pages can be sorted. -/
theorem comparable_of_no_webPage (hdistinct : updates.Pairwise fun update other =>
      update.pts ≠ other.pts) (hnone : ∀ update ∈ updates, update.change ≠ .webPage) :
    Comparable updates := by
  have hplain : ∀ update ∈ updates, ∀ other : PtsUpdate Body,
      ptsComparator other update = decide (other.pts < update.pts) := by
    intro update hmem other
    have hchange := hnone update hmem
    rw [ptsComparator]
    split
    · next heq => exact absurd heq hchange
    · rfl
  refine hdistinct.imp_of_mem fun {update other} hmem hother hne heq => ?_
  rw [hplain other hother, hplain update hmem] at heq
  have hiff := decide_eq_decide.mp heq
  omega

/-- **An update is applied exactly if none is missing before it**, and a batch fails exactly if it
has one that is not applied. -/
theorem collectUpdates_complete (hlog : IsLog peerId log) (hsort : Sorts sort)
    (haligned : Aligned log pts) (hbatch : ∀ update ∈ ptsUpdates batch, update ∈ log)
    (hcomparable : Comparable (ptsUpdates batch)) (executing : List ℤ) :
    let c := collectUpdates sort pts batch executing
    (∀ update ∈ ptsUpdates batch, update.pts ≤ c.updatedPts ↔
        ∀ other ∈ between log pts update.pts, other ∈ ptsUpdates batch) ∧
      (c.failed = true ↔ isTooLong batch = true ∨
        ∃ update ∈ ptsUpdates batch, c.updatedPts < update.pts) := by
  intro c
  have hperm := hsort.perm (ptsUpdates batch)
  have hascending : (sort (ptsUpdates batch)).Pairwise fun update later =>
      update.pts < later.pts :=
    (hsort.sorted _ hcomparable).imp lt_of_ptsComparator
  have hsorted : ∀ update ∈ sort (ptsUpdates batch), update ∈ log :=
    fun update hmem => hbatch update (hperm.mem_iff.mp hmem)
  have hcollected := collected_collectUpdates hlog hsort hbatch pts executing
  constructor
  · intro update hmem
    constructor
    · intro hle other hother
      obtain ⟨hlow, hhigh, hlast⟩ := mem_between.mp hother
      exact hcollected.listed other (mem_between.mpr ⟨hlow, hhigh, hlast.trans hle⟩)
    · intro hall
      by_contra hlt
      obtain ⟨next, hnext, hcontinues⟩ := hlog.exists_next (hcollected.aligned hbatch haligned)
        (hbatch update hmem) (not_le.mp hlt)
      obtain ⟨hnextLog, hlow, hhigh⟩ := mem_between.mp hnext
      have hlisted : next ∈ ptsUpdates batch :=
        hall next (mem_between.mpr ⟨hnextLog, hcollected.le.trans_lt hlow, hhigh⟩)
      exact not_next_of_foldl hascending (hlog.counts next hnextLog)
        (hperm.mem_iff.mpr hlisted) _ hcontinues
  · refine (failed_foldl hlog hascending hsorted _).trans (or_congr_right ?_)
    constructor
    · exact fun ⟨update, hmem, hlt⟩ => ⟨update, hperm.mem_iff.mp hmem, hlt⟩
    · exact fun ⟨update, hmem, hlt⟩ => ⟨update, hperm.mem_iff.mpr hmem, hlt⟩

end Batch

/-! ### A sort -/

/-- The updates in the order of their numbers. -/
def sortByPts (updates : List (PtsUpdate Body)) : List (PtsUpdate Body) :=
  updates.insertionSort fun update later => update.pts ≤ later.pts

/-- A sort by the numbers does what the block asks for. -/
theorem sorts_sortByPts :
    Sorts (sortByPts : List (PtsUpdate Body) → List (PtsUpdate Body)) := by
  refine ⟨fun updates => List.perm_insertionSort _ updates, fun updates hcomparable => ?_⟩
  have htotal : Std.Total fun update later : PtsUpdate Body => update.pts ≤ later.pts :=
    ⟨fun update later => le_total _ _⟩
  have htrans : IsTrans (PtsUpdate Body) fun update later => update.pts ≤ later.pts :=
    ⟨fun _ _ _ h h' => le_trans h h'⟩
  have hsorted : (sortByPts updates).Pairwise fun update later => update.pts ≤ later.pts :=
    List.pairwise_insertionSort _ updates
  have hpairs : (sortByPts updates).Pairwise fun update later =>
      ptsComparator update later ≠ ptsComparator later update :=
    (List.perm_insertionSort _ updates).symm.pairwise hcomparable fun hne => hne.symm
  refine (hsorted.and hpairs).imp fun {update later} h => ?_
  by_contra hnot
  have hback : ptsComparator later update = true := by
    rw [Bool.not_eq_true] at hnot
    by_contra hneither
    rw [Bool.not_eq_true] at hneither
    exact h.2 (hnot.trans hneither.symm)
  exact absurd (lt_of_ptsComparator hback) (not_lt_of_ge h.1)

/-- A channel of two messages. -/
def twoMessages : List (PtsUpdate ℕ) :=
  [⟨2, 1, .newMessage ⟨-5, 1, 10⟩⟩, ⟨3, 1, .newMessage ⟨-5, 2, 20⟩⟩]

theorem isLog_twoMessages : IsLog (-5) twoMessages where
  counts := by decide
  continues := ⟨rfl, rfl, trivial⟩
  fresh := by
    refine List.pairwise_pair.mpr fun message hchange => ?_
    obtain rfl := newMessage.inj hchange
    intro habout
    have heq : (1 : ℤ) = 2 := habout
    exact absurd heq (by decide)
  ours := by
    intro update hmem message hchange
    rcases List.mem_cons.mp hmem with rfl | hmem
    · rcases hchange with hnew | hedit
      · obtain rfl := newMessage.inj hnew
        exact ⟨rfl, by decide⟩
      · cases hedit
    · rw [List.mem_singleton.mp hmem] at hchange
      rcases hchange with hnew | hedit
      · obtain rfl := newMessage.inj hnew
        exact ⟨rfl, by decide⟩
      · cases hedit

/-- A batch that brings only the second one. -/
def secondOnly : List (ChannelUpdate ℕ) :=
  [.pts ⟨3, 1, .newMessage ⟨-5, 2, 20⟩⟩]

theorem comparable_secondOnly : Comparable (ptsUpdates secondOnly) :=
  comparable_of_no_webPage (List.pairwise_singleton _ _) (by decide)

/-- The second message alone is not applied. -/
theorem collectUpdates_complete_second :
    let c := collectUpdates sortByPts 1 secondOnly []
    (∀ update ∈ ptsUpdates secondOnly, update.pts ≤ c.updatedPts ↔
        ∀ other ∈ between twoMessages 1 update.pts, other ∈ ptsUpdates secondOnly) ∧
      (c.failed = true ↔ isTooLong secondOnly = true ∨
        ∃ update ∈ ptsUpdates secondOnly, c.updatedPts < update.pts) :=
  collectUpdates_complete isLog_twoMessages sorts_sortByPts (.inl rfl) (by decide)
    comparable_secondOnly []

end Telegraph.Channels
