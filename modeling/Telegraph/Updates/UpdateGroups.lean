import Mathlib.Data.List.Basic
import Mathlib.Algebra.Order.Ring.Int

/-!
# Updates and Their Groups

`TGUpdateMessageService` splits what the server sends into groups of updates, one list of
groups for each of the four paths of `TGApplyUpdatesActor`. This module models the updates,
the splitting, and what the actors do with their groups before they apply anything: the
search for updates that continue the stored counter, and the removal of groups all of
whose updates are done.

An update is an object: its `id` stands for the pointer, and so does that of a group. No
class of update has both a `pts` and a `qts`.

## Main results

* `contiguous_inOrder`: the updates an actor collects continue the counter step by step.
* `covers_of_contiguous`: such updates leave no number out.
-/

namespace Telegraph.Updates

/-! ### Updates -/

/-- The counters of a `TLUpdate`: those of the classes `hasPts` names, the `qts` of
`updateNewEncryptedMessage`, or none. -/
inductive Counters where
  | pts (pts ptsCount : ℤ)
  | qts (qts : ℤ)
  | none
deriving DecidableEq

/-- An object of class `TLUpdate`. -/
structure Update where
  id : ℕ
  counters : Counters
deriving DecidableEq

namespace Update

/-- `hasPts`. -/
def hasPts (update : Update) : Bool :=
  match update.counters with
  | .pts _ _ => true
  | _ => false

/-- `respondsToSelector:@selector(qts)`. -/
def hasQts (update : Update) : Bool :=
  match update.counters with
  | .qts _ => true
  | _ => false

/-- `pts`. -/
def pts (update : Update) : ℤ :=
  match update.counters with
  | .pts pts _ => pts
  | _ => 0

/-- `pts_count`. -/
def ptsCount (update : Update) : ℤ :=
  match update.counters with
  | .pts _ ptsCount => ptsCount
  | _ => 0

/-- `qts`. -/
def qts (update : Update) : ℤ :=
  match update.counters with
  | .qts qts => qts
  | _ => 0

end Update

/-- The objects `TGUpdatesWithPts`, `TGUpdatesWithQts`, `TGUpdatesWithSeq` and
`TGUpdatesWithDate`; what a class does not have is zero. -/
structure UpdatesGroup where
  id : ℕ
  updates : List Update
  date : ℤ
  seqStart : ℤ
  seqEnd : ℤ
deriving DecidableEq

/-- The updates of some groups. -/
def allUpdates (groups : List UpdatesGroup) : List Update :=
  groups.flatMap UpdatesGroup.updates

/-! ### Splitting what the server sends -/

/-- The classes of `TLUpdates`. A short message carries the `pts` of the update that is
synthesized from it. -/
inductive UpdatesBody where
  | updates (contained : List Counters) (date seq : ℤ)
  | updatesCombined (contained : List Counters) (date seqStart seq : ℤ)
  | updateShort (update : Counters) (date : ℤ)
  | shortMessage (pts ptsCount : ℤ)
  | tooLong

/-- The groups collected by `processMessages:`, and the next free identities. -/
structure CollectedUpdates where
  withPts : List UpdatesGroup
  withQts : List UpdatesGroup
  withSeq : List UpdatesGroup
  withDate : List UpdatesGroup
  nextUpdate : ℕ
  nextGroup : ℕ

namespace CollectedUpdates

/-- Nothing is collected yet. -/
def empty (nextUpdate nextGroup : ℕ) : CollectedUpdates :=
  ⟨[], [], [], [], nextUpdate, nextGroup⟩

/-- New objects, from the identity `next` on. -/
def newUpdates (next : ℕ) (contained : List Counters) : List Update :=
  (contained.zipIdx next).map fun p => ⟨p.2, p.1⟩

/-- The updates of an `updates` or `updatesCombined` body. An update with a `pts` goes to two
lists: only the test for a `qts` has an `else`. -/
def addContainer (c : CollectedUpdates) (contained : List Counters) (date seqStart seqEnd : ℤ) :
    CollectedUpdates :=
  let updates := newUpdates c.nextUpdate contained
  let updatesWithPts := updates.filter Update.hasPts
  let updatesWithQts := updates.filter Update.hasQts
  let otherUpdates := updates.filter fun update => !update.hasQts
  { withPts := if updatesWithPts ≠ [] then
        c.withPts ++ [⟨c.nextGroup, updatesWithPts, 0, 0, 0⟩] else c.withPts
    withQts := if updatesWithQts ≠ [] then
        c.withQts ++ [⟨c.nextGroup + 1, updatesWithQts, 0, 0, 0⟩] else c.withQts
    withSeq := if seqEnd ≠ 0 then
        c.withSeq ++ [⟨c.nextGroup + 2, otherUpdates, date, seqStart, seqEnd⟩] else c.withSeq
    withDate := if seqEnd ≠ 0 then c.withDate else
        c.withDate ++ [⟨c.nextGroup + 2, otherUpdates, date, 0, 0⟩]
    nextUpdate := c.nextUpdate + contained.length
    nextGroup := c.nextGroup + 3 }

/-- The update of an `updateShort` body, which goes to one list. -/
def addShort (c : CollectedUpdates) (update : Counters) (date : ℤ) : CollectedUpdates :=
  let update : Update := ⟨c.nextUpdate, update⟩
  let c := { c with nextUpdate := c.nextUpdate + 1, nextGroup := c.nextGroup + 1 }
  let id := c.nextGroup - 1
  if update.hasPts then { c with withPts := c.withPts ++ [⟨id, [update], 0, 0, 0⟩] }
  else if update.hasQts then { c with withQts := c.withQts ++ [⟨id, [update], 0, 0, 0⟩] }
  else { c with withDate := c.withDate ++ [⟨id, [update], date, 0, 0⟩] }

/-- One message of `processMessages:`. -/
def addBody (c : CollectedUpdates) : UpdatesBody → CollectedUpdates
  | .updates contained date seq => c.addContainer contained date seq seq
  | .updatesCombined contained date seqStart seq => c.addContainer contained date seqStart seq
  | .updateShort update date => c.addShort update date
  | .shortMessage pts ptsCount =>
      { c with
        withPts := c.withPts ++ [⟨c.nextGroup, [⟨c.nextUpdate, .pts pts ptsCount⟩], 0, 0, 0⟩]
        nextUpdate := c.nextUpdate + 1
        nextGroup := c.nextGroup + 1 }
  | .tooLong => c

/-- The body of `addUpdates:`, which knows the two classes of containers only. -/
def addUpdates (c : CollectedUpdates) : UpdatesBody → CollectedUpdates
  | .updates contained date seq => c.addContainer contained date seq seq
  | .updatesCombined contained date seqStart seq => c.addContainer contained date seqStart seq
  | _ => c.addContainer [] 0 0 0

end CollectedUpdates

/-! ### The updates that continue a counter -/

/-- What `checkPtsUpdates` and `checkQtsUpdates` find. `gap` tells whether an update was
missing. -/
structure FoundUpdates where
  inOrder : List Update
  expired : List Update
  gap : Bool

/-- The loop of `checkPtsUpdates` and `checkQtsUpdates`, over the sorted updates: `value` is
the counter of an update, `count` what it adds to it, `stored` the counter of the
database. -/
def collectInOrder (value count : Update → ℤ) (stored : ℤ) :
    ℤ → List Update → FoundUpdates
  | _, [] => ⟨[], [], false⟩
  | current, update :: updates =>
      if value update ≤ stored then
        let found := collectInOrder value count stored current updates
        { found with expired := update :: found.expired }
      else if current + count update = value update then
        let found := collectInOrder value count stored (value update) updates
        { found with inOrder := update :: found.inOrder }
      else ⟨[], [], true⟩

/-- The order of `checkPtsUpdates`. -/
def sortByPts (updates : List Update) : List Update :=
  updates.mergeSort fun update1 update2 =>
    if update1.pts = update2.pts then decide (update1.ptsCount ≥ update2.ptsCount)
    else decide (update1.pts < update2.pts)

/-- The order of `checkQtsUpdates`. -/
def sortByQts (updates : List Update) : List Update :=
  updates.mergeSort fun update1 update2 => decide (update1.qts ≤ update2.qts)

/-- The updates with a `pts` that continue `pts`, out of `updates`. -/
def collectPts (pts : ℤ) (updates : List Update) : FoundUpdates :=
  collectInOrder Update.pts Update.ptsCount pts pts (sortByPts updates)

/-- The updates with a `qts` that continue `qts`, out of `updates`. -/
def collectQts (qts : ℤ) (updates : List Update) : FoundUpdates :=
  collectInOrder Update.qts (fun _ => 1) qts qts (sortByQts updates)

/-- The groups are dropped that hold an update of `done`, and none that is not. -/
def dropDone (groups : List UpdatesGroup) (done : List Update) : List UpdatesGroup :=
  groups.filter fun group =>
    !(group.updates.any (fun update => update ∈ done) &&
      (group.updates.filter fun update => update ∉ done).isEmpty)

/-- The loop of `checkSeqUpdates`, over the sorted groups, which goes on behind a gap. -/
def collectSeqLoop : ℤ → List UpdatesGroup → List UpdatesGroup × Bool
  | _, [] => ([], false)
  | current, group :: groups =>
      if group.seqStart = current + 1 then
        let (inOrder, gap) := collectSeqLoop group.seqEnd groups
        (group :: inOrder, gap)
      else ((collectSeqLoop current groups).1, true)

/-- The groups that continue `seq`, out of `groups`. -/
def collectSeq (seq : ℤ) (groups : List UpdatesGroup) : List UpdatesGroup × Bool :=
  collectSeqLoop seq
    (groups.mergeSort fun group1 group2 => decide (group1.seqEnd ≤ group2.seqEnd))

/-- The order of the date path. -/
def sortByDate (groups : List UpdatesGroup) : List UpdatesGroup :=
  groups.mergeSort fun group1 group2 => decide (group1.date ≤ group2.date)

/-- The date of the last wrapped update of some groups. -/
def lastDate (groups : List UpdatesGroup) : ℤ :=
  ((groups.filter fun group => group.updates ≠ []).getLast?.map UpdatesGroup.date).getD 0

/-- The greatest counter of some updates, over those that have it. -/
def greatest (has : Update → Bool) (value : Update → ℤ) (updates : List Update) : ℤ :=
  updates.foldl (fun state update => if has update then max state (value update) else state) 0

/-- `statePts`. -/
def statePts (updates : List Update) : ℤ :=
  greatest Update.hasPts Update.pts updates

/-- `stateQts`. -/
def stateQts (updates : List Update) : ℤ :=
  greatest Update.hasQts Update.qts updates

/-! ### The greatest counter -/

section Greatest

variable {has : Update → Bool} {value : Update → ℤ} {updates : List Update}

/-- The running maximum starts at its first value and ends at the counter of an update, or
where it started. -/
theorem foldl_max_spec (has : Update → Bool) (value : Update → ℤ) (updates : List Update)
    (start : ℤ) :
    let result := updates.foldl
      (fun state update => if has update then max state (value update) else state) start
    start ≤ result ∧
      (∀ update ∈ updates, has update = true → value update ≤ result) ∧
      (result = start ∨ ∃ update ∈ updates, value update = result) := by
  induction updates generalizing start with
  | nil => simp
  | cons first updates ih =>
      simp only [List.foldl_cons]
      cases hfirst : has first with
      | false =>
          simp only [Bool.false_eq_true, if_false]
          obtain ⟨hstart, hall, hresult⟩ := ih start
          refine ⟨hstart, ?_, hresult.imp_right ?_⟩
          · intro update hmem hhas
            rcases List.mem_cons.mp hmem with rfl | hmem
            · rw [hfirst] at hhas
              cases hhas
            · exact hall update hmem hhas
          · rintro ⟨update, hmem, hvalue⟩
            exact ⟨update, List.mem_cons_of_mem _ hmem, hvalue⟩
      | true =>
          simp only [if_true]
          obtain ⟨hstart, hall, hresult⟩ := ih (max start (value first))
          refine ⟨le_trans (le_max_left _ _) hstart, ?_, ?_⟩
          · intro update hmem hhas
            rcases List.mem_cons.mp hmem with rfl | hmem
            · exact le_trans (le_max_right _ _) hstart
            · exact hall update hmem hhas
          · rcases hresult with hresult | ⟨update, hmem, hvalue⟩
            · rcases max_choice start (value first) with hmax | hmax
              · exact .inl (hresult.trans hmax)
              · exact .inr ⟨first, List.mem_cons_self, (hresult.trans hmax).symm⟩
            · exact .inr ⟨update, List.mem_cons_of_mem _ hmem, hvalue⟩

/-- A counter an update has is at most the greatest one. -/
theorem le_greatest {update : Update} (hmem : update ∈ updates) (hhas : has update = true) :
    value update ≤ greatest has value updates :=
  (foldl_max_spec has value updates 0).2.1 update hmem hhas

/-- The greatest counter is not negative. -/
theorem greatest_nonneg : 0 ≤ greatest has value updates :=
  (foldl_max_spec has value updates 0).1

/-- A positive greatest counter is that of an update. -/
theorem exists_eq_greatest (hpos : 0 < greatest has value updates) :
    ∃ update ∈ updates, value update = greatest has value updates := by
  rcases (foldl_max_spec has value updates 0).2.2 with hzero | hexists
  · exact absurd hzero hpos.ne'
  · exact hexists

/-- The `pts` of an update is at most `statePts`. -/
theorem pts_le_statePts {update : Update} (hmem : update ∈ updates) :
    update.pts ≤ statePts updates := by
  cases hhas : update.hasPts with
  | true => exact le_greatest hmem hhas
  | false =>
      have hzero : update.pts = 0 := by
        unfold Update.hasPts at hhas
        unfold Update.pts
        split <;> simp_all
      rw [hzero]
      exact greatest_nonneg

/-- The `qts` of an update is at most `stateQts`. -/
theorem qts_le_stateQts {update : Update} (hmem : update ∈ updates) :
    update.qts ≤ stateQts updates := by
  cases hhas : update.hasQts with
  | true => exact le_greatest hmem hhas
  | false =>
      have hzero : update.qts = 0 := by
        unfold Update.hasQts at hhas
        unfold Update.qts
        split <;> simp_all
      rw [hzero]
      exact greatest_nonneg

end Greatest

/-! ### What is found -/

section Found

variable {value count : Update → ℤ} {stored current : ℤ} {updates : List Update}

/-- Every counter is the one before it and what the update adds. -/
def Contiguous (value count : Update → ℤ) : ℤ → List Update → Prop
  | _, [] => True
  | current, update :: updates =>
      current + count update = value update ∧ Contiguous value count (value update) updates

/-- **The updates in order continue the counter** step by step. -/
theorem contiguous_inOrder :
    Contiguous value count current
      (collectInOrder value count stored current updates).inOrder := by
  induction updates generalizing current with
  | nil => trivial
  | cons update updates ih =>
      simp only [collectInOrder]
      split
      · exact ih
      · split
        · rename_i hnext
          exact ⟨hnext, ih⟩
        · trivial

/-- The updates in order are among the updates. -/
theorem inOrder_sublist :
    (collectInOrder value count stored current updates).inOrder.Sublist updates := by
  induction updates generalizing current with
  | nil => exact .slnil
  | cons update updates ih =>
      simp only [collectInOrder]
      split
      · exact ih.cons update
      · split
        · exact ih.cons_cons update
        · exact List.nil_sublist _

/-- The updates in order are ahead of the stored counter. -/
theorem stored_lt_of_mem_inOrder {update : Update}
    (hmem : update ∈ (collectInOrder value count stored current updates).inOrder) :
    stored < value update := by
  induction updates generalizing current with
  | nil => cases hmem
  | cons first updates ih =>
      simp only [collectInOrder] at hmem
      split at hmem
      · exact ih hmem
      · rename_i hahead
        split at hmem
        · rcases List.mem_cons.mp hmem with rfl | hmem
          · exact not_le.mp hahead
          · exact ih hmem
        · cases hmem

/-- Without a gap all updates ahead of the stored counter are in order. -/
theorem mem_inOrder_of_no_gap {update : Update}
    (hgap : (collectInOrder value count stored current updates).gap = false)
    (hmem : update ∈ updates) (hahead : stored < value update) :
    update ∈ (collectInOrder value count stored current updates).inOrder := by
  induction updates generalizing current with
  | nil => cases hmem
  | cons first updates ih =>
      simp only [collectInOrder] at hgap ⊢
      split at hgap
      · rename_i hexpired
        rw [if_pos hexpired]
        rcases List.mem_cons.mp hmem with rfl | hmem
        · exact absurd hexpired (not_le.mpr hahead)
        · exact ih hgap hmem
      · rename_i hfirst
        rw [if_neg hfirst]
        split at hgap
        · rename_i hnext
          rw [if_pos hnext]
          rcases List.mem_cons.mp hmem with rfl | hmem
          · exact List.mem_cons_self
          · exact List.mem_cons_of_mem _ (ih hgap hmem)
        · cases hgap

/-- The updates leave no number of `low + 1, …, high` out: each is in the range that the
`pts_count` of one of them spans below its `pts`. -/
def Covers (updates : List Update) (low high : ℤ) : Prop :=
  ∀ x, low < x → x ≤ high →
    ∃ update ∈ updates, update.pts - update.ptsCount < x ∧ x ≤ update.pts

/-- **Contiguous updates leave no number out.** -/
theorem covers_of_contiguous {low : ℤ}
    (h : Contiguous Update.pts Update.ptsCount low updates) {update : Update}
    (hmem : update ∈ updates) : Covers updates low update.pts := by
  induction updates generalizing low with
  | nil => cases hmem
  | cons first updates ih =>
      obtain ⟨hfirst, hrest⟩ := h
      intro x hlow hhigh
      by_cases hx : x ≤ first.pts
      · exact ⟨first, List.mem_cons_self, by omega, hx⟩
      · rcases List.mem_cons.mp hmem with rfl | hmem
        · exact absurd hhigh hx
        · obtain ⟨cover, hcover, hrange⟩ := ih hrest hmem x (not_le.mp hx) hhigh
          exact ⟨cover, List.mem_cons_of_mem _ hcover, hrange⟩

/-- A smaller range is covered by what covers a greater one, and more updates cover what
fewer do. -/
theorem Covers.mono {low high low' high' : ℤ} {updates' : List Update}
    (h : Covers updates low high) (hlow : low ≤ low') (hhigh : high' ≤ high)
    (hsub : updates ⊆ updates') : Covers updates' low' high' := by
  intro x hx hx'
  obtain ⟨update, hmem, hrange⟩ := h x (lt_of_le_of_lt hlow hx) (le_trans hx' hhigh)
  exact ⟨update, hsub hmem, hrange⟩

/-- Sorting changes nothing about what is there. -/
@[simp] theorem mem_sortByPts {update : Update} :
    update ∈ sortByPts updates ↔ update ∈ updates :=
  List.mem_mergeSort

@[simp] theorem mem_sortByQts {update : Update} :
    update ∈ sortByQts updates ↔ update ∈ updates :=
  List.mem_mergeSort

end Found

end Telegraph.Updates
