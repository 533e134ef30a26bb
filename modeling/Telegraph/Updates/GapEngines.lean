import Mathlib.Data.List.Perm.Subperm
import Telegraph.Lib.Chains
import Telegraph.Updates.ApplyUpdates

/-!
# The Gap Engines

`checkPtsUpdates`, `checkQtsUpdates` and `checkSeqUpdates` each apply the updates that continue
a stored counter and check again when these are applied. This module follows one actor that
nothing else interferes with: no watcher joins it, every apply succeeds, and no other actor
writes the database. What is left open is whether the timer, once started, fires before a
completion block runs.

## Main results

* `PassEngine.runAlone_spec`: **what the checks of the pts and qts paths collect**.
* `gapEngine_appliesMaximalChain`: exactly when an engine applies the maximal chain.
* `runAlone_eq_run`: a run alone is a run of the system.
* `storedCounter_nonneg`: no stored counter is ever negative.
-/

namespace Telegraph.Updates

open Chains

/-! ### Runs alone -/

/-- What a run alone ends with: the updates applied, what is stored and left, whether the timer
has fired, and whether it is still pending in an actor that waits. -/
structure AloneOutcome where
  applied : List Update
  database : DatabaseState
  updateList : List UpdatesGroup
  fired : Bool
  pending : Bool

namespace UpdatesActor

/-- An actor that has taken its groups and has not checked them yet. -/
def alone (path : UpdatesPath) (groups : List UpdatesGroup) : UpdatesActor :=
  ⟨path, true, [], groups, [], none, false⟩

/-- The checks of an actor, each after the apply of the one before it. `fires n` tells whether
the timer fires before the completion block of the `n`-th apply, if it is running then. An
actor that completes is released, and its timer with it. -/
def runAlone : ℕ → (ℕ → Bool) → UpdatesActor → DatabaseState → Option AloneOutcome
  | 0, _, _, _ => none
  | fuel + 1, fires, actor, state =>
      match actor.check state with
      | (actor, .completes) => some ⟨[], state, actor.updateList, false, false⟩
      | (actor, .waits) => some ⟨[], state, actor.updateList, false, actor.timeoutTimer⟩
      | (actor, .applies updates seq date) =>
          let fired := actor.timeoutTimer && fires 0
          let state := state.applyPts (statePts updates) date seq (stateQts updates)
          let actor := { actor with timeoutTimer := actor.timeoutTimer && !fired }
          (runAlone fuel (fun n => fires (n + 1)) actor state).map fun outcome =>
            { outcome with
              applied := updates ++ outcome.applied
              fired := fired || outcome.fired }

end UpdatesActor

/-! ### The maximal chain of an engine -/

/-- What moves a counter: an update with a `pts` or a `qts`, or a group with a `seq`. -/
structure GapItem where
  value : ℤ
  count : ℤ
  updates : List Update

/-- The counter an engine compares with. -/
def storedCounter : UpdatesPath → DatabaseState → ℤ
  | .withPts, state => state.pts
  | .withQts, state => state.qts
  | .withSeq, state => state.seq
  | .withDate, _ => 0

/-- What moves the counter of an engine, out of some groups. -/
def gapItems : UpdatesPath → List UpdatesGroup → List GapItem
  | .withPts, groups =>
      (allUpdates groups).map fun update => ⟨update.pts, update.ptsCount, [update]⟩
  | .withQts, groups => (allUpdates groups).map fun update => ⟨update.qts, 1, [update]⟩
  | .withSeq, groups =>
      groups.map fun group => ⟨group.seqEnd, group.seqEnd - group.seqStart + 1, group.updates⟩
  | .withDate, _ => []

/-- The class of the updates in the groups of an engine. -/
def InClass : UpdatesPath → Update → Prop
  | .withPts, update => update.hasPts
  | .withQts, update => update.hasQts
  | _, _ => True

instance (path : UpdatesPath) (update : Update) : Decidable (InClass path update) :=
  match path with
  | .withPts => inferInstanceAs (Decidable (update.hasPts = true))
  | .withQts => inferInstanceAs (Decidable (update.hasQts = true))
  | .withSeq => inferInstanceAs (Decidable True)
  | .withDate => inferInstanceAs (Decidable True)

/-- The groups an engine may be given: objects of its class, no `pts_count` negative, a `seq` that
does not end before it starts, and numbers that are disjoint or the same. -/
structure IsGapInput (path : UpdatesPath) (groups : List UpdatesGroup) : Prop where
  nodup : groups.Nodup
  inClass : ∀ update ∈ allUpdates groups, InClass path update
  count_nonneg : path = .withPts → ∀ update ∈ allUpdates groups, 0 ≤ update.ptsCount
  seqStart_le : path = .withSeq → ∀ group ∈ groups, group.seqStart ≤ group.seqEnd
  disjointOrEqual : DisjointOrEqual GapItem.value GapItem.count (gapItems path groups)

/-- **An engine has applied the maximal chain** from the stored counter: in order and each span
once; what lies at or below the counter is gone; and the timer that asks for the state of the
server is pending or has fired exactly if something above the chain is left. -/
structure AppliesMaximalChain (path : UpdatesPath) (state : DatabaseState)
    (groups : List UpdatesGroup) (outcome : AloneOutcome) : Prop where
  chain : ∃ chain : List GapItem,
    IsMaximalChain GapItem.value GapItem.count (storedCounter path state) (gapItems path groups)
      chain ∧
    outcome.applied = chain.flatMap GapItem.updates ∧
    storedCounter path outcome.database =
      chainEnd GapItem.value (storedCounter path state) chain
  discarded : ∀ group ∈ outcome.updateList, gapItems path [group] ≠ [] →
    ∃ item ∈ gapItems path [group], storedCounter path state < item.value
  timeout : (outcome.fired = true ∨ outcome.pending = true) ↔
    ∃ item ∈ gapItems path groups, storedCounter path outcome.database < item.value

/-- The condition: nothing disturbs the collection of the chain, and on the seq path no group
lies at or below the stored counter. -/
structure NothingDisturbs (path : UpdatesPath) (state : DatabaseState)
    (groups : List UpdatesGroup) : Prop where
  undisturbed : Undisturbed GapItem.value GapItem.count (storedCounter path state)
    (gapItems path groups)
  ahead : path = .withSeq → ∀ group ∈ groups, state.seq < group.seqEnd

/-! ### One check -/

section Check

variable {value count : Update → ℤ} {stored current c : ℤ} {updates done : List Update}
  {groups : List UpdatesGroup} {group : UpdatesGroup} {update : Update}

/-- The updates in order are a chain. -/
theorem continues_of_contiguous (h : Contiguous value count current updates) :
    Continues value count current updates := by
  induction updates generalizing current with
  | nil => trivial
  | cons update updates ih => exact ⟨h.1, ih h.2⟩

/-- The loop takes a first part of the updates ahead of the stored counter, and reports a gap
if there is a second. -/
theorem collectInOrder_split (value count : Update → ℤ) (stored current : ℤ)
    (updates : List Update) : ∃ rest,
    (updates.filter fun update => decide (stored < value update)) =
        (collectInOrder value count stored current updates).inOrder ++ rest ∧
      (collectInOrder value count stored current updates).gap = !rest.isEmpty ∧
      Stuck value count (chainEnd value current
        (collectInOrder value count stored current updates).inOrder) rest := by
  induction updates generalizing current with
  | nil => exact ⟨[], rfl, rfl, fun _ h => (by cases h)⟩
  | cons update updates ih =>
      simp only [collectInOrder]
      split
      case isTrue hexpired =>
        simp only [List.filter_cons, not_lt.mpr hexpired, decide_false, Bool.false_eq_true, if_false]
        exact ih current
      case isFalse hahead =>
        simp only [List.filter_cons, not_le.mp hahead, decide_true, if_true]
        split
        · obtain ⟨rest, hsplit, hgap, hstuck⟩ := ih (value update)
          exact ⟨rest, by simp only [hsplit, List.cons_append], hgap, hstuck⟩
        case isFalse hnext =>
          refine ⟨_, rfl, rfl, fun first hfirst => ?_⟩
          obtain rfl := Option.some.inj hfirst
          exact hnext

/-- In sorted updates all that are expired are found. -/
theorem mem_expired (hsorted : updates.Pairwise (Before value count)) :
    update ∈ (collectInOrder value count stored current updates).expired ↔
      update ∈ updates ∧ value update ≤ stored := by
  induction updates generalizing current with
  | nil => simp only [collectInOrder, List.not_mem_nil, false_and]
  | cons first updates ih =>
      have htail := List.Pairwise.of_cons hsorted
      simp only [collectInOrder]
      split
      case isTrue hexpired =>
        simp only [List.mem_cons, ih htail]
        constructor
        · rintro (rfl | hmem)
          · exact ⟨.inl rfl, hexpired⟩
          · exact ⟨.inr hmem.1, hmem.2⟩
        · rintro ⟨rfl | hmem, hle⟩
          · exact .inl rfl
          · exact .inr ⟨hmem, hle⟩
      case isFalse hahead =>
        have hnone : ¬ (update ∈ first :: updates ∧ value update ≤ stored) := by
          rintro ⟨hmem, hle⟩
          rcases List.mem_cons.mp hmem with rfl | hmem
          · exact hahead hle
          · exact hahead ((List.rel_of_pairwise_cons hsorted hmem).value_le.trans hle)
        split
        · rw [ih htail]
          exact ⟨fun hmem => ⟨List.mem_cons_of_mem _ hmem.1, hmem.2⟩,
            fun hmem => absurd hmem hnone⟩
        · exact ⟨fun hmem => absurd hmem List.not_mem_nil, fun hmem => absurd hmem hnone⟩

/-- A group that is kept has no update, or one that is not done. -/
theorem mem_dropDone : group ∈ dropDone groups done ↔
    group ∈ groups ∧ (group.updates = [] ∨ ∃ update ∈ group.updates, update ∉ done) := by
  simp only [dropDone, List.mem_filter, Bool.not_eq_true', Bool.and_eq_false_iff,
    List.any_eq_false, decide_eq_true_eq, List.isEmpty_eq_false_iff, ne_eq,
    List.filter_eq_nil_iff, not_forall, not_not]
  refine and_congr_right fun _ => ⟨?_, ?_⟩
  · rintro (hnone | ⟨update, hmem, hnot⟩)
    · cases hupdates : group.updates with
      | nil => exact .inl rfl
      | cons first rest =>
          have hfirst : first ∈ group.updates := hupdates ▸ List.mem_cons_self
          exact .inr ⟨first, List.mem_cons_self, hnone first hfirst⟩
    · exact .inr ⟨update, hmem, hnot⟩
  · rintro (hnil | ⟨update, hmem, hnot⟩)
    · exact .inl fun update hmem => absurd (hnil ▸ hmem) List.not_mem_nil
    · exact .inr ⟨update, hmem, hnot⟩

/-- Dropping lists that have no member of a kind drops no member of that kind. -/
theorem filter_flatMap_filter {α β : Type*} {l : List α} {f : α → List β} {p : α → Bool}
    {q : β → Bool} (h : ∀ a ∈ l, p a = false → (f a).filter q = []) :
    ((l.filter p).flatMap f).filter q = (l.flatMap f).filter q := by
  induction l with
  | nil => rfl
  | cons a l ih =>
      have htail := ih fun b hb => h b (List.mem_cons_of_mem _ hb)
      rw [List.flatMap_cons, List.filter_append, ← htail]
      cases hp : p a with
      | true => rw [List.filter_cons, hp, if_pos rfl, List.flatMap_cons, List.filter_append]
      | false =>
          rw [List.filter_cons, hp, if_neg Bool.false_ne_true, h a List.mem_cons_self hp,
            List.nil_append]

/-- Dropping what is done up to a counter drops no update above it. -/
theorem filter_allUpdates_dropDone (hdone : ∀ update ∈ done, value update ≤ c) :
    ((allUpdates (dropDone groups done)).filter fun update => decide (c < value update)) =
      (allUpdates groups).filter fun update => decide (c < value update) := by
  refine filter_flatMap_filter fun group hgroup hdropped => ?_
  refine List.filter_eq_nil_iff.mpr fun update hmem habove => ?_
  have hnot : update ∉ done := fun hmem' =>
    absurd (hdone update hmem') (not_le_of_gt (of_decide_eq_true habove))
  have hkept := (List.mem_filter.mp (mem_dropDone.mpr ⟨hgroup, .inr ⟨update, hmem, hnot⟩⟩)).2
  exact Bool.false_ne_true (hdropped.symm.trans hkept)

end Check

/-! ### The engines that look at single updates -/

/-- What `checkPtsUpdates` and `checkQtsUpdates` have in common. -/
structure PassEngine where
  path : UpdatesPath
  value : Update → ℤ
  count : Update → ℤ
  counter : DatabaseState → ℤ
  sort : List Update → List Update
  Valid : Update → Prop
  perm_sort : ∀ updates, (sort updates).Perm updates
  sorted_sort : ∀ updates, (sort updates).Pairwise (Before value count)
  count_nonneg : ∀ update, Valid update → 0 ≤ count update
  check_nil : ∀ actor state, UpdatesActor.path actor = path → actor.updateList = [] →
    actor.check state = (actor, .completes)
  check_eq : ∀ actor state, UpdatesActor.path actor = path → actor.updateList ≠ [] →
    actor.check state = actor.takeFound (collectInOrder value count (counter state)
      (counter state) (sort (allUpdates actor.updateList)))
  counter_applyPts : ∀ state updates, updates ≠ [] →
    (∀ update ∈ updates, Valid update ∧ counter state < value update) →
    Continues value count (counter state) updates →
    counter (state.applyPts (statePts updates) 0 0 (stateQts updates)) =
      chainEnd value (counter state) updates

/-- What a run alone makes of some updates: it collects them in passes, and the timer is a sign
of a gap. -/
structure PassEngine.Outcome (e : PassEngine) (timer : Bool) (state : DatabaseState)
    (updates : List Update) (fires : ℕ → Bool) (outcome : AloneOutcome) (l : List Update)
    (gap : Bool) : Prop where
  perm : l.Perm (updates.filter fun update => e.counter state < e.value update)
  sorted : l.Pairwise (Before e.value e.count)
  collects : Collects e.value e.count (e.counter state) l outcome.applied gap
  counter : e.counter outcome.database = chainEnd e.value (e.counter state) outcome.applied
  counter_le : e.counter state ≤ e.counter outcome.database
  quiet : outcome.fired = true ∨ outcome.pending = true → timer = true ∨ gap = true
  alarm : (∃ update ∈ updates, e.counter outcome.database < e.value update) →
    outcome.fired = true ∨ outcome.pending = true
  timely : (∀ n, fires n = true) → gap = true → outcome.fired = true ∨ outcome.pending = true
  discarded : ∀ group ∈ outcome.updateList, group.updates ≠ [] →
    ∃ update ∈ group.updates, e.counter outcome.database < e.value update

namespace PassEngine

variable {e : PassEngine} {actor : UpdatesActor} {state : DatabaseState} {fires : ℕ → Bool}
  {found : FoundUpdates} {rest : List Update}

/-- A check that takes nothing ends the run. -/
theorem runAlone_stuck {n : ℕ} (hpath : actor.path = e.path) (hne : actor.updateList ≠ [])
    (hfound : found = collectInOrder e.value e.count (e.counter state) (e.counter state)
      (e.sort (allUpdates actor.updateList)))
    (hrest : ((e.sort (allUpdates actor.updateList)).filter fun update =>
      decide (e.counter state < e.value update)) = found.inOrder ++ rest)
    (hgap : found.gap = !rest.isEmpty)
    (hstuck : Stuck e.value e.count (chainEnd e.value (e.counter state) found.inOrder) rest)
    (hnone : found.inOrder = []) :
    ∃ outcome l gap, actor.runAlone (n + 1) fires state = some outcome ∧
      e.Outcome actor.timeoutTimer state (allUpdates actor.updateList) fires outcome l gap := by
  have hmemSort : ∀ update, update ∈ e.sort (allUpdates actor.updateList) ↔
      update ∈ allUpdates actor.updateList := fun update => (e.perm_sort _).mem_iff
  have hexpired : ∀ update, update ∈ found.expired ↔
      update ∈ allUpdates actor.updateList ∧ e.value update ≤ e.counter state := fun update => by
    rw [hfound, mem_expired (e.sorted_sort _), hmemSort]
  rw [hnone, List.nil_append] at hrest
  rw [hnone] at hstuck
  have hrestMem : ∀ update, update ∈ rest ↔
      update ∈ allUpdates actor.updateList ∧ e.counter state < e.value update := fun update => by
    rw [← hrest, List.mem_filter, decide_eq_true_eq, hmemSort]
  have hkept : rest ≠ [] → dropDone actor.updateList found.expired ≠ [] := by
    intro hne
    obtain ⟨update, hmem⟩ := List.exists_mem_of_ne_nil _ hne
    obtain ⟨hmem, habove⟩ := (hrestMem update).mp hmem
    obtain ⟨group, hgroup, hupdate⟩ := List.mem_flatMap.mp hmem
    refine List.ne_nil_of_mem (mem_dropDone.mpr ⟨hgroup, .inr ⟨update, hupdate, fun hmem => ?_⟩⟩)
    exact absurd ((hexpired update).mp hmem).2 (not_le_of_gt habove)
  have hdiscarded : ∀ group ∈ dropDone actor.updateList found.expired, group.updates ≠ [] →
      ∃ update ∈ group.updates, e.counter state < e.value update := by
    intro group hgroup hupdates
    obtain ⟨hgroup, hnil | ⟨update, hmem, hnot⟩⟩ := mem_dropDone.mp hgroup
    · exact absurd hnil hupdates
    · refine ⟨update, hmem, not_le.mp fun hle => hnot ((hexpired update).mpr ⟨?_, hle⟩)⟩
      exact List.mem_flatMap.mpr ⟨group, hgroup, hmem⟩
  have hcheck : actor.check state = ({ actor with
      timeoutTimer := actor.timeoutTimer || found.gap
      updateList := dropDone actor.updateList found.expired },
      if dropDone actor.updateList found.expired = [] then .completes else .waits) := by
    rw [e.check_eq actor state hpath hne, ← hfound]
    simp only [UpdatesActor.takeFound, hnone, ne_eq, not_true_eq_false, if_false]
  have hperm : rest.Perm ((allUpdates actor.updateList).filter fun update =>
      e.counter state < e.value update) := by
    rw [← hrest]
    exact (e.perm_sort _).filter _
  have hsorted : rest.Pairwise (Before e.value e.count) := by
    rw [← hrest]
    exact (e.sorted_sort _).filter _
  have hfalse : rest ≠ [] → found.gap = true := fun hne => by
    rw [hgap, Bool.not_eq_true', List.isEmpty_eq_false_iff]
    exact hne
  have hnonempty : (∃ update ∈ allUpdates actor.updateList,
      e.counter state < e.value update) → rest ≠ [] := by
    rintro ⟨update, hmem, habove⟩
    exact List.ne_nil_of_mem ((hrestMem update).mpr ⟨hmem, habove⟩)
  by_cases hempty : dropDone actor.updateList found.expired = []
  · have hrestNil : rest = [] := by
      by_contra hne
      exact hkept hne hempty
    refine ⟨⟨[], state, [], false, false⟩, rest, _, ?_, hperm, hsorted, .stop hstuck, rfl,
      le_refl _, ?_, ?_, ?_, ?_⟩
    · simp only [UpdatesActor.runAlone, hcheck, hempty, if_true]
    · rintro (h | h)
      all_goals cases h
    · exact fun habove => absurd hrestNil (hnonempty habove)
    · intro _ hgap'
      rw [hrestNil] at hgap'
      cases hgap'
    · exact fun group hgroup => absurd hgroup List.not_mem_nil
  · refine ⟨⟨[], state, dropDone actor.updateList found.expired, false,
      actor.timeoutTimer || found.gap⟩, rest, _, ?_, hperm, hsorted, .stop hstuck, rfl,
      le_refl _, ?_, ?_, ?_, hdiscarded⟩
    · simp only [UpdatesActor.runAlone, hcheck, hempty, if_false]
    · rintro (h | h)
      · cases h
      · rw [← hgap]
        exact Bool.or_eq_true _ _ ▸ h
    · intro habove
      rw [hfalse (hnonempty habove), Bool.or_true]
      exact .inr rfl
    · intro _ hgap'
      rw [hgap, hgap', Bool.or_true]
      exact .inr rfl

/-- What a run alone of `n` more checks makes of an actor, from any state. -/
def EndsWithin (e : PassEngine) (n : ℕ) : Prop :=
  ∀ (actor : UpdatesActor) (state : DatabaseState) (fires : ℕ → Bool), actor.path = e.path →
    (∀ update ∈ allUpdates actor.updateList, e.Valid update) →
    ((allUpdates actor.updateList).filter fun update =>
      decide (e.counter state < e.value update)).length ≤ n →
    ∃ outcome l gap, actor.runAlone (n + 1) fires state = some outcome ∧
      e.Outcome actor.timeoutTimer state (allUpdates actor.updateList) fires outcome l gap

/-- A check that takes updates is followed by one that has fewer ahead of the counter. -/
theorem runAlone_pass {n : ℕ} (ih : e.EndsWithin n) (hpath : actor.path = e.path)
    (hvalid : ∀ update ∈ allUpdates actor.updateList, e.Valid update)
    (hne : actor.updateList ≠ [])
    (hn : ((allUpdates actor.updateList).filter fun update =>
      decide (e.counter state < e.value update)).length ≤ n + 1)
    (hfound : found = collectInOrder e.value e.count (e.counter state) (e.counter state)
      (e.sort (allUpdates actor.updateList)))
    (hrest : ((e.sort (allUpdates actor.updateList)).filter fun update =>
      decide (e.counter state < e.value update)) = found.inOrder ++ rest)
    (hgap : found.gap = !rest.isEmpty)
    (hstuck : Stuck e.value e.count (chainEnd e.value (e.counter state) found.inOrder) rest)
    (hsome : found.inOrder ≠ []) :
    ∃ outcome l gap, actor.runAlone (n + 2) fires state = some outcome ∧
      e.Outcome actor.timeoutTimer state (allUpdates actor.updateList) fires outcome l gap := by
  have hmemSort : ∀ update, update ∈ e.sort (allUpdates actor.updateList) ↔
      update ∈ allUpdates actor.updateList := fun update => (e.perm_sort _).mem_iff
  have hexpired : ∀ update, update ∈ found.expired ↔
      update ∈ allUpdates actor.updateList ∧ e.value update ≤ e.counter state := fun update => by
    rw [hfound, mem_expired (e.sorted_sort _), hmemSort]
  have hahead : ∀ update ∈ found.inOrder ++ rest,
      update ∈ allUpdates actor.updateList ∧ e.counter state < e.value update := by
    intro update hmem
    rw [← hrest, List.mem_filter, decide_eq_true_eq, hmemSort] at hmem
    exact hmem
  have hinOrder : ∀ update ∈ found.inOrder,
      e.Valid update ∧ e.counter state < e.value update := fun update hmem =>
    have h := hahead update (List.mem_append_left _ hmem)
    ⟨hvalid update h.1, h.2⟩
  have hcontinues : Continues e.value e.count (e.counter state) found.inOrder := by
    rw [hfound]
    exact continues_of_contiguous contiguous_inOrder
  have hbounds := hcontinues.bounds fun update hmem => e.count_nonneg update (hinOrder update hmem).1
  have hperm : (found.inOrder ++ rest).Perm ((allUpdates actor.updateList).filter fun update =>
      e.counter state < e.value update) := by
    rw [← hrest]
    exact (e.perm_sort _).filter _
  have hsorted : (found.inOrder ++ rest).Pairwise (Before e.value e.count) := by
    rw [← hrest]
    exact (e.sorted_sort _).filter _
  -- the state after the apply, and the actor that checks again
  have hcounter := e.counter_applyPts state found.inOrder hsome hinOrder hcontinues
  have hleft : ((allUpdates (dropDone (dropDone actor.updateList found.expired)
      found.inOrder)).filter fun update =>
        decide (chainEnd e.value (e.counter state) found.inOrder < e.value update)) =
      (allUpdates actor.updateList).filter fun update =>
        decide (chainEnd e.value (e.counter state) found.inOrder < e.value update) := by
    rw [filter_allUpdates_dropDone fun update hmem => (hbounds.2 update hmem).2,
      filter_allUpdates_dropDone fun update hmem =>
        ((hexpired update).mp hmem).2.trans hbounds.1]
  have hfilter : ((allUpdates actor.updateList).filter fun update =>
        decide (chainEnd e.value (e.counter state) found.inOrder < e.value update)).Perm
      ((found.inOrder ++ rest).filter fun update =>
        decide (chainEnd e.value (e.counter state) found.inOrder < e.value update)) := by
    refine List.Perm.trans (.of_eq ?_) (hperm.filter _).symm
    rw [List.filter_filter]
    refine List.filter_congr fun update _ => ?_
    symm
    simp only [Bool.and_eq_left_iff_imp, decide_eq_true_eq]
    exact fun hlt => lt_of_le_of_lt hbounds.1 hlt
  have hlength : ((allUpdates (dropDone (dropDone actor.updateList found.expired)
      found.inOrder)).filter fun update =>
        decide (chainEnd e.value (e.counter state) found.inOrder < e.value update)).length ≤ n := by
    have hnone : (found.inOrder.filter fun update =>
        decide (chainEnd e.value (e.counter state) found.inOrder < e.value update)) = [] :=
      List.filter_eq_nil_iff.mpr fun update hmem habove =>
        absurd (hbounds.2 update hmem).2 (not_le_of_gt (of_decide_eq_true habove))
    have hpos := List.length_pos_of_ne_nil hsome
    have hle : (rest.filter fun update => decide
        (chainEnd e.value (e.counter state) found.inOrder < e.value update)).length ≤
        rest.length := List.length_filter_le _ _
    have htotal := hperm.length_eq
    rw [List.length_append] at htotal
    rw [hleft, hfilter.length_eq, List.filter_append, hnone, List.nil_append]
    omega
  have hcheck : actor.check state = ({ actor with
      timeoutTimer := actor.timeoutTimer || found.gap
      updateList := dropDone (dropDone actor.updateList found.expired) found.inOrder },
      .applies found.inOrder 0 0) := by
    rw [e.check_eq actor state hpath hne, ← hfound]
    simp only [UpdatesActor.takeFound, ne_eq, hsome, not_false_eq_true, if_true]
  have hsub : ∀ update ∈ allUpdates (dropDone (dropDone actor.updateList found.expired)
      found.inOrder), update ∈ allUpdates actor.updateList := by
    intro update hmem
    obtain ⟨group, hgroup, hmem⟩ := List.mem_flatMap.mp hmem
    exact List.mem_flatMap.mpr
      ⟨group, (mem_dropDone.mp (mem_dropDone.mp hgroup).1).1, hmem⟩
  obtain ⟨outcome, l, gap, hrun, ho⟩ := ih
    { actor with
      timeoutTimer := (actor.timeoutTimer || found.gap) &&
        !((actor.timeoutTimer || found.gap) && fires 0)
      updateList := dropDone (dropDone actor.updateList found.expired) found.inOrder }
    (state.applyPts (statePts found.inOrder) 0 0 (stateQts found.inOrder))
    (fun n => fires (n + 1)) hpath (fun update hmem => hvalid update (hsub update hmem))
    (by rw [hcounter]; exact hlength)
  have hlperm : l.Perm ((found.inOrder ++ rest).filter fun update =>
      decide (chainEnd e.value (e.counter state) found.inOrder < e.value update)) := by
    refine List.Perm.trans ?_ hfilter
    rw [← hleft, ← hcounter]
    exact ho.perm
  refine ⟨{ outcome with
      applied := found.inOrder ++ outcome.applied
      fired := ((actor.timeoutTimer || found.gap) && fires 0) || outcome.fired },
    found.inOrder ++ rest, !rest.isEmpty || gap, ?_, hperm, hsorted, ?_, ?_, ?_, ?_, ?_,
    ?_, ho.discarded⟩
  · rw [UpdatesActor.runAlone, hcheck]
    simp only [hrun, Option.map_some]
  · exact .pass hsome hcontinues hstuck hlperm ho.sorted (hcounter ▸ ho.collects)
  · rw [chainEnd_append, ← hcounter]
    exact ho.counter
  · exact hbounds.1.trans (hcounter ▸ ho.counter_le)
  · have hquiet := ho.quiet
    rw [hgap] at hquiet ⊢
    revert hquiet
    cases actor.timeoutTimer
    all_goals cases rest.isEmpty
    all_goals cases gap
    all_goals simp
  · rintro ⟨update, hmem, habove⟩
    have hmem' : update ∈ allUpdates (dropDone (dropDone actor.updateList found.expired)
        found.inOrder) := by
      have hlt : chainEnd e.value (e.counter state) found.inOrder < e.value update :=
        lt_of_le_of_lt (hcounter ▸ ho.counter_le) habove
      have hmemFilter : update ∈ (allUpdates actor.updateList).filter fun update =>
          decide (chainEnd e.value (e.counter state) found.inOrder < e.value update) :=
        List.mem_filter.mpr ⟨hmem, decide_eq_true hlt⟩
      rw [← hleft] at hmemFilter
      exact (List.mem_filter.mp hmemFilter).1
    rcases ho.alarm ⟨update, hmem', habove⟩ with hfired | hpending
    · exact .inl (by simp only [hfired, Bool.or_true])
    · exact .inr hpending
  · intro hall hgap'
    rw [hall 0, Bool.and_true, hgap]
    rcases Bool.or_eq_true _ _ ▸ hgap' with hrestGap | hlater
    · exact .inl (by simp only [hrestGap, Bool.or_true, Bool.true_or])
    · rcases ho.timely (fun n => hall (n + 1)) hlater with hfired | hpending
      · exact .inl (by simp only [hfired, Bool.or_true])
      · exact .inr hpending

/-- An actor without groups completes. -/
theorem runAlone_nil {n : ℕ} (hpath : actor.path = e.path) (hnil : actor.updateList = []) :
    ∃ outcome l gap, actor.runAlone (n + 1) fires state = some outcome ∧
      e.Outcome actor.timeoutTimer state (allUpdates actor.updateList) fires outcome l gap := by
  refine ⟨⟨[], state, [], false, false⟩, [], _, ?_, ?_, .nil, .stop fun _ h => (by cases h), rfl,
    le_refl _, ?_, ?_, ?_, ?_⟩
  · simp only [UpdatesActor.runAlone, e.check_nil actor state hpath hnil, hnil]
  · rw [hnil]
    exact .nil
  · rintro (h | h)
    all_goals cases h
  · rintro ⟨update, hmem, -⟩
    rw [hnil] at hmem
    exact absurd hmem List.not_mem_nil
  · rintro - h
    cases h
  · exact fun group hgroup => absurd hgroup List.not_mem_nil

/-- **What the checks of an actor collect**: there are at most as many applies as updates ahead
of the counter. -/
theorem runAlone_spec (n : ℕ) : e.EndsWithin n := by
  induction n with
  | zero =>
      intro actor state fires hpath hvalid hn
      by_cases hnil : actor.updateList = []
      · exact runAlone_nil hpath hnil
      · obtain ⟨rest, hrest, hgap, hstuck⟩ := collectInOrder_split e.value e.count
          (e.counter state) (e.counter state) (e.sort (allUpdates actor.updateList))
        refine runAlone_stuck hpath hnil rfl hrest hgap hstuck ?_
        have hlength := ((e.perm_sort (allUpdates actor.updateList)).filter fun update =>
          decide (e.counter state < e.value update)).length_eq
        rw [hrest, List.length_append] at hlength
        exact List.eq_nil_of_length_eq_zero (by omega)
  | succ n ih =>
      intro actor state fires hpath hvalid hn
      by_cases hnil : actor.updateList = []
      · exact runAlone_nil hpath hnil
      · obtain ⟨rest, hrest, hgap, hstuck⟩ := collectInOrder_split e.value e.count
          (e.counter state) (e.counter state) (e.sort (allUpdates actor.updateList))
        by_cases hnone : (collectInOrder e.value e.count (e.counter state) (e.counter state)
            (e.sort (allUpdates actor.updateList))).inOrder = []
        · exact runAlone_stuck hpath hnil rfl hrest hgap hstuck hnone
        · exact runAlone_pass ih hpath hvalid hnil hn rfl hrest hgap hstuck hnone

end PassEngine

/-! ### The pts and the qts path -/

section Instances

variable {updates : List Update}

/-- The greatest counter of a chain of updates that all have one is its end. -/
theorem greatest_eq_chainEnd {has : Update → Bool} {value count : Update → ℤ} {s : ℤ}
    (hne : updates ≠ []) (hhas : ∀ update ∈ updates, has update = true)
    (hcount : ∀ update ∈ updates, 0 ≤ count update) (hs : 0 ≤ s)
    (habove : ∀ update ∈ updates, s < value update)
    (h : Continues value count s updates) :
    greatest has value updates = chainEnd value s updates ∧ 0 < greatest has value updates := by
  obtain ⟨last, hlast, heq⟩ := exists_value_eq_chainEnd _ s hne
  have hle : value last ≤ greatest has value updates := le_greatest hlast (hhas last hlast)
  have hpos : 0 < greatest has value updates :=
    lt_of_lt_of_le (lt_of_le_of_lt hs (habove last hlast)) hle
  refine ⟨le_antisymm ?_ (heq ▸ hle), hpos⟩
  obtain ⟨update, hmem, hvalue⟩ := exists_eq_greatest hpos
  exact hvalue ▸ ((h.bounds hcount).2 update hmem).2

/-- The order of `checkPtsUpdates` is the order of the passes. -/
theorem pairwise_sortByPts (updates : List Update) :
    (sortByPts updates).Pairwise (Before Update.pts Update.ptsCount) := by
  have hle : ∀ update1 update2 : Update,
      (if update1.pts = update2.pts then decide (update1.ptsCount ≥ update2.ptsCount)
        else decide (update1.pts < update2.pts)) = true ↔
      Before Update.pts Update.ptsCount update1 update2 := by
    intro update1 update2
    simp only [Before]
    split
    · simp only [decide_eq_true_eq]
      omega
    · simp only [decide_eq_true_eq]
      omega
  refine (List.pairwise_mergeSort ?_ ?_ updates).imp fun h => (hle _ _).mp h
  · intro update1 update2 update3 h12 h23
    rw [hle] at h12 h23 ⊢
    simp only [Before] at h12 h23 ⊢
    omega
  · intro update1 update2
    rw [Bool.or_eq_true, hle, hle]
    simp only [Before]
    omega

/-- The order of `checkQtsUpdates` is the order of the passes. -/
theorem pairwise_sortByQts (updates : List Update) :
    (sortByQts updates).Pairwise (Before Update.qts fun _ => 1) := by
  refine (List.pairwise_mergeSort ?_ ?_ updates).imp fun h => ?_
  · intro update1 update2 update3 h12 h23
    exact decide_eq_true ((of_decide_eq_true h12).trans (of_decide_eq_true h23))
  · intro update1 update2
    rw [Bool.or_eq_true, decide_eq_true_eq, decide_eq_true_eq]
    exact le_total _ _
  · rcases (of_decide_eq_true h).lt_or_eq with hlt | heq
    · exact .inl hlt
    · exact .inr ⟨heq, le_refl _⟩

/-- `checkPtsUpdates`. -/
def ptsEngine : PassEngine where
  path := .withPts
  value := Update.pts
  count := Update.ptsCount
  counter := DatabaseState.pts
  sort := sortByPts
  Valid update := update.hasPts = true ∧ 0 ≤ update.ptsCount
  perm_sort := fun _ => List.mergeSort_perm _ _
  sorted_sort := pairwise_sortByPts
  count_nonneg := fun _ h => h.2
  check_nil := by
    intro actor state hpath hnil
    simp only [UpdatesActor.check, hpath, UpdatesActor.checkPtsUpdates, hnil, if_true]
  check_eq := by
    intro actor state hpath hne
    simp only [UpdatesActor.check, hpath, UpdatesActor.checkPtsUpdates, hne, if_false, collectPts]
  counter_applyPts := by
    intro state updates hne hvalid hcontinues
    obtain ⟨heq, hpos⟩ : statePts updates = chainEnd Update.pts state.pts updates ∧
        0 < statePts updates :=
      greatest_eq_chainEnd hne (fun update hmem => (hvalid update hmem).1.1)
        (fun update hmem => (hvalid update hmem).1.2) state.pts_nonneg
        (fun update hmem => (hvalid update hmem).2) hcontinues
    simp only [DatabaseState.applyPts, gt_iff_lt, hpos, if_true]
    exact heq

/-- `checkQtsUpdates`. -/
def qtsEngine : PassEngine where
  path := .withQts
  value := Update.qts
  count := fun _ => 1
  counter := DatabaseState.qts
  sort := sortByQts
  Valid update := update.hasQts = true
  perm_sort := fun _ => List.mergeSort_perm _ _
  sorted_sort := pairwise_sortByQts
  count_nonneg := fun _ _ => zero_le_one
  check_nil := by
    intro actor state hpath hnil
    simp only [UpdatesActor.check, hpath, UpdatesActor.checkQtsUpdates, hnil, if_true]
  check_eq := by
    intro actor state hpath hne
    simp only [UpdatesActor.check, hpath, UpdatesActor.checkQtsUpdates, hne, if_false, collectQts]
  counter_applyPts := by
    intro state updates hne hvalid hcontinues
    obtain ⟨heq, hpos⟩ : stateQts updates = chainEnd Update.qts state.qts updates ∧
        0 < stateQts updates :=
      greatest_eq_chainEnd hne (fun update hmem => (hvalid update hmem).1)
        (fun _ _ => zero_le_one) state.qts_nonneg
        (fun update hmem => (hvalid update hmem).2) hcontinues
    simp only [DatabaseState.applyPts, gt_iff_lt, hpos, if_true]
    exact heq

end Instances

/-! ### When the maximal chain is applied -/

/-- More checks than are needed change nothing. -/
theorem runAlone_of_le {n m : ℕ} (hle : n ≤ m) {actor : UpdatesActor} {state : DatabaseState}
    {fires : ℕ → Bool} {outcome : AloneOutcome} (h : actor.runAlone n fires state = some outcome) :
    actor.runAlone m fires state = some outcome := by
  induction n generalizing m actor state fires outcome with
  | zero => cases h
  | succ n ih =>
      obtain ⟨m, rfl⟩ := Nat.exists_eq_add_of_lt (Nat.lt_of_succ_le hle)
      rw [UpdatesActor.runAlone] at h ⊢
      split at h
      · exact h
      · exact h
      · obtain ⟨outcome', hrun, heq'⟩ := Option.map_eq_some_iff.mp h
        exact Option.map_eq_some_iff.mpr ⟨outcome', ih (by omega) hrun, heq'⟩

namespace PassEngine

variable {e : PassEngine} {state : DatabaseState} {groups : List UpdatesGroup}

/-- An update as what moves the counter. -/
def item (e : PassEngine) (update : Update) : GapItem :=
  ⟨e.value update, e.count update, [update]⟩

theorem item_injective (e : PassEngine) : Function.Injective e.item := by
  intro update update' heq
  exact List.singleton_inj.mp (congrArg GapItem.updates heq)

/-- Items that each hold one update are those of their updates. -/
theorem map_item_flatMap {chain : List GapItem} {updates : List Update}
    (h : ∀ i ∈ chain, i ∈ updates.map e.item) :
    (chain.flatMap GapItem.updates).map e.item = chain := by
  induction chain with
  | nil => rfl
  | cons i chain ih =>
      obtain ⟨update, -, rfl⟩ := List.mem_map.mp (h i List.mem_cons_self)
      have htail := ih fun j hj => h j (List.mem_cons_of_mem _ hj)
      rw [List.flatMap_cons, List.map_append, htail]
      rfl

/-- And the updates of the items are the updates. -/
theorem flatMap_map_item (updates : List Update) :
    (updates.map e.item).flatMap GapItem.updates = updates := by
  rw [List.flatMap_map]
  exact List.flatMap_singleton' updates

/-- **The engines that look at single updates** apply the maximal chain exactly if nothing
disturbs it. -/
theorem appliesMaximalChain_iff (hcounter : storedCounter e.path = e.counter)
    (hitems : ∀ groups, gapItems e.path groups = (allUpdates groups).map e.item)
    (hseq : e.path ≠ .withSeq)
    (hvalid : ∀ update ∈ allUpdates groups, e.Valid update)
    (hdisjoint : DisjointOrEqual GapItem.value GapItem.count (gapItems e.path groups)) :
    (∀ fires, ∃ fuel outcome,
        (UpdatesActor.alone e.path groups).runAlone fuel fires state = some outcome ∧
        AppliesMaximalChain e.path state groups outcome) ↔
      NothingDisturbs e.path state groups := by
  have hspec := fun fires => e.runAlone_spec (allUpdates groups).length
    (UpdatesActor.alone e.path groups) state fires rfl hvalid (List.length_filter_le _ _)
  have hcount := fun update hmem => e.count_nonneg update (hvalid update hmem)
  have hdisjoint' : DisjointOrEqual e.value e.count (allUpdates groups) := by
    rwa [hitems, disjointOrEqual_map] at hdisjoint
  have hundisturbed : Undisturbed GapItem.value GapItem.count (storedCounter e.path state)
      (gapItems e.path groups) ↔ Undisturbed e.value e.count (e.counter state)
        (allUpdates groups) := by
    rw [hitems, hcounter, undisturbed_map]
    exact Iff.rfl
  have habove : ∀ c, (∃ i ∈ gapItems e.path groups, c < i.value) ↔
      ∃ update ∈ allUpdates groups, c < e.value update := fun c => by
    simp only [hitems, List.mem_map, exists_exists_and_eq_and, item]
  constructor
  · intro h
    obtain ⟨fuel, outcome, hrun, hchain⟩ := h fun _ => true
    obtain ⟨outcome', l, gap, hrun', ho⟩ := hspec fun _ => true
    obtain rfl : outcome = outcome' := Option.some.inj
      ((runAlone_of_le (Nat.le_max_left _ _) hrun).symm.trans
        (runAlone_of_le (Nat.le_max_right _ _) hrun'))
    refine ⟨hundisturbed.mpr ?_, fun heq => absurd heq hseq⟩
    obtain ⟨chain, hmaximal, happlied, -⟩ := hchain.chain
    have hchainEq : outcome.applied.map e.item = chain := by
      rw [happlied]
      exact map_item_flatMap fun i hi => hitems groups ▸ hmaximal.mem i hi
    rw [← hchainEq, hitems, hcounter] at hmaximal
    refine (ho.collects.isMaximalChain_iff ho.sorted ho.perm hcount hdisjoint').mp
      ⟨IsMaximalChain.of_map (f := e.item) e.item_injective hmaximal, fun hgap => ?_⟩
    have hleft := (habove _).mp (hchain.timeout.mp (ho.timely (fun _ => rfl) hgap))
    rwa [hcounter, ho.counter] at hleft
  · intro h fires
    obtain ⟨outcome, l, gap, hrun, ho⟩ := hspec fires
    obtain ⟨hmaximal, halarm⟩ := (ho.collects.isMaximalChain_iff ho.sorted ho.perm hcount
      hdisjoint').mpr (hundisturbed.mp h.undisturbed)
    refine ⟨_, outcome, hrun, ⟨outcome.applied.map e.item, ?_, ?_, ?_⟩, ?_, ?_⟩
    · rw [hitems, hcounter]
      exact IsMaximalChain.map (f := e.item) hmaximal
    · exact (flatMap_map_item _).symm
    · rw [hcounter, ho.counter, chainEnd_map]
      rfl
    · intro group hgroup hne
      rw [hitems, allUpdates, List.flatMap_singleton] at hne ⊢
      obtain ⟨update, hmem, hlt⟩ := ho.discarded group hgroup fun hnil => hne (hnil ▸ rfl)
      rw [hcounter]
      exact ⟨e.item update, List.mem_map_of_mem hmem, lt_of_le_of_lt ho.counter_le hlt⟩
    · rw [habove, hcounter]
      constructor
      · intro htimer
        rcases ho.quiet htimer with htimer | hgap
        · cases htimer
        · rw [ho.counter]
          exact halarm hgap
      · exact ho.alarm

end PassEngine

/-! ### The seq path -/

section Seq

variable {current : ℤ} {groups : List UpdatesGroup} {group : UpdatesGroup}

/-- How far a group brings the `seq`. -/
def seqCount (group : UpdatesGroup) : ℤ :=
  group.seqEnd - group.seqStart + 1

/-- The groups in order are a chain. -/
theorem continues_collectSeqLoop :
    Continues UpdatesGroup.seqEnd seqCount current (collectSeqLoop current groups).1 := by
  induction groups generalizing current with
  | nil => trivial
  | cons group groups ih =>
      simp only [collectSeqLoop]
      split
      case isTrue hnext =>
        refine ⟨?_, ih⟩
        simp only [seqCount]
        omega
      case isFalse => exact ih

theorem collectSeqLoop_sublist : (collectSeqLoop current groups).1.Sublist groups := by
  induction groups generalizing current with
  | nil => exact .slnil
  | cons group groups ih =>
      simp only [collectSeqLoop]
      split
      · exact ih.cons_cons group
      · exact ih.cons group

/-- There is a gap exactly if a group is left. -/
theorem collectSeqLoop_gap (hnodup : groups.Nodup) :
    (collectSeqLoop current groups).2 = true ↔
      ∃ group ∈ groups, group ∉ (collectSeqLoop current groups).1 := by
  induction groups generalizing current with
  | nil => simp only [collectSeqLoop, Bool.false_eq_true, List.not_mem_nil, false_and,
      exists_false]
  | cons first groups ih =>
      obtain ⟨hnot, hnodup⟩ := List.nodup_cons.mp hnodup
      simp only [collectSeqLoop]
      split
      · rw [ih hnodup]
        constructor
        · rintro ⟨group, hmem, hleft⟩
          refine ⟨group, List.mem_cons_of_mem _ hmem, fun hmem' => ?_⟩
          rcases List.mem_cons.mp hmem' with rfl | hmem'
          · exact hnot hmem
          · exact hleft hmem'
        · rintro ⟨group, hmem, hleft⟩
          rcases List.mem_cons.mp hmem with rfl | hmem
          · exact absurd List.mem_cons_self hleft
          · exact ⟨group, hmem, fun hmem' => hleft (List.mem_cons_of_mem _ hmem')⟩
      · simp only [true_iff]
        exact ⟨first, List.mem_cons_self, fun hmem => hnot (collectSeqLoop_sublist.subset hmem)⟩

/-- Whatever begins where the groups in order have been is among them, but for a repetition. -/
theorem collectSeqLoop_maximal
    (hsorted : groups.Pairwise fun group1 group2 => group1.seqEnd ≤ group2.seqEnd)
    (hstart : ∀ group ∈ groups, group.seqStart ≤ group.seqEnd)
    (hdisjoint : DisjointOrEqual UpdatesGroup.seqEnd seqCount groups) (hgroup : group ∈ groups)
    (hnext : group.seqEnd - seqCount group = current ∨
      ∃ other ∈ (collectSeqLoop current groups).1,
        other.seqEnd = group.seqEnd - seqCount group) :
    ∃ other ∈ (collectSeqLoop current groups).1,
      other.seqEnd = group.seqEnd ∧ seqCount other = seqCount group := by
  induction groups generalizing current with
  | nil => exact absurd hgroup List.not_mem_nil
  | cons first groups ih =>
      have htail := fun c => @ih c (List.Pairwise.of_cons hsorted)
        (fun other hmem => hstart other (List.mem_cons_of_mem _ hmem))
        (fun other hmem other' hmem' => hdisjoint other (List.mem_cons_of_mem _ hmem) other'
          (List.mem_cons_of_mem _ hmem'))
      have hfirst := hstart first List.mem_cons_self
      have hgroupStart := hstart group hgroup
      simp only [collectSeqLoop] at hnext ⊢
      split at hnext
      case isTrue hhead =>
        rw [if_pos hhead]
        simp only [List.mem_cons, exists_eq_or_imp] at hnext ⊢
        rcases List.mem_cons.mp hgroup with rfl | hmem
        · exact .inl ⟨rfl, rfl⟩
        · rcases hnext with heq | hnext
          · refine .inl (hdisjoint.eq_of_mem (x := current + 1) List.mem_cons_self hgroup ?_ ?_)
            all_goals
              simp only [span, Set.mem_ofPred_eq, seqCount] at heq ⊢
              omega
          · exact .inr (htail _ hmem (hnext.imp_left Eq.symm))
      case isFalse hhead =>
        rw [if_neg hhead]
        rcases List.mem_cons.mp hgroup with rfl | hmem
        · exfalso
          rcases hnext with heq | ⟨other, hother, heq⟩
          · simp only [seqCount] at heq
            omega
          · have hle := List.rel_of_pairwise_cons hsorted (collectSeqLoop_sublist.subset hother)
            simp only [seqCount] at heq
            omega
        · exact htail _ hmem hnext

/-- The order of `checkSeqUpdates`. -/
theorem pairwise_sortBySeqEnd (groups : List UpdatesGroup) :
    (groups.mergeSort fun group1 group2 => decide (group1.seqEnd ≤ group2.seqEnd)).Pairwise
      fun group1 group2 => group1.seqEnd ≤ group2.seqEnd := by
  refine (List.pairwise_mergeSort ?_ ?_ groups).imp fun h => of_decide_eq_true h
  · intro group1 group2 group3 h12 h23
    exact decide_eq_true ((of_decide_eq_true h12).trans (of_decide_eq_true h23))
  · intro group1 group2
    rw [Bool.or_eq_true, decide_eq_true_eq, decide_eq_true_eq]
    exact le_total _ _

variable {seq : ℤ}

/-- **`checkSeqUpdates` finds the maximal chain** at once. -/
theorem isMaximalChain_collectSeq (seq : ℤ)
    (hstart : ∀ group ∈ groups, group.seqStart ≤ group.seqEnd)
    (hdisjoint : DisjointOrEqual UpdatesGroup.seqEnd seqCount groups) :
    IsMaximalChain UpdatesGroup.seqEnd seqCount seq groups (collectSeq seq groups).1 := by
  have hmem : ∀ group, group ∈ groups.mergeSort
      (fun group1 group2 => decide (group1.seqEnd ≤ group2.seqEnd)) ↔ group ∈ groups :=
    fun group => List.mem_mergeSort
  have hsub : ∀ group ∈ (collectSeq seq groups).1, group ∈ groups := fun group hgroup =>
    (hmem group).mp (collectSeqLoop_sublist.subset hgroup)
  have hcount : ∀ group ∈ groups, 0 < seqCount group := fun group hgroup => by
    have := hstart group hgroup
    simp only [seqCount]
    omega
  have hcontinues : Continues UpdatesGroup.seqEnd seqCount seq (collectSeq seq groups).1 :=
    continues_collectSeqLoop
  have hpos := fun group hgroup => hcount group (hsub group hgroup)
  refine ⟨hsub, fun group hgroup => ?_, hcontinues, hcontinues.once hpos,
    fun group hgroup _ hnext => ?_⟩
  · have := ((hcontinues.bounds fun other hother => (hpos other hother).le).2 group hgroup).1
    have := hpos group hgroup
    omega
  · obtain ⟨other, hother, hvalue, hcounts⟩ := collectSeqLoop_maximal
      (pairwise_sortBySeqEnd groups) (fun other hother => hstart other ((hmem other).mp hother))
      (fun i hi j hj => hdisjoint i ((hmem i).mp hi) j ((hmem j).mp hj))
      ((hmem group).mpr hgroup) hnext
    exact List.mem_map.mpr ⟨other, hother, Prod.ext hvalue hcounts⟩

/-- The timer is started exactly if a group is left. -/
theorem collectSeq_gap (seq : ℤ) (hnodup : groups.Nodup) :
    (collectSeq seq groups).2 = true ↔ ∃ group ∈ groups, group ∉ (collectSeq seq groups).1 := by
  have hperm : (groups.mergeSort fun group1 group2 =>
      decide (group1.seqEnd ≤ group2.seqEnd)).Perm groups := List.mergeSort_perm _ _
  rw [collectSeq, collectSeqLoop_gap (hperm.nodup_iff.mpr hnodup)]
  simp only [hperm.mem_iff]

/-- The last of the groups in order is the end of the chain. -/
theorem getLast_seqEnd (seq : ℤ) (hne : groups ≠ []) :
    (groups.getLast?.map UpdatesGroup.seqEnd).getD 0 =
      chainEnd UpdatesGroup.seqEnd seq groups := by
  induction groups generalizing seq with
  | nil => exact absurd rfl hne
  | cons group groups ih =>
      cases groups with
      | nil => rfl
      | cons other groups =>
          rw [List.getLast?_cons_cons]
          exact @ih group.seqEnd (List.cons_ne_nil _ _)

/-- A check of a seq actor that finds a chain. -/
theorem check_seq_applies (actor : UpdatesActor) {state : DatabaseState}
    (groups : List UpdatesGroup) (hpath : actor.path = .withSeq) (hlist : actor.updateList = groups)
    (hne : (collectSeq state.seq groups).1 ≠ []) :
    actor.check state =
      ({ actor with
          timeoutTimer := actor.timeoutTimer || (collectSeq state.seq groups).2
          updateList := groups.filter fun group => group ∉ (collectSeq state.seq groups).1 },
        .applies (allUpdates (collectSeq state.seq groups).1)
          (((collectSeq state.seq groups).1.getLast?.map UpdatesGroup.seqEnd).getD 0)
          (lastDate (collectSeq state.seq groups).1)) := by
  subst hlist
  have hlist : actor.updateList ≠ [] := fun hnil => by
    rw [hnil, collectSeq, List.mergeSort_nil] at hne
    exact hne rfl
  simp only [UpdatesActor.check, hpath, UpdatesActor.checkSeqUpdates, hlist, if_false, hne, ne_eq,
    not_false_eq_true, if_true]

/-- A seq actor whose groups do not continue the counter waits with the timer running, or has
nothing to wait for. -/
theorem runAlone_seq_stuck {actor : UpdatesActor} {state : DatabaseState} {fires : ℕ → Bool}
    {n : ℕ} (hpath : actor.path = .withSeq) (hlist : actor.updateList = groups)
    (hnodup : groups.Nodup) (hnone : (collectSeq state.seq groups).1 = []) :
    actor.runAlone (n + 1) fires state = some ⟨[], state, groups, false, !groups.isEmpty⟩ := by
  subst hlist
  rw [UpdatesActor.runAlone]
  cases hlist : actor.updateList with
  | nil => simp only [UpdatesActor.check, hpath, UpdatesActor.checkSeqUpdates, hlist, if_true,
      List.isEmpty_nil, Bool.not_true]
  | cons group groups =>
      rw [hlist] at hnone hnodup
      have hgap : (collectSeq state.seq (group :: groups)).2 = true :=
        (collectSeq_gap _ hnodup).mpr ⟨group, List.mem_cons_self, hnone ▸ List.not_mem_nil⟩
      simp only [UpdatesActor.check, hpath, UpdatesActor.checkSeqUpdates, hlist, hnone, hgap,
        reduceCtorEq, if_false, ne_eq, not_true_eq_false, Bool.or_true, List.isEmpty_cons,
        Bool.not_false]

/-- The groups that a check leaves do not continue the counter it leads to. -/
theorem collectSeq_left (seq : ℤ) (hstart : ∀ group ∈ groups, group.seqStart ≤ group.seqEnd)
    (hdisjoint : DisjointOrEqual UpdatesGroup.seqEnd seqCount groups) :
    (collectSeq (chainEnd UpdatesGroup.seqEnd seq (collectSeq seq groups).1)
      (groups.filter fun group => group ∉ (collectSeq seq groups).1)).1 = [] := by
  have hmaximal := isMaximalChain_collectSeq seq hstart hdisjoint
  have hnonneg : ∀ group ∈ (collectSeq seq groups).1, 0 ≤ seqCount group := fun group hgroup => by
    have := hstart group (hmaximal.mem group hgroup)
    simp only [seqCount]
    omega
  have hbounds := hmaximal.continues.bounds hnonneg
  let left := groups.filter fun group => group ∉ (collectSeq seq groups).1
  have hleft : IsMaximalChain UpdatesGroup.seqEnd seqCount _ left _ := isMaximalChain_collectSeq
    (chainEnd UpdatesGroup.seqEnd seq (collectSeq seq groups).1)
    (fun group hgroup => hstart group (List.mem_filter.mp hgroup).1)
    (fun i hi j hj => hdisjoint i (List.mem_filter.mp hi).1 j (List.mem_filter.mp hj).1)
  cases hnext : (collectSeq (chainEnd UpdatesGroup.seqEnd seq (collectSeq seq groups).1)
      (groups.filter fun group => group ∉ (collectSeq seq groups).1)).1 with
  | nil => rfl
  | cons group rest =>
      -- it would begin where the first chain has ended, and so be in it
      exfalso
      rw [hnext] at hleft
      have habove := hleft.above group List.mem_cons_self
      have hgroup := (List.mem_filter.mp (hleft.mem group List.mem_cons_self)).1
      have hbegin := hleft.continues.1
      have hlo : group.seqEnd - seqCount group =
          chainEnd UpdatesGroup.seqEnd seq (collectSeq seq groups).1 := by omega
      obtain ⟨other, hother, heq⟩ := List.mem_map.mp (hmaximal.maximal group hgroup
        (lt_of_le_of_lt hbounds.1 habove) (hlo ▸ chainEnd_eq_or _ _ _))
      have hle := (hbounds.2 other hother).2
      have hvalue : other.seqEnd = group.seqEnd := congrArg Prod.fst heq
      omega

/-- **A seq actor alone** applies one chain, and keeps whatever is not in it. -/
theorem seq_runAlone {state : DatabaseState} (hseq : 0 ≤ state.seq) (hnodup : groups.Nodup)
    (hstart : ∀ group ∈ groups, group.seqStart ≤ group.seqEnd)
    (hdisjoint : DisjointOrEqual UpdatesGroup.seqEnd seqCount groups) (fires : ℕ → Bool) :
    ∃ outcome, (UpdatesActor.alone .withSeq groups).runAlone 2 fires state = some outcome ∧
      outcome.applied = allUpdates (collectSeq state.seq groups).1 ∧
      outcome.updateList = (groups.filter fun group => group ∉ (collectSeq state.seq groups).1) ∧
      outcome.database.seq =
        chainEnd UpdatesGroup.seqEnd state.seq (collectSeq state.seq groups).1 ∧
      ((outcome.fired = true ∨ outcome.pending = true) ↔
        ∃ group ∈ groups, group ∉ (collectSeq state.seq groups).1) := by
  have hgap := collectSeq_gap state.seq hnodup
  have hmaximal := isMaximalChain_collectSeq state.seq hstart hdisjoint
  have hnext := collectSeq_left state.seq hstart hdisjoint
  have hleft : (!(groups.filter fun group =>
      group ∉ (collectSeq state.seq groups).1).isEmpty) = true ↔
      ∃ group ∈ groups, group ∉ (collectSeq state.seq groups).1 := by
    simp only [Bool.not_eq_true', List.isEmpty_eq_false_iff, ne_eq, List.filter_eq_nil_iff,
      decide_eq_true_eq, not_forall, not_not]
    exact ⟨fun ⟨group, hgroup, hnot⟩ => ⟨group, hgroup, hnot⟩,
      fun ⟨group, hgroup, hnot⟩ => ⟨group, hgroup, hnot⟩⟩
  by_cases hnone : (collectSeq state.seq groups).1 = []
  · refine ⟨_, runAlone_seq_stuck rfl rfl hnodup hnone, ?_, ?_, ?_, ?_⟩
    · rw [hnone]
      rfl
    · simp only [hnone, List.not_mem_nil, not_false_eq_true, decide_true, List.filter_true]
      rfl
    · rw [hnone]
      rfl
    · rw [← hleft, hnone]
      simp only [Bool.false_eq_true, false_or, List.not_mem_nil, not_false_eq_true, decide_true,
        List.filter_true]
      rfl
  · have hcheck := check_seq_applies (UpdatesActor.alone .withSeq groups) groups rfl rfl hnone
    obtain ⟨last, hlast, hend⟩ := exists_value_eq_chainEnd UpdatesGroup.seqEnd state.seq hnone
    have hpos : 0 < chainEnd UpdatesGroup.seqEnd state.seq (collectSeq state.seq groups).1 := by
      rw [← hend]
      exact lt_of_le_of_lt hseq (hmaximal.above last hlast)
    have hseq' : ∀ pts date qts, (state.applyPts pts date
        (chainEnd UpdatesGroup.seqEnd state.seq (collectSeq state.seq groups).1) qts).seq =
        chainEnd UpdatesGroup.seqEnd state.seq (collectSeq state.seq groups).1 :=
      fun pts date qts => by
        simp only [DatabaseState.applyPts, gt_iff_lt, hpos, if_true]
    rw [getLast_seqEnd state.seq hnone] at hcheck
    refine ⟨⟨allUpdates (collectSeq state.seq groups).1 ++ [],
      state.applyPts (statePts (allUpdates (collectSeq state.seq groups).1))
        (lastDate (collectSeq state.seq groups).1)
        (chainEnd UpdatesGroup.seqEnd state.seq (collectSeq state.seq groups).1)
        (stateQts (allUpdates (collectSeq state.seq groups).1)),
      groups.filter fun group => group ∉ (collectSeq state.seq groups).1,
      (collectSeq state.seq groups).2 && fires 0 || false,
      !(groups.filter fun group => group ∉ (collectSeq state.seq groups).1).isEmpty⟩,
      ?_, List.append_nil _, rfl, hseq' _ _ _, ?_⟩
    · rw [UpdatesActor.runAlone, hcheck]
      simp only
      rw [runAlone_seq_stuck rfl rfl (hnodup.filter _) (by rw [hseq']; exact hnext)]
      rfl
    · rw [hleft, Bool.or_false, Bool.and_eq_true, hgap]
      constructor
      · rintro (⟨hsome, -⟩ | hsome)
        all_goals exact hsome
      · exact .inr

/-- A group as what moves the counter. -/
def seqItem (group : UpdatesGroup) : GapItem :=
  ⟨group.seqEnd, seqCount group, group.updates⟩

/-- Among groups that are all listed once, a counter with two has one that is not in a
chain. -/
theorem exists_left_of_movers {chain : List UpdatesGroup} {c : ℤ} (hnodup : groups.Nodup)
    (hone : movers UpdatesGroup.seqEnd seqCount chain c = 1)
    (htwo : 2 ≤ movers UpdatesGroup.seqEnd seqCount groups c) :
    ∃ group ∈ groups, group.seqEnd = c ∧ group ∉ chain := by
  by_contra hall
  have hmem : ∀ group ∈ groups, group.seqEnd = c → group ∈ chain := by
    intro group hgroup heq
    by_contra hnot
    exact hall ⟨group, hgroup, heq, hnot⟩
  have hle : movers UpdatesGroup.seqEnd seqCount groups c ≤
      movers UpdatesGroup.seqEnd seqCount chain c := by
    rw [movers, movers, List.countP_eq_length_filter, List.countP_eq_length_filter]
    refine (List.subperm_of_subset (hnodup.filter _) fun group hgroup => ?_).length_le
    obtain ⟨hgroup, hkey⟩ := List.mem_filter.mp hgroup
    exact List.mem_filter.mpr ⟨hmem group hgroup (of_decide_eq_true hkey).1, hkey⟩
  omega

/-- Two groups that bring the `seq` to one number. -/
theorem two_le_movers {other : UpdatesGroup} (hother : other ∈ groups) (hgroup : group ∈ groups)
    (hne : other ≠ group) (heq : other.seqEnd = group.seqEnd) (hpos : 0 < seqCount other)
    (hpos' : 0 < seqCount group) :
    2 ≤ movers UpdatesGroup.seqEnd seqCount groups other.seqEnd := by
  rw [movers, List.countP_eq_length_filter]
  have hnodup : [other, group].Nodup := List.nodup_cons.mpr
    ⟨fun hmem => hne (List.mem_singleton.mp hmem), List.nodup_singleton group⟩
  refine (List.subperm_of_subset hnodup fun member hmember => ?_).length_le
  rcases List.mem_cons.mp hmember with rfl | hmember
  · exact List.mem_filter.mpr ⟨hother, decide_eq_true ⟨rfl, hpos⟩⟩
  · obtain rfl := List.mem_singleton.mp hmember
    exact List.mem_filter.mpr ⟨hgroup, decide_eq_true ⟨heq.symm, hpos'⟩⟩

/-- **The seq engine** applies the maximal chain exactly if nothing disturbs it and no group
lies behind. -/
theorem seq_appliesMaximalChain_iff {state : DatabaseState} (hseq : 0 ≤ state.seq)
    (hinput : IsGapInput .withSeq groups) :
    (∀ fires, ∃ fuel outcome,
        (UpdatesActor.alone .withSeq groups).runAlone fuel fires state = some outcome ∧
        AppliesMaximalChain .withSeq state groups outcome) ↔
      NothingDisturbs .withSeq state groups := by
  have hstart := hinput.seqStart_le rfl
  have hdisjoint : DisjointOrEqual UpdatesGroup.seqEnd seqCount groups :=
    (disjointOrEqual_map (f := seqItem)).mp hinput.disjointOrEqual
  have hpos : ∀ group ∈ groups, 0 < seqCount group := fun group hgroup => by
    have := hstart group hgroup
    simp only [seqCount]
    omega
  have hmaximal := isMaximalChain_collectSeq state.seq hstart hdisjoint
  have hnonneg := fun group hgroup => (hpos group (hmaximal.mem group hgroup)).le
  have hbounds := hmaximal.continues.bounds hnonneg
  have habove : ∀ c, (∃ i ∈ gapItems .withSeq groups, c < i.value) ↔
      ∃ group ∈ groups, c < group.seqEnd := fun c => by
    simp only [gapItems, List.mem_map, exists_exists_and_eq_and]
  constructor
  · intro h
    obtain ⟨fuel, outcome, hrun, hchain⟩ := h fun _ => true
    obtain ⟨outcome', hrun', happlied, hlist, hcounter, htimer⟩ :=
      seq_runAlone hseq hinput.nodup hstart hdisjoint fun _ => true
    obtain rfl : outcome = outcome' := Option.some.inj
      ((runAlone_of_le (Nat.le_max_left _ _) hrun).symm.trans
        (runAlone_of_le (Nat.le_max_right _ _) hrun'))
    refine ⟨(undisturbed_map (f := seqItem)).mpr ⟨?_, ?_, ?_⟩, fun _ group hgroup => ?_⟩
    · exact fun group hgroup hzero => absurd hzero (hpos group hgroup).ne'
    · exact fun group hgroup hzero => absurd hzero (hpos group hgroup).ne'
    · intro c hlt hreached htwo
      have hmovers : 2 ≤ movers UpdatesGroup.seqEnd seqCount groups c := htwo
      rcases hmaximal.mem_of_reached (fun group hgroup => (hpos group hgroup).le) hreached with
        rfl | ⟨other, hother, rfl⟩
      · exact absurd hlt (lt_irrefl _)
      · obtain ⟨group, hgroup, -, hnot⟩ := exists_left_of_movers hinput.nodup
          (hmaximal.continues.movers_eq_one hnonneg hlt ⟨other, hother, rfl⟩) hmovers
        obtain ⟨left, hleft, hend⟩ := (habove _).mp
          (hchain.timeout.mp (htimer.mpr ⟨group, hgroup, hnot⟩))
        have hend : chainEnd UpdatesGroup.seqEnd state.seq (collectSeq state.seq groups).1 <
            left.seqEnd := lt_of_eq_of_lt hcounter.symm hend
        refine ⟨left, hleft, fun c' hc' => lt_of_le_of_lt ?_ hend⟩
        rcases hmaximal.mem_of_reached (fun group hgroup => (hpos group hgroup).le) hc' with
          rfl | ⟨last, hlast, rfl⟩
        · exact hbounds.1
        · exact (hbounds.2 last hlast).2
    · by_contra hbehind
      have hnot : group ∉ (collectSeq state.seq groups).1 := fun hmem =>
        hbehind (hmaximal.above group hmem)
      have hmem : group ∈ outcome.updateList :=
        hlist ▸ List.mem_filter.mpr ⟨hgroup, decide_eq_true hnot⟩
      obtain ⟨item, hitem, hlt⟩ := hchain.discarded group hmem (List.cons_ne_nil _ _)
      obtain rfl := List.mem_singleton.mp hitem
      exact hbehind hlt
  · intro h fires
    obtain ⟨outcome, hrun, happlied, hlist, hcounter, htimer⟩ :=
      seq_runAlone hseq hinput.nodup hstart hdisjoint fires
    refine ⟨_, outcome, hrun, ⟨(collectSeq state.seq groups).1.map seqItem, ?_, ?_, ?_⟩, ?_, ?_⟩
    · exact IsMaximalChain.map (f := seqItem) hmaximal
    · rw [happlied, List.flatMap_map]
      rfl
    · rw [chainEnd_map]
      exact hcounter
    · intro group hgroup _
      rw [hlist] at hgroup
      exact ⟨_, List.mem_cons_self, h.ahead rfl group (List.mem_filter.mp hgroup).1⟩
    · rw [htimer, habove]
      have hend : storedCounter .withSeq outcome.database =
          chainEnd UpdatesGroup.seqEnd state.seq (collectSeq state.seq groups).1 := hcounter
      rw [hend]
      constructor
      · rintro ⟨group, hgroup, hnot⟩
        by_cases hlt : chainEnd UpdatesGroup.seqEnd state.seq (collectSeq state.seq groups).1 <
            group.seqEnd
        · exact ⟨group, hgroup, hlt⟩
        · -- then the chain comes to its end with another group
          obtain ⟨other, hother, hspan⟩ := hmaximal.continues.exists_span
            (h.ahead rfl group hgroup) (not_lt.mp hlt)
          have hself : group.seqEnd ∈ span UpdatesGroup.seqEnd seqCount group := by
            have := hpos group hgroup
            simp only [span, Set.mem_ofPred_eq]
            omega
          have hvalue := (hdisjoint.eq_of_mem (hmaximal.mem other hother) hgroup hspan hself).1
          have hreached := hmaximal.continues.reached hmaximal.mem hother
          have hne : other ≠ group := fun heq => hnot (heq ▸ hother)
          have htwo := two_le_movers (hmaximal.mem other hother) hgroup hne hvalue
            (hpos other (hmaximal.mem other hother)) (hpos group hgroup)
          obtain ⟨left, hleft, habove'⟩ := ((undisturbed_map (f := seqItem)).mp
            h.undisturbed).repeated _ (hmaximal.above other hother) hreached htwo
          exact ⟨left, hleft, habove' _ (hmaximal.continues.reached_end hmaximal.mem)⟩
      · rintro ⟨group, hgroup, hlt⟩
        exact ⟨group, hgroup, fun hmem => absurd (hbounds.2 group hmem).2 (not_le_of_gt hlt)⟩

end Seq

/-! ### Runs of the system -/

/-- Storing keeps the `seq` from being negative. -/
theorem applyPts_seq_nonneg {state : DatabaseState} (h : 0 ≤ state.seq) (pts date seq qts : ℤ) :
    0 ≤ (state.applyPts pts date seq qts).seq := by
  simp only [DatabaseState.applyPts]
  split
  · omega
  · exact h

/-- A step keeps the stored `seq` from being negative. -/
theorem seq_nonneg_step {s : UpdatesState} (h : 0 ≤ s.database.seq) (event : UpdatesEvent) :
    0 ≤ (s.step event).database.seq := by
  have hframe : ∀ t : UpdatesState, t.database = s.database ∧ t.moves = s.moves →
      0 ≤ t.database.seq := fun t ht => ht.1 ▸ h
  cases event with
  | processMessages bodies => exact h
  | addUpdates body => exact h
  | updatePts pts ptsCount seq => exact h
  | request failedProcessing => exact hframe _ (UpdatesState.request_frame s failedProcessing)
  | execute path failedProcessing =>
      simp only [UpdatesState.step]
      split
      · split
        · split
          · exact h
          · exact hframe _ (UpdatesState.execute_frame s _ _ failedProcessing)
        · exact h
      · exact h
  | complete i failedProcessing =>
      simp only [UpdatesState.step]
      split
      · split
        · simp only [UpdatesState.complete]
          split
          · split
            · exact applyPts_seq_nonneg h _ _ _ _
            · exact h
          · rw [(UpdatesState.check_frame _ i _ failedProcessing).1]
            exact applyPts_seq_nonneg h _ _ _ _
        · exact h
      · exact h
  | timeoutReached i =>
      simp only [UpdatesState.step]
      split
      · split
        · exact hframe _ (UpdatesState.fail_frame s i _)
        · exact h
      · exact h
  | difference pts date seq qts => exact applyPts_seq_nonneg h _ _ _ _

/-- **No stored counter is ever negative**, if the first `seq` is not. -/
theorem storedCounter_nonneg (path : UpdatesPath) {s : UpdatesState} (h : 0 ≤ s.database.seq)
    (events : List UpdatesEvent) :
    0 ≤ storedCounter path (Machine.run UpdatesState.step s events).database := by
  have hseq : 0 ≤ (Machine.run UpdatesState.step s events).database.seq := by
    induction events generalizing s with
    | nil => exact h
    | cons event events ih => exact ih (seq_nonneg_step h event)
  cases path with
  | withPts => exact (Machine.run UpdatesState.step s events).database.pts_nonneg
  | withQts => exact (Machine.run UpdatesState.step s events).database.qts_nonneg
  | withSeq => exact hseq
  | withDate => exact le_refl 0

/-- A run alone of the actor `i` in a state of the system: the timer fires or does not, and a
completion block runs. -/
def IsAloneEvent (i : ℕ) : UpdatesEvent → Prop
  | .timeoutReached j => j = i
  | .complete j failedProcessing => j = i ∧ failedProcessing = false
  | _ => False

/-- The state with the numbers of a transaction stored. -/
def UpdatesState.storing (s : UpdatesState) (apply : PendingApply) : UpdatesState :=
  let database := s.database.applyPts apply.statePts apply.optionalFinalDate
    apply.optionalFinalSeq apply.stateQts
  { s with
    database := database
    moves := ⟨s.database.pts, database.pts, some apply.updates⟩ :: s.moves }

/-- The completion block of an actor that is not on the date path. -/
theorem step_complete {i : ℕ} {s : UpdatesState} {actor : UpdatesActor} {apply : PendingApply}
    (hi : s.actors[i]? = some actor) (hpath : actor.path ≠ .withDate)
    (happly : actor.pending = some apply) :
    s.step (.complete i false) = (s.storing apply).check i
      { actor with
        pending := none
        updateList := actor.updateList ++ actor.waitingForApplyUpdatesQueue
        waitingForApplyUpdatesQueue := [] } false := by
  simp only [UpdatesState.step, hi, happly, UpdatesState.complete, hpath, if_false,
    UpdatesState.storing]

/-- The timer fires, or does not, and the completion block runs: the actor checks again. -/
theorem exists_run_check {i : ℕ} {s : UpdatesState} {actor : UpdatesActor} {apply : PendingApply}
    (fired : Bool) (hi : s.actors[i]? = some { actor with pending := some apply })
    (hpath : actor.path ≠ .withDate) (hpending : actor.pending = none)
    (hwaiting : actor.waitingForApplyUpdatesQueue = [])
    (hfired : fired = true → actor.timeoutTimer = true) :
    ∃ (es : List UpdatesEvent) (s' : UpdatesState), (∀ e ∈ es, IsAloneEvent i e) ∧
      Machine.run UpdatesState.step s es = s'.check i
        { actor with timeoutTimer := actor.timeoutTimer && !fired } false ∧
      s'.database = s.database.applyPts apply.statePts apply.optionalFinalDate
        apply.optionalFinalSeq apply.stateQts ∧
      s'.handed = s.handed ∧ i < s'.actors.length := by
  have hlt : i < s.actors.length := (List.getElem?_eq_some_iff.mp hi).1
  have hactor : ∀ timer, { actor with timeoutTimer := timer } =
      { actor with
        pending := none
        updateList := actor.updateList ++ actor.waitingForApplyUpdatesQueue
        waitingForApplyUpdatesQueue := []
        timeoutTimer := timer } := by
    intro timer
    rw [hwaiting, List.append_nil, ← hpending, ← hwaiting]
  cases fired with
  | false =>
      refine ⟨[.complete i false], s.storing apply, ?_, ?_⟩
      rotate_left
      · rw [Machine.run_cons, Machine.run_nil, step_complete hi hpath rfl, Bool.not_false,
          Bool.and_true]
        exact ⟨congrArg (fun a => UpdatesState.check _ i a false) (hactor actor.timeoutTimer).symm,
          rfl, rfl, hlt⟩
      · rintro e he
        obtain rfl := List.mem_singleton.mp he
        exact ⟨rfl, rfl⟩
  | true =>
      have htimer := hfired rfl
      have hfail : s.step (.timeoutReached i) = (s.setActor i { actor with
          pending := some apply, timeoutTimer := false }).completeAction actor.path := by
        simp only [UpdatesState.step, hi, htimer, if_true, UpdatesState.fail, hpath, if_false]
      have hi' : (s.step (.timeoutReached i)).actors[i]? = some { actor with
          pending := some apply, timeoutTimer := false } := by
        rw [hfail]
        exact List.getElem?_set_self hlt
      refine ⟨[.timeoutReached i, .complete i false],
        (s.step (.timeoutReached i)).storing apply, ?_, ?_⟩
      rotate_left
      · rw [Machine.run_cons, Machine.run_cons, Machine.run_nil, step_complete hi' hpath rfl,
          Bool.not_true, Bool.and_false]
        refine ⟨congrArg (fun a => UpdatesState.check _ i a false) (hactor false).symm, ?_, ?_, ?_⟩
        · rw [hfail]
          rfl
        · rw [hfail]
          rfl
        · rw [hfail]
          exact lt_of_lt_of_eq hlt List.length_set.symm
      · rintro e he
        rcases List.mem_cons.mp he with rfl | he
        · rfl
        · obtain rfl := List.mem_singleton.mp he
          exact ⟨rfl, rfl⟩

/-- **A run alone is a run of the system** in which only events of its actor occur. -/
theorem runAlone_eq_run {n i : ℕ} {s : UpdatesState} {actor : UpdatesActor}
    {fires : ℕ → Bool} {outcome : AloneOutcome} (hi : i < s.actors.length)
    (hpath : actor.path ≠ .withDate) (hpending : actor.pending = none)
    (hwaiting : actor.waitingForApplyUpdatesQueue = [])
    (hrun : actor.runAlone n fires s.database = some outcome) :
    ∃ es : List UpdatesEvent, (∀ e ∈ es, IsAloneEvent i e) ∧
      let s' := Machine.run UpdatesState.step (s.check i actor false) es
      s'.database = outcome.database ∧
      s'.handed.Perm (outcome.applied.map Update.id ++ s.handed) ∧
      ∃ actor', s'.actors[i]? = some actor' ∧ actor'.updateList = outcome.updateList ∧
        actor'.pending = none := by
  induction n generalizing s actor fires outcome with
  | zero => cases hrun
  | succ n ih =>
      have hchecked := check_spec actor s.database
      rw [UpdatesActor.runAlone] at hrun
      split at hrun
      case h_1 actor' hcheck =>
        rw [hcheck] at hchecked
        cases hrun
        refine ⟨[], fun e he => absurd he List.not_mem_nil, ?_⟩
        simp only [Machine.run_nil, UpdatesState.check, hcheck]
        exact ⟨rfl, .refl _, actor', List.getElem?_set_self hi, rfl,
          hchecked.pending.trans hpending⟩
      case h_2 actor' hcheck =>
        rw [hcheck] at hchecked
        cases hrun
        refine ⟨[], fun e he => absurd he List.not_mem_nil, ?_⟩
        simp only [Machine.run_nil, UpdatesState.check, hcheck]
        exact ⟨rfl, .refl _, actor', List.getElem?_set_self hi, rfl,
          hchecked.pending.trans hpending⟩
      case h_3 actor' updates seq date hcheck =>
        rw [hcheck] at hchecked
        have hpath' : actor'.path ≠ .withDate := hchecked.path ▸ hpath
        have hpending' : actor'.pending = none := hchecked.pending.trans hpending
        have hwaiting' : actor'.waitingForApplyUpdatesQueue = [] :=
          hchecked.waiting.trans hwaiting
        obtain ⟨later, hlater, rfl⟩ := Option.map_eq_some_iff.mp hrun
        have happlied : s.check i actor false =
            { s with handed := updates.map Update.id ++ s.handed }.setActor i { actor' with
              pending := some ⟨updates, statePts updates, stateQts updates, seq, date,
                s.database⟩ } := by
          simp only [UpdatesState.check, hcheck, UpdatesState.tryApplyingUpdates,
            Bool.false_eq_true, if_false]
        have hactor : (s.check i actor false).actors[i]? = some { actor' with
            pending := some ⟨updates, statePts updates, stateQts updates, seq, date,
              s.database⟩ } := by
          rw [happlied]
          exact List.getElem?_set_self hi
        obtain ⟨es, s', hes, hnext, hdatabase, hhanded, hlt⟩ := exists_run_check
          (actor'.timeoutTimer && fires 0) hactor hpath' hpending' hwaiting'
          fun hfired => ((Bool.and_eq_true _ _).mp hfired).1
        rw [happlied] at hdatabase hhanded
        have hlater' : UpdatesActor.runAlone n (fun k => fires (k + 1)) { actor' with
            timeoutTimer := actor'.timeoutTimer && !(actor'.timeoutTimer && fires 0) }
            s'.database = some later := by
          rw [hdatabase]
          exact hlater
        obtain ⟨es', hes', hdatabase', hhanded', hactor'⟩ :=
          ih hlt (by exact hpath') (by exact hpending') (by exact hwaiting') hlater'
        refine ⟨es ++ es', fun e he => (List.mem_append.mp he).elim (hes e) (hes' e), ?_⟩
        simp only [Machine.run_append, hnext]
        refine ⟨hdatabase', ?_, hactor'⟩
        rw [hhanded] at hhanded'
        refine hhanded'.trans ?_
        have hswap : (later.applied.map Update.id ++ (updates.map Update.id ++ s.handed)).Perm
            ((updates ++ later.applied).map Update.id ++ s.handed) := by
          rw [List.map_append, ← List.append_assoc]
          exact List.Perm.append_right _ List.perm_append_comm
        exact hswap

/-! ### The three engines -/

/-- **The gap engines apply the maximal chain**, whenever the timer fires, exactly if nothing
disturbs them: no update without `pts_count` lies inside the numbers of a chain or shares its
place on it, a number of the chain is repeated only if something lies above the chain, and no
group of the seq path lies behind. -/
theorem gapEngine_appliesMaximalChain {path : UpdatesPath} {state : DatabaseState}
    {groups : List UpdatesGroup} (hpath : path ≠ .withDate)
    (hcounter : 0 ≤ storedCounter path state) (hinput : IsGapInput path groups) :
    (∀ fires, ∃ fuel outcome,
        (UpdatesActor.alone path groups).runAlone fuel fires state = some outcome ∧
        AppliesMaximalChain path state groups outcome) ↔
      NothingDisturbs path state groups := by
  cases path with
  | withPts =>
      exact ptsEngine.appliesMaximalChain_iff rfl (fun _ => rfl) (fun heq => by cases heq)
        (fun update hmem => ⟨hinput.inClass update hmem, hinput.count_nonneg rfl update hmem⟩)
        hinput.disjointOrEqual
  | withQts =>
      exact qtsEngine.appliesMaximalChain_iff rfl (fun _ => rfl) (fun heq => by cases heq)
        hinput.inClass hinput.disjointOrEqual
  | withSeq => exact seq_appliesMaximalChain_iff hcounter hinput
  | withDate => exact absurd rfl hpath

/-- A pts actor that is given a group with the updates 2 and 4 and one with the update 3. -/
theorem gapEngine_appliesMaximalChain_outOfOrder :
    let groups : List UpdatesGroup := [⟨0, [⟨0, .pts 4 1⟩, ⟨1, .pts 2 1⟩], 0, 0, 0⟩,
      ⟨1, [⟨2, .pts 3 1⟩], 0, 0, 0⟩]
    (∀ fires, ∃ fuel outcome,
        (UpdatesActor.alone .withPts groups).runAlone fuel fires freshDatabase = some outcome ∧
        AppliesMaximalChain .withPts freshDatabase groups outcome) ↔
      NothingDisturbs .withPts freshDatabase groups := by
  refine gapEngine_appliesMaximalChain (by decide) (by decide) ⟨by decide, ?_, ?_, ?_, ?_⟩
  · decide
  · exact fun _ => by decide
  · exact fun heq => by cases heq
  · exact disjointOrEqual_of_apart (by decide)

/-- A group that lies behind the stored `seq` is not discarded: its actor waits for the timer
and the server's state. -/
theorem gapEngine_appliesMaximalChain_behind :
    ¬ ∀ (path : UpdatesPath) (state : DatabaseState) (groups : List UpdatesGroup),
      path ≠ .withDate → 0 ≤ storedCounter path state → IsGapInput path groups →
      ∀ fires, ∃ fuel outcome,
        (UpdatesActor.alone path groups).runAlone fuel fires state = some outcome ∧
        AppliesMaximalChain path state groups outcome := by
  intro h
  have hinput : IsGapInput .withSeq [⟨0, [], 0, 3, 3⟩] := by
    refine ⟨by decide, fun _ _ => trivial, fun heq => (by cases heq), fun _ => (by decide), ?_⟩
    exact disjointOrEqual_of_apart (by decide)
  have hstored : (0 : ℤ) ≤ storedCounter .withSeq ⟨1, 0, 5, 0, by decide, by decide⟩ := by decide
  have hahead := ((seq_appliesMaximalChain_iff hstored hinput).mp
    (h .withSeq _ _ (by decide) hstored hinput)).ahead rfl _ List.mem_cons_self
  revert hahead
  decide

end Telegraph.Updates
