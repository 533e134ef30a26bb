import Mathlib.Data.List.Pairwise
import Telegraph.Lib.Multiplicity
import Telegraph.Updates.ApplyUpdates

/-!
# Updates Applied at Most Once

The groups that are still listed somewhere hold updates that have been applied already: on
the pts and qts paths a group stays until all of its updates are done. What keeps such an
update from being collected again is that the stored counter has passed it. This module
follows the updates through the runs of the system.

## Main results

* `once_check`: **a check hands over only updates that were not handed over before**.
* `once_step`: one step keeps the invariant under the condition.
* `handed_once`: **every update is handed over at most once** in runs whose containers bring
  no update with a `pts`, and in which no write lowers a counter.
-/

open Multiplicity

namespace Telegraph.Updates

/-! ### What is still listed -/

/-- The identities of the updates of some groups. -/
def groupIds (groups : List UpdatesGroup) : List ℕ :=
  (allUpdates groups).map Update.id

@[simp] theorem groupIds_nil : groupIds [] = [] := rfl

@[simp] theorem groupIds_append (groups others : List UpdatesGroup) :
    groupIds (groups ++ others) = groupIds groups ++ groupIds others := by
  simp only [groupIds, allUpdates, List.flatMap_append, List.map_append]

@[simp] theorem groupIds_singleton (group : UpdatesGroup) :
    groupIds [group] = group.updates.map Update.id := by
  simp only [groupIds, allUpdates, List.flatMap_cons, List.flatMap_nil, List.append_nil]

theorem mem_groupIds {groups : List UpdatesGroup} {update : Update}
    (h : update ∈ allUpdates groups) : update.id ∈ groupIds groups :=
  List.mem_map_of_mem h

theorem groupIds_sublist {groups others : List UpdatesGroup} (h : groups.Sublist others) :
    (groupIds groups).Sublist (groupIds others) :=
  (h.flatMap _).map _

/-- The updates an actor lists anywhere. -/
def UpdatesActor.ids (actor : UpdatesActor) : List ℕ :=
  groupIds (actor.storedOptions ++ actor.updateList ++ actor.waitingForApplyUpdatesQueue)

namespace UpdatesState

/-- The updates of the requests not taken yet. -/
def requestIds (s : UpdatesState) : List ℕ :=
  groupIds (s.requests.flatMap Prod.snd)

/-- The updates listed anywhere. -/
def held (s : UpdatesState) : List ℕ :=
  s.requestIds ++ s.actors.flatMap UpdatesActor.ids

/-! ### The invariant -/

/-- The stored counter has passed an update of an actor. -/
def Passed (database : DatabaseState) (actor : UpdatesActor) (update : Update) : Prop :=
  match actor.path with
  | .withPts => update.pts ≤ database.pts
  | .withQts => update.qts ≤ database.qts
  | _ => False

/-- The stored counter will pass an update when the pending apply of the actor is done. -/
def WillPass (actor : UpdatesActor) (update : Update) : Prop :=
  ∃ apply, actor.pending = some apply ∧
    match actor.path with
    | .withPts => update.pts ≤ apply.statePts
    | .withQts => update.qts ≤ apply.stateQts
    | _ => False

/-- No check of the actor `i` is to come: its path is no longer its own, and nothing is
pending; on the date path, it was executed. -/
def Finished (s : UpdatesState) (i : ℕ) (actor : UpdatesActor) : Prop :=
  (s.active actor.path ≠ some i ∧ actor.pending = none) ∨
    (actor.path = .withDate ∧ actor.executed = true)

/-- An update of the actor `i` is not collected any more. -/
def Spent (s : UpdatesState) (i : ℕ) (actor : UpdatesActor) (update : Update) : Prop :=
  Passed s.database actor update ∨ WillPass actor update ∨ s.Finished i actor

/-- What holds of the actor `i`: what it has not listed for a check yet was not handed over,
and what it has listed and was handed over is spent. -/
structure ActorOnce (s : UpdatesState) (i : ℕ) (actor : UpdatesActor) : Prop where
  unlisted : ∀ x ∈ groupIds (actor.storedOptions ++ actor.waitingForApplyUpdatesQueue),
    x ∉ s.handed
  listed : ∀ update ∈ allUpdates actor.updateList, update.id ∈ s.handed →
    s.Spent i actor update
  executed : ∀ apply, actor.pending = some apply → actor.executed = true

/-- **The invariant**: no update is listed twice or was handed over twice, and what was handed
over will not be again. -/
structure Once (s : UpdatesState) : Prop where
  held_nodup : s.held.Nodup
  held_lt : ∀ x ∈ s.held, x < s.nextUpdate
  handed_nodup : s.handed.Nodup
  handed_lt : ∀ x ∈ s.handed, x < s.nextUpdate
  requested : ∀ x ∈ s.requestIds, x ∉ s.handed
  actors : ∀ i actor, s.actors[i]? = some actor → s.ActorOnce i actor
  active : ∀ path i, s.active path = some i →
    ∃ actor, s.actors[i]? = some actor ∧ actor.path = path

/-! ### What a check hands over -/

section HandsOver

variable {actor : UpdatesActor} {state : DatabaseState} {updates : List Update} {seq date : ℤ}

/-- The loop of the seq path takes some of the groups. -/
theorem collectSeqLoop_sublist (current : ℤ) (groups : List UpdatesGroup) :
    (collectSeqLoop current groups).1.Sublist groups := by
  induction groups generalizing current with
  | nil => exact .slnil
  | cons group groups ih =>
      simp only [collectSeqLoop]
      split
      · exact (ih group.seqEnd).cons_cons group
      · exact (ih current).cons group

/-- What a check hands over are some of the listed updates, in some order. -/
theorem check_applies_listed (h : (actor.check state).2 = .applies updates seq date) :
    ∃ sorted, updates.Sublist sorted ∧ sorted.Perm (allUpdates actor.updateList) := by
  cases hpath : actor.path with
  | withPts =>
      rw [check_applies_pts hpath h]
      exact ⟨_, inOrder_sublist, List.mergeSort_perm _ _⟩
  | withQts =>
      rw [check_applies_qts hpath h]
      exact ⟨_, inOrder_sublist, List.mergeSort_perm _ _⟩
  | withSeq =>
      rw [(check_applies_seq hpath h).1]
      exact ⟨_, (collectSeqLoop_sublist _ _).flatMap _,
        (List.mergeSort_perm _ _).flatMap_right _⟩
  | withDate =>
      simp only [UpdatesActor.check, hpath, CheckOutcome.applies.injEq] at h
      rw [← h.1]
      exact ⟨_, List.Sublist.refl _, (List.mergeSort_perm _ _).flatMap_right _⟩

/-- What a check hands over the stored counter has not passed. -/
theorem check_applies_ahead (h : (actor.check state).2 = .applies updates seq date)
    {update : Update} (hmem : update ∈ updates) : ¬Passed state actor update := by
  unfold Passed
  split
  · rename_i hpath
    rw [check_applies_pts hpath h] at hmem
    exact not_le.mpr (stored_lt_of_mem_inOrder hmem)
  · rename_i hpath
    rw [check_applies_qts hpath h] at hmem
    exact not_le.mpr (stored_lt_of_mem_inOrder hmem)
  · exact not_false

/-- What a check hands over and leaves listed will be passed by the stored counter. -/
theorem check_applies_kept (h : (actor.check state).2 = .applies updates seq date)
    (hnodup : (groupIds actor.updateList).Nodup) (hdate : actor.path ≠ .withDate)
    {update : Update} (hkept : update ∈ allUpdates (actor.check state).1.updateList)
    (hmem : update.id ∈ updates.map Update.id) :
    match actor.path with
    | .withPts => update.pts ≤ statePts updates
    | .withQts => update.qts ≤ stateQts updates
    | _ => False := by
  obtain ⟨sorted, hsublist, hperm⟩ := check_applies_listed h
  have hlisted : update ∈ allUpdates actor.updateList :=
    ((check_spec actor state).updateList.flatMap _).subset hkept
  have hupdate : update ∈ updates := by
    obtain ⟨other, hother, hid⟩ := List.mem_map.mp hmem
    have hotherListed := hperm.mem_iff.mp (hsublist.subset hother)
    rwa [List.inj_on_of_nodup_map hnodup hotherListed hlisted hid] at hother
  cases hpath : actor.path with
  | withPts => exact pts_le_statePts hupdate
  | withQts => exact qts_le_stateQts hupdate
  | withDate => exact absurd hpath hdate
  | withSeq =>
      obtain ⟨hupdates, hlist⟩ := check_applies_seq hpath h
      rw [hupdates] at hupdate
      rw [hlist] at hkept
      obtain ⟨group, hgroup, hin⟩ := List.mem_flatMap.mp hupdate
      obtain ⟨kept, hkept, hin'⟩ := List.mem_flatMap.mp hkept
      obtain ⟨hkept, hnot⟩ := List.mem_filter.mp hkept
      have hne : group ≠ kept := by
        rintro rfl
        exact absurd hgroup (of_decide_eq_true hnot)
      have hgroupListed : group ∈ actor.updateList :=
        (List.mergeSort_perm _ _).mem_iff.mp ((collectSeqLoop_sublist _ _).subset hgroup)
      have hpairwise := (List.nodup_flatMap.mp (List.Nodup.of_map _ hnodup)).2
      have : Std.Symm (Function.onFun List.Disjoint UpdatesGroup.updates) :=
        ⟨fun _ _ hdisjoint _ hx hy => hdisjoint hy hx⟩
      exact hpairwise.forall hgroupListed hkept hne hin hin'

end HandsOver

/-! ### Updates of different owners -/

section Owners

variable {s : UpdatesState} {i j : ℕ} {actor other : UpdatesActor} {x : ℕ}

theorem Once.actors_nodup (h : s.Once) : (s.actors.flatMap UpdatesActor.ids).Nodup :=
  (List.nodup_append.mp h.held_nodup).2.1

theorem Once.ids_nodup (h : s.Once) (hi : s.actors[i]? = some actor) : actor.ids.Nodup :=
  nodup_of_owner h.actors_nodup hi

/-- What an actor lists is not requested. -/
theorem Once.not_requested (h : s.Once) (hi : s.actors[i]? = some actor)
    (hx : x ∈ actor.ids) : x ∉ s.requestIds := by
  intro hrequested
  exact (List.nodup_append.mp h.held_nodup).2.2 x hrequested x
    (mem_flatMap_of_owner hi hx) rfl

/-- What an actor lists no other one does. -/
theorem Once.not_listed (h : s.Once) (hi : s.actors[i]? = some actor)
    (hj : s.actors[j]? = some other) (hne : i ≠ j) (hx : x ∈ actor.ids) : x ∉ other.ids :=
  fun hother => hne (owner_unique h.actors_nodup hi hj hx hother)

end Owners

/-! ### The invariant is kept -/

section Kept

variable {s : UpdatesState} {i : ℕ} {actor actor' : UpdatesActor}

/-- **An actor is replaced**: it lists `extra` updates that were not listed before, and some
that it had listed are handed over. -/
theorem Once.replace (h : s.Once) (hi : s.actors[i]? = some actor)
    (hpath : actor'.path = actor.path) (extra : List ℕ) (hextra : (extra ++ s.held).Nodup)
    (hextraLt : ∀ x ∈ extra, x < s.nextUpdate)
    (hcount : ∀ x, actor'.ids.count x ≤ actor.ids.count x + extra.count x) (new : List ℕ)
    (hnew : (new ++ s.handed).Nodup) (hlisted : ∀ x ∈ new, x ∈ actor.ids)
    (hactor : ({ s with handed := new ++ s.handed }.setActor i actor').ActorOnce i actor') :
    ({ s with handed := new ++ s.handed }.setActor i actor').Once := by
  have hheld : ∀ x, ({ s with handed := new ++ s.handed }.setActor i actor').held.count x ≤
      (extra ++ s.held).count x := by
    intro x
    have hset := count_flatMap_set (f := UpdatesActor.ids) (b := actor') (x := x) hi
    have hle := hcount x
    simp only [held, requestIds, setActor, List.count_append]
    omega
  obtain ⟨hnodup, hsubset⟩ := of_count_le hheld
  constructor
  case held_nodup => exact hnodup hextra
  case held_lt =>
    intro x hx
    rcases List.mem_append.mp (hsubset hx) with hx | hx
    · exact hextraLt x hx
    · exact h.held_lt x hx
  case handed_nodup => exact hnew
  case handed_lt =>
    intro x hx
    rcases List.mem_append.mp hx with hx | hx
    · exact h.held_lt x (List.mem_append_right _ (mem_flatMap_of_owner hi (hlisted x hx)))
    · exact h.handed_lt x hx
  case requested =>
    intro x hx hhanded
    rcases List.mem_append.mp hhanded with hhanded | hhanded
    · exact h.not_requested hi (hlisted x hhanded) hx
    · exact h.requested x hx hhanded
  case actors =>
    intro j other hj
    by_cases hij : i = j
    · subst hij
      have hlength := (List.getElem?_eq_some_iff.mp hi).1
      rw [setActor, List.getElem?_set_self hlength, Option.some.injEq] at hj
      rw [← hj]
      exact hactor
    · rw [setActor, List.getElem?_set_ne hij] at hj
      have hold := h.actors j other hj
      have hnot : ∀ x ∈ other.ids, x ∉ new := fun x hx hxnew =>
        h.not_listed hj hi (Ne.symm hij) hx (hlisted x hxnew)
      refine ⟨?_, ?_, hold.executed⟩
      · intro x hx hhanded
        rcases List.mem_append.mp hhanded with hhanded | hhanded
        · refine hnot x ?_ hhanded
          simp only [groupIds_append, List.mem_append, UpdatesActor.ids] at hx ⊢
          tauto
        · exact hold.unlisted x hx hhanded
      · intro update hmem hhanded
        rcases List.mem_append.mp hhanded with hhanded | hhanded
        · refine absurd hhanded (hnot _ ?_)
          have hx := mem_groupIds hmem
          simp only [groupIds_append, List.mem_append, UpdatesActor.ids]
          exact .inl (.inr hx)
        · exact hold.listed update hmem hhanded
  case active =>
    intro path j hactive
    obtain ⟨other, hj, hother⟩ := h.active path j hactive
    by_cases hij : i = j
    · subst hij
      have hlength := (List.getElem?_eq_some_iff.mp hi).1
      rw [hi, Option.some.injEq] at hj
      refine ⟨actor', ?_, by rw [hpath, hj, hother]⟩
      rw [setActor, List.getElem?_set_self hlength]
    · exact ⟨other, by rw [setActor, List.getElem?_set_ne hij]; exact hj, hother⟩

/-- An actor is replaced that lists nothing more than before. -/
theorem Once.hand (h : s.Once) (hi : s.actors[i]? = some actor)
    (hpath : actor'.path = actor.path) (hcount : ∀ x, actor'.ids.count x ≤ actor.ids.count x)
    (new : List ℕ) (hnew : (new ++ s.handed).Nodup) (hlisted : ∀ x ∈ new, x ∈ actor.ids)
    (hactor : ({ s with handed := new ++ s.handed }.setActor i actor').ActorOnce i actor') :
    ({ s with handed := new ++ s.handed }.setActor i actor').Once :=
  h.replace hi hpath [] h.held_nodup (fun _ hx => absurd hx List.not_mem_nil)
    (fun x => le_trans (hcount x) (Nat.le_add_right _ _)) new hnew hlisted hactor

/-- An actor is replaced, and nothing is handed over. -/
theorem Once.setActor (h : s.Once) (hi : s.actors[i]? = some actor)
    (hpath : actor'.path = actor.path) (hcount : ∀ x, actor'.ids.count x ≤ actor.ids.count x)
    (hactor : (s.setActor i actor').ActorOnce i actor') : (s.setActor i actor').Once :=
  h.hand hi hpath hcount [] h.handed_nodup (fun _ hx => absurd hx List.not_mem_nil) hactor

/-- A path is completed. -/
theorem Once.completeAction (h : s.Once) (path : UpdatesPath) :
    (s.completeAction path).Once := by
  have hactive : ∀ other j, (s.completeAction path).active other = some j →
      s.active other = some j := by
    intro other j hother
    by_cases hpath : other = path
    · subst hpath
      simp [UpdatesState.completeAction] at hother
    · simpa [UpdatesState.completeAction, hpath] using hother
  refine ⟨h.held_nodup, h.held_lt, h.handed_nodup, h.handed_lt, h.requested, ?_, ?_⟩
  · intro j other hj
    obtain ⟨hunlisted, hlisted, hexecuted⟩ := h.actors j other hj
    refine ⟨hunlisted, ?_, hexecuted⟩
    intro update hmem hhanded
    rcases hlisted update hmem hhanded with hpassed | hwill | ⟨hfinished, hpending⟩ | hdate
    · exact .inl hpassed
    · exact .inr (.inl hwill)
    · exact .inr (.inr (.inl ⟨fun hsome => hfinished (hactive _ _ hsome), hpending⟩))
    · exact .inr (.inr (.inr hdate))
  · intro other j hother
    exact h.active other j (hactive other j hother)

/-- The counters of the database do not fall. -/
theorem Once.database (h : s.Once) {database : DatabaseState} (moves : List PtsMove)
    (hpts : s.database.pts ≤ database.pts) (hqts : s.database.qts ≤ database.qts) :
    { s with database := database, moves := moves }.Once := by
  refine ⟨h.held_nodup, h.held_lt, h.handed_nodup, h.handed_lt, h.requested, ?_, h.active⟩
  intro j other hj
  obtain ⟨hunlisted, hlisted, hexecuted⟩ := h.actors j other hj
  refine ⟨hunlisted, ?_, hexecuted⟩
  intro update hmem hhanded
  rcases hlisted update hmem hhanded with hpassed | hwill | hfinished
  · left
    unfold Passed at hpassed ⊢
    split at hpassed
    · exact le_trans hpassed hpts
    · exact le_trans hpassed hqts
    · exact hpassed
  · exact .inr (.inl hwill)
  · exact .inr (.inr hfinished)

/-- What a check leaves listed the actor listed before. -/
theorem count_ids_checked (hchecked : actor.Checked actor') (x : ℕ) :
    actor'.ids.count x ≤ actor.ids.count x := by
  obtain ⟨-, -, hstored, hwaiting, -, hlist⟩ := hchecked
  have hle := (groupIds_sublist hlist).count_le x
  simp only [UpdatesActor.ids, groupIds_append, List.count_append, hstored, hwaiting]
  omega

/-- The actor to be checked is the one at its place. -/
theorem check_setActor (s : UpdatesState) (i : ℕ) (actor other : UpdatesActor)
    (failedProcessing : Bool) :
    (s.setActor i other).check i actor failedProcessing = s.check i actor failedProcessing := by
  have hset : ∀ handed (actor : UpdatesActor),
      ({ s.setActor i other with handed := handed } : UpdatesState).setActor i actor =
        ({ s with handed := handed } : UpdatesState).setActor i actor := by
    intro handed actor
    simp only [UpdatesState.setActor, List.set_set]
  simp only [check, tryApplyingUpdates, fail, setActor_database]
  split
  · exact congrArg (UpdatesState.completeAction · _) (hset s.handed _)
  · exact hset s.handed _
  · split
    · split
      · exact hset _ _
      · exact congrArg (UpdatesState.completeAction · _) (hset _ _)
    · exact hset _ _

/-- **A check hands over only updates that were not handed over before**, if the stored
counter has passed those of the list that were. -/
theorem once_check (h : s.Once) (hi : s.actors[i]? = some actor) (hpending : actor.pending = none)
    (hexecuted : actor.executed = true)
    (hpassed : ∀ update ∈ allUpdates actor.updateList, update.id ∈ s.handed →
      Passed s.database actor update) (failedProcessing : Bool) :
    (s.check i actor failedProcessing).Once := by
  have hchecked := check_spec actor s.database
  have hcount := count_ids_checked hchecked
  have hold := h.actors i actor hi
  have hids := h.ids_nodup hi
  have hlisted := @check_applies_listed actor s.database
  have hahead := @check_applies_ahead actor s.database
  have hkept := @check_applies_kept actor s.database
  simp only [check]
  obtain ⟨hpath, hexec, hstored, hwaiting, hpend, hlist⟩ := hchecked
  -- what is still listed after the check and was handed over before is passed
  have hstill : ∀ update ∈ allUpdates (actor.check s.database).1.updateList,
      update.id ∈ s.handed → Passed s.database (actor.check s.database).1 update := by
    intro update hmem hhanded
    have hactor := hpassed update ((hlist.flatMap _).subset hmem) hhanded
    unfold Passed at hactor ⊢
    rwa [hpath]
  have hkeep : (s.setActor i (actor.check s.database).1).ActorOnce i
      (actor.check s.database).1 := by
    refine ⟨?_, fun update hmem hhanded => .inl (hstill update hmem hhanded), ?_⟩
    · rw [hstored, hwaiting]
      exact hold.unlisted
    · intro apply happly
      rw [hexec]
      exact hexecuted
  split
  · rename_i actor' houtcome
    rw [houtcome] at hkeep hcount hpath
    exact (h.setActor hi hpath hcount hkeep).completeAction actor'.path
  · rename_i actor' houtcome
    rw [houtcome] at hkeep hcount hpath
    exact h.setActor hi hpath hcount hkeep
  · rename_i actor' updates seq date houtcome
    rw [houtcome] at hcount hpath hexec hstored hwaiting hpend hlist hstill hlisted hkept hahead
    obtain ⟨sorted, hsublist, hperm⟩ := hlisted rfl
    have hlistIds : (groupIds actor.updateList).Nodup := by
      refine hids.sublist ?_
      simp only [UpdatesActor.ids, groupIds_append, List.append_assoc]
      exact (List.sublist_append_left _ _).trans (List.sublist_append_right _ _)
    have hmemList : ∀ update ∈ updates, update ∈ allUpdates actor.updateList :=
      fun update hmem => hperm.mem_iff.mp (hsublist.subset hmem)
    have hmemIds : ∀ x ∈ updates.map Update.id, x ∈ groupIds actor.updateList := by
      intro x hx
      obtain ⟨update, hmem, rfl⟩ := List.mem_map.mp hx
      exact mem_groupIds (hmemList update hmem)
    have hin : ∀ x ∈ updates.map Update.id, x ∈ actor.ids := by
      intro x hx
      simp only [UpdatesActor.ids, groupIds_append, List.mem_append]
      exact .inl (.inr (hmemIds x hx))
    have hnew : (updates.map Update.id ++ s.handed).Nodup := by
      refine List.nodup_append.mpr ⟨?_, h.handed_nodup, ?_⟩
      · exact ((hperm.map Update.id).nodup_iff.mpr hlistIds).sublist (hsublist.map _)
      · rintro x hx y hy rfl
        obtain ⟨update, hmem, rfl⟩ := List.mem_map.mp hx
        exact hahead rfl hmem (hpassed update (hmemList update hmem) hy)
    have hunlisted : ∀ x ∈ groupIds (actor'.storedOptions ++ actor'.waitingForApplyUpdatesQueue),
        x ∉ updates.map Update.id ++ s.handed := by
      rw [hstored, hwaiting]
      intro x hx hhanded
      rcases List.mem_append.mp hhanded with hhanded | hhanded
      · have hboth := List.nodup_iff_count_le_one.mp hids x
        have hone := List.count_pos_iff.mpr (hmemIds x hhanded)
        have htwo := List.count_pos_iff.mpr hx
        simp only [UpdatesActor.ids, groupIds_append, List.count_append] at hboth htwo
        omega
      · exact hold.unlisted x hx hhanded
    simp only [tryApplyingUpdates]
    split
    · simp only [fail]
      split
      · rename_i hdate
        refine h.hand hi hpath hcount _ hnew hin ⟨hunlisted, ?_, ?_⟩
        · intro update hmem hhanded
          exact .inr (.inr (.inr ⟨hdate, hexec.trans hexecuted⟩))
        · intro apply happly
          exact hexec.trans hexecuted
      · refine @Once.hand (s.completeAction actor'.path) i actor
          { actor' with timeoutTimer := false } (h.completeAction actor'.path) hi hpath hcount _
          hnew hin ⟨hunlisted, ?_, ?_⟩
        · intro update hmem hhanded
          refine .inr (.inr (.inl ⟨?_, hpend.trans hpending⟩))
          simp [UpdatesState.setActor, UpdatesState.completeAction]
        · intro apply happly
          exact hexec.trans hexecuted
    · refine @Once.hand s i actor { actor' with pending := some _ } h hi hpath hcount _ hnew
        hin ⟨hunlisted, ?_, ?_⟩
      · intro update hmem hhanded
        rcases List.mem_append.mp hhanded with hhanded | hhanded
        · by_cases hdate : actor.path = .withDate
          · exact .inr (.inr (.inr ⟨hpath.trans hdate, hexec.trans hexecuted⟩))
          · have hpass := hkept rfl hlistIds hdate hmem hhanded
            rw [← hpath] at hpass
            exact .inr (.inl ⟨_, rfl, hpass⟩)
        · exact .inl (hstill update hmem hhanded)
      · intro apply happly
        exact hexec.trans hexecuted

/-- The actor at the place `i` after an operation that replaces it. -/
theorem getElem?_setActor (hi : s.actors[i]? = some actor) :
    (s.setActor i actor').actors[i]? = some actor' := by
  rw [UpdatesState.setActor, List.getElem?_set_self (List.getElem?_eq_some_iff.mp hi).1]

/-- What an actor lists for a check and was handed over is passed, if the actor has its path
and nothing is pending. -/
theorem Once.passed (h : s.Once) (hi : s.actors[i]? = some actor)
    (hactive : s.active actor.path = some i) (hpending : actor.pending = none)
    (hdate : actor.path = .withDate → actor.executed = false) {update : Update}
    (hmem : update ∈ allUpdates actor.updateList) (hhanded : update.id ∈ s.handed) :
    Passed s.database actor update := by
  rcases (h.actors i actor hi).listed update hmem hhanded with
    hpassed | ⟨apply, happly, -⟩ | ⟨hother, -⟩ | ⟨hpath, hexecuted⟩
  · exact hpassed
  · rw [hpending] at happly
    cases happly
  · exact absurd hactive hother
  · rw [hdate hpath] at hexecuted
    cases hexecuted

/-- An actor is executed. -/
theorem once_execute (h : s.Once) (hi : s.actors[i]? = some actor)
    (hactive : s.active actor.path = some i) (hexecuted : actor.executed = false)
    (failedProcessing : Bool) : (s.execute i actor failedProcessing).Once := by
  have hold := h.actors i actor hi
  have hpending : actor.pending = none := by
    cases happly : actor.pending with
    | none => rfl
    | some apply =>
        rw [hold.executed apply happly] at hexecuted
        cases hexecuted
  have hpassed : ∀ update ∈ allUpdates (actor.updateList ++ actor.storedOptions),
      update.id ∈ s.handed → Passed s.database actor update := by
    intro update hmem hhanded
    rw [allUpdates, List.flatMap_append] at hmem
    rcases List.mem_append.mp hmem with hmem | hmem
    · exact h.passed hi hactive hpending (fun _ => hexecuted) hmem hhanded
    · refine absurd hhanded (hold.unlisted _ ?_)
      rw [groupIds_append]
      exact List.mem_append_left _ (mem_groupIds hmem)
  have hset : (s.setActor i { actor with
      executed := true
      updateList := actor.updateList ++ actor.storedOptions
      storedOptions := [] }).Once := by
    refine h.setActor hi rfl ?_ ⟨?_, ?_, fun _ _ => rfl⟩
    · intro x
      simp only [UpdatesActor.ids, groupIds_append, List.count_append, groupIds_nil,
        List.count_nil]
      omega
    · intro x hx
      refine hold.unlisted x ?_
      rw [groupIds_append] at hx ⊢
      exact List.mem_append_right _ hx
    · exact fun update hmem hhanded => .inl (hpassed update hmem hhanded)
  have hcheck := once_check hset (getElem?_setActor hi) hpending rfl hpassed failedProcessing
  rw [check_setActor] at hcheck
  simp only [execute]
  split
  · split
    · exact hcheck.completeAction .withDate
    · exact hset.completeAction .withDate
  · exact hcheck

/-- The lists of an actor are joined, in a state with a later database. -/
theorem Once.joined (h : s.Once) (hi : s.actors[i]? = some actor)
    (hexecuted : actor.executed = true) (database : DatabaseState) (moves : List PtsMove)
    (hpts : s.database.pts ≤ database.pts) (hqts : s.database.qts ≤ database.qts)
    (hpassed : ∀ update ∈ allUpdates actor.updateList, update.id ∈ s.handed →
      Passed database actor update ∨ actor.path = .withDate) :
    ({ s with database := database, moves := moves }.setActor i { actor with
      pending := none
      updateList := actor.updateList ++ actor.waitingForApplyUpdatesQueue
      waitingForApplyUpdatesQueue := [] }).Once ∧
    (actor.path ≠ .withDate → ∀ update ∈ allUpdates
        (actor.updateList ++ actor.waitingForApplyUpdatesQueue),
      update.id ∈ s.handed → Passed database actor update) := by
  have hold := h.actors i actor hi
  have hlisted : ∀ update ∈ allUpdates
      (actor.updateList ++ actor.waitingForApplyUpdatesQueue), update.id ∈ s.handed →
      Passed database actor update ∨ actor.path = .withDate := by
    intro update hmem hhanded
    rw [allUpdates, List.flatMap_append] at hmem
    rcases List.mem_append.mp hmem with hmem | hmem
    · exact hpassed update hmem hhanded
    · refine absurd hhanded (hold.unlisted _ ?_)
      rw [groupIds_append]
      exact List.mem_append_right _ (mem_groupIds hmem)
  have hactor : ({ s with database, moves } : UpdatesState).actors[i]? = some actor := hi
  refine ⟨(h.database moves hpts hqts).setActor hactor rfl ?_ ⟨?_, ?_, ?_⟩, ?_⟩
  · intro x
    simp only [UpdatesActor.ids, groupIds_append, List.count_append, groupIds_nil,
      List.count_nil]
    omega
  · intro x hx
    refine hold.unlisted x ?_
    rw [List.append_nil] at hx
    rw [groupIds_append]
    exact List.mem_append_left _ hx
  · intro update hmem hhanded
    rcases hlisted update hmem hhanded with hpassed | hdate
    · exact .inl hpassed
    · exact .inr (.inr (.inr ⟨hdate, hexecuted⟩))
  · exact fun _ _ => hexecuted
  · intro hdate update hmem hhanded
    exact (hlisted update hmem hhanded).resolve_right hdate

/-- An apply is complete, and the counters it brings are not behind the stored ones. -/
theorem once_complete (h : s.Once) (hi : s.actors[i]? = some actor) {apply : PendingApply}
    (happly : actor.pending = some apply)
    (hpts : actor.path ≠ .withDate → apply.statePts ≤ 0 ∨ s.database.pts ≤ apply.statePts)
    (hqts : actor.path ≠ .withDate → apply.stateQts ≤ 0 ∨ s.database.qts ≤ apply.stateQts)
    (failedProcessing : Bool) : (s.complete i actor apply failedProcessing).Once := by
  have hold := h.actors i actor hi
  have hexecuted := hold.executed apply happly
  have hspent : ∀ update ∈ allUpdates actor.updateList, update.id ∈ s.handed →
      Passed s.database actor update ∨ WillPass actor update ∨ actor.path = .withDate := by
    intro update hmem hhanded
    rcases hold.listed update hmem hhanded with hpassed | hwill | ⟨-, hnone⟩ | ⟨hpath, -⟩
    · exact .inl hpassed
    · exact .inr (.inl hwill)
    · rw [happly] at hnone
      cases hnone
    · exact .inr (.inr hpath)
  simp only [complete]
  split
  · rename_i hdate
    split
    · exact (h.joined hi hexecuted _ s.moves (by simp [DatabaseState.applyPts])
        (by simp [DatabaseState.applyPts]) fun _ _ _ => .inr hdate).1
    · exact (h.joined hi hexecuted s.database s.moves (le_refl _) (le_refl _)
        fun _ _ _ => .inr hdate).1
  · rename_i hdate
    have hpts := hpts hdate
    have hqts := hqts hdate
    obtain ⟨hset, hpassed⟩ := h.joined hi hexecuted
      (s.database.applyPts apply.statePts apply.optionalFinalDate apply.optionalFinalSeq
        apply.stateQts)
      (⟨s.database.pts, _, some apply.updates⟩ :: s.moves)
      (by simp only [DatabaseState.applyPts]; split <;> omega)
      (by simp only [DatabaseState.applyPts]; split <;> omega)
      (by
        intro update hmem hhanded
        left
        have hptsNonneg := s.database.pts_nonneg
        have hqtsNonneg := s.database.qts_nonneg
        rcases hspent update hmem hhanded with hpassed | ⟨other, hother, hwill⟩ | hpath
        · unfold Passed at hpassed ⊢
          simp only [DatabaseState.applyPts]
          split at hpassed
          · split <;> omega
          · split <;> omega
          · exact hpassed
        · rw [happly, Option.some.injEq] at hother
          subst hother
          unfold Passed
          simp only [DatabaseState.applyPts]
          split at hwill
          · split <;> omega
          · split <;> omega
          · exact hwill.elim
        · exact absurd hpath hdate)
    have hcheck := once_check hset (getElem?_setActor (s := { s with
      database := _, moves := _ }) hi) rfl hexecuted (hpassed hdate) failedProcessing
    rwa [check_setActor] at hcheck

/-- An actor that has its path gets more groups, whose updates are new to the rest. -/
theorem once_watcherJoined (h : s.Once) (hi : s.actors[i]? = some actor)
    (hactive : s.active actor.path = some i) {options : List UpdatesGroup}
    (hoptions : (groupIds options ++ s.held).Nodup)
    (hlt : ∀ x ∈ groupIds options, x < s.nextUpdate)
    (hnot : ∀ x ∈ groupIds options, x ∉ s.handed) (failedProcessing : Bool) :
    (s.watcherJoined i actor options failedProcessing).Once := by
  obtain ⟨hunlisted, hlisted, hexecuted⟩ := h.actors i actor hi
  have hreplace := fun actor' hpath hcount hactor =>
    @Once.replace s i actor actor' h hi hpath (groupIds options) hoptions hlt hcount []
      h.handed_nodup (fun _ hx => absurd hx List.not_mem_nil) hactor
  simp only [watcherJoined]
  split
  · refine hreplace { actor with waitingForApplyUpdatesQueue := _ } rfl ?_ ⟨?_, hlisted, hexecuted⟩
    · intro x
      simp only [UpdatesActor.ids, groupIds_append, List.count_append]
      omega
    · intro x hx
      simp only [groupIds_append, List.mem_append] at hx hunlisted
      rcases hx with hx | hx | hx
      · exact hunlisted x (.inl hx)
      · exact hunlisted x (.inr hx)
      · exact hnot x hx
  · rename_i hnone
    have hpending : actor.pending = none := by
      cases happly : actor.pending with
      | none => rfl
      | some apply => simp [happly] at hnone
    split
    · refine hreplace { actor with updateList := [] } rfl ?_ ⟨hunlisted, ?_, hexecuted⟩
      · intro x
        simp only [UpdatesActor.ids, groupIds_append, List.count_append, groupIds_nil,
          List.count_nil]
        omega
      · intro update hmem
        cases hmem
    · rename_i hdate
      have hpassed : ∀ update ∈ allUpdates (actor.updateList ++ options),
          update.id ∈ s.handed → Passed s.database actor update := by
        intro update hmem hhanded
        rw [allUpdates, List.flatMap_append] at hmem
        rcases List.mem_append.mp hmem with hmem | hmem
        · exact h.passed hi hactive hpending (fun hpath => absurd hpath hdate) hmem hhanded
        · exact absurd hhanded (hnot _ (mem_groupIds hmem))
      have hset : (s.setActor i
          { actor with updateList := actor.updateList ++ options }).Once := by
        refine hreplace { actor with updateList := _ } rfl ?_ ⟨hunlisted, ?_, hexecuted⟩
        · intro x
          simp only [UpdatesActor.ids, groupIds_append, List.count_append]
          omega
        · exact fun update hmem hhanded => .inl (hpassed update hmem hhanded)
      split
      · rename_i hexec
        have hcheck := once_check hset (getElem?_setActor hi) hpending hexec hpassed
          failedProcessing
        rwa [check_setActor] at hcheck
      · exact hset

/-- A new actor gets a path, and groups whose updates are new. -/
theorem Once.spawn (h : s.Once) (path : UpdatesPath) {options : List UpdatesGroup}
    (hoptions : (groupIds options ++ s.held).Nodup)
    (hlt : ∀ x ∈ groupIds options, x < s.nextUpdate)
    (hnot : ∀ x ∈ groupIds options, x ∉ s.handed) :
    { s with
      actors := s.actors ++ [UpdatesActor.new path options]
      active := Function.update s.active path (some s.actors.length) }.Once := by
  have hids : (UpdatesActor.new path options).ids = groupIds options := by
    simp [UpdatesActor.ids, UpdatesActor.new]
  have hheld : ∀ x, { s with
      actors := s.actors ++ [UpdatesActor.new path options]
      active := Function.update s.active path (some s.actors.length) }.held.count x ≤
        (groupIds options ++ s.held).count x := by
    intro x
    simp only [held, requestIds, List.flatMap_append, List.flatMap_cons, List.flatMap_nil,
      List.append_nil, hids, List.count_append]
    omega
  obtain ⟨hnodup, hsubset⟩ := of_count_le hheld
  refine ⟨hnodup hoptions, ?_, h.handed_nodup, h.handed_lt, h.requested, ?_, ?_⟩
  · intro x hx
    rcases List.mem_append.mp (hsubset hx) with hx | hx
    · exact hlt x hx
    · exact h.held_lt x hx
  · intro j other hj
    rcases Nat.lt_or_ge j s.actors.length with hlength | hlength
    · rw [List.getElem?_append_left hlength] at hj
      obtain ⟨hunlisted, hlisted, hexecuted⟩ := h.actors j other hj
      refine ⟨hunlisted, ?_, hexecuted⟩
      intro update hmem hhanded
      rcases hlisted update hmem hhanded with hpassed | hwill | ⟨hother, hnone⟩ | hdate
      · exact .inl hpassed
      · exact .inr (.inl hwill)
      · refine .inr (.inr (.inl ⟨?_, hnone⟩))
        show Function.update s.active path (some s.actors.length) other.path ≠ some j
        by_cases hpath : other.path = path
        · rw [hpath, Function.update_self]
          intro hsome
          exact absurd (Option.some.inj hsome) hlength.ne'
        · rw [Function.update_of_ne hpath]
          exact hother
      · exact .inr (.inr (.inr hdate))
    · rw [List.getElem?_append_right hlength] at hj
      have hzero : j - s.actors.length = 0 := by
        by_contra hne
        rw [List.getElem?_eq_none (by simp only [List.length_singleton]; omega)] at hj
        cases hj
      rw [hzero, List.getElem?_cons_zero, Option.some.injEq] at hj
      subst hj
      refine ⟨?_, ?_, ?_⟩
      · intro x hx
        refine hnot x ?_
        simpa [UpdatesActor.new] using hx
      · intro update hmem
        cases hmem
      · intro apply happly
        cases happly
  · intro other j hother
    replace hother : Function.update s.active path (some s.actors.length) other = some j := hother
    by_cases hpath : other = path
    · subst hpath
      rw [Function.update_self, Option.some.injEq] at hother
      subst hother
      exact ⟨UpdatesActor.new other options, by simp, rfl⟩
    · rw [Function.update_of_ne hpath] at hother
      obtain ⟨actor, hj, hactor⟩ := h.active other j hother
      refine ⟨actor, ?_, hactor⟩
      rw [List.getElem?_append_left (List.getElem?_eq_some_iff.mp hj).1]
      exact hj

/-- The stage takes a request. -/
theorem once_request (h : s.Once) (failedProcessing : Bool) :
    (s.request failedProcessing).Once := by
  simp only [request]
  split
  · exact h
  · rename_i path options requests hrequests
    have hheld : s.held = groupIds options ++ { s with requests := requests }.held := by
      simp only [held, requestIds, hrequests, List.flatMap_cons, groupIds_append,
        List.append_assoc]
    have hnodup := h.held_nodup
    have hrequested := h.requested
    rw [hheld] at hnodup
    simp only [requestIds, hrequests, List.flatMap_cons, groupIds_append] at hrequested
    have hrest : { s with requests := requests }.Once := by
      refine ⟨(List.nodup_append.mp hnodup).2.1, ?_, h.handed_nodup, h.handed_lt, ?_, ?_,
        h.active⟩
      · exact fun x hx => h.held_lt x (hheld ▸ List.mem_append_right _ hx)
      · exact fun x hx => hrequested x (List.mem_append_right _ hx)
      · intro j other hj
        obtain ⟨hunlisted, hlisted, hexecuted⟩ := h.actors j other hj
        exact ⟨hunlisted, hlisted, hexecuted⟩
    have hlt : ∀ x ∈ groupIds options, x < s.nextUpdate := fun x hx =>
      h.held_lt x (hheld ▸ List.mem_append_left _ hx)
    have hnot : ∀ x ∈ groupIds options, x ∉ s.handed := fun x hx =>
      hrequested x (List.mem_append_left _ hx)
    split
    · rename_i i hactive
      split
      · rename_i actor hi
        obtain ⟨other, hother, hpath⟩ := h.active path i hactive
        have hsame : other = actor := Option.some.inj (hother.symm.trans hi)
        refine once_watcherJoined hrest hi ?_ hnodup hlt hnot failedProcessing
        rw [← hsame, hpath]
        exact hactive
      · exact hrest
    · have hspawn := hrest.spawn path hnodup hlt hnot
      split
      · refine once_execute hspawn (by simp) ?_ rfl failedProcessing
        exact Function.update_self ..
      · exact hspawn

end Kept

/-! ### New updates -/

/-- The updates collected so far. -/
def collectedIds (c : CollectedUpdates) : List ℕ :=
  groupIds (c.withPts ++ c.withQts ++ c.withSeq ++ c.withDate)

/-- What is collected are new updates, each of them once; `start` was the next identity. -/
structure CollectedOnce (start : ℕ) (c : CollectedUpdates) : Prop where
  nodup : (collectedIds c).Nodup
  range : ∀ x ∈ collectedIds c, start ≤ x ∧ x < c.nextUpdate
  start_le : start ≤ c.nextUpdate

/-- A body whose updates go to one list each: no update of a container has a `pts`. -/
def NoSharedPts : UpdatesBody → Prop
  | .updates contained _ _ => ∀ pts ptsCount, .pts pts ptsCount ∉ contained
  | .updatesCombined contained _ _ _ => ∀ pts ptsCount, .pts pts ptsCount ∉ contained
  | _ => True

section Collected

variable {start : ℕ} {c : CollectedUpdates}

/-- New updates have new identities. -/
theorem newUpdates_ids (next : ℕ) (contained : List Counters) :
    (CollectedUpdates.newUpdates next contained).map Update.id =
      List.range' next contained.length := by
  rw [CollectedUpdates.newUpdates, List.map_map]
  exact List.zipIdx_map_snd next contained

/-- More is collected: `count` new updates at most once each. -/
theorem CollectedOnce.more (h : CollectedOnce start c) {c' : CollectedUpdates} (count : ℕ)
    (hnext : c'.nextUpdate = c.nextUpdate + count)
    (hcount : ∀ x, (collectedIds c').count x ≤
      (collectedIds c ++ List.range' c.nextUpdate count).count x) : CollectedOnce start c' := by
  obtain ⟨hnodup, hsubset⟩ := of_count_le hcount
  have hstart := h.start_le
  refine ⟨hnodup ?_, ?_, by omega⟩
  · refine List.nodup_append.mpr ⟨h.nodup, List.nodup_range', ?_⟩
    rintro x hx y hy rfl
    have hlt := (h.range x hx).2
    have hge := (List.mem_range'_1.mp hy).1
    omega
  · intro x hx
    rcases List.mem_append.mp (hsubset hx) with hx | hx
    · have hrange := h.range x hx
      omega
    · have hrange := List.mem_range'_1.mp hx
      omega

/-- A container without a `pts` puts each update in one list. -/
theorem CollectedOnce.addContainer (h : CollectedOnce start c) {contained : List Counters}
    (hpts : ∀ pts ptsCount, .pts pts ptsCount ∉ contained) (date seqStart seqEnd : ℤ) :
    CollectedOnce start (c.addContainer contained date seqStart seqEnd) := by
  refine h.more contained.length rfl ?_
  intro x
  have hnoPts : (CollectedUpdates.newUpdates c.nextUpdate contained).filter Update.hasPts =
      [] := by
    refine List.filter_eq_nil_iff.mpr ?_
    intro update hmem hhas
    obtain ⟨⟨counters, id⟩, hpair, rfl⟩ := List.mem_map.mp hmem
    have hin := List.fst_mem_of_mem_zipIdx hpair
    cases counters with
    | pts pts ptsCount => exact hpts pts ptsCount hin
    | qts qts => cases hhas
    | none => cases hhas
  have hsplit := ((List.filter_append_perm Update.hasQts
    (CollectedUpdates.newUpdates c.nextUpdate contained)).map Update.id).count_eq x
  rw [newUpdates_ids, List.map_append, List.count_append] at hsplit
  simp only [CollectedUpdates.addContainer, collectedIds]
  rw [if_neg (not_not.mpr hnoPts)]
  split
  · split
    · simp only [groupIds_append, List.count_append, groupIds_singleton]
      omega
    · simp only [groupIds_append, List.count_append, groupIds_singleton]
      omega
  · rename_i hnoQts
    have hzero := not_not.mp hnoQts
    rw [hzero] at hsplit
    simp only [List.map_nil, List.count_nil] at hsplit
    split
    · simp only [groupIds_append, List.count_append, groupIds_singleton]
      omega
    · simp only [groupIds_append, List.count_append, groupIds_singleton]
      omega

/-- A body whose updates go to one list each. -/
theorem CollectedOnce.addBody (h : CollectedOnce start c) {body : UpdatesBody}
    (hbody : NoSharedPts body) : CollectedOnce start (c.addBody body) := by
  have hone : List.range' c.nextUpdate 1 = [c.nextUpdate] := rfl
  cases body with
  | updates contained date seq => exact h.addContainer hbody date seq seq
  | updatesCombined contained date seqStart seq => exact h.addContainer hbody date seqStart seq
  | updateShort update date =>
      simp only [CollectedUpdates.addBody, CollectedUpdates.addShort]
      split
      · refine h.more 1 rfl fun x => ?_
        simp only [collectedIds, groupIds_append, groupIds_singleton, List.map_cons,
          List.map_nil, List.count_append, hone]
        omega
      · split
        · refine h.more 1 rfl fun x => ?_
          simp only [collectedIds, groupIds_append, groupIds_singleton, List.map_cons,
            List.map_nil, List.count_append, hone]
          omega
        · refine h.more 1 rfl fun x => ?_
          simp only [collectedIds, groupIds_append, groupIds_singleton, List.map_cons,
            List.map_nil, List.count_append, hone]
          omega
  | shortMessage pts ptsCount =>
      refine h.more 1 rfl fun x => ?_
      simp only [CollectedUpdates.addBody, collectedIds, groupIds_append, groupIds_singleton,
        List.map_cons, List.map_nil, List.count_append, hone]
      omega
  | tooLong => exact h

/-- Nothing is collected at first. -/
theorem collectedOnce_empty (nextUpdate nextGroup : ℕ) :
    CollectedOnce nextUpdate (CollectedUpdates.empty nextUpdate nextGroup) :=
  ⟨List.nodup_nil, fun _ hx => absurd hx List.not_mem_nil, le_refl _⟩

/-- All bodies of a call of `processMessages:`. -/
theorem CollectedOnce.foldl (h : CollectedOnce start c) {bodies : List UpdatesBody}
    (hbodies : ∀ body ∈ bodies, NoSharedPts body) :
    CollectedOnce start (bodies.foldl CollectedUpdates.addBody c) := by
  induction bodies generalizing c with
  | nil => exact h
  | cons body bodies ih =>
      exact ih (h.addBody (hbodies body List.mem_cons_self)) fun other hother =>
        hbodies other (List.mem_cons_of_mem _ hother)

/-- The requests for what was collected list it all. -/
theorem requestsOf_ids (c : CollectedUpdates) :
    groupIds ((requestsOf c).flatMap Prod.snd) = collectedIds c := by
  have hfilter : ∀ requests : List (UpdatesPath × List UpdatesGroup),
      (requests.filter fun request => request.2 ≠ []).flatMap Prod.snd =
        requests.flatMap Prod.snd := by
    intro requests
    induction requests with
    | nil => rfl
    | cons request requests ih =>
        by_cases hempty : request.2 = []
        · rw [List.filter_cons_of_neg (by simp [hempty]), ih, List.flatMap_cons, hempty,
            List.nil_append]
        · rw [List.filter_cons_of_pos (by simp [hempty]), List.flatMap_cons, ih,
            List.flatMap_cons]
  rw [requestsOf, hfilter, collectedIds]
  simp only [List.flatMap_cons, List.flatMap_nil, List.append_nil, List.append_assoc]

/-- What was collected is requested. -/
theorem Once.addCollected {s : UpdatesState} (h : s.Once) (hc : CollectedOnce s.nextUpdate c) :
    (s.addCollected c).Once := by
  have hids : (s.addCollected c).requestIds = s.requestIds ++ collectedIds c := by
    simp only [requestIds, UpdatesState.addCollected, List.flatMap_append, groupIds_append,
      requestsOf_ids]
  have hcount : ∀ x, (s.addCollected c).held.count x ≤ (collectedIds c ++ s.held).count x := by
    intro x
    rw [held, hids]
    simp only [held, UpdatesState.addCollected, List.count_append]
    omega
  have hstart := hc.start_le
  obtain ⟨hnodup, hsubset⟩ := of_count_le hcount
  refine ⟨hnodup ?_, ?_, h.handed_nodup, ?_, ?_, ?_, h.active⟩
  · refine List.nodup_append.mpr ⟨hc.nodup, h.held_nodup, ?_⟩
    rintro x hx y hy rfl
    exact absurd (h.held_lt x hy) (Nat.not_lt.mpr (hc.range x hx).1)
  · intro x hx
    rcases List.mem_append.mp (hsubset hx) with hx | hx
    · exact (hc.range x hx).2
    · exact lt_of_lt_of_le (h.held_lt x hx) hstart
  · exact fun x hx => lt_of_lt_of_le (h.handed_lt x hx) hstart
  · intro x hx hhanded
    rw [hids] at hx
    rcases List.mem_append.mp hx with hx | hx
    · exact h.requested x hx hhanded
    · exact absurd (h.handed_lt x hhanded) (Nat.not_lt.mpr (hc.range x hx).1)
  · intro j other hj
    obtain ⟨hunlisted, hlisted, hexecuted⟩ := h.actors j other hj
    exact ⟨hunlisted, hlisted, hexecuted⟩

end Collected

/-! ### Steps and runs -/

section Steps

variable {s : UpdatesState}

/-- The condition on a step: a container brings no update with a `pts`, and no write takes
the stored `pts` or `qts` back. -/
def SplitsAndAdvances (s : UpdatesState) : UpdatesEvent → Prop
  | .processMessages bodies => ∀ body ∈ bodies, NoSharedPts body
  | .addUpdates body => NoSharedPts body
  | .complete i _ => ∀ actor, s.actors[i]? = some actor → ∀ apply,
      actor.pending = some apply → actor.path ≠ .withDate →
      (apply.statePts ≤ 0 ∨ s.database.pts ≤ apply.statePts) ∧
        (apply.stateQts ≤ 0 ∨ s.database.qts ≤ apply.stateQts)
  | .difference pts _ _ qts =>
      (pts ≤ 0 ∨ s.database.pts ≤ pts) ∧ (qts ≤ 0 ∨ s.database.qts ≤ qts)
  | _ => True

/-- **One step keeps the invariant** under the condition. -/
theorem once_step (h : s.Once) {event : UpdatesEvent} (hcond : s.SplitsAndAdvances event) :
    (s.step event).Once := by
  cases event with
  | processMessages bodies =>
      exact h.addCollected ((collectedOnce_empty s.nextUpdate s.nextGroup).foldl hcond)
  | addUpdates body =>
      have hempty := collectedOnce_empty s.nextUpdate s.nextGroup
      have hnil : ∀ pts ptsCount, (Counters.pts pts ptsCount) ∉ ([] : List Counters) :=
        fun _ _ => List.not_mem_nil
      refine h.addCollected ?_
      cases body with
      | updates contained date seq => exact hempty.addContainer hcond date seq seq
      | updatesCombined contained date seqStart seq =>
          exact hempty.addContainer hcond date seqStart seq
      | updateShort update date => exact hempty.addContainer hnil 0 0 0
      | shortMessage pts ptsCount => exact hempty.addContainer hnil 0 0 0
      | tooLong => exact hempty.addContainer hnil 0 0 0
  | updatePts pts ptsCount seq =>
      refine h.addCollected ⟨?_, ?_, Nat.le_succ _⟩
      · simp only [collectPtsUpdate, collectedIds]
        split <;> split <;> simp [groupIds, allUpdates]
      · simp only [collectPtsUpdate, collectedIds]
        split <;> split <;> simp [groupIds, allUpdates]
  | request failedProcessing => exact once_request h failedProcessing
  | execute path failedProcessing =>
      simp only [step]
      split
      · rename_i i hactive
        split
        · rename_i actor hi
          split
          · exact h
          · rename_i hexecuted
            obtain ⟨other, hother, hpath⟩ := h.active path i hactive
            have hsame : other = actor := Option.some.inj (hother.symm.trans hi)
            refine once_execute h hi ?_ (Bool.not_eq_true _ ▸ hexecuted) failedProcessing
            rw [← hsame, hpath]
            exact hactive
        · exact h
      · exact h
  | complete i failedProcessing =>
      simp only [step]
      split
      · rename_i actor hi
        split
        · rename_i apply happly
          exact once_complete h hi happly (fun hdate => (hcond actor hi apply happly hdate).1)
            (fun hdate => (hcond actor hi apply happly hdate).2) failedProcessing
        · exact h
      · exact h
  | timeoutReached i =>
      simp only [step]
      split
      · rename_i actor hi
        split
        · obtain ⟨hunlisted, hlisted, hexecuted⟩ := h.actors i actor hi
          have hset := fun actor' hpath hcount hactor =>
            @Once.setActor s i actor actor' h hi hpath hcount hactor
          simp only [fail]
          split
          · exact hset actor rfl (fun _ => le_refl _) ⟨hunlisted, hlisted, hexecuted⟩
          · exact (hset { actor with timeoutTimer := false } rfl (fun _ => le_refl _)
              ⟨hunlisted, hlisted, hexecuted⟩).completeAction actor.path
        · exact h
      · exact h
  | difference pts date seq qts =>
      obtain ⟨hpts, hqts⟩ := hcond
      refine h.database _ ?_ ?_
      · simp only [DatabaseState.applyPts]
        split <;> omega
      · simp only [DatabaseState.applyPts]
        split <;> omega

/-- Before the first step nothing is listed. -/
theorem once_init (database : DatabaseState) : (init database).Once :=
  ⟨List.nodup_nil, fun _ hx => absurd hx List.not_mem_nil, List.nodup_nil,
    fun _ hx => absurd hx List.not_mem_nil, fun _ hx => absurd hx List.not_mem_nil,
    fun _ _ hi => absurd hi (by simp [init]), fun _ _ hactive => absurd hactive (by simp [init])⟩

/-- **Every update is handed over at most once** in a run whose steps all meet the
condition. -/
theorem handed_once (database : DatabaseState) (events : List UpdatesEvent)
    (hcond : Machine.AllSteps step SplitsAndAdvances (init database) events) :
    Machine.Always step (fun s => s.handed.Nodup) (init database) events := by
  have hstep : ∀ s event, Once s → s.SplitsAndAdvances event → (s.step event).Once :=
    fun _ _ hs hstep => once_step hs hstep
  have halways := Machine.always_of_allSteps hstep (once_init database) hcond
  exact halways.mono fun s hs => hs.handed_nodup

end Steps

/-- A container without a `seq` brings an update that is next in line. -/
def sharedEvents : List UpdatesEvent :=
  [.processMessages [.updates [.pts 2 1] 1 0], .request false, .execute .withPts false,
    .complete 0 false, .request false]

/-- **The date path applies an update again** that the pts path has applied. -/
theorem handed_once_twice :
    ¬∀ (database : DatabaseState) (events : List UpdatesEvent),
      Machine.Always step (fun s => s.handed.Nodup) (init database) events := by
  intro hall
  have hhanded : (Machine.run step (init freshDatabase) sharedEvents).handed = [0, 0] := by
    decide +kernel
  have hnodup := (hall freshDatabase sharedEvents).last
  simp only [hhanded] at hnodup
  exact absurd hnodup (by decide)

/-- A container with a secret message, and one with a short update. -/
def separateEvents : List UpdatesEvent :=
  [.processMessages [.updates [.qts 1, .none] 1 1, .updateShort (.pts 2 1) 1], .request false,
    .request false, .request false, .execute .withPts false, .execute .withQts false,
    .execute .withSeq false]

/-- Updates that go to one list each are handed over once each. -/
theorem handed_once_separate :
    Machine.Always step (fun s => s.handed.Nodup) (init freshDatabase) separateEvents := by
  refine handed_once freshDatabase separateEvents
    ⟨?_, trivial, trivial, trivial, trivial, trivial, trivial, trivial⟩
  intro body hbody
  rcases List.mem_cons.mp hbody with rfl | hbody
  · intro pts ptsCount hmem
    simp at hmem
  · rw [List.mem_singleton.mp hbody]
    trivial

end UpdatesState

end Telegraph.Updates
