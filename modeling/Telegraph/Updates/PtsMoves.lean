import Telegraph.Updates.ApplyUpdates

/-!
# What Moves the Stored Pts

Three of the actors write the `pts` of the updates they have applied, and only the one of
the pts path has compared it with the stored one. This module follows the writes through
the runs of the system: which of them pass over a number that no update just applied
accounts for.

## Main results

* `complete_covers`: a write of an apply leaves no number out, under a condition on the
  stored `pts`.
* `crossed`: a number between the `pts` of two states of a run is passed by a write.
* `pts_covered`: **no update is skipped** in runs whose writes all meet the condition.
-/

namespace Telegraph.Updates

namespace UpdatesState

/-! ### The property -/

/-- Every write of an actor that raises the `pts` passes only over numbers that the updates
just applied cover. -/
def MovesCovered (s : UpdatesState) : Prop :=
  ∀ move ∈ s.moves, ∀ updates, move.updates = some updates → move.before < move.after →
    Covers updates move.before move.after

/-- `x` is accounted for by some writes: an update that was applied covers it, or a
difference of the server passes over it. -/
def Accounted (moves : List PtsMove) (x : ℤ) : Prop :=
  ∃ move ∈ moves, move.before < x ∧ x ≤ move.after ∧
    ∀ updates, move.updates = some updates →
      ∃ update ∈ updates, update.pts - update.ptsCount < x ∧ x ≤ update.pts

/-- The condition on a completion block. On the pts path, the stored `pts` is not below what
the check has compared; on the others, the updates pass the gap check of the pts path
against the stored `pts`. Neither is asked where the `pts` is not raised. -/
def WritesInOrder (s : UpdatesState) : UpdatesEvent → Prop
  | .complete i _ => ∀ actor, s.actors[i]? = some actor → ∀ apply,
      actor.pending = some apply → s.database.pts < apply.statePts →
      match actor.path with
      | .withPts => apply.databaseState.pts ≤ s.database.pts
      | .withDate => True
      | _ => (collectPts s.database.pts apply.updates).gap = false
  | _ => True

/-! ### Pending applies -/

/-- What the pending apply of an actor has to do with its updates. -/
def PendingSound (actor : UpdatesActor) : Prop :=
  ∀ apply, actor.pending = some apply →
    apply.statePts = statePts apply.updates ∧
      (actor.path = .withPts →
        Contiguous Update.pts Update.ptsCount apply.databaseState.pts apply.updates)

/-- The pending applies of all actors are sound. -/
def AllSound (s : UpdatesState) : Prop :=
  ∀ actor ∈ s.actors, PendingSound actor

section Sound

variable {s : UpdatesState} {i : ℕ} {actor : UpdatesActor} {failedProcessing : Bool}

theorem allSound_setActor (h : s.AllSound) (hactor : PendingSound actor) :
    (s.setActor i actor).AllSound := by
  intro other hmem
  rcases List.mem_or_eq_of_mem_set hmem with hmem | rfl
  · exact h other hmem
  · exact hactor

theorem allSound_fail (h : s.AllSound) (hactor : PendingSound actor) :
    (s.fail i actor).AllSound := by
  simp only [fail]
  split
  · exact allSound_setActor h hactor
  · exact allSound_setActor h (show PendingSound { actor with timeoutTimer := false } from hactor)

/-- A check keeps the pending applies sound: what it applies on the pts path continues the
stored `pts`. -/
theorem allSound_check (h : s.AllSound) (hactor : PendingSound actor) :
    (s.check i actor failedProcessing).AllSound := by
  obtain ⟨hpath, -, -, -, hpending, -⟩ := check_spec actor s.database
  have hchecked : PendingSound (actor.check s.database).1 := by
    intro apply happly
    rw [hpending] at happly
    rw [hpath]
    exact hactor apply happly
  have happlies := @check_applies_pts actor s.database
  simp only [check]
  split
  · rename_i actor' hcheck
    rw [hcheck] at hchecked
    exact allSound_setActor h hchecked
  · rename_i actor' hcheck
    rw [hcheck] at hchecked
    exact allSound_setActor h hchecked
  · rename_i actor' updates seq date hcheck
    rw [hcheck] at hchecked hpath happlies
    simp only [tryApplyingUpdates]
    split
    · exact allSound_fail h hchecked
    · refine allSound_setActor h ?_
      intro apply happly
      cases happly
      refine ⟨rfl, fun hpts => ?_⟩
      rw [happlies (hpath.symm.trans hpts) rfl]
      exact contiguous_inOrder

theorem allSound_execute (h : s.AllSound) (hactor : PendingSound actor) :
    (s.execute i actor failedProcessing).AllSound := by
  simp only [execute]
  split
  · split
    · exact allSound_check h hactor
    · exact allSound_setActor h hactor
  · exact allSound_check h hactor

theorem allSound_watcherJoined {options : List UpdatesGroup} (h : s.AllSound)
    (hactor : PendingSound actor) :
    (s.watcherJoined i actor options failedProcessing).AllSound := by
  simp only [watcherJoined]
  split
  · exact allSound_setActor h hactor
  · split
    · exact allSound_setActor h hactor
    · split
      · exact allSound_check h hactor
      · exact allSound_setActor h hactor

theorem allSound_request (h : s.AllSound) : (s.request failedProcessing).AllSound := by
  simp only [request]
  split
  · exact h
  · rename_i path options requests hrequests
    split
    · split
      · rename_i j hactive actor hactor
        exact allSound_watcherJoined h (h actor (List.mem_of_getElem? hactor))
      · exact h
    · have hnew : PendingSound (UpdatesActor.new path options) := by
        intro apply happly
        cases happly
      have hall : ∀ actor ∈ s.actors ++ [UpdatesActor.new path options],
          PendingSound actor := by
        intro actor hmem
        rcases List.mem_append.mp hmem with hmem | hmem
        · exact h actor hmem
        · rw [List.mem_singleton.mp hmem]
          exact hnew
      split
      · exact allSound_execute hall hnew
      · exact hall

theorem allSound_complete {apply : PendingApply} (h : s.AllSound) :
    (s.complete i actor apply failedProcessing).AllSound := by
  have hnone : ∀ actor : UpdatesActor, actor.pending = none → PendingSound actor := by
    intro actor hpending apply happly
    rw [hpending] at happly
    cases happly
  simp only [complete]
  split
  · split
    · exact allSound_setActor h (hnone _ rfl)
    · exact allSound_setActor h (hnone _ rfl)
  · exact allSound_check h (hnone _ rfl)

/-- Every step keeps the pending applies sound. -/
theorem allSound_step (h : s.AllSound) (event : UpdatesEvent) : (s.step event).AllSound := by
  cases event with
  | processMessages bodies => exact h
  | addUpdates body => exact h
  | updatePts pts ptsCount seq => exact h
  | request failedProcessing => exact allSound_request h
  | execute path failedProcessing =>
      simp only [step]
      split
      · split
        · rename_i actor hactor
          split
          · exact h
          · exact allSound_execute h (h actor (List.mem_of_getElem? hactor))
        · exact h
      · exact h
  | complete i failedProcessing =>
      simp only [step]
      split
      · split
        · exact allSound_complete h
        · exact h
      · exact h
  | timeoutReached i =>
      simp only [step]
      split
      · rename_i actor hactor
        split
        · exact allSound_fail h (h actor (List.mem_of_getElem? hactor))
        · exact h
      · exact h
  | difference pts date seq qts => exact h

end Sound

/-! ### One step -/

/-- **What a step does to the `pts`**: nothing, or one write, which is recorded. -/
theorem step_moves (s : UpdatesState) (event : UpdatesEvent) :
    ((s.step event).database.pts = s.database.pts ∧ (s.step event).moves = s.moves) ∨
      ∃ move, (s.step event).moves = move :: s.moves ∧ move.before = s.database.pts ∧
        move.after = (s.step event).database.pts := by
  have hframe : ∀ t : UpdatesState, t.database = s.database ∧ t.moves = s.moves →
      t.database.pts = s.database.pts ∧ t.moves = s.moves := by
    rintro t ⟨hdatabase, hmoves⟩
    exact ⟨congrArg DatabaseState.pts hdatabase, hmoves⟩
  cases event with
  | processMessages bodies => exact .inl ⟨rfl, rfl⟩
  | addUpdates body => exact .inl ⟨rfl, rfl⟩
  | updatePts pts ptsCount seq => exact .inl ⟨rfl, rfl⟩
  | request failedProcessing => exact .inl (hframe _ (request_frame s failedProcessing))
  | execute path failedProcessing =>
      left
      simp only [step]
      split
      · split
        · split
          · exact ⟨rfl, rfl⟩
          · exact hframe _ (execute_frame s _ _ failedProcessing)
        · exact ⟨rfl, rfl⟩
      · exact ⟨rfl, rfl⟩
  | complete i failedProcessing =>
      simp only [step]
      split
      · split
        · simp only [complete]
          split
          · split
            · exact .inl ⟨rfl, rfl⟩
            · exact .inl ⟨rfl, rfl⟩
          · right
            obtain ⟨hdatabase, hmoves⟩ := check_frame
              { s with
                database := s.database.applyPts _ _ _ _
                moves := ⟨_, _, _⟩ :: s.moves } i _ failedProcessing
            exact ⟨_, hmoves, rfl, by rw [hdatabase]⟩
        · exact .inl ⟨rfl, rfl⟩
      · exact .inl ⟨rfl, rfl⟩
  | timeoutReached i =>
      left
      simp only [step]
      split
      · split
        · exact hframe _ (fail_frame s i _)
        · exact ⟨rfl, rfl⟩
      · exact ⟨rfl, rfl⟩
  | difference pts date seq qts => exact .inr ⟨_, rfl, rfl, rfl⟩

/-- **A write of an apply leaves no number out**, where it meets the condition. -/
theorem complete_covers {low high : ℤ} {updates : List Update} {path : UpdatesPath} {pts : ℤ}
    (hstate : high = statePts updates) (hpos : 0 < high)
    (hpts : path = .withPts → Contiguous Update.pts Update.ptsCount pts updates ∧ pts ≤ low)
    (hother : path ≠ .withPts → (collectPts low updates).gap = false) (hraise : low < high) :
    Covers updates low high := by
  obtain ⟨update, hmem, hgreatest⟩ := exists_eq_greatest (hstate ▸ hpos : 0 < statePts updates)
  have hhigh : update.pts = high := hgreatest.trans hstate.symm
  by_cases hpath : path = .withPts
  · obtain ⟨hcontiguous, hle⟩ := hpts hpath
    have hcovers := covers_of_contiguous hcontiguous hmem
    exact hcovers.mono hle hhigh.ge (List.Subset.refl _)
  · have hfound : update ∈ (collectPts low updates).inOrder :=
      mem_inOrder_of_no_gap (hother hpath) (mem_sortByPts.mpr hmem) (hhigh ▸ hraise)
    have hcovers := covers_of_contiguous contiguous_inOrder hfound
    refine hcovers.mono (le_refl low) hhigh.ge ?_
    intro other hother
    exact mem_sortByPts.mp (inOrder_sublist.subset hother)

/-- A write that raises the `pts` sets it to the `pts` it was given. -/
theorem applyPts_pts {state : DatabaseState} {pts date seq qts : ℤ}
    (hraise : state.pts < (state.applyPts pts date seq qts).pts) :
    0 < pts ∧ (state.applyPts pts date seq qts).pts = pts := by
  simp only [DatabaseState.applyPts] at hraise ⊢
  split at hraise
  · rename_i hpos
    rw [if_pos hpos]
    exact ⟨hpos, rfl⟩
  · exact absurd hraise (lt_irrefl _)

/-- A step that meets the condition keeps the writes covered. -/
theorem movesCovered_step {s : UpdatesState} {event : UpdatesEvent} (h : s.MovesCovered)
    (hsound : s.AllSound) (horder : s.WritesInOrder event) : (s.step event).MovesCovered := by
  have hsame : ∀ t : UpdatesState, t.moves = s.moves → t.MovesCovered := by
    intro t hmoves move hmem
    exact h move (hmoves ▸ hmem)
  cases event with
  | processMessages bodies => exact h
  | addUpdates body => exact h
  | updatePts pts ptsCount seq => exact h
  | request failedProcessing => exact hsame _ (request_frame s failedProcessing).2
  | execute path failedProcessing =>
      simp only [step]
      split
      · split
        · split
          · exact h
          · exact hsame _ (execute_frame s _ _ failedProcessing).2
        · exact h
      · exact h
  | complete i failedProcessing =>
      simp only [step]
      split
      · rename_i actor hactor
        split
        · rename_i apply happly
          obtain ⟨hstate, hcontiguous⟩ := hsound actor (List.mem_of_getElem? hactor) apply happly
          have hcond := horder actor hactor apply happly
          simp only [complete]
          split
          · split
            · exact h
            · exact h
          · rename_i hdate
            intro move hmem updates hupdates hraise
            rw [(check_frame _ i _ failedProcessing).2] at hmem
            rcases List.mem_cons.mp hmem with rfl | hmem
            · obtain rfl := Option.some.inj hupdates
              obtain ⟨hpos, hafter⟩ := applyPts_pts hraise
              simp only at hraise ⊢
              rw [hafter] at hraise ⊢
              have hcond := hcond hraise
              refine @complete_covers _ _ _ actor.path apply.databaseState.pts hstate hpos
                ?_ ?_ hraise
              · intro hpath
                rw [hpath] at hcond
                exact ⟨hcontiguous hpath, hcond⟩
              · intro hpath
                cases hactorPath : actor.path with
                | withPts => exact absurd hactorPath hpath
                | withSeq =>
                    rw [hactorPath] at hcond
                    exact hcond
                | withQts =>
                    rw [hactorPath] at hcond
                    exact hcond
                | withDate => exact absurd hactorPath hdate
            · exact h move hmem updates hupdates hraise
        · exact h
      · exact h
  | timeoutReached i =>
      simp only [step]
      split
      · split
        · exact hsame _ (fail_frame s i _).2
        · exact h
      · exact h
  | difference pts date seq qts =>
      intro move hmem updates hupdates hraise
      rcases List.mem_cons.mp hmem with rfl | hmem
      · cases hupdates
      · exact h move hmem updates hupdates hraise

/-! ### Whole runs -/

/-- The writes of a run are those before it and some more. -/
theorem moves_run (s : UpdatesState) (events : List UpdatesEvent) :
    ∃ new, (Machine.run step s events).moves = new ++ s.moves := by
  induction events generalizing s with
  | nil => exact ⟨[], rfl⟩
  | cons event events ih =>
      obtain ⟨new, hnew⟩ := ih (s.step event)
      rw [Machine.run_cons]
      rcases step_moves s event with ⟨-, hmoves⟩ | ⟨move, hmoves, -, -⟩
      · exact ⟨new, by rw [hnew, hmoves]⟩
      · exact ⟨new ++ [move], by rw [hnew, hmoves, List.append_assoc]; rfl⟩

/-- **A number between the `pts` of two states of a run is passed by a write** in between. -/
theorem crossed {x : ℤ} (s : UpdatesState) (events : List UpdatesEvent)
    (hlow : s.database.pts < x) (hhigh : x ≤ (Machine.run step s events).database.pts) :
    ∃ new, (Machine.run step s events).moves = new ++ s.moves ∧
      ∃ move ∈ new, move.before < x ∧ x ≤ move.after := by
  induction events generalizing s with
  | nil => exact absurd hhigh (not_le.mpr hlow)
  | cons event events ih =>
      rw [Machine.run_cons] at hhigh ⊢
      rcases step_moves s event with ⟨hpts, hmoves⟩ | ⟨move, hmoves, hbefore, hafter⟩
      · rw [← hmoves]
        exact ih (s.step event) (hpts ▸ hlow) hhigh
      · by_cases hx : x ≤ (s.step event).database.pts
        · obtain ⟨new, hnew⟩ := moves_run (s.step event) events
          refine ⟨new ++ [move], by rw [hnew, hmoves, List.append_assoc]; rfl, move, ?_, ?_, ?_⟩
          · exact List.mem_append_right _ (List.mem_singleton_self move)
          · rw [hbefore]
            exact hlow
          · rw [hafter]
            exact hx
        · obtain ⟨new, hnew, passed, hmem, hrange⟩ := ih (s.step event) (not_le.mp hx) hhigh
          refine ⟨new ++ [move], by rw [hnew, hmoves, List.append_assoc]; rfl, passed, ?_, hrange⟩
          exact List.mem_append_left _ hmem

/-- An expired update is not ahead of the stored `pts`. -/
theorem le_of_mem_expired {value count : Update → ℤ} {stored current : ℤ} {update : Update}
    {updates : List Update}
    (hmem : update ∈ (collectInOrder value count stored current updates).expired) :
    value update ≤ stored := by
  induction updates generalizing current with
  | nil => cases hmem
  | cons first updates ih =>
      simp only [collectInOrder] at hmem
      split at hmem
      · rename_i hfirst
        rcases List.mem_cons.mp hmem with rfl | hmem
        · exact hfirst
        · exact ih hmem
      · split at hmem
        · exact ih hmem
        · cases hmem

/-- In a run whose writes meet the condition all writes are covered. -/
theorem always_covered {s : UpdatesState} {events : List UpdatesEvent} (h : s.MovesCovered)
    (hsound : s.AllSound) (horder : Machine.AllSteps step WritesInOrder s events) :
    Machine.Always step MovesCovered s events := by
  have hboth := Machine.always_of_allSteps
    (fun s event (hs : s.AllSound ∧ s.MovesCovered) horder =>
      ⟨allSound_step hs.1 event, movesCovered_step hs.2 hs.1 horder⟩) ⟨hsound, h⟩ horder
  exact hboth.mono fun s hs => hs.2

/-- **No update is skipped** in a run whose writes all meet the condition: every write of an
actor that raises the `pts` is covered by the updates just applied; and if a check classes
an update as expired whose `pts` was ahead of the stored one at some point of the run, then
an update that was applied since has covered that `pts`, or a difference has passed it. -/
theorem pts_covered (database : DatabaseState) (events : List UpdatesEvent)
    (horder : Machine.AllSteps step WritesInOrder (init database) events) :
    Machine.Always step MovesCovered (init database) events ∧
    ∀ before after, events = before ++ after → ∀ updates, ∀ update ∈
      (collectPts (Machine.run step (init database) events).database.pts updates).expired,
      (Machine.run step (init database) before).database.pts < update.pts →
      ∃ new, (Machine.run step (init database) events).moves =
          new ++ (Machine.run step (init database) before).moves ∧ Accounted new update.pts := by
  have halways := always_covered (s := init database) (fun _ h => absurd h List.not_mem_nil)
    (fun _ h => absurd h List.not_mem_nil) horder
  refine ⟨halways, ?_⟩
  rintro before after rfl updates update hexpired hahead
  have hle := le_of_mem_expired hexpired
  have hcovered := halways.last
  rw [Machine.run_append] at hle hcovered ⊢
  obtain ⟨new, hnew, move, hmem, hlow, hhigh⟩ :=
    crossed (Machine.run step (init database) before) after hahead hle
  refine ⟨new, hnew, move, hmem, hlow, hhigh, ?_⟩
  intro applied happlied
  have hmove : move ∈ (Machine.run step
      (Machine.run step (init database) before) after).moves := by
    rw [hnew]
    exact List.mem_append_left _ hmem
  exact hcovered move hmove applied happlied (lt_of_lt_of_le hlow hhigh) _ hlow hhigh

/-- A container with a `seq` of 1 brings an update behind a gap. The actor of the pts path
waits for what is missing until its timer fires; the one of the seq path applies the
update. -/
def gapEvents : List UpdatesEvent :=
  [.processMessages [.updates [.pts 5 1] 0 1], .request false, .execute .withPts false,
    .request false, .timeoutReached 0, .execute .withSeq false, .complete 1 false]

/-- **The seq path skips updates**: it takes the `pts` from 1 to 5 with an update that
accounts for 5 only. -/
theorem pts_covered_seqPath :
    ¬∀ (database : DatabaseState) (events : List UpdatesEvent),
      Machine.Always step MovesCovered (init database) events := by
  intro hall
  have hmoves : ⟨1, 5, some [⟨0, .pts 5 1⟩]⟩ ∈
      (Machine.run step (init freshDatabase) gapEvents).moves := by
    decide +kernel
  have hcovered := (hall freshDatabase gapEvents).last _ hmoves _ rfl (by decide)
  obtain ⟨update, hmem, hlow, -⟩ := hcovered 2 (by decide) (by decide)
  rw [List.mem_singleton] at hmem
  subst hmem
  exact absurd hlow (by decide)

/-- A container whose update continues the `pts`, applied on the pts path. -/
def inOrderEvents : List UpdatesEvent :=
  [.processMessages [.updates [.pts 2 1] 0 0], .request false, .execute .withPts false,
    .complete 0 false]

/-- An update in order moves the `pts` by what it covers. -/
theorem pts_covered_inOrder :
    Machine.Always step MovesCovered (init freshDatabase) inOrderEvents := by
  have horder : Machine.AllSteps step WritesInOrder (init freshDatabase) inOrderEvents := by
    refine ⟨trivial, trivial, trivial, ?_, trivial⟩
    intro actor hactor apply happly hraise
    have hpending : ((Machine.run step (init freshDatabase)
        (inOrderEvents.take 3)).actors[0]?.bind fun actor =>
          actor.pending.map fun apply => (actor.path, apply.databaseState.pts)) =
        some (.withPts, 1) := by
      decide +kernel
    have hfound : (Machine.run step (init freshDatabase)
        (inOrderEvents.take 3)).actors[0]? = some actor := hactor
    rw [hfound, Option.bind_some, happly, Option.map_some, Option.some.injEq,
      Prod.mk.injEq] at hpending
    rw [hpending.1, hpending.2]
    have hpts : (Machine.run step (init freshDatabase)
        (inOrderEvents.take 3)).database.pts = 1 := by
      decide +kernel
    exact hpts.ge
  exact (pts_covered freshDatabase inOrderEvents horder).1

end UpdatesState

end Telegraph.Updates
