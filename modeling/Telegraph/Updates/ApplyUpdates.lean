import Telegraph.Lib.Machine
import Telegraph.Updates.UpdateGroups

/-!
# Applying Updates

The actors of `TGApplyUpdatesActor`, one path for each kind of group, between the update
service and the database. The actors of the three paths that check for gaps share a queue,
in which other actors stand too; which of them runs next, when the completion block of an
apply runs and when a timer fires is left to the events of a run. Whether an update refers
to an unknown user or chat, so that `_tryApplyingUpdates` gives up, is an argument of the
event that leads to it.

An actor that has completed is no longer reached by its path, but its completion block still
runs. Writes of the database are done before the block goes on.

## Main results

* `check_spec`: **what a check does to an actor**, on the three paths.
-/

namespace Telegraph.Updates

/-! ### The database -/

/-- What of `TGDatabaseState` the actors use. The counters that the checks compare are never
negative. -/
structure DatabaseState where
  pts : ℤ
  date : ℤ
  seq : ℤ
  qts : ℤ
  pts_nonneg : 0 ≤ pts
  qts_nonneg : 0 ≤ qts

/-- `applyPts:date:seq:qts:unreadCount:`. -/
def DatabaseState.applyPts (state : DatabaseState) (pts date seq qts : ℤ) : DatabaseState where
  pts := if pts > 0 then pts else state.pts
  date := if date > 0 ∧ date > state.date then date else state.date
  seq := if seq > 0 then seq else state.seq
  qts := if qts > 0 then qts else state.qts
  pts_nonneg := by
    split
    · omega
    · exact state.pts_nonneg
  qts_nonneg := by
    split
    · omega
    · exact state.qts_nonneg

/-- The database of a new account. -/
def freshDatabase : DatabaseState :=
  ⟨1, 0, 0, 0, by decide, by decide⟩

/-! ### Actors -/

/-- The paths of `TGApplyUpdatesActor`. -/
inductive UpdatesPath where
  | withPts
  | withSeq
  | withQts
  | withDate
deriving DecidableEq

/-- An apply that waits for its completion block, and what the block has captured. -/
structure PendingApply where
  updates : List Update
  statePts : ℤ
  stateQts : ℤ
  optionalFinalSeq : ℤ
  optionalFinalDate : ℤ
  databaseState : DatabaseState

/-- A `TGApplyUpdatesActor`. `_waitingForApplyUpdates` tells whether there is a pending
apply, `executed` whether `execute:` has run. -/
structure UpdatesActor where
  path : UpdatesPath
  executed : Bool
  storedOptions : List UpdatesGroup
  updateList : List UpdatesGroup
  waitingForApplyUpdatesQueue : List UpdatesGroup
  pending : Option PendingApply
  timeoutTimer : Bool

/-- How a check ends: the actor completes, waits, or tries to apply updates. -/
inductive CheckOutcome where
  | completes
  | waits
  | applies (updates : List Update) (optionalFinalSeq optionalFinalDate : ℤ)

namespace UpdatesActor

/-- A new actor. -/
def new (path : UpdatesPath) (options : List UpdatesGroup) : UpdatesActor :=
  ⟨path, false, options, [], [], none, false⟩

/-- What `checkPtsUpdates` and `checkQtsUpdates` make of the updates they found. -/
def takeFound (actor : UpdatesActor) (found : FoundUpdates) : UpdatesActor × CheckOutcome :=
  let kept := dropDone actor.updateList found.expired
  let actor := { actor with timeoutTimer := actor.timeoutTimer || found.gap }
  if found.inOrder ≠ [] then
    ({ actor with updateList := dropDone kept found.inOrder }, .applies found.inOrder 0 0)
  else ({ actor with updateList := kept }, if kept = [] then .completes else .waits)

/-- `checkPtsUpdates`. -/
def checkPtsUpdates (actor : UpdatesActor) (state : DatabaseState) :
    UpdatesActor × CheckOutcome :=
  if actor.updateList = [] then (actor, .completes)
  else actor.takeFound (collectPts state.pts (allUpdates actor.updateList))

/-- `checkQtsUpdates`. -/
def checkQtsUpdates (actor : UpdatesActor) (state : DatabaseState) :
    UpdatesActor × CheckOutcome :=
  if actor.updateList = [] then (actor, .completes)
  else actor.takeFound (collectQts state.qts (allUpdates actor.updateList))

/-- `checkSeqUpdates`. -/
def checkSeqUpdates (actor : UpdatesActor) (state : DatabaseState) :
    UpdatesActor × CheckOutcome :=
  if actor.updateList = [] then (actor, .completes)
  else
    let (inOrder, gap) := collectSeq state.seq actor.updateList
    let actor := { actor with timeoutTimer := actor.timeoutTimer || gap }
    if inOrder ≠ [] then
      ({ actor with updateList := actor.updateList.filter fun group => group ∉ inOrder },
        .applies (allUpdates inOrder) ((inOrder.getLast?.map UpdatesGroup.seqEnd).getD 0)
          (lastDate inOrder))
    else (actor, .waits)

/-- What an actor runs once its updates are in the list; the date path applies them all. -/
def check (actor : UpdatesActor) (state : DatabaseState) : UpdatesActor × CheckOutcome :=
  match actor.path with
  | .withPts => actor.checkPtsUpdates state
  | .withSeq => actor.checkSeqUpdates state
  | .withQts => actor.checkQtsUpdates state
  | .withDate => (actor, .applies (allUpdates (sortByDate actor.updateList)) 0 0)

end UpdatesActor

/-! ### The state of the system -/

/-- A write of the `pts`: `updates` are those just applied, and none for what the server
sent as a difference. -/
structure PtsMove where
  before : ℤ
  after : ℤ
  updates : Option (List Update)
deriving DecidableEq

/-- The update service, the actors and the database. `active` is the actor of a path that
has not completed; `requests` are those the service has made. `handed` and `moves` are
histories: the updates handed to `_tryApplyingUpdates`, and the writes of the `pts`, the last
one first. -/
structure UpdatesState where
  database : DatabaseState
  nextUpdate : ℕ
  nextGroup : ℕ
  requests : List (UpdatesPath × List UpdatesGroup)
  actors : List UpdatesActor
  active : UpdatesPath → Option ℕ
  handed : List ℕ
  moves : List PtsMove

namespace UpdatesState

/-- The start: no actor has been requested yet. -/
def init (database : DatabaseState) : UpdatesState :=
  ⟨database, 0, 0, [], [], fun _ => none, [], []⟩

/-- The fields of the actor `i` change. -/
def setActor (s : UpdatesState) (i : ℕ) (actor : UpdatesActor) : UpdatesState :=
  { s with actors := s.actors.set i actor }

/-- `completeAction`: whichever actor has the path is forgotten. -/
def completeAction (s : UpdatesState) (path : UpdatesPath) : UpdatesState :=
  { s with active := Function.update s.active path none }

/-- `_failPts`, `_failSeq` and `_failQts`; on the date path nothing happens. -/
def fail (s : UpdatesState) (i : ℕ) (actor : UpdatesActor) : UpdatesState :=
  if actor.path = .withDate then s.setActor i actor
  else (s.setActor i { actor with timeoutTimer := false }).completeAction actor.path

/-- `_tryApplyingUpdates:…`, up to the completion block. -/
def tryApplyingUpdates (s : UpdatesState) (i : ℕ) (actor : UpdatesActor)
    (updates : List Update) (optionalFinalSeq optionalFinalDate : ℤ)
    (failedProcessing : Bool) : UpdatesState :=
  let s := { s with handed := updates.map Update.id ++ s.handed }
  if failedProcessing then s.fail i actor
  else s.setActor i { actor with
    pending := some
      { updates := updates
        statePts := statePts updates
        stateQts := stateQts updates
        optionalFinalSeq := optionalFinalSeq
        optionalFinalDate := optionalFinalDate
        databaseState := s.database } }

/-- A check of the actor `i`, and what follows from it. -/
def check (s : UpdatesState) (i : ℕ) (actor : UpdatesActor) (failedProcessing : Bool) :
    UpdatesState :=
  match actor.check s.database with
  | (actor, .completes) => (s.setActor i actor).completeAction actor.path
  | (actor, .waits) => s.setActor i actor
  | (actor, .applies updates seq date) =>
      s.tryApplyingUpdates i actor updates seq date failedProcessing

/-- `execute:`. The date path completes at once; it applies nothing when there is
nothing. -/
def execute (s : UpdatesState) (i : ℕ) (actor : UpdatesActor) (failedProcessing : Bool) :
    UpdatesState :=
  let actor := { actor with
    executed := true
    updateList := actor.updateList ++ actor.storedOptions
    storedOptions := [] }
  if actor.path = .withDate then
    if allUpdates actor.updateList ≠ [] then
      (s.check i actor failedProcessing).completeAction .withDate
    else (s.setActor i actor).completeAction .withDate
  else s.check i actor failedProcessing

/-- `watcherJoined:options:waitingInActorQueue:`. On the date path the list is cleared. -/
def watcherJoined (s : UpdatesState) (i : ℕ) (actor : UpdatesActor)
    (options : List UpdatesGroup) (failedProcessing : Bool) : UpdatesState :=
  if actor.pending.isSome then
    s.setActor i { actor with
      waitingForApplyUpdatesQueue := actor.waitingForApplyUpdatesQueue ++ options }
  else
    let actor := { actor with updateList := actor.updateList ++ options }
    if actor.path = .withDate then s.setActor i { actor with updateList := [] }
    else if actor.executed then s.check i actor failedProcessing
    else s.setActor i actor

/-- `requestActor:options:watcher:`, for the first request of the service. A date actor
stands in no queue and is executed at once. -/
def request (s : UpdatesState) (failedProcessing : Bool) : UpdatesState :=
  match s.requests with
  | [] => s
  | (path, options) :: requests =>
      let s := { s with requests := requests }
      match s.active path with
      | some i =>
          match s.actors[i]? with
          | some actor => s.watcherJoined i actor options failedProcessing
          | none => s
      | none =>
          let actor := UpdatesActor.new path options
          let i := s.actors.length
          let s := { s with
            actors := s.actors ++ [actor], active := Function.update s.active path (some i) }
          if path = .withDate then s.execute i actor failedProcessing else s

/-- The completion block of `applyUpdates:…`. -/
def complete (s : UpdatesState) (i : ℕ) (actor : UpdatesActor) (apply : PendingApply)
    (failedProcessing : Bool) : UpdatesState :=
  let actor := { actor with
    pending := none
    updateList := actor.updateList ++ actor.waitingForApplyUpdatesQueue
    waitingForApplyUpdatesQueue := [] }
  if actor.path = .withDate then
    if apply.optionalFinalDate > apply.databaseState.date then
      { s with database := s.database.applyPts 0 apply.optionalFinalDate 0 0 }.setActor i actor
    else s.setActor i actor
  else
    let database := s.database.applyPts apply.statePts apply.optionalFinalDate
      apply.optionalFinalSeq apply.stateQts
    { s with
      database := database
      moves := ⟨s.database.pts, database.pts, some apply.updates⟩ :: s.moves }.check i actor
        failedProcessing

/-- The requests for what was collected, in the order of the source. -/
def requestsOf (c : CollectedUpdates) : List (UpdatesPath × List UpdatesGroup) :=
  [(.withPts, c.withPts), (.withQts, c.withQts), (.withSeq, c.withSeq),
    (.withDate, c.withDate)].filter fun request => request.2 ≠ []

/-- The collected groups are requested to be applied. -/
def addCollected (s : UpdatesState) (c : CollectedUpdates) : UpdatesState :=
  { s with
    nextUpdate := c.nextUpdate
    nextGroup := c.nextGroup
    requests := s.requests ++ requestsOf c }

end UpdatesState

/-! ### Runs -/

/-- What a run consists of. -/
inductive UpdatesEvent where
  /-- `processMessages:`. -/
  | processMessages (bodies : List UpdatesBody)
  /-- `addUpdates:`. -/
  | addUpdates (body : UpdatesBody)
  /-- `updatePts:ptsCount:seq:`. -/
  | updatePts (pts ptsCount seq : ℤ)
  /-- The stage takes the next request. -/
  | request (failedProcessing : Bool)
  /-- The actor of a path gets to the head of the queue. -/
  | execute (path : UpdatesPath) (failedProcessing : Bool)
  /-- The completion block of an actor runs. -/
  | complete (i : ℕ) (failedProcessing : Bool)
  /-- The timer of an actor fires. -/
  | timeoutReached (i : ℕ)
  /-- The server sends a difference, or its whole state. -/
  | difference (pts date seq qts : ℤ)

namespace UpdatesState

/-- The groups `updatePts:ptsCount:seq:` makes up. -/
def collectPtsUpdate (s : UpdatesState) (pts ptsCount seq : ℤ) : CollectedUpdates :=
  let update : Update := ⟨s.nextUpdate, .pts pts ptsCount⟩
  { withPts := if pts ≠ 0 then [⟨s.nextGroup, [update], 0, 0, 0⟩] else []
    withQts := []
    withSeq := if seq ≠ 0 then [⟨s.nextGroup + 1, [], 0, seq, seq⟩] else []
    withDate := []
    nextUpdate := s.nextUpdate + 1
    nextGroup := s.nextGroup + 2 }

/-- A step of the system. -/
def step (s : UpdatesState) : UpdatesEvent → UpdatesState
  | .processMessages bodies =>
      s.addCollected (bodies.foldl CollectedUpdates.addBody
        (CollectedUpdates.empty s.nextUpdate s.nextGroup))
  | .addUpdates body =>
      s.addCollected ((CollectedUpdates.empty s.nextUpdate s.nextGroup).addUpdates body)
  | .updatePts pts ptsCount seq => s.addCollected (s.collectPtsUpdate pts ptsCount seq)
  | .request failedProcessing => s.request failedProcessing
  | .execute path failedProcessing =>
      match s.active path with
      | some i =>
          match s.actors[i]? with
          | some actor =>
              if actor.executed then s else s.execute i actor failedProcessing
          | none => s
      | none => s
  | .complete i failedProcessing =>
      match s.actors[i]? with
      | some actor =>
          match actor.pending with
          | some apply => s.complete i actor apply failedProcessing
          | none => s
      | none => s
  | .timeoutReached i =>
      match s.actors[i]? with
      | some actor => if actor.timeoutTimer then s.fail i actor else s
      | none => s
  | .difference pts date seq qts =>
      let database := s.database.applyPts pts date seq qts
      { s with
        database := database
        moves := ⟨s.database.pts, database.pts, none⟩ :: s.moves }

end UpdatesState

/-! ### What a check does to an actor -/

/-- What a check leaves of an actor: all but the timer, and some of the list. -/
structure UpdatesActor.Checked (actor actor' : UpdatesActor) : Prop where
  path : actor'.path = actor.path
  executed : actor'.executed = actor.executed
  storedOptions : actor'.storedOptions = actor.storedOptions
  waiting : actor'.waitingForApplyUpdatesQueue = actor.waitingForApplyUpdatesQueue
  pending : actor'.pending = actor.pending
  updateList : actor'.updateList.Sublist actor.updateList

section Check

variable {actor : UpdatesActor} {state : DatabaseState} {found : FoundUpdates}
  {updates : List Update} {seq date : ℤ}

/-- Taking what was found leaves an actor as a check does. -/
theorem checked_takeFound : actor.Checked (actor.takeFound found).1 := by
  have hkept : (dropDone actor.updateList found.expired).Sublist actor.updateList :=
    List.filter_sublist
  simp only [UpdatesActor.takeFound]
  split
  · exact ⟨rfl, rfl, rfl, rfl, rfl, List.filter_sublist.trans hkept⟩
  · exact ⟨rfl, rfl, rfl, rfl, rfl, hkept⟩

/-- **What a check leaves of an actor.** -/
theorem check_spec (actor : UpdatesActor) (state : DatabaseState) :
    actor.Checked (actor.check state).1 := by
  have hrefl : actor.Checked actor := ⟨rfl, rfl, rfl, rfl, rfl, List.Sublist.refl _⟩
  cases hpath : actor.path with
  | withPts =>
      simp only [UpdatesActor.check, hpath, UpdatesActor.checkPtsUpdates]
      split
      · exact hrefl
      · exact checked_takeFound
  | withQts =>
      simp only [UpdatesActor.check, hpath, UpdatesActor.checkQtsUpdates]
      split
      · exact hrefl
      · exact checked_takeFound
  | withSeq =>
      simp only [UpdatesActor.check, hpath, UpdatesActor.checkSeqUpdates]
      split
      · exact hrefl
      · split
        · exact ⟨hpath.symm, rfl, rfl, rfl, rfl, List.filter_sublist⟩
        · exact ⟨hpath.symm, rfl, rfl, rfl, rfl, List.Sublist.refl _⟩
  | withDate =>
      simp only [UpdatesActor.check, hpath]
      exact hrefl

/-- What is applied out of what was found are the updates in order. -/
theorem takeFound_applies (h : (actor.takeFound found).2 = .applies updates seq date) :
    updates = found.inOrder := by
  simp only [UpdatesActor.takeFound] at h
  split at h
  · cases h
    rfl
  · split at h
    · cases h
    · cases h

/-- On the pts path the updates that continue the stored `pts` are applied. -/
theorem check_applies_pts (hpath : actor.path = .withPts)
    (h : (actor.check state).2 = .applies updates seq date) :
    updates = (collectPts state.pts (allUpdates actor.updateList)).inOrder := by
  simp only [UpdatesActor.check, hpath, UpdatesActor.checkPtsUpdates] at h
  split at h
  · cases h
  · exact takeFound_applies h

/-- On the qts path the updates that continue the stored `qts` are applied. -/
theorem check_applies_qts (hpath : actor.path = .withQts)
    (h : (actor.check state).2 = .applies updates seq date) :
    updates = (collectQts state.qts (allUpdates actor.updateList)).inOrder := by
  simp only [UpdatesActor.check, hpath, UpdatesActor.checkQtsUpdates] at h
  split at h
  · cases h
  · exact takeFound_applies h

/-- On the seq path the groups that continue the stored `seq` are applied, and leave the
list. -/
theorem check_applies_seq (hpath : actor.path = .withSeq)
    (h : (actor.check state).2 = .applies updates seq date) :
    updates = allUpdates (collectSeq state.seq actor.updateList).1 ∧
      (actor.check state).1.updateList = actor.updateList.filter fun group =>
        group ∉ (collectSeq state.seq actor.updateList).1 := by
  simp only [UpdatesActor.check, hpath, UpdatesActor.checkSeqUpdates] at h ⊢
  split at h
  · cases h
  · rename_i hlist
    rw [if_neg hlist]
    split at h
    · rename_i hfound
      rw [if_pos hfound]
      cases h
      exact ⟨rfl, rfl⟩
    · cases h

end Check

/-! ### What the operations leave alone -/

namespace UpdatesState

section Frames

variable (s : UpdatesState) (i : ℕ) (actor : UpdatesActor) (failedProcessing : Bool)

@[simp] theorem setActor_database : (s.setActor i actor).database = s.database := rfl

@[simp] theorem setActor_moves : (s.setActor i actor).moves = s.moves := rfl

@[simp] theorem completeAction_database (path : UpdatesPath) :
    (s.completeAction path).database = s.database := rfl

@[simp] theorem completeAction_moves (path : UpdatesPath) :
    (s.completeAction path).moves = s.moves := rfl

/-- Failing writes nothing. -/
theorem fail_frame :
    (s.fail i actor).database = s.database ∧ (s.fail i actor).moves = s.moves := by
  simp only [fail]
  split <;> exact ⟨rfl, rfl⟩

/-- Starting to apply updates writes nothing. -/
theorem tryApplyingUpdates_frame (updates : List Update) (seq date : ℤ) :
    (s.tryApplyingUpdates i actor updates seq date failedProcessing).database = s.database ∧
    (s.tryApplyingUpdates i actor updates seq date failedProcessing).moves = s.moves := by
  simp only [tryApplyingUpdates]
  split
  · exact fail_frame _ i actor
  · exact ⟨rfl, rfl⟩

/-- A check writes nothing. -/
theorem check_frame :
    (s.check i actor failedProcessing).database = s.database ∧
      (s.check i actor failedProcessing).moves = s.moves := by
  simp only [check]
  split
  · exact ⟨rfl, rfl⟩
  · exact ⟨rfl, rfl⟩
  · exact tryApplyingUpdates_frame s i _ failedProcessing _ _ _

/-- Executing writes nothing. -/
theorem execute_frame :
    (s.execute i actor failedProcessing).database = s.database ∧
      (s.execute i actor failedProcessing).moves = s.moves := by
  simp only [execute]
  split
  · split
    · exact check_frame s i _ failedProcessing
    · exact ⟨rfl, rfl⟩
  · exact check_frame s i _ failedProcessing

/-- A new watcher writes nothing. -/
theorem watcherJoined_frame (options : List UpdatesGroup) :
    (s.watcherJoined i actor options failedProcessing).database = s.database ∧
      (s.watcherJoined i actor options failedProcessing).moves = s.moves := by
  simp only [watcherJoined]
  split
  · exact ⟨rfl, rfl⟩
  · split
    · exact ⟨rfl, rfl⟩
    · split
      · exact check_frame s i _ failedProcessing
      · exact ⟨rfl, rfl⟩

/-- A request writes nothing. -/
theorem request_frame :
    (s.request failedProcessing).database = s.database ∧
      (s.request failedProcessing).moves = s.moves := by
  simp only [request]
  split
  · exact ⟨rfl, rfl⟩
  · split
    · split
      · exact watcherJoined_frame _ _ _ failedProcessing _
      · exact ⟨rfl, rfl⟩
    · split
      · exact execute_frame _ _ _ failedProcessing
      · exact ⟨rfl, rfl⟩

end Frames

end UpdatesState

end Telegraph.Updates
