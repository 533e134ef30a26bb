import Mathlib.Data.List.Basic
import Mathlib.Logic.Function.Basic
import Telegraph.Lib.Dictionary

/-!
# The Action Stage

`ActionStage` keeps one actor for each requested path, queues actors that name a request queue,
and parks actors whose last watcher has left. All of it runs on the stage queue, but `prepare:`,
`execute:`, `cancel`, `watcherJoined:…` and `actorCompleted:…` are code of others that may call
back at once. So the stage is a machine with a stack: a frame `user` stands for code of others
that runs, and the frames below it are the parts of the stage that go on when it returns.

The actors are numbered as they are created. Beside the dictionaries of the stage the state
records which actors were given `execute:` and `cancel`, which have reported their completion,
and to whose watchers each report went.
-/

open Dictionary

namespace Telegraph.Stage

/-! ### Actors and requests -/

/-- `ASActor`; `cancelTimeout` is whether it is longer than nothing. -/
structure ASActor where
  path : String
  requestQueueName : Option String := none
  cancelTimeout : Bool := false
  cancelled : Bool := false
deriving DecidableEq, Inhabited

/-- A request: the actor and the handles that watch it. -/
structure RequestInfo where
  requestBuilder : ℕ
  watchers : List ℕ
deriving DecidableEq

/-- A watcher joins those of a request. -/
def RequestInfo.join (info : RequestInfo) (watcher : ℕ) : RequestInfo :=
  if watcher ∈ info.watchers then info
  else { info with watchers := info.watchers ++ [watcher] }

/-- What runs, or goes on when what is above it has returned. -/
inductive Frame where
  /-- Code of an actor or a watcher. -/
  | user
  /-- The rest of `_requestGeneric:…` after `prepare:`. -/
  | prepared (actor : ℕ) (changePriority : Bool)
  /-- The rest of `_requestGeneric:…` after `watcherJoined:…`. -/
  | changePriority (path : String)
  /-- The rest of `actionCompleted:result:` or `actionFailed:reason:`. -/
  | completing (actor : ℕ) (watchers : List ℕ)
  /-- The removal from the queue after `cancel`. -/
  | cancelled (actor : ℕ)
  /-- The end of `performCancelRequest:`. -/
  | removeTimer (path : String)
  /-- The loop over the active requests of `removeWatcherByHandle:`. -/
  | removeWatcher (handle : ℕ) (keys : List String)
  /-- The loop over the handles of `removeWatcherByHandle:`. -/
  | removeWatchers (handles : List ℕ)
  /-- The loop of `removeWatcherByHandle:fromPath:`. -/
  | removeFromPath (requests : List (ℕ × String))
  /-- The loop of `rejoinActionsWithGenericPathNow:prefix:watcher:`. -/
  | rejoin (paths : List String) (watcher : ℕ)
deriving DecidableEq

/-- The actor a frame is about. -/
def Frame.actor : Frame → Option ℕ
  | .prepared actor _ => some actor
  | .completing actor _ => some actor
  | .cancelled actor => some actor
  | _ => none

/-- `ActionStage`. -/
structure ActionStage where
  activeRequests : Dictionary String RequestInfo := ∅
  cancelRequestTimers : Dictionary String RequestInfo := ∅
  requestQueues : Dictionary String (List ℕ) := ∅
  actors : ℕ → ASActor := fun _ => default
  created : ℕ := 0
  stack : List Frame := []
  /-- The actors that were given `execute:`. -/
  executed : List ℕ := []
  /-- Those of them that have not been completed, failed or cancelled since. -/
  executing : List ℕ := []
  /-- The actors that have reported their completion or failure. -/
  reported : List ℕ := []
  /-- The actors that were given `cancel`. -/
  cancels : List ℕ := []
  /-- The reporter of each completion, and the actor to whose watchers it went. -/
  delivered : List (ℕ × ℕ) := []

/-- An order in which the keys of a dictionary are listed. -/
structure KeyOrder where
  arrange : List String → List String
  perm : ∀ keys, (arrange keys).Perm keys

namespace ActionStage

/-! ### Queues -/

/-- An actor is given `execute:`. -/
def execute (s : ActionStage) (actor : ℕ) : ActionStage :=
  { s with
    executed := actor :: s.executed
    executing := actor :: s.executing
    stack := .user :: s.stack }

/-- `removeRequestFromQueueAndProceedIfFirst:fromRequestBuilder:`, for an actor with a queue. -/
def removeRequestFromQueue (s : ActionStage) (actor : ℕ) : ActionStage :=
  match (s.actors actor).requestQueueName with
  | none => s
  | some name =>
      match s.requestQueues.lookup name with
      | none | some [] => s
      | some (first :: rest) =>
          if first = actor then
            match rest with
            | [] => { s with requestQueues := s.requestQueues.erase name }
            | next :: _ =>
                let s := { s with requestQueues := s.requestQueues.insert name rest }
                if (s.actors next).cancelled then s else s.execute next
          else
            let queue := first :: rest.filter fun other => other ≠ actor
            { s with requestQueues := s.requestQueues.insert name queue }

/-- `changeActorPriority:`. -/
def changeActorPriority (s : ActionStage) (path : String) : ActionStage :=
  match s.activeRequests.lookup path with
  | none => s
  | some info =>
      match (s.actors info.requestBuilder).requestQueueName with
      | none => s
      | some name =>
          match s.requestQueues.lookup name with
          | none | some [] => s
          | some (first :: rest) =>
              if info.requestBuilder ∈ rest ∧ first ≠ info.requestBuilder then
                let queue := first :: info.requestBuilder :: rest.erase info.requestBuilder
                { s with requestQueues := s.requestQueues.insert name queue }
              else s

/-! ### Requests -/

/-- A parked request becomes active again. -/
def resume (s : ActionStage) (path : String) : ActionStage :=
  match s.cancelRequestTimers.lookup path with
  | none => s
  | some info =>
      { s with
        activeRequests := s.activeRequests.insert path info
        cancelRequestTimers := s.cancelRequestTimers.erase path }

/-- Whether an actor has a request queue that is not empty. -/
def hasQueue (s : ActionStage) (actor : ℕ) : Bool :=
  match (s.actors actor).requestQueueName with
  | none => false
  | some name => !((s.requestQueues.lookup name).getD []).isEmpty

/-- `_requestGeneric:…`, up to the first code of others; `registered` is whether there is a class
of actors for the path. -/
def requestGeneric (s : ActionStage) (joinOnly : Bool) (path : String)
    (changePriority registered : Bool) (watcher : ℕ) : ActionStage :=
  let s := s.resume path
  match s.activeRequests.lookup path with
  | none =>
      if joinOnly || !registered then s
      else
        { s with
          activeRequests := s.activeRequests.insert path ⟨s.created, [watcher]⟩
          actors := Function.update s.actors s.created { path }
          created := s.created + 1
          stack := .user :: .prepared s.created changePriority :: s.stack }
  | some info =>
      { s with
        activeRequests := s.activeRequests.insert path (info.join watcher)
        stack := .user :: if s.hasQueue info.requestBuilder && changePriority then
          .changePriority path :: s.stack else s.stack }

/-- The rest of `_requestGeneric:…` after `prepare:`. -/
def prepared (s : ActionStage) (actor : ℕ) (changePriority : Bool) : ActionStage :=
  match (s.actors actor).requestQueueName with
  | none => s.execute actor
  | some name =>
      match s.requestQueues.lookup name with
      | none | some [] =>
          { s with requestQueues := s.requestQueues.insert name [actor] }.execute actor
      | some (first :: rest) =>
          let queue := if changePriority then first :: actor :: rest else first :: rest ++ [actor]
          { s with requestQueues := s.requestQueues.insert name queue }

/-! ### Ends of requests -/

/-- `actionCompleted:result:` and `actionFailed:reason:`, up to the first watcher. -/
def endRequest (s : ActionStage) (reporter : ℕ) (path : String) : ActionStage :=
  let s := { s with reported := reporter :: s.reported }
  match s.activeRequests.lookup path with
  | none => s
  | some info =>
      { s with
        activeRequests := s.activeRequests.erase path
        executing := s.executing.filter fun other => other ≠ info.requestBuilder
        delivered := (reporter, info.requestBuilder) :: s.delivered
        stack := .completing info.requestBuilder info.watchers :: s.stack }

/-- An actor is given `cancel`. -/
def cancel (s : ActionStage) (actor : ℕ) (frames : List Frame) : ActionStage :=
  { s with
    executing := s.executing.filter fun other => other ≠ actor
    cancels := actor :: s.cancels
    stack := .user :: .cancelled actor :: frames ++ s.stack }

/-- `scheduleCancelRequest:`. -/
def scheduleCancelRequest (s : ActionStage) (path : String) : ActionStage :=
  match s.activeRequests.lookup path, s.cancelRequestTimers.lookup path with
  | some info, none =>
      if !(s.actors info.requestBuilder).cancelTimeout then
        { s with activeRequests := s.activeRequests.erase path }.cancel info.requestBuilder []
      else
        { s with
          cancelRequestTimers := s.cancelRequestTimers.insert path info
          activeRequests := s.activeRequests.erase path }
  | _, _ => s

/-- `performCancelRequest:`, up to the end of `cancel`. -/
def performCancelRequest (s : ActionStage) (path : String) : ActionStage :=
  match s.cancelRequestTimers.lookup path with
  | none => s
  | some info => s.cancel info.requestBuilder [.removeTimer path]

/-- The watchers of a request are replaced; the request of the last one that leaves is
cancelled. -/
def leave (s : ActionStage) (path : String) (stays : ℕ → Bool) : ActionStage :=
  match s.activeRequests.lookup path with
  | none => s
  | some info =>
      let watchers := info.watchers.filter stays
      let s := { s with activeRequests := s.activeRequests.insert path { info with watchers } }
      if watchers = [] then s.scheduleCancelRequest path else s

/-! ### The machine -/

/-- What code of others can do: the calls of the stage, and what an actor does with itself. The
timer of a parked request is `cancelActorTimeout:` at a time of its own. -/
inductive StageCall where
  | requestActor (path : String) (changePriority registered : Bool) (watcher : ℕ)
  | rejoinActions (paths : List String) (watcher : ℕ)
  | changeActorPriority (path : String)
  | actionCompleted (reporter : ℕ) (path : String)
  | actionFailed (reporter : ℕ) (path : String)
  | removeWatcher (handles : List ℕ)
  | removeWatcherFromPath (requests : List (ℕ × String))
  | removeAllWatchersFromPath (path : String)
  | cancelActorTimeout (path : String)
  | setRequestQueueName (actor : ℕ) (name : Option String)
  | setCancelTimeout (actor : ℕ) (cancelTimeout : Bool)
  | setCancelled (actor : ℕ) (cancelled : Bool)

/-- What happens next. -/
inductive StageEvent where
  /-- Code of others does something. -/
  | call (call : StageCall)
  /-- Code of others returns. -/
  | returns
  /-- The stage goes on. -/
  | proceed

/-- Whether the `prepare:` of an actor has not returned. -/
def IsPreparing (s : ActionStage) (actor : ℕ) : Prop :=
  .prepared actor false ∈ s.stack ∨ .prepared actor true ∈ s.stack

instance (s : ActionStage) (actor : ℕ) : Decidable (s.IsPreparing actor) :=
  inferInstanceAs (Decidable (_ ∨ _))

/-- A call; actors name their request queue in `prepare:`. -/
def call (s : ActionStage) : StageCall → ActionStage
  | .requestActor path changePriority registered watcher =>
      s.requestGeneric false path changePriority registered watcher
  | .rejoinActions paths watcher => { s with stack := .rejoin paths watcher :: s.stack }
  | .changeActorPriority path => s.changeActorPriority path
  | .actionCompleted reporter path => s.endRequest reporter path
  | .actionFailed reporter path => s.endRequest reporter path
  | .removeWatcher handles => { s with stack := .removeWatchers handles :: s.stack }
  | .removeWatcherFromPath requests => { s with stack := .removeFromPath requests :: s.stack }
  | .removeAllWatchersFromPath path => s.leave path fun _ => false
  | .cancelActorTimeout path => s.performCancelRequest path
  | .setRequestQueueName actor name =>
      if s.IsPreparing actor then
        let actors := Function.update s.actors actor
          { s.actors actor with requestQueueName := name }
        { s with actors }
      else s
  | .setCancelTimeout actor cancelTimeout =>
      { s with actors := Function.update s.actors actor { s.actors actor with cancelTimeout } }
  | .setCancelled actor cancelled =>
      { s with actors := Function.update s.actors actor { s.actors actor with cancelled } }

/-- A frame goes on, in a state without it. -/
def proceed (order : KeyOrder) (s : ActionStage) : Frame → ActionStage
  | .user => s
  | .prepared actor changePriority => s.prepared actor changePriority
  | .changePriority path => s.changeActorPriority path
  | .completing actor [] => s.removeRequestFromQueue actor
  | .completing actor (_ :: watchers) =>
      { s with stack := .user :: .completing actor watchers :: s.stack }
  | .cancelled actor => s.removeRequestFromQueue actor
  | .removeTimer path => { s with cancelRequestTimers := s.cancelRequestTimers.erase path }
  | .removeWatcher _ [] => s
  | .removeWatcher handle (path :: keys) =>
      { s with stack := .removeWatcher handle keys :: s.stack }.leave path fun other =>
        other ≠ handle
  | .removeWatchers [] => s
  | .removeWatchers (handle :: handles) =>
      { s with stack := .removeWatcher handle (order.arrange s.activeRequests.keys) ::
          .removeWatchers handles :: s.stack }
  | .removeFromPath [] => s
  | .removeFromPath ((handle, path) :: requests) =>
      { s with stack := .removeFromPath requests :: s.stack }.leave path fun other =>
        other ≠ handle
  | .rejoin [] _ => s
  | .rejoin (path :: paths) watcher =>
      { s with stack := .rejoin paths watcher :: s.stack }.requestGeneric true path false true
        watcher

/-- A step. Code of others runs on top of the stack, or where the stack is empty. -/
def step (order : KeyOrder) (s : ActionStage) : StageEvent → ActionStage
  | .call c =>
      match s.stack with
      | [] | .user :: _ => s.call c
      | _ => s
  | .returns =>
      match s.stack with
      | .user :: stack => { s with stack }
      | _ => s
  | .proceed =>
      match s.stack with
      | [] | .user :: _ => s
      | frame :: stack => proceed order { s with stack } frame

end ActionStage

end Telegraph.Stage
