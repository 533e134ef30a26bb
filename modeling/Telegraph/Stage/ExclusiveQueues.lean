import Telegraph.Lib.Machine
import Telegraph.Stage.Queues

/-!
# Actor Queues Are Exclusive

At most one actor is registered for a path, an actor is given `execute:` once, and of the actors
of a request queue only the first one is executing. The last of these needs that no actor is
given `execute:` while its own completion, failure or cancellation is still being reported: the
stage looks at the `cancelled` flag of the next actor, but not at its request.

## Main results

* `exclusive_step`: **an actor that executes is the first of its queue**, where a step meets the
  condition.
* `actorQueues_exclusive`: the queues are exclusive in every state of such a run.
* `actorQueues_overlap`: a run in which two actors of a queue execute.
-/

open Dictionary Machine

namespace Telegraph.Stage

namespace ActionStage

/-- An actor that executes is the first of its queue, and is not one that is finishing. -/
structure Exclusive (s : ActionStage) : Prop where
  first : ∀ a ∈ s.executing, ∀ name, (s.actors a).requestQueueName = some name →
    ∃ rest, s.requestQueues.lookup name = some (a :: rest)
  finishing : ∀ a, Finishing s.stack a → a ∉ s.executing

/-- The actor after `a` in its queue is not being reported itself. -/
def NextIsFree (s : ActionStage) (a : ℕ) : Prop :=
  ∀ name next rest, (s.actors a).requestQueueName = some name →
    s.requestQueues.lookup name = some (a :: next :: rest) →
    (s.actors next).cancelled = false → ¬ Finishing s.stack next

/-- Where an actor that has been reported leaves its queue, the next one is not being reported
itself. -/
def NextIsFreeAt (s : ActionStage) : StageEvent → Prop
  | .proceed => ∀ a stack, (s.stack = .completing a [] :: stack ∨ s.stack = .cancelled a :: stack) →
      NextIsFree { s with stack } a
  | _ => True

section

variable {s s' : ActionStage} {stack : List Frame} {frame : Frame} {path name : String}
  {changePriority : Bool} {watcher first a : ℕ} {rest : List ℕ}

/-! ### The operations -/

/-- An executing actor is the first of a queue it is in. -/
theorem Exclusive.eq_first (he : Exclusive s) {name : String} {first : ℕ} {rest : List ℕ}
    (hqueue : s.requestQueues.lookup name = some (first :: rest)) (ha : a ∈ s.executing)
    (hname : (s.actors a).requestQueueName = some name) : a = first := by
  obtain ⟨tail, htail⟩ := he.first a ha name hname
  rw [hqueue] at htail
  exact (List.cons.inj (Option.some.inj htail)).1.symm

theorem Exclusive.quiet (he : Exclusive s) (h : Quiet s s') : Exclusive s' := by
  obtain ⟨pushed, hstack, hpushed⟩ := h.stack
  constructor
  · intro a ha name hname
    rw [h.requestQueues]
    exact he.first a (h.executing ha) name ((h.names a).symm.trans hname)
  · intro a ha hexecuting
    rw [hstack] at ha
    have hcases : (∃ frame ∈ pushed, frame.actor = some a) ∨ Finishing s.stack a := by
      rcases ha with ha | ⟨watchers, ha⟩
      · rcases List.mem_append.mp ha with ha | ha
        · exact .inl ⟨_, ha, rfl⟩
        · exact .inr (.inl ha)
      · rcases List.mem_append.mp ha with ha | ha
        · exact .inl ⟨_, ha, rfl⟩
        · exact .inr (.inr ⟨watchers, ha⟩)
    rcases hcases with ⟨frame, hframe, hactor⟩ | hfinishing
    · exact ((hpushed frame hframe).2 a hactor).2 hexecuting
    · exact he.finishing a hfinishing (h.executing hexecuting)

theorem Exclusive.create (hq : Queued s) (he : Exclusive s) :
    Exclusive (s.create path changePriority watcher) := by
  constructor
  · intro a ha name hname
    have hcreated := (hq.executed a (hq.executing ha)).1
    simp only [ActionStage.create] at hname
    rw [Function.update_of_ne (Nat.ne_of_lt hcreated)] at hname
    exact he.first a ha name hname
  · intro a ha hexecuting
    refine he.finishing a ?_ hexecuting
    simpa [ActionStage.create, Finishing] using ha

theorem Exclusive.insert (he : Exclusive s)
    (hfirst : ∀ a ∈ s.executing, (s.actors a).requestQueueName = some name → a = first) :
    Exclusive { s with requestQueues := s.requestQueues.insert name (first :: rest) } := by
  refine ⟨fun a ha other hname => ?_, he.finishing⟩
  rw [lookup_insert_ite]
  split
  case isTrue heq =>
    obtain rfl := heq
    exact ⟨rest, by rw [hfirst a ha hname]⟩
  case isFalse => exact he.first a ha other hname

theorem Exclusive.execute (he : Exclusive s) (hfinishing : ¬ Finishing s.stack a)
    (hfirst : ∀ name, (s.actors a).requestQueueName = some name →
      ∃ rest, s.requestQueues.lookup name = some (a :: rest)) : Exclusive (s.execute a) := by
  constructor
  · intro b hb name hname
    rcases List.mem_cons.mp hb with rfl | hb
    · exact hfirst name hname
    · exact he.first b hb name hname
  · intro b hb hmem
    replace hb : Finishing s.stack b := by
      simpa [ActionStage.execute, Finishing] using hb
    rcases List.mem_cons.mp hmem with rfl | hmem
    · exact hfinishing hb
    · exact he.finishing b hb hmem

theorem Exclusive.pop (he : Exclusive s) (hstack : s.stack = frame :: stack) :
    Exclusive { s with stack } :=
  ⟨he.first, fun b hb => he.finishing b (hstack ▸ hb.tail)⟩

theorem Exclusive.setRequestQueueName (hq : Queued s) (he : Exclusive s)
    (ha : Preparing s.stack a) (name : Option String) :
    Exclusive { s with
      actors := Function.update s.actors a { s.actors a with requestQueueName := name } } := by
  refine ⟨fun b hb other hname => ?_, he.finishing⟩
  have hne : b ≠ a := by
    rintro rfl
    exact (hq.executed b (hq.executing hb)).2 ha
  simp only [Function.update_of_ne hne] at hname
  exact he.first b hb other hname

theorem Exclusive.changeActorPriority (he : Exclusive s) (path : String) :
    Exclusive (s.changeActorPriority path) := by
  rcases changeActorPriority_cases s path with heq | ⟨name, first, rest, rest', hqueue, hperm, heq⟩
  · rw [heq]
    exact he
  · rw [heq]
    exact he.insert fun a ha hname => he.eq_first hqueue ha hname

theorem Exclusive.prepared (hq : Queued s) (he : Exclusive s) (ha : Fresh s a)
    (changePriority : Bool) : Exclusive (s.prepared a changePriority) := by
  rcases prepared_cases hq a changePriority with ⟨hname, heq⟩ | ⟨name, hname, ⟨hnone, heq⟩ |
    ⟨first, rest, rest', hqueue, hperm, heq⟩⟩
  · rw [heq]
    refine he.execute ha.finishing fun name hname' => ?_
    rw [hname] at hname'
    cases hname'
  · have hinsert : Exclusive { s with requestQueues := s.requestQueues.insert name [a] } := by
      refine he.insert fun b hb hname => ?_
      obtain ⟨rest, hqueue⟩ := he.first b hb name hname
      rw [hnone] at hqueue
      cases hqueue
    rw [heq]
    refine hinsert.execute ha.finishing fun other hother => ?_
    obtain rfl := Option.some.inj (hname.symm.trans hother)
    exact ⟨[], AList.lookup_insert _⟩
  · rw [heq]
    exact he.insert fun b hb hname => he.eq_first hqueue hb hname

theorem Exclusive.removeRequestFromQueue (hq : Queued s) (he : Exclusive s)
    (ha : a ∉ s.executing) (hfree : NextIsFree s a) :
    Exclusive (s.removeRequestFromQueue a) := by
  have hnone : ∀ {name rest}, s.requestQueues.lookup name = some (a :: rest) →
      ∀ b ∈ s.executing, (s.actors b).requestQueueName ≠ some name := by
    intro name rest hqueue b hb hname
    obtain rfl := he.eq_first hqueue hb hname
    exact ha hb
  rcases removeRequestFromQueue_cases s a with ⟨heq, -⟩ | ⟨name, hname, ⟨hqueue, heq⟩ |
    ⟨next, rest, hqueue, heq | ⟨hcancelled, heq⟩⟩ | ⟨first, rest, rest', hqueue, hsub, -, heq⟩⟩
  · rw [heq]
    exact he
  · rw [heq]
    refine ⟨fun b hb other hother => ?_, he.finishing⟩
    have hne : other ≠ name := by
      rintro rfl
      exact hnone hqueue b hb hother
    rw [lookup_erase_ite, if_neg hne]
    exact he.first b hb other hother
  · rw [heq]
    exact he.insert fun b hb hname => absurd hname (hnone hqueue b hb)
  · rw [heq]
    have hinsert : Exclusive
        { s with requestQueues := s.requestQueues.insert name (next :: rest) } :=
      he.insert fun b hb hname => absurd hname (hnone hqueue b hb)
    refine hinsert.execute (hfree name next rest hname hqueue hcancelled) fun other hother => ?_
    have hnext := hq.mem name _ hqueue next (List.mem_cons_of_mem _ List.mem_cons_self)
    obtain rfl := Option.some.inj (hnext.1.symm.trans hother)
    exact ⟨rest, AList.lookup_insert _⟩
  · rw [heq]
    exact he.insert fun b hb hname => he.eq_first hqueue hb hname

theorem Exclusive.requestGeneric (h : Registered s) (hq : Queued s) (he : Exclusive s)
    (joinOnly : Bool) (path : String) (changePriority registered : Bool) (watcher : ℕ) :
    Exclusive (s.requestGeneric joinOnly path changePriority registered watcher) := by
  rcases requestGeneric_cases h joinOnly path changePriority registered watcher with
    ⟨hquiet, -⟩ | ⟨-, heq⟩
  · exact he.quiet hquiet
  · rw [heq]
    exact (he.quiet (resume_quiet s path)).create (hq.quiet (resume_quiet s path))

/-! ### Steps -/

theorem Exclusive.call (h : Valid s) (he : Exclusive s) (c : StageCall) :
    Exclusive (s.call c) := by
  rcases call_quiet h.registered c with ⟨-, hquiet⟩ |
    ⟨path, changePriority, registered, watcher, rfl⟩ | ⟨path, rfl⟩ | ⟨a, name, ha, heq⟩
  · exact he.quiet hquiet
  · exact he.requestGeneric h.registered h.queued false path changePriority registered watcher
  · exact he.changeActorPriority path
  · rw [heq]
    exact he.setRequestQueueName h.queued ha name

theorem Exclusive.nextWatcher (he : Exclusive s) {a watcher : ℕ} {watchers : List ℕ}
    {stack : List Frame} (hstack : s.stack = .completing a (watcher :: watchers) :: stack) :
    Exclusive { s with stack := .user :: .completing a watchers :: stack } := by
  refine ⟨he.first, fun b hb => he.finishing b ?_⟩
  rw [hstack]
  rcases hb with hb | ⟨watchers', hb⟩
  · simp only [List.mem_cons, reduceCtorEq, false_or] at hb
    exact .inl (List.mem_cons_of_mem _ hb)
  · simp only [List.mem_cons, reduceCtorEq, false_or, Frame.completing.injEq] at hb
    rcases hb with ⟨rfl, -⟩ | hb
    · exact .inr ⟨_, List.mem_cons_self⟩
    · exact .inr ⟨watchers', List.mem_cons_of_mem _ hb⟩

theorem Exclusive.proceed (h : Registered s) (hq : Queued s) (he : Exclusive s)
    (order : KeyOrder) {frame : Frame} {stack : List Frame} (hstack : s.stack = frame :: stack)
    (hfree : NextIsFreeAt s .proceed) :
    Exclusive (ActionStage.proceed order { s with stack } frame) := by
  have hpop := he.pop hstack
  have hqpop := hq.pop hstack
  have hregistered : Registered { s with stack } := h.of_eq rfl rfl (fun _ => rfl) rfl
  cases hframe : frame.actor with
  | none =>
      rcases proceed_quiet hregistered order hframe with hquiet | ⟨path, rfl⟩ |
        ⟨path, paths, watcher, rfl⟩
      · exact hpop.quiet hquiet
      · exact hpop.changeActorPriority path
      · have hquiet := quiet_rejoin s stack paths watcher
        have hpush : Exclusive { s with stack := .rejoin paths watcher :: stack } :=
          hpop.quiet hquiet
        exact hpush.requestGeneric (by exact h.of_eq rfl rfl (fun _ => rfl) rfl)
          (hqpop.quiet hquiet) true path false true watcher
  | some a =>
      cases frame with
      | prepared b changePriority =>
          exact hpop.prepared hqpop (hq.popPrepared hstack) changePriority
      | completing b watchers =>
          cases watchers with
          | nil =>
              exact hpop.removeRequestFromQueue hqpop
                (he.finishing b (.inr ⟨[], hstack ▸ List.mem_cons_self⟩))
                (hfree b stack (.inl hstack))
          | cons watcher watchers => exact he.nextWatcher hstack
      | cancelled b =>
          exact hpop.removeRequestFromQueue hqpop
            (he.finishing b (.inl (hstack ▸ List.mem_cons_self))) (hfree b stack (.inr hstack))
      | _ => cases hframe

/-- **An actor that executes is the first of its queue** after a step that meets the condition. -/
theorem exclusive_step (order : KeyOrder) (e : StageEvent) (h : Valid s) (he : Exclusive s)
    (hfree : NextIsFreeAt s e) : Exclusive (s.step order e) := by
  rcases step_cases order s e with heq | ⟨c, -, heq⟩ | ⟨stack, hstack, heq⟩ |
    ⟨rfl, frame, stack, hstack, heq⟩
  all_goals rw [heq]
  · exact he
  · exact he.call h c
  · exact he.pop hstack
  · exact he.proceed h.registered h.queued order hstack hfree

end

/-! ### Runs -/

/-- The queues are exclusive: an actor that executes is the first of its queue, and no other
actor of the queue executes. -/
structure QueuesExclusive (s : ActionStage) : Prop where
  first : ∀ a ∈ s.executing, ∀ name, (s.actors a).requestQueueName = some name →
    ∃ rest, s.requestQueues.lookup name = some (a :: rest)
  unique : ∀ a ∈ s.executing, ∀ b ∈ s.executing, ∀ name,
    (s.actors a).requestQueueName = some name → (s.actors b).requestQueueName = some name → a = b

theorem Exclusive.queuesExclusive {s : ActionStage} (he : s.Exclusive) :
    QueuesExclusive s := by
  refine ⟨he.first, fun a ha b hb name hname hname' => ?_⟩
  obtain ⟨rest, hqueue⟩ := he.first b hb name hname'
  exact he.eq_first hqueue ha hname

/-- **Actor queues are exclusive.** In every run at most one actor is registered for a path and
each actor is given `execute:` at most once. In a run whose steps meet the condition, the actor
of a queue that executes is the only one, and the first of the queue. -/
theorem actorQueues_exclusive (order : KeyOrder) (es : List StageEvent) :
    Always (step order)
      (fun s => (∀ path a b, s.IsRegistered path a → s.IsRegistered path b → a = b) ∧
        s.executed.Nodup) {} es ∧
    (AllSteps (step order) NextIsFreeAt {} es →
      Always (step order) QueuesExclusive {} es) := by
  constructor
  · have hvalid : Always (step order) Valid {} es :=
      always_of_step (fun s e h => valid_step order e h) valid_init
    exact hvalid.mono fun s h => ⟨fun path a b => h.registered.eq, h.queued.once⟩
  · intro hfree
    have hexclusive : Always (step order)
        (fun s => Valid s ∧ Exclusive s) {} es :=
      always_of_allSteps (fun s e h hfree => ⟨valid_step order e h.1,
        exclusive_step order e h.1 h.2 hfree⟩)
        ⟨valid_init, fun _ h => absurd h List.not_mem_nil, fun a h => by
          rcases h with h | ⟨watchers, h⟩
          · cases h
          · cases h⟩ hfree
    exact hexclusive.mono fun s h => h.2.queuesExclusive

/-- The requests of three actors of a queue, after that of an older one of the second path was
cancelled. -/
def threeRequests : List StageEvent :=
  let request (path : String) (a : ℕ) : List StageEvent :=
    [.call (.requestActor path false true 0), .call (.setRequestQueueName a (some "q")),
      .returns, .proceed, .returns]
  request "b" 0 ++ [.call (.removeAllWatchersFromPath "b"), .returns, .proceed] ++
    request "a" 1 ++ request "b" 2 ++ request "c" 3

/-- The older actor reports its completion, and the watcher of the second path completes the
first actor: the second is given `execute:` as it is being completed, and then the third. -/
theorem actorQueues_overlap :
    ¬ ∀ (order : KeyOrder) (es : List StageEvent),
      Always (step order) QueuesExclusive {} es := by
  intro h
  have hrun := (h ⟨id, fun _ => List.Perm.refl _⟩ (threeRequests ++
    [.call (.actionCompleted 0 "b"), .proceed, .call (.actionCompleted 1 "a"), .proceed, .returns,
      .proceed, .returns, .returns, .proceed])).last
  have heq := hrun.unique 2 (by decide +kernel) 3 (by decide +kernel) "q" (by decide +kernel)
    (by decide +kernel)
  exact absurd heq (by decide)

end ActionStage

end Telegraph.Stage
