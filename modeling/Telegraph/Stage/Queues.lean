import Mathlib.Data.List.Nodup
import Telegraph.Stage.ActionStage

/-!
# Requests and Queues of the Stage

What holds of the dictionaries of requests, of the request queues and of the stack, whatever
code of others does: at most one actor is registered for a path, a queue holds actors that name
it, and none but its first was given `execute:`.

## Main results

* `Registered`, `Queued`: the invariants of the dictionaries, and of the queues and the stack.
* `Quiet`: what holds between two states if no actor was created, queued or given `execute:`.
* `changeActorPriority_cases`, `prepared_cases`, `removeRequestFromQueue_cases`,
  `requestGeneric_cases`, `step_cases`: **what each operation can do**.
* `valid_step`: the invariants are kept by every step.
-/

open Dictionary

namespace Telegraph.Stage

/-! ### Stacks -/

/-- The `prepare:` of an actor has not returned. -/
def Preparing (stack : List Frame) (a : ℕ) : Prop :=
  ∃ changePriority, .prepared a changePriority ∈ stack

/-- The completion, failure or cancellation of an actor is being reported. -/
def Finishing (stack : List Frame) (a : ℕ) : Prop :=
  .cancelled a ∈ stack ∨ ∃ watchers, .completing a watchers ∈ stack

/-- Below the `prepare:` of an actor nothing is about it. -/
def PreparedFresh : List Frame → Prop
  | [] => True
  | frame :: stack =>
      (∀ a changePriority, frame = .prepared a changePriority →
        ∀ below ∈ stack, below.actor ≠ some a) ∧ PreparedFresh stack

section Stack

variable {stack pushed : List Frame} {frame : Frame} {a : ℕ}

theorem isPreparing_iff {s : ActionStage} : s.IsPreparing a ↔ Preparing s.stack a := by
  constructor
  · rintro (h | h)
    · exact ⟨false, h⟩
    · exact ⟨true, h⟩
  · rintro ⟨changePriority, h⟩
    cases changePriority with
    | false => exact .inl h
    | true => exact .inr h

theorem Preparing.tail (h : Preparing stack a) : Preparing (frame :: stack) a := by
  obtain ⟨changePriority, hmem⟩ := h
  exact ⟨changePriority, List.mem_cons_of_mem _ hmem⟩

theorem Finishing.tail (h : Finishing stack a) : Finishing (frame :: stack) a := by
  rcases h with h | ⟨watchers, h⟩
  · exact .inl (List.mem_cons_of_mem _ h)
  · exact .inr ⟨watchers, List.mem_cons_of_mem _ h⟩

/-- An actor that is being prepared is named by a frame, and so is one that finishes. -/
theorem Preparing.actor (h : Preparing stack a) : ∃ frame ∈ stack, frame.actor = some a := by
  obtain ⟨changePriority, hmem⟩ := h
  exact ⟨_, hmem, rfl⟩

theorem Finishing.actor (h : Finishing stack a) : ∃ frame ∈ stack, frame.actor = some a := by
  rcases h with h | ⟨watchers, h⟩
  · exact ⟨_, h, rfl⟩
  · exact ⟨_, h, rfl⟩

theorem preparedFresh_append (h : PreparedFresh stack)
    (hpushed : ∀ frame ∈ pushed, ∀ a changePriority, frame ≠ .prepared a changePriority) :
    PreparedFresh (pushed ++ stack) := by
  induction pushed with
  | nil => exact h
  | cons frame pushed ih =>
      refine ⟨fun a changePriority heq => ?_, ih fun frame hframe =>
        hpushed frame (List.mem_cons_of_mem _ hframe)⟩
      exact absurd heq (hpushed frame List.mem_cons_self a changePriority)

end Stack

namespace ActionStage

/-! ### What holds of every state -/

/-- An actor is registered for a path. -/
def IsRegistered (s : ActionStage) (path : String) (a : ℕ) : Prop :=
  ∃ info, (s.activeRequests.lookup path = some info ∨
    s.cancelRequestTimers.lookup path = some info) ∧ info.requestBuilder = a

/-- The dictionaries of requests have no path in common, and an actor is registered for its own
path. -/
structure Registered (s : ActionStage) : Prop where
  unique : ∀ path, path ∈ s.activeRequests → path ∉ s.cancelRequestTimers
  path : ∀ path a, s.IsRegistered path a → (s.actors a).path = path ∧ a < s.created

/-- The queues hold actors that name them, none of them twice, and none but the first was given
`execute:`; no actor was given it twice. -/
structure Queued (s : ActionStage) : Prop where
  ne_nil : ∀ name queue, s.requestQueues.lookup name = some queue → queue ≠ []
  nodup : ∀ name queue, s.requestQueues.lookup name = some queue → queue.Nodup
  mem : ∀ name queue, s.requestQueues.lookup name = some queue → ∀ a ∈ queue,
    (s.actors a).requestQueueName = some name ∧ a < s.created ∧ ¬ Preparing s.stack a
  waiting : ∀ name first rest, s.requestQueues.lookup name = some (first :: rest) →
    ∀ a ∈ rest, a ∉ s.executed
  once : s.executed.Nodup
  executed : ∀ a ∈ s.executed, a < s.created ∧ ¬ Preparing s.stack a
  executing : s.executing ⊆ s.executed
  stack : ∀ frame ∈ s.stack, ∀ a, frame.actor = some a → a < s.created
  fresh : PreparedFresh s.stack

/-! ### Steps that leave the queues alone -/

/-- What holds between two states if no actor was created, queued or given `execute:`. -/
structure Quiet (s s' : ActionStage) : Prop where
  requestQueues : s'.requestQueues = s.requestQueues
  executed : s'.executed = s.executed
  created : s'.created = s.created
  names : ∀ a, (s'.actors a).requestQueueName = (s.actors a).requestQueueName
  executing : s'.executing ⊆ s.executing
  stack : ∃ pushed, s'.stack = pushed ++ s.stack ∧ ∀ frame ∈ pushed,
    (∀ a changePriority, frame ≠ .prepared a changePriority) ∧
      ∀ a, frame.actor = some a → a < s.created ∧ a ∉ s'.executing

section Quiet

variable {s s' s'' : ActionStage}

/-- Nothing of the queues, the actors and the stack changes. -/
theorem Quiet.of_eq (hqueues : s'.requestQueues = s.requestQueues)
    (hexecuted : s'.executed = s.executed) (hcreated : s'.created = s.created)
    (hnames : ∀ a, (s'.actors a).requestQueueName = (s.actors a).requestQueueName)
    (hexecuting : s'.executing = s.executing) (hstack : s'.stack = s.stack) : Quiet s s' :=
  ⟨hqueues, hexecuted, hcreated, hnames, hexecuting ▸ List.Subset.refl _,
    [], hstack, fun _ h => absurd h List.not_mem_nil⟩

theorem Quiet.refl (s : ActionStage) : Quiet s s := .of_eq rfl rfl rfl (fun _ => rfl) rfl rfl

theorem Quiet.trans (h : Quiet s s') (h' : Quiet s' s'') : Quiet s s'' := by
  obtain ⟨pushed, hstack, hpushed⟩ := h.stack
  obtain ⟨pushed', hstack', hpushed'⟩ := h'.stack
  refine ⟨h'.requestQueues.trans h.requestQueues, h'.executed.trans h.executed,
    h'.created.trans h.created, fun a => (h'.names a).trans (h.names a),
    List.Subset.trans h'.executing h.executing, pushed' ++ pushed, ?_, ?_⟩
  · rw [hstack', hstack, List.append_assoc]
  · intro frame hframe
    rcases List.mem_append.mp hframe with hframe | hframe
    · obtain ⟨hprepared, hactor⟩ := hpushed' frame hframe
      exact ⟨hprepared, fun a ha => ⟨h.created ▸ (hactor a ha).1, (hactor a ha).2⟩⟩
    · obtain ⟨hprepared, hactor⟩ := hpushed frame hframe
      exact ⟨hprepared, fun a ha =>
        ⟨(hactor a ha).1, fun hmem => (hactor a ha).2 (h'.executing hmem)⟩⟩

/-- No actor is prepared that was not before. -/
theorem Quiet.preparing (h : Quiet s s') {a : ℕ} (ha : Preparing s'.stack a) :
    Preparing s.stack a := by
  obtain ⟨pushed, hstack, hpushed⟩ := h.stack
  obtain ⟨changePriority, hmem⟩ := ha
  rw [hstack] at hmem
  rcases List.mem_append.mp hmem with hmem | hmem
  · exact absurd rfl ((hpushed _ hmem).1 a changePriority)
  · exact ⟨changePriority, hmem⟩

theorem Queued.quiet (hq : Queued s) (h : Quiet s s') : Queued s' := by
  obtain ⟨pushed, hstack, hpushed⟩ := h.stack
  refine ⟨h.requestQueues ▸ hq.ne_nil, h.requestQueues ▸ hq.nodup, ?_, ?_, h.executed ▸ hq.once,
    ?_, ?_, ?_, ?_⟩
  · intro name queue hqueue a ha
    obtain ⟨hname, hcreated, hpreparing⟩ := hq.mem name queue (h.requestQueues ▸ hqueue) a ha
    exact ⟨(h.names a).trans hname, h.created ▸ hcreated, mt h.preparing hpreparing⟩
  · intro name first rest hqueue a ha
    rw [h.executed]
    exact hq.waiting name first rest (h.requestQueues ▸ hqueue) a ha
  · intro a ha
    obtain ⟨hcreated, hpreparing⟩ := hq.executed a (h.executed ▸ ha)
    exact ⟨h.created ▸ hcreated, mt h.preparing hpreparing⟩
  · rw [h.executed]
    exact List.Subset.trans h.executing hq.executing
  · intro frame hframe a ha
    rw [hstack] at hframe
    rw [h.created]
    rcases List.mem_append.mp hframe with hframe | hframe
    · exact ((hpushed frame hframe).2 a ha).1
    · exact hq.stack frame hframe a ha
  · rw [hstack]
    exact preparedFresh_append hq.fresh fun frame hframe => (hpushed frame hframe).1

end Quiet

/-! ### The dictionaries of requests -/

section Registry

variable {s : ActionStage} {path : String} {info : RequestInfo}

theorem Registered.created (h : Registered s)
    (hinfo : s.activeRequests.lookup path = some info ∨
      s.cancelRequestTimers.lookup path = some info) : info.requestBuilder < s.created :=
  (h.path path _ ⟨info, hinfo, rfl⟩).2

/-- At most one actor is registered for a path. -/
theorem Registered.eq (h : Registered s) {a b : ℕ} (ha : s.IsRegistered path a)
    (hb : s.IsRegistered path b) : a = b := by
  have hunique : ∀ {info info' : RequestInfo}, s.activeRequests.lookup path = some info →
      s.cancelRequestTimers.lookup path = some info' → False := fun hinfo hinfo' =>
    h.unique path (AList.lookup_isSome.mp (hinfo ▸ rfl)) (AList.lookup_isSome.mp (hinfo' ▸ rfl))
  obtain ⟨info, hinfo, rfl⟩ := ha
  obtain ⟨info', hinfo', rfl⟩ := hb
  rcases hinfo with hinfo | hinfo <;> rcases hinfo' with hinfo' | hinfo'
  · rw [Option.some.inj (hinfo.symm.trans hinfo')]
  · exact (hunique hinfo hinfo').elim
  · exact (hunique hinfo' hinfo).elim
  · rw [Option.some.inj (hinfo.symm.trans hinfo')]

/-- Fewer requests, of the same actors. -/
theorem Registered.mono (h : Registered s) {s' : ActionStage}
    (hactors : ∀ a, (s'.actors a).path = (s.actors a).path) (hcreated : s'.created = s.created)
    (hunique : ∀ path, path ∈ s'.activeRequests → path ∉ s'.cancelRequestTimers)
    (hinfo : ∀ path a, s'.IsRegistered path a → s.IsRegistered path a) : Registered s' :=
  ⟨hunique, fun path a ha => by
    rw [hactors, hcreated]
    exact h.path path a (hinfo path a ha)⟩

/-- A request that is replaced by one of the same actor. -/
theorem Registered.insert (h : Registered s) (info' : RequestInfo)
    (hinfo : s.activeRequests.lookup path = some info)
    (hbuilder : info'.requestBuilder = info.requestBuilder) :
    Registered { s with activeRequests := s.activeRequests.insert path info' } := by
  have hmem : path ∈ s.activeRequests := AList.lookup_isSome.mp (hinfo ▸ rfl)
  refine h.mono (fun _ => rfl) rfl (fun other hother => ?_) ?_
  · rcases (AList.mem_insert _).mp hother with rfl | hother
    · exact h.unique other hmem
    · exact h.unique other hother
  · rintro other a ⟨found, hfound, rfl⟩
    simp only [lookup_insert_ite] at hfound
    split at hfound
    case isTrue heq =>
      subst heq
      rcases hfound with hfound | hfound
      · obtain rfl := Option.some.inj hfound
        exact ⟨info, .inl hinfo, hbuilder.symm⟩
      · exact ⟨found, .inr hfound, rfl⟩
    case isFalse => exact ⟨found, hfound, rfl⟩

theorem Registered.erase (h : Registered s) (path : String) :
    Registered { s with activeRequests := s.activeRequests.erase path } := by
  refine h.mono (fun _ => rfl) rfl (fun other hother => ?_) ?_
  · exact h.unique other (AList.mem_erase.mp hother).2
  · rintro other a ⟨found, hfound | hfound, rfl⟩
    · rw [lookup_erase_ite] at hfound
      split at hfound
      · cases hfound
      · exact ⟨found, .inl hfound, rfl⟩
    · exact ⟨found, .inr hfound, rfl⟩

theorem Registered.eraseTimer (h : Registered s) :
    Registered { s with cancelRequestTimers := s.cancelRequestTimers.erase path } := by
  refine h.mono (fun _ => rfl) rfl (fun other hother hmem => ?_) ?_
  · exact h.unique other hother (AList.mem_erase.mp hmem).2
  · rintro other a ⟨found, hfound | hfound, rfl⟩
    · exact ⟨found, .inl hfound, rfl⟩
    · rw [lookup_erase_ite] at hfound
      split at hfound
      · cases hfound
      · exact ⟨found, .inr hfound, rfl⟩

/-- A request is parked. -/
theorem Registered.park (h : Registered s) (hinfo : s.activeRequests.lookup path = some info) :
    Registered { s with
      cancelRequestTimers := s.cancelRequestTimers.insert path info
      activeRequests := s.activeRequests.erase path } := by
  refine h.mono (fun _ => rfl) rfl (fun other hother hmem => ?_) ?_
  · obtain ⟨hne, hother⟩ := AList.mem_erase.mp hother
    rcases (AList.mem_insert _).mp hmem with heq | hmem
    · exact hne heq
    · exact h.unique other hother hmem
  · rintro other a ⟨found, hfound | hfound, rfl⟩
    · rw [lookup_erase_ite] at hfound
      split at hfound
      · cases hfound
      · exact ⟨found, .inl hfound, rfl⟩
    · rw [lookup_insert_ite] at hfound
      split at hfound
      case isTrue heq =>
        obtain rfl := Option.some.inj hfound
        exact ⟨info, .inl (heq ▸ hinfo), rfl⟩
      case isFalse => exact ⟨found, .inr hfound, rfl⟩

/-- A parked request becomes active again. -/
theorem Registered.resume (h : Registered s) (path : String) : Registered (s.resume path) := by
  rw [ActionStage.resume]
  split
  · exact h
  · rename_i info hinfo
    refine h.mono (fun _ => rfl) rfl (fun other hother hmem => ?_) ?_
    · obtain ⟨hne, hmem⟩ := AList.mem_erase.mp hmem
      rcases (AList.mem_insert _).mp hother with heq | hother
      · exact hne heq
      · exact h.unique other hother hmem
    · rintro other a ⟨found, hfound | hfound, rfl⟩
      · rw [lookup_insert_ite] at hfound
        split at hfound
        case isTrue heq =>
          obtain rfl := Option.some.inj hfound
          exact ⟨info, .inr (heq ▸ hinfo), rfl⟩
        case isFalse => exact ⟨found, .inl hfound, rfl⟩
      · rw [lookup_erase_ite] at hfound
        split at hfound
        · cases hfound
        · exact ⟨found, .inr hfound, rfl⟩

/-- After it has been looked for, a request is not parked. -/
theorem resume_timer (s : ActionStage) (path : String) :
    (s.resume path).cancelRequestTimers.lookup path = none := by
  rw [ActionStage.resume]
  split
  case h_1 hnone => exact hnone
  case h_2 => exact AList.lookup_erase _ _

theorem resume_quiet (s : ActionStage) (path : String) : Quiet s (s.resume path) := by
  rw [ActionStage.resume]
  split
  · exact .refl s
  · exact .of_eq rfl rfl rfl (fun _ => rfl) rfl rfl

end Registry

/-! ### The calls of the stage -/

section Calls

variable {s : ActionStage} {path : String} {info : RequestInfo} {a : ℕ}

theorem Registered.of_eq (h : Registered s) {s' : ActionStage}
    (hactive : s'.activeRequests = s.activeRequests)
    (htimers : s'.cancelRequestTimers = s.cancelRequestTimers)
    (hactors : ∀ a, (s'.actors a).path = (s.actors a).path)
    (hcreated : s'.created = s.created) : Registered s' := by
  refine h.mono hactors hcreated (by rw [hactive, htimers]; exact h.unique) ?_
  rintro path a ⟨info, hinfo, rfl⟩
  rw [hactive, htimers] at hinfo
  exact ⟨info, hinfo, rfl⟩

/-- Frames that name no actor are pushed. -/
theorem quiet_push (s : ActionStage) (pushed : List Frame)
    (hpushed : ∀ frame ∈ pushed, frame.actor = none) :
    Quiet s { s with stack := pushed ++ s.stack } := by
  refine ⟨rfl, rfl, rfl, fun _ => rfl, List.Subset.refl _, pushed, rfl, fun frame hframe => ⟨?_, ?_⟩⟩
  · rintro a changePriority rfl
    cases hpushed _ hframe
  · intro a ha
    rw [hpushed frame hframe] at ha
    cases ha

theorem quiet_cancel {frames : List Frame} (ha : a < s.created)
    (hframes : ∀ frame ∈ frames, frame.actor = none) : Quiet s (s.cancel a frames) := by
  refine ⟨rfl, rfl, rfl, fun _ => rfl, List.filter_subset_self _,
    .user :: .cancelled a :: frames, rfl, fun frame hframe => ?_⟩
  rcases List.mem_cons.mp hframe with rfl | hframe
  · exact ⟨fun _ _ h => (by cases h), fun _ h => (by cases h)⟩
  · rcases List.mem_cons.mp hframe with rfl | hframe
    · refine ⟨fun _ _ h => (by cases h), fun b hb => ?_⟩
      obtain rfl := Option.some.inj hb
      exact ⟨ha, by simp [ActionStage.cancel]⟩
    · refine ⟨fun b changePriority h => ?_, fun b hb => ?_⟩
      · rw [h] at hframe
        cases hframes _ hframe
      · rw [hframes frame hframe] at hb
        cases hb

theorem Registered.cancel {frames : List Frame} (h : Registered s) :
    Registered (s.cancel a frames) := h.of_eq rfl rfl (fun _ => rfl) rfl

theorem quiet_endRequest (h : Registered s) (reporter : ℕ) (path : String) :
    Quiet s (s.endRequest reporter path) := by
  simp only [endRequest]
  split
  · exact .of_eq rfl rfl rfl (fun _ => rfl) rfl rfl
  · rename_i info hinfo
    refine ⟨rfl, rfl, rfl, fun _ => rfl, List.filter_subset_self _,
      [.completing info.requestBuilder info.watchers], rfl, fun frame hframe => ?_⟩
    obtain rfl := List.mem_singleton.mp hframe
    refine ⟨fun _ _ h => (by cases h), fun b hb => ?_⟩
    obtain rfl := Option.some.inj hb
    exact ⟨h.created (.inl hinfo), by simp⟩

theorem Registered.endRequest (h : Registered s) (reporter : ℕ) (path : String) :
    Registered (s.endRequest reporter path) := by
  simp only [ActionStage.endRequest]
  split
  · exact h.of_eq rfl rfl (fun _ => rfl) rfl
  · exact (h.erase path).of_eq rfl rfl (fun _ => rfl) rfl

theorem quiet_scheduleCancelRequest (h : Registered s) (path : String) :
    Quiet s (s.scheduleCancelRequest path) := by
  rw [scheduleCancelRequest]
  split
  · rename_i info hinfo hnone
    split
    · have hquiet : Quiet s { s with activeRequests := s.activeRequests.erase path } :=
        .of_eq rfl rfl rfl (fun _ => rfl) rfl rfl
      exact hquiet.trans (quiet_cancel (h.created (.inl hinfo))
        fun _ hmem => absurd hmem List.not_mem_nil)
    · exact .of_eq rfl rfl rfl (fun _ => rfl) rfl rfl
  · exact .refl s

theorem Registered.scheduleCancelRequest (h : Registered s) (path : String) :
    Registered (s.scheduleCancelRequest path) := by
  rw [ActionStage.scheduleCancelRequest]
  split
  · rename_i info hinfo hnone
    split
    · exact (h.erase path).cancel
    · exact h.park hinfo
  · exact h

theorem quiet_performCancelRequest (h : Registered s) (path : String) :
    Quiet s (s.performCancelRequest path) := by
  rw [performCancelRequest]
  split
  · exact .refl s
  · rename_i info hinfo
    refine quiet_cancel (h.created (.inr hinfo)) fun frame hframe => ?_
    obtain rfl := List.mem_singleton.mp hframe
    rfl

theorem Registered.performCancelRequest (h : Registered s) (path : String) :
    Registered (s.performCancelRequest path) := by
  rw [ActionStage.performCancelRequest]
  split
  · exact h
  · exact h.cancel

theorem Registered.leave (h : Registered s) (path : String) (stays : ℕ → Bool) :
    Registered (s.leave path stays) := by
  simp only [ActionStage.leave]
  split
  · exact h
  · rename_i info hinfo
    have hinsert := h.insert ⟨info.requestBuilder, info.watchers.filter stays⟩ hinfo rfl
    split
    · exact hinsert.scheduleCancelRequest path
    · exact hinsert

theorem quiet_leave (h : Registered s) (path : String) (stays : ℕ → Bool) :
    Quiet s (s.leave path stays) := by
  simp only [leave]
  split
  · exact .refl s
  · rename_i info hinfo
    have hinsert := h.insert ⟨info.requestBuilder, info.watchers.filter stays⟩ hinfo rfl
    have hquiet : Quiet s
        { s with
          activeRequests :=
            s.activeRequests.insert path ⟨info.requestBuilder, info.watchers.filter stays⟩ } :=
      .of_eq rfl rfl rfl (fun _ => rfl) rfl rfl
    split
    · exact hquiet.trans (quiet_scheduleCancelRequest hinsert path)
    · exact hquiet

end Calls

/-! ### A new actor -/

/-- The state with a new actor, whose `prepare:` runs. -/
def create (s : ActionStage) (path : String) (changePriority : Bool) (watcher : ℕ) : ActionStage :=
  { s with
    activeRequests := s.activeRequests.insert path ⟨s.created, [watcher]⟩
    actors := Function.update s.actors s.created { path }
    created := s.created + 1
    stack := .user :: .prepared s.created changePriority :: s.stack }

/-- A request creates an actor for a path that has none, or leaves the queues alone. -/
theorem requestGeneric_cases {s : ActionStage} (h : Registered s) (joinOnly : Bool)
    (path : String) (changePriority registered : Bool) (watcher : ℕ) :
    let s' := s.requestGeneric joinOnly path changePriority registered watcher
    Quiet s s' ∧ Registered s' ∨
      (s.resume path).activeRequests.lookup path = none ∧
        s' = (s.resume path).create path changePriority watcher := by
  have hresume := h.resume path
  have hquiet := resume_quiet s path
  simp only [requestGeneric]
  split
  · rename_i hnone
    split
    · exact .inl ⟨hquiet, hresume⟩
    · exact .inr ⟨hnone, rfl⟩
  · rename_i info hinfo
    have hjoined := hresume.insert (info.join watcher) hinfo
      (by rw [RequestInfo.join]; split <;> rfl)
    refine .inl ⟨hquiet.trans ?_, hjoined.of_eq rfl rfl (fun _ => rfl) rfl⟩
    split
    · exact (quiet_push _ [.user, .changePriority path] (by simp [Frame.actor])).trans
        (.of_eq rfl rfl rfl (fun _ => rfl) rfl rfl)
    · exact (quiet_push _ [.user] (by simp [Frame.actor])).trans
        (.of_eq rfl rfl rfl (fun _ => rfl) rfl rfl)

section Create

variable {s : ActionStage} {path : String} {changePriority : Bool} {watcher : ℕ}

theorem Registered.create (h : Registered s) (hactive : s.activeRequests.lookup path = none)
    (htimer : s.cancelRequestTimers.lookup path = none) :
    Registered (s.create path changePriority watcher) := by
  constructor
  · intro other hother hmem
    rcases (AList.mem_insert _).mp hother with rfl | hother
    · exact absurd hmem (AList.lookup_eq_none.mp htimer)
    · exact h.unique other hother hmem
  · rintro other a ⟨info, hinfo, rfl⟩
    simp only [ActionStage.create, lookup_insert_ite] at hinfo
    have hcases : (other = path ∧ info.requestBuilder = s.created) ∨
        s.IsRegistered other info.requestBuilder := by
      rcases hinfo with hinfo | hinfo
      · split at hinfo
        case isTrue heq =>
          obtain rfl := Option.some.inj hinfo
          exact .inl ⟨heq, rfl⟩
        case isFalse => exact .inr ⟨info, .inl hinfo, rfl⟩
      · exact .inr ⟨info, .inr hinfo, rfl⟩
    simp only [ActionStage.create]
    rcases hcases with ⟨rfl, hbuilder⟩ | hregistered
    · rw [hbuilder, Function.update_self]
      exact ⟨rfl, Nat.lt_succ_self _⟩
    · obtain ⟨hpath, hcreated⟩ := h.path other _ hregistered
      rw [Function.update_of_ne (Nat.ne_of_lt hcreated)]
      exact ⟨hpath, Nat.lt_succ_of_lt hcreated⟩

theorem preparing_create {a : ℕ} (ha : a < s.created)
    (h : Preparing (s.create path changePriority watcher).stack a) : Preparing s.stack a := by
  obtain ⟨priority, hmem⟩ := h
  simp only [ActionStage.create, List.mem_cons, reduceCtorEq, false_or, Frame.prepared.injEq]
    at hmem
  rcases hmem with ⟨rfl, -⟩ | hmem
  · exact absurd ha (Nat.lt_irrefl _)
  · exact ⟨priority, hmem⟩

theorem Queued.create (hq : Queued s) : Queued (s.create path changePriority watcher) := by
  refine ⟨hq.ne_nil, hq.nodup, ?_, hq.waiting, hq.once, ?_, hq.executing, ?_, ?_⟩
  · intro name queue hqueue a ha
    obtain ⟨hname, hcreated, hpreparing⟩ := hq.mem name queue hqueue a ha
    refine ⟨?_, Nat.lt_succ_of_lt hcreated, mt (preparing_create hcreated) hpreparing⟩
    simp only [ActionStage.create]
    rw [Function.update_of_ne (Nat.ne_of_lt hcreated)]
    exact hname
  · intro a ha
    obtain ⟨hcreated, hpreparing⟩ := hq.executed a ha
    exact ⟨Nat.lt_succ_of_lt hcreated, mt (preparing_create hcreated) hpreparing⟩
  · intro frame hframe a ha
    simp only [ActionStage.create, List.mem_cons] at hframe
    rcases hframe with rfl | rfl | hframe
    · cases ha
    · obtain rfl := Option.some.inj ha
      exact Nat.lt_succ_self _
    · exact Nat.lt_succ_of_lt (hq.stack frame hframe a ha)
  · refine ⟨fun _ _ h => (by cases h), fun a priority h below hbelow hactor => ?_, hq.fresh⟩
    obtain rfl := (Frame.prepared.inj h).1
    exact absurd (hq.stack below hbelow _ hactor) (Nat.lt_irrefl _)

end Create

/-! ### The queues -/

section Queues

variable {s : ActionStage} {name : String} {first : ℕ} {rest : List ℕ} {a : ℕ}

/-- A queue is replaced by one that is as good. -/
theorem Queued.insert (hq : Queued s) (hnodup : (first :: rest).Nodup)
    (hmem : ∀ a ∈ first :: rest,
      (s.actors a).requestQueueName = some name ∧ a < s.created ∧ ¬ Preparing s.stack a)
    (hwaiting : ∀ a ∈ rest, a ∉ s.executed) :
    Queued { s with requestQueues := s.requestQueues.insert name (first :: rest) } := by
  refine ⟨fun other queue hqueue => ?_, fun other queue hqueue => ?_,
    fun other queue hqueue a ha => ?_, fun other first' rest' hqueue a ha => ?_,
    hq.once, hq.executed, hq.executing, hq.stack, hq.fresh⟩
  all_goals rw [lookup_insert_ite] at hqueue; split at hqueue
  · obtain rfl := Option.some.inj hqueue
    exact List.cons_ne_nil _ _
  · exact hq.ne_nil other queue hqueue
  · obtain rfl := Option.some.inj hqueue
    exact hnodup
  · exact hq.nodup other queue hqueue
  case isTrue heq =>
    obtain rfl := Option.some.inj hqueue
    exact heq ▸ hmem a ha
  · exact hq.mem other queue hqueue a ha
  · obtain ⟨-, rfl⟩ := List.cons.inj (Option.some.inj hqueue)
    exact hwaiting a ha
  · exact hq.waiting other first' rest' hqueue a ha

/-- An actor is given `execute:`, the first of its queue if it has one. -/
theorem Queued.execute (hq : Queued s) (ha : a < s.created) (hpreparing : ¬ Preparing s.stack a)
    (hexecuted : a ∉ s.executed)
    (hfirst : ∀ name first rest, s.requestQueues.lookup name = some (first :: rest) → a ∉ rest) :
    Queued (s.execute a) := by
  have hstack : ∀ b, Preparing (s.execute a).stack b → Preparing s.stack b := by
    rintro b ⟨priority, hmem⟩
    simp only [ActionStage.execute, List.mem_cons, reduceCtorEq, false_or] at hmem
    exact ⟨priority, hmem⟩
  refine ⟨hq.ne_nil, hq.nodup, ?_, ?_, List.nodup_cons.mpr ⟨hexecuted, hq.once⟩, ?_, ?_, ?_, ?_⟩
  · intro name queue hqueue b hb
    obtain ⟨hname, hcreated, hb⟩ := hq.mem name queue hqueue b hb
    exact ⟨hname, hcreated, mt (hstack b) hb⟩
  · intro name first rest hqueue b hb hmem
    rcases List.mem_cons.mp hmem with rfl | hmem
    · exact hfirst name first rest hqueue hb
    · exact hq.waiting name first rest hqueue b hb hmem
  · intro b hb
    rcases List.mem_cons.mp hb with rfl | hb
    · exact ⟨ha, mt (hstack b) hpreparing⟩
    · exact ⟨(hq.executed b hb).1, mt (hstack b) (hq.executed b hb).2⟩
  · exact List.cons_subset_cons a hq.executing
  · intro frame hframe b hb
    rcases List.mem_cons.mp hframe with rfl | hframe
    · cases hb
    · exact hq.stack frame hframe b hb
  · exact ⟨fun _ _ h => (by cases h), hq.fresh⟩

end Queues

/-! ### The steps of the queues -/

section QueueSteps

variable {s : ActionStage} {stack : List Frame} {frame : Frame} {a : ℕ}

theorem Queued.pop (hq : Queued s) (hstack : s.stack = frame :: stack) :
    Queued { s with stack } := by
  have hpreparing : ∀ b, ¬ Preparing s.stack b → ¬ Preparing stack b := fun b hb h =>
    hb (hstack ▸ h.tail)
  refine ⟨hq.ne_nil, hq.nodup, ?_, hq.waiting, hq.once, ?_, hq.executing, ?_, ?_⟩
  · intro name queue hqueue b hb
    obtain ⟨hname, hcreated, hb⟩ := hq.mem name queue hqueue b hb
    exact ⟨hname, hcreated, hpreparing b hb⟩
  · intro b hb
    obtain ⟨hcreated, hb⟩ := hq.executed b hb
    exact ⟨hcreated, hpreparing b hb⟩
  · intro below hbelow b hb
    exact hq.stack below (hstack ▸ List.mem_cons_of_mem _ hbelow) b hb
  · have hfresh := hq.fresh
    rw [hstack] at hfresh
    exact hfresh.2

/-- An actor names its request queue while it is prepared. -/
theorem Queued.setRequestQueueName (hq : Queued s) (ha : Preparing s.stack a)
    (name : Option String) :
    Queued { s with
      actors := Function.update s.actors a { s.actors a with requestQueueName := name } } := by
  refine ⟨hq.ne_nil, hq.nodup, ?_, hq.waiting, hq.once, hq.executed, hq.executing, hq.stack,
    hq.fresh⟩
  intro name queue hqueue b hb
  obtain ⟨hname, hcreated, hpreparing⟩ := hq.mem name queue hqueue b hb
  have hne : b ≠ a := by
    rintro rfl
    exact hpreparing ha
  refine ⟨?_, hcreated, hpreparing⟩
  rw [← hname]
  simp only [Function.update_of_ne hne]

/-- What `changeActorPriority:` does: the rest of one queue is ordered anew. -/
theorem changeActorPriority_cases (s : ActionStage) (path : String) :
    s.changeActorPriority path = s ∨ ∃ name first rest rest',
      s.requestQueues.lookup name = some (first :: rest) ∧ rest'.Perm rest ∧
        s.changeActorPriority path =
          { s with requestQueues := s.requestQueues.insert name (first :: rest') } := by
  rw [changeActorPriority]
  split
  · exact .inl rfl
  · rename_i info hinfo
    split
    · exact .inl rfl
    · rename_i name hname
      split
      · exact .inl rfl
      · exact .inl rfl
      · rename_i first rest hqueue
        split
        case isTrue hmem =>
          exact .inr ⟨name, first, rest, _, hqueue, (List.perm_cons_erase hmem.1).symm, rfl⟩
        case isFalse => exact .inl rfl

theorem Registered.changeActorPriority (h : Registered s) (path : String) :
    Registered (s.changeActorPriority path) := by
  rcases changeActorPriority_cases s path with heq | ⟨name, first, rest, rest', -, -, heq⟩
  · rw [heq]
    exact h
  · rw [heq]
    exact h.of_eq rfl rfl (fun _ => rfl) rfl

theorem Queued.changeActorPriority (hq : Queued s) (path : String) :
    Queued (s.changeActorPriority path) := by
  rcases changeActorPriority_cases s path with heq | ⟨name, first, rest, rest', hqueue, hperm, heq⟩
  · rw [heq]
    exact hq
  · have hcons : (first :: rest').Perm (first :: rest) := hperm.cons first
    rw [heq]
    refine hq.insert (hcons.nodup_iff.mpr (hq.nodup name _ hqueue)) (fun a ha => ?_) fun a ha => ?_
    · exact hq.mem name _ hqueue a (hcons.mem_iff.mp ha)
    · exact hq.waiting name first rest hqueue a (hperm.mem_iff.mp ha)

/-- An actor that has been prepared, and is not in a queue. -/
structure Fresh (s : ActionStage) (a : ℕ) : Prop where
  created : a < s.created
  preparing : ¬ Preparing s.stack a
  executed : a ∉ s.executed
  queue : ∀ name queue, s.requestQueues.lookup name = some queue → a ∉ queue
  finishing : ¬ Finishing s.stack a

theorem Queued.popPrepared (hq : Queued s) {changePriority : Bool}
    (hstack : s.stack = .prepared a changePriority :: stack) : Fresh { s with stack } a := by
  have hpreparing : Preparing s.stack a := ⟨changePriority, hstack ▸ List.mem_cons_self⟩
  have hfresh := hq.fresh
  rw [hstack] at hfresh
  have hbelow : ∀ below ∈ stack, below.actor ≠ some a := hfresh.1 a changePriority rfl
  refine ⟨hq.stack _ (hstack ▸ List.mem_cons_self) a rfl, fun h => ?_,
    fun h => (hq.executed a h).2 hpreparing,
    fun name queue hqueue h => (hq.mem name queue hqueue a h).2.2 hpreparing, fun h => ?_⟩
  · obtain ⟨below, hmem, hactor⟩ := h.actor
    exact hbelow below hmem hactor
  · obtain ⟨below, hmem, hactor⟩ := h.actor
    exact hbelow below hmem hactor

/-- What an actor does that has been prepared: it runs, or waits in its queue. -/
theorem prepared_cases (hq : Queued s) (a : ℕ) (changePriority : Bool) :
    (s.actors a).requestQueueName = none ∧ s.prepared a changePriority = s.execute a ∨
    ∃ name, (s.actors a).requestQueueName = some name ∧
      (s.requestQueues.lookup name = none ∧ s.prepared a changePriority =
        { s with requestQueues := s.requestQueues.insert name [a] }.execute a ∨
      ∃ first rest rest', s.requestQueues.lookup name = some (first :: rest) ∧
        rest'.Perm (a :: rest) ∧ s.prepared a changePriority =
          { s with requestQueues := s.requestQueues.insert name (first :: rest') }) := by
  rw [prepared]
  split
  · rename_i hname
    exact .inl ⟨hname, rfl⟩
  · rename_i name hname
    refine .inr ⟨name, hname, ?_⟩
    split
    · rename_i hnone
      exact .inl ⟨hnone, rfl⟩
    · rename_i hnil
      exact absurd rfl (hq.ne_nil name [] hnil)
    · rename_i first rest hqueue
      cases changePriority with
      | true => exact .inr ⟨first, rest, a :: rest, hqueue, List.Perm.refl _, rfl⟩
      | false =>
          exact .inr ⟨first, rest, rest ++ [a], hqueue, List.perm_append_singleton a rest, rfl⟩

theorem Registered.prepared (h : Registered s) (a : ℕ) (changePriority : Bool) :
    Registered (s.prepared a changePriority) := by
  rw [ActionStage.prepared]
  split
  · exact h.of_eq rfl rfl (fun _ => rfl) rfl
  · split <;> exact h.of_eq rfl rfl (fun _ => rfl) rfl

theorem Queued.prepared (hq : Queued s) (ha : Fresh s a) (changePriority : Bool) :
    Queued (s.prepared a changePriority) := by
  rcases prepared_cases hq a changePriority with ⟨-, heq⟩ | ⟨name, hname, ⟨hnone, heq⟩ |
    ⟨first, rest, rest', hqueue, hperm, heq⟩⟩
  · rw [heq]
    refine hq.execute ha.created ha.preparing ha.executed fun name first rest hqueue hmem => ?_
    exact ha.queue name _ hqueue (List.mem_cons_of_mem _ hmem)
  · have hinsert : Queued { s with requestQueues := s.requestQueues.insert name [a] } := by
      refine hq.insert (List.nodup_singleton a) (fun b hb => ?_) fun b hb => ?_
      · obtain rfl := List.mem_singleton.mp hb
        exact ⟨hname, ha.created, ha.preparing⟩
      · cases hb
    rw [heq]
    refine hinsert.execute ha.created ha.preparing ha.executed fun other first rest hqueue => ?_
    rw [lookup_insert_ite] at hqueue
    split at hqueue
    · obtain ⟨-, rfl⟩ := List.cons.inj (Option.some.inj hqueue)
      exact List.not_mem_nil
    · exact fun hmem => ha.queue other _ hqueue (List.mem_cons_of_mem _ hmem)
  · have hcons : (first :: rest').Perm (a :: first :: rest) :=
      (hperm.cons first).trans (List.Perm.swap a first rest)
    rw [heq]
    refine hq.insert ?_ (fun b hb => ?_) fun b hb => ?_
    · exact hcons.nodup_iff.mpr
        (List.nodup_cons.mpr ⟨ha.queue name _ hqueue, hq.nodup name _ hqueue⟩)
    · rcases List.mem_cons.mp (hcons.mem_iff.mp hb) with rfl | hb
      · exact ⟨hname, ha.created, ha.preparing⟩
      · exact hq.mem name _ hqueue b hb
    · rcases List.mem_cons.mp (hperm.mem_iff.mp hb) with rfl | hb
      · exact ha.executed
      · exact hq.waiting name first rest hqueue b hb

/-- What the removal of an actor from its queue does. -/
theorem removeRequestFromQueue_cases (s : ActionStage) (a : ℕ) :
    s.removeRequestFromQueue a = s ∧ (∀ name, (s.actors a).requestQueueName = some name →
      ∀ first rest, s.requestQueues.lookup name ≠ some (first :: rest)) ∨
    ∃ name, (s.actors a).requestQueueName = some name ∧
      (s.requestQueues.lookup name = some [a] ∧ s.removeRequestFromQueue a =
        { s with requestQueues := s.requestQueues.erase name } ∨
      (∃ next rest, s.requestQueues.lookup name = some (a :: next :: rest) ∧
        (s.removeRequestFromQueue a =
            { s with requestQueues := s.requestQueues.insert name (next :: rest) } ∨
          (s.actors next).cancelled = false ∧ s.removeRequestFromQueue a =
            { s with requestQueues := s.requestQueues.insert name (next :: rest) }.execute
              next)) ∨
      ∃ first rest rest', s.requestQueues.lookup name = some (first :: rest) ∧
        rest'.Sublist rest ∧ a ∉ first :: rest' ∧ s.removeRequestFromQueue a =
          { s with requestQueues := s.requestQueues.insert name (first :: rest') }) := by
  simp only [removeRequestFromQueue]
  split
  · rename_i hnone
    refine .inl ⟨rfl, fun name hname => ?_⟩
    rw [hnone] at hname
    cases hname
  · rename_i name hname
    have hother : ∀ {queue}, s.requestQueues.lookup name = queue →
        (∀ first rest, queue ≠ some (first :: rest)) →
        ∀ other, (s.actors a).requestQueueName = some other →
          ∀ first rest, s.requestQueues.lookup other ≠ some (first :: rest) := by
      rintro queue rfl hqueue other hother
      obtain rfl := Option.some.inj (hname.symm.trans hother)
      exact hqueue
    split
    · rename_i hqueue
      exact .inl ⟨rfl, hother hqueue fun _ _ => (by simp)⟩
    · rename_i hqueue
      exact .inl ⟨rfl, hother hqueue fun _ _ => (by simp)⟩
    · rename_i first rest hqueue
      refine .inr ⟨name, hname, ?_⟩
      split
      case isTrue hfirst =>
        subst hfirst
        split
        · exact .inl ⟨hqueue, rfl⟩
        · rename_i next rest
          refine .inr (.inl ⟨next, rest, hqueue, ?_⟩)
          by_cases hcancelled : (s.actors next).cancelled = true
          · simp only [hcancelled, if_true, true_or]
          · exact .inr ⟨Bool.eq_false_iff.mpr hcancelled, if_neg hcancelled⟩
      case isFalse hfirst =>
        refine .inr (.inr ⟨first, rest, _, hqueue, List.filter_sublist, ?_, rfl⟩)
        rintro hmem
        rcases List.mem_cons.mp hmem with rfl | hmem
        · exact hfirst rfl
        · exact absurd rfl (of_decide_eq_true (List.mem_filter.mp hmem).2)

theorem Registered.removeRequestFromQueue (h : Registered s) (a : ℕ) :
    Registered (s.removeRequestFromQueue a) := by
  rcases removeRequestFromQueue_cases s a with ⟨heq, -⟩ | ⟨name, -, ⟨-, heq⟩ |
    ⟨next, rest, -, heq | ⟨-, heq⟩⟩ | ⟨first, rest, rest', -, -, -, heq⟩⟩
  · rw [heq]
    exact h
  all_goals rw [heq]; exact h.of_eq rfl rfl (fun _ => rfl) rfl

/-- A queue without its first actor. -/
theorem Queued.dequeue (hq : Queued s) {name : String} {next : ℕ} {rest : List ℕ}
    (hqueue : s.requestQueues.lookup name = some (a :: next :: rest)) :
    Queued { s with requestQueues := s.requestQueues.insert name (next :: rest) } :=
  hq.insert (List.nodup_cons.mp (hq.nodup name _ hqueue)).2
    (fun b hb => hq.mem name _ hqueue b (List.mem_cons_of_mem _ hb))
    (fun b hb => hq.waiting name a (next :: rest) hqueue b (List.mem_cons_of_mem _ hb))

theorem Queued.removeRequestFromQueue (hq : Queued s) (a : ℕ) :
    Queued (s.removeRequestFromQueue a) := by
  rcases removeRequestFromQueue_cases s a with ⟨heq, -⟩ | ⟨name, hname, ⟨hqueue, heq⟩ |
    ⟨next, rest, hqueue, heq | ⟨-, heq⟩⟩ | ⟨first, rest, rest', hqueue, hsub, -, heq⟩⟩
  · rw [heq]
    exact hq
  · rw [heq]
    have hother : ∀ {other queue}, (s.requestQueues.erase name).lookup other = some queue →
        s.requestQueues.lookup other = some queue := by
      intro other queue hqueue
      rw [lookup_erase_ite] at hqueue
      split at hqueue
      · cases hqueue
      · exact hqueue
    exact ⟨fun other queue h => hq.ne_nil other queue (hother h),
      fun other queue h => hq.nodup other queue (hother h),
      fun other queue h => hq.mem other queue (hother h),
      fun other first rest h => hq.waiting other first rest (hother h),
      hq.once, hq.executed, hq.executing, hq.stack, hq.fresh⟩
  · rw [heq]
    exact hq.dequeue hqueue
  · rw [heq]
    have hnext : next ∈ a :: next :: rest := List.mem_cons_of_mem _ List.mem_cons_self
    obtain ⟨hnextName, hcreated, hpreparing⟩ := hq.mem name _ hqueue next hnext
    refine (hq.dequeue hqueue).execute hcreated hpreparing
      (hq.waiting name a _ hqueue next List.mem_cons_self) fun other first rest' hqueue' => ?_
    have hdequeue := hq.dequeue hqueue
    intro hmem
    -- an actor is in the queue it names only, and there it is the first
    have hother := (hdequeue.mem other _ hqueue' next (List.mem_cons_of_mem _ hmem)).1
    obtain rfl := Option.some.inj (hnextName.symm.trans hother)
    simp only [AList.lookup_insert, Option.some.injEq, List.cons.injEq] at hqueue'
    obtain ⟨rfl, rfl⟩ := hqueue'
    exact (List.nodup_cons.mp (hdequeue.nodup name _ (AList.lookup_insert _))).1 hmem
  · rw [heq]
    have hcons : (first :: rest').Sublist (first :: rest) := hsub.cons_cons first
    exact hq.insert (hcons.nodup (hq.nodup name _ hqueue))
      (fun b hb => hq.mem name _ hqueue b (hcons.subset hb))
      (fun b hb => hq.waiting name first rest hqueue b (hsub.subset hb))

end QueueSteps

/-! ### Steps -/

/-- What holds of every state of the stage. -/
structure Valid (s : ActionStage) : Prop where
  registered : Registered s
  queued : Queued s

section Steps

variable {s : ActionStage}

theorem Registered.requestGeneric (h : Registered s) (joinOnly : Bool) (path : String)
    (changePriority registered : Bool) (watcher : ℕ) :
    Registered (s.requestGeneric joinOnly path changePriority registered watcher) := by
  rcases requestGeneric_cases h joinOnly path changePriority registered watcher with
    ⟨-, hregistered⟩ | ⟨hnone, heq⟩
  · exact hregistered
  · rw [heq]
    exact (h.resume path).create hnone (resume_timer s path)

theorem Queued.requestGeneric (h : Registered s) (hq : Queued s) (joinOnly : Bool)
    (path : String) (changePriority registered : Bool) (watcher : ℕ) :
    Queued (s.requestGeneric joinOnly path changePriority registered watcher) := by
  rcases requestGeneric_cases h joinOnly path changePriority registered watcher with
    ⟨hquiet, -⟩ | ⟨-, heq⟩
  · exact hq.quiet hquiet
  · rw [heq]
    exact (hq.quiet (resume_quiet s path)).create

/-- A field of the actors that an update does not change. -/
theorem update_field {γ : Type*} {actors : ℕ → ASActor} {a : ℕ} {actor : ASActor}
    (field : ASActor → γ) (h : field actor = field (actors a)) (b : ℕ) :
    field (Function.update actors a actor b) = field (actors b) := by
  by_cases hb : b = a
  · rw [hb, Function.update_self, h]
  · rw [Function.update_of_ne hb]

/-- A frame without actor is pushed. -/
theorem Registered.push (h : Registered s) (frame : Frame) (hframe : frame.actor = none) :
    Registered { s with stack := frame :: s.stack } ∧
      Quiet s { s with stack := frame :: s.stack } :=
  ⟨h.of_eq rfl rfl (fun _ => rfl) rfl, quiet_push s [frame] (by simpa using hframe)⟩

/-- What a call does that neither creates an actor nor touches a queue. -/
theorem call_quiet (h : Registered s) (c : StageCall) :
    Registered (s.call c) ∧ Quiet s (s.call c) ∨
      (∃ path changePriority registered watcher,
        c = .requestActor path changePriority registered watcher) ∨
      (∃ path, c = .changeActorPriority path) ∨
      ∃ a name, Preparing s.stack a ∧ s.call c = { s with
        actors := Function.update s.actors a { s.actors a with requestQueueName := name } } := by
  have hupdate : ∀ a actor, actor.path = (s.actors a).path →
      actor.requestQueueName = (s.actors a).requestQueueName →
      Registered { s with actors := Function.update s.actors a actor } ∧
        Quiet s { s with actors := Function.update s.actors a actor } := fun a actor hpath hname =>
    ⟨h.of_eq rfl rfl (update_field ASActor.path hpath) rfl,
      .of_eq rfl rfl rfl (update_field ASActor.requestQueueName hname) rfl rfl⟩
  cases c with
  | requestActor path changePriority registered watcher => exact .inr (.inl ⟨_, _, _, _, rfl⟩)
  | rejoinActions paths watcher => exact .inl (h.push _ rfl)
  | changeActorPriority path => exact .inr (.inr (.inl ⟨_, rfl⟩))
  | actionCompleted reporter path =>
      exact .inl ⟨h.endRequest reporter path, quiet_endRequest h reporter path⟩
  | actionFailed reporter path =>
      exact .inl ⟨h.endRequest reporter path, quiet_endRequest h reporter path⟩
  | removeWatcher handles => exact .inl (h.push _ rfl)
  | removeWatcherFromPath requests => exact .inl (h.push _ rfl)
  | removeAllWatchersFromPath path => exact .inl ⟨h.leave path _, quiet_leave h path _⟩
  | cancelActorTimeout path =>
      exact .inl ⟨h.performCancelRequest path, quiet_performCancelRequest h path⟩
  | setRequestQueueName a name =>
      by_cases ha : s.IsPreparing a
      · exact .inr (.inr (.inr ⟨a, name, isPreparing_iff.mp ha, if_pos ha⟩))
      · simp only [call, if_neg ha]
        exact .inl ⟨h, .refl s⟩
  | setCancelTimeout a cancelTimeout => exact .inl (hupdate a _ rfl rfl)
  | setCancelled a cancelled => exact .inl (hupdate a _ rfl rfl)

theorem Valid.call (h : Valid s) (c : StageCall) : Valid (s.call c) := by
  rcases call_quiet h.registered c with ⟨hregistered, hquiet⟩ |
    ⟨path, changePriority, registered, watcher, rfl⟩ | ⟨path, rfl⟩ | ⟨a, name, ha, heq⟩
  · exact ⟨hregistered, h.queued.quiet hquiet⟩
  · exact ⟨h.registered.requestGeneric false path changePriority registered watcher,
      h.queued.requestGeneric h.registered false path changePriority registered watcher⟩
  · exact ⟨h.registered.changeActorPriority path, h.queued.changeActorPriority path⟩
  · rw [heq]
    exact ⟨h.registered.of_eq rfl rfl (update_field ASActor.path rfl) rfl,
      h.queued.setRequestQueueName ha name⟩

theorem Registered.proceed (h : Registered s) (order : KeyOrder) (frame : Frame) :
    Registered (ActionStage.proceed order s frame) := by
  have hstack : ∀ stack, Registered { s with stack } := fun stack =>
    h.of_eq rfl rfl (fun _ => rfl) rfl
  cases frame with
  | user => exact h
  | prepared a changePriority => exact h.prepared a changePriority
  | changePriority path => exact h.changeActorPriority path
  | completing a watchers =>
      cases watchers with
      | nil => exact h.removeRequestFromQueue a
      | cons watcher watchers => exact hstack _
  | cancelled a => exact h.removeRequestFromQueue a
  | removeTimer path => exact h.eraseTimer
  | removeWatcher handle keys =>
      cases keys with
      | nil => exact h
      | cons path keys => exact (hstack _).leave path _
  | removeWatchers handles =>
      cases handles with
      | nil => exact h
      | cons handle handles => exact hstack _
  | removeFromPath requests =>
      cases requests with
      | nil => exact h
      | cons request requests => exact (hstack _).leave request.2 _
  | rejoin paths watcher =>
      cases paths with
      | nil => exact h
      | cons path paths => exact (hstack _).requestGeneric true path false true watcher

/-- What a frame does that neither is about an actor nor touches a queue. -/
theorem proceed_quiet (h : Registered s) (order : KeyOrder) {frame : Frame}
    (hframe : frame.actor = none) :
    Quiet s (proceed order s frame) ∨ (∃ path, frame = .changePriority path) ∨
      ∃ path paths watcher, frame = .rejoin (path :: paths) watcher := by
  cases frame with
  | user => exact .inl (.refl s)
  | prepared a changePriority => cases hframe
  | changePriority path => exact .inr (.inl ⟨path, rfl⟩)
  | completing a watchers => cases hframe
  | cancelled a => cases hframe
  | removeTimer path => exact .inl (.of_eq rfl rfl rfl (fun _ => rfl) rfl rfl)
  | removeWatcher handle keys =>
      cases keys with
      | nil => exact .inl (.refl s)
      | cons path keys =>
          obtain ⟨hregistered, hquiet⟩ := h.push (.removeWatcher handle keys) rfl
          exact .inl (hquiet.trans (quiet_leave hregistered path _))
  | removeWatchers handles =>
      cases handles with
      | nil => exact .inl (.refl s)
      | cons handle handles =>
          exact .inl (quiet_push s [_, _] (by simp [Frame.actor]))
  | removeFromPath requests =>
      cases requests with
      | nil => exact .inl (.refl s)
      | cons request requests =>
          obtain ⟨hregistered, hquiet⟩ := h.push (.removeFromPath requests) rfl
          exact .inl (hquiet.trans (quiet_leave hregistered request.2 _))
  | rejoin paths watcher =>
      cases paths with
      | nil => exact .inl (.refl s)
      | cons path paths => exact .inr (.inr ⟨path, paths, watcher, rfl⟩)

theorem quiet_rejoin (s : ActionStage) (stack : List Frame) (paths : List String)
    (watcher : ℕ) :
    Quiet { s with stack } { s with stack := .rejoin paths watcher :: stack } :=
  quiet_push { s with stack } [.rejoin paths watcher] (by simp [Frame.actor])

/-- The next watcher of a request is told. -/
theorem Queued.nextWatcher (hq : Queued s) {a watcher : ℕ} {watchers : List ℕ}
    {stack : List Frame} (hstack : s.stack = .completing a (watcher :: watchers) :: stack) :
    Queued { s with stack := .user :: .completing a watchers :: stack } := by
  have hpop := hq.pop hstack
  have hpreparing : ∀ b, Preparing (.user :: .completing a watchers :: stack) b →
      Preparing stack b := by
    rintro b ⟨priority, hmem⟩
    simp only [List.mem_cons, reduceCtorEq, false_or] at hmem
    exact ⟨priority, hmem⟩
  refine ⟨hpop.ne_nil, hpop.nodup, ?_, hpop.waiting, hpop.once, ?_, hpop.executing, ?_, ?_⟩
  · intro name queue hqueue b hb
    obtain ⟨hname, hcreated, hb⟩ := hpop.mem name queue hqueue b hb
    exact ⟨hname, hcreated, mt (hpreparing b) hb⟩
  · intro b hb
    exact ⟨(hpop.executed b hb).1, mt (hpreparing b) (hpop.executed b hb).2⟩
  · intro frame hframe b hb
    rcases List.mem_cons.mp hframe with rfl | hframe
    · cases hb
    · rcases List.mem_cons.mp hframe with rfl | hframe
      · exact hq.stack (.completing a (watcher :: watchers)) (hstack ▸ List.mem_cons_self) b hb
      · exact hpop.stack frame hframe b hb
  · exact ⟨fun _ _ h => (by cases h), fun _ _ h => (by cases h), hpop.fresh⟩

theorem Queued.proceed (h : Registered s) (hq : Queued s) (order : KeyOrder) {frame : Frame}
    {stack : List Frame} (hstack : s.stack = frame :: stack) :
    Queued (ActionStage.proceed order { s with stack } frame) := by
  have hpop := hq.pop hstack
  have hregistered : Registered { s with stack } := h.of_eq rfl rfl (fun _ => rfl) rfl
  cases hframe : frame.actor with
  | none =>
      rcases proceed_quiet hregistered order hframe with hquiet | ⟨path, rfl⟩ |
        ⟨path, paths, watcher, rfl⟩
      · exact hpop.quiet hquiet
      · exact hpop.changeActorPriority path
      · have hpush : Queued { s with stack := .rejoin paths watcher :: stack } :=
          hpop.quiet (quiet_rejoin s stack paths watcher)
        exact hpush.requestGeneric (by exact h.of_eq rfl rfl (fun _ => rfl) rfl) true path false true
          watcher
  | some a =>
      cases frame with
      | prepared b changePriority => exact hpop.prepared (hq.popPrepared hstack) changePriority
      | completing b watchers =>
          cases watchers with
          | nil => exact hpop.removeRequestFromQueue b
          | cons watcher watchers => exact hq.nextWatcher hstack
      | cancelled b => exact hpop.removeRequestFromQueue b
      | _ => cases hframe

/-- What a step does: a call, or what the frame on top of the stack does. -/
theorem step_cases (order : KeyOrder) (s : ActionStage) (e : StageEvent) :
    s.step order e = s ∨ (∃ c, e = .call c ∧ s.step order e = s.call c) ∨
      (∃ stack, s.stack = .user :: stack ∧ s.step order e = { s with stack }) ∨
      e = .proceed ∧ ∃ frame stack, s.stack = frame :: stack ∧
        s.step order e = proceed order { s with stack } frame := by
  cases e with
  | call c =>
      simp only [step]
      split
      · exact .inr (.inl ⟨c, rfl, rfl⟩)
      · exact .inr (.inl ⟨c, rfl, rfl⟩)
      · exact .inl rfl
  | returns =>
      simp only [step]
      split
      · rename_i stack hstack
        exact .inr (.inr (.inl ⟨stack, hstack, rfl⟩))
      · exact .inl rfl
  | proceed =>
      simp only [step]
      split
      · exact .inl rfl
      · exact .inl rfl
      · rename_i frame stack hframe hstack
        exact .inr (.inr (.inr ⟨trivial, frame, stack, hstack, rfl⟩))

/-- **What holds of the dictionaries, the queues and the stack** is kept by every step. -/
theorem valid_step (order : KeyOrder) (e : StageEvent) (h : Valid s) :
    Valid (s.step order e) := by
  rcases step_cases order s e with heq | ⟨c, -, heq⟩ | ⟨stack, hstack, heq⟩ |
    ⟨-, frame, stack, hstack, heq⟩
  all_goals rw [heq]
  · exact h
  · exact h.call c
  · exact ⟨h.registered.of_eq rfl rfl (fun _ => rfl) rfl, h.queued.pop hstack⟩
  · have hregistered : Registered { s with stack } :=
      h.registered.of_eq rfl rfl (fun _ => rfl) rfl
    exact ⟨hregistered.proceed order frame, h.queued.proceed h.registered order hstack⟩

end Steps

/-- In the empty stage there is nothing. -/
theorem valid_init : Valid {} := by
  refine ⟨⟨fun path hmem => absurd hmem (AList.notMem_empty path), ?_⟩, ?_⟩
  · rintro path a ⟨info, hinfo | hinfo, -⟩
    · cases hinfo
    · cases hinfo
  · exact ⟨fun _ _ h => (nomatch h), fun _ _ h => (nomatch h), fun _ _ h => (nomatch h),
      fun _ _ _ h => (nomatch h), List.nodup_nil, fun _ h => absurd h List.not_mem_nil,
      List.Subset.refl _, fun _ h => absurd h List.not_mem_nil, trivial⟩

end ActionStage

end Telegraph.Stage
