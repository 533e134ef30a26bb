import Telegraph.Lib.Machine
import Telegraph.Stage.Queues

/-!
# Nobody Waits for a Finished Actor

A completion is looked for by path, and among the active requests only. So an actor that reports
its completion while its request is parked is not heard, and one that reports it after its
request was cancelled completes that of a later actor. Where neither happens, no path belongs to
an actor that has reported, no finished or cancelled actor is left first in a queue, and a
completion goes to the watchers of the actor that reported it.

## Main results

* `Accounted`: an actor that waits is registered, or its end is on the stack.
* `Tracks`: what holds between two states if no actor enters or leaves a queue.
* `accounted_step`: **the invariant is kept** by every step that meets the condition.
* `finishedActors_released`: nobody waits for a finished actor in every state of such a run.
* `finishedActors_wait`: a run in which somebody does.
-/

open Dictionary Machine

namespace Telegraph.Stage

namespace ActionStage

/-! ### Who is waited for -/

/-- An actor is active for a path. -/
def IsActive (s : ActionStage) (path : String) (a : ℕ) : Prop :=
  ∃ info, s.activeRequests.lookup path = some info ∧ info.requestBuilder = a

/-- An actor has a request, active or parked. -/
def HasRequest (s : ActionStage) (a : ℕ) : Prop := ∃ path, s.IsRegistered path a

/-- An actor is in a request queue. -/
def InQueue (s : ActionStage) (a : ℕ) : Prop :=
  ∃ name queue, s.requestQueues.lookup name = some queue ∧ a ∈ queue

/-- An actor has a request, or was cancelled, or its end is being reported. -/
def Held (s : ActionStage) (a : ℕ) : Prop :=
  s.HasRequest a ∨ a ∈ s.cancels ∨ a ∈ s.executed ∧ Finishing s.stack a

/-- No path belongs to an actor that has reported, and an actor that waits is not forgotten. -/
structure Accounted (s : ActionStage) : Prop where
  active : ∀ path a, s.IsActive path a → a ∉ s.reported
  delivered : ∀ d ∈ s.delivered, d.1 = d.2
  reported : s.reported ⊆ s.executed
  held : ∀ a, s.InQueue a ∨ Preparing s.stack a → s.Held a
  cancelled : ∀ a ∈ s.cancels, s.InQueue a → Finishing s.stack a

/-! ### Steps at which no actor enters or leaves a queue -/

/-- What holds between two states if no actor enters a queue, and the end of none is over. -/
structure Tracks (s s' : ActionStage) : Prop where
  active : ∀ path a, s'.IsActive path a → a ∈ s'.reported → s.IsActive path a ∧ a ∈ s.reported
  delivered : ∀ d ∈ s'.delivered, d ∈ s.delivered ∨ d.1 = d.2
  reported : ∀ a ∈ s'.reported, a ∈ s.reported ∨ a ∈ s'.executed
  executed : s.executed ⊆ s'.executed
  queues : ∀ a, s'.InQueue a → s.InQueue a
  preparing : ∀ a, Preparing s'.stack a → Preparing s.stack a ∨ s'.Held a
  held : ∀ a, s.Held a → s'.Held a
  finishing : ∀ a, Finishing s.stack a → Finishing s'.stack a
  cancelled : ∀ a ∈ s'.cancels, a ∈ s.cancels ∨ Finishing s'.stack a

section Tracks

variable {s s' s'' : ActionStage}

theorem Tracks.trans (h : Tracks s s') (h' : Tracks s' s'') : Tracks s s'' := by
  refine ⟨fun path a ha hreported => ?_, fun d hd => ?_, fun a ha => ?_,
    List.Subset.trans h.executed h'.executed, fun a ha => h.queues a (h'.queues a ha),
    fun a ha => ?_, fun a ha => h'.held a (h.held a ha),
    fun a ha => h'.finishing a (h.finishing a ha), fun a ha => ?_⟩
  · obtain ⟨ha, hreported⟩ := h'.active path a ha hreported
    exact h.active path a ha hreported
  · rcases h'.delivered d hd with hd | hd
    · exact h.delivered d hd
    · exact .inr hd
  · rcases h'.reported a ha with ha | ha
    · exact (h.reported a ha).imp_right fun ha => h'.executed ha
    · exact .inr ha
  · rcases h'.preparing a ha with ha | ha
    · exact (h.preparing a ha).imp_right (h'.held a)
    · exact .inr ha
  · rcases h'.cancelled a ha with ha | ha
    · exact (h.cancelled a ha).imp_right (h'.finishing a)
    · exact .inr ha

theorem Accounted.tracks (h : Accounted s) (ht : Tracks s s') : Accounted s' := by
  refine ⟨fun path a ha hreported => ?_, fun d hd => ?_, fun a ha => ?_, fun a ha => ?_,
    fun a ha hqueue => ?_⟩
  · obtain ⟨ha, hreported⟩ := ht.active path a ha hreported
    exact h.active path a ha hreported
  · rcases ht.delivered d hd with hd | hd
    · exact h.delivered d hd
    · exact hd
  · rcases ht.reported a ha with ha | ha
    · exact ht.executed (h.reported ha)
    · exact ha
  · rcases ha with ha | ha
    · exact ht.held a (h.held a (.inl (ht.queues a ha)))
    · rcases ht.preparing a ha with ha | ha
      · exact ht.held a (h.held a (.inr ha))
      · exact ha
  · rcases ht.cancelled a ha with ha | ha
    · exact ht.finishing a (h.cancelled a ha (ht.queues a hqueue))
    · exact ha

/-- Only the requests change. -/
theorem Tracks.requests (hreported : s'.reported = s.reported)
    (hdelivered : s'.delivered = s.delivered) (hexecuted : s'.executed = s.executed)
    (hqueues : s'.requestQueues = s.requestQueues) (hcancels : s'.cancels = s.cancels)
    (hstack : s'.stack = s.stack)
    (hactive : ∀ path a, s'.IsActive path a → a ∈ s.reported → s.IsActive path a)
    (hrequest : ∀ a, s.HasRequest a → s'.HasRequest a ∨ a ∈ s.cancels) : Tracks s s' := by
  refine ⟨fun path a ha hmem => ?_, fun d hd => .inl (hdelivered ▸ hd),
    fun a ha => .inl (hreported ▸ ha), hexecuted ▸ List.Subset.refl _, fun a ha => ?_,
    fun a ha => .inl (hstack ▸ ha), fun a ha => ?_, fun a ha => hstack ▸ ha,
    fun a ha => .inl (hcancels ▸ ha)⟩
  · rw [hreported] at hmem
    exact ⟨hactive path a ha hmem, hmem⟩
  · rw [InQueue, hqueues] at ha
    exact ha
  · rw [Held, hcancels, hexecuted, hstack]
    rcases ha with ha | ha | ha
    · exact (hrequest a ha).imp_right .inl
    · exact .inr (.inl ha)
    · exact .inr (.inr ha)

/-- Only the stack changes, and no end on it is over. -/
theorem Tracks.stack {stack : List Frame} (hfinishing : ∀ a, Finishing s.stack a → Finishing stack a)
    (hpreparing : ∀ a, Preparing stack a → Preparing s.stack a) : Tracks s { s with stack } := by
  refine ⟨fun _ _ ha hmem => ⟨ha, hmem⟩, fun _ hd => .inl hd, fun _ ha => .inl ha,
    List.Subset.refl _, fun _ ha => ha, fun a ha => .inl (hpreparing a ha), fun a ha => ?_,
    hfinishing, fun _ ha => .inl ha⟩
  rcases ha with ha | ha | ha
  · exact .inl ha
  · exact .inr (.inl ha)
  · exact .inr (.inr ⟨ha.1, hfinishing a ha.2⟩)

theorem Tracks.refl (s : ActionStage) : Tracks s s :=
  .requests rfl rfl rfl rfl rfl rfl (fun _ _ ha _ => ha) fun _ ha => .inl ha

theorem Tracks.push (frame : Frame) (hframe : frame.actor = none) :
    Tracks s { s with stack := frame :: s.stack } := by
  refine .stack (fun _ ha => ha.tail) fun a ha => ?_
  obtain ⟨priority, hmem⟩ := ha
  rcases List.mem_cons.mp hmem with rfl | hmem
  · cases hframe
  · exact ⟨priority, hmem⟩

theorem Tracks.pop {frame : Frame} {stack : List Frame} (hframe : frame.actor = none)
    (hstack : s.stack = frame :: stack) : Tracks s { s with stack } := by
  refine .stack (fun a ha => ?_) fun a ha => hstack ▸ ha.tail
  rw [hstack] at ha
  rcases ha with ha | ⟨watchers, ha⟩
  · rcases List.mem_cons.mp ha with rfl | ha
    · cases hframe
    · exact .inl ha
  · rcases List.mem_cons.mp ha with rfl | ha
    · cases hframe
    · exact .inr ⟨watchers, ha⟩

end Tracks

/-! ### The operations -/

section Operations

variable {s : ActionStage} {path : String} {info : RequestInfo} {a : ℕ}

/-- A request is replaced by one of the same actor. -/
theorem tracks_insert (info' : RequestInfo) (hinfo : s.activeRequests.lookup path = some info)
    (hbuilder : info'.requestBuilder = info.requestBuilder) :
    Tracks s { s with activeRequests := s.activeRequests.insert path info' } := by
  refine .requests rfl rfl rfl rfl rfl rfl ?_ ?_
  · rintro other a ⟨found, hfound, rfl⟩ -
    simp only [lookup_insert_ite] at hfound
    split at hfound
    case isTrue heq =>
      obtain rfl := Option.some.inj hfound
      exact ⟨info, heq ▸ hinfo, hbuilder.symm⟩
    case isFalse => exact ⟨found, hfound, rfl⟩
  · rintro a ⟨other, found, hfound, rfl⟩
    by_cases heq : other = path
    · rcases hfound with hfound | hfound
      · rw [heq, hinfo] at hfound
        obtain rfl := Option.some.inj hfound
        exact .inl ⟨path, info', .inl (AList.lookup_insert _), hbuilder⟩
      · exact .inl ⟨other, found, .inr hfound, rfl⟩
    · refine .inl ⟨other, found, ?_, rfl⟩
      rw [AList.lookup_insert_ne heq]
      exact hfound

/-- A parked request becomes active again, if its actor has not reported. -/
theorem tracks_resume (hreported : ∀ info ∈ s.cancelRequestTimers.lookup path,
    info.requestBuilder ∉ s.reported) (hunique : Registered s) : Tracks s (s.resume path) := by
  rw [ActionStage.resume]
  split
  · exact .refl s
  · rename_i info hinfo
    refine .requests rfl rfl rfl rfl rfl rfl ?_ ?_
    · rintro other a ⟨found, hfound, rfl⟩ hmem
      simp only [lookup_insert_ite] at hfound
      split at hfound
      case isTrue =>
        obtain rfl := Option.some.inj hfound
        exact absurd hmem (hreported info hinfo)
      case isFalse => exact ⟨found, hfound, rfl⟩
    · rintro a ⟨other, found, hfound, rfl⟩
      by_cases heq : other = path
      · subst heq
        have hfound : found.requestBuilder = info.requestBuilder :=
          hunique.eq ⟨found, hfound, rfl⟩ ⟨info, .inr hinfo, rfl⟩
        exact .inl ⟨other, info, .inl (AList.lookup_insert _), hfound.symm⟩
      · refine .inl ⟨other, found, ?_, rfl⟩
        rw [AList.lookup_insert_ne heq, AList.lookup_erase_ne heq]
        exact hfound

/-- A request is parked. -/
theorem tracks_park (hinfo : s.activeRequests.lookup path = some info)
    (hnone : s.cancelRequestTimers.lookup path = none) :
    Tracks s { s with
      cancelRequestTimers := s.cancelRequestTimers.insert path info
      activeRequests := s.activeRequests.erase path } := by
  refine .requests rfl rfl rfl rfl rfl rfl ?_ ?_
  · rintro other a ⟨found, hfound, rfl⟩ -
    simp only [lookup_erase_ite] at hfound
    split at hfound
    · cases hfound
    · exact ⟨found, hfound, rfl⟩
  · rintro a ⟨other, found, hfound, rfl⟩
    by_cases heq : other = path
    · subst heq
      rcases hfound with hfound | hfound
      · obtain rfl := Option.some.inj (hinfo.symm.trans hfound)
        exact .inl ⟨other, info, .inr (AList.lookup_insert _), rfl⟩
      · rw [hnone] at hfound
        cases hfound
    · refine .inl ⟨other, found, ?_, rfl⟩
      rw [AList.lookup_insert_ne heq, AList.lookup_erase_ne heq]
      exact hfound

/-- A parked request is dropped whose actor was cancelled. -/
theorem tracks_eraseTimer (hcancelled : ∀ info ∈ s.cancelRequestTimers.lookup path,
    info.requestBuilder ∈ s.cancels) :
    Tracks s { s with cancelRequestTimers := s.cancelRequestTimers.erase path } := by
  refine .requests rfl rfl rfl rfl rfl rfl (fun _ _ ha _ => ha) ?_
  rintro a ⟨other, found, hfound | hfound, rfl⟩
  · exact .inl ⟨other, found, .inl hfound, rfl⟩
  · by_cases heq : other = path
    · exact .inr (hcancelled found (heq ▸ hfound))
    · refine .inl ⟨other, found, .inr ?_, rfl⟩
      rw [AList.lookup_erase_ne heq]
      exact hfound

/-- An actor is given `cancel`, and its request may be gone. -/
theorem tracks_cancel {frames : List Frame} {activeRequests : Dictionary String RequestInfo}
    (hframes : ∀ frame ∈ frames, frame.actor = none)
    (hactive : ∀ path info, activeRequests.lookup path = some info →
      s.activeRequests.lookup path = some info)
    (hrest : ∀ path info, s.activeRequests.lookup path = some info →
      info.requestBuilder ≠ a → activeRequests.lookup path = some info) :
    Tracks s ({ s with activeRequests }.cancel a frames) := by
  have hfinishing : ∀ b, Finishing s.stack b →
      Finishing (.user :: .cancelled a :: frames ++ s.stack) b := by
    rintro b (hb | ⟨watchers, hb⟩)
    · exact .inl (List.mem_append_right _ hb)
    · exact .inr ⟨watchers, List.mem_append_right _ hb⟩
  refine ⟨?_, fun _ hd => .inl hd, fun _ hb => .inl hb, List.Subset.refl _, fun _ hb => hb, ?_,
    ?_, hfinishing, ?_⟩
  · rintro path b ⟨found, hfound, rfl⟩ hmem
    exact ⟨⟨found, hactive path found hfound, rfl⟩, hmem⟩
  · rintro b ⟨priority, hmem⟩
    rcases List.mem_append.mp hmem with hmem | hmem
    · rcases List.mem_cons.mp hmem with hmem | hmem
      · cases hmem
      · rcases List.mem_cons.mp hmem with hmem | hmem
        · cases hmem
        · cases hframes _ hmem
    · exact .inl ⟨priority, hmem⟩
  · rintro b (⟨path, found, hfound, rfl⟩ | hb | hb)
    · by_cases heq : found.requestBuilder = a
      · exact .inr (.inl (heq ▸ List.mem_cons_self))
      · exact .inl ⟨path, found, hfound.imp_left fun h => hrest path found h heq, rfl⟩
    · exact .inr (.inl (List.mem_cons_of_mem _ hb))
    · exact .inr (.inr ⟨hb.1, hfinishing b hb.2⟩)
  · intro b hb
    rcases List.mem_cons.mp hb with rfl | hb
    · exact .inr (.inl (List.mem_cons_of_mem _ List.mem_cons_self))
    · exact .inl hb

theorem tracks_scheduleCancelRequest (s : ActionStage) (path : String) :
    Tracks s (s.scheduleCancelRequest path) := by
  rw [scheduleCancelRequest]
  split
  · rename_i info hinfo hnone
    split
    · refine tracks_cancel (fun _ hmem => absurd hmem List.not_mem_nil) ?_ ?_
      · intro other found hfound
        rw [lookup_erase_ite] at hfound
        split at hfound
        · cases hfound
        · exact hfound
      · intro other found hfound hne
        have hother : other ≠ path := by
          rintro rfl
          exact hne (congrArg RequestInfo.requestBuilder (Option.some.inj (hfound.symm.trans hinfo)))
        rw [AList.lookup_erase_ne hother]
        exact hfound
    · exact tracks_park hinfo hnone
  · exact .refl s

theorem tracks_performCancelRequest (s : ActionStage) (path : String) :
    Tracks s (s.performCancelRequest path) := by
  rw [performCancelRequest]
  split
  · exact .refl s
  · refine tracks_cancel (fun frame hframe => ?_) (fun _ _ h => h) fun _ _ h _ => h
    obtain rfl := List.mem_singleton.mp hframe
    rfl

theorem tracks_leave (s : ActionStage) (path : String) (stays : ℕ → Bool) :
    Tracks s (s.leave path stays) := by
  simp only [leave]
  split
  · exact .refl s
  · rename_i info hinfo
    have hinsert := tracks_insert ⟨info.requestBuilder, info.watchers.filter stays⟩ hinfo rfl
    split
    · exact hinsert.trans (tracks_scheduleCancelRequest _ path)
    · exact hinsert

/-- An actor reports its completion or failure, and the request of its path is its own. -/
theorem tracks_endRequest {reporter : ℕ} (hexecuted : reporter ∈ s.executed)
    (hown : ∀ info ∈ s.activeRequests.lookup path, info.requestBuilder = reporter)
    (hpath : ∀ other info, s.activeRequests.lookup other = some info →
      info.requestBuilder = reporter → other = path) :
    Tracks s (s.endRequest reporter path) := by
  have hreported : ∀ {b : ℕ}, b ∈ reporter :: s.reported → b ∈ s.reported ∨ b ∈ s.executed := by
    intro b hb
    rcases List.mem_cons.mp hb with rfl | hb
    · exact .inr hexecuted
    · exact .inl hb
  simp only [endRequest]
  split
  · rename_i hnone
    refine ⟨?_, fun _ hd => .inl hd, fun b hb => hreported hb, List.Subset.refl _,
      fun _ hb => hb, fun _ hb => .inl hb, fun _ hb => hb, fun _ hb => hb, fun _ hb => .inl hb⟩
    rintro other b ⟨found, hfound, rfl⟩ hmem
    refine ⟨⟨found, hfound, rfl⟩, (List.mem_cons.mp hmem).resolve_left fun heq => ?_⟩
    rw [hpath other found hfound heq, hnone] at hfound
    cases hfound
  · rename_i info hinfo
    obtain rfl := hown info hinfo
    have hfinishing : ∀ b, Finishing s.stack b →
        Finishing (.completing info.requestBuilder info.watchers :: s.stack) b :=
      fun b hb => hb.tail
    refine ⟨?_, ?_, fun b hb => hreported hb, List.Subset.refl _, fun _ hb => hb, ?_, ?_,
      hfinishing, fun _ hb => .inl hb⟩
    · rintro other b ⟨found, hfound, rfl⟩ hmem
      simp only [lookup_erase_ite] at hfound
      split at hfound
      case isTrue => cases hfound
      case isFalse hne =>
        refine ⟨⟨found, hfound, rfl⟩, (List.mem_cons.mp hmem).resolve_left fun heq => ?_⟩
        exact hne (hpath other found hfound heq)
    · intro d hd
      rcases List.mem_cons.mp hd with rfl | hd
      · exact .inr rfl
      · exact .inl hd
    · rintro b ⟨priority, hmem⟩
      simp only [List.mem_cons, reduceCtorEq, false_or] at hmem
      exact .inl ⟨priority, hmem⟩
    · rintro b (⟨other, found, hfound, rfl⟩ | hb | hb)
      · by_cases heq : found.requestBuilder = info.requestBuilder
        · rw [heq]
          exact .inr (.inr ⟨hexecuted, .inr ⟨_, List.mem_cons_self⟩⟩)
        · refine .inl ⟨other, found, hfound.imp_left fun h => ?_, rfl⟩
          have hne : other ≠ path := by
            rintro rfl
            exact heq (hown found h)
          rw [AList.lookup_erase_ne hne]
          exact h
      · exact .inr (.inl hb)
      · exact .inr (.inr ⟨hb.1, hfinishing b hb.2⟩)

theorem inQueue_changeActorPriority (ha : (s.changeActorPriority path).InQueue a) :
    s.InQueue a := by
  rcases changeActorPriority_cases s path with heq | ⟨name, first, rest, rest', hqueue, hperm, heq⟩
  · rwa [heq] at ha
  · rw [heq] at ha
    obtain ⟨other, queue, hlookup, hmem⟩ := ha
    rw [lookup_insert_ite] at hlookup
    split at hlookup
    · obtain rfl := Option.some.inj hlookup
      exact ⟨name, _, hqueue, (hperm.cons first).mem_iff.mp hmem⟩
    · exact ⟨other, queue, hlookup, hmem⟩

theorem tracks_changeActorPriority (s : ActionStage) (path : String) :
    Tracks s (s.changeActorPriority path) := by
  have hqueues : ∀ a, (s.changeActorPriority path).InQueue a → s.InQueue a :=
    fun a => inQueue_changeActorPriority
  rcases changeActorPriority_cases s path with heq | ⟨name, first, rest, rest', -, -, heq⟩
  · rw [heq]
    exact .refl s
  · rw [heq] at hqueues ⊢
    exact ⟨fun _ _ ha hmem => ⟨ha, hmem⟩, fun _ hd => .inl hd, fun _ ha => .inl ha,
      List.Subset.refl _, hqueues, fun _ ha => .inl ha, fun _ ha => ha, fun _ ha => ha,
      fun _ ha => .inl ha⟩

end Operations

/-! ### Requests -/

section Requests

variable {s : ActionStage} {path : String}

/-- The parked actor of a path has not reported. -/
def Resumable (s : ActionStage) (path : String) : Prop :=
  ∀ info ∈ s.cancelRequestTimers.lookup path, info.requestBuilder ∉ s.reported

instance (s : ActionStage) (path : String) : Decidable (s.Resumable path) :=
  inferInstanceAs (Decidable (∀ info ∈ s.cancelRequestTimers.lookup path, _))

theorem tracks_create (hq : Queued s) (hreported : s.reported ⊆ s.executed)
    (hactive : s.activeRequests.lookup path = none) (changePriority : Bool) (watcher : ℕ) :
    Tracks s (s.create path changePriority watcher) := by
  have hnew : (s.create path changePriority watcher).HasRequest s.created :=
    ⟨path, ⟨s.created, [watcher]⟩, .inl (AList.lookup_insert _), rfl⟩
  have hfinishing : ∀ a, Finishing s.stack a →
      Finishing (.user :: .prepared s.created changePriority :: s.stack) a :=
    fun a ha => ha.tail.tail
  refine ⟨?_, fun _ hd => .inl hd, fun _ ha => .inl ha, List.Subset.refl _, fun _ ha => ha, ?_, ?_,
    hfinishing, fun _ ha => .inl ha⟩
  · rintro other a ⟨found, hfound, rfl⟩ hmem
    simp only [ActionStage.create, lookup_insert_ite] at hfound
    split at hfound
    case isTrue =>
      obtain rfl := Option.some.inj hfound
      exact absurd (hq.executed _ (hreported hmem)).1 (Nat.lt_irrefl _)
    case isFalse => exact ⟨⟨found, hfound, rfl⟩, hmem⟩
  · rintro a ⟨priority, hmem⟩
    simp only [ActionStage.create, List.mem_cons, reduceCtorEq, false_or, Frame.prepared.injEq]
      at hmem
    rcases hmem with ⟨rfl, -⟩ | hmem
    · exact .inr (.inl hnew)
    · exact .inl ⟨priority, hmem⟩
  · rintro a (⟨other, found, hfound, rfl⟩ | ha | ha)
    · refine .inl ⟨other, found, hfound.imp_left fun h => ?_, rfl⟩
      have hne : other ≠ path := by
        rintro rfl
        rw [hactive] at h
        cases h
      exact (AList.lookup_insert_ne hne).trans h
    · exact .inr (.inl ha)
    · exact .inr (.inr ⟨ha.1, hfinishing a ha.2⟩)

theorem tracks_requestGeneric (h : Registered s) (hq : Queued s)
    (hreported : s.reported ⊆ s.executed) (hresumable : s.Resumable path) (joinOnly : Bool)
    (changePriority registered : Bool) (watcher : ℕ) :
    Tracks s (s.requestGeneric joinOnly path changePriority registered watcher) := by
  have hresume := tracks_resume hresumable h
  have hresumeReported : (s.resume path).reported ⊆ (s.resume path).executed := by
    have hkept : (s.resume path).reported = s.reported := by
      rw [resume]
      split <;> rfl
    rw [hkept]
    exact List.Subset.trans hreported hresume.executed
  simp only [requestGeneric]
  split
  · rename_i hnone
    split
    · exact hresume
    · exact hresume.trans (tracks_create (hq.quiet (resume_quiet s path)) hresumeReported hnone
        changePriority watcher)
  · rename_i info hinfo
    have hjoined := tracks_insert (info.join watcher) hinfo
      (by rw [RequestInfo.join]; split <;> rfl)
    refine hresume.trans (hjoined.trans ?_)
    split
    · exact (Tracks.push (.changePriority path) rfl).trans
        (Tracks.push .user rfl)
    · exact Tracks.push .user rfl

end Requests

/-! ### Queues -/

section Queues

variable {s s' : ActionStage} {frame : Frame} {stack : List Frame} {a : ℕ}

/-- Only the queues change, and an actor may be given `execute:`. -/
structure SameRequests (s s' : ActionStage) : Prop where
  activeRequests : s'.activeRequests = s.activeRequests
  cancelRequestTimers : s'.cancelRequestTimers = s.cancelRequestTimers
  reported : s'.reported = s.reported
  delivered : s'.delivered = s.delivered
  cancels : s'.cancels = s.cancels
  executed : s.executed ⊆ s'.executed
  stack : s'.stack = s.stack ∨ s'.stack = .user :: s.stack

theorem SameRequests.hasRequest (h : SameRequests s s') (ha : s.HasRequest a) :
    s'.HasRequest a := by
  obtain ⟨path, info, hinfo, rfl⟩ := ha
  rw [← h.activeRequests, ← h.cancelRequestTimers] at hinfo
  exact ⟨path, info, hinfo, rfl⟩

theorem SameRequests.finishing (h : SameRequests s s') (ha : Finishing s.stack a) :
    Finishing s'.stack a := by
  rcases h.stack with hstack | hstack
  · exact hstack ▸ ha
  · exact hstack ▸ ha.tail

theorem SameRequests.preparing (h : SameRequests s s') (ha : Preparing s'.stack a) :
    Preparing s.stack a := by
  rcases h.stack with hstack | hstack
  · exact hstack ▸ ha
  · obtain ⟨priority, hmem⟩ := ha
    rw [hstack] at hmem
    rcases List.mem_cons.mp hmem with hmem | hmem
    · cases hmem
    · exact ⟨priority, hmem⟩

theorem sameRequests_queues (s : ActionStage) (queues : Dictionary String (List ℕ)) :
    SameRequests s { s with requestQueues := queues } :=
  ⟨rfl, rfl, rfl, rfl, rfl, List.Subset.refl _, .inl rfl⟩

theorem sameRequests_execute (s : ActionStage) (queues : Dictionary String (List ℕ)) (a : ℕ) :
    SameRequests s ({ s with requestQueues := queues }.execute a) :=
  ⟨rfl, rfl, rfl, rfl, rfl, List.subset_cons_self _ _, .inr rfl⟩

theorem sameRequests_prepared (hq : Queued s) (a : ℕ) (changePriority : Bool) :
    SameRequests s (s.prepared a changePriority) := by
  rcases prepared_cases hq a changePriority with ⟨-, heq⟩ | ⟨name, -, ⟨-, heq⟩ |
    ⟨first, rest, rest', -, -, heq⟩⟩
  · exact heq ▸ sameRequests_execute s s.requestQueues a
  · exact heq ▸ sameRequests_execute s _ a
  · exact heq ▸ sameRequests_queues s _

theorem sameRequests_removeRequestFromQueue (s : ActionStage) (a : ℕ) :
    SameRequests s (s.removeRequestFromQueue a) := by
  rcases removeRequestFromQueue_cases s a with ⟨heq, -⟩ | ⟨name, -, ⟨-, heq⟩ |
    ⟨next, rest, -, heq | ⟨-, heq⟩⟩ | ⟨first, rest, rest', -, -, -, heq⟩⟩
  · rw [heq]
    exact sameRequests_queues s s.requestQueues
  · rw [heq]
    exact sameRequests_queues s _
  · rw [heq]
    exact sameRequests_queues s _
  · rw [heq]
    exact sameRequests_execute s _ next
  · rw [heq]
    exact sameRequests_queues s _

/-- An actor that is prepared is in a queue only if it names one. -/
theorem inQueue_prepared (hq : Queued s) {b : ℕ} {changePriority : Bool}
    (hb : (s.prepared a changePriority).InQueue b) :
    s.InQueue b ∨ b = a ∧ (s.actors a).requestQueueName ≠ none := by
  rcases prepared_cases hq a changePriority with ⟨-, heq⟩ | ⟨name, hname, ⟨-, heq⟩ |
    ⟨first, rest, rest', hqueue, hperm, heq⟩⟩
  · rw [heq] at hb
    exact .inl hb
  · rw [heq] at hb
    obtain ⟨other, queue, hlookup, hmem⟩ := hb
    simp only [ActionStage.execute, lookup_insert_ite] at hlookup
    split at hlookup
    · obtain rfl := Option.some.inj hlookup
      exact .inr ⟨List.mem_singleton.mp hmem, hname ▸ Option.some_ne_none name⟩
    · exact .inl ⟨other, queue, hlookup, hmem⟩
  · rw [heq] at hb
    obtain ⟨other, queue, hlookup, hmem⟩ := hb
    rw [lookup_insert_ite] at hlookup
    split at hlookup
    · obtain rfl := Option.some.inj hlookup
      rcases List.mem_cons.mp hmem with rfl | hmem
      · exact .inl ⟨name, _, hqueue, List.mem_cons_self⟩
      · rcases List.mem_cons.mp (hperm.mem_iff.mp hmem) with rfl | hmem
        · exact .inr ⟨rfl, hname ▸ Option.some_ne_none name⟩
        · exact .inl ⟨name, _, hqueue, List.mem_cons_of_mem _ hmem⟩
    · exact .inl ⟨other, queue, hlookup, hmem⟩

theorem InQueue.of_insert {b : ℕ} {name : String} {first : ℕ} {rest : List ℕ}
    (hb : InQueue { s with requestQueues := s.requestQueues.insert name (first :: rest) } b) :
    b ∈ first :: rest ∨
      ∃ other queue, other ≠ name ∧ s.requestQueues.lookup other = some queue ∧ b ∈ queue := by
  obtain ⟨other, queue, hlookup, hmem⟩ := hb
  simp only [lookup_insert_ite] at hlookup
  split at hlookup
  · obtain rfl := Option.some.inj hlookup
    exact .inl hmem
  case isFalse hne => exact .inr ⟨other, queue, hne, hlookup, hmem⟩

/-- An actor that is removed from its queue is in none. -/
theorem inQueue_removeRequestFromQueue (hq : Queued s) {b : ℕ}
    (hb : (s.removeRequestFromQueue a).InQueue b) : s.InQueue b ∧ b ≠ a := by
  have hother : ∀ {name other queue}, (s.actors a).requestQueueName = some name → other ≠ name →
      s.requestQueues.lookup other = some queue → b ∈ queue → s.InQueue b ∧ b ≠ a := by
    rintro name other queue hname hne hlookup hmem
    refine ⟨⟨other, queue, hlookup, hmem⟩, ?_⟩
    rintro rfl
    exact hne (Option.some.inj ((hq.mem other queue hlookup b hmem).1.symm.trans hname))
  rcases removeRequestFromQueue_cases s a with ⟨heq, hnone⟩ | ⟨name, hname, ⟨hqueue, heq⟩ |
    ⟨next, rest, hqueue, heq⟩ | ⟨first, rest, rest', hqueue, hsub, hmem, heq⟩⟩
  · rw [heq] at hb
    refine ⟨hb, ?_⟩
    rintro rfl
    obtain ⟨other, queue, hlookup, hmem⟩ := hb
    cases queue with
    | nil => cases hmem
    | cons first rest => exact hnone other (hq.mem other _ hlookup b hmem).1 first rest hlookup
  · rw [heq] at hb
    obtain ⟨other, queue, hlookup, hmem⟩ := hb
    simp only [lookup_erase_ite] at hlookup
    split at hlookup
    case isTrue => cases hlookup
    case isFalse hne => exact hother hname hne hlookup hmem
  · replace hb :
        InQueue { s with requestQueues := s.requestQueues.insert name (next :: rest) } b := by
      rcases heq with heq | ⟨-, heq⟩
      · exact heq ▸ hb
      · rw [heq] at hb
        exact hb
    rcases hb.of_insert with hmem | ⟨other, queue, hne, hlookup, hmem⟩
    · refine ⟨⟨name, _, hqueue, List.mem_cons_of_mem _ hmem⟩, ?_⟩
      rintro rfl
      exact (List.nodup_cons.mp (hq.nodup name _ hqueue)).1 hmem
    · exact hother hname hne hlookup hmem
  · rw [heq] at hb
    rcases hb.of_insert with hin | ⟨other, queue, hne, hlookup, hmem⟩
    · refine ⟨⟨name, _, hqueue, (hsub.cons_cons first).subset hin⟩, ?_⟩
      rintro rfl
      exact hmem hin
    · exact hother hname hne hlookup hmem

/-- What is on the stack below a frame, and who enters a queue as it goes on. -/
theorem Accounted.requeue (h : Accounted s) (hq : Queued s) (hstack : s.stack = frame :: stack)
    (hsame : SameRequests { s with stack } s')
    (hqueue : ∀ b, s'.InQueue b →
      (s.InQueue b ∨ Preparing s.stack b ∧ b ∉ s.cancels) ∧
        (Finishing s.stack b → Finishing stack b)) : Accounted s' := by
  have hpreparing : ∀ b, Preparing stack b → Preparing s.stack b := fun b hb => hstack ▸ hb.tail
  refine ⟨?_, ?_, ?_, ?_, ?_⟩
  · rintro path b ⟨info, hinfo, rfl⟩
    rw [hsame.activeRequests] at hinfo
    rw [hsame.reported]
    exact h.active path _ ⟨info, hinfo, rfl⟩
  · rw [hsame.delivered]
    exact h.delivered
  · rw [hsame.reported]
    exact List.Subset.trans h.reported hsame.executed
  · have hkept : ∀ b, s.Held b → (Finishing s.stack b → b ∈ s.executed → Finishing stack b) →
        s'.Held b := by
      rintro b (hb | hb | ⟨hb, hfinishing⟩) hend
      · exact .inl (hsame.hasRequest hb)
      · exact .inr (.inl (hsame.cancels ▸ hb))
      · exact .inr (.inr ⟨hsame.executed hb, hsame.finishing (hend hfinishing hb)⟩)
    rintro b (hb | hb)
    · obtain ⟨hb, hend⟩ := hqueue b hb
      exact hkept b (h.held b (hb.imp_right And.left)) fun hfinishing _ => hend hfinishing
    · have hb := hpreparing b (hsame.preparing hb)
      exact hkept b (h.held b (.inr hb)) fun _ hexecuted => absurd hb (hq.executed b hexecuted).2
  · intro b hb hin
    rw [hsame.cancels] at hb
    obtain ⟨hin, hend⟩ := hqueue b hin
    refine hsame.finishing (hend ?_)
    rcases hin with hin | ⟨-, hnot⟩
    · exact h.cancelled b hb hin
    · exact absurd hb hnot

/-- An actor that has been prepared goes on, not cancelled if it names a queue. -/
theorem Accounted.prepared (h : Accounted s) (hq : Queued s) {changePriority : Bool}
    (hstack : s.stack = .prepared a changePriority :: stack)
    (hcancelled : (s.actors a).requestQueueName ≠ none → a ∉ s.cancels) :
    Accounted ({ s with stack }.prepared a changePriority) := by
  refine h.requeue hq hstack (sameRequests_prepared (hq.pop hstack) a changePriority)
    fun b hb => ⟨?_, fun hfinishing => ?_⟩
  · rcases inQueue_prepared (hq.pop hstack) hb with hb | ⟨rfl, hname⟩
    · exact .inl hb
    · exact .inr ⟨⟨changePriority, hstack ▸ List.mem_cons_self⟩, hcancelled hname⟩
  · rw [hstack] at hfinishing
    rcases hfinishing with hmem | ⟨watchers, hmem⟩
    · exact .inl ((List.mem_cons.mp hmem).resolve_left (by simp))
    · exact .inr ⟨watchers, (List.mem_cons.mp hmem).resolve_left (by simp)⟩

/-- The end of an actor is over: it leaves its queue. -/
theorem Accounted.removeRequestFromQueue (h : Accounted s) (hq : Queued s)
    (hstack : s.stack = frame :: stack) (hframe : frame.actor = some a) :
    Accounted ({ s with stack }.removeRequestFromQueue a) := by
  refine h.requeue hq hstack (sameRequests_removeRequestFromQueue _ a) fun b hb => ?_
  obtain ⟨hb, hne⟩ := inQueue_removeRequestFromQueue (hq.pop hstack) hb
  have hframe : ∀ frame', frame'.actor = some b → frame' ≠ frame := by
    rintro frame' hb' rfl
    exact hne (Option.some.inj (hb'.symm.trans hframe))
  refine ⟨.inl hb, fun hfinishing => ?_⟩
  rw [hstack] at hfinishing
  rcases hfinishing with hmem | ⟨watchers, hmem⟩
  · exact .inl ((List.mem_cons.mp hmem).resolve_left (hframe _ rfl))
  · exact .inr ⟨watchers, (List.mem_cons.mp hmem).resolve_left (hframe _ rfl)⟩

end Queues

/-! ### Steps -/

/-- An actor reports its completion or failure for its own path, and after `execute:`. -/
def ReportsOwnPath (s : ActionStage) : StageEvent → Prop
  | .call (.actionCompleted reporter path) | .call (.actionFailed reporter path) =>
      reporter ∈ s.executed ∧ (s.actors reporter).path = path
  | _ => True

/-- A report does not find the request of another actor, a path is not requested again after its
parked actor has reported, no cancelled actor enters a queue, and a parked request is dropped
only after its actor was cancelled. -/
def Undisturbed (s : ActionStage) : StageEvent → Prop
  | .call (.actionCompleted reporter path) | .call (.actionFailed reporter path) =>
      ∀ info ∈ s.activeRequests.lookup path, info.requestBuilder = reporter
  | .call (.requestActor path _ _ _) => s.Resumable path
  | .proceed =>
      match s.stack with
      | .rejoin (path :: _) _ :: _ => s.Resumable path
      | .prepared a _ :: _ => (s.actors a).requestQueueName ≠ none → a ∉ s.cancels
      | .removeTimer path :: _ =>
          ∀ info ∈ s.cancelRequestTimers.lookup path, info.requestBuilder ∈ s.cancels
      | _ => True
  | _ => True

section Steps

variable {s : ActionStage}

theorem tracks_report (h : Registered s) {reporter : ℕ} {path : String}
    (hreports : reporter ∈ s.executed ∧ (s.actors reporter).path = path)
    (hown : ∀ info ∈ s.activeRequests.lookup path, info.requestBuilder = reporter) :
    Tracks s (s.endRequest reporter path) := by
  refine tracks_endRequest hreports.1 hown fun other info hinfo hbuilder => ?_
  rw [← hreports.2, ← hbuilder]
  exact (h.path other _ ⟨info, .inl hinfo, rfl⟩).1.symm

theorem tracks_call (h : Valid s) (ha : Accounted s) (c : StageCall)
    (hreports : ReportsOwnPath s (.call c)) (hcond : Undisturbed s (.call c)) :
    Tracks s (s.call c) := by
  have hactors : ∀ actors : ℕ → ASActor, Tracks s { s with actors } := fun actors =>
    .requests rfl rfl rfl rfl rfl rfl (fun _ _ ha _ => ha) fun _ ha => .inl ha
  cases c with
  | requestActor path changePriority registered watcher =>
      exact tracks_requestGeneric h.registered h.queued ha.reported hcond false changePriority
        registered watcher
  | rejoinActions paths watcher => exact .push _ rfl
  | changeActorPriority path => exact tracks_changeActorPriority s path
  | actionCompleted reporter path => exact tracks_report h.registered hreports hcond
  | actionFailed reporter path => exact tracks_report h.registered hreports hcond
  | removeWatcher handles => exact .push _ rfl
  | removeWatcherFromPath requests => exact .push _ rfl
  | removeAllWatchersFromPath path => exact tracks_leave s path _
  | cancelActorTimeout path => exact tracks_performCancelRequest s path
  | setRequestQueueName a name =>
      simp only [call]
      split
      · exact hactors _
      · exact .refl s
  | setCancelTimeout a cancelTimeout => exact hactors _
  | setCancelled a cancelled => exact hactors _

/-- The next watcher of a request is told. -/
theorem tracks_nextWatcher {a watcher : ℕ} {watchers : List ℕ} {stack : List Frame}
    (hstack : s.stack = .completing a (watcher :: watchers) :: stack) :
    Tracks s { s with stack := .user :: .completing a watchers :: stack } := by
  refine .stack (fun b hb => ?_) fun b hb => ?_
  · rw [hstack] at hb
    rcases hb with hb | ⟨watchers', hb⟩
    · simp only [List.mem_cons, reduceCtorEq, false_or] at hb
      exact .inl (List.mem_cons_of_mem _ (List.mem_cons_of_mem _ hb))
    · simp only [List.mem_cons, Frame.completing.injEq] at hb
      rcases hb with ⟨rfl, -⟩ | hb
      · exact .inr ⟨watchers, List.mem_cons_of_mem _ List.mem_cons_self⟩
      · exact .inr ⟨watchers', List.mem_cons_of_mem _ (List.mem_cons_of_mem _ hb)⟩
  · obtain ⟨priority, hmem⟩ := hb
    simp only [List.mem_cons, reduceCtorEq, false_or] at hmem
    exact ⟨priority, hstack ▸ List.mem_cons_of_mem _ hmem⟩

theorem accounted_proceed (h : Valid s) (ha : Accounted s) (order : KeyOrder) {frame : Frame}
    {stack : List Frame} (hstack : s.stack = frame :: stack)
    (hcond : Undisturbed s .proceed) : Accounted (proceed order { s with stack } frame) := by
  simp only [Undisturbed, hstack] at hcond
  have hpush : ∀ pushed : Frame, pushed.actor = none → frame.actor = none →
      Tracks s { s with stack := pushed :: stack } := fun pushed hpushed hframe =>
    (Tracks.pop hframe hstack).trans
      (by exact Tracks.push (s := { s with stack }) pushed hpushed)
  cases frame with
  | user => exact ha.tracks (.pop rfl hstack)
  | prepared a changePriority => exact ha.prepared h.queued hstack hcond
  | changePriority path =>
      exact ha.tracks ((Tracks.pop rfl hstack).trans (tracks_changeActorPriority _ path))
  | completing a watchers =>
      cases watchers with
      | nil => exact ha.removeRequestFromQueue h.queued hstack rfl
      | cons watcher watchers => exact ha.tracks (tracks_nextWatcher hstack)
  | cancelled a => exact ha.removeRequestFromQueue h.queued hstack rfl
  | removeTimer path =>
      exact ha.tracks ((Tracks.pop rfl hstack).trans (tracks_eraseTimer hcond))
  | removeWatcher handle keys =>
      cases keys with
      | nil => exact ha.tracks (.pop rfl hstack)
      | cons path keys =>
          exact ha.tracks ((hpush (.removeWatcher handle keys) rfl rfl).trans
            (tracks_leave _ path _))
  | removeWatchers handles =>
      cases handles with
      | nil => exact ha.tracks (.pop rfl hstack)
      | cons handle handles =>
          exact ha.tracks ((hpush (.removeWatchers handles) rfl rfl).trans
            (by exact Tracks.push (.removeWatcher handle _) rfl))
  | removeFromPath requests =>
      cases requests with
      | nil => exact ha.tracks (.pop rfl hstack)
      | cons request requests =>
          exact ha.tracks ((hpush (.removeFromPath requests) rfl rfl).trans
            (tracks_leave _ request.2 _))
  | rejoin paths watcher =>
      cases paths with
      | nil => exact ha.tracks (.pop rfl hstack)
      | cons path paths =>
          have hqueued : Queued { s with stack := .rejoin paths watcher :: stack } :=
            (h.queued.pop hstack).quiet (quiet_rejoin s stack paths watcher)
          exact ha.tracks ((hpush (.rejoin paths watcher) rfl rfl).trans
            (tracks_requestGeneric (by exact h.registered.of_eq rfl rfl (fun _ => rfl) rfl) hqueued
              ha.reported hcond true false true watcher))

/-- **An actor that waits is not forgotten** after a step that meets the condition. -/
theorem accounted_step (order : KeyOrder) (e : StageEvent) (h : Valid s) (ha : Accounted s)
    (hreports : ReportsOwnPath s e) (hcond : Undisturbed s e) : Accounted (s.step order e) := by
  rcases step_cases order s e with heq | ⟨c, rfl, heq⟩ | ⟨stack, hstack, heq⟩ |
    ⟨rfl, frame, stack, hstack, heq⟩
  all_goals rw [heq]
  · exact ha
  · exact ha.tracks (tracks_call h ha c hreports hcond)
  · exact ha.tracks (.pop rfl hstack)
  · exact accounted_proceed h ha order hstack hcond

end Steps

/-! ### Runs -/

/-- Nobody waits for a finished actor: no path belongs to an actor that has reported; where
nothing runs and no request is parked, the first of a queue has neither reported nor been
cancelled; and a report goes to the watchers of the actor that made it. -/
structure NobodyWaits (s : ActionStage) : Prop where
  active : ∀ path info, s.activeRequests.lookup path = some info →
    info.requestBuilder ∉ s.reported
  first : s.stack = [] → s.cancelRequestTimers = ∅ → ∀ name first rest,
    s.requestQueues.lookup name = some (first :: rest) → first ∉ s.reported ∧ first ∉ s.cancels
  delivered : ∀ d ∈ s.delivered, d.1 = d.2

theorem Accounted.nobodyWaits {s : ActionStage} (h : Accounted s) : NobodyWaits s := by
  refine ⟨fun path info hinfo => h.active path _ ⟨info, hinfo, rfl⟩,
    fun hstack htimers name first rest hqueue => ?_, h.delivered⟩
  have hin : s.InQueue first := ⟨name, _, hqueue, List.mem_cons_self⟩
  have hfinishing : ¬ Finishing s.stack first := by
    rw [hstack]
    rintro (hmem | ⟨watchers, hmem⟩)
    · cases hmem
    · cases hmem
  have hcancels : first ∉ s.cancels := fun hmem => hfinishing (h.cancelled first hmem hin)
  refine ⟨?_, hcancels⟩
  rcases h.held first (.inl hin) with ⟨path, info, hinfo | hinfo, rfl⟩ | hmem | ⟨-, hmem⟩
  · exact h.active path _ ⟨info, hinfo, rfl⟩
  · rw [htimers] at hinfo
    cases hinfo
  · exact absurd hmem hcancels
  · exact absurd hmem hfinishing

theorem accounted_init : Accounted {} := by
  refine ⟨?_, fun _ hd => absurd hd List.not_mem_nil, List.Subset.refl _, ?_,
    fun _ ha => absurd ha List.not_mem_nil⟩
  · rintro path a ⟨info, hinfo, -⟩
    cases hinfo
  · rintro a (⟨name, queue, hqueue, -⟩ | ⟨priority, hmem⟩)
    · cases hqueue
    · cases hmem

/-- **Nobody waits for a finished actor**, in every state of a run in which actors report for
their own path and every step meets the condition. -/
theorem finishedActors_released (order : KeyOrder) (es : List StageEvent)
    (hreports : AllSteps (step order) ReportsOwnPath {} es)
    (hcond : AllSteps (step order) Undisturbed {} es) :
    Always (step order) NobodyWaits {} es := by
  have hrun : Always (step order) (fun s => Valid s ∧ Accounted s) {} es :=
    always_of_allSteps
      (fun s e h hc => ⟨valid_step order e h.1, accounted_step order e h.1 h.2 hc.1 hc.2⟩)
      ⟨valid_init, accounted_init⟩ (hreports.and hcond)
  exact hrun.mono fun s h => h.2.nobodyWaits

/-- An actor is requested, runs, and reports its completion. -/
theorem finishedActors_released_completed :
    Always (step ⟨id, fun _ => List.Perm.refl _⟩) NobodyWaits {}
      [.call (.requestActor "a" false true 0), .returns, .proceed,
        .call (.actionCompleted 0 "a")] := by
  refine finishedActors_released _ _ ?_ ?_
  · exact ⟨trivial, trivial, trivial, ⟨by decide +kernel, by decide +kernel⟩, trivial⟩
  · refine ⟨fun info hinfo => ?_, trivial, fun hname => absurd rfl hname, fun info hinfo => ?_,
      trivial⟩
    · cases hinfo
    · cases hinfo
      rfl

/-- An actor that reports its completion while its request is parked is not heard: requested
again, it is active, and the first of its queue for good. -/
theorem finishedActors_wait :
    ¬ ∀ (order : KeyOrder) (es : List StageEvent), AllSteps (step order) ReportsOwnPath {} es →
      Always (step order) NobodyWaits {} es := by
  intro h
  have hrun := (h ⟨id, fun _ => List.Perm.refl _⟩
    [.call (.requestActor "a" false true 0), .call (.setRequestQueueName 0 (some "q")),
      .call (.setCancelTimeout 0 true), .returns, .proceed, .returns,
      .call (.removeAllWatchersFromPath "a"), .call (.actionCompleted 0 "a"),
      .call (.requestActor "a" false true 1), .returns]
    ⟨trivial, trivial, trivial, trivial, trivial, trivial, trivial,
      ⟨by decide +kernel, by decide +kernel⟩, trivial, trivial, trivial⟩).last
  exact (hrun.first (by decide +kernel) (AList.ext (by decide +kernel)) "q" 0 []
    (by decide +kernel)).1 (by decide +kernel)

end ActionStage

end Telegraph.Stage
