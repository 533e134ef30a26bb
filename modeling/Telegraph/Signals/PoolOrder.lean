import Telegraph.Signals.ThreadPool

/-!
# The Order of the Tasks

The tasks of a queue pass from the management queue to the queue, from there into the hands of a
thread, and are over when `execute` has returned. On this way they stay in order, and a thread has
one of them in hand at a time.

## Main results

* `pool_order`: **each task is executed once, and the tasks of a queue one after the other in the
  order in which they have been handed over.**
* `not_run_of_cancelled`: **a cancelled task is not run.**
-/

namespace Telegraph.Signals

variable {Queue Task : Type} [DecidableEq Queue]
variable {s : SThreadPool Queue Task} {i : ℕ} {queue : Queue} {task : Task}
  {thread : PoolThread Queue Task}

/-- The task of a queue that a thread has popped and that is not over. -/
def PoolThread.inHand (queue : Queue) : PoolThread Queue Task → List Task
  | .holding other task => if other = queue then task.toList else []
  | .running other task => if other = queue then [task] else []
  | _ => []

/-- What a list has for one queue. -/
def ofQueue {α : Type} (queue : Queue) (entries : List (Queue × α)) : List α :=
  (entries.filter (·.1 = queue)).map Prod.snd

/-- The task that an event hands over for a queue. -/
def PoolEvent.added (queue : Queue) : PoolEvent Queue Task → List Task
  | .addTask other task => ofQueue queue [(other, task)]
  | _ => []

namespace SThreadPool

/-! ### Where the tasks are -/

theorem ofQueue_append {α : Type} (entries more : List (Queue × α)) :
    ofQueue queue (entries ++ more) = ofQueue queue entries ++ ofQueue queue more := by
  rw [ofQueue, List.filter_append, List.map_append]
  rfl

theorem ofQueue_self {α : Type} (queue : Queue) (a : α) : ofQueue queue [(queue, a)] = [a] := by
  rw [ofQueue, List.filter_cons_of_pos (by simp)]
  rfl

theorem ofQueue_of_ne {α : Type} {other : Queue} (hne : other ≠ queue) (a : α) :
    ofQueue queue [(other, a)] = [] := by
  rw [ofQueue, List.filter_cons_of_neg (by simpa using hne)]
  rfl

/-- The tasks of a queue that are over. -/
def finished (s : SThreadPool Queue Task) (queue : Queue) : List Task :=
  (ofQueue queue s.executed).map Prod.fst

/-- The tasks of a queue that threads have popped and that are not over. -/
def inHand (s : SThreadPool Queue Task) (queue : Queue) : List Task :=
  s.threads.flatMap (PoolThread.inHand queue)

/-- The tasks of a queue, from those that are over to those that the management queue still has to
append. -/
def flow (s : SThreadPool Queue Task) (queue : Queue) : List Task :=
  s.finished queue ++ s.inHand queue ++ s.tasks queue ++ ofQueue queue s.managementQueue

theorem inHand_running (other : Queue) (task : Task) (queue : Queue) :
    (PoolThread.running other task).inHand queue = ofQueue queue [(other, task)] := by
  rw [PoolThread.inHand]
  split
  · next heq => rw [heq, ofQueue_self]
  · next hne => rw [ofQueue_of_ne hne]

theorem inHand_holding (other : Queue) (task : Task) (queue : Queue) :
    (PoolThread.holding other (some task)).inHand queue = ofQueue queue [(other, task)] :=
  inHand_running other task queue

/-- What a thread has in hand is of the queue that it has taken. -/
theorem length_inHand_le (thread : PoolThread Queue Task) (queue : Queue) :
    (thread.inHand queue).length ≤ thread.owned.count queue := by
  cases thread with
  | locking other => exact Nat.zero_le _
  | waiting signalled => exact Nat.zero_le _
  | holding other task =>
      rw [PoolThread.inHand, PoolThread.owned]
      split
      · next heq =>
          rw [heq, List.count_singleton_self]
          cases task with
          | none => exact Nat.zero_le _
          | some task => exact le_rfl
      · exact Nat.zero_le _
  | running other task =>
      rw [PoolThread.inHand, PoolThread.owned]
      split
      · next heq => rw [heq, List.count_singleton_self, List.length_singleton]
      · exact Nat.zero_le _

/-- No more of a queue is in hand than it is taken. -/
theorem Sound.length_inHand_le (h : s.Sound) (queue : Queue) :
    (s.inHand queue).length ≤ s.takenQueues.count queue := by
  rw [h.taken queue, inHand]
  generalize s.threads = threads
  induction threads with
  | nil => exact Nat.zero_le _
  | cons thread threads ih =>
      rw [List.flatMap_cons, List.flatMap_cons, List.length_append, List.count_append]
      exact Nat.add_le_add (SThreadPool.length_inHand_le thread queue) ih

/-- **One task of a queue is in hand at a time.** -/
theorem Sound.length_inHand_le_one (h : s.Sound) (queue : Queue) :
    (s.inHand queue).length ≤ 1 :=
  (h.length_inHand_le queue).trans (List.nodup_iff_count_le_one.mp h.takenNodup queue)

/-- A thread goes to a place where it has the same in hand. -/
theorem flow_goTo {p : PoolThread Queue Task} (hthread : s.threads[i]? = some thread)
    (heq : p.inHand queue = thread.inHand queue) : (s.goTo i p).flow queue = s.flow queue := by
  rw [flow, flow, inHand, inHand, goTo, Multiplicity.flatMap_set_of_eq hthread heq]
  rfl

/-- A queue that is given back keeps its tasks. -/
theorem flow_releaseQueue {other : Queue}
    (hthread : s.threads[i]? = some (.locking (some other))) :
    (s.releaseQueue i other).flow queue = s.flow queue :=
  flow_goTo (p := .locking none) hthread rfl

/-- The first task of the first queue is in hand. -/
theorem Sound.inHand_takeFirst {first : Queue} {rest : List Queue} (h : s.Sound)
    (hthread : s.threads[i]? = some thread) (hnone : thread.inHand queue = [])
    (hqueues : s.queues = first :: rest) :
    (s.takeFirst i first rest).inHand queue =
      s.inHand queue ++ if first = queue then (s.tasks first).head?.toList else [] := by
  by_cases heq : first = queue
  · subst heq
    have hzero := h.length_inHand_le first
    rw [List.count_eq_zero_of_not_mem (h.apart first (hqueues ▸ List.mem_cons_self)),
      inHand] at hzero
    obtain ⟨hbefore, hafter⟩ := Multiplicity.flatMap_set_of_length_le
      (b := .holding first (s.tasks first).head?) hthread (hzero.trans (Nat.zero_le _))
    rw [inHand, inHand, hbefore, hnone, if_pos rfl, List.nil_append]
    exact hafter.trans (if_pos rfl)
  · have hsame : PoolThread.inHand queue (.holding first (s.tasks first).head?) =
        thread.inHand queue := by
      rw [hnone, PoolThread.inHand, if_neg heq]
    rw [if_neg heq, List.append_nil]
    exact Multiplicity.flatMap_set_of_eq hthread hsame

/-- The first queue is taken, and its tasks stay in order. -/
theorem Sound.flow_takeFirst {first : Queue} {rest : List Queue} (h : s.Sound)
    (hthread : s.threads[i]? = some thread) (hnone : thread.inHand queue = [])
    (hqueues : s.queues = first :: rest) :
    (s.takeFirst i first rest).flow queue = s.flow queue := by
  have hhand := h.inHand_takeFirst hthread hnone hqueues
  have htasks : (if first = queue then (s.tasks first).head?.toList else []) ++
      (s.takeFirst i first rest).tasks queue = s.tasks queue := by
    by_cases heq : first = queue
    · subst heq
      rw [if_pos rfl, takeFirst_tasks]
      cases s.tasks first <;> rfl
    · rw [if_neg heq, takeFirst_tasks_of_ne (Ne.symm heq), List.nil_append]
  rw [flow, hhand, ← List.append_assoc (s.takeFirst i first rest |>.finished queue), flow,
    List.append_assoc (_ ++ s.inHand queue), htasks]
  rfl

/-- The inner loop of `threadEntryPoint:`. -/
theorem Sound.flow_takeQueue (h : s.Sound) (hthread : s.threads[i]? = some thread)
    (hnone : thread.inHand queue = []) : (s.takeQueue i).flow queue = s.flow queue := by
  rw [SThreadPool.takeQueue]
  cases hqueues : s.queues with
  | nil => exact flow_goTo hthread hnone.symm
  | cons first rest => exact h.flow_takeFirst hthread hnone hqueues

/-- `execute` has returned for a task. -/
theorem finished_finish (other : Queue) (task : Task) (ran : Bool) :
    (s.finish i other task ran).finished queue =
      s.finished queue ++ ofQueue queue [(other, task)] := by
  rw [finished, finished, finish, ofQueue_append, List.map_append]
  by_cases heq : other = queue
  · rw [heq, ofQueue_self, ofQueue_self]
    rfl
  · rw [ofQueue_of_ne heq, ofQueue_of_ne heq]
    rfl

/-- The task in hand is over. -/
theorem Sound.inHand_finish {other : Queue} {ran : Bool} (h : s.Sound)
    (hthread : s.threads[i]? = some thread)
    (hin : ∀ queue, thread.inHand queue = ofQueue queue [(other, task)]) :
    ofQueue queue [(other, task)] ++ (s.finish i other task ran).inHand queue =
      s.inHand queue := by
  have hnext : PoolThread.inHand queue (.locking (some other) : PoolThread Queue Task) = [] := rfl
  by_cases heq : other = queue
  · subst heq
    have hone := h.length_inHand_le_one other
    have hlength : (thread.inHand other).length = 1 := by rw [hin other, ofQueue_self]; rfl
    obtain ⟨hbefore, hafter⟩ := Multiplicity.flatMap_set_of_length_le
      (b := .locking (some other)) hthread (hone.trans hlength.ge)
    rw [inHand, inHand, hbefore, ← hin other]
    exact (congrArg _ hafter).trans (List.append_nil _)
  · have hthis := (hin queue).trans (ofQueue_of_ne heq task)
    rw [ofQueue_of_ne heq]
    exact Multiplicity.flatMap_set_of_eq hthread (hnext.trans hthis.symm)

/-- The task in hand is over, and the tasks stay in order. -/
theorem Sound.flow_finish {other : Queue} {ran : Bool} (h : s.Sound)
    (hthread : s.threads[i]? = some thread)
    (hin : ∀ queue, thread.inHand queue = ofQueue queue [(other, task)]) :
    (s.finish i other task ran).flow queue = s.flow queue := by
  rw [flow, finished_finish, List.append_assoc (s.finished queue), h.inHand_finish hthread hin]
  rfl

/-- The management queue takes nothing from the threads. -/
theorem inHand_workOnQueue (other : Queue) (task : Task) :
    (s.workOnQueue other task).inHand queue = s.inHand queue :=
  flatMap_wake (fun _ => rfl) s.threads

/-- The management queue appends a task. -/
theorem flow_workOnQueue {other : Queue} {rest : List (Queue × Task)}
    (hmanagement : s.managementQueue = (other, task) :: rest) :
    ({ s with managementQueue := rest }.workOnQueue other task).flow queue = s.flow queue := by
  have happend : ofQueue queue ((other, task) :: rest) =
      ofQueue queue [(other, task)] ++ ofQueue queue rest := ofQueue_append [(other, task)] rest
  have htasks : Function.update s.tasks other (s.tasks other ++ [task]) queue =
      s.tasks queue ++ ofQueue queue [(other, task)] := by
    by_cases heq : other = queue
    · rw [heq, Function.update_self, ofQueue_self]
    · rw [Function.update_of_ne (Ne.symm heq), ofQueue_of_ne heq, List.append_nil]
  calc ({ s with managementQueue := rest }.workOnQueue other task).flow queue
      = s.finished queue ++ s.inHand queue ++ (s.tasks queue ++ ofQueue queue [(other, task)]) ++
          ofQueue queue rest := by
        rw [flow, inHand_workOnQueue, ← htasks]
        rfl
    _ = s.finished queue ++ s.inHand queue ++ s.tasks queue ++ ofQueue queue s.managementQueue := by
        rw [hmanagement, happend]
        simp only [List.append_assoc]
    _ = s.flow queue := rfl

/-- A task that is over without having been run is cancelled. -/
def Dropped (s : SThreadPool Queue Task) : Prop :=
  ∀ queue task, (queue, task, false) ∈ s.executed → task ∈ s.cancelled

variable [DecidableEq Task]

/-- A thread that goes on moves tasks along. -/
theorem Sound.flow_threadEntryPoint (h : s.Sound) (i : ℕ) :
    (s.threadEntryPoint i).flow queue = s.flow queue := by
  rw [SThreadPool.threadEntryPoint]
  split
  · rfl
  · next hthread => exact h.flow_takeQueue hthread rfl
  · next other hthread =>
      exact ((h.releaseQueue hthread).flow_takeQueue (threads_releaseQueue hthread) rfl).trans
        (flow_releaseQueue hthread)
  · rfl
  · next hthread => exact h.flow_takeQueue hthread rfl
  · next other hthread => exact absurd (List.mem_of_getElem? hthread) (h.full other)
  · next other task hthread =>
      split
      · exact h.flow_finish hthread (inHand_holding other task)
      · exact flow_goTo hthread rfl
  · next other task hthread => exact h.flow_finish hthread (inHand_running other task)

/-- A step hands over a task, or moves tasks along. -/
theorem Sound.flow_step (h : s.Sound) (e : PoolEvent Queue Task) :
    (s.step e).flow queue = s.flow queue ++ e.added queue := by
  cases e with
  | addTask other task =>
      rw [SThreadPool.step, flow, ofQueue_append, ← List.append_assoc]
      rfl
  | cancel task => exact (List.append_nil _).symm
  | work =>
      refine Eq.trans ?_ (List.append_nil _).symm
      rw [SThreadPool.step]
      split
      · rfl
      · next other task rest hmanagement => exact flow_workOnQueue hmanagement
  | turn i => exact (h.flow_threadEntryPoint i).trans (List.append_nil _).symm
  | spuriousWakeup i =>
      refine Eq.trans ?_ (List.append_nil _).symm
      rw [SThreadPool.step]
      split
      · next hthread => exact flow_goTo hthread rfl
      · rfl

/-- Only a cancelled task is dropped. -/
theorem Dropped.step (h : s.Dropped) (e : PoolEvent Queue Task) : (s.step e).Dropped := by
  have htake : ∀ (s : SThreadPool Queue Task) i, s.Dropped → (s.takeQueue i).Dropped := by
    intro s i h
    rw [SThreadPool.takeQueue]
    split
    · exact h
    · exact h
  have hfinish : ∀ i queue task ran, (ran = false → task ∈ s.cancelled) →
      (s.finish i queue task ran).Dropped := by
    intro i queue task ran hran other dropped hin
    rcases List.mem_append.mp hin with hin | hin
    · exact h other dropped hin
    · obtain ⟨-, heq⟩ := Prod.mk.inj (List.mem_singleton.mp hin)
      obtain ⟨rfl, hfalse⟩ := Prod.mk.inj heq
      exact hran hfalse.symm
  cases e with
  | addTask queue task => exact h
  | cancel task => exact fun queue other hin => List.mem_cons_of_mem _ (h queue other hin)
  | work =>
      rw [SThreadPool.step]
      split
      · exact h
      · exact h
  | turn i =>
      rw [SThreadPool.step, SThreadPool.threadEntryPoint]
      split
      · exact h
      · exact htake s i h
      · next queue _ => exact htake _ i (show (s.releaseQueue i queue).Dropped from h)
      · exact h
      · exact htake s i h
      · exact h
      · split
        · next hmem => exact hfinish i _ _ false fun _ => hmem
        · exact h
      · exact hfinish i _ _ true fun heq => by cases heq
  | spuriousWakeup i =>
      rw [SThreadPool.step]
      split
      · exact h
      · exact h

/-- All tasks handed over for a queue are somewhere, in order. -/
theorem flow_run (threadCount : ℕ) (es : List (PoolEvent Queue Task)) (queue : Queue) :
    (run threadCount es).flow queue = es.flatMap (PoolEvent.added queue) := by
  induction es using List.reverseRecOn with
  | nil =>
      have hnone :
          (initWithThreadCount threadCount : SThreadPool Queue Task).inHand queue = [] := by
        refine List.flatMap_eq_nil_iff.mpr fun thread hthread => ?_
        rw [List.eq_of_mem_replicate hthread]
        rfl
      rw [run, Machine.run_nil, flow, hnone]
      rfl
  | append_singleton es e ih =>
      rw [run, Machine.run_append, Machine.run_cons, Machine.run_nil,
        (sound_run threadCount es).1.flow_step e, ih, List.flatMap_append, List.flatMap_singleton]

/-- **The order of the tasks.** The tasks handed over for a queue are, in the order in which they
have been handed over, those that are over, at most one that a thread has in hand, those that wait
in the queue and those on the management queue; and of those that are over, only the ones that have
been cancelled have not been run. -/
theorem pool_order (threadCount : ℕ) (es : List (PoolEvent Queue Task)) (queue : Queue) :
    es.flatMap (PoolEvent.added queue) =
        (run threadCount es).finished queue ++ (run threadCount es).inHand queue ++
          (run threadCount es).tasks queue ++
            ofQueue queue (run threadCount es).managementQueue ∧
      ((run threadCount es).inHand queue).length ≤ 1 ∧
      ∀ task, (queue, task, false) ∈ (run threadCount es).executed →
        task ∈ (run threadCount es).cancelled := by
  refine ⟨(flow_run threadCount es queue).symm, ?_, fun task => ?_⟩
  · exact (sound_run threadCount es).1.length_inHand_le_one queue
  · have hstart : (initWithThreadCount threadCount : SThreadPool Queue Task).Dropped :=
      fun queue task h => absurd h List.not_mem_nil
    exact (Machine.always_of_step (I := Dropped) (fun _ e h => h.step e) hstart).last queue task

/-! ### Cancelled tasks -/

/-- A task is cancelled and no thread is in its block; the log says that it has been run as it says
in `log`. -/
structure Stopped (task : Task) (log : List (Queue × Task × Bool))
    (s : SThreadPool Queue Task) : Prop where
  cancelled : task ∈ s.cancelled
  idle : ∀ queue, .running queue task ∉ s.threads
  log : s.executed.filter (·.2 = (task, true)) = log

namespace Stopped

variable {log : List (Queue × Task × Bool)}

omit [DecidableEq Queue] in
/-- A thread goes to another place. -/
theorem goTo (h : s.Stopped task log) (i : ℕ) {p : PoolThread Queue Task}
    (hnext : ∀ queue, p ≠ .running queue task) : (s.goTo i p).Stopped task log := by
  refine ⟨h.cancelled, fun queue hin => ?_, h.log⟩
  rcases List.mem_or_eq_of_mem_set hin with hin | heq
  · exact h.idle queue hin
  · exact hnext queue heq.symm

omit [DecidableEq Queue] in
/-- Only threads, cancelled tasks and the log matter. -/
theorem of_eq {t : SThreadPool Queue Task} (h : s.Stopped task log)
    (hcancelled : t.cancelled = s.cancelled) (hthreads : t.threads = s.threads)
    (hexecuted : t.executed = s.executed) : t.Stopped task log :=
  ⟨hcancelled ▸ h.cancelled, hthreads ▸ h.idle, hexecuted ▸ h.log⟩

/-- The inner loop of `threadEntryPoint:`. -/
theorem takeQueue (h : s.Stopped task log) (i : ℕ) : (s.takeQueue i).Stopped task log := by
  rw [SThreadPool.takeQueue]
  cases s.queues with
  | nil => exact h.goTo i fun queue heq => by cases heq
  | cons queue rest =>
      have htaken := h.goTo i (p := .holding queue (s.tasks queue).head?) fun _ heq => by cases heq
      exact htaken.of_eq rfl rfl rfl

omit [DecidableEq Queue] in
/-- Another task is over, or this one without having been run. -/
theorem finish (h : s.Stopped task log) (i : ℕ) {queue : Queue} {other : Task} {ran : Bool}
    (hne : (other, ran) ≠ (task, true)) : (s.finish i queue other ran).Stopped task log := by
  have hgone := h.goTo i (p := .locking (some queue)) fun _ heq => by cases heq
  refine ⟨hgone.cancelled, hgone.idle, ?_⟩
  rw [SThreadPool.finish, List.filter_append, h.log, List.filter_cons_of_neg (by simpa using hne)]
  exact List.append_nil log

/-- A step does not run a cancelled task. -/
theorem step (h : s.Stopped task log) (e : PoolEvent Queue Task) :
    (s.step e).Stopped task log := by
  cases e with
  | addTask queue other => exact h.of_eq rfl rfl rfl
  | cancel other => exact ⟨List.mem_cons_of_mem _ h.cancelled, h.idle, h.log⟩
  | work =>
      rw [SThreadPool.step]
      split
      · exact h
      · refine ⟨h.cancelled, fun queue hin => ?_, h.log⟩
        obtain ⟨thread, hmem, heq⟩ := List.mem_map.mp hin
        cases thread with
        | running other block => exact h.idle queue (heq ▸ hmem)
        | locking other => cases heq
        | waiting signalled => cases heq
        | holding other block => cases heq
  | turn i =>
      rw [SThreadPool.step, SThreadPool.threadEntryPoint]
      split
      · exact h
      · exact h.takeQueue i
      · next queue _ =>
          have hreleased : (s.releaseQueue i queue).Stopped task log :=
            (h.goTo i (p := .locking none) fun _ heq => by cases heq).of_eq rfl rfl rfl
          exact hreleased.takeQueue i
      · exact h
      · exact h.takeQueue i
      · exact h.goTo i fun _ heq => by cases heq
      · split
        · exact h.finish i fun heq => by cases heq
        · next hmem =>
            refine h.goTo i fun queue heq => hmem ?_
            obtain ⟨-, rfl⟩ := PoolThread.running.inj heq
            exact h.cancelled
      · next queue other hthread =>
          refine h.finish i fun heq => ?_
          obtain ⟨rfl, -⟩ := Prod.mk.inj heq
          exact h.idle queue (List.mem_of_getElem? hthread)
  | spuriousWakeup i =>
      rw [SThreadPool.step]
      split
      · exact h.goTo i fun _ heq => by cases heq
      · exact h

end Stopped

/-- **A cancelled task is not run**: once it is cancelled while no thread is in its block, its
block is never run again, whatever happens next. -/
theorem not_run_of_cancelled (hcancelled : task ∈ s.cancelled)
    (hidle : ∀ queue, .running queue task ∉ s.threads) (es : List (PoolEvent Queue Task)) :
    (Machine.run step s es).executed.filter (·.2 = (task, true)) =
        s.executed.filter (·.2 = (task, true)) ∧
      ∀ queue, .running queue task ∉ (Machine.run step s es).threads := by
  have hstart : s.Stopped task (s.executed.filter (·.2 = (task, true))) :=
    ⟨hcancelled, hidle, rfl⟩
  have hstopped : (Machine.run step s es).Stopped task _ :=
    (Machine.always_of_step (I := Stopped task _) (fun _ e h => h.step e) hstart).last
  exact ⟨hstopped.log, hstopped.idle⟩

/-- A task is cancelled when a thread has already popped it. -/
theorem not_run_of_cancelled_popped :
    (Machine.run step (run 1 [.addTask 0 7, .work, .turn 0, .cancel 7] : SThreadPool ℕ ℕ)
        [.turn 0, .turn 0]).executed.filter (·.2 = (7, true)) =
        (run 1 [.addTask 0 7, .work, .turn 0, .cancel 7] :
          SThreadPool ℕ ℕ).executed.filter (·.2 = (7, true)) ∧
      ∀ queue, .running queue 7 ∉ (Machine.run step
        (run 1 [.addTask 0 7, .work, .turn 0, .cancel 7] : SThreadPool ℕ ℕ)
          [.turn 0, .turn 0]).threads := by
  refine not_run_of_cancelled List.mem_cons_self (fun queue hmem => ?_) [.turn 0, .turn 0]
  cases List.mem_singleton.mp hmem

end SThreadPool

end Telegraph.Signals
