import Mathlib.Logic.Function.Basic
import Telegraph.Lib.Machine
import Telegraph.Lib.Multiplicity

/-!
# The Thread Pool

A pool has some threads and some queues of tasks. A task is handed over on the management queue,
which appends it to its own queue and wakes the threads; a thread takes the queue that stands
first, runs one of its tasks, and puts the queue behind the others if it has more. The threads,
the management queue and the callers go on in any order.

## Main results

* `Awake.step`: **no wake-up is lost.**
* `sound_run`: what the lists of queues say about the threads, in every run.
-/

namespace Telegraph.Signals

/-- Where a thread stands in `threadEntryPoint`: before the mutex with the queue that it has
taken, in `pthread_cond_wait`, behind the mutex with a task, or in the block of a task. -/
inductive PoolThread (Queue Task : Type) where
  | locking (queue : Option Queue)
  | waiting (signalled : Bool)
  | holding (queue : Queue) (task : Option Task)
  | running (queue : Queue) (task : Task)
  deriving DecidableEq

/-- `SThreadPool`: the blocks on its `_managementQueue`, the `_tasks` of each `SThreadPoolQueue`,
the `_queues` and `_takenQueues`, the threads, and the tasks whose state is `_cancelled`. The log
says of each task that `execute` has returned for whether its block was run. -/
structure SThreadPool (Queue Task : Type) where
  managementQueue : List (Queue × Task)
  tasks : Queue → List Task
  queues : List Queue
  takenQueues : List Queue
  threads : List (PoolThread Queue Task)
  cancelled : List Task
  executed : List (Queue × Task × Bool)

/-- What can happen next: a task is added to a queue or cancelled, the management queue runs its
next block, a thread goes on, or `pthread_cond_wait` returns though nobody has called it. -/
inductive PoolEvent (Queue Task : Type) where
  | addTask (queue : Queue) (task : Task)
  | cancel (task : Task)
  | work
  | turn (i : ℕ)
  | spuriousWakeup (i : ℕ)

namespace SThreadPool

variable {Queue Task : Type} [DecidableEq Queue]

/-- `initWithThreadCount:`, when its block has started the threads. -/
def initWithThreadCount (threadCount : ℕ) : SThreadPool Queue Task where
  managementQueue := []
  tasks := fun _ => []
  queues := []
  takenQueues := []
  threads := List.replicate threadCount (.locking none)
  cancelled := []
  executed := []

/-- Thread `i` goes to another place. -/
def goTo (s : SThreadPool Queue Task) (i : ℕ) (thread : PoolThread Queue Task) :
    SThreadPool Queue Task :=
  { s with threads := s.threads.set i thread }

/-- `_hasTasks` of a queue. -/
def hasTasks (s : SThreadPool Queue Task) (queue : Queue) : Bool :=
  !(s.tasks queue).isEmpty

/-- `threadEntryPoint:`, the mutex is locked: the queue that the thread has taken is given back,
behind the others, if it has more tasks. -/
def releaseQueue (s : SThreadPool Queue Task) (i : ℕ) (queue : Queue) : SThreadPool Queue Task :=
  { s with
    takenQueues := s.takenQueues.filter (· ≠ queue)
    queues := if s.hasTasks queue then s.queues ++ [queue] else s.queues
    threads := s.threads.set i (.locking none) }

/-- `threadEntryPoint:`, the first of the queues is taken, with `_popFirstTask`. -/
def takeFirst (s : SThreadPool Queue Task) (i : ℕ) (queue : Queue) (rest : List Queue) :
    SThreadPool Queue Task :=
  { s with
    tasks := Function.update s.tasks queue (s.tasks queue).tail
    takenQueues := s.takenQueues ++ [queue]
    queues := rest
    threads := s.threads.set i (.holding queue (s.tasks queue).head?) }

/-- `threadEntryPoint:`, the inner loop: the thread waits while there is no queue; else it takes
the first one and unlocks the mutex. -/
def takeQueue (s : SThreadPool Queue Task) (i : ℕ) : SThreadPool Queue Task :=
  match s.queues with
  | [] => s.goTo i (.waiting false)
  | queue :: rest => s.takeFirst i queue rest

/-- `execute` has returned. -/
def finish (s : SThreadPool Queue Task) (i : ℕ) (queue : Queue) (task : Task) (ran : Bool) :
    SThreadPool Queue Task :=
  { s with
    executed := s.executed ++ [(queue, task, ran)]
    threads := s.threads.set i (.locking (some queue)) }

/-- `pthread_cond_broadcast`, for one thread. -/
def wake : PoolThread Queue Task → PoolThread Queue Task
  | .waiting _ => .waiting true
  | thread => thread

/-- The block of `_workOnQueue:block:` for a task that is added to a queue. -/
def workOnQueue (s : SThreadPool Queue Task) (queue : Queue) (task : Task) :
    SThreadPool Queue Task :=
  { s with
    tasks := Function.update s.tasks queue (s.tasks queue ++ [task])
    queues := if queue ∉ s.queues ∧ queue ∉ s.takenQueues then s.queues ++ [queue] else s.queues
    threads := s.threads.map wake }

variable [DecidableEq Task]

/-- `threadEntryPoint:`: thread `i` goes on to the next place where another one can come between.
A thread that waits and is not woken stays where it is. -/
def threadEntryPoint (s : SThreadPool Queue Task) (i : ℕ) : SThreadPool Queue Task :=
  match s.threads[i]? with
  | none => s
  | some (.locking none) => s.takeQueue i
  | some (.locking (some queue)) => (s.releaseQueue i queue).takeQueue i
  | some (.waiting false) => s
  | some (.waiting true) => s.takeQueue i
  | some (.holding queue none) => s.goTo i (.locking (some queue))
  | some (.holding queue (some task)) =>
      if task ∈ s.cancelled then s.finish i queue task false
      else s.goTo i (.running queue task)
  | some (.running queue task) => s.finish i queue task true

/-- One step of the pool. -/
def step (s : SThreadPool Queue Task) : PoolEvent Queue Task → SThreadPool Queue Task
  | .addTask queue task => { s with managementQueue := s.managementQueue ++ [(queue, task)] }
  | .cancel task => { s with cancelled := task :: s.cancelled }
  | .work =>
      match s.managementQueue with
      | [] => s
      | (queue, task) :: rest => { s with managementQueue := rest }.workOnQueue queue task
  | .turn i => s.threadEntryPoint i
  | .spuriousWakeup i =>
      match s.threads[i]? with
      | some (.waiting false) => s.goTo i (.waiting true)
      | _ => s

end SThreadPool

/-! ### The lists of queues -/

section Sound

variable {Queue Task : Type} [DecidableEq Queue]
variable {s : SThreadPool Queue Task} {i k : ℕ} {queue : Queue} {task : Task}
  {thread : PoolThread Queue Task}

/-- The queue that a thread has taken. -/
def PoolThread.owned : PoolThread Queue Task → List Queue
  | .locking queue => queue.toList
  | .waiting _ => []
  | .holding queue _ => [queue]
  | .running queue _ => [queue]

/-- What the lists of queues say: a queue is taken if one thread has it, a queue that has tasks is
taken or waits for a thread, and one that waits has tasks. -/
structure SThreadPool.Sound (s : SThreadPool Queue Task) : Prop where
  taken : ∀ queue, s.takenQueues.count queue = (s.threads.flatMap PoolThread.owned).count queue
  nodup : s.queues.Nodup
  takenNodup : s.takenQueues.Nodup
  apart : ∀ queue ∈ s.queues, queue ∉ s.takenQueues
  hasTasks : ∀ queue ∈ s.queues, s.tasks queue ≠ []
  known : ∀ queue, s.tasks queue ≠ [] → queue ∈ s.queues ∨ queue ∈ s.takenQueues
  full : ∀ queue, .holding queue none ∉ s.threads

/-- While a thread waits that has not been woken, no more than `k` queues wait. -/
def SThreadPool.Awake (k : ℕ) (s : SThreadPool Queue Task) : Prop :=
  .waiting false ∈ s.threads → s.queues.length ≤ k

namespace SThreadPool

/-- A queue that a thread has is taken. -/
theorem Sound.owner_mem (h : s.Sound) (hthread : s.threads[i]? = some thread)
    (hmem : queue ∈ thread.owned) : queue ∈ s.takenQueues := by
  rw [← List.count_pos_iff, h.taken queue]
  exact List.count_pos_iff.mpr (Multiplicity.mem_flatMap_of_owner hthread hmem)

/-- A thread goes to a place where it has the same queue. -/
theorem Sound.goTo {p : PoolThread Queue Task} (h : s.Sound)
    (hthread : s.threads[i]? = some thread) (howned : p.owned = thread.owned)
    (hfull : ∀ queue, p ≠ .holding queue none) : (s.goTo i p).Sound :=
  { h with
    taken := fun queue => by
      have hcount := Multiplicity.count_flatMap_set (f := PoolThread.owned) (b := p)
        (x := queue) hthread
      have htaken := h.taken queue
      rw [howned] at hcount
      show s.takenQueues.count queue = _
      rw [htaken]
      exact (Nat.add_right_cancel hcount).symm
    full := fun queue hmem => by
      rcases List.mem_or_eq_of_mem_set hmem with hmem | heq
      · exact h.full queue hmem
      · exact hfull queue heq.symm }

/-- A queue is given back. -/
theorem Sound.releaseQueue (h : s.Sound) (hthread : s.threads[i]? = some (.locking (some queue))) :
    (s.releaseQueue i queue).Sound := by
  have hmem : queue ∈ s.takenQueues := h.owner_mem hthread List.mem_cons_self
  have hnot : queue ∉ s.queues := fun hqueue => h.apart queue hqueue hmem
  have hcount : ∀ other, (s.takenQueues.filter (· ≠ queue)).count other =
      ((s.threads.set i (.locking none)).flatMap PoolThread.owned).count other := by
    intro other
    have hset := Multiplicity.count_flatMap_set (f := PoolThread.owned)
      (b := .locking none) (x := other) hthread
    have htaken := h.taken other
    by_cases heq : other = queue
    · subst heq
      have hone := List.count_eq_one_of_mem h.takenNodup hmem
      have hzero : (s.takenQueues.filter (· ≠ other)).count other = 0 :=
        List.count_eq_zero_of_not_mem fun hin => by simpa using (List.mem_filter.mp hin).2
      simp only [PoolThread.owned, Option.toList, List.count_singleton_self,
        List.count_nil] at hset
      omega
    · have hsame : (s.takenQueues.filter (· ≠ queue)).count other = s.takenQueues.count other :=
        List.count_filter (by simpa using heq)
      have hnone : [queue].count other = 0 :=
        List.count_eq_zero_of_not_mem fun hin => heq (List.mem_singleton.mp hin)
      simp only [PoolThread.owned, Option.toList, List.count_nil, hnone] at hset
      omega
  have hfull : ∀ other, .holding other none ∉ s.threads.set i (.locking none) := by
    intro other hin
    rcases List.mem_or_eq_of_mem_set hin with hin | heq
    · exact h.full other hin
    · cases heq
  rw [SThreadPool.releaseQueue]
  cases htasks : s.hasTasks queue with
  | false =>
      have hempty : s.tasks queue = [] := by
        rw [SThreadPool.hasTasks, Bool.not_eq_false', List.isEmpty_iff] at htasks
        exact htasks
      refine ⟨hcount, h.nodup, h.takenNodup.filter _, ?_, h.hasTasks, ?_, hfull⟩
      · exact fun other hother hin => h.apart other hother (List.mem_of_mem_filter hin)
      · intro other hother
        have hne : other ≠ queue := fun heq => hother (heq ▸ hempty)
        exact (h.known other hother).imp_right fun hin =>
          List.mem_filter.mpr ⟨hin, decide_eq_true hne⟩
  | true =>
      have hsome : s.tasks queue ≠ [] := by
        rw [SThreadPool.hasTasks, Bool.not_eq_true'] at htasks
        exact fun heq => by simp [heq] at htasks
      refine ⟨hcount, ?_, h.takenNodup.filter _, ?_, ?_, ?_, hfull⟩
      · exact h.nodup.append (List.nodup_singleton _) (List.disjoint_singleton.mpr hnot)
      · intro other hother hin
        rw [List.mem_filter, decide_eq_true_eq] at hin
        rcases List.mem_append.mp hother with hother | hother
        · exact h.apart other hother hin.1
        · exact hin.2 (List.mem_singleton.mp hother)
      · intro other hother
        rcases List.mem_append.mp hother with hother | hother
        · exact h.hasTasks other hother
        · exact List.mem_singleton.mp hother ▸ hsome
      · intro other hother
        by_cases heq : other = queue
        · exact .inl (List.mem_append_right _ (List.mem_singleton.mpr heq))
        · exact (h.known other hother).imp (List.mem_append_left _) fun hin =>
            List.mem_filter.mpr ⟨hin, decide_eq_true heq⟩

/-- The thread that has given its queue back has none. -/
theorem threads_releaseQueue (hthread : s.threads[i]? = some thread) :
    (s.releaseQueue i queue).threads[i]? = some (.locking none) := by
  obtain ⟨hlt, -⟩ := List.getElem?_eq_some_iff.mp hthread
  exact List.getElem?_set_self hlt

/-- The first task of the queue is popped. -/
theorem takeFirst_tasks {rest : List Queue} :
    (s.takeFirst i queue rest).tasks queue = (s.tasks queue).tail :=
  Function.update_self ..

/-- The tasks of another queue stay. -/
theorem takeFirst_tasks_of_ne {other : Queue} {rest : List Queue} (hne : other ≠ queue) :
    (s.takeFirst i queue rest).tasks other = s.tasks other :=
  Function.update_of_ne hne _ _

/-- The first queue is taken. -/
theorem Sound.takeFirst {rest : List Queue} (h : s.Sound) (hthread : s.threads[i]? = some thread)
    (hnone : thread.owned = []) (hqueues : s.queues = queue :: rest) :
    (s.takeFirst i queue rest).Sound := by
  have hmem : queue ∈ s.queues := hqueues ▸ List.mem_cons_self
  have hnodup := h.nodup
  rw [hqueues, List.nodup_cons] at hnodup
  have hrest : ∀ other ∈ rest, other ∈ s.queues ∧ other ≠ queue := fun other hother =>
    ⟨hqueues ▸ List.mem_cons_of_mem _ hother, fun heq => hnodup.1 (heq ▸ hother)⟩
  refine ⟨?_, hnodup.2, ?_, ?_, ?_, ?_, ?_⟩
  · intro other
    have hset := Multiplicity.count_flatMap_set (f := PoolThread.owned)
      (b := .holding queue (s.tasks queue).head?) (x := other) hthread
    rw [hnone, ← h.taken other, List.count_nil, Nat.add_zero] at hset
    exact (List.count_append ..).trans hset.symm
  · exact h.takenNodup.append (List.nodup_singleton _)
      (List.disjoint_singleton.mpr (h.apart queue hmem))
  · intro other hother hin
    rcases List.mem_append.mp hin with hin | hin
    · exact h.apart other (hrest other hother).1 hin
    · exact (hrest other hother).2 (List.mem_singleton.mp hin)
  · intro other hother
    rw [takeFirst_tasks_of_ne (hrest other hother).2]
    exact h.hasTasks other (hrest other hother).1
  · intro other hother
    by_cases heq : other = queue
    · exact .inr (List.mem_append_right _ (List.mem_singleton.mpr heq))
    · rw [takeFirst_tasks_of_ne heq] at hother
      have hknown := h.known other hother
      rw [hqueues, List.mem_cons] at hknown
      exact hknown.imp (fun hin => hin.resolve_left heq) (List.mem_append_left _)
  · intro other hin
    rcases List.mem_or_eq_of_mem_set hin with hin | heq
    · exact h.full other hin
    · rw [PoolThread.holding.injEq] at heq
      exact h.hasTasks queue hmem (List.head?_eq_none_iff.mp heq.2.symm)

/-- The inner loop of `threadEntryPoint:`. -/
theorem Sound.takeQueue (h : s.Sound) (hthread : s.threads[i]? = some thread)
    (hnone : thread.owned = []) : (s.takeQueue i).Sound := by
  rw [SThreadPool.takeQueue]
  cases hqueues : s.queues with
  | nil => exact h.goTo hthread (by rw [hnone]; rfl) fun queue heq => by cases heq
  | cons queue rest => exact h.takeFirst hthread hnone hqueues

omit [DecidableEq Queue] in
/-- Threads are woken. -/
theorem flatMap_wake {α : Type} {f : PoolThread Queue Task → List α}
    (hwait : ∀ signalled, f (.waiting signalled) = []) (threads : List (PoolThread Queue Task)) :
    (threads.map wake).flatMap f = threads.flatMap f := by
  rw [List.flatMap_map]
  refine List.flatMap_congr fun thread _ => ?_
  cases thread with
  | waiting signalled => exact (hwait true).trans (hwait signalled).symm
  | locking queue => rfl
  | holding queue task => rfl
  | running queue task => rfl

/-- A task is added to a queue. -/
theorem Sound.workOnQueue (h : s.Sound) (queue : Queue) (task : Task) :
    (s.workOnQueue queue task).Sound := by
  have htaken : ∀ other, s.takenQueues.count other =
      ((s.threads.map wake).flatMap PoolThread.owned).count other := fun other => by
    rw [flatMap_wake (fun _ => rfl), h.taken other]
  have hsome : ∀ other, other = queue ∨ s.tasks other ≠ [] →
      Function.update s.tasks queue (s.tasks queue ++ [task]) other ≠ [] := by
    intro other hother
    rw [Function.update_apply]
    split
    · exact List.concat_ne_nil task _
    · next hne => exact hother.resolve_left hne
  have hback : ∀ other, other ≠ queue →
      Function.update s.tasks queue (s.tasks queue ++ [task]) other ≠ [] →
      s.tasks other ≠ [] := by
    intro other hne hother
    rwa [Function.update_of_ne hne] at hother
  have hfull : ∀ other, .holding other none ∉ s.threads.map wake := by
    intro other hin
    obtain ⟨thread, hmem, heq⟩ := List.mem_map.mp hin
    cases thread with
    | waiting signalled => cases heq
    | locking queue => cases heq
    | holding queue task => exact h.full other (heq ▸ hmem)
    | running queue task => cases heq
  rw [SThreadPool.workOnQueue]
  by_cases hnew : queue ∉ s.queues ∧ queue ∉ s.takenQueues
  · rw [if_pos hnew]
    refine ⟨htaken, ?_, h.takenNodup, ?_, ?_, ?_, hfull⟩
    · exact h.nodup.append (List.nodup_singleton _) (List.disjoint_singleton.mpr hnew.1)
    · intro other hother
      rcases List.mem_append.mp hother with hother | hother
      · exact h.apart other hother
      · exact List.mem_singleton.mp hother ▸ hnew.2
    · intro other hother
      refine hsome other ?_
      rcases List.mem_append.mp hother with hother | hother
      · exact .inr (h.hasTasks other hother)
      · exact .inl (List.mem_singleton.mp hother)
    · intro other hother
      by_cases heq : other = queue
      · exact .inl (List.mem_append_right _ (List.mem_singleton.mpr heq))
      · exact (h.known other (hback other heq hother)).imp_left (List.mem_append_left _)
  · rw [if_neg hnew]
    refine ⟨htaken, h.nodup, h.takenNodup, h.apart, ?_, ?_, hfull⟩
    · exact fun other hother => hsome other (.inr (h.hasTasks other hother))
    · intro other hother
      by_cases heq : other = queue
      · rw [heq]
        by_cases hqueue : queue ∈ s.queues
        · exact .inl hqueue
        · exact .inr (not_not.mp fun hin => hnew ⟨hqueue, hin⟩)
      · exact h.known other (hback other heq hother)

/-- Nothing is known of the queues from what has been handed over, cancelled and executed. -/
theorem Sound.of_eq {t : SThreadPool Queue Task} (h : s.Sound) (htasks : t.tasks = s.tasks)
    (hqueues : t.queues = s.queues) (htaken : t.takenQueues = s.takenQueues)
    (hthreads : t.threads = s.threads) : t.Sound := by
  obtain ⟨_, _, _, _, _, _, _⟩ := t
  obtain rfl : _ = s.tasks := htasks
  obtain rfl : _ = s.queues := hqueues
  obtain rfl : _ = s.takenQueues := htaken
  obtain rfl : _ = s.threads := hthreads
  exact ⟨h.taken, h.nodup, h.takenNodup, h.apart, h.hasTasks, h.known, h.full⟩

/-- `execute` returns. -/
theorem Sound.finish (h : s.Sound) (hthread : s.threads[i]? = some thread)
    (howned : thread.owned = [queue]) (task : Task) (ran : Bool) :
    (s.finish i queue task ran).Sound :=
  (h.goTo (p := .locking (some queue)) hthread howned.symm fun _ heq => by cases heq).of_eq
    rfl rfl rfl rfl

/-! ### Waking the threads -/

omit [DecidableEq Queue] in
/-- A thread goes to a place where it does not wait. -/
theorem Awake.goTo {p : PoolThread Queue Task} (h : s.Awake k) (i : ℕ)
    (hnext : p ≠ .waiting false) : (s.goTo i p).Awake k := by
  intro hwaits
  rcases List.mem_or_eq_of_mem_set hwaits with hwaits | heq
  · exact h hwaits
  · exact absurd heq.symm hnext

/-- A queue that is given back is one more. -/
theorem Awake.releaseQueue (h : s.Awake 0) (i : ℕ) (queue : Queue) :
    (s.releaseQueue i queue).Awake 1 := by
  intro hwaits
  have hnone := h.goTo (p := .locking none) i (fun heq => by cases heq) hwaits
  have hnil : s.queues = [] := List.length_eq_zero_iff.mp (Nat.le_zero.mp hnone)
  rw [SThreadPool.releaseQueue, hnil]
  split
  · exact le_rfl
  · exact Nat.zero_le 1

/-- The queue that is one more is taken at once. -/
theorem Awake.takeQueue (h : s.Awake 1) (i : ℕ) : (s.takeQueue i).Awake 0 := by
  rw [SThreadPool.takeQueue]
  cases hqueues : s.queues with
  | nil =>
      intro _
      show s.queues.length ≤ 0
      rw [hqueues]
      exact le_rfl
  | cons queue rest =>
      intro hwaits
      have hone := h.goTo (p := .holding queue (s.tasks queue).head?) i
        (fun heq => by cases heq) hwaits
      rw [SThreadPool.goTo, hqueues] at hone
      exact Nat.le_of_succ_le_succ hone

/-! ### Steps and runs -/

variable [DecidableEq Task]

/-- A thread goes on. -/
theorem Sound.threadEntryPoint (h : s.Sound) (i : ℕ) : (s.threadEntryPoint i).Sound := by
  rw [SThreadPool.threadEntryPoint]
  split
  · exact h
  · next hthread => exact h.takeQueue hthread rfl
  · next hthread => exact (h.releaseQueue hthread).takeQueue (threads_releaseQueue hthread) rfl
  · exact h
  · next hthread => exact h.takeQueue hthread rfl
  · next queue hthread => exact absurd (List.mem_of_getElem? hthread) (h.full queue)
  · next queue task hthread =>
      split
      · exact h.finish hthread rfl task false
      · exact h.goTo hthread rfl fun _ heq => by cases heq
  · next queue task hthread => exact h.finish hthread rfl task true

/-- What the lists of queues say is kept by every step. -/
theorem Sound.step (h : s.Sound) (e : PoolEvent Queue Task) : (s.step e).Sound := by
  cases e with
  | addTask queue task => exact h.of_eq rfl rfl rfl rfl
  | cancel task => exact h.of_eq rfl rfl rfl rfl
  | work =>
      rw [SThreadPool.step]
      split
      · exact h
      · next queue task rest _ =>
          have hrest : { s with managementQueue := rest }.Sound := h.of_eq rfl rfl rfl rfl
          exact hrest.workOnQueue queue task
  | turn i => exact h.threadEntryPoint i
  | spuriousWakeup i =>
      rw [SThreadPool.step]
      split
      · next hthread => exact h.goTo hthread rfl fun _ heq => by cases heq
      · exact h

/-- **No wake-up is lost**: after every step, no queue waits while a thread waits that has not been
woken. -/
theorem Awake.step (h : s.Awake 0) (e : PoolEvent Queue Task) : (s.step e).Awake 0 := by
  cases e with
  | addTask queue task => exact h
  | cancel task => exact h
  | work =>
      rw [SThreadPool.step]
      split
      · exact h
      · intro hwaits
        obtain ⟨thread, -, heq⟩ := List.mem_map.mp hwaits
        cases thread <;> cases heq
  | turn i =>
      rw [SThreadPool.step, SThreadPool.threadEntryPoint]
      have htake := Awake.takeQueue (fun hwaits => Nat.le_succ_of_le (h hwaits)) i
      split
      · exact h
      · exact htake
      · next queue _ => exact (h.releaseQueue i queue).takeQueue i
      · exact h
      · exact htake
      · exact h.goTo i fun heq => by cases heq
      · split
        · exact h.goTo i fun heq => by cases heq
        · exact h.goTo i fun heq => by cases heq
      · exact h.goTo i fun heq => by cases heq
  | spuriousWakeup i =>
      rw [SThreadPool.step]
      split
      · exact h.goTo i fun heq => by cases heq
      · exact h

/-- The pool after some events. -/
abbrev run (threadCount : ℕ) (es : List (PoolEvent Queue Task)) : SThreadPool Queue Task :=
  Machine.run step (initWithThreadCount threadCount) es

/-- What the lists of queues say, in every run. -/
theorem sound_run (threadCount : ℕ) (es : List (PoolEvent Queue Task)) :
    (run threadCount es).Sound ∧ (run threadCount es).Awake 0 := by
  have hsound : (initWithThreadCount threadCount : SThreadPool Queue Task).Sound := by
    refine ⟨fun queue => ?_, .nil, .nil, ?_, ?_, fun queue h => absurd rfl h, fun queue h => ?_⟩
    · refine (List.count_eq_zero_of_not_mem fun h => ?_).symm
      obtain ⟨thread, hthread, hmem⟩ := List.mem_flatMap.mp h
      rw [List.eq_of_mem_replicate hthread] at hmem
      exact List.not_mem_nil hmem
    · exact fun queue h => absurd h List.not_mem_nil
    · exact fun queue h => absurd h List.not_mem_nil
    · cases List.eq_of_mem_replicate h
  exact (Machine.always_of_step
    (I := fun s : SThreadPool Queue Task => s.Sound ∧ s.Awake 0)
    (fun s e h => ⟨h.1.step e, h.2.step e⟩) ⟨hsound, fun _ => le_rfl⟩).last

end SThreadPool

end Sound

end Telegraph.Signals
