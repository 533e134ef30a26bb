import Telegraph.Signals.PoolOrder

/-!
# The Rounds of the Pool

Every step in which the management queue or a thread goes on brings a task nearer to its end, and
while a task is left one of them can go on. The queues take turns: one that has had a task executed
goes behind the others.

## Main results

* `Sound.remaining_step_lt`: each step of the pool leaves less to do.
* `pool_drains`: **all tasks are executed**, in whatever order the threads go on.
* `pool_fair`: **the queues take turns.**
-/

namespace Telegraph.Signals

variable {Queue Task : Type} [DecidableEq Queue]
variable {s : SThreadPool Queue Task} {i : ℕ} {queue other : Queue} {task : Task}
  {thread : PoolThread Queue Task}

/-! ### What is left to do -/

/-- How often a thread can go on until it waits or takes a queue again. -/
def PoolThread.remaining : PoolThread Queue Task → ℕ
  | .locking _ => 1
  | .waiting signalled => if signalled then 1 else 0
  | .holding _ _ => 3
  | .running _ _ => 2

namespace SThreadPool

/-- The tasks that wait in the queues. -/
def waitingTasks (s : SThreadPool Queue Task) : List Task :=
  (s.queues ++ s.takenQueues).flatMap s.tasks

/-- How often the management queue and the threads can still go on. A task that is added wakes all
threads, and one that is popped makes three steps. -/
def remaining (s : SThreadPool Queue Task) : ℕ :=
  (s.threads.length + 4) * s.managementQueue.length + 3 * s.waitingTasks.length +
    (s.threads.map PoolThread.remaining).sum

omit [DecidableEq Queue] in
/-- What is left to do when a thread goes to another place. -/
theorem remaining_of_set {t : SThreadPool Queue Task} {p : PoolThread Queue Task}
    (hthread : s.threads[i]? = some thread) (hthreads : t.threads = s.threads.set i p)
    (hmanagement : t.managementQueue = s.managementQueue) :
    t.remaining + (3 * s.waitingTasks.length + thread.remaining) =
      s.remaining + (3 * t.waitingTasks.length + p.remaining) := by
  have hsum := Multiplicity.sum_map_set PoolThread.remaining (b := p) hthread
  rw [remaining, remaining, hthreads, hmanagement, List.length_set]
  omega

omit [DecidableEq Queue] in
/-- A thread goes nearer to its end. -/
theorem remaining_lt {t : SThreadPool Queue Task} {p : PoolThread Queue Task}
    (hthread : s.threads[i]? = some thread) (hthreads : t.threads = s.threads.set i p)
    (hmanagement : t.managementQueue = s.managementQueue)
    (hlt : 3 * t.waitingTasks.length + p.remaining <
      3 * s.waitingTasks.length + thread.remaining) :
    t.remaining < s.remaining := by
  have hset := remaining_of_set hthread hthreads hmanagement
  omega

/-- A queue is given back with its tasks. -/
theorem Sound.length_waitingTasks_releaseQueue (h : s.Sound) (hmem : queue ∈ s.takenQueues) :
    (s.releaseQueue i queue).waitingTasks.length = s.waitingTasks.length := by
  have hfilter : s.takenQueues.erase queue = s.takenQueues.filter (· ≠ queue) := by
    rw [h.takenNodup.erase_eq_filter queue]
    refine List.filter_congr fun other _ => ?_
    rw [Bool.eq_iff_iff, bne_iff_ne, decide_eq_true_eq]
  have hperm := List.perm_cons_erase hmem
  rw [hfilter] at hperm
  rw [waitingTasks, waitingTasks, List.flatMap_append, List.flatMap_append, List.length_append,
    List.length_append, (hperm.flatMap_right _).length_eq, List.flatMap_cons, List.length_append,
    SThreadPool.releaseQueue]
  cases htasks : s.hasTasks queue with
  | false =>
      rw [SThreadPool.hasTasks, Bool.not_eq_false', List.isEmpty_iff] at htasks
      rw [htasks, List.length_nil, Nat.zero_add]
      rfl
  | true =>
      simp only [if_true, List.flatMap_append, List.flatMap_singleton, List.length_append]
      omega

/-- A queue is given back, which leaves as much to do. -/
theorem Sound.remaining_releaseQueue (h : s.Sound)
    (hthread : s.threads[i]? = some (.locking (some queue))) :
    (s.releaseQueue i queue).remaining = s.remaining := by
  have hset := remaining_of_set (t := s.releaseQueue i queue) (p := .locking none) hthread rfl rfl
  have hlength := h.length_waitingTasks_releaseQueue (i := i)
    (h.owner_mem hthread List.mem_cons_self)
  rw [hlength] at hset
  exact Nat.add_right_cancel hset

/-- Taking the first queue pops a task. -/
theorem Sound.length_waitingTasks_takeFirst {rest : List Queue} (h : s.Sound)
    (hqueues : s.queues = queue :: rest) :
    (s.takeFirst i queue rest).waitingTasks.length + 1 = s.waitingTasks.length := by
  have hmem : queue ∈ s.queues := hqueues ▸ List.mem_cons_self
  have hperm : (rest ++ (s.takenQueues ++ [queue])).Perm (s.queues ++ s.takenQueues) := by
    rw [hqueues, ← List.append_assoc]
    exact List.perm_append_singleton ..
  have hnodup : (rest ++ (s.takenQueues ++ [queue])).Nodup :=
    hperm.nodup_iff.mpr (h.nodup.append h.takenNodup h.apart)
  have hpop := Multiplicity.length_flatMap_update (f := s.tasks) hnodup
    (hperm.mem_iff.mpr (List.mem_append_left _ hmem)) (s.tasks queue).tail
  have hpos := List.length_pos_iff.mpr (h.hasTasks queue hmem)
  rw [(hperm.flatMap_right s.tasks).length_eq, List.length_tail] at hpop
  have hafter : (s.takeFirst i queue rest).waitingTasks =
      (rest ++ (s.takenQueues ++ [queue])).flatMap
        (Function.update s.tasks queue (s.tasks queue).tail) := rfl
  rw [hafter, waitingTasks]
  omega

/-- The inner loop of `threadEntryPoint:` leaves less to do. -/
theorem Sound.remaining_takeQueue_lt (h : s.Sound) (hthread : s.threads[i]? = some thread)
    (hone : thread.remaining = 1) : (s.takeQueue i).remaining < s.remaining := by
  rw [SThreadPool.takeQueue]
  cases hqueues : s.queues with
  | nil =>
      refine remaining_lt (p := .waiting false) hthread rfl rfl ?_
      rw [hone]
      exact Nat.lt_succ_self _
  | cons queue rest =>
      have hpop := h.length_waitingTasks_takeFirst (i := i) hqueues
      show (s.takeFirst i queue rest).remaining < s.remaining
      refine remaining_lt (p := .holding queue (s.tasks queue).head?) hthread rfl rfl ?_
      rw [hone, PoolThread.remaining]
      omega

/-- A task that is added is one more that waits. -/
theorem Sound.length_waitingTasks_workOnQueue (h : s.Sound) (queue : Queue) (task : Task) :
    (s.workOnQueue queue task).waitingTasks.length = s.waitingTasks.length + 1 := by
  have hnodup : (s.queues ++ s.takenQueues).Nodup := h.nodup.append h.takenNodup h.apart
  have hafter : (s.workOnQueue queue task).waitingTasks =
      ((if queue ∉ s.queues ∧ queue ∉ s.takenQueues then s.queues ++ [queue] else s.queues) ++
        s.takenQueues).flatMap (Function.update s.tasks queue (s.tasks queue ++ [task])) := rfl
  rw [hafter, waitingTasks]
  by_cases hnew : queue ∉ s.queues ∧ queue ∉ s.takenQueues
  · have hnone : s.tasks queue = [] := not_not.mp fun hsome =>
      (h.known queue hsome).elim hnew.1 hnew.2
    have hout : queue ∉ s.queues ++ s.takenQueues := fun hmem =>
      (List.mem_append.mp hmem).elim hnew.1 hnew.2
    have hperm : (s.queues ++ [queue] ++ s.takenQueues).Perm
        (queue :: (s.queues ++ s.takenQueues)) := by
      rw [List.append_assoc]
      exact List.perm_middle
    rw [if_pos hnew, (hperm.flatMap_right _).length_eq, List.flatMap_cons, List.length_append,
      Multiplicity.flatMap_update_of_notMem hout, Function.update_self, hnone]
    exact Nat.add_comm ..
  · have hin : queue ∈ s.queues ++ s.takenQueues := by
      rw [List.mem_append]
      tauto
    have hpush := Multiplicity.length_flatMap_update (f := s.tasks) hnodup hin
      (s.tasks queue ++ [task])
    rw [List.length_append, List.length_singleton] at hpush
    rw [if_neg hnew]
    omega

omit [DecidableEq Queue] in
/-- Each thread that is woken can go on once. -/
theorem sum_remaining_wake_le (threads : List (PoolThread Queue Task)) :
    ((threads.map wake).map PoolThread.remaining).sum ≤
      (threads.map PoolThread.remaining).sum + threads.length := by
  induction threads with
  | nil => exact le_rfl
  | cons thread threads ih =>
      have hone : (wake thread).remaining ≤ thread.remaining + 1 := by
        cases thread with
        | waiting signalled => exact Nat.le_add_left 1 _
        | locking queue => exact Nat.le_succ _
        | holding queue task => exact Nat.le_succ _
        | running queue task => exact Nat.le_succ _
      simp only [List.map_cons, List.sum_cons, List.length_cons]
      omega

/-- The management queue leaves less to do. -/
theorem Sound.remaining_workOnQueue_lt {rest : List (Queue × Task)} (h : s.Sound)
    (hmanagement : s.managementQueue = (queue, task) :: rest) :
    ({ s with managementQueue := rest }.workOnQueue queue task).remaining < s.remaining := by
  have hpush := h.length_waitingTasks_workOnQueue queue task
  have hwoken := sum_remaining_wake_le s.threads
  have hless : (s.threads.length + 4) * s.managementQueue.length =
      (s.threads.length + 4) * rest.length + (s.threads.length + 4) := by
    rw [hmanagement, List.length_cons, Nat.mul_succ]
  have hafter : ({ s with managementQueue := rest }.workOnQueue queue task).remaining =
      (s.threads.length + 4) * rest.length + 3 * (s.workOnQueue queue task).waitingTasks.length +
        ((s.threads.map wake).map PoolThread.remaining).sum := by
    rw [remaining, SThreadPool.workOnQueue, List.length_map]
    rfl
  rw [hafter, remaining, hpush, hless]
  omega

/-! ### Going on -/

/-- Whether the management queue, or a thread that is not blocked, can go on with this event. -/
def Enabled (s : SThreadPool Queue Task) : PoolEvent Queue Task → Prop
  | .work => s.managementQueue ≠ []
  | .turn i => ∃ thread, s.threads[i]? = some thread ∧ thread ≠ .waiting false
  | _ => False

/-- **Where nothing can go on, nothing is left to do.** -/
theorem Sound.flow_of_not_enabled (h : s.Sound) (hawake : s.Awake 0) (hthreads : s.threads ≠ [])
    (hstop : ∀ e, ¬ s.Enabled e) (queue : Queue) : s.flow queue = s.finished queue := by
  have hmanagement : s.managementQueue = [] := not_not.mp (hstop .work)
  have hwaiting : ∀ thread ∈ s.threads, thread = .waiting false := by
    intro thread hmem
    obtain ⟨i, hi⟩ := List.mem_iff_getElem?.mp hmem
    exact not_not.mp fun hne => hstop (.turn i) ⟨thread, hi, hne⟩
  obtain ⟨first, hfirst⟩ := List.exists_mem_of_ne_nil _ hthreads
  have hqueues : s.queues = [] :=
    List.length_eq_zero_iff.mp (Nat.le_zero.mp (hawake (hwaiting first hfirst ▸ hfirst)))
  have htaken : queue ∉ s.takenQueues := by
    rw [← List.count_eq_zero, h.taken queue]
    refine List.count_eq_zero_of_not_mem fun hmem => ?_
    obtain ⟨thread, hthread, howned⟩ := List.mem_flatMap.mp hmem
    rw [hwaiting thread hthread] at howned
    exact List.not_mem_nil howned
  have htasks : s.tasks queue = [] := by
    refine not_not.mp fun hsome => (h.known queue hsome).elim (fun hmem => ?_) htaken
    rw [hqueues] at hmem
    exact List.not_mem_nil hmem
  have hhand : s.inHand queue = [] := by
    refine List.flatMap_eq_nil_iff.mpr fun thread hthread => ?_
    rw [hwaiting thread hthread]
    rfl
  rw [flow, hhand, htasks, hmanagement, List.append_nil, List.append_nil]
  exact List.append_nil _

variable [DecidableEq Task] {e : PoolEvent Queue Task}

/-- **Each step of the pool leaves less to do.** -/
theorem Sound.remaining_step_lt (h : s.Sound) (he : s.Enabled e) :
    (s.step e).remaining < s.remaining := by
  cases e with
  | addTask queue task => exact he.elim
  | cancel task => exact he.elim
  | spuriousWakeup i => exact he.elim
  | work =>
      rw [SThreadPool.step]
      split
      · next hnil => exact absurd hnil he
      · next queue task rest hmanagement => exact h.remaining_workOnQueue_lt hmanagement
  | turn i =>
      obtain ⟨thread, hthread, hne⟩ := he
      rw [SThreadPool.step, SThreadPool.threadEntryPoint, hthread]
      cases thread with
      | waiting signalled =>
          cases signalled with
          | false => exact absurd rfl hne
          | true => exact h.remaining_takeQueue_lt hthread rfl
      | locking taken =>
          cases taken with
          | none => exact h.remaining_takeQueue_lt hthread rfl
          | some queue =>
              have htake := (h.releaseQueue hthread).remaining_takeQueue_lt
                (threads_releaseQueue hthread) rfl
              exact htake.trans_eq (h.remaining_releaseQueue hthread)
      | holding queue task =>
          cases task with
          | none => exact absurd (List.mem_of_getElem? hthread) (h.full queue)
          | some task =>
              dsimp only
              split
              · exact remaining_lt (p := .locking (some queue)) hthread rfl rfl
                  (Nat.add_lt_add_left (by decide : 1 < 3) _)
              · exact remaining_lt (p := .running queue task) hthread rfl rfl
                  (Nat.add_lt_add_left (by decide : 2 < 3) _)
      | running queue task =>
          exact remaining_lt (p := .locking (some queue)) hthread rfl rfl
            (Nat.add_lt_add_left (by decide : 1 < 2) _)

/-- No thread comes or goes. -/
theorem length_threads_step (s : SThreadPool Queue Task) (e : PoolEvent Queue Task) :
    (s.step e).threads.length = s.threads.length := by
  have htake : ∀ (s : SThreadPool Queue Task) i,
      (s.takeQueue i).threads.length = s.threads.length := by
    intro s i
    rw [takeQueue]
    split
    · exact List.length_set
    · exact List.length_set
  cases e with
  | addTask queue task => rfl
  | cancel task => rfl
  | work =>
      rw [step]
      split
      · rfl
      · exact List.length_map _
  | turn i =>
      rw [step, threadEntryPoint]
      split
      · rfl
      · exact htake s i
      · exact (htake _ i).trans List.length_set
      · rfl
      · exact htake s i
      · exact List.length_set
      · split
        · exact List.length_set
        · exact List.length_set
      · exact List.length_set
  | spuriousWakeup i =>
      rw [step]
      split
      · exact List.length_set
      · rfl

/-- A pool keeps its threads. -/
theorem length_threads_run (threadCount : ℕ) (es : List (PoolEvent Queue Task)) :
    (run threadCount es).threads.length = threadCount := by
  have hstart : (initWithThreadCount threadCount : SThreadPool Queue Task).threads.length =
      threadCount := List.length_replicate
  exact (Machine.always_of_step
    (I := fun s : SThreadPool Queue Task => s.threads.length = threadCount)
    (fun s e h => (length_threads_step s e).trans h) hstart).last

/-- While the pool only goes on, no task is handed over. -/
theorem flatMap_added_of_enabled {more : List (PoolEvent Queue Task)}
    (hmore : Machine.AllSteps step Enabled s more) :
    more.flatMap (PoolEvent.added queue) = [] := by
  induction more generalizing s with
  | nil => rfl
  | cons e more ih =>
      have hnone : e.added queue = [] := by
        cases e with
        | addTask other task => exact hmore.1.elim
        | cancel task => rfl
        | work => rfl
        | turn i => rfl
        | spuriousWakeup i => rfl
      rw [List.flatMap_cons, hnone, ih hmore.2]
      rfl

/-- **All tasks are executed.** From whatever a run has come to, the management queue and the
threads can go on no more than `remaining` times in any order; and when none of them can go on, all
tasks that have been handed over for a queue are over, in their order. -/
theorem pool_drains {threadCount : ℕ} (hpos : 0 < threadCount)
    (es : List (PoolEvent Queue Task)) {more : List (PoolEvent Queue Task)}
    (hmore : Machine.AllSteps step Enabled (run threadCount es) more) :
    more.length ≤ (run threadCount es).remaining ∧
      ((∀ e, ¬ (run threadCount (es ++ more)).Enabled e) → ∀ queue,
        (run threadCount (es ++ more)).finished queue = es.flatMap (PoolEvent.added queue)) := by
  obtain ⟨hsound, -⟩ := sound_run threadCount es
  constructor
  · have hle := Machine.length_add_le_of_allSteps (I := Sound) (μ := remaining)
      (fun s e h he => ⟨h.step e, h.remaining_step_lt he⟩) hsound hmore
    omega
  · intro hstop queue
    obtain ⟨hsound, hawake⟩ := sound_run threadCount (es ++ more)
    have hthreads : (run threadCount (es ++ more)).threads ≠ [] := by
      rw [← List.length_pos_iff, length_threads_run]
      exact hpos
    rw [← hsound.flow_of_not_enabled hawake hthreads hstop queue, flow_run, List.flatMap_append,
      flatMap_added_of_enabled hmore, List.append_nil]

/-- A task on the management queue is executed in five steps, and then the thread waits. -/
theorem pool_drains_one :
    ([.work, .turn 0, .turn 0, .turn 0, .turn 0] : List (PoolEvent ℕ ℕ)).length ≤
        (run 1 [.addTask 0 7] : SThreadPool ℕ ℕ).remaining ∧
      (run 1 ([.addTask 0 7] ++ [.work, .turn 0, .turn 0, .turn 0, .turn 0]) :
        SThreadPool ℕ ℕ).finished 0 = [7] := by
  have hmore : Machine.AllSteps step Enabled (run 1 [.addTask 0 7] : SThreadPool ℕ ℕ)
      [.work, .turn 0, .turn 0, .turn 0, .turn 0] :=
    ⟨List.cons_ne_nil _ _, ⟨_, rfl, nofun⟩, ⟨_, rfl, nofun⟩, ⟨_, rfl, nofun⟩, ⟨_, rfl, nofun⟩,
      trivial⟩
  obtain ⟨hlength, hall⟩ := pool_drains Nat.one_pos [.addTask 0 7] hmore
  refine ⟨hlength, hall (fun e he => ?_) 0⟩
  cases e with
  | addTask queue task => exact he
  | cancel task => exact he
  | spuriousWakeup i => exact he
  | work => exact he rfl
  | turn i =>
      obtain ⟨thread, hthread, hne⟩ := he
      cases i with
      | zero => exact hne (Option.some.inj hthread).symm
      | succ i => cases hthread

/-! ### Taking turns -/

omit [DecidableEq Task]

/-- The tasks of a queue that a thread has popped. -/
def started (s : SThreadPool Queue Task) (queue : Queue) : List Task :=
  s.finished queue ++ s.inHand queue

/-- The queues that are taken before this one. -/
def ahead (s : SThreadPool Queue Task) (queue : Queue) : List Queue :=
  s.queues.takeWhile (· ≠ queue)

/-- How many tasks of another queue have been started, or can be before this queue is taken. -/
def turns (s : SThreadPool Queue Task) (queue other : Queue) : ℕ :=
  (s.started other).length + (s.ahead queue).count other

/-- Queues that come behind do not matter. -/
theorem takeWhile_append_of_mem {queues : List Queue} (hmem : queue ∈ queues)
    (more : List Queue) :
    (queues ++ more).takeWhile (· ≠ queue) = queues.takeWhile (· ≠ queue) := by
  induction queues with
  | nil => cases hmem
  | cons first queues ih =>
      rw [List.cons_append, List.takeWhile_cons, List.takeWhile_cons]
      by_cases heq : first = queue
      · rw [heq, if_neg (by simp), if_neg (by simp)]
      · rw [if_pos (decide_eq_true heq), if_pos (decide_eq_true heq),
          ih ((List.mem_cons.mp hmem).resolve_left (Ne.symm heq))]

/-- No task is started, and queues come behind. -/
theorem turns_of_append {t : SThreadPool Queue Task} {more : List Queue}
    (hmem : queue ∈ s.queues) (hqueues : t.queues = s.queues ++ more)
    (hstarted : t.started other = s.started other) :
    t.turns queue other = s.turns queue other := by
  rw [turns, turns, ahead, ahead, hstarted, hqueues, takeWhile_append_of_mem hmem]

/-- No task is started. -/
theorem turns_of_eq {t : SThreadPool Queue Task} (hstarted : t.started other = s.started other)
    (hqueues : t.queues = s.queues) :
    t.turns queue other = s.turns queue other := by
  rw [turns, turns, ahead, ahead, hstarted, hqueues]

/-- A thread goes to a place where it has the same in hand. -/
theorem started_goTo {p : PoolThread Queue Task} (hthread : s.threads[i]? = some thread)
    (heq : p.inHand queue = thread.inHand queue) :
    (s.goTo i p).started queue = s.started queue := by
  have hset := Multiplicity.flatMap_set_of_eq hthread heq
  rw [started, started, inHand, inHand, ← hset]
  rfl

/-- The queue that is taken stood before the others. -/
theorem Sound.turns_takeFirst_le {first : Queue} {rest : List Queue} (h : s.Sound)
    (hthread : s.threads[i]? = some thread) (hnone : thread.inHand other = [])
    (hqueues : s.queues = first :: rest) (hstays : queue ∈ rest) :
    (s.takeFirst i first rest).turns queue other ≤ s.turns queue other := by
  have hnodup := h.nodup
  rw [hqueues, List.nodup_cons] at hnodup
  have hne : first ≠ queue := fun heq => hnodup.1 (heq ▸ hstays)
  have hahead : s.ahead queue = first :: (s.takeFirst i first rest).ahead queue := by
    rw [ahead, hqueues, List.takeWhile_cons, if_pos (decide_eq_true hne)]
    rfl
  have hhand := h.inHand_takeFirst hthread hnone hqueues
  have hfinished : (s.takeFirst i first rest).finished other = s.finished other := rfl
  rw [turns, turns, started, started, hfinished, hhand, hahead, List.count_cons,
    List.length_append, List.length_append, List.length_append]
  by_cases heq : first = other
  · have hone : (s.tasks first).head?.toList.length ≤ 1 := by
      cases (s.tasks first).head? with
      | none => exact Nat.zero_le 1
      | some task => exact le_rfl
    rw [if_pos heq, if_pos (beq_iff_eq.mpr heq)]
    omega
  · rw [if_neg heq, List.length_nil]
    omega

/-- The inner loop of `threadEntryPoint:`. -/
theorem Sound.turns_takeQueue_le (h : s.Sound) (hthread : s.threads[i]? = some thread)
    (hnone : thread.inHand other = []) (hstays : queue ∈ (s.takeQueue i).queues) :
    (s.takeQueue i).turns queue other ≤ s.turns queue other := by
  rw [SThreadPool.takeQueue] at hstays ⊢
  cases hqueues : s.queues with
  | nil => exact (turns_of_eq (started_goTo (p := .waiting false) hthread hnone.symm) rfl).le
  | cons first rest =>
      rw [hqueues] at hstays
      exact h.turns_takeFirst_le hthread hnone hqueues hstays

/-- The task in hand is over. -/
theorem Sound.started_finish {queue : Queue} {ran : Bool} (h : s.Sound)
    (hthread : s.threads[i]? = some thread)
    (hin : ∀ other, thread.inHand other = ofQueue other [(queue, task)]) :
    (s.finish i queue task ran).started other = s.started other := by
  rw [started, finished_finish, List.append_assoc, h.inHand_finish hthread hin]
  rfl

variable [DecidableEq Task] {e : PoolEvent Queue Task} {es : List (PoolEvent Queue Task)}

/-- **Turns only get fewer** while a queue waits. -/
theorem Sound.turns_step_le (h : s.Sound) (hmem : queue ∈ s.queues)
    (hstays : queue ∈ (s.step e).queues) : (s.step e).turns queue other ≤ s.turns queue other := by
  cases e with
  | addTask added task => exact le_rfl
  | cancel task => exact le_rfl
  | work =>
      rw [SThreadPool.step]
      split
      · exact le_rfl
      · next added task rest _ =>
          have hstarted :
              ({ s with managementQueue := rest }.workOnQueue added task).started other =
                s.started other := by
            rw [started, inHand_workOnQueue]
            rfl
          by_cases hnew : added ∉ s.queues ∧ added ∉ s.takenQueues
          · exact (turns_of_append hmem (if_pos hnew) hstarted).le
          · exact (turns_of_eq hstarted (if_neg hnew)).le
  | turn i =>
      rw [SThreadPool.step, SThreadPool.threadEntryPoint] at hstays ⊢
      split at hstays
      · exact le_rfl
      · next hthread => exact h.turns_takeQueue_le hthread rfl hstays
      · next taken hthread =>
          have hreleased : (s.releaseQueue i taken).turns queue other = s.turns queue other := by
            have hstarted : (s.releaseQueue i taken).started other = s.started other :=
              started_goTo (p := .locking none) hthread rfl
            cases htasks : s.hasTasks taken with
            | false => exact turns_of_eq hstarted (if_neg (by simp [htasks]))
            | true => exact turns_of_append hmem (if_pos htasks) hstarted
          exact ((h.releaseQueue hthread).turns_takeQueue_le (threads_releaseQueue hthread) rfl
            hstays).trans_eq hreleased
      · exact le_rfl
      · next hthread => exact h.turns_takeQueue_le hthread rfl hstays
      · next taken hthread => exact absurd (List.mem_of_getElem? hthread) (h.full taken)
      · next taken task hthread =>
          split
          · exact (turns_of_eq (h.started_finish hthread (inHand_holding taken task)) rfl).le
          · exact (turns_of_eq (started_goTo (p := .running taken task) hthread rfl) rfl).le
      · next taken task hthread =>
          exact (turns_of_eq (h.started_finish hthread (inHand_running taken task)) rfl).le
  | spuriousWakeup i =>
      rw [SThreadPool.step]
      split
      · next hthread => exact (turns_of_eq (started_goTo (p := .waiting true) hthread rfl) rfl).le
      · exact le_rfl

/-- Turns only get fewer in a run in which a queue waits. -/
theorem Sound.turns_run_le (h : s.Sound)
    (hwaits : Machine.Always SThreadPool.step (fun s => queue ∈ s.queues) s es) :
    (Machine.run SThreadPool.step s es).turns queue other ≤ s.turns queue other := by
  induction es generalizing s with
  | nil => exact le_rfl
  | cons e es ih =>
      exact (ih (h.step e) hwaits.2).trans (h.turns_step_le hwaits.1 hwaits.2.head)

/-- **The queues take turns.** While a queue waits, however long that takes, no task of another
queue is started but of those before it, and of each of these no more than one. -/
theorem pool_fair (threadCount : ℕ) (es : List (PoolEvent Queue Task))
    {more : List (PoolEvent Queue Task)}
    (hwaits : Machine.Always step (fun s => queue ∈ s.queues) (run threadCount es) more)
    (other : Queue) :
    ((run threadCount (es ++ more)).started other).length ≤
        ((run threadCount es).started other).length +
          ((run threadCount es).ahead queue).count other ∧
      ((run threadCount es).ahead queue).count other ≤ 1 := by
  obtain ⟨hsound, -⟩ := sound_run threadCount es
  have hturns : (run threadCount (es ++ more)).turns queue other ≤
      (run threadCount es).turns queue other := by
    rw [run, Machine.run_append]
    exact hsound.turns_run_le hwaits
  refine ⟨(Nat.le_add_right _ _).trans hturns, ?_⟩
  exact List.nodup_iff_count_le_one.mp (hsound.nodup.sublist (List.takeWhile_sublist _)) other

/-- The queue `1` waits while the thread takes the queue `0`. -/
theorem pool_fair_second :
    ((run 1 ([.addTask 0 7, .addTask 1 8, .work, .work] ++ [.turn 0]) :
        SThreadPool ℕ ℕ).started 0).length ≤
      ((run 1 [.addTask 0 7, .addTask 1 8, .work, .work] : SThreadPool ℕ ℕ).started 0).length +
        ((run 1 [.addTask 0 7, .addTask 1 8, .work, .work] : SThreadPool ℕ ℕ).ahead 1).count 0 ∧
      ((run 1 [.addTask 0 7, .addTask 1 8, .work, .work] :
        SThreadPool ℕ ℕ).ahead 1).count 0 ≤ 1 := by
  have hwaits : Machine.Always step (fun s : SThreadPool ℕ ℕ => 1 ∈ s.queues)
      (run 1 [.addTask 0 7, .addTask 1 8, .work, .work]) [.turn 0] := ⟨by decide, by decide⟩
  exact pool_fair 1 [.addTask 0 7, .addTask 1 8, .work, .work] hwaits 0

end SThreadPool

end Telegraph.Signals
