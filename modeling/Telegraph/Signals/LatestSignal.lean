import Telegraph.Signals.SignalQueue

/-!
# The Latest Signal

`switchToLatest` flattens a signal of signals without a queue: a new signal is started at once, and
the one before it is disposed of when `startWithNext:` has returned for the new one. Until then both
are live.

## Main results

* `latest_only`: **only the latest signal goes on**, where one is started at a time.
* `latest_completes`: **the subscriber completes with the latest signal**, where no other one
  completes.
* `completes_early`: **a signal that completes while it is replaced** lets the subscriber complete
  before the latest one.
-/

namespace Telegraph.Signals.SSignalQueueState

variable {s : SSignalQueueState} {e : SignalEvent} {m n signal : ℕ}

/-- The source gives no signal while `startWithNext:` has not returned for the one before. -/
def OneByOne (s : SSignalQueueState) : SignalEvent → Prop
  | .next => s.starting = []
  | _ => True

/-- No signal completes but the latest. -/
def OnlyLatest (s : SSignalQueueState) : SignalEvent → Prop
  | .signalCompleted signal => signal ∈ s.live → signal + 1 = s.enqueued
  | _ => True

/-- The latest signal has been started, and the others have been disposed of. -/
structure Settled (s : SSignalQueueState) : Prop where
  starting : s.starting = []
  current : ∀ signal, s.currentDisposable = some signal ↔ signal + 1 = s.enqueued
  live : ∀ signal ∈ s.live, signal + 1 = s.enqueued

/-- The latest signal is being started, and the one before it may still be live. -/
structure Replacing (s : SSignalQueueState) (n : ℕ) : Prop where
  starting : s.starting = [n]
  enqueued : s.enqueued = n + 1
  current : ∀ signal, s.currentDisposable = some signal ↔ signal + 1 = n
  live : ∀ signal ∈ s.live, n ≤ signal + 1

/-- What holds of `switchToLatest` where one signal is started at a time. -/
structure Latest (s : SSignalQueueState) : Prop where
  mode : s.queueMode = false
  started : s.started = List.range s.enqueued
  bound : ∀ signal ∈ s.live ++ s.completed, signal < s.enqueued
  kept : ∀ n, s.enqueued = n + 1 → n ∈ s.live ++ s.completed
  recent : s.Settled ∨ ∃ n, s.Replacing n

/-! ### Steps -/

/-- A signal is started at once. -/
theorem step_next_of_switching (hterminated : ¬ s.terminated = true) (hmode : s.queueMode = false) :
    s.step .next = { s with
      enqueued := s.enqueued + 1
      executingSignal := true }.startWithNext s.enqueued := by
  have hstarts : ¬ (s.queueMode && s.executingSignal) = true := by
    rw [hmode, Bool.false_and]
    exact Bool.false_ne_true
  rw [step, if_neg hterminated, enqueueSignal]
  exact if_neg hstarts

/-- A signal completes, and no other one is started. -/
theorem step_signalCompleted_of_switching (hmem : signal ∈ s.live) (hmode : s.queueMode = false) :
    s.step (.signalCompleted signal) = { s with
      live := s.live.erase signal
      completed := s.completed ++ [signal]
      executingSignal := false
      subscriberCompleted := s.subscriberCompleted || s.terminated } := by
  rw [step, if_pos hmem, headCompleted]
  dsimp only
  rw [hmode]

/-- `startWithNext:` has returned for the signal that is being started. -/
theorem Replacing.step_returned (h : s.Replacing n) :
    s.step (.returned n) = { s with
      starting := []
      currentDisposable := some n
      live := s.live.filter (s.currentDisposable ≠ some ·) } := by
  have hmem : n ∈ s.starting := by
    rw [h.starting]
    exact List.mem_cons_self
  rw [step, if_pos hmem, h.starting, List.erase_cons_head]
  rfl

/-- The signal that is being started is not disposed of. -/
theorem Replacing.mem_filter (h : s.Replacing n) :
    signal ∈ s.live.filter (s.currentDisposable ≠ some ·) ↔ signal ∈ s.live ∧ signal + 1 ≠ n := by
  rw [List.mem_filter, decide_eq_true_eq, ne_eq, h.current]

theorem latest_new : (new false false).Latest where
  mode := rfl
  started := rfl
  bound := fun _ h => absurd h List.not_mem_nil
  kept := fun _ h => absurd h.symm (Nat.succ_ne_zero _)
  recent := .inl ⟨rfl, fun _ => ⟨fun h => (nomatch h), fun h => (nomatch h)⟩,
    fun _ h => absurd h List.not_mem_nil⟩

/-- The source gives a signal. -/
theorem Latest.next (h : s.Latest) (hstarting : s.starting = []) : (s.step .next).Latest := by
  by_cases hterminated : s.terminated = true
  · rw [step, if_pos hterminated]
    exact h
  · rcases h.recent with hsettled | ⟨n, hreplacing⟩
    · rw [step_next_of_switching hterminated h.mode]
      refine ⟨h.mode, ?_, fun signal hmem => ?_, fun n hn => ?_,
        .inr ⟨s.enqueued, ?_, rfl, hsettled.current, fun signal hmem => ?_⟩⟩
      · show s.started ++ [s.enqueued] = List.range (s.enqueued + 1)
        rw [h.started, List.range_succ]
      · have hmem : signal ∈ s.live ++ [s.enqueued] ++ s.completed := hmem
        show signal < s.enqueued + 1
        rcases List.mem_append.mp hmem with hmem | hmem
        · rcases List.mem_append.mp hmem with hmem | hmem
          · exact Nat.lt_succ_of_lt (h.bound signal (List.mem_append_left _ hmem))
          · rw [List.mem_singleton.mp hmem]
            exact Nat.lt_succ_self _
        · exact Nat.lt_succ_of_lt (h.bound signal (List.mem_append_right _ hmem))
      · obtain rfl : s.enqueued = n := Nat.succ.inj hn
        exact List.mem_append_left _ (List.mem_append_right _ List.mem_cons_self)
      · show s.enqueued :: s.starting = [s.enqueued]
        rw [hstarting]
      · rcases List.mem_append.mp hmem with hmem | hmem
        · exact (hsettled.live signal hmem).ge
        · rw [List.mem_singleton.mp hmem]
          exact Nat.le_succ _
    · rw [hreplacing.starting] at hstarting
      exact absurd hstarting (List.cons_ne_nil _ _)

/-- A signal completes. -/
theorem Latest.signalCompleted (h : s.Latest) (signal : ℕ) :
    (s.step (.signalCompleted signal)).Latest := by
  by_cases hmem : signal ∈ s.live
  · have hperm : (s.live.erase signal ++ (s.completed ++ [signal])).Perm
        (s.live ++ s.completed) := by
      rw [← List.append_assoc]
      refine (List.perm_append_singleton ..).trans ?_
      exact (List.perm_cons_erase hmem).symm.append_right s.completed
    rw [step_signalCompleted_of_switching hmem h.mode]
    refine ⟨h.mode, h.started, fun other hother => h.bound other (hperm.mem_iff.mp hother),
      fun n hn => hperm.mem_iff.mpr (h.kept n hn), ?_⟩
    rcases h.recent with hsettled | ⟨n, hreplacing⟩
    · exact .inl ⟨hsettled.starting, hsettled.current, fun other hother =>
        hsettled.live other (List.mem_of_mem_erase hother)⟩
    · exact .inr ⟨n, hreplacing.starting, hreplacing.enqueued, hreplacing.current,
        fun other hother => hreplacing.live other (List.mem_of_mem_erase hother)⟩
  · rw [step, if_neg hmem]
    exact h

/-- `startWithNext:` has returned. -/
theorem Latest.returned (h : s.Latest) (signal : ℕ) : (s.step (.returned signal)).Latest := by
  by_cases hmem : signal ∈ s.starting
  · rcases h.recent with hsettled | ⟨n, hreplacing⟩
    · rw [hsettled.starting] at hmem
      exact absurd hmem List.not_mem_nil
    · rw [hreplacing.starting, List.mem_singleton] at hmem
      subst hmem
      rw [hreplacing.step_returned]
      refine ⟨h.mode, h.started, fun other hother => h.bound other ?_, fun n hn => ?_, .inl ?_⟩
      · exact (List.filter_sublist.append_right _).subset hother
      · have hlatest : n = signal := Nat.succ.inj (hn.symm.trans hreplacing.enqueued)
        rcases List.mem_append.mp (h.kept n hn) with hlive | hcompleted
        · refine List.mem_append_left _ (hreplacing.mem_filter.mpr ⟨hlive, ?_⟩)
          omega
        · exact List.mem_append_right _ hcompleted
      · refine ⟨rfl, fun other => ?_, fun other hother => ?_⟩
        · show some signal = some other ↔ other + 1 = s.enqueued
          rw [hreplacing.enqueued, Option.some.injEq, Nat.add_right_cancel_iff, eq_comm]
        · obtain ⟨hlive, hne⟩ := hreplacing.mem_filter.mp hother
          have hlt := h.bound other (List.mem_append_left _ hlive)
          have hle := hreplacing.live other hlive
          have henqueued := hreplacing.enqueued
          show other + 1 = s.enqueued
          omega
  · rw [step, if_neg hmem]
    exact h

/-- A step leaves the latest signal where it is. -/
theorem Latest.step (h : s.Latest) (he : s.OneByOne e) : (s.step e).Latest := by
  cases e with
  | next => exact h.next he
  | signalCompleted signal => exact h.signalCompleted signal
  | returned signal => exact h.returned signal
  | sourceCompleted =>
      rw [SSignalQueueState.step]
      split
      · exact h
      · refine ⟨h.mode, h.started, h.bound, h.kept, ?_⟩
        rcases h.recent with hsettled | ⟨n, hreplacing⟩
        · exact .inl ⟨hsettled.starting, hsettled.current, hsettled.live⟩
        · exact .inr ⟨n, hreplacing.starting, hreplacing.enqueued, hreplacing.current,
            hreplacing.live⟩

/-! ### Runs -/

theorem latest_run {es : List SignalEvent}
    (hone : Machine.AllSteps step OneByOne (new false false) es) : (run false false es).Latest :=
  (Machine.always_of_allSteps (fun _ _ h he => h.step he) latest_new hone).last

/-- **Only the latest signal goes on.** In every run of `switchToLatest` in which one signal is
started at a time, whatever completes when, all signals are started as they come; the latest is live
or has completed; and besides it none is live but the one before it, and that only while the latest
is being started. -/
theorem latest_only {es : List SignalEvent}
    (hone : Machine.AllSteps step OneByOne (new false false) es) :
    (run false false es).started = List.range (run false false es).enqueued ∧
      (∀ n, (run false false es).enqueued = n + 1 →
        n ∈ (run false false es).live ∨ n ∈ (run false false es).completed) ∧
      ∀ signal ∈ (run false false es).live, signal + 1 = (run false false es).enqueued ∨
        signal + 2 = (run false false es).enqueued ∧ (run false false es).starting ≠ [] := by
  have hlatest := latest_run hone
  refine ⟨hlatest.started, fun n hn => List.mem_append.mp (hlatest.kept n hn),
    fun signal hmem => ?_⟩
  rcases hlatest.recent with hsettled | ⟨n, hreplacing⟩
  · exact .inl (hsettled.live signal hmem)
  · have hlt := hlatest.bound signal (List.mem_append_left _ hmem)
    have hle := hreplacing.live signal hmem
    have henqueued := hreplacing.enqueued
    have hstarting : (run false false es).starting ≠ [] := by
      rw [hreplacing.starting]
      exact List.cons_ne_nil _ _
    by_cases heq : signal + 1 = (run false false es).enqueued
    · exact .inl heq
    · exact .inr ⟨by omega, hstarting⟩

/-- Two signals are live while the second one is being started. -/
theorem latest_only_two :
    [0, 1] = List.range 2 ∧
      (∀ n, 2 = n + 1 → n ∈ (run false false [.next, .returned 0, .next]).live ∨
        n ∈ (run false false [.next, .returned 0, .next]).completed) ∧
      ∀ signal ∈ [0, 1], signal + 1 = 2 ∨
        signal + 2 = 2 ∧ (run false false [.next, .returned 0, .next]).starting ≠ [] :=
  @latest_only [.next, .returned 0, .next] ⟨rfl, trivial, rfl, trivial⟩

/-- What holds where no signal completes but the latest. -/
structure Closing (s : SSignalQueueState) : Prop where
  latest : s.Latest
  idle : s.executingSignal = false ↔ ∀ n, s.enqueued = n + 1 → n ∈ s.completed
  ended : s.subscriberCompleted = (s.terminated && !s.executingSignal)

/-- A step leaves the subscriber as it is until the latest signal has completed. -/
theorem Closing.step (h : s.Closing) (he : s.OneByOne e ∧ s.OnlyLatest e) :
    (s.step e).Closing := by
  have hlatest := h.latest.step he.1
  cases e with
  | next =>
      by_cases hterminated : s.terminated = true
      · rw [SSignalQueueState.step, if_pos hterminated]
        exact h
      · rw [step_next_of_switching hterminated h.latest.mode] at hlatest ⊢
        refine ⟨hlatest, ⟨fun hidle => Bool.noConfusion hidle, fun hall => ?_⟩, ?_⟩
        · have hlt := h.latest.bound _ (List.mem_append_right _ (hall s.enqueued rfl))
          exact absurd hlt (Nat.lt_irrefl _)
        · refine h.ended.trans ?_
          rw [eq_false_of_ne_true hterminated, Bool.false_and]
          exact (Bool.and_false _).symm
  | signalCompleted signal =>
      by_cases hmem : signal ∈ s.live
      · rw [step_signalCompleted_of_switching hmem h.latest.mode] at hlatest ⊢
        refine ⟨hlatest, ⟨fun _ n hn => ?_, fun _ => rfl⟩, ?_⟩
        · obtain rfl : signal = n := Nat.succ.inj ((he.2 hmem).trans hn)
          exact List.mem_append_right _ List.mem_cons_self
        · show (s.subscriberCompleted || s.terminated) = (s.terminated && !false)
          rw [h.ended]
          cases s.terminated
          · rfl
          · exact Bool.or_true _
      · rw [SSignalQueueState.step, if_neg hmem]
        exact h
  | returned signal =>
      rw [SSignalQueueState.step] at hlatest ⊢
      split at hlatest
      · next hmem =>
          rw [if_pos hmem]
          exact ⟨hlatest, h.idle, h.ended⟩
      · next hmem => rwa [if_neg hmem]
  | sourceCompleted =>
      rw [SSignalQueueState.step] at hlatest ⊢
      split at hlatest
      · next hterminated => rwa [if_pos hterminated]
      · next hterminated =>
          rw [if_neg hterminated]
          refine ⟨hlatest, h.idle, ?_⟩
          show (s.subscriberCompleted || !s.executingSignal) = (true && !s.executingSignal)
          rw [h.ended, eq_false_of_ne_true hterminated]
          rfl

/-- **The subscriber completes with the latest signal.** In every run of `switchToLatest` in which
one signal is started at a time and none completes but the latest, the subscriber has completed
exactly if the source has and so has the latest signal, if there is one. -/
theorem latest_completes {es : List SignalEvent}
    (hone : Machine.AllSteps step (fun s e => s.OneByOne e ∧ s.OnlyLatest e) (new false false) es) :
    (run false false es).subscriberCompleted = true ↔
      (run false false es).terminated = true ∧
        ∀ n, (run false false es).enqueued = n + 1 → n ∈ (run false false es).completed := by
  have hstart : (new false false).Closing :=
    ⟨latest_new, ⟨fun _ _ hn => absurd hn.symm (Nat.succ_ne_zero _), fun _ => rfl⟩, rfl⟩
  have hclosing : (run false false es).Closing :=
    (Machine.always_of_allSteps (fun _ _ h he => h.step he) hstart hone).last
  rw [hclosing.ended, Bool.and_eq_true, Bool.not_eq_true', hclosing.idle]

/-- The first signal is replaced by the second one, which completes after the source. -/
theorem latest_completes_two :
    (run false false [.next, .returned 0, .next, .returned 1, .sourceCompleted,
        .signalCompleted 1]).subscriberCompleted = true ↔
      true = true ∧ ∀ n, 2 = n + 1 → n ∈ [1] :=
  @latest_completes [.next, .returned 0, .next, .returned 1, .sourceCompleted, .signalCompleted 1]
    ⟨⟨rfl, trivial⟩, ⟨trivial, trivial⟩, ⟨rfl, trivial⟩, ⟨trivial, trivial⟩, ⟨trivial, trivial⟩,
      ⟨trivial, fun _ => rfl⟩, trivial⟩

/-- **A signal that completes while it is replaced.** When the signal before the latest completes
while `startWithNext:` has not returned for the latest, the subscriber completes as soon as the
source does, though the latest signal is live and not disposed of. -/
theorem completes_early {es : List SignalEvent}
    (hone : Machine.AllSteps step OneByOne (new false false) es)
    (hgoing : (run false false es).terminated = false)
    (hstarting : (run false false es).starting = [n]) (hlatest : n ∈ (run false false es).live)
    (hlive : m ∈ (run false false es).live) (hne : m ≠ n) :
    (run false false
        (es ++ [.signalCompleted m, .returned n, .sourceCompleted])).subscriberCompleted = true ∧
      n ∈ (run false false (es ++ [.signalCompleted m, .returned n, .sourceCompleted])).live := by
  have hbefore := latest_run hone
  have hrun : run false false (es ++ [.signalCompleted m, .returned n, .sourceCompleted]) =
      (((run false false es).step (.signalCompleted m)).step (.returned n)).step
        .sourceCompleted := Machine.run_append ..
  rw [hrun]
  generalize run false false es = s at *
  have hcompleted := hbefore.signalCompleted m
  rw [step_signalCompleted_of_switching hlive hbefore.mode] at hcompleted ⊢
  have hstay : n ∈ s.live.erase m := (List.mem_erase_of_ne (Ne.symm hne)).mpr hlatest
  rcases hcompleted.recent with hsettled | ⟨latest, hreplacing⟩
  · exact absurd (hstarting.symm.trans hsettled.starting) (List.cons_ne_nil _ _)
  · obtain rfl : n = latest := List.singleton_inj.mp (hstarting.symm.trans hreplacing.starting)
    rw [hreplacing.step_returned, step, if_neg (by rw [hgoing]; exact Bool.false_ne_true)]
    refine ⟨Bool.or_true _, ?_⟩
    exact hreplacing.mem_filter.mpr ⟨hstay, Nat.succ_ne_self n⟩

/-- The first signal completes while the second one is being started. -/
theorem completes_early_first :
    (run false false ([.next, .returned 0, .next] ++
        [.signalCompleted 0, .returned 1, .sourceCompleted])).subscriberCompleted = true ∧
      1 ∈ (run false false ([.next, .returned 0, .next] ++
        [.signalCompleted 0, .returned 1, .sourceCompleted])).live :=
  @completes_early 0 1 [.next, .returned 0, .next] ⟨rfl, trivial, rfl, trivial⟩ rfl rfl
    (by decide) (by decide) (by decide)

end Telegraph.Signals.SSignalQueueState
