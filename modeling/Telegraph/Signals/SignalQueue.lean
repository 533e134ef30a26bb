import Mathlib.Algebra.GroupWithZero.Nat
import Mathlib.Data.List.Range
import Telegraph.Lib.Machine

/-!
# The Queue of Signals

A signal of signals is flattened by starting the inner signals one after the other. A signal that
comes while another one is executing waits, in throttled mode in the place of the one that waited
before. When the head completes, the next one is started in its completion, that is, on top of
whatever has called it; the disposable of a signal is only set when `startWithNext:` has returned.

## Main results

* `queue_serial`: **one signal at a time, in order**, whatever happens.
* `queue_drains`: no signal is lost where none completes before it has been started.
* `throttled_latest`: **the latest signal is not lost** in throttled mode.
* `queue_stuck`: **a signal that completes at once stops the queue** if two wait.
-/

namespace Telegraph.Signals

/-- `SSignalQueueState`. The signals are numbered in the order in which they are enqueued. A signal
is live as long as its subscriber is not terminated, and starting until `startWithNext:` has
returned; `_currentDisposable` holds the disposable of one. The rest is a record: the signals that
have been started and those that have completed, and whether the subscriber has. -/
structure SSignalQueueState where
  queueMode : Bool
  throttleMode : Bool
  executingSignal : Bool
  terminated : Bool
  queuedSignals : List ℕ
  currentDisposable : Option ℕ
  enqueued : ℕ
  starting : List ℕ
  live : List ℕ
  started : List ℕ
  completed : List ℕ
  subscriberCompleted : Bool

/-- What can happen next: the source gives a signal, a signal completes, `startWithNext:` returns
for one, or the source completes. -/
inductive SignalEvent where
  | next
  | signalCompleted (signal : ℕ)
  | returned (signal : ℕ)
  | sourceCompleted

namespace SSignalQueueState

/-- `initWithSubscriber:queueMode:throttleMode:`. -/
def new (queueMode throttleMode : Bool) : SSignalQueueState :=
  ⟨queueMode, throttleMode, false, false, [], none, 0, [], [], [], [], false⟩

/-- `startWithNext:error:completed:` is called. -/
def startWithNext (s : SSignalQueueState) (signal : ℕ) : SSignalQueueState :=
  { s with
    starting := signal :: s.starting
    live := s.live ++ [signal]
    started := s.started ++ [signal] }

/-- `enqueueSignal:`. -/
def enqueueSignal (s : SSignalQueueState) (signal : ℕ) : SSignalQueueState :=
  if s.queueMode && s.executingSignal then
    { s with queuedSignals := (if s.throttleMode then [] else s.queuedSignals) ++ [signal] }
  else { s with executingSignal := true }.startWithNext signal

/-- `headCompleted`. -/
def headCompleted (s : SSignalQueueState) : SSignalQueueState :=
  match s.queueMode, s.queuedSignals with
  | true, nextSignal :: rest =>
      { s with queuedSignals := rest, executingSignal := true }.startWithNext nextSignal
  | _, _ =>
      { s with
        executingSignal := false
        subscriberCompleted := s.subscriberCompleted || s.terminated }

/-- `beginCompletion`. -/
def beginCompletion (s : SSignalQueueState) : SSignalQueueState :=
  { s with
    terminated := true
    subscriberCompleted := s.subscriberCompleted || !s.executingSignal }

/-- `setDisposable:` of `_currentDisposable`: the one that it held is disposed of, with which the
subscriber of its signal is terminated. -/
def setDisposable (s : SSignalQueueState) (signal : ℕ) : SSignalQueueState :=
  { s with
    currentDisposable := some signal
    live := s.live.filter (s.currentDisposable ≠ some ·) }

/-- One step. A source that has completed gives no more signals, and only a live signal
completes. -/
def step (s : SSignalQueueState) : SignalEvent → SSignalQueueState
  | .next =>
      if s.terminated then s
      else { s with enqueued := s.enqueued + 1 }.enqueueSignal s.enqueued
  | .signalCompleted signal =>
      if signal ∈ s.live then
        { s with
          live := s.live.erase signal
          completed := s.completed ++ [signal] }.headCompleted
      else s
  | .returned signal =>
      if signal ∈ s.starting then
        { s with starting := s.starting.erase signal }.setDisposable signal
      else s
  | .sourceCompleted => if s.terminated then s else s.beginCompletion

/-! ### One signal at a time -/

/-- What holds of a queue in every run. -/
structure Serial (s : SSignalQueueState) : Prop where
  mode : s.queueMode = true
  sorted : (s.started ++ s.queuedSignals).Pairwise (· < ·)
  bound : ∀ signal ∈ s.started ++ s.queuedSignals, signal < s.enqueued
  all : s.throttleMode = false → s.started ++ s.queuedSignals = List.range s.enqueued
  short : s.throttleMode = true → s.queuedSignals.length ≤ 1
  latest : ∀ n, s.enqueued = n + 1 → (s.started ++ s.queuedSignals).getLast? = some n
  idle : s.executingSignal = false → s.live = [] ∧ s.queuedSignals = []
  head : s.live = [] ∨ s.live = s.started.getLast?.toList
  ended : s.subscriberCompleted = (s.terminated && !s.executingSignal)

variable {s : SSignalQueueState} {e : SignalEvent}

theorem serial_new (throttleMode : Bool) : (new true throttleMode).Serial where
  mode := rfl
  sorted := .nil
  bound := fun _ h => absurd h List.not_mem_nil
  all := fun _ => rfl
  short := fun _ => Nat.zero_le 1
  latest := fun n h => absurd h.symm (Nat.succ_ne_zero n)
  idle := fun _ => ⟨rfl, rfl⟩
  head := .inl rfl
  ended := rfl

/-- The next signal is started. -/
theorem headCompleted_cons {signal : ℕ} {rest : List ℕ} (hmode : s.queueMode = true)
    (hqueued : s.queuedSignals = signal :: rest) :
    s.headCompleted =
      { s with queuedSignals := rest, executingSignal := true }.startWithNext signal := by
  rw [headCompleted, hmode, hqueued]

/-- No signal waits. -/
theorem headCompleted_nil (hqueued : s.queuedSignals = []) :
    s.headCompleted =
      { s with
        executingSignal := false
        subscriberCompleted := s.subscriberCompleted || s.terminated } := by
  rw [headCompleted, hqueued]
  cases s.queueMode <;> rfl

/-- A signal waits while one is executing. -/
theorem step_next_of_executing (hterminated : ¬ s.terminated = true) (hmode : s.queueMode = true)
    (hexecuting : s.executingSignal = true) :
    s.step .next = { s with
      enqueued := s.enqueued + 1
      queuedSignals := (if s.throttleMode then [] else s.queuedSignals) ++ [s.enqueued] } := by
  have hwaits : (s.queueMode && s.executingSignal) = true := by
    rw [hmode, hexecuting]
    rfl
  rw [step, if_neg hterminated, enqueueSignal]
  exact if_pos hwaits

/-- A signal is started while none is executing. -/
theorem step_next_of_idle (hterminated : ¬ s.terminated = true)
    (hidle : s.executingSignal = false) :
    s.step .next = { s with
      enqueued := s.enqueued + 1
      executingSignal := true }.startWithNext s.enqueued := by
  have hstarts : ¬ (s.queueMode && s.executingSignal) = true := by
    rw [hidle, Bool.and_false]
    exact Bool.false_ne_true
  rw [step, if_neg hterminated, enqueueSignal]
  exact if_neg hstarts

/-- The head completes and the next signal is started. -/
theorem step_signalCompleted_cons {signal nextSignal : ℕ} {rest : List ℕ} (hmem : signal ∈ s.live)
    (hmode : s.queueMode = true) (hqueued : s.queuedSignals = nextSignal :: rest) :
    s.step (.signalCompleted signal) = { s with
      live := s.live.erase signal
      completed := s.completed ++ [signal]
      queuedSignals := rest
      executingSignal := true }.startWithNext nextSignal := by
  rw [step, if_pos hmem]
  exact headCompleted_cons hmode hqueued

/-- The head completes and no signal waits. -/
theorem step_signalCompleted_nil {signal : ℕ} (hmem : signal ∈ s.live)
    (hqueued : s.queuedSignals = []) :
    s.step (.signalCompleted signal) = { s with
      live := s.live.erase signal
      completed := s.completed ++ [signal]
      executingSignal := false
      subscriberCompleted := s.subscriberCompleted || s.terminated } := by
  rw [step, if_pos hmem]
  exact headCompleted_nil hqueued

/-- The source gives a signal. -/
theorem Serial.next (h : s.Serial) : (s.step .next).Serial := by
  by_cases hterminated : s.terminated = true
  · rw [step, if_pos hterminated]
    exact h
  · have hlast : ∀ kept : List ℕ, kept.Sublist (s.started ++ s.queuedSignals) →
        (kept ++ [s.enqueued]).Pairwise (· < ·) ∧
          ∀ signal ∈ kept ++ [s.enqueued], signal < s.enqueued + 1 := by
      intro kept hkept
      have hbound : ∀ signal ∈ kept, signal < s.enqueued := fun signal hmem =>
        h.bound signal (hkept.subset hmem)
      refine ⟨List.pairwise_append.mpr ⟨h.sorted.sublist hkept, List.pairwise_singleton .., ?_⟩, ?_⟩
      · intro signal hmem other hother
        rw [List.mem_singleton.mp hother]
        exact hbound signal hmem
      · intro signal hmem
        rcases List.mem_append.mp hmem with hmem | hmem
        · exact Nat.lt_succ_of_lt (hbound signal hmem)
        · rw [List.mem_singleton.mp hmem]
          exact Nat.lt_succ_self _
    by_cases hexecuting : s.executingSignal = true
    · rw [step_next_of_executing hterminated h.mode hexecuting]
      obtain ⟨hsorted, hbound⟩ := hlast
        (s.started ++ if s.throttleMode then [] else s.queuedSignals) <| by
          refine (List.append_sublist_append_left _).mpr ?_
          split
          · exact List.nil_sublist _
          · exact List.Sublist.refl _
      rw [List.append_assoc] at hsorted hbound
      refine ⟨h.mode, hsorted, hbound, fun hall => ?_, fun hshort => ?_, fun n hn => ?_,
        fun hidle => ?_, h.head, ?_⟩
      · have hbefore := h.all hall
        have hall' : s.throttleMode = false := hall
        show s.started ++ ((if s.throttleMode then [] else s.queuedSignals) ++ [s.enqueued]) =
          List.range (s.enqueued + 1)
        rw [hall', List.range_succ, ← hbefore, List.append_assoc]
        rfl
      · have hshort' : s.throttleMode = true := hshort
        show ((if s.throttleMode then [] else s.queuedSignals) ++ [s.enqueued]).length ≤ 1
        rw [hshort']
        exact le_rfl
      · obtain rfl : s.enqueued = n := Nat.succ.inj hn
        show (s.started ++ (_ ++ [s.enqueued])).getLast? = some s.enqueued
        rw [← List.append_assoc, List.getLast?_concat]
      · exact absurd (hexecuting.symm.trans hidle) Bool.noConfusion
      · exact h.ended.trans (by rw [hexecuting])
    · have hfree : s.executingSignal = false := eq_false_of_ne_true hexecuting
      obtain ⟨hlive, hqueued⟩ := h.idle hfree
      rw [step_next_of_idle hterminated hfree]
      obtain ⟨hsorted, hbound⟩ := hlast s.started (List.sublist_append_left _ _)
      have hsame : s.started ++ [s.enqueued] ++ s.queuedSignals = s.started ++ [s.enqueued] := by
        rw [hqueued, List.append_nil]
      refine ⟨h.mode, hsame ▸ hsorted, hsame ▸ hbound, fun hall => ?_, h.short, fun n hn => ?_,
        fun hidle => absurd hidle Bool.noConfusion, .inr ?_, ?_⟩
      · have hbefore := h.all hall
        rw [hqueued, List.append_nil] at hbefore
        show s.started ++ [s.enqueued] ++ s.queuedSignals = List.range (s.enqueued + 1)
        rw [hsame, hbefore, List.range_succ]
      · obtain rfl : s.enqueued = n := Nat.succ.inj hn
        show (s.started ++ [s.enqueued] ++ s.queuedSignals).getLast? = some s.enqueued
        rw [hsame, List.getLast?_concat]
      · show s.live ++ [s.enqueued] = (s.started ++ [s.enqueued]).getLast?.toList
        rw [hlive, List.getLast?_concat]
        rfl
      · have hover := h.ended
        rw [eq_false_of_ne_true hterminated] at hover
        exact hover.trans (by rw [eq_false_of_ne_true hterminated]; rfl)

/-- Only the head is live. -/
theorem Serial.live_eq {signal : ℕ} (h : s.Serial) (hmem : signal ∈ s.live) :
    s.live = [signal] := by
  rcases h.head with hnil | hhead
  · rw [hnil] at hmem
    exact absurd hmem List.not_mem_nil
  · rw [hhead, Option.mem_toList] at hmem
    rw [hhead, hmem]
    rfl

/-- When the head has completed, none is live. -/
theorem Serial.erase_live {signal : ℕ} (h : s.Serial) (hmem : signal ∈ s.live) :
    s.live.erase signal = [] := by
  rw [h.live_eq hmem, List.erase_cons_head]

/-- A live signal is executing, and the subscriber has not completed. -/
theorem Serial.of_live {signal : ℕ} (h : s.Serial) (hmem : signal ∈ s.live) :
    s.executingSignal = true ∧ s.subscriberCompleted = false := by
  have hexecuting : s.executingSignal = true := by
    by_contra hidle
    rw [(h.idle (eq_false_of_ne_true hidle)).1] at hmem
    exact List.not_mem_nil hmem
  exact ⟨hexecuting, by rw [h.ended, hexecuting, Bool.not_true, Bool.and_false]⟩

/-- The head completes. -/
theorem Serial.signalCompleted (h : s.Serial) (signal : ℕ) :
    (s.step (.signalCompleted signal)).Serial := by
  by_cases hmem : signal ∈ s.live
  · have hlive := h.erase_live hmem
    obtain ⟨-, hover⟩ := h.of_live hmem
    by_cases hqueued : s.queuedSignals = []
    · rw [step_signalCompleted_nil hmem hqueued]
      refine ⟨h.mode, h.sorted, h.bound, h.all, h.short, h.latest, fun _ => ⟨hlive, hqueued⟩,
        .inl hlive, ?_⟩
      show (s.subscriberCompleted || s.terminated) = (s.terminated && !false)
      rw [hover, Bool.false_or, Bool.not_false, Bool.and_true]
    · obtain ⟨nextSignal, rest, hqueued⟩ := List.exists_cons_of_ne_nil hqueued
      have hsame : s.started ++ [nextSignal] ++ rest = s.started ++ s.queuedSignals := by
        rw [hqueued, List.append_assoc, List.singleton_append]
      rw [step_signalCompleted_cons hmem h.mode hqueued]
      refine ⟨h.mode, hsame ▸ h.sorted, hsame ▸ h.bound, fun hall => hsame.trans (h.all hall),
        fun hshort => ?_, fun n hn => ?_, fun hidle => absurd hidle Bool.noConfusion,
        .inr ?_, ?_⟩
      · have hone := h.short hshort
        rw [hqueued, List.length_cons] at hone
        exact Nat.le_of_succ_le hone
      · exact (congrArg List.getLast? hsame).trans (h.latest n hn)
      · show s.live.erase signal ++ [nextSignal] =
          (s.started ++ [nextSignal]).getLast?.toList
        rw [hlive, List.getLast?_concat]
        rfl
      · show s.subscriberCompleted = (s.terminated && !true)
        rw [hover, Bool.not_true, Bool.and_false]
  · rw [step, if_neg hmem]
    exact h

/-- A step leaves one signal at a time. -/
theorem Serial.step (h : s.Serial) (e : SignalEvent) : (s.step e).Serial := by
  cases e with
  | next => exact h.next
  | signalCompleted signal => exact h.signalCompleted signal
  | returned signal =>
      rw [SSignalQueueState.step]
      split
      · refine ⟨h.mode, h.sorted, h.bound, h.all, h.short, h.latest, fun hidle => ?_, ?_, h.ended⟩
        · obtain ⟨hlive, hqueued⟩ := h.idle hidle
          refine ⟨?_, hqueued⟩
          show s.live.filter _ = []
          rw [hlive, List.filter_nil]
        · show s.live.filter _ = [] ∨ s.live.filter _ = s.started.getLast?.toList
          rcases h.head with hlive | hlive
          · exact .inl (by rw [hlive, List.filter_nil])
          · rw [hlive]
            cases s.started.getLast? with
            | none => exact .inl rfl
            | some head => exact List.sublist_singleton.mp List.filter_sublist
      · exact h
  | sourceCompleted =>
      rw [SSignalQueueState.step]
      split
      · exact h
      · next hterminated =>
          refine ⟨h.mode, h.sorted, h.bound, h.all, h.short, h.latest, h.idle, h.head, ?_⟩
          show (s.subscriberCompleted || !s.executingSignal) = (true && !s.executingSignal)
          rw [h.ended, eq_false_of_ne_true hterminated]
          rfl

/-- The queue after some events. -/
abbrev run (queueMode throttleMode : Bool) (es : List SignalEvent) : SSignalQueueState :=
  Machine.run step (new queueMode throttleMode) es

/-- The mode stays. -/
theorem throttleMode_run (queueMode throttleMode : Bool) (es : List SignalEvent) :
    (run queueMode throttleMode es).throttleMode = throttleMode := by
  refine (Machine.always_of_step (I := fun s : SSignalQueueState => s.throttleMode = throttleMode)
    (fun s e h => ?_) rfl).last
  cases e with
  | next =>
      rw [SSignalQueueState.step, enqueueSignal]
      split
      · exact h
      · split
        · exact h
        · exact h
  | signalCompleted signal =>
      rw [SSignalQueueState.step, headCompleted]
      split
      · split
        · exact h
        · exact h
      · exact h
  | returned signal =>
      rw [SSignalQueueState.step]
      split
      · exact h
      · exact h
  | sourceCompleted =>
      rw [SSignalQueueState.step]
      split
      · exact h
      · exact h

theorem serial_run (throttleMode : Bool) (es : List SignalEvent) :
    (run true throttleMode es).Serial :=
  (Machine.always_of_step (I := Serial) (fun _ e h => h.step e) (serial_new throttleMode)).last

/-- **One signal at a time, in order.** In every run of `queue`, whatever completes when, the
signals that have been started and those that wait are all that have been enqueued, in their order;
no two are live at a time; and the subscriber has completed exactly if the source has and no
signal is executing. -/
theorem queue_serial (es : List SignalEvent) :
    (run true false es).started ++ (run true false es).queuedSignals =
        List.range (run true false es).enqueued ∧
      (run true false es).live.length ≤ 1 ∧
      ((run true false es).subscriberCompleted = true ↔
        (run true false es).terminated = true ∧ (run true false es).executingSignal = false) := by
  have hserial := serial_run false es
  refine ⟨hserial.all (throttleMode_run true false es), ?_, ?_⟩
  · rcases hserial.head with hlive | hlive
    · rw [hlive]
      exact Nat.zero_le 1
    · rw [hlive]
      cases (run true false es).started.getLast? with
      | none => exact Nat.zero_le 1
      | some signal => exact le_rfl
  · rw [hserial.ended, Bool.and_eq_true, Bool.not_eq_true']

/-- **The latest signal is not lost.** In every run of `throttled` the signals that have been
started and the one that waits are in order, and the last of them is the last that has been
enqueued. -/
theorem throttled_latest (es : List SignalEvent) :
    ((run true true es).started ++ (run true true es).queuedSignals).Pairwise (· < ·) ∧
      (run true true es).queuedSignals.length ≤ 1 ∧
      ∀ n, (run true true es).enqueued = n + 1 →
        ((run true true es).started ++ (run true true es).queuedSignals).getLast? = some n :=
  have hserial := serial_run true es
  ⟨hserial.sorted, hserial.short (throttleMode_run true true es), hserial.latest⟩

/-! ### Signals that complete later -/

/-- No signal completes before `startWithNext:` has returned for it. -/
def CompletesLater (s : SSignalQueueState) : SignalEvent → Prop
  | .signalCompleted signal => signal ∉ s.starting
  | _ => True

/-- What holds where signals complete later: none is disposed of before it has completed. -/
structure Prompt (s : SSignalQueueState) : Prop where
  serial : s.Serial
  kept : s.completed ++ s.live = s.started
  busy : s.executingSignal = true → s.live ≠ []
  starting : s.starting = [] ∨ s.starting = s.live
  current : ∀ signal, s.currentDisposable = some signal →
    signal ∈ s.started ∧ signal ∉ s.starting

theorem prompt_new (throttleMode : Bool) : (new true throttleMode).Prompt where
  serial := serial_new throttleMode
  kept := rfl
  busy := fun h => Bool.noConfusion h
  starting := .inl rfl
  current := fun _ h => by cases h

/-- A signal is started that has not been before. -/
theorem Prompt.startWithNext {t : SSignalQueueState} {signal : ℕ}
    (hserial : (t.startWithNext signal).Serial) (hkept : t.completed = t.started)
    (hlive : t.live = []) (hstarting : t.starting = [])
    (hcurrent : ∀ signal, t.currentDisposable = some signal → signal ∈ t.started) :
    (t.startWithNext signal).Prompt := by
  have hnew : signal ∉ t.started := by
    have hsorted := (List.pairwise_append.mp hserial.sorted).1
    intro hmem
    have hlt := (List.pairwise_append.mp hsorted).2.2 signal hmem signal List.mem_cons_self
    exact Nat.lt_irrefl _ hlt
  refine ⟨hserial, ?_, fun _ => ?_, .inr ?_, fun other hother => ?_⟩
  · show t.completed ++ (t.live ++ [signal]) = t.started ++ [signal]
    rw [hlive, hkept, List.nil_append]
  · exact List.append_ne_nil_of_right_ne_nil _ (List.cons_ne_nil _ _)
  · show signal :: t.starting = t.live ++ [signal]
    rw [hlive, hstarting, List.nil_append]
  · have hmem := hcurrent other hother
    refine ⟨List.mem_append_left _ hmem, fun hin => ?_⟩
    rcases List.mem_cons.mp hin with heq | hin
    · exact hnew (heq ▸ hmem)
    · rw [hstarting] at hin
      exact List.not_mem_nil hin

/-- Where signals complete later, a step disposes of none that has not completed. -/
theorem Prompt.step (h : s.Prompt) (he : s.CompletesLater e) : (s.step e).Prompt := by
  have hserial := h.serial.step e
  cases e with
  | next =>
      by_cases hterminated : s.terminated = true
      · rw [SSignalQueueState.step, if_pos hterminated]
        exact h
      · by_cases hexecuting : s.executingSignal = true
        · rw [step_next_of_executing hterminated h.serial.mode hexecuting] at hserial ⊢
          exact ⟨hserial, h.kept, fun _ => h.busy hexecuting, h.starting, h.current⟩
        · have hfree : s.executingSignal = false := eq_false_of_ne_true hexecuting
          obtain ⟨hlive, -⟩ := h.serial.idle hfree
          have hkept := h.kept
          have hstarting := h.starting
          rw [hlive, List.append_nil] at hkept
          rw [hlive, or_self] at hstarting
          rw [step_next_of_idle hterminated hfree] at hserial ⊢
          exact Prompt.startWithNext hserial hkept hlive hstarting fun signal hsignal =>
            (h.current signal hsignal).1
  | signalCompleted signal =>
      by_cases hmem : signal ∈ s.live
      · have hone := h.serial.live_eq hmem
        have hlive := h.serial.erase_live hmem
        have hstarting : s.starting = [] := h.starting.resolve_right fun heq =>
          he (heq ▸ hmem)
        have hkept : s.completed ++ [signal] = s.started := by
          rw [← hone]
          exact h.kept
        by_cases hqueued : s.queuedSignals = []
        · rw [step_signalCompleted_nil hmem hqueued] at hserial ⊢
          refine ⟨hserial, ?_, fun hbusy => Bool.noConfusion hbusy, .inl hstarting, h.current⟩
          show s.completed ++ [signal] ++ s.live.erase signal = s.started
          rw [hlive, List.append_nil, hkept]
        · obtain ⟨nextSignal, rest, hqueued⟩ := List.exists_cons_of_ne_nil hqueued
          rw [step_signalCompleted_cons hmem h.serial.mode hqueued] at hserial ⊢
          exact Prompt.startWithNext hserial hkept hlive hstarting fun other hother =>
            (h.current other hother).1
      · rw [SSignalQueueState.step, if_neg hmem]
        exact h
  | returned signal =>
      rw [SSignalQueueState.step] at hserial ⊢
      split at hserial
      · next hmem =>
          have hstarting : s.starting = s.live := h.starting.resolve_left fun heq =>
            List.not_mem_nil (heq ▸ hmem)
          have hone := h.serial.live_eq (hstarting ▸ hmem)
          have hkeep : s.live.filter (s.currentDisposable ≠ some ·) = s.live := by
            rw [List.filter_eq_self]
            intro other hother
            rw [decide_eq_true_eq]
            intro heq
            exact (h.current other heq).2 (hstarting ▸ hother)
          have hreturned : s.starting.erase signal = [] := by
            rw [hstarting, hone, List.erase_cons_head]
          have hin : signal ∈ s.started := by
            rw [← h.kept, hone]
            exact List.mem_append_right _ List.mem_cons_self
          rw [if_pos hmem]
          refine ⟨hserial, ?_, fun hbusy => ?_, .inl hreturned, fun other hother => ?_⟩
          · show s.completed ++ s.live.filter _ = s.started
            rw [hkeep, h.kept]
          · show s.live.filter _ ≠ []
            rw [hkeep]
            exact h.busy hbusy
          · obtain rfl : signal = other := Option.some.inj hother
            refine ⟨hin, ?_⟩
            show signal ∉ s.starting.erase signal
            rw [hreturned]
            exact List.not_mem_nil
      · next hmem => rwa [if_neg hmem]
  | sourceCompleted =>
      rw [SSignalQueueState.step] at hserial ⊢
      split at hserial
      · next hterminated => rwa [if_pos hterminated]
      · next hterminated =>
          rw [if_neg hterminated]
          exact ⟨hserial, h.kept, h.busy, h.starting, h.current⟩

/-- **No signal is lost** where none completes before `startWithNext:` has returned for it: all that
have been enqueued have completed, are live or wait, in their order; when none is live, none waits,
and the subscriber has completed if the source has. -/
theorem queue_drains {es : List SignalEvent}
    (hlater : Machine.AllSteps step CompletesLater (new true false) es) :
    (run true false es).completed ++ (run true false es).live ++
        (run true false es).queuedSignals = List.range (run true false es).enqueued ∧
      ((run true false es).live = [] →
        (run true false es).completed = List.range (run true false es).enqueued ∧
        (run true false es).subscriberCompleted = (run true false es).terminated) := by
  have hprompt : (run true false es).Prompt :=
    (Machine.always_of_allSteps (fun _ e h he => h.step he) (prompt_new false) hlater).last
  have hall := hprompt.serial.all (throttleMode_run true false es)
  refine ⟨by rw [hprompt.kept, hall], fun hlive => ?_⟩
  have hidle : (run true false es).executingSignal = false := by
    by_contra hbusy
    exact hprompt.busy (eq_true_of_ne_false hbusy) hlive
  obtain ⟨-, hqueued⟩ := hprompt.serial.idle hidle
  have hkept := hprompt.kept
  rw [hlive, List.append_nil] at hkept
  rw [hqueued, List.append_nil] at hall
  refine ⟨hkept.trans hall, ?_⟩
  rw [hprompt.serial.ended, hidle, Bool.not_false, Bool.and_true]

/-- Two signals, the second of which waits for the first. -/
theorem queue_drains_two :
    (run true false [.next, .next, .returned 0, .signalCompleted 0, .returned 1,
          .sourceCompleted, .signalCompleted 1]).completed ++
        (run true false [.next, .next, .returned 0, .signalCompleted 0, .returned 1,
          .sourceCompleted, .signalCompleted 1]).live ++
        (run true false [.next, .next, .returned 0, .signalCompleted 0, .returned 1,
          .sourceCompleted, .signalCompleted 1]).queuedSignals = List.range 2 ∧
      (run true false [.next, .next, .returned 0, .signalCompleted 0, .returned 1,
        .sourceCompleted, .signalCompleted 1]).subscriberCompleted = true := by
  obtain ⟨hall, hover⟩ := @queue_drains [.next, .next, .returned 0, .signalCompleted 0,
    .returned 1, .sourceCompleted, .signalCompleted 1]
    ⟨trivial, trivial, trivial, List.not_mem_nil, trivial, trivial, List.not_mem_nil, trivial⟩
  exact ⟨hall, (hover rfl).2⟩

/-! ### Signals that complete at once -/

/-- The head has been disposed of, so that it never completes. -/
structure Stuck (s : SSignalQueueState) : Prop where
  mode : s.queueMode = true
  executing : s.executingSignal = true
  live : s.live = []

/-- A queue whose head has been disposed of starts nothing, whatever happens. -/
theorem Stuck.step (h : s.Stuck) (e : SignalEvent) :
    (s.step e).Stuck ∧ (s.step e).started = s.started ∧
      (s.step e).subscriberCompleted = s.subscriberCompleted := by
  cases e with
  | next =>
      by_cases hterminated : s.terminated = true
      · rw [SSignalQueueState.step, if_pos hterminated]
        exact ⟨h, rfl, rfl⟩
      · rw [step_next_of_executing hterminated h.mode h.executing]
        exact ⟨⟨h.mode, h.executing, h.live⟩, rfl, rfl⟩
  | signalCompleted signal =>
      have hdead : signal ∉ s.live := by
        rw [h.live]
        exact List.not_mem_nil
      rw [SSignalQueueState.step, if_neg hdead]
      exact ⟨h, rfl, rfl⟩
  | returned signal =>
      rw [SSignalQueueState.step]
      split
      · refine ⟨⟨h.mode, h.executing, ?_⟩, rfl, rfl⟩
        show s.live.filter _ = []
        rw [h.live, List.filter_nil]
      · exact ⟨h, rfl, rfl⟩
  | sourceCompleted =>
      rw [SSignalQueueState.step]
      split
      · exact ⟨h, rfl, rfl⟩
      · refine ⟨⟨h.mode, h.executing, h.live⟩, rfl, ?_⟩
        show (s.subscriberCompleted || !s.executingSignal) = s.subscriberCompleted
        rw [h.executing, Bool.not_true, Bool.or_false]

/-- A queue whose head has been disposed of never goes on. -/
theorem stuck_run (h : s.Stuck) (es : List SignalEvent) :
    (Machine.run step s es).started = s.started ∧
      (Machine.run step s es).subscriberCompleted = s.subscriberCompleted := by
  induction es generalizing s with
  | nil => exact ⟨rfl, rfl⟩
  | cons e es ih =>
      obtain ⟨hstuck, hstarted, hcompleted⟩ := h.step e
      obtain ⟨hstarted', hcompleted'⟩ := ih hstuck
      exact ⟨hstarted'.trans hstarted, hcompleted'.trans hcompleted⟩

/-- What the completion of the head leaves, when a signal waits. -/
theorem Serial.step_head {signal nextSignal : ℕ} {rest : List ℕ} (h : s.Serial)
    (hlive : s.live = [signal]) (hqueued : s.queuedSignals = nextSignal :: rest) :
    (s.step (.signalCompleted signal)).live = [nextSignal] ∧
      (s.step (.signalCompleted signal)).queuedSignals = rest ∧
      (s.step (.signalCompleted signal)).starting = nextSignal :: s.starting ∧
      (s.step (.signalCompleted signal)).started = s.started ++ [nextSignal] := by
  have hmem : signal ∈ s.live := by
    rw [hlive]
    exact List.mem_cons_self
  rw [step_signalCompleted_cons hmem h.mode hqueued]
  refine ⟨?_, rfl, rfl, rfl⟩
  show s.live.erase signal ++ [nextSignal] = [nextSignal]
  rw [h.erase_live hmem, List.nil_append]

/-- The head completes, and so does the next signal while it is started; the third, which is started
in the completion of the second, is started before `startWithNext:` returns for the second. -/
def completesAtOnce (signal second third : ℕ) : List SignalEvent :=
  [.signalCompleted signal, .signalCompleted second, .returned third, .returned second]

/-- The third signal is disposed of when the second one has been started. -/
theorem Serial.stuck {signal second third : ℕ} {rest : List ℕ} (h : s.Serial)
    (hlive : s.live = [signal]) (hqueued : s.queuedSignals = second :: third :: rest) :
    (Machine.run SSignalQueueState.step s (completesAtOnce signal second third)).Stuck ∧
      (Machine.run SSignalQueueState.step s (completesAtOnce signal second third)).started =
        s.started ++ [second, third] ∧
      (Machine.run SSignalQueueState.step s
        (completesAtOnce signal second third)).subscriberCompleted = false := by
  obtain ⟨hlive₁, hqueued₁, hstarting₁, hstarted₁⟩ := h.step_head hlive hqueued
  have hserial₁ := h.step (.signalCompleted signal)
  obtain ⟨hlive₂, -, hstarting₂, hstarted₂⟩ := hserial₁.step_head hlive₁ hqueued₁
  have hserial₂ := hserial₁.step (.signalCompleted second)
  obtain ⟨hexecuting, hcompleted⟩ := hserial₂.of_live (hlive₂ ▸ List.mem_cons_self)
  rw [hstarting₁] at hstarting₂
  rw [hstarted₁, List.append_assoc] at hstarted₂
  rw [completesAtOnce, Machine.run_cons, Machine.run_cons, Machine.run_cons, Machine.run_cons,
    Machine.run_nil]
  generalize (s.step (.signalCompleted signal)).step (.signalCompleted second) = t at *
  have hthird : third ∈ t.starting := by
    rw [hstarting₂]
    exact List.mem_cons_self
  have hsecond : second ∈ t.starting.erase third := by
    rw [hstarting₂, List.erase_cons_head]
    exact List.mem_cons_self
  have hreturned : t.step (.returned third) =
      { t with starting := t.starting.erase third }.setDisposable third := if_pos hthird
  have hlast : (t.step (.returned third)).step (.returned second) =
      { t with
        starting := (t.starting.erase third).erase second
        currentDisposable := some second
        live := (t.live.filter (t.currentDisposable ≠ some ·)).filter
          (some third ≠ some ·) } := by
    rw [hreturned]
    exact if_pos hsecond
  rw [hlast]
  refine ⟨⟨hserial₂.mode, hexecuting, ?_⟩, hstarted₂, hcompleted⟩
  show (t.live.filter _).filter (some third ≠ some ·) = []
  rw [List.filter_eq_nil_iff]
  intro other hother
  have heq := (List.mem_filter.mp hother).1
  rw [hlive₂, List.mem_singleton] at heq
  rw [heq, decide_eq_true_eq, not_not]

/-- **A signal that completes at once stops the queue.** When, behind a live signal, one waits that
completes before `startWithNext:` has returned for it and another one waits behind that, the second
is disposed of as soon as it has been started: none of the others is started in any run from there
on, and the subscriber never completes. -/
theorem queue_stuck {es : List SignalEvent} {signal second third : ℕ} {rest : List ℕ}
    (hlive : (run true false es).live = [signal])
    (hqueued : (run true false es).queuedSignals = second :: third :: rest)
    (more : List SignalEvent) :
    (Machine.run step (run true false es)
        (completesAtOnce signal second third ++ more)).started =
        (run true false es).started ++ [second, third] ∧
      (Machine.run step (run true false es)
        (completesAtOnce signal second third ++ more)).subscriberCompleted = false := by
  obtain ⟨hstuck, hstarted, hcompleted⟩ := (serial_run false es).stuck hlive hqueued
  obtain ⟨hstarted', hcompleted'⟩ := stuck_run hstuck more
  rw [Machine.run_append]
  exact ⟨hstarted'.trans hstarted, hcompleted'.trans hcompleted⟩

/-- Four signals, the second of which completes at once; the fourth is never started. -/
theorem queue_stuck_fourth :
    (Machine.run step (run true false [.next, .next, .next, .next, .returned 0])
        (completesAtOnce 0 1 2 ++ [.signalCompleted 2, .sourceCompleted])).started =
        [0] ++ [1, 2] ∧
      (Machine.run step (run true false [.next, .next, .next, .next, .returned 0])
        (completesAtOnce 0 1 2 ++
          [.signalCompleted 2, .sourceCompleted])).subscriberCompleted = false :=
  @queue_stuck [.next, .next, .next, .next, .returned 0] 0 1 2 [3] rfl rfl
    [.signalCompleted 2, .sourceCompleted]

end SSignalQueueState

end Telegraph.Signals
