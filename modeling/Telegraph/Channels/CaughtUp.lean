import Telegraph.Channels.ChannelSync

/-!
# When No Poll Is Running

A batch that leaves a gap asks for a poll, and polls go on until the server says that there is no
more. So a channel that is not polling has got to every number that it has seen.

## Main results

* `not_failed_le`: a batch that does not fail comes to the numbers of its updates.
* `channel_caughtUp`: **a channel that is not polling is up to date**.
-/

namespace Telegraph.Channels

variable {Body : Type} {peerId : ℤ} {sort : List (PtsUpdate Body) → List (PtsUpdate Body)}
  {log : List (PtsUpdate Body)} {own : Set ℤ} {skip : List ℤ}

/-! ### What a batch comes to -/

/-- Rounds do not go back, and one that does not fail comes to the number of its update. -/
theorem le_foldl (skip : List ℤ) (updates : List (PtsUpdate Body)) (c : CollectedUpdates Body) :
    c.updatedPts ≤ (updates.foldl (collectUpdate skip) c).updatedPts ∧
      ((updates.foldl (collectUpdate skip) c).failed = false → c.failed = false ∧
        ∀ update ∈ updates,
          update.pts ≤ (updates.foldl (collectUpdate skip) c).updatedPts) := by
  induction updates generalizing c with
  | nil => exact ⟨le_rfl, fun h => ⟨h, fun _ hmem => absurd hmem List.not_mem_nil⟩⟩
  | cons update updates ih =>
      obtain ⟨hle, hrest⟩ := ih (collectUpdate skip c update)
      have hround := updatedPts_collectUpdate skip c update
      have hfailed := failed_collectUpdate skip c update
      rw [List.foldl_cons]
      constructor
      · rw [hround] at hle
        split at hle
        · next hnext => omega
        · exact hle
      · intro hnot
        obtain ⟨hnotRound, hall⟩ := hrest hnot
        rw [hnotRound] at hfailed
        obtain ⟨hnotFailed, hnogap⟩ := not_or.mp fun h => Bool.false_ne_true (hfailed.mpr h)
        refine ⟨Bool.eq_false_iff.mpr hnotFailed, fun other hother => ?_⟩
        rcases List.mem_cons.mp hother with rfl | hother
        · rw [hround] at hle
          split at hle
          · exact hle
          · next hnext =>
            by_contra hlt
            exact hnogap ⟨by omega, fun heq => hnext ⟨by omega, heq⟩⟩
        · exact hall other hother

/-- **A batch that does not fail** comes to the numbers of its updates. -/
theorem not_failed_le (hsort : Sorts sort) {pts : ℤ} {updates : List (ChannelUpdate Body)}
    {executing : List ℤ} (h : (collectUpdates sort pts updates executing).failed = false) :
    ∀ update ∈ ptsUpdates updates,
      update.pts ≤ (collectUpdates sort pts updates executing).updatedPts := by
  intro update hmem
  exact ((le_foldl _ (sort (ptsUpdates updates)) _).2 h).2 update
    ((hsort.perm _).mem_iff.mpr hmem)

/-! ### Runs that are watched -/

/-- A channel together with the updates that it has seen. -/
structure Watched (Body : Type) where
  state : ManagedChannelState Body
  seen : List (PtsUpdate Body)

/-- The updates of the batch that is written. -/
def seenIn (s : ManagedChannelState Body) : ChannelEvent Body → List (PtsUpdate Body)
  | .applied place _ => s.applying[place]?.elim [] fun batch => ptsUpdates batch.updates
  | .addUpdates _ => []
  | .poll => []
  | .difference _ => []

/-- One event. -/
def Watched.step (peerId : ℤ) (sort : List (PtsUpdate Body) → List (PtsUpdate Body))
    (w : Watched Body) (event : ChannelEvent Body) : Watched Body :=
  ⟨w.state.step peerId sort event, w.seen ++ seenIn w.state event⟩

/-- The last answer to a poll: the server has nothing behind its number that has been seen. -/
def UpToDate (w : Watched Body) : ChannelEvent Body → Prop
  | .difference .empty => ∀ pts, w.state.polling = some pts → ∀ update ∈ w.seen, update.pts ≤ pts
  | .difference (.channelDifference next (some _) _ _) => ∀ update ∈ w.seen, update.pts ≤ next
  | _ => True

/-- What holds in every run. -/
structure CaughtUp (log : List (PtsUpdate Body)) (own : Set ℤ) (w : Watched Body) : Prop where
  inStep : InStep log own w.state
  seen : w.state.polling = none → ∀ update ∈ w.seen, update.pts ≤ w.state.store.pts

section Watching

variable {w : Watched Body} {s : ManagedChannelState Body}

theorem polling_poll (s : ManagedChannelState Body) : s.poll.polling ≠ none := by
  rw [ManagedChannelState.poll]
  split
  · next pts hpolling =>
    intro hnone
    cases hpolling.symm.trans hnone
  · exact Option.some_ne_none _

/-- When the last poll is over, all that has been seen must be there. -/
theorem seen_pollCompleted {seen : List (PtsUpdate Body)}
    (h : ∀ update ∈ seen, update.pts ≤ s.store.pts) :
    ∀ update ∈ seen, update.pts ≤ s.pollCompleted.store.pts := by
  rw [ManagedChannelState.pollCompleted]
  split
  · exact h
  · exact h

/-- One event. -/
theorem CaughtUp.step (hlog : IsLog peerId log) (hsort : Sorts sort) (h : CaughtUp log own w)
    {event : ChannelEvent Body} (hhonest : Honest log own w.state event)
    (honTime : OnTime w.state event) (hupToDate : UpToDate w event) :
    CaughtUp log own (w.step peerId sort event) := by
  refine ⟨h.inStep.step hlog hsort hhonest honTime, ?_⟩
  cases event with
  | addUpdates updates =>
      rw [Watched.step, seenIn, List.append_nil]
      exact h.seen
  | applied place executing =>
      rw [Watched.step, seenIn, ManagedChannelState.step]
      cases hbatch : w.state.applying[place]? with
      | none =>
          rw [Option.elim_none, List.append_nil]
          exact h.seen
      | some batch =>
          have hhonestBatch := h.inStep.applying batch (List.mem_of_getElem? hbatch)
          obtain ⟨hpts, -⟩ := honTime batch hbatch
          have hcollected := collected_collectUpdates hlog hsort hhonestBatch.logged batch.pts
            executing
          dsimp only
          rw [Option.elim_some, ManagedChannelState.applyUpdates]
          rw [hpts] at hcollected ⊢
          have hstored := pts_writeUpdates peerId hlog h.inStep.stored.aligned hcollected
            hhonestBatch.logged
          split
          · exact fun hnone => absurd hnone (polling_poll _)
          · next hnot =>
            intro hnone update hmem
            dsimp only
            rw [hstored]
            rcases List.mem_append.mp hmem with hbefore | hnew
            · exact (h.seen hnone update hbefore).trans hcollected.le
            · exact not_failed_le hsort (Bool.eq_false_iff.mpr hnot) update hnew
  | poll =>
      rw [Watched.step, seenIn, List.append_nil]
      exact fun hnone => absurd hnone (polling_poll _)
  | difference result =>
      rw [Watched.step, seenIn, List.append_nil, ManagedChannelState.step]
      dsimp only
      split
      · exact h.seen
      · next pts hpolling =>
        cases result with
        | empty =>
            obtain rfl : pts = w.state.store.pts := honTime pts hpolling
            exact fun _ => seen_pollCompleted (hupToDate _ hpolling)
        | channelDifference next timeout newMessages otherUpdates =>
            have hanswers := hhonest pts hpolling
            have hstored := pts_writeDifference hlog hanswers.aligned w.state.store newMessages
              otherUpdates
            rw [ManagedChannelState.difference]
            cases timeout with
            | none => exact fun hnone => absurd hnone (Option.some_ne_none _)
            | some timeout =>
                refine fun _ => seen_pollCompleted fun update hmem => ?_
                dsimp only
                rw [hstored]
                exact hupToDate update hmem

/-- **A channel that is not polling is up to date**: it has got to every number that it has seen,
and is what the log makes up to there. -/
theorem channel_caughtUp (hlog : IsLog peerId log) (hsort : Sorts sort) {store : ChannelStore Body}
    (hstore : Exact log own store) {events : List (ChannelEvent Body)}
    (hevents : Machine.AllSteps (Watched.step peerId sort)
      (fun w event => Honest log own w.state event ∧ OnTime w.state event ∧ UpToDate w event)
      ⟨.start store, []⟩ events) :
    let w := Machine.run (Watched.step peerId sort) ⟨.start store, []⟩ events
    w.state.polling = none →
      Exact log own w.state.store ∧ ∀ update ∈ w.seen, update.pts ≤ w.state.store.pts := by
  intro w hpolling
  have hstart : CaughtUp log own ⟨ManagedChannelState.start store, []⟩ :=
    ⟨⟨hstore, fun batch hbatch => absurd hbatch List.not_mem_nil⟩,
      fun _ update hmem => absurd hmem List.not_mem_nil⟩
  have hrun : CaughtUp log own w :=
    (Machine.always_of_allSteps
      (fun _ _ h hevent => h.step hlog hsort hevent.1 hevent.2.1 hevent.2.2) hstart hevents).last
  exact ⟨hrun.inStep.stored, hrun.seen hpolling⟩

/-- The gap is closed when the poll is over. -/
theorem channel_caughtUp_gapClosed :
    let w := Machine.run (Watched.step (-5) sortByPts) ⟨.start noMessages, []⟩ gapClosed
    Exact twoMessages ∅ w.state.store ∧
      ∀ update ∈ w.seen, update.pts ≤ w.state.store.pts := by
  refine channel_caughtUp isLog_twoMessages sorts_sortByPts ⟨.inl rfl, fun _ _ => rfl⟩ ?_ rfl
  obtain ⟨⟨hhonest, honTime⟩, ⟨hhonest', honTime'⟩, ⟨hhonest'', honTime''⟩, -⟩ := onTime_gapClosed
  refine ⟨⟨hhonest, honTime, trivial⟩, ⟨hhonest', honTime', trivial⟩,
    ⟨hhonest'', honTime'', ?_⟩, trivial⟩
  intro update hmem
  rw [List.mem_singleton.mp hmem]

end Watching

end Telegraph.Channels
