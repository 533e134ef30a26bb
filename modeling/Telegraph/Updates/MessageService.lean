import Telegraph.Lib.Machine
import Telegraph.Updates.UpdateGroups

/-!
# The Queue of the Update Service

`TGUpdateMessageService` gathers the messages with updates in `_messagesToProcess` and has
them processed by a block that it dispatches to its own queue. A block carries the session
token of its dispatch and gives up when the token has changed. While the connection is not
ready the updates are held, and no block is dispatched.

All callbacks run on the queue of the service, and so do the blocks. A run interleaves them
in any order; that the blocks themselves run in the order of their dispatch is not needed
below. The session token is not bounded.

## Main results

* `noLostWakeUp`: **what keeps a block scheduled while messages wait**, exactly.
* `blocks_process`: blocks that are scheduled for the current session leave no message.
* `accounted_run`: messages are processed in their order, none of them twice, and none is
  dropped unless the session changes.
-/

namespace Telegraph.Updates

open Machine

/-- `TGUpdateMessageService`. `blocks` are the session tokens of the blocks on its queue;
`processed` are the calls of `processMessages:` so far. -/
structure UpdateMessageService where
  sessionToken : ℤ
  holdUpdates : Bool
  scheduledMessageProcessing : Bool
  messagesToProcess : List UpdatesBody
  isNetworkAvailable : Bool
  isConnected : Bool
  isUpdatingConnectionContext : Bool
  isPerformingServiceTasks : Bool
  blocks : List ℤ
  processed : List (List UpdatesBody)

/-- What the service is called with. A message whose body is not a `TLUpdates` has none
here. -/
inductive ServiceEvent where
  | networkAvailabilityChanged (isNetworkAvailable : Bool)
  | connectionStateChanged (isConnected : Bool)
  | connectionContextUpdateStateChanged (isUpdatingConnectionContext : Bool)
  | serviceTasksStateChanged (isPerformingServiceTasks : Bool)
  | didChangeSession
  | serverDidChangeSession
  | receivedMessage (body : Option UpdatesBody)
  /-- A dispatched block runs, the one with `i` blocks before it. -/
  | block (i : ℕ)

namespace UpdateMessageService

/-- A new service. -/
def init : UpdateMessageService :=
  ⟨0, false, false, [], false, false, false, false, [], []⟩

/-- `reset:`. The request for the state of the server is left out. -/
def reset (s : UpdateMessageService) (clearMessages : Bool) : UpdateMessageService :=
  let s := { s with sessionToken := s.sessionToken + 1, holdUpdates := false }
  if clearMessages then { s with scheduledMessageProcessing := false, messagesToProcess := [] }
  else s

/-- `addMessageToQueueAndScheduleProcessing:`. -/
def addMessageToQueueAndScheduleProcessing (s : UpdateMessageService)
    (message : Option UpdatesBody) : UpdateMessageService :=
  let s := { s with messagesToProcess := s.messagesToProcess ++ message.toList }
  if !s.scheduledMessageProcessing && !s.holdUpdates then
    { s with scheduledMessageProcessing := true, blocks := s.blocks ++ [s.sessionToken] }
  else s

/-- The block dispatched with the token `currentSessionToken`. -/
def runBlock (s : UpdateMessageService) (currentSessionToken : ℤ) : UpdateMessageService :=
  let s := { s with scheduledMessageProcessing := false }
  if currentSessionToken ≠ s.sessionToken then s
  else { s with messagesToProcess := [], processed := s.processed ++ [s.messagesToProcess] }

/-- `updateHoldUpdates`. -/
def updateHoldUpdates (s : UpdateMessageService) : UpdateMessageService :=
  let holdUpdates :=
    !s.isConnected || s.isUpdatingConnectionContext || s.isPerformingServiceTasks
  if s.holdUpdates ≠ holdUpdates then
    let s := { s with holdUpdates := holdUpdates }
    if !s.holdUpdates then
      { s with scheduledMessageProcessing := false }.addMessageToQueueAndScheduleProcessing none
    else s
  else s

/-- A step of the service. -/
def step (s : UpdateMessageService) : ServiceEvent → UpdateMessageService
  | .networkAvailabilityChanged isNetworkAvailable =>
      { s with isNetworkAvailable := isNetworkAvailable }.updateHoldUpdates
  | .connectionStateChanged isConnected =>
      { s with isConnected := isConnected }.updateHoldUpdates
  | .connectionContextUpdateStateChanged isUpdatingConnectionContext =>
      { s with isUpdatingConnectionContext := isUpdatingConnectionContext }.updateHoldUpdates
  | .serviceTasksStateChanged isPerformingServiceTasks =>
      { s with isPerformingServiceTasks := isPerformingServiceTasks }.updateHoldUpdates
  | .didChangeSession => s.reset true
  | .serverDidChangeSession => s.reset false
  | .receivedMessage (some body) => s.addMessageToQueueAndScheduleProcessing (some body)
  | .receivedMessage none => s
  | .block i =>
      match s.blocks[i]? with
      | some currentSessionToken =>
          { s with blocks := s.blocks.eraseIdx i }.runBlock currentSessionToken
      | none => s

end UpdateMessageService

/-! ### What keeps a block scheduled -/

/-- While messages wait and are not held, a block of the current session is scheduled. -/
def WokenUp (s : UpdateMessageService) : Prop :=
  s.messagesToProcess ≠ [] → s.holdUpdates = false → s.sessionToken ∈ s.blocks

instance : DecidablePred WokenUp := fun s =>
  inferInstanceAs (Decidable (s.messagesToProcess ≠ [] → s.holdUpdates = false →
    s.sessionToken ∈ s.blocks))

/-- The condition on a step: a reset that keeps the messages finds none, and no message comes
while the flag stands for a block of an earlier session. -/
def KeepsWakeUp (s : UpdateMessageService) : ServiceEvent → Prop
  | .serverDidChangeSession => s.messagesToProcess = []
  | .receivedMessage (some _) =>
      s.holdUpdates = false → s.scheduledMessageProcessing = true → s.sessionToken ∈ s.blocks
  | _ => True

instance (s : UpdateMessageService) (e : ServiceEvent) : Decidable (KeepsWakeUp s e) := by
  cases e with
  | receivedMessage body =>
      cases body with
      | some body =>
          exact inferInstanceAs (Decidable (s.holdUpdates = false →
            s.scheduledMessageProcessing = true → s.sessionToken ∈ s.blocks))
      | none => exact inferInstanceAs (Decidable True)
  | serverDidChangeSession => exact inferInstanceAs (Decidable (s.messagesToProcess = []))
  | networkAvailabilityChanged _ => exact inferInstanceAs (Decidable True)
  | connectionStateChanged _ => exact inferInstanceAs (Decidable True)
  | connectionContextUpdateStateChanged _ => exact inferInstanceAs (Decidable True)
  | serviceTasksStateChanged _ => exact inferInstanceAs (Decidable True)
  | didChangeSession => exact inferInstanceAs (Decidable True)
  | block _ => exact inferInstanceAs (Decidable True)

/-- The tokens of scheduled blocks are those of this session or of earlier ones. -/
def TokensPast (s : UpdateMessageService) : Prop :=
  ∀ token ∈ s.blocks, token ≤ s.sessionToken

namespace UpdateMessageService

variable {s : UpdateMessageService}

/-- Adding a message leaves a block of the session when the flag stands for one. -/
theorem wokenUp_addMessage (message : Option UpdatesBody)
    (h : s.holdUpdates = false → s.scheduledMessageProcessing = true →
      s.sessionToken ∈ s.blocks) :
    WokenUp (s.addMessageToQueueAndScheduleProcessing message) := by
  intro _ hhold
  simp only [addMessageToQueueAndScheduleProcessing] at hhold ⊢
  split at hhold
  case isTrue hfree =>
    rw [if_pos hfree]
    exact List.mem_append_right _ List.mem_cons_self
  case isFalse hfree =>
    rw [if_neg hfree]
    refine h hhold ?_
    simpa only [show s.holdUpdates = false from hhold, Bool.not_false, Bool.and_true,
      Bool.not_eq_true', Bool.not_eq_false] using hfree

/-- A change of what holds the updates keeps a block scheduled. -/
theorem wokenUp_updateHoldUpdates (h : WokenUp s) : WokenUp s.updateHoldUpdates := by
  simp only [updateHoldUpdates]
  split
  case isTrue =>
    split
    case isTrue =>
      refine wokenUp_addMessage none fun _ hscheduled => ?_
      cases hscheduled
    case isFalse hhold =>
      intro _ hfree
      exact absurd (congrArg Bool.not hfree) hhold
  case isFalse => exact h

/-- A block that runs leaves a block of the session, or no message. -/
theorem wokenUp_block (i : ℕ) (h : WokenUp s) : WokenUp (s.step (.block i)) := by
  simp only [step]
  split
  case h_1 token hget =>
    simp only [runBlock]
    split
    case isTrue hstale =>
      intro hwaiting hhold
      obtain ⟨j, hj⟩ := List.mem_iff_getElem?.mp (h hwaiting hhold)
      refine List.mem_eraseIdx_iff_getElem?.mpr ⟨j, ?_, hj⟩
      rintro rfl
      exact hstale (Option.some.inj (hget.symm.trans hj))
    case isFalse => exact fun hwaiting => absurd rfl hwaiting
  case h_2 => exact h

/-- **A step that meets the condition keeps a block scheduled.** -/
theorem wokenUp_step (e : ServiceEvent) (h : WokenUp s) (hcond : KeepsWakeUp s e) :
    WokenUp (s.step e) := by
  cases e with
  | networkAvailabilityChanged b => exact wokenUp_updateHoldUpdates h
  | connectionStateChanged b => exact wokenUp_updateHoldUpdates h
  | connectionContextUpdateStateChanged b => exact wokenUp_updateHoldUpdates h
  | serviceTasksStateChanged b => exact wokenUp_updateHoldUpdates h
  | didChangeSession => exact fun hwaiting => absurd rfl hwaiting
  | serverDidChangeSession => exact fun hwaiting => absurd hcond hwaiting
  | receivedMessage body =>
      cases body with
      | some body => exact wokenUp_addMessage (some body) hcond
      | none => exact h
  | block i => exact wokenUp_block i h

/-- Adding a message schedules a block of this session, if any. -/
theorem tokensPast_addMessage (message : Option UpdatesBody) (h : TokensPast s) :
    TokensPast (s.addMessageToQueueAndScheduleProcessing message) := by
  simp only [addMessageToQueueAndScheduleProcessing]
  split
  · intro token htoken
    rcases List.mem_append.mp htoken with htoken | htoken
    · exact h token htoken
    · exact le_of_eq (List.mem_singleton.mp htoken)
  · exact h

/-- So does a change of what holds the updates. -/
theorem tokensPast_updateHoldUpdates (h : TokensPast s) : TokensPast s.updateHoldUpdates := by
  simp only [updateHoldUpdates]
  split
  · split
    · exact tokensPast_addMessage none h
    · exact h
  · exact h

/-- A reset leaves only earlier tokens. -/
theorem tokenLast_reset (clearMessages : Bool) (h : TokensPast s) :
    ∀ token ∈ (s.reset clearMessages).blocks, token < (s.reset clearMessages).sessionToken := by
  intro token htoken
  cases clearMessages
  all_goals exact Int.lt_add_one_of_le (h token htoken)

/-- No step schedules a block of a session to come. -/
theorem tokensPast_step (e : ServiceEvent) (h : TokensPast s) : TokensPast (s.step e) := by
  cases e with
  | networkAvailabilityChanged b => exact tokensPast_updateHoldUpdates h
  | connectionStateChanged b => exact tokensPast_updateHoldUpdates h
  | connectionContextUpdateStateChanged b => exact tokensPast_updateHoldUpdates h
  | serviceTasksStateChanged b => exact tokensPast_updateHoldUpdates h
  | didChangeSession => exact fun token htoken => (tokenLast_reset true h token htoken).le
  | serverDidChangeSession => exact fun token htoken => (tokenLast_reset false h token htoken).le
  | receivedMessage body =>
      cases body with
      | some body => exact tokensPast_addMessage (some body) h
      | none => exact h
  | block i =>
      simp only [step]
      split
      · simp only [runBlock]
        split
        all_goals exact fun token htoken => h token (List.mem_of_mem_eraseIdx htoken)
      · exact h

/-- A step that keeps a block scheduled has met the condition. -/
theorem keepsWakeUp_of_wokenUp (e : ServiceEvent) (hpast : TokensPast s)
    (h : WokenUp (s.step e)) : KeepsWakeUp s e := by
  cases e with
  | serverDidChangeSession =>
      by_contra hwaiting
      exact (tokenLast_reset false hpast _ (h hwaiting rfl)).false
  | receivedMessage body =>
      cases body with
      | some body =>
          intro hhold hscheduled
          have hstep : s.step (.receivedMessage (some body)) =
              { s with messagesToProcess := s.messagesToProcess ++ [body] } := by
            simp only [step, addMessageToQueueAndScheduleProcessing, hscheduled, Bool.not_true,
              Bool.false_and, Bool.false_eq_true, if_false, Option.toList_some]
          rw [hstep] at h
          exact h (List.append_ne_nil_of_right_ne_nil _ (List.cons_ne_nil _ _)) hhold
      | none => trivial
  | networkAvailabilityChanged _ => trivial
  | connectionStateChanged _ => trivial
  | connectionContextUpdateStateChanged _ => trivial
  | serviceTasksStateChanged _ => trivial
  | didChangeSession => trivial
  | block _ => trivial

/-! ### Blocks that run -/

/-- The blocks on the queue run, one after another. -/
def drain (s : UpdateMessageService) : UpdateMessageService :=
  run step s (List.replicate s.blocks.length (.block 0))

/-- The first block of the queue. -/
theorem step_block_zero {token : ℤ} {blocks : List ℤ} (hblocks : s.blocks = token :: blocks) :
    s.step (.block 0) = { s with blocks := blocks }.runBlock token := by
  simp only [step, hblocks, List.getElem?_cons_zero, List.eraseIdx_cons_zero]

/-- A block leaves the token and the rest of the queue as they are, and adds no message. -/
theorem runBlock_frame (token : ℤ) :
    (s.runBlock token).blocks = s.blocks ∧ (s.runBlock token).sessionToken = s.sessionToken ∧
      (s.messagesToProcess = [] ∨ token = s.sessionToken →
        (s.runBlock token).messagesToProcess = []) := by
  simp only [runBlock]
  split
  case isTrue hstale =>
    refine ⟨rfl, rfl, ?_⟩
    rintro (hnone | rfl)
    · exact hnone
    · exact absurd rfl hstale
  case isFalse => exact ⟨rfl, rfl, fun _ => rfl⟩

/-- **Blocks of the session process what waits.** -/
theorem blocks_process (h : s.messagesToProcess ≠ [] → s.sessionToken ∈ s.blocks) :
    s.drain.messagesToProcess = [] := by
  simp only [drain]
  generalize hblocks : s.blocks = blocks at h
  induction blocks generalizing s with
  | nil =>
      by_contra hwaiting
      exact List.not_mem_nil (h hwaiting)
  | cons token blocks ih =>
      simp only [List.length_cons, List.replicate_succ, run_cons, step_block_zero hblocks]
      obtain ⟨hqueue, htoken, hnone⟩ := runBlock_frame (s := { s with blocks := blocks }) token
      refine ih hqueue fun hwaiting => ?_
      have hmem : s.sessionToken ∈ token :: blocks := h fun hempty =>
        hwaiting (hnone (.inl hempty))
      rw [htoken]
      rcases List.mem_cons.mp hmem with heq | hmem
      · exact absurd (hnone (.inr heq.symm)) hwaiting
      · exact hmem

/-! ### The messages of a run -/

/-- What has been processed, and what waits. -/
def accounted (s : UpdateMessageService) : List UpdatesBody :=
  s.processed.flatten ++ s.messagesToProcess

/-- The messages with updates that a run receives. -/
def receivedMessages (es : List ServiceEvent) : List UpdatesBody :=
  es.filterMap fun
    | .receivedMessage body => body
    | _ => none

/-- Adding a message accounts for it. -/
theorem accounted_addMessage (message : Option UpdatesBody) :
    (s.addMessageToQueueAndScheduleProcessing message).accounted =
      s.accounted ++ message.toList := by
  simp only [addMessageToQueueAndScheduleProcessing]
  split
  all_goals exact (List.append_assoc _ _ _).symm

/-- A change of what holds the updates moves no message. -/
theorem accounted_updateHoldUpdates : s.updateHoldUpdates.accounted = s.accounted := by
  simp only [updateHoldUpdates]
  split
  · split
    · exact (accounted_addMessage none).trans (List.append_nil _)
    · rfl
  · rfl

/-- A block moves the messages from one place to the other. -/
theorem accounted_block (i : ℕ) : (s.step (.block i)).accounted = s.accounted := by
  simp only [step]
  split
  · simp only [runBlock]
    split
    · rfl
    · simp only [accounted, List.flatten_append, List.flatten_singleton, List.append_nil]
  · rfl

/-- A step accounts for the message it receives, and a change of the session drops what
waits. -/
theorem accounted_step (e : ServiceEvent) :
    (s.step e).accounted = s.accounted ++ receivedMessages [e] ∨
      e = .didChangeSession ∧ (s.step e).accounted = s.processed.flatten := by
  cases e with
  | networkAvailabilityChanged b =>
      exact .inl (accounted_updateHoldUpdates.trans (List.append_nil _).symm)
  | connectionStateChanged b =>
      exact .inl (accounted_updateHoldUpdates.trans (List.append_nil _).symm)
  | connectionContextUpdateStateChanged b =>
      exact .inl (accounted_updateHoldUpdates.trans (List.append_nil _).symm)
  | serviceTasksStateChanged b =>
      exact .inl (accounted_updateHoldUpdates.trans (List.append_nil _).symm)
  | didChangeSession => exact .inr ⟨rfl, List.append_nil _⟩
  | serverDidChangeSession => exact .inl (List.append_nil _).symm
  | receivedMessage body =>
      cases body with
      | some body => exact .inl (accounted_addMessage (some body))
      | none => exact .inl (List.append_nil _).symm
  | block i => exact .inl ((accounted_block i).trans (List.append_nil _).symm)

/-- **Every message is processed or waits**, at most once and in order; only a change of the
session drops some. -/
theorem accounted_run (es : List ServiceEvent) :
    (run step s es).accounted.Sublist (s.accounted ++ receivedMessages es) ∧
      (.didChangeSession ∉ es →
        (run step s es).accounted = s.accounted ++ receivedMessages es) := by
  induction es generalizing s with
  | nil => exact ⟨(List.append_nil _).symm ▸ List.Sublist.refl _, fun _ => (List.append_nil _).symm⟩
  | cons e es ih =>
      obtain ⟨hsub, heq⟩ := ih (s := s.step e)
      have hreceived : receivedMessages (e :: es) = receivedMessages [e] ++ receivedMessages es :=
        List.filterMap_append (l := [e])
      rw [run_cons, hreceived, ← List.append_assoc]
      rcases accounted_step (s := s) e with hstep | ⟨rfl, hstep⟩
      · rw [← hstep]
        exact ⟨hsub, fun hkept => heq fun hmem => hkept (List.mem_cons_of_mem _ hmem)⟩
      · refine ⟨hsub.trans (List.Sublist.append ?_ (List.Sublist.refl _)), fun hkept => ?_⟩
        · rw [hstep]
          exact (List.sublist_append_left _ _).trans (List.sublist_append_left _ _)
        · exact absurd List.mem_cons_self hkept

end UpdateMessageService

/-- **No lost wake-up.** In a run of the service, a block of the current session is scheduled
whenever messages wait and are not held, exactly if every step meets `KeepsWakeUp`; and then
the blocks that are scheduled at any time suffice to process the messages of that time. -/
theorem noLostWakeUp (es : List ServiceEvent) :
    (Always UpdateMessageService.step WokenUp .init es ↔
      AllSteps UpdateMessageService.step KeepsWakeUp .init es) ∧
    (AllSteps UpdateMessageService.step KeepsWakeUp .init es →
      Always UpdateMessageService.step
        (fun s => s.holdUpdates = false → s.drain.messagesToProcess = []) .init es) := by
  have hkeeps : AllSteps UpdateMessageService.step KeepsWakeUp .init es →
      Always UpdateMessageService.step WokenUp .init es :=
    always_of_allSteps (fun s e h hcond => UpdateMessageService.wokenUp_step e h hcond)
      (fun hwaiting => absurd rfl hwaiting)
  refine ⟨⟨fun h => ?_, hkeeps⟩, fun h => ?_⟩
  · have hpast := h.and_of_step (I := TokensPast)
      (fun s e _ hpast => UpdateMessageService.tokensPast_step e hpast)
      (fun token htoken => absurd htoken List.not_mem_nil)
    exact allSteps_of_always (I := fun s => WokenUp s ∧ TokensPast s)
      (fun s e hs hs' => UpdateMessageService.keepsWakeUp_of_wokenUp e hs.2 hs'.1) hpast
  · refine (hkeeps h).mono fun s hwoken hhold => ?_
    exact UpdateMessageService.blocks_process fun hwaiting => hwoken hwaiting hhold

/-- A message that waits when the server changes the session is left without a block: the one
that was scheduled gives up. -/
theorem lostWakeUp_serverDidChangeSession :
    ¬ ∀ es : List ServiceEvent, Always UpdateMessageService.step WokenUp .init es := by
  intro h
  have hrun := h [.receivedMessage (some .tooLong), .serverDidChangeSession, .block 0]
  revert hrun
  decide

end Telegraph.Updates
