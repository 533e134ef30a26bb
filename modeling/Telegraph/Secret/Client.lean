import Telegraph.Lib.Machine
import Telegraph.Secret.IncomingQueue

/-!
# The Two Queues of a Secret Chat

One client with the two actors of a secret chat, `TGSecretIncomingQueueActor` and
`TGSecretOutgoingQueueActor`, between the stage queue, the database thread and the network.
The functions of the database are jobs of its thread; a dequeue hands what it has read to a
block of the stage queue. Both are run in the order they were issued, at any time, and the
network answers the outstanding requests in any order.

Calls come from all over the client and are left to the events of a run: messages arrive, are
sent, and the actors are polled whenever someone asks for their path. What a poll of the
outgoing queue does about new keys is such an event too.

## Main results

* `SecretClient.step`: one event of a run.
-/

namespace Telegraph.Secret

/-! ### Outgoing requests -/

/-- `TGSecretOutgoingRequest`. -/
structure OutgoingRequest where
  actionId : ℕ
  seqOut : ℤ
  isResend : Bool
  layer : ℕ
deriving DecidableEq

/-- `requestForAction:actionId:seqIn:seqOut:isResend:`, without its body. -/
def requestForAction (row : Row OutgoingActionWithSeq) (isResend : Bool) : OutgoingRequest where
  actionId := row.id
  seqOut := if row.value.action.layer ≥ 17 then row.value.seqOut else -1
  isResend := isResend
  layer := row.value.action.layer

/-- What the dequeue of the outgoing queue hands to its block. -/
structure OutgoingPoll where
  actions : List (Row OutgoingActionWithSeq)
  resendActions : List (Row OutgoingActionWithSeq)
deriving DecidableEq

/-- The requests of a block of the outgoing queue: one for each row whose number is not among
the executing ones. -/
def OutgoingPoll.requests (poll : OutgoingPoll) (executingRequestsActionIds : List ℕ) :
    List OutgoingRequest :=
  (poll.actions.map (requestForAction · false) ++
    poll.resendActions.map (requestForAction · true)).filter
      fun request => !(request.actionId ∈ executingRequestsActionIds)

/-! ### The client -/

/-- The jobs of the database thread. -/
inductive DatabaseJob where
  | enqueuePeerIncomingActions (actions : List IncomingActionWithSeq)
  | enqueuePeerIncomingEncryptedActions (actions : List EncryptedAction)
  | dequeuePeerIncomingActions
  | deletePeerIncomingActions (actionIds : List ℕ)
  | deletePeerIncomingEncryptedActions (actionIds : List ℕ)
  | applyPeerSeqIn (seqIn : ℤ)
  | setCurrentPeerResendSeqIn (seqIn : ℤ)
  | enqueuePeerOutgoingAction (action : OutgoingAction)
  | dequeuePeerOutgoingActions
  | enqueuePeerOutgoingResendActions (fromSeq toSeq : ℤ)
  | deletePeerOutgoingResendActions (actionIds : List ℕ)
  | deletePeerOutgoingActions (actionIds : List ℕ)
  | applyPeerSeqOut (seqOut : ℤ)
  | confirmPeerSeqOut (seqOut : ℤ)
  | otherChats (incoming encrypted outgoing resend : ℕ)

/-- The blocks of the stage queue. -/
inductive StageBlock where
  | incoming (poll : IncomingPoll)
  | outgoing (poll : OutgoingPoll)
deriving DecidableEq

/-- The client, with the requests that are outstanding. As histories, `handed` lists the
messages `_processIncomingMessage` was called with and `answered` the requests that have
succeeded; `discarded` tells whether a resend request has failed, so that the chat is
discarded. -/
structure SecretClient where
  database : SecretDatabase
  jobs : List DatabaseJob
  blocks : List StageBlock
  handed : List SecretActionWithSeq
  executingRequestsActionIds : List ℕ
  requests : List OutgoingRequest
  answered : List OutgoingRequest
  discarded : Bool

/-- A client with a new chat. -/
def freshClient : SecretClient := ⟨.empty, [], [], [], [], [], [], false⟩

/-- What can happen. -/
inductive SecretEvent (κ : Type*) where
  /-- `enqueueIncomingMessagesByPeerId:`. -/
  | receive (actions : List IncomingActionWithSeq)
  /-- `enqueueIncomingEncryptedMessagesByPeerId:`. -/
  | receiveEncrypted (actions : List EncryptedAction)
  /-- `_poll` of the incoming queue. -/
  | pollIncoming
  /-- `enqueueOutgoingMessageForPeerId:` and its sibling for service messages. -/
  | send (action : OutgoingAction)
  /-- `_poll` of the outgoing queue. -/
  | pollOutgoing
  /-- Rows of other chats are inserted. -/
  | otherChats (incoming encrypted outgoing resend : ℕ)
  /-- The database thread runs its next job. -/
  | runJob (peerLayer : ℕ)
  /-- The stage queue runs its next block. -/
  | runBlock (keys : κ) (peerLayer : ℕ)
  /-- An outstanding request is answered. -/
  | requestSucceeded (index : ℕ)
  /-- An outstanding request fails. -/
  | requestFailed (index : ℕ)

namespace SecretClient

/-- A call of a function of the database. -/
def call (s : SecretClient) (jobs : List DatabaseJob) : SecretClient :=
  { s with jobs := s.jobs ++ jobs }

/-- A job of the database thread. -/
def runJob (s : SecretClient) (peerLayer : ℕ) : DatabaseJob → SecretClient
  | .enqueuePeerIncomingActions actions =>
      { s with database := s.database.enqueuePeerIncomingActions actions }
  | .enqueuePeerIncomingEncryptedActions actions =>
      { s with database := s.database.enqueuePeerIncomingEncryptedActions actions }
  | .dequeuePeerIncomingActions =>
      { s with blocks := s.blocks ++ [.incoming s.database.dequeuePeerIncomingActions] }
  | .deletePeerIncomingActions actionIds =>
      { s with database := s.database.deletePeerIncomingActions actionIds }
  | .deletePeerIncomingEncryptedActions actionIds =>
      { s with database := s.database.deletePeerIncomingEncryptedActions actionIds }
  | .applyPeerSeqIn seqIn => { s with database := s.database.applyPeerSeqIn seqIn }
  | .setCurrentPeerResendSeqIn seqIn =>
      { s with database := s.database.setCurrentPeerResendSeqIn seqIn }
  | .enqueuePeerOutgoingAction action =>
      { s with database := s.database.enqueuePeerOutgoingAction action (action.layer ≥ 17) }
  | .dequeuePeerOutgoingActions =>
      let rows := s.database.dequeuePeerOutgoingActions peerLayer
      { s with blocks := s.blocks ++ [.outgoing ⟨rows.1, rows.2⟩] }
  | .enqueuePeerOutgoingResendActions fromSeq toSeq =>
      let result := s.database.enqueuePeerOutgoingResendActions fromSeq toSeq
      { s with database := result.1, discarded := s.discarded || !result.2 }
  | .deletePeerOutgoingResendActions actionIds =>
      { s with database := s.database.deletePeerOutgoingResendActions actionIds }
  | .deletePeerOutgoingActions actionIds =>
      { s with database := s.database.deletePeerOutgoingActions actionIds }
  | .applyPeerSeqOut seqOut => { s with database := s.database.applyPeerSeqOut seqOut }
  | .confirmPeerSeqOut seqOut => { s with database := s.database.confirmPeerSeqOut seqOut }
  | .otherChats incoming encrypted outgoing resend =>
      { s with database := s.database.skip incoming encrypted outgoing resend }

/-- `currentLayer`. -/
def currentLayer : ℕ := 66

section Step

variable {κ : Type*} (chat : SecretChat κ)

/-- The writes that ask the peer to send the missing messages once more. -/
def resendWrites (keys : κ) (poll : IncomingPoll) (c : Classification) : List DatabaseJob :=
  match chat.resendRange poll c with
  | some (fromSeq, toSeq) =>
      let layer := min c.currentPeerLayer currentLayer
      .setCurrentPeerResendSeqIn c.nextExpectedSeqOut ::
        match chat.resendMessage keys layer fromSeq toSeq with
        | some data => [.enqueuePeerOutgoingAction
            ⟨true, chat.randomId keys, layer, chat.keyId keys, data⟩]
        | none => []
  | none => [.setCurrentPeerResendSeqIn (-1)]

/-- The write that confirms the messages the peer has received. -/
def confirmWrites (c : Classification) : List DatabaseJob :=
  if c.maxSeqIn > 0 then [.confirmPeerSeqOut (c.maxSeqIn - 1)] else []

/-- The resend requests of the peer; the numbers on the wire are halved. -/
def peerResends (c : Classification) : List DatabaseJob :=
  c.actionsToProcess.filterMap fun action =>
    (chat.resendActions action.action).map fun range =>
      .enqueuePeerOutgoingResendActions (range.1.tdiv 2) (range.2.tdiv 2)

/-- The writes at the end of a block of the incoming queue, in their order. -/
def incomingWrites (keys : κ) (poll : IncomingPoll) (c : Classification) : List DatabaseJob :=
  resendWrites chat keys poll c ++
    [.deletePeerIncomingActions (idsOfType .generic c.removeIds),
      .deletePeerIncomingEncryptedActions (idsOfType .encrypted c.removeIds),
      .applyPeerSeqIn c.nextExpectedSeqOut] ++
    confirmWrites c ++ peerResends chat c

/-- A block of the incoming queue. -/
def runIncoming (s : SecretClient) (keys : κ) (peerLayer : ℕ) (poll : IncomingPoll) :
    SecretClient :=
  let c := chat.classifyAll keys peerLayer poll
  { s with
    handed := s.handed ++ c.actionsToProcess
    jobs := s.jobs ++ incomingWrites chat keys poll c }

/-- A block of the outgoing queue. -/
def runOutgoing (s : SecretClient) (poll : OutgoingPoll) : SecretClient :=
  let requests := poll.requests s.executingRequestsActionIds
  { s with
    requests := s.requests ++ requests
    executingRequestsActionIds :=
      s.executingRequestsActionIds ++ requests.map OutgoingRequest.actionId }

/-- `actionCompletedWithId:`, the write for a request that has been answered. -/
def actionCompleted (request : OutgoingRequest) : DatabaseJob :=
  if request.isResend then .deletePeerOutgoingResendActions [request.actionId]
  else if request.seqOut ≥ 0 ∧ request.layer ≥ 17 then .applyPeerSeqOut request.seqOut
  else .deletePeerOutgoingActions [request.actionId]

/-- One event. -/
def step (s : SecretClient) : SecretEvent κ → SecretClient
  | .receive actions => s.call [.enqueuePeerIncomingActions actions]
  | .receiveEncrypted actions => s.call [.enqueuePeerIncomingEncryptedActions actions]
  | .pollIncoming => s.call [.dequeuePeerIncomingActions]
  | .send action => s.call [.enqueuePeerOutgoingAction action]
  | .pollOutgoing => s.call [.dequeuePeerOutgoingActions]
  | .otherChats incoming encrypted outgoing resend =>
      s.call [.otherChats incoming encrypted outgoing resend]
  | .runJob peerLayer =>
      match s.jobs with
      | job :: jobs => { s with jobs }.runJob peerLayer job
      | [] => s
  | .runBlock keys peerLayer =>
      match s.blocks with
      | .incoming poll :: blocks => { s with blocks }.runIncoming chat keys peerLayer poll
      | .outgoing poll :: blocks => { s with blocks }.runOutgoing poll
      | [] => s
  | .requestSucceeded index =>
      match s.requests[index]? with
      | some request =>
          { s with
            requests := s.requests.eraseIdx index
            answered := s.answered ++ [request] }.call [actionCompleted request]
      | none => s
  | .requestFailed index =>
      match s.requests[index]? with
      | some request =>
          { s with
            requests := s.requests.eraseIdx index
            executingRequestsActionIds :=
              s.executingRequestsActionIds.filter fun id => id ≠ request.actionId }
      | none => s

end Step

/-! ### The writes of a block -/

section Writes

variable {κ : Type*} {chat : SecretChat κ} {keys : κ} {poll : IncomingPoll} {c : Classification}
  {job : DatabaseJob}

theorem mem_resendWrites (h : job ∈ resendWrites chat keys poll c) :
    (∃ n, job = .setCurrentPeerResendSeqIn n) ∨
      ∃ action, action.layer = min c.currentPeerLayer currentLayer ∧
        job = .enqueuePeerOutgoingAction action := by
  simp only [resendWrites] at h
  split at h
  next fromSeq toSeq _ =>
    rcases List.mem_cons.mp h with hset | hsend
    · exact .inl ⟨_, hset⟩
    · split at hsend
      · exact .inr ⟨_, rfl, List.mem_singleton.mp hsend⟩
      · exact (List.not_mem_nil hsend).elim
  next => exact .inl ⟨_, List.mem_singleton.mp h⟩

theorem mem_confirmWrites (h : job ∈ confirmWrites c) :
    job = .confirmPeerSeqOut (c.maxSeqIn - 1) := by
  simp only [confirmWrites] at h
  split at h
  · exact List.mem_singleton.mp h
  · exact (List.not_mem_nil h).elim

theorem mem_peerResends (h : job ∈ peerResends chat c) :
    ∃ action ∈ c.actionsToProcess, ∃ fromSeq toSeq,
      chat.resendActions action.action = some (fromSeq, toSeq) ∧
        job = .enqueuePeerOutgoingResendActions (fromSeq.tdiv 2) (toSeq.tdiv 2) := by
  obtain ⟨action, haction, hrange⟩ := List.mem_filterMap.mp h
  obtain ⟨range, hresend, rfl⟩ := Option.map_eq_some_iff.mp hrange
  exact ⟨action, haction, range.1, range.2, hresend, rfl⟩

end Writes

end SecretClient

/-- A chat for concrete runs: nothing can be decrypted, and resend requests are read as told. -/
def SecretChat.bare (resendActions : IncomingMessageAction → Option (ℤ × ℤ)) :
    SecretChat Unit where
  isCreator := true
  decrypt := fun _ _ => none
  resendActions := resendActions
  resendMessage := fun _ _ _ _ => none
  randomId := fun _ => 0
  keyId := fun _ => 0

end Telegraph.Secret
