import Telegraph.MtProto.RequestService

/-!
# Runs of the Request Service

What happens to `MTRequestMessageService` as a service of an `MTProto`: requests come and
go, transactions are made and accepted by the transport some time later, incoming messages
answer requests, and sessions are replaced. Between a transaction and its completion block
anything may happen, a new session included.

## Main results

* `preparedIn_transaction`: what a transaction prepares for the requests is of the session
  it is made in, if their contexts are.
* `contexts_inSession_iff`: **no request has a context of a replaced session**, in every
  state of a run, exactly when every accepted payload is of the session in use, or of no
  listed request.
-/

namespace Telegraph.MtProto

/-! ### The state -/

/-- A payload handed to the transport, with what its completion block captures: the maps of
the request service, and the session the payload was made in. -/
structure InFlight where
  blocks : RequestBlocks
  transaction : TransportTransaction
  session : ℕ

/-- The session and the request service of `MTProto`, and the payloads the transport has
neither accepted nor refused. -/
structure RequestRun where
  session : SessionInfo
  service : RequestService
  inFlight : List InFlight

/-- A new `MTProto` with a new request service. -/
def RequestRun.init (sessionId : BitVec 64) (apiEnvironment : Option ApiEnvironment) :
    RequestRun where
  session := .init sessionId 0 0
  service := ⟨apiEnvironment, [], []⟩
  inFlight := []

/-- What can happen, in any order. Where a new session may be needed, its id comes along. -/
inductive RequestEvent (α : Type) where
  | addRequest (request : Request)
  | removeRequestByInternalId (internalId : ℕ)
  /-- The transport is ready, and transactions may be asked for. `ctx` has what the
  services before the request service say, `others` what those behind it say. -/
  | transaction (ctx : TransactionContext) (others : List MessageTransaction)
      (env : RequestEnvironment) (sessionId : BitVec 64)
  /-- The transport is ready, but the time or the salts are missing. -/
  | timeFixPing (authInfo : Option TransactionAuthInfo) (randomId : BitVec 64)
  /-- The transport accepts a payload under a transaction id, or does not. -/
  | completion (index : ℕ) (accepted : Option ℕ)
  | incomingData (transactionId : ℕ)
  | incomingMessage (env : MessageEnvironment) (message : MTIncomingMessage α)
      (sessionId : BitVec 64)
  | transactionsMayHaveFailed (failed : ℕ → Bool)
  | messageResendRequestFailed (messageId : BitVec 64)
  | authTokenUpdated
  | resetSessionInfo (sessionId : BitVec 64)

/-! ### Steps -/

/-- `resetSessionInfo`. -/
def RequestRun.resetSessionInfo (sessionId : BitVec 64) (r : RequestRun) : RequestRun :=
  { r with
    session := .init sessionId (r.session.number + 1) r.session.readings
    service := r.service.didChangeSession }

/-- The internal id of the first message of the request service: the counter is past those
of all other messages. -/
def TransactionContext.base (ctx : TransactionContext) (others : List MessageTransaction) : ℕ :=
  { ctx with serviceTransactions := ctx.serviceTransactions ++ others }.nextInternalId

/-- The transaction of all services. -/
def TransactionContext.withRequests (ctx : TransactionContext)
    (others : List MessageTransaction) (env : RequestEnvironment) (service : RequestService) :
    TransactionContext :=
  { ctx with
    serviceTransactions := ctx.serviceTransactions ++
      (service.messageTransaction env (ctx.base others)).toList ++ others }

/-- `transportReadyForTransaction:`, with the blocks of the request service. -/
def RequestRun.transaction (globalTime : ℕ → BitVec 64) (ctx : TransactionContext)
    (others : List MessageTransaction) (env : RequestEnvironment) (sessionId : BitVec 64)
    (r : RequestRun) : RequestRun :=
  let blocks := r.service.blocks env (ctx.base others)
  let result :=
    transportReadyForTransaction globalTime (ctx.withRequests others env r.service) r.session
  let service := blocks.prepared result.prepared r.service
  let r' : RequestRun :=
    { session := result.session
      service := if result.transactions.isEmpty then blocks.failed service else service
      inFlight := r.inFlight ++ result.transactions.map fun t => ⟨blocks, t, r.session.number⟩ }
  if result.monotonityViolated then r'.resetSessionInfo sessionId else r'

/-- The completion block of a payload. The block of the request service does not ask which
session the payload was made in; that of the `msgs_ack` holds on to its session. -/
def RequestRun.complete (e : InFlight) (accepted : Option ℕ) (r : RequestRun) : RequestRun :=
  match accepted with
  | none => { r with service := e.blocks.failed r.service }
  | some transactionId =>
      { r with
        session :=
          if e.session = r.session.number then e.transaction.confirm transactionId r.session
          else r.session
        service := e.blocks.accepted transactionId e.transaction r.service }

section Steps

variable {α : Type}

/-- `_processIncomingMessage:withTransactionId:`. A notice about a bad sequence number
resets the session before the services hear of it. -/
def RequestRun.processIncomingMessage (env : MessageEnvironment)
    (message : MTIncomingMessage α) (sessionId : BitVec 64) (r : RequestRun) : RequestRun :=
  let s := (⟨r.session, true, []⟩ : SessionRun).processIncomingMessage
    env.useUnauthorizedMode message (r.service.shouldRequest env message.body)
  let r' : RequestRun := { r with session := s.session }
  let r' := if s.current then r' else r'.resetSessionInfo sessionId
  if r.session.messageProcessed message.messageId then r'
  else { r' with service := r'.service.processIncomingMessage env r.session message.body }

/-- One event. A new request has no context. -/
def RequestRun.step (globalTime : ℕ → BitVec 64) (r : RequestRun) : RequestEvent α → RequestRun
  | .addRequest request =>
      { r with service := r.service.addRequest { request with requestContext := none } }
  | .removeRequestByInternalId internalId =>
      { r with service := r.service.removeRequestByInternalId internalId }
  | .transaction ctx others env sessionId => r.transaction globalTime ctx others env sessionId
  | .timeFixPing authInfo randomId =>
      { r with session := (MtProto.timeFixPing globalTime authInfo randomId r.session).2 }
  | .completion index accepted =>
      match r.inFlight[index]? with
      | some e =>
          RequestRun.complete e accepted { r with inFlight := r.inFlight.eraseIdx index }
      | none => r
  | .incomingData transactionId =>
      { r with session := r.session.removeScheduledMessageConfirmations [transactionId] }
  | .incomingMessage env message sessionId => r.processIncomingMessage env message sessionId
  | .transactionsMayHaveFailed failed =>
      { r with service := r.service.transactionsMayHaveFailed failed }
  | .messageResendRequestFailed messageId =>
      { r with service := r.service.messageResendRequestFailed messageId }
  | .authTokenUpdated => { r with service := r.service.authTokenUpdated }
  | .resetSessionInfo sessionId => r.resetSessionInfo sessionId

/-! ### The property and the condition -/

/-- No request has a context of a replaced session. -/
def RequestRun.InCurrentSession (r : RequestRun) : Prop :=
  r.service.InSession r.session.number

/-- An accepted payload is of the session in use, or has a message of no listed request. -/
def InTime (r : RequestRun) : RequestEvent α → Prop
  | .completion index (some _) =>
      ∀ e ∈ r.inFlight[index]?, e.session ≠ r.session.number →
        ∀ request ∈ r.service.requests, ¬e.blocks.HasMessage e.transaction request
  | _ => True

end Steps

/-! ### What a transaction prepares for the requests -/

section Prepared

variable {globalTime : ℕ → BitVec 64} {ctx : TransactionContext}
  {others : List MessageTransaction} {env : RequestEnvironment} {service : RequestService}
  {s : SessionInfo} {m : OutgoingMessage}

/-- The messages of the request service: one for each request that is ready, and one for
each answer to drop. -/
theorem mem_messageTransaction {base : ℕ} {t : MessageTransaction}
    (ht : service.messageTransaction env base = some t) (hm : m ∈ t.messagePayload) :
    (∃ i, ∃ request ∈ service.requests,
      m = service.requestMessage env (service.blocks env base) (base + i) request) ∨
    ∃ i c, m = dropMessage (base + (service.requests.filter (Request.isReady env)).length + i) c := by
  unfold RequestService.messageTransaction at ht
  dsimp only at ht
  split at ht
  · simp at ht
  · obtain rfl := Option.some.inj ht
    rcases List.mem_append.mp hm with hm | hm
    · obtain ⟨i, hi, rfl⟩ := List.mem_mapIdx.mp hm
      exact .inl ⟨i, _, (List.mem_filter.mp (List.getElem_mem hi)).1, rfl⟩
    · obtain ⟨i, hi, rfl⟩ := List.mem_mapIdx.mp hm
      exact .inr ⟨i, _, rfl⟩

/-- The internal ids of the messages of the requests. -/
theorem mem_blocks {base : ℕ} {entry : ℕ × ℕ}
    (h : entry ∈ (service.blocks env base).requestInternalIdToMessageInternalId) :
    base ≤ entry.2 ∧ entry.2 < base + (service.requests.filter (Request.isReady env)).length := by
  obtain ⟨i, hi, rfl⟩ := List.mem_mapIdx.mp h
  exact ⟨by simp, by simpa using hi⟩

/-- Where the messages of a transaction come from; those of the other services have
internal ids before the base. -/
theorem mem_outgoing_withRequests (h : m ∈ (ctx.withRequests others env service).outgoing s) :
    m.internalId < ctx.base others ∨
    m = (ctx.withRequests others env service).msgsAckMessage s ∨
    ∃ t, service.messageTransaction env (ctx.base others) = some t ∧ m ∈ t.messagePayload := by
  have hother : m ∈ (ctx.transportTransactions ++ (ctx.serviceTransactions ++ others)).flatMap
      MessageTransaction.messagePayload → m.internalId < ctx.base others :=
    fun hm => @internalId_lt_nextInternalId
      { ctx with serviceTransactions := ctx.serviceTransactions ++ others } m hm
  simp only [List.flatMap_append, List.mem_append] at hother
  rcases mem_outgoing h with h | h
  · have htransport : (ctx.withRequests others env service).transportTransactions =
        ctx.transportTransactions := rfl
    rw [htransport] at h
    simp only [TransactionContext.withRequests, List.flatMap_append, List.mem_append] at h
    rcases h with h | (h | h) | h
    · exact .inl (hother (.inl h))
    · exact .inl (hother (.inr (.inl h)))
    · obtain ⟨t, ht, hm⟩ := List.mem_flatMap.mp h
      exact .inr (.inr ⟨t, Option.mem_toList.mp ht, hm⟩)
    · exact .inl (hother (.inr (.inr h)))
  · exact .inr (.inl h)

/-- **What a transaction prepares for the requests is of the session it is made in**, if
their contexts are. -/
theorem preparedIn_transaction (h : service.InSession s.number) :
    (service.blocks env (ctx.base others)).PreparedIn
      ((ctx.withRequests others env service).prepare globalTime s).prepared s.number := by
  intro entry hentry p hp hid
  obtain ⟨hbase, hlt⟩ := mem_blocks hentry
  obtain ⟨m, hm, hfrom⟩ := mem_prepared hp
  rw [hfrom.session]
  split
  case isTrue => rfl
  case isFalse hmessageId =>
    have hinternalId : m.internalId = entry.2 := hfrom.internalId.symm.trans hid
    rcases mem_outgoing_withRequests hm with hother | rfl | ⟨t, ht, hmem⟩
    · omega
    · exact absurd rfl hmessageId
    · rcases mem_messageTransaction ht hmem with ⟨i, request, hrequest, rfl⟩ | ⟨i, c, rfl⟩
      · cases hc : request.requestContext with
        | none => simp [RequestService.requestMessage, hc] at hmessageId
        | some c =>
            simpa [RequestService.requestMessage, hc] using h request hrequest c hc
      · have : (dropMessage (ctx.base others +
            (service.requests.filter (Request.isReady env)).length + i) c).internalId =
          ctx.base others + (service.requests.filter (Request.isReady env)).length + i := rfl
        omega

end Prepared

/-! ### What one event can do -/

/-- What is known of a payload: it carries messages prepared with it, and what was prepared
for the requests is of its session. -/
structure InFlight.Sound (e : InFlight) : Prop where
  carried : ∀ m ∈ e.transaction.payload.messages, m ∈ e.transaction.prepared
  preparedIn : e.blocks.PreparedIn e.transaction.prepared e.session

section Moves

variable {α : Type} {globalTime : ℕ → BitVec 64} {r r' : RequestRun} {ev : RequestEvent α}

/-- The ways an event can take a run from `r` to another state, as far as sessions go. -/
inductive RequestRun.Moves (globalTime : ℕ → BitVec 64) (r : RequestRun) :
    RequestEvent α → RequestRun → Prop where
  /-- The session stays, and no request gets a context. -/
  | stays {ev : RequestEvent α} {r' : RequestRun} (inTime : InTime r ev)
      (number : r'.session.number = r.session.number)
      (service : ∀ number, r.service.InSession number → r'.service.InSession number)
      (inFlight : r'.inFlight ⊆ r.inFlight) : Moves globalTime r ev r'
  /-- The session is replaced, and no request has a context. -/
  | reset {ev : RequestEvent α} {r' : RequestRun} (inTime : InTime r ev)
      (service : ∀ number, r'.service.InSession number)
      (inFlight : r'.inFlight ⊆ r.inFlight) : Moves globalTime r ev r'
  | transaction (ctx : TransactionContext) (others : List MessageTransaction)
      (env : RequestEnvironment) (sessionId : BitVec 64) :
      Moves globalTime r (.transaction ctx others env sessionId)
        (r.transaction globalTime ctx others env sessionId)
  | accepted {index : ℕ} {e : InFlight} {r' : RequestRun} (transactionId : ℕ)
      (found : r.inFlight[index]? = some e)
      (number : r'.session.number = r.session.number)
      (service : r'.service = e.blocks.accepted transactionId e.transaction r.service)
      (inFlight : r'.inFlight ⊆ r.inFlight) :
      Moves globalTime r (.completion index (some transactionId)) r'

@[simp] theorem confirm_number (transactionId : ℕ) (t : TransportTransaction)
    (s : SessionInfo) : (t.confirm transactionId s).number = s.number := by
  unfold TransportTransaction.confirm
  split
  · rfl
  · split <;> rfl

/-- An incoming message is processed in its session, or ends it. -/
theorem requestMoves_incomingMessage (env : MessageEnvironment) (message : MTIncomingMessage α)
    (sessionId : BitVec 64) :
    r.Moves globalTime (.incomingMessage env message sessionId)
      (r.processIncomingMessage env message sessionId) := by
  have hnumber := processIncomingMessage_induction (P := fun s => s.number = r.session.number)
    env.useUnauthorizedMode (r.service.shouldRequest env message.body) message
    (fun _ _ h => h)
    (fun s messageId size h => by
      unfold SessionInfo.scheduleMessageConfirmation
      split <;> exact h)
    (r := ⟨r.session, true, []⟩) rfl
  unfold RequestRun.processIncomingMessage
  dsimp only
  split
  case isTrue =>
    split
    · exact .stays trivial hnumber (fun _ h => h) (fun _ h => h)
    · exact .reset trivial (fun _ => inSession_didChangeSession _) (fun _ h => h)
  case isFalse =>
    split
    · exact .stays trivial hnumber (fun _ h => inSession_processIncomingMessage _ _ _ h)
        (fun _ h => h)
    · exact .reset trivial
        (fun _ => inSession_processIncomingMessage _ _ _ (inSession_didChangeSession _))
        (fun _ h => h)

/-- **Everything one event can do to the sessions of the contexts.** -/
theorem requestRun_moves_step (globalTime : ℕ → BitVec 64) (r : RequestRun)
    (ev : RequestEvent α) : r.Moves globalTime ev (r.step globalTime ev) := by
  cases ev with
  | addRequest request =>
      exact .stays trivial rfl (fun _ => inSession_addRequest (inSession_of_none rfl))
        (fun _ h => h)
  | removeRequestByInternalId internalId =>
      exact .stays trivial rfl (fun _ => inSession_removeRequestByInternalId internalId)
        (fun _ h => h)
  | transaction ctx others env sessionId => exact .transaction ctx others env sessionId
  | timeFixPing authInfo randomId =>
      exact .stays trivial (by simp [RequestRun.step]) (fun _ h => h) (fun _ h => h)
  | completion index accepted =>
      unfold RequestRun.step
      dsimp only
      split
      case h_1 e he =>
        have hinFlight : r.inFlight.eraseIdx index ⊆ r.inFlight :=
          (List.eraseIdx_sublist _ _).subset
        cases accepted with
        | none =>
            exact .stays trivial rfl (fun _ => inSession_failed e.blocks) hinFlight
        | some transactionId =>
            refine .accepted transactionId he ?_ rfl hinFlight
            unfold RequestRun.complete
            dsimp only
            split <;> simp
      case h_2 hnone =>
        refine .stays ?_ rfl (fun _ h => h) (fun _ h => h)
        cases accepted with
        | none => trivial
        | some transactionId => simp [InTime, hnone]
  | incomingData transactionId => exact .stays trivial rfl (fun _ h => h) (fun _ h => h)
  | incomingMessage env message sessionId =>
      exact requestMoves_incomingMessage env message sessionId
  | transactionsMayHaveFailed failed =>
      exact .stays trivial rfl (fun _ => inSession_transactionsMayHaveFailed failed)
        (fun _ h => h)
  | messageResendRequestFailed messageId =>
      exact .stays trivial rfl (fun _ => inSession_messageResendRequestFailed messageId)
        (fun _ h => h)
  | authTokenUpdated =>
      exact .stays trivial rfl (fun _ => inSession_authTokenUpdated) (fun _ h => h)
  | resetSessionInfo sessionId =>
      exact .reset trivial (fun _ => inSession_didChangeSession _) (fun _ h => h)

/-! ### Invariants -/

/-- **Payloads stay sound** as long as no request has a context of a replaced session. -/
theorem sound_moves (hr : r.InCurrentSession) (h : ∀ e ∈ r.inFlight, e.Sound)
    (hmoves : r.Moves globalTime ev r') : ∀ e ∈ r'.inFlight, e.Sound := by
  cases hmoves with
  | stays _ _ _ hinFlight => exact fun e he => h e (hinFlight he)
  | reset _ _ hinFlight => exact fun e he => h e (hinFlight he)
  | accepted _ _ _ _ hinFlight => exact fun e he => h e (hinFlight he)
  | transaction ctx others env sessionId =>
      have hinFlight : (r.transaction globalTime ctx others env sessionId).inFlight =
          r.inFlight ++ (transportReadyForTransaction globalTime
            (ctx.withRequests others env r.service) r.session).transactions.map fun t =>
              ⟨r.service.blocks env (ctx.base others), t, r.session.number⟩ := by
        unfold RequestRun.transaction
        dsimp only
        split <;> rfl
      intro e he
      rw [hinFlight] at he
      rcases List.mem_append.mp he with he | he
      · exact h e he
      · obtain ⟨t, ht, rfl⟩ := List.mem_map.mp he
        obtain ⟨hprepared, -, hcarried⟩ := mem_transactions ht
        refine ⟨hcarried, ?_⟩
        dsimp only
        rw [hprepared]
        exact preparedIn_transaction hr

/-- A transaction keeps the contexts in the session in use. -/
theorem inCurrentSession_transaction (hr : r.InCurrentSession) (ctx : TransactionContext)
    (others : List MessageTransaction) (env : RequestEnvironment) (sessionId : BitVec 64) :
    (r.transaction globalTime ctx others env sessionId).InCurrentSession := by
  have hprepared := inSession_prepared
    (@preparedIn_transaction globalTime ctx others env r.service r.session hr) hr
  unfold RequestRun.transaction
  dsimp only
  split
  · exact inSession_didChangeSession _
  · unfold RequestRun.InCurrentSession
    rw [transaction_number, transaction_prepared]
    split
    · exact inSession_failed _ hprepared
    · exact hprepared

/-- **A step in time keeps the contexts in the session in use.** -/
theorem inCurrentSession_moves (hr : r.InCurrentSession) (h : ∀ e ∈ r.inFlight, e.Sound)
    (hmoves : r.Moves globalTime ev r') (htime : InTime r ev) : r'.InCurrentSession := by
  cases hmoves with
  | stays _ hnumber hservice _ =>
      unfold RequestRun.InCurrentSession
      rw [hnumber]
      exact hservice _ hr
  | reset _ hservice _ => exact hservice _
  | transaction ctx others env sessionId =>
      exact inCurrentSession_transaction hr ctx others env sessionId
  | @accepted index e _ transactionId hfound hnumber hservice _ =>
      have he := h e (List.mem_of_getElem? hfound)
      unfold RequestRun.InCurrentSession
      rw [hnumber, hservice]
      refine (inSession_accepted_iff hr).mpr fun request hrequest c hc => ?_
      obtain ⟨hmessage, hsession⟩ := hasMessage_of_acceptedContext he.preparedIn hc
      by_contra hne
      exact htime e hfound (fun heq => hne (hsession.trans heq)) request hrequest hmessage

/-- **A step after which the contexts are in the session in use is in time.** -/
theorem inTime_of_moves (hr : r.InCurrentSession) (h : ∀ e ∈ r.inFlight, e.Sound)
    (hmoves : r.Moves globalTime ev r') (hr' : r'.InCurrentSession) : InTime r ev := by
  cases hmoves with
  | stays htime _ _ _ => exact htime
  | reset htime _ _ => exact htime
  | transaction => trivial
  | @accepted index e _ transactionId hfound hnumber hservice _ =>
      have he := h e (List.mem_of_getElem? hfound)
      unfold RequestRun.InCurrentSession at hr'
      rw [hnumber, hservice] at hr'
      intro e' he' hne request hrequest hmessage
      obtain rfl := Option.some.inj (hfound.symm.trans he')
      obtain ⟨c, hc⟩ : ∃ c, e.blocks.acceptedContext transactionId e.transaction request =
          some c := acceptedContext_of_hasMessage he.carried hmessage
      have hcurrent := (inSession_accepted_iff hr).mp hr' request hrequest c hc
      exact hne ((hasMessage_of_acceptedContext he.preparedIn hc).2.symm.trans hcurrent)

end Moves

/-! ### Runs -/

/-- **Requests and sessions.** In every run, no request has a context of a replaced session
in any state, exactly when every accepted payload is of the session in use or has a message
of no listed request. -/
theorem contexts_inSession_iff {α : Type} (globalTime : ℕ → BitVec 64) (sessionId : BitVec 64)
    (apiEnvironment : Option ApiEnvironment) (es : List (RequestEvent α)) :
    Machine.Always (RequestRun.step globalTime) RequestRun.InCurrentSession
        (.init sessionId apiEnvironment) es ↔
      Machine.AllSteps (RequestRun.step globalTime) InTime
        (.init sessionId apiEnvironment) es := by
  have hsound : ∀ e ∈ (RequestRun.init sessionId apiEnvironment).inFlight, e.Sound := by
    simp [RequestRun.init]
  constructor
  · intro h
    have hboth := h.and_of_step (fun r ev hr hs =>
      sound_moves hr hs (requestRun_moves_step globalTime r ev)) hsound
    exact Machine.allSteps_of_always (fun r ev hr hr' =>
      inTime_of_moves hr.1 hr.2 (requestRun_moves_step globalTime r ev) hr'.1) hboth
  · intro h
    have hinit : (RequestRun.init sessionId apiEnvironment).InCurrentSession := by
      simp [RequestRun.init, RequestRun.InCurrentSession, RequestService.InSession]
    have hboth := Machine.always_of_allSteps (I := fun r : RequestRun =>
        r.InCurrentSession ∧ ∀ e ∈ r.inFlight, e.Sound)
      (fun r ev hr htime =>
        ⟨inCurrentSession_moves hr.1 hr.2 (requestRun_moves_step globalTime r ev) htime,
          sound_moves hr.1 hr.2 (requestRun_moves_step globalTime r ev)⟩) ⟨hinit, hsound⟩ h
    exact hboth.mono fun r hr => hr.1

instance (number : ℕ) (request : Request) : Decidable (request.InSession number) :=
  inferInstanceAs (Decidable (∀ c ∈ request.requestContext, c.session = number))

instance (r : RequestRun) : Decidable r.InCurrentSession :=
  inferInstanceAs (Decidable (∀ request ∈ r.service.requests,
    request.InSession r.session.number))

/-- A request of one byte that asks for nothing special. -/
def oneRequest : Request where
  internalId := 1
  payload := [1]
  responseParser _ := true
  requestContext := none
  errorContext := none
  hasHighPriority := false
  dependsOnPasswordEntry := false
  hasAcknowledgementReceived := false
  shouldContinueExecutionWithErrorContext := none
  shouldDependOnRequest := none

/-- A transaction of the request service alone. -/
def requestsAlone : TransactionContext where
  transportSpecificTransaction := none
  serviceTransactions := []
  forceConfirmations := false
  needsParityCorrection := false
  useUnauthorizedMode := false
  authInfo := some ⟨[1], fun _ => 1⟩

/-- The session is replaced between a transaction and its completion block: the request is
left with the message id it was given in the old session. -/
theorem contexts_inSession_lateCompletion :
    ¬Machine.Always (RequestRun.step fun n => 4 * (n + 1 : BitVec 64))
      RequestRun.InCurrentSession (.init 5 none)
      [(.addRequest oneRequest : RequestEvent Unit),
        .transaction requestsAlone [] ⟨false, 0, none⟩ 6, .resetSessionInfo 7,
        .completion 0 (some 1)] := by
  intro h
  exact absurd h.last (by decide +kernel)

end Telegraph.MtProto
