import Telegraph.MtProto.SessionRun
import Telegraph.MtProto.TLBytes

/-!
# Requests

`MTRequestMessageService` keeps the requests of the API layer until the server has answered
them. A request that has been prepared carries a context: the message id and sequence number
it was given, and the transaction id under which the transport took it. The context tells
answers apart, and a request whose transaction may have failed is sent again under it.

Times are integers (milliseconds), the scanner for the seconds of a flood wait is a
parameter, and `shouldDependOnRequest` is a predicate on internal ids. The field `session`
of a context exists for the statements only: it is the number of the session that drew the
message id. Completion and progress blocks of the requests, the request timer and the quick
acks are left out.

## Main results

* `inSession_map`, `inSession_updateFirst`: the two ways the methods of the service go
  through the list of requests keep contexts in their session.
* `inSession_processIncomingMessage`: no incoming message moves a request to another session.
* `inSession_prepared`: neither does the prepared block of a transaction whose messages for
  the requests are of their session.
* `inSession_accepted_iff`: the completion block does, exactly when it writes a context of
  another session.
-/

open Bytes

namespace Telegraph.MtProto

/-! ### Requests -/

/-- `MTRequestContext`. -/
structure RequestContext where
  messageId : BitVec 64
  messageSeqNo : BitVec 32
  session : ℕ
  waitingForMessageId : Bool
  transactionId : Option ℕ
  delivered : Bool
  responseMessageId : BitVec 64
  willInitializeApi : Bool
deriving DecidableEq

/-- `MTRequestErrorContext`. -/
structure RequestErrorContext where
  minimalExecuteTime : ℤ
  internalServerErrorCount : ℕ
  floodWaitSeconds : ℤ
  waitingForTokenExport : Bool
deriving DecidableEq

/-- A new `MTRequestErrorContext`. -/
def RequestErrorContext.init : RequestErrorContext where
  minimalExecuteTime := 0
  internalServerErrorCount := 0
  floodWaitSeconds := 0
  waitingForTokenExport := false

/-- `MTRequest`. The response parser tells whether it returns a result. -/
structure Request where
  internalId : ℕ
  payload : List UInt8
  responseParser : Option (List UInt8) → Bool
  requestContext : Option RequestContext
  errorContext : Option RequestErrorContext
  hasHighPriority : Bool
  dependsOnPasswordEntry : Bool
  hasAcknowledgementReceived : Bool
  shouldContinueExecutionWithErrorContext : Option (RequestErrorContext → Bool)
  shouldDependOnRequest : Option (ℕ → Bool)

/-- `MTDropResponseContext`, with the session of its message id. -/
structure DropResponseContext where
  dropMessageId : BitVec 64
  messageId : BitVec 64
  messageSeqNo : BitVec 32
  session : ℕ
deriving DecidableEq

/-- What the service uses of `MTApiEnvironment`, with the layer of the serialization. -/
structure ApiEnvironment where
  currentLayer : BitVec 32
  apiId : BitVec 32
  deviceModel : Option (List UInt8)
  systemVersion : Option (List UInt8)
  appVersion : Option (List UInt8)
  systemLangCode : Option (List UInt8)
  langPack : Option (List UInt8)
  langPackCode : Option (List UInt8)
  apiInitializationHash : List UInt8
  disableUpdates : Bool

/-- `MTRequestMessageService`. -/
structure RequestService where
  apiEnvironment : Option ApiEnvironment
  requests : List Request
  dropResponseContexts : List DropResponseContext

/-- The loops that act on the first element with a property: it is replaced or removed. -/
def updateFirst {α : Type} (p : α → Bool) (f : α → Option α) : List α → List α
  | [] => []
  | x :: xs => if p x then (f x).toList ++ xs else x :: updateFirst p f xs

/-- Whether the request has a context with the message id. -/
def Request.hasMessageId (messageId : BitVec 64) (request : Request) : Bool :=
  request.requestContext.any fun c => c.messageId = messageId

/-- `addRequest:`. -/
def RequestService.addRequest (request : Request) (s : RequestService) : RequestService :=
  if s.requests.any fun r => r.internalId = request.internalId then s
  else { s with requests := s.requests ++ [request] }

/-- `removeRequestByInternalId:`; the answer to a request already sent is to be dropped. -/
def RequestService.removeRequestByInternalId (internalId : ℕ) (s : RequestService) :
    RequestService :=
  match s.requests.find? fun r => r.internalId = internalId with
  | none => s
  | some request =>
      { s with
        requests := updateFirst (fun r => r.internalId = internalId) (fun _ => none) s.requests
        dropResponseContexts := s.dropResponseContexts ++
          match request.requestContext with
          | some c => [⟨c.messageId, 0, 0, 0⟩]
          | none => [] }

/-! ### Making a transaction -/

/-- What `appendTLString:` appends; the strings of an API environment are short. -/
def appendTLString (s : Option (List UInt8)) : List UInt8 :=
  (tlBytes s).getD []

/-- The `invokeAfterMsg` prefix. -/
def invokeAfterMsg (messageId : BitVec 64) (currentData : List UInt8) : List UInt8 :=
  toLE 4 0xcb9f372d ++ toLE 8 messageId.toNat ++ currentData

/-- `decorateRequestData:initializeApi:unresolvedDependencyOnRequestInternalId:`: the data,
and the internal id of a request it depends on that has no message id yet. -/
def RequestService.decorateRequestData (request : Request) (initializeApi : Bool)
    (s : RequestService) : List UInt8 × Option ℕ :=
  let currentData := request.payload
  let currentData :=
    match s.apiEnvironment with
    | some env =>
        if initializeApi then
          let layerSupportsLangpacks := (67 : BitVec 32).sle env.currentLayer
          toLE 4 0xda9b0d0d ++ toLE 4 env.currentLayer.toNat ++
            toLE 4 (if layerSupportsLangpacks then 0xc7481da6 else 0x69796de9) ++
            toLE 4 env.apiId.toNat ++ appendTLString env.deviceModel ++
            appendTLString env.systemVersion ++ appendTLString env.appVersion ++
            appendTLString env.systemLangCode ++
            (if layerSupportsLangpacks then
              appendTLString env.langPack ++ appendTLString env.langPackCode
            else []) ++ currentData
        else currentData
    | none => currentData
  let currentData :=
    if s.apiEnvironment.any ApiEnvironment.disableUpdates then toLE 4 0xbf9459b7 ++ currentData
    else currentData
  match request.shouldDependOnRequest with
  | none => (currentData, none)
  | some shouldDependOnRequest =>
      let earlier := s.requests.takeWhile fun r => r.internalId ≠ request.internalId
      match earlier.reverse.find? fun r => shouldDependOnRequest r.internalId with
      | none => (currentData, none)
      | some anotherRequest =>
          match anotherRequest.requestContext with
          | some c => (invokeAfterMsg c.messageId currentData, none)
          | none => (currentData, some anotherRequest.internalId)

/-- What `mtProtoMessageTransaction:` asks of its surroundings. -/
structure RequestEnvironment where
  isPasswordInputRequired : Bool
  currentTime : ℤ
  /-- The attribute of the auth info under which the API was initialized. -/
  apiInitializationHash : Option (List UInt8)

/-- `requestsWillInitializeApi`. -/
def RequestService.requestsWillInitializeApi (env : RequestEnvironment) (s : RequestService) :
    Bool :=
  s.apiEnvironment.any fun e => some e.apiInitializationHash ≠ env.apiInitializationHash

/-- Whether a request goes into the transaction. -/
def Request.isReady (env : RequestEnvironment) (request : Request) : Bool :=
  !(request.dependsOnPasswordEntry && env.isPasswordInputRequired) &&
  !(request.errorContext.any fun e =>
      decide (env.currentTime < e.minimalExecuteTime) || e.waitingForTokenExport) &&
  request.requestContext.all fun c =>
    !c.waitingForMessageId && !c.delivered && c.transactionId = none

/-- What the blocks of the transaction capture. -/
structure RequestBlocks where
  requestInternalIdToMessageInternalId : List (ℕ × ℕ)
  dropMessageIdToMessageInternalId : List (BitVec 64 × ℕ)
  requestsWillInitializeApi : Bool
deriving DecidableEq

/-- The blocks of a transaction whose first message gets the internal id `base`. -/
def RequestService.blocks (env : RequestEnvironment) (base : ℕ) (s : RequestService) :
    RequestBlocks :=
  let ready := s.requests.filter (Request.isReady env)
  { requestInternalIdToMessageInternalId :=
      ready.mapIdx fun i request => (request.internalId, base + i)
    dropMessageIdToMessageInternalId :=
      s.dropResponseContexts.mapIdx fun i c => (c.dropMessageId, base + ready.length + i)
    requestsWillInitializeApi := s.requestsWillInitializeApi env }

/-- The dynamic decorator of a request with an unresolved dependency. -/
def RequestBlocks.dynamicDecorator (blocks : RequestBlocks) (requestInternalId : ℕ)
    (currentData : List UInt8) (prepared : List PreparedMessage) : Option (List UInt8) :=
  match blocks.requestInternalIdToMessageInternalId.lookup requestInternalId with
  | none => some currentData
  | some messageInternalId =>
      match lookupPrepared prepared messageInternalId with
      | some preparedMessage => some (invokeAfterMsg preparedMessage.messageId currentData)
      | none => some currentData

/-- The outgoing message of a request. -/
def RequestService.requestMessage (env : RequestEnvironment) (blocks : RequestBlocks)
    (s : RequestService) (internalId : ℕ) (request : Request) : OutgoingMessage :=
  let decorated := s.decorateRequestData request (s.requestsWillInitializeApi env)
  { OutgoingMessage.init internalId decorated.1 with
    messageId := (request.requestContext.map RequestContext.messageId).getD 0
    messageSeqNo := (request.requestContext.map RequestContext.messageSeqNo).getD 0
    session := (request.requestContext.map RequestContext.session).getD 0
    needsQuickAck := request.hasAcknowledgementReceived
    hasHighPriority := request.hasHighPriority
    dynamicDecorator := decorated.2.map blocks.dynamicDecorator }

/-- The outgoing message that drops an answer. -/
def dropMessage (internalId : ℕ) (c : DropResponseContext) : OutgoingMessage :=
  { OutgoingMessage.init internalId (toLE 4 0x58e4a740 ++ toLE 8 c.dropMessageId.toNat) with
    messageId := c.messageId
    messageSeqNo := c.messageSeqNo
    session := c.session
    requiresConfirmation := false }

/-- `mtProtoMessageTransaction:`; the new messages get the internal ids from `base` on. -/
def RequestService.messageTransaction (env : RequestEnvironment) (base : ℕ)
    (s : RequestService) : Option MessageTransaction :=
  let ready := s.requests.filter (Request.isReady env)
  let messages :=
    ready.mapIdx (fun i request => s.requestMessage env (s.blocks env base) (base + i) request) ++
      s.dropResponseContexts.mapIdx fun i c => dropMessage (base + ready.length + i) c
  if messages.isEmpty then none else some ⟨messages, false⟩

/-- The context the prepared block gives a request. -/
def RequestBlocks.preparedContext (blocks : RequestBlocks) (prepared : List PreparedMessage)
    (request : Request) : Option RequestContext := do
  let messageInternalId ←
    blocks.requestInternalIdToMessageInternalId.lookup request.internalId
  let preparedMessage ← lookupPrepared prepared messageInternalId
  pure
    { messageId := preparedMessage.messageId
      messageSeqNo := preparedMessage.seqNo
      session := preparedMessage.session
      waitingForMessageId := true
      transactionId := none
      delivered := false
      responseMessageId := 0
      willInitializeApi := blocks.requestsWillInitializeApi }

/-- The prepared block of the transaction. -/
def RequestBlocks.prepared (blocks : RequestBlocks) (prepared : List PreparedMessage)
    (s : RequestService) : RequestService :=
  { s with
    requests := s.requests.map fun request =>
      match blocks.preparedContext prepared request with
      | some c => { request with requestContext := some c }
      | none => request }

/-- The context the completion block gives a request, for a payload accepted by the
transport. -/
def RequestBlocks.acceptedContext (blocks : RequestBlocks) (transactionId : ℕ)
    (t : TransportTransaction) (request : Request) : Option RequestContext := do
  let messageInternalId ←
    blocks.requestInternalIdToMessageInternalId.lookup request.internalId
  let preparedMessage ← t.preparedFor messageInternalId
  let transactionId ← t.transactionIdFor transactionId messageInternalId
  pure
    { messageId := preparedMessage.messageId
      messageSeqNo := preparedMessage.seqNo
      session := preparedMessage.session
      waitingForMessageId := false
      transactionId := some transactionId
      delivered := false
      responseMessageId := 0
      willInitializeApi := blocks.requestsWillInitializeApi }

/-- `request.requestContext.waitingForMessageId = false`, for the requests of the
transaction. -/
def RequestBlocks.stopWaiting (blocks : RequestBlocks) (request : Request) : Request :=
  if (blocks.requestInternalIdToMessageInternalId.lookup request.internalId).isSome then
    { request with
      requestContext := request.requestContext.map fun c =>
        { c with waitingForMessageId := false } }
  else request

/-- The completion block of the transaction when nothing was accepted. -/
def RequestBlocks.failed (blocks : RequestBlocks) (s : RequestService) : RequestService :=
  { s with requests := s.requests.map blocks.stopWaiting }

/-- The completion block of the transaction for an accepted payload. -/
def RequestBlocks.accepted (blocks : RequestBlocks) (transactionId : ℕ)
    (t : TransportTransaction) (s : RequestService) : RequestService :=
  { s with
    requests := s.requests.map fun request =>
      match blocks.acceptedContext transactionId t request with
      | some c => { blocks.stopWaiting request with requestContext := some c }
      | none => blocks.stopWaiting request
    dropResponseContexts := s.dropResponseContexts.map fun c =>
      match (blocks.dropMessageIdToMessageInternalId.reverse.lookup c.dropMessageId).bind
          t.preparedFor with
      | some preparedMessage =>
          { c with
            messageId := preparedMessage.messageId
            messageSeqNo := preparedMessage.seqNo
            session := preparedMessage.session }
      | none => c }

/-! ### Answers -/

/-- What an `rpc_result` holds: the answer to a drop request, an error, or data for the
parser of the request. -/
inductive RpcReply where
  | dropAnswer
  | error (errorCode : ℤ) (errorDescription : List UInt8)
  | data (unwrapped : Option (List UInt8))

/-- What `receivedMessage:` asks of its surroundings. -/
structure ReplyEnvironment where
  currentTime : ℤ
  hasRequiredAuthToken : Bool
  /-- The number behind `FLOOD_WAIT_` in a description. -/
  scanFloodWait : List UInt8 → Option ℤ

/-- The bytes of a string constant. -/
def utf8 (s : String) : List UInt8 :=
  s.toUTF8.toList

/-- `minimalExecuteTime` is put off. -/
def RequestErrorContext.putOff (time : ℤ) (e : RequestErrorContext) : RequestErrorContext :=
  { e with minimalExecuteTime := max e.minimalExecuteTime time }

/-- What an error does to a request: whether it is restarted, and its error context. -/
def Request.receivedError (env : ReplyEnvironment) (errorCode : ℤ)
    (errorDescription : List UInt8) (request : Request) : Bool × Option RequestErrorContext :=
  let errorContext := request.errorContext.getD .init
  let contains (s : String) : Bool := decide (utf8 s <:+: errorDescription)
  if errorCode = 401 then
    if contains "SESSION_PASSWORD_NEEDED" then (false, request.errorContext)
    else if env.hasRequiredAuthToken &&
        (contains "SESSION_REVOKED" || contains "AUTH_KEY_UNREGISTERED") then
      (true, some { errorContext with waitingForTokenExport := true })
    else (false, request.errorContext)
  else if errorCode = -500 ∨ errorCode = 500 then
    let e :=
      { errorContext with internalServerErrorCount := errorContext.internalServerErrorCount + 1 }
    if request.shouldContinueExecutionWithErrorContext.any fun f => f e then
      (true, some (e.putOff (env.currentTime + 2000)))
    else (false, some e)
  else if errorCode = 420 ∨ contains "FLOOD_WAIT_" = true then
    match if contains "FLOOD_WAIT_" then env.scanFloodWait errorDescription else none with
    | none => (false, some errorContext)
    | some errorWaitTime =>
        let e := { errorContext with floodWaitSeconds := errorWaitTime }
        if request.shouldContinueExecutionWithErrorContext.all fun f => f e then
          (true, some (e.putOff (env.currentTime + errorWaitTime * 1000)))
        else (false, some e)
  else (false, request.errorContext)

/-- What an answer does to the request it is for. Either way it loses its context. -/
def Request.receivedReply (env : ReplyEnvironment) (reply : RpcReply) (request : Request) :
    Option Request :=
  let failed (errorCode : ℤ) (errorDescription : List UInt8) : Option Request :=
    let outcome := request.receivedError env errorCode errorDescription
    if outcome.1 then some { request with requestContext := none, errorContext := outcome.2 }
    else none
  match reply with
  | .dropAnswer => none
  | .error errorCode errorDescription => failed errorCode errorDescription
  | .data unwrapped =>
      if request.responseParser unwrapped then none else failed 500 (utf8 "TL_PARSING_ERROR")

/-- `mtProto:receivedMessage:` for an `rpc_result`. -/
def RequestService.receivedMessage (env : ReplyEnvironment) (requestMessageId : BitVec 64)
    (reply : RpcReply) (s : RequestService) : RequestService :=
  match reply with
  | .dropAnswer =>
      { s with
        dropResponseContexts :=
          updateFirst (fun c => c.messageId = requestMessageId) (fun _ => none)
            s.dropResponseContexts }
  | reply =>
      { s with
        requests := updateFirst (Request.hasMessageId requestMessageId)
          (Request.receivedReply env reply) s.requests }

/-- How the service reads the data of an `rpc_result`: as a service message if it is one,
and otherwise, unwrapped, with the parser of the request. -/
def rpcReply (inflate : List UInt8 → Option NSData) (data : List UInt8) : Outcome RpcReply :=
  match (parseInternalMessage data).outcome with
  | .raised => .raised
  | .value .dropRpcResultUnknown => .value .dropAnswer
  | .value .dropRpcResultDroppedRunning => .value .dropAnswer
  | .value (.dropRpcResultDropped _ _ _) => .value .dropAnswer
  | .value (.rpcError errorCode errorDescription) =>
      .value (.error errorCode.toInt errorDescription)
  | _ =>
      match unwrapMessage inflate data with
      | .value unwrapped => .value (.data (some unwrapped))
      | .failed => .value (.data none)
      | .raised => .raised

/-! ### Deliveries and sessions -/

/-- A change to the contexts that pass a test. -/
def Request.updateContext (p : RequestContext → Bool)
    (f : RequestContext → Option RequestContext) (request : Request) : Request :=
  { request with
    requestContext := request.requestContext.bind fun c => if p c then f c else some c }

/-- `mtProto:messageDeliveryConfirmed:`, one id. -/
def RequestService.messageDeliveryConfirmed (messageId : BitVec 64) (s : RequestService) :
    RequestService :=
  { s with
    requests := updateFirst (Request.hasMessageId messageId)
      (fun request => some (request.updateContext (fun _ => true)
        fun c => some { c with delivered := true })) s.requests }

/-- `mtProto:messageDeliveryFailed:`. -/
def RequestService.messageDeliveryFailed (messageId : BitVec 64) (s : RequestService) :
    RequestService :=
  { s with
    requests := updateFirst (Request.hasMessageId messageId)
      (fun request => some { request with requestContext := none }) s.requests
    dropResponseContexts := updateFirst (fun c => c.messageId = messageId)
      (fun c => some { c with messageId := 0, messageSeqNo := 0 }) s.dropResponseContexts }

/-- `mtProto:transactionsMayHaveFailed:`, and `mtProtoAllTransactionsMayHaveFailed:` for
all transaction ids. -/
def RequestService.transactionsMayHaveFailed (failed : ℕ → Bool) (s : RequestService) :
    RequestService :=
  { s with
    requests := s.requests.map fun request =>
      request.updateContext (fun c => c.transactionId.any failed)
        fun c => some { c with transactionId := none } }

/-- `mtProto:shouldRequestMessageWithId:inResponseToMessageId:currentTransactionId:`, which
notes the id of the response. -/
def RequestService.shouldRequestMessage (responseMessageId messageId : BitVec 64)
    (currentTransactionId : ℕ) (s : RequestService) : Bool × RequestService :=
  (s.requests.any (Request.hasMessageId messageId),
    { s with
      requests := updateFirst (Request.hasMessageId messageId)
        (fun request => some (request.updateContext
          (fun c => c.transactionId.all fun t => t = currentTransactionId)
          fun c => some { c with responseMessageId := responseMessageId })) s.requests })

/-- `mtProto:messageResendRequestFailed:`. -/
def RequestService.messageResendRequestFailed (messageId : BitVec 64) (s : RequestService) :
    RequestService :=
  { s with
    requests := s.requests.map fun request =>
      request.updateContext (fun c => c.responseMessageId = messageId) fun _ => none }

/-- `mtProtoDidChangeSession:`. -/
def RequestService.didChangeSession (s : RequestService) : RequestService :=
  { s with
    requests := s.requests.map fun request => { request with requestContext := none }
    dropResponseContexts := [] }

/-- `mtProtoServerDidChangeSession:firstValidMessageId:otherValidMessageIds:`. -/
def RequestService.serverDidChangeSession (firstValidMessageId : BitVec 64)
    (otherValidMessageIds : List (BitVec 64)) (s : RequestService) : RequestService :=
  { s with
    requests := s.requests.map fun request =>
      request.updateContext
        (fun c => c.messageId.slt firstValidMessageId &&
          !otherValidMessageIds.contains c.messageId) fun _ => none }

/-- `mtProtoAuthTokenUpdated:`. -/
def RequestService.authTokenUpdated (s : RequestService) : RequestService :=
  { s with
    requests := s.requests.map fun request =>
      { request with
        errorContext := request.errorContext.map fun e =>
          { e with waitingForTokenExport := false } } }

/-! ### Incoming messages -/

/-- What processing an incoming message asks of its surroundings: the mode of `MTProto`,
the transaction id the message came under, zlib, what an answer needs, and whether the
services asked before or after this one want a message requested again. -/
structure MessageEnvironment where
  useUnauthorizedMode : Bool
  transactionId : ℕ
  inflate : List UInt8 → Option NSData
  reply : ReplyEnvironment
  requestedBefore : Bool
  requestedAfter : Bool

section Incoming

variable {α : Type}

/-- `shouldRequest` in `_processIncomingMessage:withTransactionId:`. -/
def RequestService.shouldRequest (env : MessageEnvironment) (body : ParsedObject α)
    (s : RequestService) : Bool :=
  match body with
  | .internal (.msgDetailedResponseInfo requestMessageId responseMessageId _ _) =>
      env.requestedBefore ||
        (s.shouldRequestMessage responseMessageId requestMessageId env.transactionId).1 ||
        env.requestedAfter
  | _ => true

/-- What `_processIncomingMessage:withTransactionId:` has the service do for a message that
was not processed before. -/
def RequestService.processIncomingMessage (env : MessageEnvironment) (session : SessionInfo)
    (body : ParsedObject α) (s : RequestService) : RequestService :=
  let deliveryFailed (badMessageId : BitVec 64) : RequestService :=
    if env.useUnauthorizedMode then s
    else
      (badMessageId :: (session.messageIdsInContainer badMessageId).getD []).foldl
        (fun s messageId => s.messageDeliveryFailed messageId) s
  match body with
  | .internal (.badMsgNotification badMessageId _ _) => deliveryFailed badMessageId
  | .internal (.badServerSaltNotification badMessageId _ _ _) => deliveryFailed badMessageId
  | .internal (.msgsAck messageIds) =>
      messageIds.foldl (fun s messageId => s.messageDeliveryConfirmed messageId) s
  | .internal (.msgDetailedResponseInfo requestMessageId responseMessageId _ _) =>
      if env.requestedBefore then s
      else (s.shouldRequestMessage responseMessageId requestMessageId env.transactionId).2
  | .internal (.newSessionCreated firstMessageId _ _) =>
      s.serverDidChangeSession firstMessageId
        (session.messageIdsInContainersAfterMessageId firstMessageId)
  | .internal (.rpcResult requestMessageId data) =>
      match rpcReply env.inflate data with
      | .value reply => s.receivedMessage env.reply requestMessageId reply
      | .failed => s
      | .raised => s
  | _ => s

end Incoming

/-! ### The session of a context -/

/-- The context of the request, if it has one, is of the session with the number. -/
def Request.InSession (number : ℕ) (request : Request) : Prop :=
  ∀ c ∈ request.requestContext, c.session = number

/-- Every context is of the session with the number. -/
def RequestService.InSession (number : ℕ) (s : RequestService) : Prop :=
  ∀ request ∈ s.requests, request.InSession number

section InSession

variable {number : ℕ} {s : RequestService} {request : Request}

theorem inSession_of_none (h : request.requestContext = none) : request.InSession number := by
  simp [Request.InSession, h]

/-- What is done to every request. -/
theorem inSession_map {f : Request → Request}
    (hf : ∀ request ∈ s.requests, request.InSession number → (f request).InSession number)
    (h : s.InSession number) : ∀ request ∈ s.requests.map f, request.InSession number := by
  intro request hrequest
  obtain ⟨r, hr, rfl⟩ := List.mem_map.mp hrequest
  exact hf r hr (h r hr)

/-- What is done to the first request with a property. -/
theorem inSession_updateFirst {p : Request → Bool} {f : Request → Option Request}
    (hf : ∀ request : Request, request.InSession number →
      ∀ request' ∈ f request, request'.InSession number)
    {requests : List Request} (h : ∀ request ∈ requests, request.InSession number) :
    ∀ request ∈ updateFirst p f requests, request.InSession number := by
  induction requests with
  | nil => exact h
  | cons r rs ih =>
      have hr := h r List.mem_cons_self
      have hrs : ∀ request ∈ rs, request.InSession number :=
        fun request hrequest => h request (List.mem_cons_of_mem r hrequest)
      intro request hrequest
      unfold updateFirst at hrequest
      split at hrequest
      · rcases List.mem_append.mp hrequest with hmem | hmem
        · exact hf r hr request (Option.mem_toList.mp hmem)
        · exact hrs request hmem
      · rcases List.mem_cons.mp hrequest with rfl | hmem
        · exact hr
        · exact ih hrs request hmem

/-- A context that changes keeps its session, or is given up. -/
theorem inSession_updateContext {p : RequestContext → Bool}
    {f : RequestContext → Option RequestContext}
    (hf : ∀ c, ∀ c' ∈ f c, c'.session = c.session) (h : request.InSession number) :
    (request.updateContext p f).InSession number := by
  intro c hc
  obtain ⟨c₀, hc₀, hc⟩ := Option.mem_bind_iff.mp hc
  split at hc
  · exact (hf c₀ c hc).trans (h c₀ hc₀)
  · obtain rfl := Option.mem_some_iff.mp hc
    exact h c₀ hc₀

theorem inSession_addRequest (hrequest : request.InSession number)
    (h : s.InSession number) : (s.addRequest request).InSession number := by
  unfold RequestService.addRequest
  split
  · exact h
  · intro r hr
    rcases List.mem_append.mp hr with hr | hr
    · exact h r hr
    · obtain rfl := List.mem_singleton.mp hr
      exact hrequest

theorem inSession_removeRequestByInternalId (internalId : ℕ) (h : s.InSession number) :
    (s.removeRequestByInternalId internalId).InSession number := by
  unfold RequestService.removeRequestByInternalId
  split
  · exact h
  · exact inSession_updateFirst (by simp) h

/-- An answer takes the context away. -/
theorem inSession_receivedReply {env : ReplyEnvironment} {reply : RpcReply} :
    ∀ request' ∈ request.receivedReply env reply, request'.InSession number := by
  have hfailed : ∀ outcome : Bool × Option RequestErrorContext, ∀ request' ∈
      (if outcome.1 then
        some { request with requestContext := none, errorContext := outcome.2 }
      else none), request'.InSession number := by
    intro outcome request' h
    split at h
    · obtain rfl := Option.mem_some_iff.mp h
      exact inSession_of_none rfl
    · simp at h
  unfold Request.receivedReply
  dsimp only
  split
  · simp
  · exact hfailed _
  · split
    · simp
    · exact hfailed _

theorem inSession_receivedMessage (env : ReplyEnvironment) (requestMessageId : BitVec 64)
    (reply : RpcReply) (h : s.InSession number) :
    (s.receivedMessage env requestMessageId reply).InSession number := by
  unfold RequestService.receivedMessage
  split
  · exact h
  · exact inSession_updateFirst (fun _ _ => inSession_receivedReply) h

theorem inSession_messageDeliveryConfirmed (messageId : BitVec 64) (h : s.InSession number) :
    (s.messageDeliveryConfirmed messageId).InSession number := by
  refine inSession_updateFirst (fun request hrequest request' h' => ?_) h
  obtain rfl := Option.mem_some_iff.mp h'
  exact inSession_updateContext (by simp) hrequest

theorem inSession_messageDeliveryFailed (messageId : BitVec 64) (h : s.InSession number) :
    (s.messageDeliveryFailed messageId).InSession number := by
  refine inSession_updateFirst (fun request _ request' h' => ?_) h
  obtain rfl := Option.mem_some_iff.mp h'
  exact inSession_of_none rfl

theorem inSession_transactionsMayHaveFailed (failed : ℕ → Bool) (h : s.InSession number) :
    (s.transactionsMayHaveFailed failed).InSession number :=
  inSession_map (fun _ _ => inSession_updateContext (by simp)) h

theorem inSession_shouldRequestMessage (responseMessageId messageId : BitVec 64)
    (currentTransactionId : ℕ) (h : s.InSession number) :
    (s.shouldRequestMessage responseMessageId messageId currentTransactionId).2.InSession
      number := by
  refine inSession_updateFirst (fun request hrequest request' h' => ?_) h
  obtain rfl := Option.mem_some_iff.mp h'
  exact inSession_updateContext (by simp) hrequest

theorem inSession_messageResendRequestFailed (messageId : BitVec 64) (h : s.InSession number) :
    (s.messageResendRequestFailed messageId).InSession number :=
  inSession_map (fun _ _ => inSession_updateContext (by simp)) h

theorem inSession_serverDidChangeSession (firstValidMessageId : BitVec 64)
    (otherValidMessageIds : List (BitVec 64)) (h : s.InSession number) :
    (s.serverDidChangeSession firstValidMessageId otherValidMessageIds).InSession number :=
  inSession_map (fun _ _ => inSession_updateContext (by simp)) h

theorem inSession_authTokenUpdated (h : s.InSession number) :
    s.authTokenUpdated.InSession number :=
  inSession_map (fun _ _ hrequest => hrequest) h

/-- After `mtProtoDidChangeSession:` no request has a context. -/
theorem inSession_didChangeSession (s : RequestService) : s.didChangeSession.InSession number := by
  intro request hrequest
  obtain ⟨r, -, rfl⟩ := List.mem_map.mp hrequest
  exact inSession_of_none rfl

/-- What is done for a list of ids. -/
theorem inSession_foldl {f : RequestService → BitVec 64 → RequestService}
    (hf : ∀ s messageId, s.InSession number → (f s messageId).InSession number)
    (messageIds : List (BitVec 64)) (h : s.InSession number) :
    (messageIds.foldl f s).InSession number := by
  induction messageIds generalizing s with
  | nil => exact h
  | cons messageId messageIds ih => exact ih (hf s messageId h)

/-- **No incoming message moves a request to another session.** -/
theorem inSession_processIncomingMessage {α : Type} (env : MessageEnvironment)
    (session : SessionInfo) (body : ParsedObject α) (h : s.InSession number) :
    (s.processIncomingMessage env session body).InSession number := by
  have hfailed : ∀ badMessageId : BitVec 64, (if env.useUnauthorizedMode then s else
      (badMessageId :: (session.messageIdsInContainer badMessageId).getD []).foldl
        (fun s messageId => s.messageDeliveryFailed messageId) s).InSession number := by
    intro badMessageId
    split
    · exact h
    · exact inSession_foldl (fun _ _ => inSession_messageDeliveryFailed _) _ h
  unfold RequestService.processIncomingMessage
  dsimp only
  split
  · exact hfailed _
  · exact hfailed _
  · exact inSession_foldl (fun _ _ => inSession_messageDeliveryConfirmed _) _ h
  · split
    · exact h
    · exact inSession_shouldRequestMessage _ _ _ h
  · exact inSession_serverDidChangeSession _ _ h
  · split
    · exact inSession_receivedMessage _ _ _ h
    · exact h
    · exact h
  · exact h

/-! ### The blocks of a transaction -/

theorem inSession_stopWaiting (blocks : RequestBlocks) (h : request.InSession number) :
    (blocks.stopWaiting request).InSession number := by
  unfold RequestBlocks.stopWaiting
  split
  · intro c hc
    obtain ⟨c₀, hc₀, rfl⟩ := Option.mem_map.mp hc
    exact h c₀ hc₀
  · exact h

theorem inSession_failed (blocks : RequestBlocks) (h : s.InSession number) :
    (blocks.failed s).InSession number :=
  inSession_map (fun _ _ => inSession_stopWaiting blocks) h

/-- Every message prepared for a request of the transaction is of the session with the
number. -/
def RequestBlocks.PreparedIn (blocks : RequestBlocks) (prepared : List PreparedMessage)
    (number : ℕ) : Prop :=
  ∀ entry ∈ blocks.requestInternalIdToMessageInternalId, ∀ p ∈ prepared,
    p.messageInternalId = entry.2 → p.session = number

theorem RequestBlocks.PreparedIn.session {blocks : RequestBlocks}
    {prepared : List PreparedMessage} (h : blocks.PreparedIn prepared number)
    {requestInternalId messageInternalId : ℕ}
    (hlookup : blocks.requestInternalIdToMessageInternalId.lookup requestInternalId =
      some messageInternalId) {p : PreparedMessage}
    (hp : lookupPrepared prepared messageInternalId = some p) : p.session = number := by
  obtain ⟨l₁, l₂, hsplit, -⟩ := List.lookup_eq_some_iff.mp hlookup
  obtain ⟨hmem, hid⟩ := mem_of_lookupPrepared hp
  have hentry : (requestInternalId, messageInternalId) ∈
      blocks.requestInternalIdToMessageInternalId := by
    rw [hsplit]
    simp
  exact h _ hentry p hmem hid

/-- The prepared block gives contexts of the session the messages were prepared in. -/
theorem inSession_prepared {blocks : RequestBlocks} {prepared : List PreparedMessage}
    (hprepared : blocks.PreparedIn prepared number) (h : s.InSession number) :
    (blocks.prepared prepared s).InSession number := by
  refine inSession_map (fun request _ hrequest => ?_) h
  split
  case h_1 c hc =>
    intro c' hc'
    obtain rfl := Option.mem_some_iff.mp hc'
    simp only [RequestBlocks.preparedContext, Option.bind_eq_bind, Option.bind_eq_some_iff,
      Option.pure_def, Option.some.injEq] at hc
    obtain ⟨messageInternalId, hlookup, p, hp, rfl⟩ := hc
    exact hprepared.session hlookup hp
  case h_2 => exact hrequest

/-- One of the messages in the payload is for the request. -/
def RequestBlocks.HasMessage (blocks : RequestBlocks) (t : TransportTransaction)
    (request : Request) : Prop :=
  ∃ messageInternalId ∈ t.messageInternalIds,
    blocks.requestInternalIdToMessageInternalId.lookup request.internalId =
      some messageInternalId

section Accepted

variable {blocks : RequestBlocks} {transactionId : ℕ} {t : TransportTransaction}

/-- The completion block of an accepted payload writes a context for a request only if one
of the messages is for it, and the context is of the session of that message. -/
theorem hasMessage_of_acceptedContext {c : RequestContext}
    (hprepared : blocks.PreparedIn t.prepared number)
    (h : blocks.acceptedContext transactionId t request = some c) :
    blocks.HasMessage t request ∧ c.session = number := by
  simp only [RequestBlocks.acceptedContext, Option.bind_eq_bind, Option.bind_eq_some_iff,
    Option.pure_def, Option.some.injEq] at h
  obtain ⟨messageInternalId, hlookup, p, hp, -, -, rfl⟩ := h
  unfold TransportTransaction.preparedFor at hp
  split at hp
  case isTrue hmem =>
    exact ⟨⟨messageInternalId, List.contains_iff_mem.mp hmem, hlookup⟩,
      hprepared.session hlookup hp⟩
  case isFalse => simp at hp

/-- The completion block of an accepted payload does write a context for a request one of
the messages is for. -/
theorem acceptedContext_of_hasMessage (hcarried : ∀ m ∈ t.payload.messages, m ∈ t.prepared)
    (h : blocks.HasMessage t request) :
    ∃ c, blocks.acceptedContext transactionId t request = some c := by
  obtain ⟨messageInternalId, hmem, hlookup⟩ := h
  obtain ⟨m, hm, hid⟩ := List.mem_map.mp hmem
  have hsome : (lookupPrepared t.prepared messageInternalId).isSome = true := by
    unfold lookupPrepared
    rw [List.find?_isSome]
    exact ⟨m, List.mem_reverse.mpr (hcarried m hm), by simpa using hid⟩
  obtain ⟨p, hp⟩ := Option.isSome_iff_exists.mp hsome
  simp [RequestBlocks.acceptedContext, hlookup, TransportTransaction.preparedFor,
    TransportTransaction.transactionIdFor, hmem, hp]

/-- **When an accepted payload keeps the contexts in their session**: when what it writes
is of that session. -/
theorem inSession_accepted_iff (h : s.InSession number) :
    (blocks.accepted transactionId t s).InSession number ↔
      ∀ request ∈ s.requests, ∀ c ∈ blocks.acceptedContext transactionId t request,
        c.session = number := by
  constructor
  · intro haccepted request hrequest c hc
    have hmem := List.mem_map_of_mem (f := fun request =>
      match blocks.acceptedContext transactionId t request with
      | some c => { blocks.stopWaiting request with requestContext := some c }
      | none => blocks.stopWaiting request) hrequest
    have hin := haccepted _ hmem
    rw [Option.mem_def.mp hc] at hin
    exact hin c rfl
  · intro hcontext
    refine inSession_map (fun request hrequest hin => ?_) h
    split
    case h_1 c hc =>
      intro c' hc'
      obtain rfl := Option.mem_some_iff.mp hc'
      exact hcontext request hrequest c hc
    case h_2 => exact inSession_stopWaiting blocks hin

end Accepted

end InSession

end Telegraph.MtProto
