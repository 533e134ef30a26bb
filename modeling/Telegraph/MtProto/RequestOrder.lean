import Telegraph.MtProto.RequestRun

/-!
# The Order of Dependent Requests

A request may ask to run after an earlier one. `decorateRequestData:` looks for the nearest
earlier request it should depend on. If that one has a message id, the data is wrapped with it; if
not, a decorator is left behind that looks for the id when the messages of the transaction are
prepared. It finds one only if the earlier request goes along. A request without a context that
waits for a password, for a flood wait to end or for a token does not, and then the later one is
sent as if it depended on nothing.

## Main results

* `prepared_decorated`: a message is decorated when the messages before it are prepared.
* `nodup_internalIds_step`: no internal id is listed twice.
* `keepsOrder_of_goAlong`: **a transaction wraps every dependent request** if what they depend on
  has a context or goes along.
* `unwrapped_of_skipped`: where it does neither, the request is sent bare.
* `keepsOrder_run`: the order is kept in every run of such steps.
-/

open Bytes

namespace Telegraph.MtProto

/-! ### Decorating -/

/-- The data of a message once its decorator has seen the messages prepared before it. -/
def OutgoingMessage.decoratedData (m : OutgoingMessage) (prepared : List PreparedMessage) :
    List UInt8 :=
  match m.dynamicDecorator with
  | some decorator => (decorator m.data prepared).getD m.data
  | none => m.data

section Decorating

variable {globalTime : ℕ → BitVec 64} {ctx : TransactionContext} {s : SessionInfo}

/-- **The induction rule of the loop over the messages**, with the messages seen so far. -/
theorem prepare_history {Q : List OutgoingMessage → Batch → Prop} (ctx : TransactionContext)
    (s : SessionInfo) (hinit : Q [] ⟨(ctx.messageSalt globalTime s).2, [], false, false, false⟩)
    (hquick : ∀ seen b, Q seen b → Q seen { b with needsQuickAck := true })
    (hstep : ∀ messageSalt seen m b, Q seen b →
      Q (seen ++ [m]) (b.prepareMessage globalTime ctx messageSalt m)) :
    Q (ctx.outgoing s) (ctx.prepare globalTime s) := by
  have hmessages : ∀ messageSalt (ms seen : List OutgoingMessage) b, Q seen b →
      Q (seen ++ ms) (ms.foldl (Batch.prepareMessage globalTime ctx messageSalt) b) := by
    intro messageSalt ms
    induction ms with
    | nil =>
        intro seen b hb
        rwa [List.append_nil]
    | cons m ms ih =>
        intro seen b hb
        have hrest := ih (seen ++ [m]) _ (hstep messageSalt seen m b hb)
        rwa [List.append_assoc] at hrest
  have htransactions : ∀ messageSalt (ts : List MessageTransaction) (seen : List OutgoingMessage)
      b, Q seen b → Q (seen ++ ts.flatMap MessageTransaction.messagePayload)
        (ts.foldl (Batch.prepareTransaction globalTime ctx messageSalt) b) := by
    intro messageSalt ts
    induction ts with
    | nil =>
        intro seen b hb
        rwa [List.flatMap_nil, List.append_nil]
    | cons t ts ih =>
        intro seen b hb
        have hfirst : Q (seen ++ t.messagePayload)
            (b.prepareTransaction globalTime ctx messageSalt t) := by
          have hall := hmessages messageSalt t.messagePayload seen b hb
          rw [Batch.prepareTransaction]
          split
          · exact hquick _ _ hall
          · exact hall
        rw [List.flatMap_cons, ← List.append_assoc]
        exact ih _ _ hfirst
  exact htransactions _ _ [] _ hinit

/-- A message is prepared, decorated by what was prepared before, or the ids have gone backwards. -/
theorem prepareMessage_cases (globalTime : ℕ → BitVec 64) (ctx : TransactionContext)
    (messageSalt : BitVec 64) (b : Batch) (m : OutgoingMessage) :
    (∃ p : PreparedMessage, (b.prepareMessage globalTime ctx messageSalt m).prepared =
        b.prepared ++ [p] ∧ p.messageInternalId = m.internalId ∧
        p.data = m.decoratedData b.prepared ∧
        (!b.monotonityViolated || ctx.useUnauthorizedMode) = true) ∨
      (b.prepareMessage globalTime ctx messageSalt m).prepared = b.prepared ∧
        (b.prepareMessage globalTime ctx messageSalt m).monotonityViolated = true ∧
        ctx.useUnauthorizedMode = false := by
  by_cases hgo : (!(b.monotonityViolated || (m.identify globalTime b.session).2.1) ||
      ctx.useUnauthorizedMode) = true
  · have hbefore : (!b.monotonityViolated || ctx.useUnauthorizedMode) = true := by
      revert hgo
      cases b.monotonityViolated <;> simp
    have hprepared : (b.prepareMessage globalTime ctx messageSalt m).prepared = b.prepared ++
        [{ toMessageIdentity := (m.identify globalTime b.session).1
           messageInternalId := m.internalId
           data := m.decoratedData b.prepared
           salt := messageSalt
           requiresConfirmation := m.requiresConfirmation
           hasHighPriority := m.hasHighPriority
           inResponseToMessageId := m.inResponseToMessageId }] := by
      rw [Batch.prepareMessage]
      simp only [hgo, if_true]
      rfl
    exact .inl ⟨_, hprepared, rfl, rfl, hbefore⟩
  · have hmode : ctx.useUnauthorizedMode = false := by
      by_contra hmode
      rw [Bool.not_eq_false] at hmode
      exact hgo (by rw [hmode, Bool.or_true])
    refine .inr ⟨?_, ?_, hmode⟩
    · rw [Batch.prepareMessage]
      simp only [hgo]
      rfl
    · rw [Batch.prepareMessage]
      simp only [hgo]
      rfl

/-- The messages of these internal ids are prepared. -/
def AllPrepared (ms : List OutgoingMessage) (prepared : List PreparedMessage) : Prop :=
  ∀ m ∈ ms, ∃ p ∈ prepared, p.messageInternalId = m.internalId

/-- What is known while the messages are prepared: unless the ids have gone backwards, all messages
seen so far are prepared; and each was decorated when those before it were. -/
structure PreparedAsSeen (ctx : TransactionContext) (seen : List OutgoingMessage) (b : Batch) :
    Prop where
  all : (!b.monotonityViolated || ctx.useUnauthorizedMode) = true → AllPrepared seen b.prepared
  decorated : ∀ p ∈ b.prepared, ∃ before m after, seen = before ++ m :: after ∧
    p.messageInternalId = m.internalId ∧ ∃ earlier, earlier <+: b.prepared ∧
      AllPrepared before earlier ∧ p.data = m.decoratedData earlier

theorem preparedInOrder_prepare (ctx : TransactionContext) (s : SessionInfo) :
    PreparedAsSeen ctx (ctx.outgoing s) (ctx.prepare globalTime s) := by
  refine prepare_history (Q := PreparedAsSeen ctx) ctx s ⟨by simp [AllPrepared], by simp⟩
    (fun seen b hb => ⟨hb.all, hb.decorated⟩) ?_
  intro messageSalt seen m b hb
  have hold : ∀ prepared, b.prepared <+: prepared → ∀ p ∈ b.prepared,
      ∃ before m' after, seen ++ [m] = before ++ m' :: after ∧
        p.messageInternalId = m'.internalId ∧ ∃ earlier, earlier <+: prepared ∧
          AllPrepared before earlier ∧ p.data = m'.decoratedData earlier := by
    intro prepared hstart p hp
    obtain ⟨before, m', after, hseen, hid, earlier, hearlier, hall, hdata⟩ := hb.decorated p hp
    exact ⟨before, m', after ++ [m], by simp [hseen], hid, earlier, hearlier.trans hstart, hall,
      hdata⟩
  rcases prepareMessage_cases globalTime ctx messageSalt b m with
    ⟨p₀, hprepared, hid, hdata, hgo⟩ | ⟨hprepared, hviolated, hmode⟩
  · have hbefore := hb.all hgo
    refine ⟨fun _ m' hm' => ?_, fun p hp => ?_⟩
    · rw [hprepared]
      rcases List.mem_append.mp hm' with hm' | hm'
      · obtain ⟨p, hp, hid⟩ := hbefore m' hm'
        exact ⟨p, List.mem_append_left _ hp, hid⟩
      · rw [List.mem_singleton.mp hm']
        exact ⟨p₀, List.mem_append_right _ (List.mem_singleton_self _), hid⟩
    · rw [hprepared] at hp ⊢
      rcases List.mem_append.mp hp with hp | hp
      · exact hold _ (List.prefix_append _ _) p hp
      · rw [List.mem_singleton.mp hp]
        exact ⟨seen, m, [], rfl, hid, b.prepared, List.prefix_append _ _, hbefore, hdata⟩
  · refine ⟨fun hgo => ?_, fun p hp => ?_⟩
    · rw [hviolated, hmode] at hgo
      exact absurd hgo Bool.false_ne_true
    · rw [hprepared] at hp ⊢
      exact hold _ (List.prefix_refl _) p hp

/-- **A message is decorated when the messages before it are prepared.** -/
theorem prepared_decorated {p : PreparedMessage} (h : p ∈ (ctx.prepare globalTime s).prepared) :
    ∃ before m after, ctx.outgoing s = before ++ m :: after ∧
      p.messageInternalId = m.internalId ∧ ∃ earlier,
        earlier <+: (ctx.prepare globalTime s).prepared ∧ AllPrepared before earlier ∧
          p.data = m.decoratedData earlier :=
  (preparedInOrder_prepare ctx s).decorated p h

end Decorating

/-! ### Dependencies -/

/-- `request.shouldDependOnRequest(anotherRequest)`. -/
def Request.accepts (request anotherRequest : Request) : Bool :=
  request.shouldDependOnRequest.any fun f => f anotherRequest.internalId

/-- Of the requests before `request` that it should depend on, `anotherRequest` is the nearest. -/
def RequestService.DependsOn (s : RequestService) (request anotherRequest : Request) : Prop :=
  ∃ before between after,
    s.requests = before ++ anotherRequest :: (between ++ request :: after) ∧
      request.accepts anotherRequest = true ∧ ∀ r ∈ between, request.accepts r = false

/-- The data of a request without what it depends on. -/
def RequestService.undecoratedData (request : Request) (initializeApi : Bool)
    (s : RequestService) : List UInt8 :=
  (s.decorateRequestData { request with shouldDependOnRequest := none } initializeApi).1

/-- The message id of a request: that of its context, or else of a message prepared for it. -/
def RequestBlocks.HasMessageId (blocks : RequestBlocks) (prepared : List PreparedMessage)
    (request : Request) (messageId : BitVec 64) : Prop :=
  match request.requestContext with
  | some c => messageId = c.messageId
  | none => ∃ p ∈ prepared, p.messageId = messageId ∧
      (request.internalId, p.messageInternalId) ∈ blocks.requestInternalIdToMessageInternalId

/-- Whatever is prepared for a request with a dependency is wrapped with a message id of the
nearest request that it depends on. -/
def RequestService.KeepsOrder (s : RequestService) (env : RequestEnvironment) (base : ℕ)
    (prepared : List PreparedMessage) : Prop :=
  ∀ request anotherRequest, s.DependsOn request anotherRequest → ∀ p ∈ prepared,
    (request.internalId, p.messageInternalId) ∈
        (s.blocks env base).requestInternalIdToMessageInternalId →
      ∃ messageId, (s.blocks env base).HasMessageId prepared anotherRequest messageId ∧
        p.data = invokeAfterMsg messageId
          (s.undecoratedData request (s.requestsWillInitializeApi env))

/-- Each request that goes into the transaction depends on one that has a context or goes along. -/
def RequestService.DependenciesGoAlong (s : RequestService) (env : RequestEnvironment) : Prop :=
  ∀ request anotherRequest, s.DependsOn request anotherRequest → request.isReady env = true →
    anotherRequest.requestContext ≠ none ∨ anotherRequest.isReady env = true

/-- The internal ids of the requests. -/
def RequestService.internalIds (s : RequestService) : List ℕ :=
  s.requests.map Request.internalId

section Dependencies

variable {s : RequestService} {env : RequestEnvironment} {base : ℕ}
  {request anotherRequest : Request}

/-- Up to its own key, an element of a list without duplicate keys has what stands before it. -/
theorem takeWhile_ne_of_nodup {α : Type} {f : α → ℕ} {before after : List α} {x : α}
    (h : ((before ++ x :: after).map f).Nodup) :
    ((before ++ x :: after).takeWhile fun y => decide (f y ≠ f x)) = before := by
  have hne : ∀ y ∈ before, f y ≠ f x := by
    rw [List.map_append, List.map_cons] at h
    intro y hy heq
    exact List.disjoint_of_nodup_append h (List.mem_map_of_mem hy) (heq ▸ List.mem_cons_self)
  rw [List.takeWhile_append_of_pos (by simpa using hne), List.takeWhile_cons_of_neg (by simp),
    List.append_nil]

/-- What `decorateRequestData:` does for a request with a dependency. -/
theorem decorateRequestData_of_dependsOn (hnodup : s.internalIds.Nodup)
    (h : s.DependsOn request anotherRequest) (initializeApi : Bool) :
    s.decorateRequestData request initializeApi =
      match anotherRequest.requestContext with
      | some c => (invokeAfterMsg c.messageId (s.undecoratedData request initializeApi), none)
      | none => (s.undecoratedData request initializeApi, some anotherRequest.internalId) := by
  obtain ⟨before, between, after, hrequests, haccepts, hbetween⟩ := h
  obtain ⟨f, hf, hother⟩ : ∃ f, request.shouldDependOnRequest = some f ∧
      f anotherRequest.internalId = true := by
    cases hf : request.shouldDependOnRequest with
    | none => simp [Request.accepts, hf] at haccepts
    | some f => exact ⟨f, rfl, by simpa [Request.accepts, hf] using haccepts⟩
  have hearlier : (s.requests.takeWhile fun r => decide (r.internalId ≠ request.internalId)) =
      before ++ anotherRequest :: between := by
    have hsplit : s.requests = (before ++ anotherRequest :: between) ++ request :: after := by
      rw [hrequests, List.append_assoc, List.cons_append]
    rw [RequestService.internalIds, hsplit] at hnodup
    rw [hsplit]
    exact takeWhile_ne_of_nodup hnodup
  have hfind : ((before ++ anotherRequest :: between).reverse.find? fun r => f r.internalId) =
      some anotherRequest := by
    rw [List.reverse_append, List.reverse_cons, List.append_assoc, List.find?_append,
      List.find?_eq_none.mpr, Option.none_or]
    · simp [hother]
    · intro r hr
      have hno := hbetween r (List.mem_reverse.mp hr)
      simpa [Request.accepts, hf] using hno
  rw [RequestService.undecoratedData, RequestService.decorateRequestData,
    RequestService.decorateRequestData]
  cases hcontext : anotherRequest.requestContext with
  | none => simp only [hf, hearlier, hfind, hcontext]
  | some c => simp only [hf, hearlier, hfind, hcontext]

/-- The messages of the requests that go into the transaction. -/
theorem mem_requestInternalIdToMessageInternalId {requestInternalId messageInternalId : ℕ} :
    (requestInternalId, messageInternalId) ∈
        (s.blocks env base).requestInternalIdToMessageInternalId ↔
      ∃ i r, (s.requests.filter (Request.isReady env))[i]? = some r ∧
        r.internalId = requestInternalId ∧ messageInternalId = base + i := by
  rw [RequestService.blocks]
  dsimp only
  rw [List.mem_mapIdx]
  constructor
  · rintro ⟨i, hi, heq⟩
    obtain ⟨rfl, rfl⟩ := Prod.mk.inj heq
    exact ⟨i, _, List.getElem?_eq_getElem hi, rfl, rfl⟩
  · rintro ⟨i, r, hget, rfl, rfl⟩
    obtain ⟨hi, rfl⟩ := List.getElem?_eq_some_iff.mp hget
    exact ⟨i, hi, rfl⟩

/-- The outgoing messages of the requests that go into the transaction. -/
def RequestService.requestMessages (s : RequestService) (env : RequestEnvironment) (base : ℕ) :
    List OutgoingMessage :=
  (s.requests.filter (Request.isReady env)).mapIdx fun i request =>
    s.requestMessage env (s.blocks env base) (base + i) request

/-- Whether the internal id is one of a message for a request. -/
def RequestService.isRequestMessage (s : RequestService) (env : RequestEnvironment) (base : ℕ)
    (m : OutgoingMessage) : Bool :=
  decide (base ≤ m.internalId) &&
    decide (m.internalId < base + (s.requests.filter (Request.isReady env)).length)

@[simp] theorem requestMessage_internalId (blocks : RequestBlocks) (internalId : ℕ) :
    (s.requestMessage env blocks internalId request).internalId = internalId := rfl

@[simp] theorem dropMessage_internalId (internalId : ℕ) (c : DropResponseContext) :
    (dropMessage internalId c).internalId = internalId := rfl

theorem flatMap_messageTransaction :
    (s.messageTransaction env base).toList.flatMap MessageTransaction.messagePayload =
      s.requestMessages env base ++ s.dropResponseContexts.mapIdx fun i c =>
        dropMessage (base + (s.requests.filter (Request.isReady env)).length + i) c := by
  rw [RequestService.messageTransaction, RequestService.requestMessages]
  split
  case isTrue hempty =>
    rw [List.isEmpty_iff.mp hempty]
    rfl
  case isFalse => simp

/-- Among all messages of a transaction those of the requests stand out by their internal ids. -/
theorem filter_outgoing_withRequests (s : RequestService) (env : RequestEnvironment)
    (ctx : TransactionContext) (others : List MessageTransaction) (session : SessionInfo) :
    ((ctx.withRequests others env s).outgoing session).filter
        (s.isRequestMessage env (ctx.base others)) =
      s.requestMessages env (ctx.base others) := by
  have hother : ∀ m ∈ (ctx.transportTransactions ++ (ctx.serviceTransactions ++ others)).flatMap
      MessageTransaction.messagePayload, s.isRequestMessage env (ctx.base others) m = false := by
    intro m hm
    have hlt : m.internalId < ctx.base others := @internalId_lt_nextInternalId
      { ctx with serviceTransactions := ctx.serviceTransactions ++ others } m hm
    rw [RequestService.isRequestMessage, decide_eq_false (by omega), Bool.false_and]
  have hmessages : ∀ m ∈ s.requestMessages env (ctx.base others),
      s.isRequestMessage env (ctx.base others) m = true := by
    intro m hm
    obtain ⟨i, hi, rfl⟩ := List.mem_mapIdx.mp hm
    simpa [RequestService.isRequestMessage] using hi
  have hdrop : ∀ m ∈ s.dropResponseContexts.mapIdx fun i c => dropMessage (ctx.base others +
      (s.requests.filter (Request.isReady env)).length + i) c,
      s.isRequestMessage env (ctx.base others) m = false := by
    intro m hm
    obtain ⟨i, hi, rfl⟩ := List.mem_mapIdx.mp hm
    rw [RequestService.isRequestMessage, dropMessage_internalId,
      decide_eq_false (p := _ < _) (by omega), Bool.and_false]
  have hack : s.isRequestMessage env (ctx.base others)
      ((ctx.withRequests others env s).msgsAckMessage session) = false := by
    by_contra hin
    simp only [RequestService.isRequestMessage, Bool.not_eq_false, Bool.and_eq_true,
      decide_eq_true_eq] at hin
    obtain ⟨hbase, hlt⟩ := hin
    have hmessage : s.requestMessage env (s.blocks env (ctx.base others))
        ((ctx.withRequests others env s).msgsAckMessage session).internalId
        ((s.requests.filter (Request.isReady env)).get ⟨_, Nat.sub_lt_left_of_lt_add hbase hlt⟩) ∈
          s.requestMessages env (ctx.base others) := by
      refine List.mem_mapIdx.mpr ⟨_, Nat.sub_lt_left_of_lt_add hbase hlt, ?_⟩
      rw [Nat.add_sub_cancel' hbase]
      rfl
    have hlater := @internalId_lt_nextInternalId (ctx.withRequests others env s) _ (by
      rw [List.flatMap_append, List.mem_append]
      refine .inr ?_
      rw [TransactionContext.withRequests]
      dsimp only
      rw [List.flatMap_append, List.flatMap_append, flatMap_messageTransaction]
      exact List.mem_append_left _ (List.mem_append_right _ (List.mem_append_left _ hmessage)))
    exact absurd hlater (lt_irrefl _)
  have hnone : ∀ ms : List OutgoingMessage,
      (∀ m ∈ ms, s.isRequestMessage env (ctx.base others) m = false) →
        ms.filter (s.isRequestMessage env (ctx.base others)) = [] := by
    intro ms hms
    refine List.filter_eq_nil_iff.mpr fun m hm => ?_
    rw [hms m hm]
    exact Bool.false_ne_true
  simp only [List.flatMap_append, List.mem_append] at hother
  have hconfirmations : ((if (ctx.withRequests others env s).confirmations session = [] then []
      else [⟨[(ctx.withRequests others env s).msgsAckMessage session], false⟩] :
        List MessageTransaction).flatMap MessageTransaction.messagePayload).filter
          (s.isRequestMessage env (ctx.base others)) = [] := by
    refine hnone _ fun m hm => ?_
    split at hm
    · simp at hm
    · rw [List.flatMap_singleton, List.mem_singleton] at hm
      rw [hm, hack]
  rw [TransactionContext.outgoing, TransactionContext.messageTransactions, List.flatMap_append,
    List.flatMap_append, List.filter_append, List.filter_append, hconfirmations, List.append_nil]
  have htransport : (ctx.withRequests others env s).transportTransactions =
      ctx.transportTransactions := rfl
  have hservices : (ctx.withRequests others env s).serviceTransactions =
      ctx.serviceTransactions ++ (s.messageTransaction env (ctx.base others)).toList ++ others :=
    rfl
  rw [htransport, hservices, List.flatMap_append, List.flatMap_append, flatMap_messageTransaction,
    List.filter_append, List.filter_append, List.filter_append,
    hnone _ fun m hm => hother m (.inl hm), hnone _ fun m hm => hother m (.inr (.inl hm)),
    hnone _ fun m hm => hother m (.inr (.inr hm)),
    hnone _ hdrop, List.filter_eq_self.mpr hmessages]
  simp

/-- A request is known by its internal id. -/
theorem eq_of_internalId (hnodup : s.internalIds.Nodup) {r r' : Request} (hr : r ∈ s.requests)
    (hr' : r' ∈ s.requests) (h : r.internalId = r'.internalId) : r = r' :=
  List.inj_on_of_nodup_map hnodup hr hr' h

section Prepared

variable {globalTime : ℕ → BitVec 64} {ctx : TransactionContext}
  {others : List MessageTransaction} {session : SessionInfo} {p : PreparedMessage}

/-- What is prepared for a request is its message, decorated when the messages of all earlier
requests were prepared. -/
theorem prepared_for_request (hnodup : s.internalIds.Nodup) (hmem : request ∈ s.requests)
    (hp : p ∈ ((ctx.withRequests others env s).prepare globalTime session).prepared)
    (hfor : (request.internalId, p.messageInternalId) ∈
      (s.blocks env (ctx.base others)).requestInternalIdToMessageInternalId) :
    ∃ i earlier, (s.requests.filter (Request.isReady env))[i]? = some request ∧
      earlier <+: ((ctx.withRequests others env s).prepare globalTime session).prepared ∧
      (∀ j < i, ∃ p' ∈ earlier, p'.messageInternalId = ctx.base others + j) ∧
      p.data = (s.requestMessage env (s.blocks env (ctx.base others)) (ctx.base others + i)
        request).decoratedData earlier := by
  obtain ⟨i, r, hget, hid, hplace⟩ := mem_requestInternalIdToMessageInternalId.mp hfor
  obtain rfl : r = request :=
    eq_of_internalId hnodup (List.mem_filter.mp (List.mem_of_getElem? hget)).1 hmem hid
  obtain ⟨before, m, after, hsplit, hmid, earlier, hstart, hall, hdata⟩ := prepared_decorated hp
  have hin : s.isRequestMessage env (ctx.base others) m = true := by
    obtain ⟨hi, -⟩ := List.getElem?_eq_some_iff.mp hget
    rw [RequestService.isRequestMessage, ← hmid, hplace, decide_eq_true (by omega),
      decide_eq_true (by omega)]
    rfl
  have hmessages := filter_outgoing_withRequests s env ctx others session
  rw [hsplit, List.filter_append, List.filter_cons_of_pos hin] at hmessages
  -- the messages of the requests before `m` are the first ones of all
  have hat : ∀ j r', (s.requests.filter (Request.isReady env))[j]? = some r' →
      (s.requestMessages env (ctx.base others))[j]? =
        some (s.requestMessage env (s.blocks env (ctx.base others)) (ctx.base others + j) r') := by
    intro j r' hj
    rw [RequestService.requestMessages, List.getElem?_mapIdx, hj]
    rfl
  have hlength : (before.filter (s.isRequestMessage env (ctx.base others))).length = i := by
    have hm : (s.requestMessages env (ctx.base others))[(before.filter
        (s.isRequestMessage env (ctx.base others))).length]? = some m := by
      rw [← hmessages]
      simp
    rw [RequestService.requestMessages, List.getElem?_mapIdx, Option.map_eq_some_iff] at hm
    obtain ⟨r', -, rfl⟩ := hm
    rw [requestMessage_internalId] at hmid
    omega
  refine ⟨i, earlier, hget, hstart, fun j hj => ?_, ?_⟩
  · obtain ⟨hi, -⟩ := List.getElem?_eq_some_iff.mp hget
    have hjth := hat j _ (List.getElem?_eq_getElem (lt_trans hj hi))
    rw [← hmessages, List.getElem?_append_left (by omega)] at hjth
    exact hall _ (List.mem_filter.mp (List.mem_of_getElem? hjth)).1
  · have hith := hat i r hget
    rw [← hmessages, List.getElem?_append_right (by omega), hlength, Nat.sub_self,
      List.getElem?_cons_zero, Option.some_inj] at hith
    rw [hdata, hith]

/-- The place of a request among those that go along, and that of one before it. -/
theorem ready_index_lt (hnodup : s.internalIds.Nodup) {i : ℕ}
    (h : s.DependsOn request anotherRequest)
    (hi : (s.requests.filter (Request.isReady env))[i]? = some request)
    (hready : anotherRequest.isReady env = true) :
    ∃ j < i, (s.requests.filter (Request.isReady env))[j]? = some anotherRequest := by
  obtain ⟨before, between, after, hrequests, -, -⟩ := h
  have hready' : request.isReady env = true :=
    (List.mem_filter.mp (List.mem_of_getElem? hi)).2
  have hfilter : s.requests.filter (Request.isReady env) =
      before.filter (Request.isReady env) ++ anotherRequest ::
        (between.filter (Request.isReady env) ++ request ::
          after.filter (Request.isReady env)) := by
    rw [hrequests, List.filter_append, List.filter_cons_of_pos hready, List.filter_append,
      List.filter_cons_of_pos hready']
  have hdistinct : (s.requests.filter (Request.isReady env)).Nodup :=
    (List.Nodup.of_map _ hnodup).filter _
  have hplace : (s.requests.filter (Request.isReady env))[(before.filter
      (Request.isReady env)).length + 1 + (between.filter (Request.isReady env)).length]? =
        some request := by
    rw [hfilter, List.getElem?_append_right (by omega), add_assoc, Nat.add_sub_cancel_left,
      Nat.add_comm 1, List.getElem?_cons_succ, List.getElem?_append_right le_rfl, Nat.sub_self,
      List.getElem?_cons_zero]
  have heq := (List.getElem?_inj (List.getElem?_eq_some_iff.mp hi).1 hdistinct).mp
    (hi.trans hplace.symm)
  refine ⟨(before.filter (Request.isReady env)).length, by omega, ?_⟩
  rw [hfilter, List.getElem?_append_right le_rfl, Nat.sub_self, List.getElem?_cons_zero]

/-- The messages of the requests are looked up by the internal ids of the requests. -/
theorem lookup_blocks (hnodup : s.internalIds.Nodup) {j : ℕ}
    (hj : (s.requests.filter (Request.isReady env))[j]? = some anotherRequest) :
    (s.blocks env base).requestInternalIdToMessageInternalId.lookup anotherRequest.internalId =
      some (base + j) := by
  obtain ⟨hlt, hget⟩ := List.getElem?_eq_some_iff.mp hj
  have hsplit : s.requests.filter (Request.isReady env) =
      (s.requests.filter (Request.isReady env)).take j ++ anotherRequest ::
        (s.requests.filter (Request.isReady env)).drop (j + 1) := by
    rw [← hget, ← List.drop_eq_getElem_cons hlt, List.take_append_drop]
  have hkeys : ((s.requests.filter (Request.isReady env)).map Request.internalId).Nodup :=
    hnodup.sublist (List.filter_sublist.map _)
  rw [hsplit, List.map_append, List.map_cons] at hkeys
  have hmap := congrArg
    (List.mapIdx fun i (request : Request) => (request.internalId, base + i)) hsplit
  rw [List.mapIdx_append, List.mapIdx_cons, List.length_take, min_eq_left hlt.le,
    Nat.zero_add] at hmap
  rw [List.lookup_eq_some_iff]
  refine ⟨_, _, hmap, ?_⟩
  rintro ⟨key, value⟩ hentry
  obtain ⟨k, hk, heq⟩ := List.mem_mapIdx.mp hentry
  obtain ⟨rfl, -⟩ := Prod.mk.inj heq
  have hne : anotherRequest.internalId ≠
      ((s.requests.filter (Request.isReady env)).take j)[k].internalId := fun hsame =>
    List.disjoint_of_nodup_append hkeys (List.mem_map_of_mem (List.getElem_mem hk))
      (hsame ▸ List.mem_cons_self)
  simpa using hne

/-- **A transaction wraps every dependent request**, if what they depend on has a context or goes
along. -/
theorem keepsOrder_of_goAlong (hnodup : s.internalIds.Nodup) (hgo : s.DependenciesGoAlong env) :
    s.KeepsOrder env (ctx.base others)
      ((ctx.withRequests others env s).prepare globalTime session).prepared := by
  intro request anotherRequest hdepends p hp hfor
  have hmem : request ∈ s.requests := by
    obtain ⟨before, between, after, hrequests, -, -⟩ := hdepends
    simp [hrequests]
  obtain ⟨i, earlier, hi, hstart, hbefore, hdata⟩ := prepared_for_request hnodup hmem hp hfor
  have hdecorated := decorateRequestData_of_dependsOn hnodup hdepends
    (s.requestsWillInitializeApi env)
  cases hc : anotherRequest.requestContext with
  | some c =>
      refine ⟨c.messageId, by simp [RequestBlocks.HasMessageId, hc], ?_⟩
      rw [hdata, OutgoingMessage.decoratedData, RequestService.requestMessage, hdecorated, hc]
      rfl
  | none =>
      have hready : anotherRequest.isReady env = true := by
        rcases hgo request anotherRequest hdepends
            (List.mem_filter.mp (List.mem_of_getElem? hi)).2 with hctx | hready
        · exact absurd hc hctx
        · exact hready
      obtain ⟨j, hj, hat⟩ := ready_index_lt hnodup hdepends hi hready
      obtain ⟨p', hp', hid⟩ := hbefore j hj
      obtain ⟨found, hfound⟩ :
          ∃ found, lookupPrepared earlier (ctx.base others + j) = some found := by
        rw [← Option.isSome_iff_exists, lookupPrepared, List.find?_isSome]
        exact ⟨p', List.mem_reverse.mpr hp', by simpa using hid⟩
      obtain ⟨hfoundMem, hfoundId⟩ := mem_of_lookupPrepared hfound
      refine ⟨found.messageId, ?_, ?_⟩
      · rw [RequestBlocks.HasMessageId, hc]
        refine ⟨found, hstart.subset hfoundMem, rfl, ?_⟩
        exact mem_requestInternalIdToMessageInternalId.mpr ⟨j, _, hat, rfl, hfoundId⟩
      · rw [hdata, OutgoingMessage.decoratedData, RequestService.requestMessage, hdecorated, hc]
        simp only [Option.map_some, RequestBlocks.dynamicDecorator, lookup_blocks hnodup hat,
          hfound, Option.getD_some]
        rfl

/-- **Where a request depends on one without a context that does not go along, it is sent as if it
depended on nothing.** -/
theorem unwrapped_of_skipped (hnodup : s.internalIds.Nodup)
    (hdepends : s.DependsOn request anotherRequest) (hc : anotherRequest.requestContext = none)
    (hskipped : anotherRequest.isReady env = false)
    (hp : p ∈ ((ctx.withRequests others env s).prepare globalTime session).prepared)
    (hfor : (request.internalId, p.messageInternalId) ∈
      (s.blocks env (ctx.base others)).requestInternalIdToMessageInternalId) :
    p.data = s.undecoratedData request (s.requestsWillInitializeApi env) := by
  have hmem : request ∈ s.requests ∧ anotherRequest ∈ s.requests := by
    obtain ⟨before, between, after, hrequests, -, -⟩ := hdepends
    simp [hrequests]
  obtain ⟨i, earlier, -, -, -, hdata⟩ := prepared_for_request hnodup hmem.1 hp hfor
  have hlookup : (s.blocks env (ctx.base others)).requestInternalIdToMessageInternalId.lookup
      anotherRequest.internalId = none := by
    rw [List.lookup_eq_none_iff]
    rintro ⟨key, value⟩ hentry
    obtain ⟨j, r, hget, rfl, -⟩ := mem_requestInternalIdToMessageInternalId.mp hentry
    obtain ⟨hr, hready⟩ := List.mem_filter.mp (List.mem_of_getElem? hget)
    have hne : anotherRequest.internalId ≠ r.internalId := by
      intro hsame
      rw [eq_of_internalId hnodup hmem.2 hr hsame, hready] at hskipped
      exact absurd hskipped (by decide)
    simpa using hne
  rw [hdata, OutgoingMessage.decoratedData, RequestService.requestMessage,
    decorateRequestData_of_dependsOn hnodup hdepends, hc]
  simp only [Option.map_some, RequestBlocks.dynamicDecorator, hlookup, Option.getD_some]
  rfl

end Prepared

end Dependencies

/-! ### Distinct internal ids -/

section Nodup

variable {s : RequestService}

/-- Removing or replacing the first request with a property lists no new internal id. -/
theorem internalIds_updateFirst {p : Request → Bool} {f : Request → Option Request}
    (hf : ∀ r, ∀ r' ∈ f r, r'.internalId = r.internalId) (requests : List Request) :
    ((updateFirst p f requests).map Request.internalId).Sublist
      (requests.map Request.internalId) := by
  induction requests with
  | nil => exact List.Sublist.refl _
  | cons r rs ih =>
      rw [updateFirst]
      split
      · cases hr : f r with
        | none => exact List.sublist_cons_self _ _
        | some r' =>
            have hid : r'.internalId = r.internalId := hf r r' hr
            simp [hid]
      · exact ih.cons_cons _

/-- Changing every request lists no new internal id. -/
theorem internalIds_map {f : Request → Request} (hf : ∀ r, (f r).internalId = r.internalId)
    (requests : List Request) :
    ((requests.map f).map Request.internalId).Sublist (requests.map Request.internalId) := by
  have hcomp : Request.internalId ∘ f = Request.internalId := funext hf
  rw [List.map_map, hcomp]

@[simp] theorem updateContext_internalId (p : RequestContext → Bool)
    (f : RequestContext → Option RequestContext) (request : Request) :
    (request.updateContext p f).internalId = request.internalId := rfl

@[simp] theorem stopWaiting_internalId (blocks : RequestBlocks) (request : Request) :
    (blocks.stopWaiting request).internalId = request.internalId := by
  rw [RequestBlocks.stopWaiting]
  split <;> rfl

theorem receivedReply_internalId {env : ReplyEnvironment} {reply : RpcReply} {request : Request} :
    ∀ request' ∈ request.receivedReply env reply, request'.internalId = request.internalId := by
  have hfailed : ∀ outcome : Bool × Option RequestErrorContext, ∀ request' ∈
      (if outcome.1 then
        some { request with requestContext := none, errorContext := outcome.2 }
      else none), request'.internalId = request.internalId := by
    intro outcome request' h
    split at h
    · obtain rfl := Option.mem_some_iff.mp h
      rfl
    · simp at h
  rw [Request.receivedReply.eq_def]
  split
  · simp
  · exact hfailed _
  · split
    · simp
    · exact hfailed _

theorem nodup_addRequest (request : Request) (h : s.internalIds.Nodup) :
    (s.addRequest request).internalIds.Nodup := by
  rw [RequestService.addRequest]
  split
  case isTrue => exact h
  case isFalse hnew =>
    rw [RequestService.internalIds, List.map_append, List.nodup_append]
    refine ⟨h, List.nodup_singleton _, ?_⟩
    rintro id hid other hother rfl
    obtain ⟨r, hr, rfl⟩ := List.mem_map.mp hid
    refine hnew (List.any_eq_true.mpr ⟨r, hr, ?_⟩)
    simpa using List.mem_singleton.mp hother

theorem sublist_internalIds_foldl {f : RequestService → BitVec 64 → RequestService}
    (hf : ∀ s messageId, (f s messageId).internalIds.Sublist s.internalIds)
    (messageIds : List (BitVec 64)) (s : RequestService) :
    (messageIds.foldl f s).internalIds.Sublist s.internalIds := by
  induction messageIds generalizing s with
  | nil => exact List.Sublist.refl _
  | cons messageId messageIds ih => exact (ih _).trans (hf s messageId)

theorem sublist_internalIds_messageDeliveryFailed (s : RequestService) (messageId : BitVec 64) :
    (s.messageDeliveryFailed messageId).internalIds.Sublist s.internalIds := by
  refine internalIds_updateFirst (fun r r' hr' => ?_) _
  obtain rfl := Option.mem_some_iff.mp hr'
  rfl

theorem sublist_internalIds_messageDeliveryConfirmed (s : RequestService)
    (messageId : BitVec 64) :
    (s.messageDeliveryConfirmed messageId).internalIds.Sublist s.internalIds := by
  refine internalIds_updateFirst (fun r r' hr' => ?_) _
  obtain rfl := Option.mem_some_iff.mp hr'
  rfl

/-- An incoming message lists no new request. -/
theorem sublist_internalIds_processIncomingMessage {α : Type} (env : MessageEnvironment)
    (session : SessionInfo) (body : ParsedObject α) (s : RequestService) :
    (s.processIncomingMessage env session body).internalIds.Sublist s.internalIds := by
  have hfailed : ∀ badMessageId : BitVec 64, (if env.useUnauthorizedMode then s else
      (badMessageId :: (session.messageIdsInContainer badMessageId).getD []).foldl
        (fun s messageId => s.messageDeliveryFailed messageId) s).internalIds.Sublist
          s.internalIds := by
    intro badMessageId
    split
    · exact List.Sublist.refl _
    · exact sublist_internalIds_foldl sublist_internalIds_messageDeliveryFailed _ _
  rw [RequestService.processIncomingMessage.eq_def]
  dsimp only
  split
  · exact hfailed _
  · exact hfailed _
  · exact sublist_internalIds_foldl sublist_internalIds_messageDeliveryConfirmed _ _
  · split
    · exact List.Sublist.refl _
    · refine internalIds_updateFirst (fun r r' hr' => ?_) _
      obtain rfl := Option.mem_some_iff.mp hr'
      rfl
  · exact internalIds_map (by intro _; rfl) _
  · split
    · rw [RequestService.receivedMessage.eq_def]
      split
      · exact List.Sublist.refl _
      · exact internalIds_updateFirst (fun r => receivedReply_internalId) _
    · exact List.Sublist.refl _
    · exact List.Sublist.refl _
  · exact List.Sublist.refl _

/-- **No internal id is ever listed twice.** -/
theorem nodup_internalIds_step {α : Type} (globalTime : ℕ → BitVec 64) (r : RequestRun)
    (ev : RequestEvent α) (h : r.service.internalIds.Nodup) :
    (r.step globalTime ev).service.internalIds.Nodup := by
  have hreset : ∀ s : RequestService, s.internalIds.Nodup → s.didChangeSession.internalIds.Nodup :=
    fun s hs => hs.sublist (internalIds_map (by intro _; rfl) s.requests)
  have hfailed : ∀ (blocks : RequestBlocks) (s : RequestService), s.internalIds.Nodup →
      (blocks.failed s).internalIds.Nodup :=
    fun blocks s hs => hs.sublist (internalIds_map (stopWaiting_internalId blocks) s.requests)
  cases ev with
  | addRequest request => exact nodup_addRequest _ h
  | removeRequestByInternalId internalId =>
      rw [RequestRun.step, RequestService.removeRequestByInternalId.eq_def]
      dsimp only
      split
      · exact h
      · exact h.sublist (internalIds_updateFirst (by simp) _)
  | transaction ctx others env sessionId =>
      have hprepared : ∀ (blocks : RequestBlocks) prepared,
          (blocks.prepared prepared r.service).internalIds.Nodup := by
        intro blocks prepared
        refine h.sublist (internalIds_map (fun request => ?_) r.service.requests)
        split <;> rfl
      rw [RequestRun.step, RequestRun.transaction]
      split
      · refine hreset _ ?_
        dsimp only
        split
        · exact hfailed _ _ (hprepared _ _)
        · exact hprepared _ _
      · dsimp only
        split
        · exact hfailed _ _ (hprepared _ _)
        · exact hprepared _ _
  | timeFixPing authInfo randomId => exact h
  | completion index accepted =>
      rw [RequestRun.step]
      split
      case h_1 e he =>
        cases accepted with
        | none => exact hfailed _ _ h
        | some transactionId =>
            refine h.sublist (internalIds_map (fun request => ?_) r.service.requests)
            split
            · exact stopWaiting_internalId _ _
            · exact stopWaiting_internalId _ _
      case h_2 => exact h
  | incomingData transactionId => exact h
  | incomingMessage env message sessionId =>
      have hmessage : ∀ s : RequestService, s.internalIds.Nodup →
          (s.processIncomingMessage env r.session message.body).internalIds.Nodup :=
        fun s hs => hs.sublist (sublist_internalIds_processIncomingMessage _ _ _ _)
      rw [RequestRun.step, RequestRun.processIncomingMessage]
      split
      · split
        · exact h
        · exact hreset _ h
      · split
        · exact hmessage _ h
        · exact hmessage _ (hreset _ h)
  | transactionsMayHaveFailed failed => exact h.sublist (internalIds_map (by intro _; rfl) _)
  | messageResendRequestFailed messageId => exact h.sublist (internalIds_map (by intro _; rfl) _)
  | authTokenUpdated => exact h.sublist (internalIds_map (by intro _; rfl) _)
  | resetSessionInfo sessionId => exact hreset _ h

end Nodup

/-! ### Runs -/

section Runs

variable {α : Type}

/-- In a transaction, whatever is prepared for a request with a dependency is wrapped. -/
def OrderKept (globalTime : ℕ → BitVec 64) (r : RequestRun) : RequestEvent α → Prop
  | .transaction ctx others env _ =>
      r.service.KeepsOrder env (ctx.base others)
        (transportReadyForTransaction globalTime (ctx.withRequests others env r.service)
          r.session).prepared
  | _ => True

/-- In a transaction, each request depends on one that has a context or goes along. -/
def NoneSkipped (r : RequestRun) : RequestEvent α → Prop
  | .transaction _ _ env _ => r.service.DependenciesGoAlong env
  | _ => True

/-- **The order of dependent requests.** In every run in which no request goes into a transaction
while the one it depends on, without a context, is left out, every dependent request is wrapped. -/
theorem orderKept_run (globalTime : ℕ → BitVec 64) (sessionId : BitVec 64)
    (apiEnvironment : Option ApiEnvironment) (es : List (RequestEvent α))
    (h : Machine.AllSteps (RequestRun.step globalTime) NoneSkipped
      (.init sessionId apiEnvironment) es) :
    Machine.AllSteps (RequestRun.step globalTime) (OrderKept globalTime)
      (.init sessionId apiEnvironment) es := by
  have hinit : (RequestRun.init sessionId apiEnvironment).service.internalIds.Nodup :=
    List.nodup_nil
  have hnodup : Machine.Always (RequestRun.step globalTime)
      (fun r => r.service.internalIds.Nodup) (.init sessionId apiEnvironment) es :=
    Machine.always_of_step (nodup_internalIds_step globalTime) hinit
  refine Machine.AllSteps.of_always (fun r ev hr hev => ?_) hnodup h
  cases ev with
  | transaction ctx others env sessionId =>
      rw [OrderKept, transaction_prepared]
      exact keepsOrder_of_goAlong hr hev
  | _ => trivial

end Runs

/-- A second request, to run after the first one; it does not wait for a password. -/
def laterRequest : Request where
  internalId := 2
  payload := [2]
  responseParser _ := true
  requestContext := none
  errorContext := none
  hasHighPriority := false
  dependsOnPasswordEntry := false
  hasAcknowledgementReceived := false
  shouldContinueExecutionWithErrorContext := none
  shouldDependOnRequest := some fun internalId => internalId = 1

/-- In a list of two requests there is one pair to look at. -/
theorem eq_of_dependsOn_two {s : RequestService} (first second : Request)
    {request anotherRequest : Request} (hrequests : s.requests = [first, second])
    (h : s.DependsOn request anotherRequest) :
    request = second ∧ anotherRequest = first := by
  obtain ⟨before, between, after, hsplit, -, -⟩ := h
  rw [hrequests] at hsplit
  rcases before with _ | ⟨r, before⟩
  · rcases between with _ | ⟨r', between⟩
    · simp_all
    · simp at hsplit
  · rcases before with _ | ⟨r', before⟩ <;> simp at hsplit

/-- Both requests go along, and the second is wrapped. -/
theorem orderKept_run_both :
    let es : List (RequestEvent Unit) := [.addRequest oneRequest, .addRequest laterRequest,
      .transaction requestsAlone [] ⟨false, 0, none⟩ 6]
    Machine.AllSteps (RequestRun.step fun n => 4 * (n + 1 : BitVec 64)) NoneSkipped
        (.init 5 none) es ∧
      Machine.AllSteps (RequestRun.step fun n => 4 * (n + 1 : BitVec 64))
        (OrderKept fun n => 4 * (n + 1 : BitVec 64)) (.init 5 none) es := by
  intro es
  have hnone : Machine.AllSteps (RequestRun.step fun n => 4 * (n + 1 : BitVec 64)) NoneSkipped
      (.init 5 none) es := by
    refine ⟨trivial, trivial, ?_, trivial⟩
    intro request anotherRequest hdepends _
    obtain ⟨-, rfl⟩ := eq_of_dependsOn_two oneRequest laterRequest rfl hdepends
    exact .inr (by decide)
  exact ⟨hnone, orderKept_run _ _ _ _ hnone⟩

/-- The first request waits for a password: the second is sent as if it depended on nothing. -/
theorem not_orderKept_password :
    ¬Machine.AllSteps (RequestRun.step fun n => 4 * (n + 1 : BitVec 64))
      (OrderKept fun n => 4 * (n + 1 : BitVec 64)) (.init 5 none)
      [(.addRequest { oneRequest with dependsOnPasswordEntry := true } : RequestEvent Unit),
        .addRequest laterRequest, .transaction requestsAlone [] ⟨true, 0, none⟩ 6] := by
  rintro ⟨-, -, hkept, -⟩
  have hdepends : RequestService.DependsOn ⟨none,
      [{ oneRequest with dependsOnPasswordEntry := true }, laterRequest], []⟩ laterRequest
        { oneRequest with dependsOnPasswordEntry := true } :=
    ⟨[], [], [], rfl, by decide, by simp⟩
  have hprepared : ∃ p ∈ (transportReadyForTransaction (fun n => 4 * (n + 1 : BitVec 64))
      (requestsAlone.withRequests [] ⟨true, 0, none⟩ ⟨none,
        [{ oneRequest with dependsOnPasswordEntry := true }, laterRequest], []⟩)
      (.init 5 0 0)).prepared, p.messageInternalId = 1 := by decide +kernel
  obtain ⟨p, hp, hid⟩ := hprepared
  obtain ⟨messageId, hmessageId, -⟩ := hkept _ _ hdepends p hp (by rw [hid]; decide +kernel)
  obtain ⟨p', -, -, hmem⟩ := hmessageId
  have hkeys : ∀ entry ∈ (RequestService.blocks ⟨true, 0, none⟩ 1 ⟨none,
      [{ oneRequest with dependsOnPasswordEntry := true }, laterRequest],
        []⟩).requestInternalIdToMessageInternalId, entry.1 = 2 := by decide +kernel
  exact absurd (hkeys _ hmem) (show (1 : ℕ) ≠ 2 by decide)

end Telegraph.MtProto
