import Mathlib.Data.List.Nodup
import Telegraph.Secret.Client

/-!
# Outgoing Rows and Their Requests

A poll of the outgoing queue adds a request for each dequeued row whose number is not among
the executing ones. The numbers come from two tables, the one of the messages and the one of
the messages to be sent once more, which count on their own; and a number is taken back only
when a request fails. A number is therefore also found executing when the row of the other
table had a request, or when a request has succeeded. This module shows that rows get their
requests, one at a time, as long as dequeued rows do not meet such a number.

## Main results

* `sentInv_runOutgoing`: **what a block adds** keeps the executing numbers those of requests.
* `outgoing_rows_requested`: **every dequeued row has one outstanding request** after the block
  of its poll, in every run whose polls do not share numbers.
-/

open Machine

namespace Telegraph.Secret

/-! ### Rows of the two tables -/

/-- The rows of one of the two tables in a poll. -/
def OutgoingPoll.rows (poll : OutgoingPoll) : Bool → List (Row OutgoingActionWithSeq)
  | false => poll.actions
  | true => poll.resendActions

/-- The table and the number of the row a request is for. -/
def OutgoingRequest.row (request : OutgoingRequest) : Bool × ℕ :=
  (request.isResend, request.actionId)

namespace SecretClient

/-! ### The property -/

/-- A request for a row of one of the tables is outstanding. -/
def Outstanding (s : SecretClient) (isResend : Bool) (id : ℕ) : Prop :=
  ∃ request ∈ s.requests, request.row = (isResend, id)

section Property

variable {κ : Type*} (chat : SecretChat κ)

/-- A block of the outgoing queue adds a request for every row of its poll, unless one for this
very row is outstanding. -/
def RequestsRows (s : SecretClient) : SecretEvent κ → Prop
  | .runBlock keys peerLayer =>
      ∀ poll blocks, s.blocks = .outgoing poll :: blocks →
        ∃ added, (step chat s (.runBlock keys peerLayer)).requests = s.requests ++ added ∧
          ∀ isResend, ∀ row ∈ poll.rows isResend,
            s.Outstanding isResend row.id ∨ requestForAction row isResend ∈ added
  | _ => True

end Property

/-- No two requests for one row are outstanding. -/
def RequestsDistinct (s : SecretClient) : Prop :=
  (s.requests.map OutgoingRequest.row).Nodup

/-! ### The condition -/

variable {κ : Type*} {chat : SecretChat κ}

/-- The numbers of the rows of a poll belong to them alone: the two tables do not share one, no
request under one of them has succeeded before, and none for the other table is outstanding. -/
structure OwnNumbers (s : SecretClient) (poll : OutgoingPoll) : Prop where
  apart : ∀ row ∈ poll.actions, ∀ other ∈ poll.resendActions, row.id ≠ other.id
  answered : ∀ isResend, ∀ row ∈ poll.rows isResend, ∀ request ∈ s.answered,
    request.actionId ≠ row.id
  outstanding : ∀ isResend, ∀ row ∈ poll.rows isResend, ∀ request ∈ s.requests,
    request.actionId = row.id → request.isResend = isResend

/-- The polls whose block runs do not share numbers. -/
def NotShared (s : SecretClient) : SecretEvent κ → Prop
  | .runBlock _ _ =>
      match s.blocks with
      | .outgoing poll :: _ => s.OwnNumbers poll
      | _ => True
  | _ => True

/-! ### The invariant -/

/-- A poll holds no row twice. -/
def PollNodup (poll : OutgoingPoll) : Prop :=
  ∀ isResend, ((poll.rows isResend).map Row.id).Nodup

/-- **The invariant**: the executing numbers are those of the outstanding requests, all
different, and of some that have succeeded. -/
structure SentInv (s : SecretClient) : Prop where
  listed : ∀ request ∈ s.requests, request.actionId ∈ s.executingRequestsActionIds
  origin : ∀ id ∈ s.executingRequestsActionIds,
    ∃ request ∈ s.requests ++ s.answered, request.actionId = id
  distinct : (s.requests.map OutgoingRequest.actionId).Nodup
  polls : ∀ poll, .outgoing poll ∈ s.blocks → PollNodup poll

theorem sentInv_fresh : SentInv freshClient where
  listed := fun _ h => (List.not_mem_nil h).elim
  origin := fun _ h => (List.not_mem_nil h).elim
  distinct := .nil
  polls := fun _ h => (List.not_mem_nil h).elim

theorem SentInv.requestsDistinct {s : SecretClient} (h : SentInv s) : s.RequestsDistinct := by
  refine List.Nodup.of_map Prod.snd ?_
  rw [List.map_map]
  exact h.distinct

/-- The rows of a table have different numbers. -/
theorem nodup_ids {α : Type*} (table : Table α) : (table.rows.map Row.id).Nodup := by
  rw [List.nodup_iff_pairwise_ne, List.pairwise_map]
  exact table.sorted.imp Nat.ne_of_lt

theorem pollNodup_dequeue (database : SecretDatabase) (peerLayer : ℕ) :
    PollNodup ⟨(database.dequeuePeerOutgoingActions peerLayer).1,
      (database.dequeuePeerOutgoingActions peerLayer).2⟩ := by
  rintro (_ | _)
  · exact (nodup_ids database.outgoing).sublist (List.filter_sublist.map _)
  · exact nodup_ids database.outgoingResend

/-! ### Frames -/

/-- An event without part in the requests. -/
theorem SentInv.frame {s s' : SecretClient} (h : SentInv s)
    (hrequests : s'.requests = s.requests) (hanswered : s'.answered = s.answered)
    (hexecuting : s'.executingRequestsActionIds = s.executingRequestsActionIds)
    (hpolls : ∀ poll, .outgoing poll ∈ s'.blocks →
      .outgoing poll ∈ s.blocks ∨ PollNodup poll) : SentInv s' where
  listed := by rw [hrequests, hexecuting]; exact h.listed
  origin := by rw [hrequests, hexecuting, hanswered]; exact h.origin
  distinct := by rw [hrequests]; exact h.distinct
  polls := fun poll hpoll => (hpolls poll hpoll).elim (h.polls poll) id

theorem sentInv_runJob {s : SecretClient} {peerLayer : ℕ} {job : DatabaseJob} (h : SentInv s) :
    SentInv (s.runJob peerLayer job) := by
  cases job with
  | dequeuePeerIncomingActions =>
      refine h.frame rfl rfl rfl fun poll hpoll => ?_
      rcases List.mem_append.mp hpoll with hold | hnew
      · exact .inl hold
      · cases List.mem_singleton.mp hnew
  | dequeuePeerOutgoingActions =>
      refine h.frame rfl rfl rfl fun poll hpoll => ?_
      rcases List.mem_append.mp hpoll with hold | hnew
      · exact .inl hold
      · rw [StageBlock.outgoing.inj (List.mem_singleton.mp hnew)]
        exact .inr (pollNodup_dequeue _ _)
  | _ => exact h.frame rfl rfl rfl fun _ hpoll => .inl hpoll

/-! ### Blocks of the outgoing queue -/

section Block

variable {s : SecretClient} {poll : OutgoingPoll}

theorem mem_requests {executing : List ℕ} {request : OutgoingRequest} :
    request ∈ poll.requests executing ↔
      ∃ isResend, ∃ row ∈ poll.rows isResend, row.id ∉ executing ∧
        requestForAction row isResend = request := by
  simp only [OutgoingPoll.requests, List.mem_filter, List.mem_append, List.mem_map,
    Bool.not_eq_true', decide_eq_false_iff_not]
  constructor
  · rintro ⟨⟨row, hrow, rfl⟩ | ⟨row, hrow, rfl⟩, hid⟩
    · exact ⟨false, row, hrow, hid, rfl⟩
    · exact ⟨true, row, hrow, hid, rfl⟩
  · rintro ⟨_ | _, row, hrow, hid, rfl⟩
    · exact ⟨.inl ⟨row, hrow, rfl⟩, hid⟩
    · exact ⟨.inr ⟨row, hrow, rfl⟩, hid⟩

/-- The requests of a block have different numbers, none of them executing. -/
theorem requests_nodup (hnodup : PollNodup poll)
    (hapart : ∀ row ∈ poll.actions, ∀ other ∈ poll.resendActions, row.id ≠ other.id)
    (executing : List ℕ) :
    ((poll.requests executing).map OutgoingRequest.actionId).Nodup := by
  have hall : ((poll.actions.map (requestForAction · false) ++
      poll.resendActions.map (requestForAction · true)).map OutgoingRequest.actionId) =
      poll.actions.map Row.id ++ poll.resendActions.map Row.id := by
    rw [List.map_append, List.map_map, List.map_map]
    rfl
  have hids : (poll.actions.map Row.id ++ poll.resendActions.map Row.id).Nodup := by
    refine List.nodup_append.mpr ⟨hnodup false, hnodup true, ?_⟩
    intro id hid other hother
    obtain ⟨row, hrow, rfl⟩ := List.mem_map.mp hid
    obtain ⟨copy, hcopy, rfl⟩ := List.mem_map.mp hother
    exact hapart row hrow copy hcopy
  exact (hall ▸ hids).sublist (List.filter_sublist.map _)

/-- A dequeued row whose number is executing has its request outstanding. -/
theorem outstanding_of_executing (h : SentInv s) (hown : s.OwnNumbers poll) {isResend : Bool}
    {row : Row OutgoingActionWithSeq} (hrow : row ∈ poll.rows isResend)
    (hid : row.id ∈ s.executingRequestsActionIds) : s.Outstanding isResend row.id := by
  obtain ⟨request, hmem, heq⟩ := h.origin _ hid
  rcases List.mem_append.mp hmem with houtstanding | hanswered
  · exact ⟨request, houtstanding,
      Prod.ext (hown.outstanding isResend row hrow request houtstanding heq) heq⟩
  · exact absurd heq (hown.answered isResend row hrow request hanswered)

/-- **What a block adds** keeps the executing numbers those of requests. -/
theorem sentInv_runOutgoing (h : SentInv s) (hnodup : PollNodup poll)
    (hown : s.OwnNumbers poll) : SentInv (s.runOutgoing poll) where
  listed := by
    intro request hrequest
    rcases List.mem_append.mp hrequest with hold | hnew
    · exact List.mem_append_left _ (h.listed request hold)
    · exact List.mem_append_right _ (List.mem_map_of_mem hnew)
  origin := by
    intro id hid
    rcases List.mem_append.mp hid with hold | hnew
    · obtain ⟨request, hmem, heq⟩ := h.origin id hold
      refine ⟨request, ?_, heq⟩
      rcases List.mem_append.mp hmem with hlisted | hanswered
      · exact List.mem_append_left _ (List.mem_append_left _ hlisted)
      · exact List.mem_append_right _ hanswered
    · obtain ⟨request, hmem, heq⟩ := List.mem_map.mp hnew
      exact ⟨request, List.mem_append_left _ (List.mem_append_right _ hmem), heq⟩
  distinct := by
    show ((s.requests ++ poll.requests _).map OutgoingRequest.actionId).Nodup
    rw [List.map_append]
    refine List.nodup_append.mpr ⟨h.distinct, requests_nodup hnodup hown.apart _, ?_⟩
    intro id hid other hother heq
    obtain ⟨request, hrequest, rfl⟩ := List.mem_map.mp hid
    obtain ⟨added, hadded, rfl⟩ := List.mem_map.mp hother
    obtain ⟨isResend, row, -, hfree, rfl⟩ := mem_requests.mp hadded
    have hid' : request.actionId = row.id := heq
    exact hfree (hid' ▸ h.listed request hrequest)
  polls := h.polls

/-- Every row of a poll has its request after the block. -/
theorem requestsRows_step {e : SecretEvent κ} (h : SentInv s) (hcond : s.NotShared e) :
    RequestsRows chat s e := by
  cases e with
  | runBlock keys peerLayer =>
      intro poll blocks hblocks
      have hown : s.OwnNumbers poll := by
        simpa only [NotShared, hblocks] using hcond
      refine ⟨poll.requests s.executingRequestsActionIds, ?_, fun isResend row hrow => ?_⟩
      · simp only [step, hblocks]
        rfl
      · by_cases hid : row.id ∈ s.executingRequestsActionIds
        · exact .inl (outstanding_of_executing h hown hrow hid)
        · exact .inr (mem_requests.mpr ⟨isResend, row, hrow, hid, rfl⟩)
  | _ => trivial

end Block

/-! ### Answers -/

section Answers

variable {s : SecretClient} {index : ℕ} {request : OutgoingRequest}

/-- An outstanding request is found at its place, and the others have other numbers. -/
theorem actionId_ne_of_eraseIdx (h : SentInv s) (hindex : s.requests[index]? = some request)
    {other : OutgoingRequest} (hother : other ∈ s.requests.eraseIdx index) :
    other.actionId ≠ request.actionId := by
  obtain ⟨hlt, rfl⟩ := List.getElem?_eq_some_iff.mp hindex
  obtain ⟨j, hj, hne, rfl⟩ := List.mem_eraseIdx_iff_getElem.mp hother
  intro heq
  have hpairwise := List.pairwise_iff_getElem.mp (List.pairwise_map.mp h.distinct)
  rcases Nat.lt_or_gt_of_ne hne with hlt' | hgt
  · exact hpairwise j index hj hlt hlt' heq
  · exact hpairwise index j hlt hj hgt heq.symm

theorem mem_eraseIdx_or_eq (hindex : s.requests[index]? = some request)
    {other : OutgoingRequest} (hother : other ∈ s.requests) :
    other ∈ s.requests.eraseIdx index ∨ other = request := by
  obtain ⟨j, hj, rfl⟩ := List.mem_iff_getElem.mp hother
  by_cases hji : j = index
  · subst hji
    exact .inr (Option.some.inj ((List.getElem?_eq_getElem hj).symm.trans hindex))
  · exact .inl (List.mem_eraseIdx_iff_getElem.mpr ⟨j, hj, hji, rfl⟩)

/-- A request has succeeded; its number goes on executing. -/
theorem sentInv_succeeded (h : SentInv s) (hindex : s.requests[index]? = some request) :
    SentInv { s with
      requests := s.requests.eraseIdx index
      answered := s.answered ++ [request] } where
  listed := fun other hother => h.listed other (List.mem_of_mem_eraseIdx hother)
  origin := by
    intro id hid
    obtain ⟨other, hmem, heq⟩ := h.origin id hid
    refine ⟨other, ?_, heq⟩
    rcases List.mem_append.mp hmem with hlisted | hanswered
    · rcases mem_eraseIdx_or_eq hindex hlisted with hleft | rfl
      · exact List.mem_append_left _ hleft
      · exact List.mem_append_right _ (List.mem_append_right _ List.mem_cons_self)
    · exact List.mem_append_right _ (List.mem_append_left _ hanswered)
  distinct := h.distinct.sublist ((List.eraseIdx_sublist _ _).map _)
  polls := h.polls

/-- A request has failed; its number is taken back. -/
theorem sentInv_failed (h : SentInv s) (hindex : s.requests[index]? = some request) :
    SentInv { s with
      requests := s.requests.eraseIdx index
      executingRequestsActionIds :=
        s.executingRequestsActionIds.filter fun id => id ≠ request.actionId } where
  listed := by
    intro other hother
    refine List.mem_filter.mpr ⟨h.listed other (List.mem_of_mem_eraseIdx hother), ?_⟩
    exact decide_eq_true (actionId_ne_of_eraseIdx h hindex hother)
  origin := by
    intro id hid
    obtain ⟨hid, hne⟩ := List.mem_filter.mp hid
    obtain ⟨other, hmem, rfl⟩ := h.origin id hid
    refine ⟨other, ?_, rfl⟩
    rcases List.mem_append.mp hmem with hlisted | hanswered
    · rcases mem_eraseIdx_or_eq hindex hlisted with hleft | rfl
      · exact List.mem_append_left _ hleft
      · exact absurd rfl (of_decide_eq_true hne)
    · exact List.mem_append_right _ hanswered
  distinct := h.distinct.sublist ((List.eraseIdx_sublist _ _).map _)
  polls := h.polls

end Answers

/-! ### Whole runs -/

theorem sentInv_step {s : SecretClient} {e : SecretEvent κ} (h : SentInv s)
    (hcond : s.NotShared e) : SentInv (step chat s e) := by
  have hcall : ∀ {s : SecretClient} {jobs : List DatabaseJob}, SentInv s →
      SentInv (s.call jobs) := fun h => h.frame rfl rfl rfl fun _ hpoll => .inl hpoll
  cases e with
  | runJob peerLayer =>
      simp only [step]
      split
      next job jobs _ =>
        exact sentInv_runJob (h.frame rfl rfl rfl fun _ hpoll => .inl hpoll)
      next => exact h
  | runBlock keys peerLayer =>
      simp only [step]
      split
      next poll blocks hblocks =>
        exact h.frame rfl rfl rfl fun _ hpoll => .inl (hblocks ▸ List.mem_cons_of_mem _ hpoll)
      next poll blocks hblocks =>
        have hown : s.OwnNumbers poll := by
          simpa only [NotShared, hblocks] using hcond
        have hpop : SentInv { s with blocks } :=
          h.frame rfl rfl rfl fun _ hpoll => .inl (hblocks ▸ List.mem_cons_of_mem _ hpoll)
        exact sentInv_runOutgoing hpop (h.polls poll (hblocks ▸ List.mem_cons_self))
          ⟨hown.apart, hown.answered, hown.outstanding⟩
      next => exact h
  | requestSucceeded index =>
      simp only [step]
      split
      next request hindex => exact hcall (sentInv_succeeded h hindex)
      next => exact h
  | requestFailed index =>
      simp only [step]
      split
      next request hindex => exact sentInv_failed h hindex
      next => exact h
  | _ => exact hcall h

/-- **Every dequeued row gets its request, one at a time**, in every run whose polls hold only
rows with numbers of their own. -/
theorem outgoing_rows_requested (chat : SecretChat κ) (es : List (SecretEvent κ))
    (hshared : AllSteps (step chat) NotShared freshClient es) :
    AllSteps (step chat) (RequestsRows chat) freshClient es ∧
      Always (step chat) RequestsDistinct freshClient es := by
  have hinv : Always (step chat) SentInv freshClient es :=
    always_of_allSteps (fun _ _ h hc => sentInv_step h hc) sentInv_fresh hshared
  exact ⟨.of_always (D := RequestsRows chat) (fun _ _ h hc => requestsRows_step h hc) hinv hshared,
    hinv.mono fun _ h => h.requestsDistinct⟩

/-! ### A message that has to be sent once more -/

/-- A chat in which every message of the peer asks for the message 0 once more. -/
def resendingChat : SecretChat Unit := .bare fun _ => some (0, 0)

/-- A message is sent, and its request succeeds. -/
def sendOne : List (SecretEvent Unit) :=
  [.send ⟨false, 1, 17, 0, []⟩, .runJob 17, .pollOutgoing, .runJob 17, .runBlock () 17,
    .requestSucceeded 0, .runJob 17]

/-- The peer asks for it once more; the row is copied and dequeued. -/
def resendOne : List (SecretEvent Unit) :=
  sendOne ++ [.receive [⟨⟨17, [], 0⟩, 0, 0⟩], .pollIncoming, .runJob 17, .runJob 17,
    .runBlock () 17, .runJob 17, .runJob 17, .runJob 17, .runJob 17, .runJob 17,
    .pollOutgoing, .runJob 17]

theorem outgoing_rows_requested_sendOne :
    AllSteps (step resendingChat) (RequestsRows resendingChat) freshClient sendOne ∧
      Always (step resendingChat) RequestsDistinct freshClient sendOne := by
  refine outgoing_rows_requested resendingChat sendOne
    ⟨trivial, trivial, trivial, trivial, ⟨?_, ?_, ?_⟩, trivial, trivial, trivial⟩
  · exact fun _ _ _ hother => (List.not_mem_nil hother).elim
  · exact fun _ _ _ _ hrequest => (List.not_mem_nil hrequest).elim
  · exact fun _ _ _ _ hrequest => (List.not_mem_nil hrequest).elim

/-- **The copy is never sent**: it has the number of the row whose request has succeeded. -/
theorem outgoing_rows_requested_resendOne :
    ¬ AllSteps (step resendingChat) (RequestsRows resendingChat) freshClient
      (resendOne ++ [.runBlock () 17]) := by
  intro hall
  have hblocks : (run (step resendingChat) freshClient resendOne).blocks =
      [.outgoing ⟨[], [⟨1, ⟨⟨false, 1, 17, 0, []⟩, 0, 0⟩⟩]⟩] := by
    decide +kernel
  have hrequests : (run (step resendingChat) freshClient resendOne).requests = [] := by
    decide +kernel
  have hafter : (run (step resendingChat) freshClient (resendOne ++ [.runBlock () 17])).requests =
      [] := by
    decide +kernel
  obtain ⟨added, hadded, hrows⟩ := hall.last _ _ hblocks
  rw [run_append, run_cons, run_nil, hadded] at hafter
  rcases hrows true _ List.mem_cons_self with ⟨request, hmem, -⟩ | hmem
  · rw [hrequests] at hmem
    exact List.not_mem_nil hmem
  · rw [(List.append_eq_nil_iff.mp hafter).2] at hmem
    exact List.not_mem_nil hmem

end SecretClient

end Telegraph.Secret
