import Mathlib.Algebra.Ring.Int.Defs
import Mathlib.Data.List.Basic
import Telegraph.Secret.Database

/-!
# The Incoming Queue of a Secret Chat

The poll of `TGSecretIncomingQueueActor`: the dequeue on the database thread takes both tables
and the number expected next, and the block on the stage queue merges and sorts the messages,
decides for each whether it is handed to `_processIncomingMessage`, kept or removed, and issues
the writes that follow.

What the queue needs from the rest of the client is collected in `SecretChat`: the decryption,
whose answer depends on the keys known when a block runs, and the reading of resend requests.

## Main results

* `HandedInOrder`: messages handed over in sequence, resend requests apart.
* `HandedInOrder.exists_sequenced`: the messages that are no resend requests have the numbers
  `0, 1, 2, …`, in this order and each once.
* `Classified.classify`: **what becomes of one message**, from layer 17 on.
* `classified_classifyAll`: **a block that starts at the right number keeps the order**.
-/

namespace Telegraph.Secret

/-- What `decryptEncryptedMessageData:` answers. -/
structure DecryptedMessage where
  data : List UInt8
  layer : ℕ
  seqIn : ℤ
  seqOut : ℤ

/-- What the queues use of the rest of the client. `κ` is what may change between two blocks:
the keys and the random numbers. -/
structure SecretChat (κ : Type*) where
  isCreator : Bool
  /-- `decryptEncryptedMessageData:`. -/
  decrypt : κ → EncryptedAction → Option DecryptedMessage
  /-- The range of a message that `parseDecryptedAction:` reads as `resendActions`. -/
  resendActions : IncomingMessageAction → Option (ℤ × ℤ)
  /-- The message of `decryptedServiceMessageActionWithLayer:resendMessagesFromSeq:toSeq:`. -/
  resendMessage : κ → ℕ → ℤ → ℤ → Option (List UInt8)
  /-- The random identifier a service message gets. -/
  randomId : κ → ℤ
  /-- The fingerprint of the key in use. -/
  keyId : κ → BitVec 64

/-! ### Dequeue -/

/-- `TGStoredSecretActionWithSeqActionIdType`. -/
inductive ActionIdType where
  | generic
  | encrypted
deriving DecidableEq

/-- `TGStoredSecretActionWithSeqActionId`. -/
structure ActionId where
  type : ActionIdType
  value : ℕ
deriving DecidableEq

/-- `TGStoredSecretActionWithSeq`, for an incoming message. -/
structure SecretActionWithSeq where
  actionId : ActionId
  action : IncomingMessageAction
  seqIn : ℤ
  seqOut : ℤ
deriving DecidableEq

/-- The comparison both sorts use, by number and then by row; rows of the two tables with the
same number compare equal, and keep their order. -/
def SecretActionWithSeq.precedes (action other : SecretActionWithSeq) : Bool :=
  if action.seqOut ≠ other.seqOut then decide (action.seqOut < other.seqOut)
  else decide (action.actionId.value ≤ other.actionId.value)

/-- A row of the table of incoming messages. -/
def SecretActionWithSeq.ofRow (row : Row IncomingActionWithSeq) : SecretActionWithSeq :=
  ⟨⟨.generic, row.id⟩, row.value.action, row.value.seqIn, row.value.seqOut⟩

/-- A message that has been decrypted. -/
def SecretActionWithSeq.ofDecrypted (row : Row EncryptedAction) (message : DecryptedMessage) :
    SecretActionWithSeq :=
  ⟨⟨.encrypted, row.id⟩, ⟨message.layer, message.data, row.value.date⟩, message.seqIn,
    message.seqOut⟩

/-- What the dequeue hands to its block. -/
structure IncomingPoll where
  actions : List SecretActionWithSeq
  nextExpectedSeqOut : ℤ
  encryptedActions : List (Row EncryptedAction)
deriving DecidableEq

/-- `dequeuePeerIncomingActions:completion:`. -/
def SecretDatabase.dequeuePeerIncomingActions (database : SecretDatabase) : IncomingPoll where
  actions := (database.incoming.rows.map .ofRow).mergeSort SecretActionWithSeq.precedes
  nextExpectedSeqOut := database.nextExpectedSeqOut
  encryptedActions := database.incomingEncrypted.rows

/-! ### The block -/

/-- The variables of the loop over the merged messages. `removed` is `removeActionIds` and
`removeEncryptedActionIds` in one list. -/
structure Classification where
  nextExpectedSeqOut : ℤ
  currentPeerLayer : ℕ
  minLocalSeqOut : ℤ
  maxSeqIn : ℤ
  actionsToProcess : List SecretActionWithSeq
  removed : List ActionId

section Block

variable {κ : Type*} (chat : SecretChat κ)

/-- `isResendAction:`. -/
def SecretChat.isResendAction (action : IncomingMessageAction) : Bool :=
  (chat.resendActions action).isSome

/-- What becomes of a message that has a number. -/
def SecretChat.classifyInSequence (c : Classification) (action : SecretActionWithSeq) :
    Classification :=
  let minLocalSeqOut := min c.minLocalSeqOut action.seqOut
  if action.seqOut = c.nextExpectedSeqOut then
    { c with
      minLocalSeqOut
      actionsToProcess := c.actionsToProcess ++ [action]
      nextExpectedSeqOut := c.nextExpectedSeqOut + 1
      maxSeqIn := max c.maxSeqIn action.seqIn }
  else if action.seqOut < c.nextExpectedSeqOut then
    { c with minLocalSeqOut, removed := c.removed ++ [action.actionId] }
  else if chat.isResendAction action.action then
    { c with minLocalSeqOut, actionsToProcess := c.actionsToProcess ++ [action] }
  else
    { c with minLocalSeqOut }

/-- One turn of the loop: messages have numbers once the peer, or the message, is at layer 17. -/
def SecretChat.classify (c : Classification) (action : SecretActionWithSeq) : Classification :=
  if c.currentPeerLayer ≥ 17 then chat.classifyInSequence c action
  else if action.action.layer ≥ 17 then
    chat.classifyInSequence { c with currentPeerLayer := action.action.layer } action
  else { c with actionsToProcess := c.actionsToProcess ++ [action] }

/-- The decrypted messages of a poll. -/
def SecretChat.addedDecryptedActions (keys : κ) (encryptedActions : List (Row EncryptedAction)) :
    List SecretActionWithSeq :=
  encryptedActions.filterMap fun row => (chat.decrypt keys row.value).map (.ofDecrypted row)

/-- All messages of a poll, by number. -/
def SecretChat.mergedActions (keys : κ) (poll : IncomingPoll) : List SecretActionWithSeq :=
  (poll.actions ++ chat.addedDecryptedActions keys poll.encryptedActions).mergeSort
    SecretActionWithSeq.precedes

/-- The loop of the block. -/
def SecretChat.classifyAll (keys : κ) (peerLayer : ℕ) (poll : IncomingPoll) : Classification :=
  (chat.mergedActions keys poll).foldl chat.classify
    ⟨poll.nextExpectedSeqOut, peerLayer, 2 ^ 31 - 1, -1, [], []⟩

/-- The numbers of one of the two tables in a list of both. -/
def idsOfType (type : ActionIdType) (actionIds : List ActionId) : List ℕ :=
  (actionIds.filter fun actionId => actionId.type = type).map ActionId.value

/-- All rows the block removes. -/
def Classification.removeIds (c : Classification) : List ActionId :=
  c.removed ++ c.actionsToProcess.map SecretActionWithSeq.actionId

/-- The range the block asks the peer to send once more, if a message is left waiting: as
numbers on the wire. -/
def SecretChat.resendRange (poll : IncomingPoll) (c : Classification) : Option (ℤ × ℤ) :=
  if (idsOfType .generic c.removeIds).length < poll.actions.length then
    let minLocalSeqOut :=
      if c.minLocalSeqOut = 2 ^ 31 - 1 then c.nextExpectedSeqOut + 1 else c.minLocalSeqOut
    let parity := if chat.isCreator then 0 else 1
    some (c.nextExpectedSeqOut * 2 + parity, (minLocalSeqOut - 1) * 2 + parity)
  else none

end Block

/-! ### Messages in order -/

/-- The messages have been handed over in order, and `n` is expected next: each had the number
expected at its time, or was a resend request ahead of it. -/
inductive HandedInOrder (isResendAction : IncomingMessageAction → Bool) :
    List SecretActionWithSeq → ℤ → Prop
  | nil : HandedInOrder isResendAction [] 0
  | next {handed n action} : HandedInOrder isResendAction handed n → action.seqOut = n →
      HandedInOrder isResendAction (handed ++ [action]) (n + 1)
  | resend {handed n action} : HandedInOrder isResendAction handed n →
      isResendAction action.action = true → n < action.seqOut →
      HandedInOrder isResendAction (handed ++ [action]) n

namespace HandedInOrder

variable {isResendAction : IncomingMessageAction → Bool} {handed : List SecretActionWithSeq}
  {n : ℤ}

theorem nonneg (h : HandedInOrder isResendAction handed n) : 0 ≤ n := by
  induction h with
  | nil => exact Int.le_refl 0
  | next _ _ ih => omega
  | resend _ _ _ ih => exact ih

/-- Every number below the expected one has been handed over. -/
theorem exists_of_lt (h : HandedInOrder isResendAction handed n) {m : ℤ} (h0 : 0 ≤ m)
    (hm : m < n) : ∃ action ∈ handed, action.seqOut = m := by
  induction h with
  | nil => omega
  | @next handed n action _ haction ih =>
      rcases Int.lt_or_eq_of_le (Int.le_of_lt_add_one hm) with hlt | rfl
      · obtain ⟨earlier, hmem, heq⟩ := ih hlt
        exact ⟨earlier, List.mem_append_left _ hmem, heq⟩
      · exact ⟨action, List.mem_append_right _ List.mem_cons_self, haction⟩
  | resend _ _ _ ih =>
      obtain ⟨earlier, hmem, heq⟩ := ih hm
      exact ⟨earlier, List.mem_append_left _ hmem, heq⟩

/-- **The numbers handed over are `0, 1, 2, …`**: the messages that are no resend requests are
among them, in this order. -/
theorem exists_sequenced (h : HandedInOrder isResendAction handed n) :
    ∃ sequenced : List SecretActionWithSeq, sequenced.Sublist handed ∧
      (handed.filter fun action => !isResendAction action.action).Sublist sequenced ∧
      sequenced.map SecretActionWithSeq.seqOut = (List.range sequenced.length).map Int.ofNat ∧
      n = sequenced.length := by
  induction h with
  | nil => exact ⟨[], .slnil, .slnil, rfl, rfl⟩
  | @next handed n action _ haction ih =>
      obtain ⟨sequenced, hsub, hfilter, hnumbers, hn⟩ := ih
      refine ⟨sequenced ++ [action], hsub.append (List.Sublist.refl _), ?_, ?_, ?_⟩
      · rw [List.filter_append]
        exact hfilter.append List.filter_sublist
      · rw [List.map_append, hnumbers, List.length_append, List.length_singleton,
          List.range_succ, List.map_append, List.map_singleton, List.map_singleton, haction, hn]
        rfl
      · rw [List.length_append, List.length_singleton, hn]
        rfl
  | @resend handed n action _ hresend _ ih =>
      obtain ⟨sequenced, hsub, hfilter, hnumbers, hn⟩ := ih
      refine ⟨sequenced, hsub.trans (List.sublist_append_left _ _), ?_, hnumbers, hn⟩
      rw [List.filter_append, List.filter_singleton, hresend]
      simpa using hfilter

end HandedInOrder

/-! ### What a block does -/

section Classified

variable {κ : Type*} {chat : SecretChat κ} {handed seen actions : List SecretActionWithSeq}
  {c : Classification} {action : SecretActionWithSeq}

/-- **What the loop has done** with the messages `seen`, after `handed` were handed over. -/
structure Classified (chat : SecretChat κ) (handed seen : List SecretActionWithSeq)
    (c : Classification) : Prop where
  layer : c.currentPeerLayer ≥ 17
  order : HandedInOrder chat.isResendAction (handed ++ c.actionsToProcess) c.nextExpectedSeqOut
  processed : ∀ action ∈ c.actionsToProcess, action ∈ seen
  removed : ∀ actionId ∈ c.removed,
    ∃ action ∈ seen, action.actionId = actionId ∧ action.seqOut < c.nextExpectedSeqOut

/-- **One message** is handed over at the expected number, removed below it, and above it
handed over or kept. -/
theorem Classified.classify (h : Classified chat handed seen c) :
    Classified chat handed (seen ++ [action]) (chat.classify c action) := by
  have hprocessed : ∀ other ∈ c.actionsToProcess, other ∈ seen ++ [action] :=
    fun other hother => List.mem_append_left _ (h.processed other hother)
  have hprocessed' : ∀ other ∈ c.actionsToProcess ++ [action], other ∈ seen ++ [action] := by
    intro other hother
    rcases List.mem_append.mp hother with hold | hnew
    · exact hprocessed other hold
    · exact List.mem_append_right _ hnew
  have hremoved : ∀ m, c.nextExpectedSeqOut ≤ m → ∀ actionId ∈ c.removed,
      ∃ other ∈ seen ++ [action], other.actionId = actionId ∧ other.seqOut < m := by
    intro m hm actionId hid
    obtain ⟨other, hother, heq, hlt⟩ := h.removed actionId hid
    exact ⟨other, List.mem_append_left _ hother, heq, by omega⟩
  simp only [SecretChat.classify, if_pos h.layer, SecretChat.classifyInSequence]
  split
  next heq =>
    refine ⟨h.layer, ?_, hprocessed', hremoved _ (Int.le_of_lt (Int.lt_succ _))⟩
    rw [← List.append_assoc]
    exact h.order.next heq
  next hne =>
    split
    next hlt =>
      refine ⟨h.layer, h.order, hprocessed, fun actionId hid => ?_⟩
      rcases List.mem_append.mp hid with hold | hnew
      · exact hremoved _ (Int.le_refl _) actionId hold
      · exact ⟨action, List.mem_append_right _ List.mem_cons_self,
          (List.mem_singleton.mp hnew).symm, hlt⟩
    next hge =>
      split
      next hresend =>
        refine ⟨h.layer, ?_, hprocessed', hremoved _ (Int.le_refl _)⟩
        rw [← List.append_assoc]
        exact h.order.resend hresend (by omega)
      next => exact ⟨h.layer, h.order, hprocessed, hremoved _ (Int.le_refl _)⟩

/-- The loop over a list of messages. -/
theorem Classified.foldl (h : Classified chat handed seen c) :
    Classified chat handed (seen ++ actions) (actions.foldl chat.classify c) := by
  induction actions generalizing seen c with
  | nil => simpa using h
  | cons action actions ih =>
      have hfirst : Classified chat handed (seen ++ [action]) (chat.classify c action) := h.classify
      have hstep := ih hfirst
      rwa [List.append_assoc, List.singleton_append] at hstep

/-- **A row that a block removes is done**: it belongs to a message of the poll that was handed
over, now or before. -/
theorem Classified.removeIds_done (h : Classified chat handed seen c) {actionId : ActionId}
    (hid : actionId ∈ c.removeIds) :
    ∃ action ∈ seen, action.actionId = actionId ∧
      ((∃ other ∈ handed ++ c.actionsToProcess, other.seqOut = action.seqOut) ∨
        action.seqOut < 0) := by
  rcases List.mem_append.mp hid with hremoved | hprocessed
  · obtain ⟨action, hmem, heq, hlt⟩ := h.removed actionId hremoved
    refine ⟨action, hmem, heq, ?_⟩
    rcases Int.lt_or_le action.seqOut 0 with hneg | hnonneg
    · exact .inr hneg
    · exact .inl (h.order.exists_of_lt hnonneg hlt)
  · obtain ⟨action, hmem, heq⟩ := List.mem_map.mp hprocessed
    exact ⟨action, h.processed action hmem, heq,
      .inl ⟨action, List.mem_append_right _ hmem, rfl⟩⟩

/-- The expected number does not go back. -/
theorem nextExpectedSeqOut_le_foldl :
    c.nextExpectedSeqOut ≤ (actions.foldl chat.classify c).nextExpectedSeqOut := by
  have hsequence : ∀ c : Classification, ∀ action : SecretActionWithSeq,
      c.nextExpectedSeqOut ≤ (chat.classifyInSequence c action).nextExpectedSeqOut := by
    intro c action
    simp only [SecretChat.classifyInSequence]
    split
    · exact Int.le_of_lt (Int.lt_succ _)
    · split
      · exact Int.le_refl _
      · split <;> exact Int.le_refl _
  induction actions generalizing c with
  | nil => exact Int.le_refl _
  | cons action actions ih =>
      refine Int.le_trans ?_ ih
      simp only [SecretChat.classify]
      split
      · exact hsequence c action
      · split
        · exact hsequence { c with currentPeerLayer := action.action.layer } action
        · exact Int.le_refl _

theorem mem_mergedActions {keys : κ} {poll : IncomingPoll} :
    action ∈ chat.mergedActions keys poll ↔ action ∈ poll.actions ∨
      ∃ row ∈ poll.encryptedActions, ∃ message, chat.decrypt keys row.value = some message ∧
        .ofDecrypted row message = action := by
  simp only [SecretChat.mergedActions, List.mem_mergeSort, List.mem_append,
    SecretChat.addedDecryptedActions, List.mem_filterMap, Option.map_eq_some_iff]

/-- The loop keeps the layer, and finds no greater `seqIn` than the messages have. -/
theorem classifyAll_bounds {keys : κ} {peerLayer : ℕ} {poll : IncomingPoll} {bound : ℤ}
    (hlayer : peerLayer ≥ 17) (hbound : 0 ≤ bound)
    (hmerged : ∀ action ∈ chat.mergedActions keys poll, action.seqIn ≤ bound) :
    (chat.classifyAll keys peerLayer poll).currentPeerLayer ≥ 17 ∧
      (chat.classifyAll keys peerLayer poll).maxSeqIn ≤ bound := by
  have hloop : ∀ (actions : List SecretActionWithSeq) (c : Classification),
      (∀ action ∈ actions, action.seqIn ≤ bound) → c.currentPeerLayer ≥ 17 ∧ c.maxSeqIn ≤ bound →
        (actions.foldl chat.classify c).currentPeerLayer ≥ 17 ∧
          (actions.foldl chat.classify c).maxSeqIn ≤ bound := by
    intro actions
    induction actions with
    | nil => exact fun _ _ hc => hc
    | cons action actions ih =>
        intro c hactions hc
        refine ih _ (fun other hother => hactions other (List.mem_cons_of_mem _ hother)) ?_
        simp only [SecretChat.classify, if_pos hc.1, SecretChat.classifyInSequence]
        split
        · exact ⟨hc.1, Int.max_le.mpr ⟨hc.2, hactions action List.mem_cons_self⟩⟩
        · split
          · exact hc
          · split <;> exact hc
  exact hloop _ _ hmerged ⟨hlayer, by show (-1 : ℤ) ≤ bound; omega⟩

/-- **A block that starts at the right number** hands over messages of its poll in order. -/
theorem classified_classifyAll {keys : κ} {peerLayer : ℕ} {poll : IncomingPoll}
    (hlayer : peerLayer ≥ 17)
    (horder : HandedInOrder chat.isResendAction handed poll.nextExpectedSeqOut) :
    Classified chat handed (chat.mergedActions keys poll)
      (chat.classifyAll keys peerLayer poll) := by
  have hstart : Classified chat handed []
      ⟨poll.nextExpectedSeqOut, peerLayer, 2 ^ 31 - 1, -1, [], []⟩ :=
    ⟨hlayer, by rwa [List.append_nil], fun _ h => (List.not_mem_nil h).elim,
      fun _ h => (List.not_mem_nil h).elim⟩
  exact hstart.foldl

end Classified

end Telegraph.Secret
