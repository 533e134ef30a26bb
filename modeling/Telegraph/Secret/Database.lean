import Mathlib.Data.Int.Basic
import Telegraph.Lib.Table

/-!
# The Database of a Secret Chat

What `TGDatabase` keeps for one secret chat: the two tables of incoming messages (decrypted
and still encrypted), the tables of outgoing messages and of those to be sent once more, and
the custom properties that hold the sequence numbers. The tables are shared by all chats; only
the rows of this one are kept, and the numbers the other rows take are skipped.

The functions are called from any thread and run as jobs on the database thread, one after
the other in the order they were called in. What a job answers to its caller is part of what
it returns. Sequence numbers are halves of the `int32_t` values on the wire.

## Main results

* `enqueuePeerOutgoingResendActions_success`: **when a resend request is reported to succeed**.
-/

namespace Telegraph.Secret

/-! ### Actions -/

/-- `TGStoredIncomingMessageSecretAction`. -/
structure IncomingMessageAction where
  layer : ℕ
  data : List UInt8
  date : ℤ
deriving DecidableEq

/-- `TGStoredSecretIncomingActionWithSeq`, a row of the table of incoming messages. -/
structure IncomingActionWithSeq where
  action : IncomingMessageAction
  seqIn : ℤ
  seqOut : ℤ
deriving DecidableEq

/-- `TGStoredIncomingEncryptedDataSecretAction`, a row of the table of messages that could not
be decrypted on arrival. -/
structure EncryptedAction where
  keyId : BitVec 64
  randomId : ℤ
  chatId : ℤ
  date : ℤ
  encryptedData : List UInt8
deriving DecidableEq

/-- `TGStoredOutgoingMessageSecretAction` and `TGStoredOutgoingServiceMessageSecretAction`. -/
structure OutgoingAction where
  service : Bool
  randomId : ℤ
  layer : ℕ
  keyId : BitVec 64
  data : List UInt8
deriving DecidableEq

/-- A row of the tables of outgoing messages. -/
structure OutgoingActionWithSeq where
  action : OutgoingAction
  seqIn : ℤ
  seqOut : ℤ
deriving DecidableEq

/-! ### The stored state -/

/-- What is stored for a secret chat. A property that was never set is `none`. -/
structure SecretDatabase where
  incoming : Table IncomingActionWithSeq
  incomingEncrypted : Table EncryptedAction
  outgoing : Table OutgoingActionWithSeq
  outgoingResend : Table OutgoingActionWithSeq
  seqIn : Option ℤ
  seqOut : Option ℤ
  sentSeqOut : Option ℤ
  resendSeqIn : Option ℤ

namespace SecretDatabase

/-- What is stored for a new chat. -/
def empty : SecretDatabase :=
  ⟨.empty, .empty, .empty, .empty, none, none, none, none⟩

/-! ### Incoming messages -/

/-- `enqueuePeerIncomingActions:actions:`. -/
def enqueuePeerIncomingActions (database : SecretDatabase)
    (actions : List IncomingActionWithSeq) : SecretDatabase :=
  { database with incoming := database.incoming.insertAll actions }

/-- `enqueuePeerIncomingEncryptedActions:actions:`. -/
def enqueuePeerIncomingEncryptedActions (database : SecretDatabase)
    (actions : List EncryptedAction) : SecretDatabase :=
  { database with incomingEncrypted := database.incomingEncrypted.insertAll actions }

/-- The stored `seq_in`, the number of the message expected next. -/
def nextExpectedSeqOut (database : SecretDatabase) : ℤ :=
  database.seqIn.getD 0

/-- `deletePeerIncomingActions:actionIds:`. -/
def deletePeerIncomingActions (database : SecretDatabase) (actionIds : List ℕ) :
    SecretDatabase :=
  { database with incoming := database.incoming.delete fun row => row.id ∈ actionIds }

/-- `deletePeerIncomingEncryptedActions:actionIds:`. -/
def deletePeerIncomingEncryptedActions (database : SecretDatabase) (actionIds : List ℕ) :
    SecretDatabase :=
  { database with
    incomingEncrypted := database.incomingEncrypted.delete fun row => row.id ∈ actionIds }

/-- `applyPeerSeqIn:seqIn:`. -/
def applyPeerSeqIn (database : SecretDatabase) (seqIn : ℤ) : SecretDatabase :=
  { database with seqIn := some seqIn }

/-- `setCurrentPeerResendSeqIn:seqIn:`. -/
def setCurrentPeerResendSeqIn (database : SecretDatabase) (seqIn : ℤ) : SecretDatabase :=
  { database with resendSeqIn := some seqIn }

/-! ### Outgoing messages -/

/-- `peerNextSeqOut:`. -/
def peerNextSeqOut (database : SecretDatabase) : ℤ :=
  match database.seqOut with
  | some value => value + 1
  | none => 0

/-- `enqueuePeerOutgoingAction:action:useSeq:seqOut:seqIn:actionId:`. -/
def enqueuePeerOutgoingAction (database : SecretDatabase) (action : OutgoingAction)
    (useSeq : Bool) : SecretDatabase :=
  if useSeq then
    { database with
      outgoing := database.outgoing.insert
        ⟨action, database.nextExpectedSeqOut, database.peerNextSeqOut⟩
      seqOut := some database.peerNextSeqOut }
  else
    { database with outgoing := database.outgoing.insert ⟨action, 0, 0⟩ }

/-- `currentPeerSentSeqOut:`. -/
def currentPeerSentSeqOut (database : SecretDatabase) : ℤ :=
  database.sentSeqOut.getD (-1)

/-- `dequeuePeerOutgoingActions:completion:`, the rows it hands to its completion: those not
sent yet, and those to be sent once more. -/
def dequeuePeerOutgoingActions (database : SecretDatabase) (peerLayer : ℕ) :
    List (Row OutgoingActionWithSeq) × List (Row OutgoingActionWithSeq) :=
  let sentSeqOut := if peerLayer < 17 then -1 else database.currentPeerSentSeqOut
  (database.outgoing.rows.filter fun row => row.value.seqOut > sentSeqOut,
    database.outgoingResend.rows)

/-- The rows of the outgoing table with a number from `fromSeq` to `toSeq`. -/
def outgoingBetween (database : SecretDatabase) (fromSeq toSeq : ℤ) :
    List (Row OutgoingActionWithSeq) :=
  database.outgoing.rows.filter fun row =>
    decide (row.value.seqOut ≥ fromSeq) && decide (row.value.seqOut ≤ toSeq)

/-- `enqueuePeerOutgoingResendActions:fromSeq:toSeq:completion:`: the rows are copied in the
order of their numbers, and the request succeeds if none of the indices is left. -/
def enqueuePeerOutgoingResendActions (database : SecretDatabase) (fromSeq toSeq : ℤ) :
    SecretDatabase × Bool :=
  let actions := (database.outgoingBetween fromSeq toSeq).mergeSort fun row other =>
    row.value.seqOut ≤ other.value.seqOut
  let indices := (List.range (toSeq + 1 - fromSeq).toNat).map fun i : ℕ => fromSeq + i
  let remaining := indices.filter fun seq =>
    !(actions.any fun row => row.value.seqOut == seq)
  ({ database with outgoingResend := database.outgoingResend.insertAll (actions.map Row.value) },
    remaining.isEmpty)

/-- `deletePeerOutgoingResendActions:actionIds:`. -/
def deletePeerOutgoingResendActions (database : SecretDatabase) (actionIds : List ℕ) :
    SecretDatabase :=
  { database with
    outgoingResend := database.outgoingResend.delete fun row => row.id ∈ actionIds }

/-- `deletePeerOutgoingActions:actionIds:`. -/
def deletePeerOutgoingActions (database : SecretDatabase) (actionIds : List ℕ) :
    SecretDatabase :=
  { database with outgoing := database.outgoing.delete fun row => row.id ∈ actionIds }

/-- `applyPeerSeqOut:seqOut:`. -/
def applyPeerSeqOut (database : SecretDatabase) (seqOut : ℤ) : SecretDatabase :=
  { database with sentSeqOut := some seqOut }

/-- `confirmPeerSeqOut:seqOut:`. -/
def confirmPeerSeqOut (database : SecretDatabase) (seqOut : ℤ) : SecretDatabase :=
  { database with outgoing := database.outgoing.delete fun row => row.value.seqOut ≤ seqOut }

/-- Rows of other chats take numbers of the four tables. -/
def skip (database : SecretDatabase) (incoming encrypted outgoing resend : ℕ) :
    SecretDatabase :=
  { database with
    incoming := database.incoming.skip incoming
    incomingEncrypted := database.incomingEncrypted.skip encrypted
    outgoing := database.outgoing.skip outgoing
    outgoingResend := database.outgoingResend.skip resend }

/-! ### Resend requests -/

/-- **A resend request succeeds** exactly if the table has a row for every number asked for. -/
theorem enqueuePeerOutgoingResendActions_success {database : SecretDatabase} {fromSeq toSeq : ℤ} :
    (database.enqueuePeerOutgoingResendActions fromSeq toSeq).2 = true ↔
      ∀ n, fromSeq ≤ n → n ≤ toSeq →
        ∃ row ∈ database.outgoing.rows, row.value.seqOut = n := by
  simp only [enqueuePeerOutgoingResendActions, List.isEmpty_iff, List.filter_eq_nil_iff,
    Bool.not_eq_true', Bool.not_eq_false, List.any_eq_true, List.mem_mergeSort, beq_iff_eq,
    outgoingBetween, List.mem_filter, Bool.and_eq_true, decide_eq_true_eq, List.mem_map,
    List.mem_range]
  constructor
  · intro h n hfrom hto
    have hindex : ∃ i : ℕ, i < (toSeq + 1 - fromSeq).toNat ∧ fromSeq + i = n :=
      ⟨(n - fromSeq).toNat, by omega, by omega⟩
    obtain ⟨row, ⟨hrow, -⟩, heq⟩ := h n hindex
    exact ⟨row, hrow, heq⟩
  · rintro h n ⟨i, hi, rfl⟩
    obtain ⟨row, hrow, heq⟩ := h (fromSeq + i) (by omega) (by omega)
    exact ⟨row, ⟨hrow, by omega, by omega⟩, heq⟩

end SecretDatabase

end Telegraph.Secret
