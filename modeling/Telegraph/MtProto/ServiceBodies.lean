import Mathlib.Data.List.Infix
import Telegraph.Lib.Memory
import Telegraph.MtProto.InternalMessage
import Telegraph.MtProto.Transaction

/-!
# The Bodies of Outgoing Service Messages

The client writes its own service messages by hand: the `msgs_ack` where a transport asks for a
transaction, the `msg_resend_req` in `MTResendMessageService`, the `ping` in `MTTcpTransport`. The
parser of the incoming ones has a case for each of them. The first two are vectors of message ids,
and both writers put the signature of a vector before the count. The parser takes that signature off
a `msgs_ack` only: of a `msg_resend_req` it reads it as the count.

## Main results

* `parse_msgsAckData`: a `msgs_ack` gives as many of its ids as its length comes to as an `int32_t`.
* `parse_resentMessagesRequestData`: no `msg_resend_req` of the client is read.
* `serviceBody_readable_iff`: **which bodies the parser reads back.**
-/

open Bytes
open Memory (At at_append)

namespace Telegraph.MtProto

/-! ### The bodies -/

/-- `resentMessagesRequestData` of `MTResendMessageService`. -/
def resentMessagesRequestData (messageId : BitVec 64) : List UInt8 :=
  toLE 4 0x7d861a08 ++ toLE 4 481674261 ++ toLE 4 1 ++ toLE 8 messageId.toNat

/-- The data of `pingBuffer` of `MTTcpTransport`. -/
def pingData (randomId : BitVec 64) : List UInt8 :=
  toLE 4 0x7abe77ec ++ toLE 8 randomId.toNat

/-- A service message that the client builds, with its ids. -/
inductive ServiceBody where
  /-- `transportReadyForTransaction`. -/
  | msgsAck (messageIds : List (BitVec 64))
  /-- `MTResendMessageService`. -/
  | msgResendReq (messageId : BitVec 64)
  /-- `MTTcpTransport`. -/
  | ping (pingId : BitVec 64)

namespace ServiceBody

/-- The bytes of the body. -/
def data : ServiceBody → List UInt8
  | msgsAck messageIds => msgsAckData messageIds
  | msgResendReq messageId => resentMessagesRequestData messageId
  | ping pingId => pingData pingId

/-- The object with these ids. -/
def message : ServiceBody → InternalMessage
  | msgsAck messageIds => .msgsAck messageIds
  | msgResendReq messageId => .msgResendReq [messageId]
  | ping pingId => .ping pingId

/-- `parseMessage:` turns the body into the object with these ids. -/
def Readable (body : ServiceBody) : Prop :=
  (parseInternalMessage body.data).outcome = .value body.message

/-- A `ping`, or a `msgs_ack` whose count is positive as an `int32_t`. -/
def CountFits : ServiceBody → Prop
  | msgsAck messageIds => messageIds.length < 2 ^ 31
  | msgResendReq _ => False
  | ping _ => True

end ServiceBody

/-! ### Reading what is there -/

section Reads

variable {data : List UInt8} {p : ℕ}

/-- A segment that is not empty is read. -/
theorem readBytes_at {bytes : List UInt8} {length : ℕ} (h : At data p bytes)
    (hlength : bytes.length = length) (hpos : 0 < length) (hp : p + length < 2 ^ 64) :
    readBytes length data p = ⟨.value bytes, p + length, [⟨p, length, p + length⟩]⟩ := by
  have hle := h.length_le
  rw [List.length_drop] at hle
  rw [readBytes_of_le (by omega) hp, ← hlength, List.prefix_iff_eq_take.mp h |>.symm]

theorem readInt32_at {value : ℕ} (h : At data p (toLE 4 value)) (hp : p + 4 < 2 ^ 64) :
    readInt32 data p = ⟨.value (BitVec.ofNat 32 value), p + 4, [⟨p, 4, p + 4⟩]⟩ := by
  have hvalue : BitVec.ofNat 32 (value % 256 ^ 4) = BitVec.ofNat 32 value := by
    apply BitVec.eq_of_toNat_eq
    rw [BitVec.toNat_ofNat, BitVec.toNat_ofNat]
    omega
  rw [readInt32, Reader.bind_value (readBytes_at h (length_toLE _ _) (by omega) hp), leNat_toLE,
    hvalue]
  rfl

theorem readSignature_at {signature : BitVec 32} {value : ℕ} (h : At data p (toLE 4 value))
    (hvalue : BitVec.ofNat 32 value = signature) (hp : p + 4 < 2 ^ 64) :
    readSignature signature data p = ⟨.value (), p + 4, [⟨p, 4, p + 4⟩]⟩ := by
  rw [readSignature, Reader.bind_value (readInt32_at h hp), if_pos hvalue]
  rfl

theorem readInt64_at {id : BitVec 64} (h : At data p (toLE 8 id.toNat)) (hp : p + 8 < 2 ^ 64) :
    readInt64 data p = ⟨.value id, p + 8, [⟨p, 8, p + 8⟩]⟩ := by
  have hid := id.isLt
  rw [readInt64, Reader.bind_value (readBytes_at h (length_toLE _ _) (by omega) hp),
    leNat_toLE_of_lt (by omega), BitVec.ofNat_toNat, BitVec.setWidth_eq]
  rfl

/-- A loop over message ids that are there. -/
theorem replicateM_readInt64 {ids : List (BitVec 64)}
    (h : At data p (ids.flatMap fun id => toLE 8 id.toNat)) (hp : p + 8 * ids.length < 2 ^ 64) :
    ∃ as, Reader.replicateM readInt64 ids.length data p =
      ⟨.value ids, p + 8 * ids.length, as⟩ := by
  induction ids generalizing p with
  | nil => exact ⟨[], rfl⟩
  | cons id ids ih =>
      rw [List.flatMap_cons] at h
      rw [List.length_cons] at hp ⊢
      obtain ⟨hid, hids⟩ := at_append.mp h
      rw [length_toLE] at hids
      obtain ⟨as, hrest⟩ := ih hids (by omega)
      rw [Reader.replicateM, Reader.bind_value (readInt64_at hid (by omega)),
        Reader.bind_value hrest, Reader.pure_apply,
        show p + 8 + 8 * ids.length = p + 8 * (ids.length + 1) by omega]
      exact ⟨_, rfl⟩

/-- A loop over message ids that runs past the end of the buffer. -/
theorem replicateM_readInt64_failed {n : ℕ} (hle : p ≤ data.length)
    (hshort : data.length < p + 8 * n) (hdata : data.length < 2 ^ 63) :
    (Reader.replicateM readInt64 n data p).outcome = .failed := by
  induction n generalizing p with
  | zero => omega
  | succ n ih =>
      rw [Reader.replicateM]
      by_cases hin : p + 8 ≤ data.length
      · have hread : readInt64 data p =
            ⟨.value (BitVec.ofNat 64 (leNat ((data.drop p).take 8))), p + 8, [⟨p, 8, p + 8⟩]⟩ := by
          rw [readInt64, Reader.bind_value (readBytes_of_le hin (by omega))]
          rfl
        rw [Reader.bind_value hread, ReadResult.after_outcome]
        exact Reader.bind_outcome_failed (ih hin (by omega))
      · have hread : readInt64 data p = ⟨.failed, p, []⟩ := by
          rw [readInt64, Reader.bind_failed (readBytes_of_gt (by omega) (by omega))]
        rw [Reader.bind_failed hread]

end Reads

/-- Behind its signature a message is read by its own case. -/
theorem parseInternalMessage_signature (c : Constructor) {signature : ℕ} (rest : List UInt8)
    (hsignature : BitVec.ofNat 32 signature = c.signature) :
    (parseInternalMessage (toLE 4 signature ++ rest)).outcome =
      (c.read (toLE 4 signature ++ rest) 4).outcome := by
  have hat : At (toLE 4 signature ++ rest) 0 (toLE 4 signature) := List.prefix_append _ _
  rw [parseInternalMessage, readInternalMessage, Reader.bind_value (readInt32_at hat (by omega)),
    ReadResult.after_outcome, hsignature, readConstructor, Constructor.ofSignature_signature]

/-! ### The three cases -/

/-- A count and the ids behind it, as many as the count says. -/
theorem readCounted_at {data : List UInt8} {p count : ℕ} {ids : List (BitVec 64)}
    (hcount : At data p (toLE 4 count))
    (hids : At data (p + 4) (ids.flatMap fun id => toLE 8 id.toNat))
    (hlength : (BitVec.ofNat 32 count).toInt.toNat = ids.length)
    (hp : p + 4 + 8 * ids.length < 2 ^ 64) :
    ∃ as, readCounted readInt64 data p = ⟨.value ids, p + 4 + 8 * ids.length, as⟩ := by
  obtain ⟨as, hread⟩ := replicateM_readInt64 hids hp
  rw [readCounted, Reader.bind_value (readInt32_at hcount (by omega)), hlength, hread]
  exact ⟨_, rfl⟩

/-- A count read back is no more than what was written, and fits an `int32_t`. -/
theorem toInt_count_le (n : ℕ) :
    (BitVec.ofNat 32 n).toInt.toNat ≤ n ∧ (BitVec.ofNat 32 n).toInt.toNat < 2 ^ 31 := by
  rw [BitVec.toInt_eq_toNat_cond, BitVec.toNat_ofNat]
  split <;> omega

/-- **A `msgs_ack` is read as far as its count goes**, which is the number of its ids as an
`int32_t`. -/
theorem parse_msgsAckData (ids : List (BitVec 64)) :
    (parseInternalMessage (msgsAckData ids)).outcome =
      .value (.msgsAck (ids.take (BitVec.ofNat 32 ids.length).toInt.toNat)) := by
  obtain ⟨hle, hlt⟩ := toInt_count_le ids.length
  have hat := Memory.at_zero (msgsAckData ids)
  have hassoc : msgsAckData ids = toLE 4 0x62d6b459 ++ (toLE 4 481674261 ++
      (toLE 4 ids.length ++ ids.flatMap fun id => toLE 8 id.toNat)) := by
    simp only [msgsAckData, List.append_assoc]
  rw [hassoc] at hat ⊢
  obtain ⟨-, hrest⟩ := at_append.mp hat
  obtain ⟨hvector, hrest⟩ := at_append.mp hrest
  obtain ⟨hcount, hids⟩ := at_append.mp hrest
  simp only [length_toLE, Nat.zero_add] at hvector hcount hids
  have htaken := List.take_prefix (BitVec.ofNat 32 ids.length).toInt.toNat ids
  have htake := hids.of_prefix (htaken.flatMap fun id => toLE 8 id.toNat)
  have hlength := List.length_take_of_le hle
  obtain ⟨as, hread⟩ := readCounted_at hcount htake hlength.symm (by rw [hlength]; omega)
  have hsignature : BitVec.ofNat 32 481674261 = (0x1cb5c415 : BitVec 32) := rfl
  rw [parseInternalMessage_signature .msgsAck _ rfl, Constructor.read,
    Reader.bind_value (readSignature_at hvector hsignature (by omega)), Reader.bind_value hread]
  rfl

/-- **No `msg_resend_req` of the client is read**: its vector signature is taken for the count, and
the buffer ends in the second id. -/
theorem parse_resentMessagesRequestData (messageId : BitVec 64) :
    (parseInternalMessage (resentMessagesRequestData messageId)).outcome = .failed := by
  have hat := Memory.at_zero (resentMessagesRequestData messageId)
  have hassoc : resentMessagesRequestData messageId =
      toLE 4 0x7d861a08 ++ (toLE 4 481674261 ++ (toLE 4 1 ++ toLE 8 messageId.toNat)) := by
    simp only [resentMessagesRequestData, List.append_assoc]
  rw [hassoc] at hat ⊢
  obtain ⟨-, hrest⟩ := at_append.mp hat
  obtain ⟨hcount, -⟩ := at_append.mp hrest
  rw [length_toLE, Nat.zero_add] at hcount
  have hlength : (toLE 4 0x7d861a08 ++ (toLE 4 481674261 ++
      (toLE 4 1 ++ toLE 8 messageId.toNat))).length = 20 := by
    simp only [List.length_append, length_toLE]
  have hloop : (Reader.replicateM readInt64 481674261 (toLE 4 0x7d861a08 ++ (toLE 4 481674261 ++
      (toLE 4 1 ++ toLE 8 messageId.toNat))) 8).outcome = .failed :=
    replicateM_readInt64_failed (by omega) (by omega) (by omega)
  have hvector : (BitVec.ofNat 32 481674261).toInt.toNat = 481674261 := rfl
  rw [parseInternalMessage_signature .msgResendReq _ rfl, Constructor.read]
  apply Reader.bind_outcome_failed
  rw [readCounted, Reader.bind_value (readInt32_at hcount (by omega)), ReadResult.after_outcome,
    hvector, hloop]

theorem parse_pingData (pingId : BitVec 64) :
    (parseInternalMessage (pingData pingId)).outcome = .value (.ping pingId) := by
  have hat : At (pingData pingId) 0 (toLE 4 0x7abe77ec ++ toLE 8 pingId.toNat) :=
    Memory.at_zero _
  obtain ⟨-, hid⟩ := at_append.mp hat
  rw [length_toLE] at hid
  rw [pingData, parseInternalMessage_signature .ping _ rfl]
  rw [pingData] at hid
  simp only [Constructor.read, Reader.bind_value (readInt64_at hid (by omega))]
  rfl

/-! ### Which bodies are read back -/

/-- **Which bodies the parser reads back**: every `ping`, a `msgs_ack` of fewer than `2 ^ 31` ids,
and no `msg_resend_req`. -/
theorem serviceBody_readable_iff (body : ServiceBody) : body.Readable ↔ body.CountFits := by
  cases body with
  | msgsAck ids =>
      obtain ⟨-, hlt⟩ := toInt_count_le ids.length
      simp only [ServiceBody.Readable, ServiceBody.data, ServiceBody.message, ServiceBody.CountFits,
        parse_msgsAckData, Outcome.value.injEq, InternalMessage.msgsAck.injEq,
        List.take_eq_self_iff]
      constructor
      · intro hle
        omega
      · intro hfits
        rw [toInt_length hfits, Int.toNat_natCast]
  | msgResendReq messageId =>
      simp only [ServiceBody.Readable, ServiceBody.data, ServiceBody.CountFits,
        parse_resentMessagesRequestData, reduceCtorEq]
  | ping pingId =>
      simp only [ServiceBody.Readable, ServiceBody.data, ServiceBody.message, ServiceBody.CountFits,
        parse_pingData]

/-- The request to resend message 1 is not read back. -/
theorem not_readable_resendOne : ¬ (ServiceBody.msgResendReq 1).Readable := by
  intro hread
  rw [ServiceBody.Readable, ServiceBody.data, parse_resentMessagesRequestData] at hread
  cases hread

end Telegraph.MtProto
