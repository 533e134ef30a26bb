import Telegraph.Lib.Scan
import Telegraph.MtProto.InternalMessage

/-!
# The Service Messages as a Format

The layout of every service message, as a scanner over its fields, independent of the
parser; and the proof that the parser follows it. What the parser does on hostile bytes
can then be read off the layout.

## Main results

* `follows_readTLBytes`: the TL string reader against its format. A negative length makes
  it raise exactly when it is no larger than the offset reached.
* `follows_read`: **every case of the parser follows the layout of its message.**
* `follows_readInternalMessage`: so does the parser as a whole.
* `parsesSafely_iff`: **the parser is safe on a byte string exactly when the string is
  benign** — the range of a `gzip_packed` lies inside it, and the scan of the unwrapped
  message meets no negative length that wraps.
-/

open Bytes Reader

namespace Telegraph.MtProto

/-! ### The fields of a message -/

/-- A 32-bit integer, on which the rest of the scan may depend. -/
def int32Then (g : BitVec 32 → Scanner) : Scanner :=
  .bytesThen 4 fun bytes => g (BitVec.ofNat 32 (leNat bytes))

/-- `n` bytes of a TL string and `pad` bytes of padding. -/
def tlBody (n pad : ℕ) : Scanner :=
  (Scanner.bytes n).andThen ((Scanner.bytes 1).repeated pad)

/-- A length of minus `k`: it wraps back into the buffer, or is rejected. -/
def tlNegative (k : ℕ) : Scanner := fun _ offset =>
  if k ≤ offset then .raises else .rejected

/-- A TL string. -/
def tlString : Scanner :=
  .bytesThen 1 fun tmp =>
    if leNat tmp = 254 then
      .bytesThen 3 fun bytes =>
        if leNat bytes < 2 ^ 23 then
          tlBody (leNat bytes) ((4 - leNat bytes % 4) % 4)
        else
          tlNegative (2 ^ 24 - leNat bytes)
    else
      tlBody (leNat tmp) ((4 - (leNat tmp + 1) % 4) % 4)

/-- The bytes of a message in a container. -/
def messageData (length : BitVec 32) : Scanner :=
  if length.toInt < 0 ∨ length.toInt > 16 * 1024 * 1024 then .reject
  else .bytes length.toInt.toNat

/-- A message in a container. -/
def containedMessage : Scanner :=
  (Scanner.bytes 8).andThen ((Scanner.bytes 4).andThen (int32Then messageData))

/-- A field of a service message. -/
inductive Field where
  /-- `n` bytes. -/
  | bytes (n : ℕ)
  /-- This very signature. -/
  | signature (value : BitVec 32)
  /-- A TL string. -/
  | tlString
  /-- A count, and as many items of `n` bytes. -/
  | vector (n : ℕ)
  /-- A count, and as many contained messages. -/
  | messages
  /-- Everything to the end. -/
  | rest

/-- The scan of one field. -/
def Field.scan : Field → Scanner
  | .bytes n => .bytes n
  | .signature value => int32Then fun v => if v = value then .nil else .reject
  | .tlString => MtProto.tlString
  | .vector n => int32Then fun count => (Scanner.bytes n).repeated count.toInt.toNat
  | .messages => int32Then fun count => containedMessage.repeated count.toInt.toNat
  | .rest => .rest

/-- The scan of the fields of a message, one after the other. -/
def scanFields : List Field → Scanner
  | [] => .nil
  | f :: fs => f.scan.andThen (scanFields fs)

/-- The fields of each message behind its signature. -/
def Constructor.fields : Constructor → List Field
  | resPq => [.bytes 16, .bytes 16, .tlString, .bytes 4, .vector 8]
  | serverDhParamsFail => [.bytes 16, .bytes 16, .bytes 16]
  | serverDhParamsOk => [.bytes 16, .bytes 16, .tlString]
  | serverDhInnerData => [.bytes 16, .bytes 16, .bytes 4, .tlString, .tlString, .bytes 4]
  | setClientDhParamsResponseOk => [.bytes 16, .bytes 16, .bytes 16]
  | setClientDhParamsResponseRetry => [.bytes 16, .bytes 16, .bytes 16]
  | setClientDhParamsResponseFail => [.bytes 16, .bytes 16, .bytes 16]
  | rpcResult => [.bytes 8, .rest]
  | rpcError => [.bytes 4, .tlString]
  | dropRpcResultUnknown => []
  | dropRpcResultDroppedRunning => []
  | dropRpcResultDropped => [.bytes 8, .bytes 4, .bytes 4]
  | msgsStateReq => [.bytes 4, .vector 8]
  | msgsStateInfo => [.bytes 8, .tlString]
  | msgDetailedResponseInfo => [.bytes 8, .bytes 8, .bytes 4, .bytes 4]
  | msgDetailedInfo => [.bytes 8, .bytes 4, .bytes 4]
  | msgAllInfo => [.bytes 4, .vector 8, .tlString]
  | message => [.signature 0x5bb8e511, .bytes 8, .bytes 4, .bytes 4, .rest]
  | msgResendReq => [.vector 8]
  | badMsgNotification => [.bytes 8, .bytes 4, .bytes 4]
  | badServerSaltNotification => [.bytes 8, .bytes 4, .bytes 4, .bytes 8]
  | msgsAck => [.signature 0x1cb5c415, .vector 8]
  | ping => [.bytes 8]
  | pong => [.bytes 8, .bytes 8]
  | newSessionCreated => [.bytes 8, .bytes 8, .bytes 8]
  | destroySessionResponseOk => [.bytes 8]
  | destroySessionResponseNone => [.bytes 8]
  | destroySessionMultipleResponse => [.rest]
  | msgContainer => [.messages]
  | futureSalts => [.bytes 8, .bytes 4, .vector 16]

/-- The scan of a whole message: its signature, then the fields that belong to it. -/
def scanMessage : Scanner :=
  int32Then fun signature =>
    match Constructor.ofSignature signature with
    | some c => scanFields c.fields
    | none => .reject

/-! ### The primitive readers follow -/

section Primitives

variable {α : Type} {f : List UInt8 → Reader α} {g : List UInt8 → Scanner}

/-- Bytes that are read are scanned. -/
theorem follows_readBytes_bind {n : ℕ} (hn : n < 2 ^ 63)
    (h : ∀ bs, bs.length = n → Follows (2 ^ 63) (g bs) (f bs)) :
    Follows (2 ^ 63) (.bytesThen n g) (readBytes n >>= f) := by
  refine ⟨fun data offset hdata ho => ?_, fun data more offset hdata ho hsettled => ?_⟩
  · by_cases hle : offset + n ≤ data.length
    · have hbs : ((data.drop offset).take n).length = n := by
        rw [List.length_take, List.length_drop]
        omega
      simp only [Scanner.bytesThen, if_pos hle]
      rw [bind_value (readBytes_of_le hle (by omega))]
      refine ((h _ hbs).runs data _ hdata hle).after (c := .value ()) ⟨hle, ?_, ?_⟩
      · simpa using hle
      · simpa using hle
    · simp only [Scanner.bytesThen, if_neg hle]
      rw [bind_failed (readBytes_of_gt (not_le.mp hle) (by omega))]
      exact ⟨rfl, .of_nil ho⟩
  · by_cases hle : offset + n ≤ data.length
    · have hbs : ((data.drop offset).take n).length = n := by
        rw [List.length_take, List.length_drop]
        omega
      have hmore : offset + n ≤ (data ++ more).length := by
        rw [List.length_append]
        omega
      have hsame : ((data ++ more).drop offset).take n = (data.drop offset).take n := by
        rw [List.drop_append_of_le_length ho,
          List.take_append_of_le_length (by rw [List.length_drop]; omega)]
      simp only [Scanner.bytesThen, if_pos hle] at hsettled
      rw [bind_value (readBytes_of_le hle (by omega)),
        bind_value (readBytes_of_le hmore (by omega)), hsame,
        (h _ hbs).stable data more _ hdata hle hsettled]
    · simp only [Scanner.bytesThen, if_neg hle] at hsettled
      exact absurd hsettled id

theorem follows_readBytes {n : ℕ} (hn : n < 2 ^ 63) :
    Follows (2 ^ 63) (.bytes n) (readBytes n) := by
  have h : Follows (2 ^ 63) (.bytes n) (readBytes n >>= pure) :=
    follows_readBytes_bind hn fun bs _ => follows_pure bs
  rwa [bind_pure] at h

/-- A 32-bit integer that is read is scanned. -/
theorem follows_readInt32_bind {f : BitVec 32 → Reader α} {g : BitVec 32 → Scanner}
    (h : ∀ v, Follows (2 ^ 63) (g v) (f v)) :
    Follows (2 ^ 63) (int32Then g) (readInt32 >>= f) := by
  rw [readInt32, bind_assoc]
  refine follows_readBytes_bind (by omega) fun bs _ => ?_
  rw [pure_bind]
  exact h _

theorem follows_readInt32 : Follows (2 ^ 63) (.bytes 4) readInt32 := by
  have h : Follows (2 ^ 63) (.bytes 4) (readInt32 >>= pure) :=
    follows_readInt32_bind fun v => follows_pure v
  rwa [bind_pure] at h

theorem follows_readInt64 : Follows (2 ^ 63) (.bytes 8) readInt64 := by
  rw [readInt64]
  exact follows_readBytes_bind (by omega) fun bs _ => follows_pure _

/-- The rest of the buffer, put to a use that neither reads on nor raises. -/
theorem follows_readRest_bind (h : ∀ bs, f bs = Reader.fail ∨ ∃ a, f bs = pure a) :
    Follows (2 ^ 63) .rest (readRest >>= f) := by
  refine ⟨fun data offset _ ho => ?_, fun _ _ _ _ _ hsettled => absurd hsettled id⟩
  have hrest : readRest data offset =
      ⟨.value (data.drop offset), offset, [⟨offset, data.length - offset, offset⟩]⟩ := by
    simp only [readRest, if_pos ho]
  have hb : InBounds data.length (⟨.value (), offset,
      [⟨offset, data.length - offset, offset⟩]⟩ : ReadResult Unit) := by
    refine ⟨ho, ?_, ?_⟩
    · simp only [List.mem_singleton, forall_eq]
      omega
    · simpa using ho
  rw [bind_value hrest]
  refine Predicted.after hb ?_
  rcases h (data.drop offset) with hf | ⟨a, hf⟩
  · rw [hf]
    exact ⟨by simp, .of_nil ho⟩
  · rw [hf]
    exact ⟨by simp, .of_nil ho⟩

end Primitives

/-! ### TL strings follow -/

/-- The bytes of a string and its padding. -/
theorem follows_readTLBody {n pad : ℕ} (hn : n < 2 ^ 63) :
    Follows (2 ^ 63) (tlBody n pad) (readTLBody n pad) := by
  have hneg : ¬ (n : ℤ) < 0 := by omega
  have hskip : Follows (2 ^ 63) ((Scanner.bytes 1).repeated pad)
      (Reader.replicateM (readBytes 1) pad) :=
    (follows_readBytes (by omega)).replicateM (Scanner.closed_bytes 1) pad
  rw [readTLBody, toNSUInteger_natCast (by omega), Int.toNat_natCast]
  refine (follows_readBytes hn).bind (Scanner.closed_bytes n) fun bs => ?_
  rw [dataWithBytesNoCopy, if_neg hneg, pure_bind]
  have h := hskip.bind ((Scanner.closed_bytes 1).repeated pad) fun _ =>
    follows_pure (α := List UInt8) bs
  rwa [Scanner.andThen_nil] at h

/-- A negative length. -/
theorem follows_readTLBody_negative {k : ℕ} {paddingBytes : ℤ} (h0 : 0 < k) (hk : k ≤ 2 ^ 23) :
    Follows (2 ^ 63) (tlNegative k) (readTLBody (-(k : ℤ)) paddingBytes) := by
  refine ⟨fun data offset hdata ho => ?_, fun data more offset hdata ho _ => ?_⟩
  · rw [readTLBody_negative h0 hk ho hdata]
    by_cases hle : k ≤ offset
    · simp only [tlNegative, if_pos hle]
      exact rfl
    · simp only [tlNegative, if_neg hle]
      exact ⟨rfl, .of_nil ho⟩
  · have hlen : (data ++ more).length = data.length + more.length := List.length_append
    rw [readTLBody_negative h0 hk ho (by omega), readTLBody_negative h0 hk (by omega) hdata]

/-- The TL string reader follows its format. -/
theorem follows_readTLBytes : Follows (2 ^ 63) tlString readTLBytes := by
  refine follows_readBytes_bind (by omega) fun tmp htmp => ?_
  have htmp256 : leNat tmp < 256 := by
    have hlt := leNat_lt tmp
    rwa [htmp, pow_one] at hlt
  by_cases h254 : leNat tmp = 254
  · rw [if_pos h254, if_pos h254]
    refine follows_readBytes_bind (by omega) fun bs hbs => ?_
    have hlt : leNat bs < 2 ^ 24 := by
      have hlt := leNat_lt bs
      rw [hbs] at hlt
      omega
    by_cases h23 : leNat bs < 2 ^ 23
    · dsimp only
      rw [if_pos h23, tlLength_of_lt h23, roundUpInput_sub]
      exact follows_readTLBody (by omega)
    · rw [if_neg h23, tlLength_of_ge (not_lt.mp h23) hlt]
      exact follows_readTLBody_negative (by omega) (by omega)
  · rw [if_neg h254, if_neg h254]
    have hpad := roundUpInput_sub (leNat tmp + 1)
    push_cast at hpad
    dsimp only
    rw [hpad]
    exact_mod_cast follows_readTLBody (by omega)

/-! ### Every case follows -/

section Fields

variable {α : Type} {fs : List Field}

/-- A field of `n` bytes, read as bytes. -/
theorem Field.bytes_bind {n : ℕ} {f : List UInt8 → Reader α} (hn : n < 2 ^ 63)
    (h : ∀ bs, Follows (2 ^ 63) (scanFields fs) (f bs)) :
    Follows (2 ^ 63) (scanFields (.bytes n :: fs)) (readBytes n >>= f) :=
  (follows_readBytes hn).bind (Scanner.closed_bytes n) h

/-- A field of 4 bytes, read as an integer. -/
theorem Field.int32_bind {f : BitVec 32 → Reader α}
    (h : ∀ v, Follows (2 ^ 63) (scanFields fs) (f v)) :
    Follows (2 ^ 63) (scanFields (.bytes 4 :: fs)) (readInt32 >>= f) :=
  follows_readInt32.bind (Scanner.closed_bytes 4) h

/-- A field of 8 bytes, read as an integer. -/
theorem Field.int64_bind {f : BitVec 64 → Reader α}
    (h : ∀ v, Follows (2 ^ 63) (scanFields fs) (f v)) :
    Follows (2 ^ 63) (scanFields (.bytes 8 :: fs)) (readInt64 >>= f) :=
  follows_readInt64.bind (Scanner.closed_bytes 8) h

theorem closed_tlBody (n pad : ℕ) : (tlBody n pad).Closed :=
  (Scanner.closed_bytes n).andThen ((Scanner.closed_bytes 1).repeated pad)

theorem closed_tlNegative (k : ℕ) : (tlNegative k).Closed := by
  intro data offset
  simp only [tlNegative]
  split <;> exact fun h => nomatch h

theorem closed_tlString : tlString.Closed := by
  refine Scanner.closed_bytesThen fun tmp => ?_
  split
  · refine Scanner.closed_bytesThen fun bs => ?_
    split
    · exact closed_tlBody _ _
    · exact closed_tlNegative _
  · exact closed_tlBody _ _

/-- A TL string. -/
theorem Field.tlString_bind {f : List UInt8 → Reader α}
    (h : ∀ bs, Follows (2 ^ 63) (scanFields fs) (f bs)) :
    Follows (2 ^ 63) (scanFields (.tlString :: fs)) (readTLBytes >>= f) :=
  follows_readTLBytes.bind closed_tlString h

/-- A counted loop over a reader follows the counted scan. -/
theorem follows_readCounted {s : Scanner} {read : Reader α} (hs : s.Closed)
    (h : Follows (2 ^ 63) s read) :
    Follows (2 ^ 63) (int32Then fun count => s.repeated count.toInt.toNat)
      (readCounted read) :=
  follows_readInt32_bind fun count => h.replicateM hs count.toInt.toNat

theorem closed_counted {s : Scanner} (hs : s.Closed) :
    (int32Then fun count => s.repeated count.toInt.toNat).Closed :=
  Scanner.closed_bytesThen fun _ => hs.repeated _

/-- A vector of items of `n` bytes. -/
theorem Field.vector_bind {β : Type} {n : ℕ} {read : Reader β} {f : List β → Reader α}
    (hread : Follows (2 ^ 63) (.bytes n) read)
    (h : ∀ bs, Follows (2 ^ 63) (scanFields fs) (f bs)) :
    Follows (2 ^ 63) (scanFields (.vector n :: fs)) (readCounted read >>= f) :=
  (follows_readCounted (Scanner.closed_bytes n) hread).bind
    (closed_counted (Scanner.closed_bytes n)) h

/-- A signature that has to be there. -/
theorem Field.signature_bind {value : BitVec 32} {f : Unit → Reader α}
    (h : ∀ u, Follows (2 ^ 63) (scanFields fs) (f u)) :
    Follows (2 ^ 63) (scanFields (.signature value :: fs)) (readSignature value >>= f) := by
  have hclosed : (Field.signature value).scan.Closed := by
    rw [Field.scan]
    refine Scanner.closed_bytesThen fun bs => ?_
    dsimp only
    split
    · exact Scanner.closed_nil
    · exact Scanner.closed_reject
  have hread : Follows (2 ^ 63) (Field.signature value).scan (readSignature value) := by
    rw [Field.scan, readSignature]
    refine follows_readInt32_bind fun v => ?_
    split
    · exact follows_pure ()
    · exact follows_fail
  exact hread.bind hclosed h

/-- The rest of the buffer, put to a use that neither reads on nor raises. -/
theorem Field.rest_bind {f : List UInt8 → Reader α}
    (h : ∀ bs, f bs = Reader.fail ∨ ∃ a, f bs = pure a) :
    Follows (2 ^ 63) (scanFields [.rest]) (readRest >>= f) :=
  follows_readRest_bind h

/-- The object is made. -/
theorem Field.done (a : α) : Follows (2 ^ 63) (scanFields []) (pure a : Reader α) :=
  follows_pure a

end Fields

/-- Three 16-byte fields. -/
theorem follows_readNonces (make : List UInt8 → List UInt8 → List UInt8 → InternalMessage) :
    Follows (2 ^ 63) (scanFields [.bytes 16, .bytes 16, .bytes 16]) (readNonces make) :=
  Field.bytes_bind (by omega) fun nonce => Field.bytes_bind (by omega) fun serverNonce =>
    Field.bytes_bind (by omega) fun hash => Field.done (make nonce serverNonce hash)

/-- A salt takes 16 bytes. -/
theorem follows_readSalt : Follows (2 ^ 63) (.bytes 16) readSalt := by
  have h : Follows (2 ^ 63) (scanFields [.bytes 4, .bytes 4, .bytes 8]) readSalt :=
    Field.int32_bind fun _ => Field.int32_bind fun _ => Field.int64_bind fun _ => Field.done _
  simpa only [scanFields, Field.scan, Scanner.andThen_nil, Scanner.bytes_andThen] using h

/-- The bytes of a contained message. -/
theorem follows_readMessageData (length : BitVec 32) :
    Follows (2 ^ 63) (messageData length) (readMessageData length) := by
  by_cases h : length.toInt < 0 ∨ length.toInt > 16 * 1024 * 1024
  · rw [messageData, readMessageData, if_pos h, if_pos h]
    exact follows_fail
  · rw [messageData, readMessageData, if_neg h, if_neg h]
    exact follows_readBytes (by omega)

theorem closed_messageData (length : BitVec 32) : (messageData length).Closed := by
  rw [messageData]
  split
  · exact Scanner.closed_reject
  · exact Scanner.closed_bytes _

/-- A message of a container. -/
theorem follows_readMessage : Follows (2 ^ 63) containedMessage readMessage := by
  refine follows_readInt64.bind (Scanner.closed_bytes 8) fun messageId => ?_
  refine follows_readInt32.bind (Scanner.closed_bytes 4) fun seqNo => ?_
  refine follows_readInt32_bind fun length => ?_
  have h : Follows (2 ^ 63) ((messageData length).andThen .nil)
      (readMessageData length >>= fun data => pure (MTMessage.mk messageId seqNo data)) :=
    (follows_readMessageData length).bind (closed_messageData length) fun _ => follows_pure _
  rwa [Scanner.andThen_nil] at h

theorem closed_containedMessage : containedMessage.Closed :=
  (Scanner.closed_bytes 8).andThen ((Scanner.closed_bytes 4).andThen
    (Scanner.closed_bytesThen fun _ => closed_messageData _))

/-- The messages of a container. -/
theorem Field.messages_bind {α : Type} {fs : List Field} {f : List MTMessage → Reader α}
    (h : ∀ ms, Follows (2 ^ 63) (scanFields fs) (f ms)) :
    Follows (2 ^ 63) (scanFields (.messages :: fs)) (readCounted readMessage >>= f) :=
  (follows_readCounted closed_containedMessage follows_readMessage).bind
    (closed_counted closed_containedMessage) h

/-- The end of `msg_copy` neither reads on nor raises. -/
theorem checkMessageLength_cases (messageId : BitVec 64) (seqNo length : BitVec 32)
    (data : List UInt8) :
    checkMessageLength messageId seqNo length data = Reader.fail ∨
      ∃ m, checkMessageLength messageId seqNo length data = pure m := by
  rw [checkMessageLength]
  split
  · exact Or.inl rfl
  · exact Or.inr ⟨_, rfl⟩

/-- **Every case of the parser follows the layout of its message.** -/
theorem follows_read (c : Constructor) : Follows (2 ^ 63) (scanFields c.fields) c.read := by
  cases c with
  | resPq =>
      refine Field.bytes_bind (by omega) fun nonce => ?_
      refine Field.bytes_bind (by omega) fun serverNonce => ?_
      refine Field.tlString_bind fun pq => Field.int32_bind fun _ => ?_
      exact Field.vector_bind follows_readInt64 fun fingerprints => Field.done _
  | serverDhParamsFail => exact follows_readNonces _
  | serverDhParamsOk =>
      refine Field.bytes_bind (by omega) fun nonce => ?_
      refine Field.bytes_bind (by omega) fun serverNonce => ?_
      exact Field.tlString_bind fun encryptedResponse => Field.done _
  | serverDhInnerData =>
      refine Field.bytes_bind (by omega) fun nonce => ?_
      refine Field.bytes_bind (by omega) fun serverNonce => ?_
      refine Field.int32_bind fun g => Field.tlString_bind fun dhPrime => ?_
      exact Field.tlString_bind fun gA => Field.int32_bind fun serverTime => Field.done _
  | setClientDhParamsResponseOk => exact follows_readNonces _
  | setClientDhParamsResponseRetry => exact follows_readNonces _
  | setClientDhParamsResponseFail => exact follows_readNonces _
  | rpcResult =>
      exact Field.int64_bind fun requestMessageId =>
        Field.rest_bind fun responseData => .inr ⟨_, rfl⟩
  | rpcError =>
      exact Field.int32_bind fun errorCode => Field.tlString_bind fun description => Field.done _
  | dropRpcResultUnknown => exact Field.done _
  | dropRpcResultDroppedRunning => exact Field.done _
  | dropRpcResultDropped =>
      exact Field.int64_bind fun messageId => Field.int32_bind fun seqNo =>
        Field.int32_bind fun size => Field.done _
  | msgsStateReq =>
      exact Field.int32_bind fun _ => Field.vector_bind follows_readInt64 fun ids => Field.done _
  | msgsStateInfo =>
      exact Field.int64_bind fun requestMessageId => Field.tlString_bind fun info => Field.done _
  | msgDetailedResponseInfo =>
      exact Field.int64_bind fun requestMessageId => Field.int64_bind fun responseMessageId =>
        Field.int32_bind fun responseLength => Field.int32_bind fun status => Field.done _
  | msgDetailedInfo =>
      exact Field.int64_bind fun responseMessageId => Field.int32_bind fun responseLength =>
        Field.int32_bind fun status => Field.done _
  | msgAllInfo =>
      exact Field.int32_bind fun _ => Field.vector_bind follows_readInt64 fun ids =>
        Field.tlString_bind fun info => Field.done _
  | message =>
      exact Field.signature_bind fun _ => Field.int64_bind fun messageId =>
        Field.int32_bind fun seqNo => Field.int32_bind fun length =>
          Field.rest_bind fun data => checkMessageLength_cases messageId seqNo length data
  | msgResendReq => exact Field.vector_bind follows_readInt64 fun ids => Field.done _
  | badMsgNotification =>
      exact Field.int64_bind fun badMessageId => Field.int32_bind fun badMessageSeqNo =>
        Field.int32_bind fun errorCode => Field.done _
  | badServerSaltNotification =>
      exact Field.int64_bind fun badMessageId => Field.int32_bind fun badMessageSeqNo =>
        Field.int32_bind fun errorCode => Field.int64_bind fun nextServerSalt => Field.done _
  | msgsAck =>
      exact Field.signature_bind fun _ =>
        Field.vector_bind follows_readInt64 fun ids => Field.done _
  | ping => exact Field.int64_bind fun pingId => Field.done _
  | pong => exact Field.int64_bind fun messageId => Field.int64_bind fun pingId => Field.done _
  | newSessionCreated =>
      exact Field.int64_bind fun firstMessageId => Field.int64_bind fun uniqueId =>
        Field.int64_bind fun serverSalt => Field.done _
  | destroySessionResponseOk => exact Field.int64_bind fun sessionId => Field.done _
  | destroySessionResponseNone => exact Field.int64_bind fun sessionId => Field.done _
  | destroySessionMultipleResponse =>
      exact Field.rest_bind fun responsesData => .inr ⟨_, rfl⟩
  | msgContainer => exact Field.messages_bind fun messages => Field.done _
  | futureSalts =>
      exact Field.int64_bind fun requestMessageId => Field.int32_bind fun now =>
        Field.vector_bind follows_readSalt fun salts => Field.done _

/-- **The parser follows the layout of the message it is given.** -/
theorem follows_readInternalMessage : Follows (2 ^ 63) scanMessage readInternalMessage := by
  refine follows_readInt32_bind fun signature => ?_
  rw [readConstructor]
  cases Constructor.ofSignature signature with
  | some c => exact follows_read c
  | none => exact follows_fail

/-! ### Hostile bytes -/

/-- `parseMessage:` of the unwrapped bytes: a `nil` unwrapping is parsed as no bytes. -/
def parseUnwrapped (inflate : List UInt8 → Option NSData) (data : List UInt8) :
    Option (List UInt8) :=
  match unwrapMessage inflate data with
  | .value unwrapped => some unwrapped
  | .failed => some []
  | .raised => none

/-- Unwrapping and parsing `data` raises nothing and accesses nothing out of bounds. -/
def ParsesSafely (inflate : List UInt8 → Option NSData) (data : List UInt8) : Prop :=
  ∃ unwrapped, parseUnwrapped inflate data = some unwrapped ∧
    Safe unwrapped.length (parseInternalMessage unwrapped)

/-- The bytes a `gzip_packed` announces are there. -/
def PackedInside (data : List UInt8) : Prop :=
  if leNat ((data.drop 4).take 1) = 254 then
    8 ≤ data.length ∧ leNat ((data.drop 5).take 3) < 2 ^ 23 ∧
      8 + leNat ((data.drop 5).take 3) ≤ data.length
  else
    5 + leNat ((data.drop 4).take 1) ≤ data.length

/-- The bytes that are safe to hand to the parser: a `gzip_packed` has its range inside
the data, and the scan of the unwrapped message meets no length that wraps. -/
def Benign (inflate : List UInt8 → Option NSData) (data : List UInt8) : Prop :=
  (4 ≤ data.length → BitVec.ofNat 32 (leNat (data.take 4)) = gzipPackedSignature →
    PackedInside data) ∧
  ∀ unwrapped, unwrapMessage inflate data = .value unwrapped → scanMessage unwrapped 0 ≠ .raises

/-- A `resPQ` that ends in the length of its `pq`. -/
def hostileResPq : List UInt8 :=
  [0x63, 0x24, 0x16, 0x05] ++ List.replicate 32 0 ++ [0xfe, 0xff, 0xff, 0xff]

theorem subdataWithRange_of_le {data : List UInt8} {location length : ℕ}
    (h : location + length ≤ data.length) :
    subdataWithRange data location length = some ((data.drop location).take length) :=
  if_pos h

theorem subdataWithRange_of_gt {data : List UInt8} {location length : ℕ}
    (h : data.length < location + length) : subdataWithRange data location length = none :=
  if_neg (not_le.mpr h)

theorem subdataWithRange_isSome {data : List UInt8} {location length : ℕ} :
    (subdataWithRange data location length).isSome = true ↔ location + length ≤ data.length := by
  rcases Nat.lt_or_ge data.length (location + length) with h | h
  · simpa [subdataWithRange_of_gt h] using h
  · simpa [subdataWithRange_of_le h] using h

/-- Three bytes hold less than `2 ^ 24`. -/
theorem leNat_take_three (bytes : List UInt8) : leNat (bytes.take 3) < 2 ^ 24 :=
  calc leNat (bytes.take 3) < 256 ^ (bytes.take 3).length := leNat_lt _
    _ ≤ 256 ^ 3 := Nat.pow_le_pow_right (by omega) (List.length_take_le _ _)

/-- The range of a `gzip_packed` is cut out without raising exactly when it is inside. -/
theorem readBytesSkippingLength_isSome {data : List UInt8} (hdata : data.length < 2 ^ 63) :
    (readBytesSkippingLength data 4).isSome = true ↔ PackedInside data := by
  rcases Nat.lt_or_ge data.length (4 + 1) with h5 | h5
  · have hne : leNat ((data.drop 4).take 1) ≠ 254 := by
      rw [List.drop_eq_nil_of_le (by omega)]
      decide
    rw [PackedInside, if_neg hne, readBytesSkippingLength, subdataWithRange_of_gt h5]
    exact iff_of_false (by simp) (by omega)
  rw [readBytesSkippingLength, subdataWithRange_of_le h5, PackedInside]
  simp only [Option.bind_eq_bind, Option.bind_some]
  by_cases h254 : leNat ((data.drop 4).take 1) = 254
  · rw [if_pos h254, if_pos h254]
    rcases Nat.lt_or_ge data.length (4 + 1 + 3) with h8 | h8
    · rw [subdataWithRange_of_gt h8]
      exact iff_of_false (by simp) (by omega)
    rw [subdataWithRange_of_le h8, Option.bind_some, subdataWithRange_isSome]
    have h24 := leNat_take_three (data.drop 5)
    rcases Nat.lt_or_ge (leNat ((data.drop 5).take 3)) (2 ^ 23) with h23 | h23
    · rw [tlLength_of_lt h23, toNSUInteger_natCast (by omega)]
      omega
    · -- a negative length is a range of almost `2 ^ 64` bytes
      rw [tlLength_of_ge h23 h24, toNSUInteger_neg (by omega) (by omega)]
      omega
  · rw [if_neg h254, if_neg h254, subdataWithRange_isSome]

/-- What unwrapping can do: raise, give `nil`, or give bytes an `NSData` can hold. -/
theorem unwrapMessage_cases (inflate : List UInt8 → Option NSData) (data : NSData) :
    (unwrapMessage inflate data.bytes = .raised ∧ 4 ≤ data.bytes.length ∧
      BitVec.ofNat 32 (leNat (data.bytes.take 4)) = gzipPackedSignature ∧
      ¬ PackedInside data.bytes) ∨
    (unwrapMessage inflate data.bytes ≠ .raised ∧
      (4 ≤ data.bytes.length →
        BitVec.ofNat 32 (leNat (data.bytes.take 4)) = gzipPackedSignature →
        PackedInside data.bytes) ∧
      ∀ unwrapped, unwrapMessage inflate data.bytes = .value unwrapped →
        unwrapped.length < 2 ^ 63) := by
  have hinside := readBytesSkippingLength_isSome data.length_lt
  by_cases h4 : data.bytes.length < 4
  · refine Or.inr ⟨by simp [unwrapMessage, h4], fun h => absurd h (by omega), ?_⟩
    intro unwrapped hu
    rw [unwrapMessage, if_pos h4] at hu
    cases hu
    exact data.length_lt
  by_cases hsig : BitVec.ofNat 32 (leNat (data.bytes.take 4)) = gzipPackedSignature
  · cases hread : readBytesSkippingLength data.bytes 4 with
    | none =>
        rw [hread] at hinside
        refine Or.inl ⟨?_, not_lt.mp h4, hsig, by simpa using hinside⟩
        simp only [unwrapMessage, if_neg h4, if_pos hsig, hread]
    | some packedData =>
        rw [hread] at hinside
        have hin : PackedInside data.bytes := hinside.mp rfl
        refine Or.inr ⟨?_, fun _ _ => hin, fun unwrapped hu => ?_⟩
        · simp only [unwrapMessage, if_neg h4, if_pos hsig, hread]
          cases decompressGZip inflate packedData <;> simp
        · simp only [unwrapMessage, if_neg h4, if_pos hsig, hread] at hu
          cases hz : decompressGZip inflate packedData with
          | none => simp [hz] at hu
          | some unpackedData =>
              rw [hz] at hu
              cases hu
              exact unpackedData.length_lt
  · refine Or.inr ⟨by simp [unwrapMessage, h4, hsig], fun _ h => absurd h hsig, ?_⟩
    intro unwrapped hu
    rw [unwrapMessage, if_neg h4, if_neg hsig] at hu
    cases hu
    exact data.length_lt

/-- **The parser on hostile bytes.** Whatever `inflate` gives, unwrapping and parsing a
byte string raises nothing and accesses nothing out of bounds, if and only if the string
is benign. -/
theorem parsesSafely_iff (inflate : List UInt8 → Option NSData) (data : NSData) :
    ParsesSafely inflate data.bytes ↔ Benign inflate data.bytes := by
  rcases unwrapMessage_cases inflate data with ⟨hraised, h4, hsig, hout⟩ | ⟨hne, hin, hlen⟩
  · refine iff_of_false ?_ fun h => hout (h.1 h4 hsig)
    rintro ⟨unwrapped, hu, -⟩
    simp [parseUnwrapped, hraised] at hu
  · have hparse : ∀ unwrapped : List UInt8, unwrapped.length < 2 ^ 63 →
        (Safe unwrapped.length (parseInternalMessage unwrapped) ↔
          scanMessage unwrapped 0 ≠ .raises) := fun unwrapped h =>
      follows_readInternalMessage.safe_iff h (Nat.zero_le _)
    cases hunwrap : unwrapMessage inflate data.bytes with
    | raised => exact absurd hunwrap hne
    | failed =>
        refine iff_of_true ⟨[], by simp [parseUnwrapped, hunwrap], ?_⟩ ⟨hin, ?_⟩
        · exact (hparse [] (by decide)).mpr (by decide)
        · intro unwrapped hu
          simp [hunwrap] at hu
    | value unwrapped =>
        have hsafe := hparse unwrapped (hlen unwrapped hunwrap)
        constructor
        · rintro ⟨u, hu, hs⟩
          have heq : unwrapped = u := by simpa [parseUnwrapped, hunwrap] using hu
          refine ⟨hin, fun v hv => ?_⟩
          rw [hunwrap] at hv
          cases hv
          exact hsafe.mp (heq ▸ hs)
        · rintro ⟨-, hscan⟩
          exact ⟨unwrapped, by simp [parseUnwrapped, hunwrap],
            hsafe.mpr (hscan unwrapped hunwrap)⟩

/-- A bare `gzip_packed` signature raises. So does a `resPQ` whose `pq` announces
`2 ^ 24 - 1` bytes, and before that the read of its minus one byte succeeds and takes the
offset back from 40 to 39. -/
theorem parsesSafely_hostile :
    ¬ ParsesSafely (fun _ => none) [0xa1, 0xcf, 0x72, 0x30] ∧
      ¬ ParsesSafely (fun _ => none) hostileResPq ∧
      ⟨40, 2 ^ 64 - 1, 39⟩ ∈ (parseInternalMessage hostileResPq).accesses := by
  refine ⟨?_, ?_, by decide +kernel⟩
  · rintro ⟨unwrapped, hu, -⟩
    have hunwrap : parseUnwrapped (fun _ => none) [0xa1, 0xcf, 0x72, 0x30] = none := by
      decide +kernel
    exact absurd (hunwrap.symm.trans hu) (by simp)
  · rintro ⟨unwrapped, hu, hsafe⟩
    have hunwrap : parseUnwrapped (fun _ => none) hostileResPq = some hostileResPq := by
      decide +kernel
    obtain rfl := Option.some.inj (hunwrap.symm.trans hu)
    exact hsafe.1 (by decide +kernel)

end Telegraph.MtProto
