import Telegraph.MtProto.InputStream
import Telegraph.MtProto.MessageScan

/-!
# Incoming Messages

`MTProto` takes a decrypted payload apart: a header with the session id, then one message
or a container of them, each parsed by `MTInternalMessageParser` or, failing that, by the
serialization of the API layer. The header also carries the length of the message; it is
read and dropped, and everything to the end of the payload, padding included, is parsed.

The serialization and zlib's `inflate` are parameters. The timestamp of a message, a
floating-point function of the embedded message id, is left out.

## Main results

* `parseMessage_append`: a message that is parsed within its own bytes is parsed the same
  with anything appended.
* `parseIncomingMessages_padding`: **the padding has no influence on the messages** of a
  payload whose session id is wrong or whose top message is parsed within its length.
-/

open Bytes Reader

namespace Telegraph.MtProto

/-! ### The objects -/

/-- What parsing a message gives: a service message, or an object of the serialization. -/
inductive ParsedObject (α : Type) where
  | internal (message : InternalMessage)
  | external (object : α)
deriving DecidableEq

/-- `MTIncomingMessage`. -/
structure MTIncomingMessage (α : Type) where
  messageId : BitVec 64
  seqNo : BitVec 32
  salt : BitVec 64
  size : BitVec 32
  body : ParsedObject α
deriving DecidableEq

/-- What `MTProto` has at hand while parsing: its mode, the id of its session, whether
`MTLogEnabled()`, the serialization of its context, and zlib. -/
structure ParseContext (α : Type) where
  useUnauthorizedMode : Bool
  sessionId : BitVec 64
  logEnabled : Bool
  serialization : Option (List UInt8) → Option α
  inflate : List UInt8 → Option NSData

variable {α : Type}

/-- `parseMessage:` of `MTProto`: the internal parser first, then the serialization. -/
def ParseContext.parseMessage (ctx : ParseContext α) (data : List UInt8) :
    Outcome (ParsedObject α) :=
  let finish (unwrapped : Option (List UInt8)) : Outcome (ParsedObject α) :=
    match (parseInternalMessage (unwrapped.getD [])).outcome with
    | .value message => .value (.internal message)
    | .raised => .raised
    | .failed =>
        match ctx.serialization unwrapped with
        | some object => .value (.external object)
        | none => .failed
  match unwrapMessage ctx.inflate data with
  | .value unwrapped => finish (some unwrapped)
  | .failed => finish none
  | .raised => .raised

/-! ### The payload -/

/-- The header of a payload and the stream behind it. -/
structure PayloadHeader where
  salt : BitVec 64
  messageId : BitVec 64
  seqNo : BitVec 32
  topMessageSize : BitVec 32
  stream : MTInputStream

/-- The header in unauthorized mode. The first read has no flag: short of 8 bytes it
throws if logging is on, and otherwise gives what it could read. -/
def readUnauthorizedHeader (logEnabled : Bool) (data : List UInt8) : Outcome PayloadHeader :=
  let authKeyId := (⟨data⟩ : MTInputStream).read 8
  if authKeyId.1.length ≠ 8 ∧ logEnabled = true then .raised
  else if leNat authKeyId.1 ≠ 0 then .failed
  else
    let messageId := authKeyId.2.readInt64 false
    if messageId.failed then .failed
    else
      let topMessageSize := messageId.stream.readInt32 false
      if topMessageSize.failed ∨ topMessageSize.value.toInt < 4 then .failed
      else .value ⟨0, messageId.value, 0, topMessageSize.value, topMessageSize.stream⟩

/-- The header in encrypted mode: salt, session id, message id, sequence number, and the
message length, which is read and dropped. -/
def readEncryptedHeader (sessionId : BitVec 64) (data : List UInt8) : Outcome PayloadHeader :=
  let salt := (⟨data⟩ : MTInputStream).readInt64 false
  if salt.failed then .failed
  else
    let session := salt.stream.readInt64 false
    if session.failed then .failed
    else if session.value ≠ sessionId then .failed
    else
      let messageId := session.stream.readInt64 false
      if messageId.failed then .failed
      else
        let seqNo := messageId.stream.readInt32 false
        if seqNo.failed then .failed
        else
          let length := seqNo.stream.readInt32 false
          if length.failed then .failed
          else .value ⟨salt.value, messageId.value, seqNo.value, 0, length.stream⟩

/-- The messages of a container, parsed one by one; the first that fails fails the whole. -/
def ParseContext.parseContained (ctx : ParseContext α) (salt : BitVec 64) :
    List MTMessage → Outcome (List (MTIncomingMessage α))
  | [] => .value []
  | m :: ms =>
      match ctx.parseMessage m.data with
      | .failed => .failed
      | .raised => .raised
      | .value body =>
          match ctx.parseContained salt ms with
          | .failed => .failed
          | .raised => .raised
          | .value messages =>
              .value (⟨m.messageId, m.seqNo, salt, BitVec.ofNat 32 m.data.length, body⟩ ::
                messages)

/-- The messages of a payload behind its header. -/
def ParseContext.parseTopMessage (ctx : ParseContext α) (header : PayloadHeader) :
    Outcome (List (MTIncomingMessage α)) :=
  match ctx.parseMessage header.stream.rest with
  | .failed => .failed
  | .raised => .raised
  | .value (.internal (.msgContainer messages)) => ctx.parseContained header.salt messages
  | .value (.internal (.message m)) => ctx.parseContained header.salt [m]
  | .value body =>
      .value [⟨header.messageId, header.seqNo, header.salt, header.topMessageSize, body⟩]

/-- `_parseIncomingMessages:dataMessageId:parseError:`. A failure is `nil` with the parse
error flag set. -/
def ParseContext.parseIncomingMessages (ctx : ParseContext α) (data : List UInt8) :
    Outcome (List (MTIncomingMessage α)) :=
  let header := if ctx.useUnauthorizedMode then readUnauthorizedHeader ctx.logEnabled data
    else readEncryptedHeader ctx.sessionId data
  match header with
  | .failed => .failed
  | .raised => .raised
  | .value header => ctx.parseTopMessage header

/-! ### Parsing within the message -/

/-- The message `data` is parsed within its own bytes: a `gzip_packed` lies inside them;
any other service message ends inside them, or is rejected inside them and then parsed by
the serialization without regard to what follows. -/
def ParseContext.ParsedWithin (ctx : ParseContext α) (data : List UInt8) : Prop :=
  4 ≤ data.length ∧
  if BitVec.ofNat 32 (leNat (data.take 4)) = gzipPackedSignature then
    PackedInside data
  else
    (scanMessage data 0).Settled ∧
      (scanMessage data 0 = .rejected → ∀ more,
        ctx.serialization (some (data ++ more)) = ctx.serialization (some data))

/-- A range inside the data is the same with bytes appended. -/
theorem subdataWithRange_append {data more : List UInt8} {location length : ℕ}
    (h : location + length ≤ data.length) :
    subdataWithRange (data ++ more) location length = subdataWithRange data location length := by
  rw [subdataWithRange_of_le h,
    subdataWithRange_of_le (by rw [List.length_append]; omega),
    List.drop_append_of_le_length (by omega),
    List.take_append_of_le_length (by rw [List.length_drop]; omega)]

/-- A packed range inside the data has its length byte there. -/
theorem PackedInside.five_le {data : List UInt8} (h : PackedInside data) : 5 ≤ data.length := by
  by_cases h254 : leNat ((data.drop 4).take 1) = 254
  · rw [PackedInside, if_pos h254] at h
    omega
  · rw [PackedInside, if_neg h254] at h
    omega

/-- A packed range inside the data is the same with bytes appended. -/
theorem readBytesSkippingLength_append {data : List UInt8} (more : List UInt8)
    (h : PackedInside data) :
    readBytesSkippingLength (data ++ more) 4 = readBytesSkippingLength data 4 := by
  have h5 : 4 + 1 ≤ data.length := h.five_le
  rw [PackedInside] at h
  simp only [readBytesSkippingLength, subdataWithRange_append h5]
  rw [subdataWithRange_of_le h5]
  simp only [Option.bind_eq_bind, Option.bind_some]
  by_cases h254 : leNat ((data.drop 4).take 1) = 254
  · rw [if_pos h254] at h
    obtain ⟨h8, h23, hend⟩ := h
    have h3 : 4 + 1 + 3 ≤ data.length := h8
    rw [if_pos h254, if_pos h254, subdataWithRange_append h3, subdataWithRange_of_le h3,
      Option.bind_some, Option.bind_some, tlLength_of_lt h23,
      toNSUInteger_natCast (by omega)]
    exact subdataWithRange_append hend
  · rw [if_neg h254] at h
    rw [if_neg h254, if_neg h254]
    exact subdataWithRange_append h

/-- A `gzip_packed` inside the data is unwrapped the same with bytes appended. -/
theorem unwrapMessage_append {inflate : List UInt8 → Option NSData} {data : List UInt8}
    (more : List UInt8) (h4 : 4 ≤ data.length)
    (hsig : BitVec.ofNat 32 (leNat (data.take 4)) = gzipPackedSignature)
    (h : PackedInside data) : unwrapMessage inflate (data ++ more) = unwrapMessage inflate data := by
  have hlen : ¬ (data ++ more).length < 4 := by
    rw [List.length_append]
    omega
  rw [unwrapMessage, unwrapMessage, if_neg hlen, if_neg (not_lt.mpr h4),
    List.take_append_of_le_length h4, if_pos hsig, if_pos hsig,
    readBytesSkippingLength_append more h]

/-- Data that is no `gzip_packed` is left as it is. -/
theorem unwrapMessage_of_ne {inflate : List UInt8 → Option NSData} {data : List UInt8}
    (hsig : BitVec.ofNat 32 (leNat (data.take 4)) ≠ gzipPackedSignature) :
    unwrapMessage inflate data = .value data := by
  rw [unwrapMessage, if_neg hsig, ite_self]

/-- **A message that is parsed within its own bytes is parsed the same with anything
appended.** -/
theorem parseMessage_append (ctx : ParseContext α) {data more : List UInt8}
    (hbound : (data ++ more).length < 2 ^ 63) (h : ctx.ParsedWithin data) :
    ctx.parseMessage (data ++ more) = ctx.parseMessage data := by
  obtain ⟨h4, h⟩ := h
  have hdata : data.length < 2 ^ 63 := by
    rw [List.length_append] at hbound
    omega
  by_cases hsig : BitVec.ofNat 32 (leNat (data.take 4)) = gzipPackedSignature
  · rw [if_pos hsig] at h
    rw [ParseContext.parseMessage, ParseContext.parseMessage,
      unwrapMessage_append more h4 hsig h]
  · rw [if_neg hsig] at h
    obtain ⟨hsettled, hserial⟩ := h
    have hsig' : BitVec.ofNat 32 (leNat ((data ++ more).take 4)) ≠ gzipPackedSignature := by
      rwa [List.take_append_of_le_length h4]
    have hsame : parseInternalMessage (data ++ more) = parseInternalMessage data :=
      follows_readInternalMessage.stable data more 0 hbound (Nat.zero_le _) hsettled
    simp only [ParseContext.parseMessage, unwrapMessage_of_ne hsig, unwrapMessage_of_ne hsig',
      Option.getD_some, hsame]
    have hrun : Predicted data.length (scanMessage data 0) (parseInternalMessage data) :=
      follows_readInternalMessage.runs data 0 hdata (Nat.zero_le _)
    cases hscan : scanMessage data 0 with
    | rejected => rw [hserial hscan more]
    | done e =>
        rw [hscan] at hrun
        obtain ⟨⟨message, hm⟩, -⟩ := hrun
        rw [hm]
    | raises =>
        rw [hscan] at hrun
        have hraised : (parseInternalMessage data).outcome = .raised := hrun
        rw [hraised]
    | short =>
        rw [hscan] at hsettled
        exact absurd hsettled id
    | toEnd =>
        rw [hscan] at hsettled
        exact absurd hsettled id

/-! ### The padding -/

/-- The session id in the header of a payload. -/
def headerSessionId (payload : List UInt8) : BitVec 64 :=
  BitVec.ofNat 64 (leNat ((payload.drop 8).take 8))

/-- The header, read from the five fields a payload starts with. -/
theorem readEncryptedHeader_fields {sessionId : BitVec 64} {salt session messageId seqNo length
    t : List UInt8} (hsalt : salt.length = 8) (hsession : session.length = 8)
    (hid : messageId.length = 8) (hseq : seqNo.length = 4) (hlen : length.length = 4) :
    readEncryptedHeader sessionId
        (salt ++ (session ++ (messageId ++ (seqNo ++ (length ++ t))))) =
      if BitVec.ofNat 64 (leNat session) ≠ sessionId then .failed
      else .value ⟨BitVec.ofNat 64 (leNat salt), BitVec.ofNat 64 (leNat messageId),
        BitVec.ofNat 32 (leNat seqNo), 0, ⟨t⟩⟩ := by
  simp only [readEncryptedHeader, MTInputStream.readInt64, MTInputStream.readInt32,
    readInt_append hsalt, readInt_append hsession, readInt_append hid, readInt_append hseq,
    readInt_append hlen, Bool.false_eq_true, if_false]

/-- The header of a payload of at least 32 bytes, whatever follows them. -/
theorem readEncryptedHeader_append (sessionId : BitVec 64) {payload : List UInt8}
    (h : 32 ≤ payload.length) (more : List UInt8) :
    readEncryptedHeader sessionId (payload ++ more) =
      if headerSessionId payload ≠ sessionId then .failed
      else .value ⟨BitVec.ofNat 64 (leNat (payload.take 8)),
        BitVec.ofNat 64 (leNat ((payload.drop 16).take 8)),
        BitVec.ofNat 32 (leNat ((payload.drop 24).take 4)), 0, ⟨payload.drop 32 ++ more⟩⟩ := by
  have hsplit : payload ++ more = payload.take 8 ++ ((payload.drop 8).take 8 ++
      ((payload.drop 16).take 8 ++ ((payload.drop 24).take 4 ++
        ((payload.drop 28).take 4 ++ (payload.drop 32 ++ more))))) := by
    have hcut : ∀ i n j, i + n = j → (payload.drop i).take n ++ (payload.drop j ++ more) =
        payload.drop i ++ more := by
      rintro i n _ rfl
      rw [← List.append_assoc, ← List.drop_drop, List.take_append_drop]
    rw [hcut 28 4 32 rfl, hcut 24 4 28 rfl, hcut 16 8 24 rfl, hcut 8 8 16 rfl,
      ← List.append_assoc, List.take_append_drop]
  rw [hsplit, readEncryptedHeader_fields, headerSessionId]
  all_goals
    simp only [List.length_take, List.length_drop]
    omega

/-- The padding behind `payload` is never looked at: the session id is wrong, or the top
message is parsed within its bytes. -/
def ParseContext.PaddingUnread (ctx : ParseContext α) (payload : List UInt8) : Prop :=
  headerSessionId payload ≠ ctx.sessionId ∨ ctx.ParsedWithin (payload.drop 32)

/-- In encrypted mode, padding that is unread changes nothing. -/
theorem parseIncomingMessages_append (ctx : ParseContext α) {payload padding : List UInt8}
    (hmode : ctx.useUnauthorizedMode = false) (h32 : 32 ≤ payload.length)
    (hbound : (payload ++ padding).length < 2 ^ 63) (h : ctx.PaddingUnread payload) :
    ctx.parseIncomingMessages (payload ++ padding) = ctx.parseIncomingMessages payload := by
  have hfull := readEncryptedHeader_append ctx.sessionId h32 padding
  have hbare := readEncryptedHeader_append ctx.sessionId h32 []
  simp only [List.append_nil] at hbare
  simp only [ParseContext.parseIncomingMessages, hmode, Bool.false_eq_true, if_false, hfull,
    hbare]
  rcases h with hsession | hwithin
  · simp only [if_pos hsession]
  · have hlen : (payload.drop 32 ++ padding).length < 2 ^ 63 := by
      rw [List.length_append] at hbound
      rw [List.length_append, List.length_drop]
      omega
    have hsame := parseMessage_append ctx hlen hwithin
    by_cases hsession : headerSessionId payload ≠ ctx.sessionId
    · simp only [if_pos hsession]
    · simp only [if_neg hsession, ParseContext.parseTopMessage, hsame]

/-- **Padding noninterference.** Two payloads in encrypted mode that only differ in the
padding behind their header and message are parsed to the same messages, or the same
error, provided the padding is unread: the session id is wrong, or the message is parsed
within its own bytes. -/
theorem parseIncomingMessages_padding (ctx : ParseContext α) (payload : List UInt8)
    (data data' : NSData) (padding padding' : List UInt8)
    (hmode : ctx.useUnauthorizedMode = false) (h32 : 32 ≤ payload.length)
    (hdata : data.bytes = payload ++ padding) (hdata' : data'.bytes = payload ++ padding')
    (h : ctx.PaddingUnread payload) :
    ctx.parseIncomingMessages data.bytes = ctx.parseIncomingMessages data'.bytes := by
  have hbound := data.length_lt
  have hbound' := data'.length_lt
  rw [hdata] at hbound ⊢
  rw [hdata'] at hbound' ⊢
  rw [parseIncomingMessages_append ctx hmode h32 hbound h,
    parseIncomingMessages_append ctx hmode h32 hbound' h]

/-- A session with id 5, without a serialization and without zlib. -/
def bareContext : ParseContext Empty where
  useUnauthorizedMode := false
  sessionId := 5
  logEnabled := false
  serialization := fun _ => none
  inflate := fun _ => none

/-- A header for session 5 and message id 4, and a message of `length` bytes. -/
def payloadOf (length : ℕ) (message : List UInt8) : List UInt8 :=
  toLE 8 0 ++ toLE 8 5 ++ toLE 8 4 ++ toLE 4 1 ++ toLE 4 length ++ message

/-- A `ping`, padded with 12 zeros and with 16 ones. -/
theorem parseIncomingMessages_padding_ping :
    bareContext.parseIncomingMessages
        (payloadOf 12 (toLE 4 0x7abe77ec ++ toLE 8 9) ++ List.replicate 12 0) =
      bareContext.parseIncomingMessages
        (payloadOf 12 (toLE 4 0x7abe77ec ++ toLE 8 9) ++ List.replicate 16 1) := by
  refine parseIncomingMessages_padding bareContext
    (payloadOf 12 (toLE 4 0x7abe77ec ++ toLE 8 9)) ⟨_, by decide⟩ ⟨_, by decide⟩ _ _ rfl
    (by decide) rfl rfl (.inr ⟨by decide, ?_⟩)
  rw [if_neg (by decide)]
  exact ⟨by decide, fun h => absurd h (by decide)⟩

/-- An `rpc_result` whose 16 bytes are padded with 12 zeros and with 12 ones: the padding
becomes part of the result. -/
theorem parseIncomingMessages_padding_rpcResult :
    bareContext.parseIncomingMessages
        (payloadOf 16 (toLE 4 0xf35c6d01 ++ toLE 8 9 ++ toLE 4 7) ++ List.replicate 12 0) ≠
      bareContext.parseIncomingMessages
        (payloadOf 16 (toLE 4 0xf35c6d01 ++ toLE 8 9 ++ toLE 4 7) ++ List.replicate 12 1) := by
  decide +kernel

end Telegraph.MtProto
