import Telegraph.MtProto.BufferReader

/-!
# The Parser of Service Messages

`MTInternalMessageParser` turns the bytes of a service message into an object. This
module has the objects, one reader for every `case` of `parseMessage:`, the `switch` over
the signature, and `unwrapMessage:`, which undoes `gzip_packed` before.

A reader that fails is a `return nil`; one that raises is an Objective-C exception. Log
lines are left out.

## Main definitions

* `Constructor.read`: the body of each case.
* `parseInternalMessage`: `parseMessage:`.
* `unwrapMessage`: with zlib's `inflate` a parameter.
-/

open Bytes

namespace Telegraph.MtProto

/-! ### The messages -/

/-- `MTMessage`: a message inside a container. -/
structure MTMessage where
  messageId : BitVec 64
  seqNo : BitVec 32
  data : List UInt8
deriving DecidableEq

/-- `MTFutureSalt`. -/
structure MTFutureSalt where
  validSince : BitVec 32
  validUntil : BitVec 32
  salt : BitVec 64
deriving DecidableEq

/-- The objects `parseMessage:` returns, one constructor a class. -/
inductive InternalMessage where
  | resPq (nonce serverNonce pq : List UInt8) (serverPublicKeyFingerprints : List (BitVec 64))
  | serverDhParamsFail (nonce serverNonce nextNonceHash : List UInt8)
  | serverDhParamsOk (nonce serverNonce encryptedResponse : List UInt8)
  | serverDhInnerData (nonce serverNonce : List UInt8) (g : BitVec 32)
      (dhPrime gA : List UInt8) (serverTime : BitVec 32)
  | setClientDhParamsResponseOk (nonce serverNonce nextNonceHash1 : List UInt8)
  | setClientDhParamsResponseRetry (nonce serverNonce nextNonceHash2 : List UInt8)
  | setClientDhParamsResponseFail (nonce serverNonce nextNonceHash3 : List UInt8)
  | rpcResult (requestMessageId : BitVec 64) (data : List UInt8)
  | rpcError (errorCode : BitVec 32) (errorDescription : List UInt8)
  | dropRpcResultUnknown
  | dropRpcResultDroppedRunning
  | dropRpcResultDropped (messageId : BitVec 64) (seqNo size : BitVec 32)
  | msgsStateReq (messageIds : List (BitVec 64))
  | msgsStateInfo (requestMessageId : BitVec 64) (info : List UInt8)
  | msgDetailedResponseInfo (requestMessageId responseMessageId : BitVec 64)
      (responseLength status : BitVec 32)
  | msgDetailedInfo (responseMessageId : BitVec 64) (responseLength status : BitVec 32)
  | msgAllInfo (messageIds : List (BitVec 64)) (info : List UInt8)
  | message (message : MTMessage)
  | msgResendReq (messageIds : List (BitVec 64))
  | badMsgNotification (badMessageId : BitVec 64) (badMessageSeqNo errorCode : BitVec 32)
  | badServerSaltNotification (badMessageId : BitVec 64)
      (badMessageSeqNo errorCode : BitVec 32) (nextServerSalt : BitVec 64)
  | msgsAck (messageIds : List (BitVec 64))
  | ping (pingId : BitVec 64)
  | pong (messageId pingId : BitVec 64)
  | newSessionCreated (firstMessageId uniqueId serverSalt : BitVec 64)
  | destroySessionResponseOk (sessionId : BitVec 64)
  | destroySessionResponseNone (sessionId : BitVec 64)
  | destroySessionMultipleResponse (responses : List UInt8)
  | msgContainer (messages : List MTMessage)
  | futureSalts (requestMessageId : BitVec 64) (now : BitVec 32) (salts : List MTFutureSalt)
deriving DecidableEq

/-- The cases of the `switch` in `parseMessage:`, in its order. -/
inductive Constructor where
  | resPq
  | serverDhParamsFail
  | serverDhParamsOk
  | serverDhInnerData
  | setClientDhParamsResponseOk
  | setClientDhParamsResponseRetry
  | setClientDhParamsResponseFail
  | rpcResult
  | rpcError
  | dropRpcResultUnknown
  | dropRpcResultDroppedRunning
  | dropRpcResultDropped
  | msgsStateReq
  | msgsStateInfo
  | msgDetailedResponseInfo
  | msgDetailedInfo
  | msgAllInfo
  | message
  | msgResendReq
  | badMsgNotification
  | badServerSaltNotification
  | msgsAck
  | ping
  | pong
  | newSessionCreated
  | destroySessionResponseOk
  | destroySessionResponseNone
  | destroySessionMultipleResponse
  | msgContainer
  | futureSalts
deriving DecidableEq

namespace Constructor

/-- The signature of each case. -/
def signature : Constructor → BitVec 32
  | resPq => 0x05162463
  | serverDhParamsFail => 0x79cb045d
  | serverDhParamsOk => 0xd0e8075c
  | serverDhInnerData => 0xb5890dba
  | setClientDhParamsResponseOk => 0x3bcbf734
  | setClientDhParamsResponseRetry => 0x46dc1fb9
  | setClientDhParamsResponseFail => 0xa69dae02
  | rpcResult => 0xf35c6d01
  | rpcError => 0x2144ca19
  | dropRpcResultUnknown => 0x5e2ad36e
  | dropRpcResultDroppedRunning => 0xcd78e586
  | dropRpcResultDropped => 0xa43ad8b7
  | msgsStateReq => 0xda69fb52
  | msgsStateInfo => 0x04deb57d
  | msgDetailedResponseInfo => 0x276d3ec6
  | msgDetailedInfo => 0x809db6df
  | msgAllInfo => 0x8cc0d131
  | message => 0xe06046b2
  | msgResendReq => 0x7d861a08
  | badMsgNotification => 0xa7eff811
  | badServerSaltNotification => 0xedab447b
  | msgsAck => 0x62d6b459
  | ping => 0x7abe77ec
  | pong => 0x347773c5
  | newSessionCreated => 0x9ec20908
  | destroySessionResponseOk => 0xe22045fc
  | destroySessionResponseNone => 0x62d350c9
  | destroySessionMultipleResponse => 0xfb95abcd
  | msgContainer => 0x73f1f8dc
  | futureSalts => 0xae500895

/-- Every case. -/
def all : List Constructor :=
  [resPq, serverDhParamsFail, serverDhParamsOk, serverDhInnerData,
    setClientDhParamsResponseOk, setClientDhParamsResponseRetry,
    setClientDhParamsResponseFail, rpcResult, rpcError, dropRpcResultUnknown,
    dropRpcResultDroppedRunning, dropRpcResultDropped, msgsStateReq, msgsStateInfo,
    msgDetailedResponseInfo, msgDetailedInfo, msgAllInfo, message, msgResendReq,
    badMsgNotification, badServerSaltNotification, msgsAck, ping, pong, newSessionCreated,
    destroySessionResponseOk, destroySessionResponseNone, destroySessionMultipleResponse,
    msgContainer, futureSalts]

/-- The case of a signature; `none` is the `default` case. -/
def ofSignature (signature : BitVec 32) : Option Constructor :=
  all.find? fun c => c.signature = signature

/-- The `switch` finds every case under its own signature. -/
theorem ofSignature_signature (c : Constructor) : ofSignature c.signature = some c := by
  cases c <;> decide

end Constructor

/-! ### The cases -/

/-- A loop `for (int32_t i = 0; i < count; i++)` over a count just read. -/
def readCounted {α : Type} (read : Reader α) : Reader (List α) := do
  let count ← readInt32
  Reader.replicateM read count.toInt.toNat

/-- `readInt32:`, and `return nil` unless it gives this value. -/
def readSignature (value : BitVec 32) : Reader Unit := do
  let signature ← readInt32
  if signature = value then pure () else Reader.fail

/-- `nonce`, `serverNonce` and one more 16-byte field. -/
def readNonces (make : List UInt8 → List UInt8 → List UInt8 → InternalMessage) :
    Reader InternalMessage := do
  let nonce ← readBytes 16
  let serverNonce ← readBytes 16
  let hash ← readBytes 16
  pure (make nonce serverNonce hash)

/-- One salt of `future_salts`. -/
def readSalt : Reader MTFutureSalt := do
  let validSince ← readInt32
  let validUntil ← readInt32
  let salt ← readInt64
  pure ⟨validSince, validUntil, salt⟩

/-- The bytes of a message in a container: `length` of them, at most 16 MiB. -/
def readMessageData (length : BitVec 32) : Reader (List UInt8) :=
  if length.toInt < 0 ∨ length.toInt > 16 * 1024 * 1024 then Reader.fail
  else readBytes length.toInt.toNat

/-- One message of a container. -/
def readMessage : Reader MTMessage := do
  let messageId ← readInt64
  let seqNo ← readInt32
  let length ← readInt32
  let data ← readMessageData length
  pure ⟨messageId, seqNo, data⟩

/-- The end of `msg_copy`: the rest of the buffer has to be as long as announced. -/
def checkMessageLength (messageId : BitVec 64) (seqNo length : BitVec 32) (data : List UInt8) :
    Reader InternalMessage :=
  if data.length ≠ toNSUInteger length.toInt then Reader.fail
  else pure (.message ⟨messageId, seqNo, data⟩)

/-- The body of each case of the `switch`. -/
def Constructor.read : Constructor → Reader InternalMessage
  | resPq => do
      let nonce ← readBytes 16
      let serverNonce ← readBytes 16
      let pq ← readTLBytes
      let _ ← readInt32
      let serverPublicKeyFingerprints ← readCounted readInt64
      pure (.resPq nonce serverNonce pq serverPublicKeyFingerprints)
  | serverDhParamsFail => readNonces .serverDhParamsFail
  | serverDhParamsOk => do
      let nonce ← readBytes 16
      let serverNonce ← readBytes 16
      let encryptedResponse ← readTLBytes
      pure (.serverDhParamsOk nonce serverNonce encryptedResponse)
  | serverDhInnerData => do
      let nonce ← readBytes 16
      let serverNonce ← readBytes 16
      let g ← readInt32
      let dhPrime ← readTLBytes
      let gA ← readTLBytes
      let serverTime ← readInt32
      pure (.serverDhInnerData nonce serverNonce g dhPrime gA serverTime)
  | setClientDhParamsResponseOk => readNonces .setClientDhParamsResponseOk
  | setClientDhParamsResponseRetry => readNonces .setClientDhParamsResponseRetry
  | setClientDhParamsResponseFail => readNonces .setClientDhParamsResponseFail
  | rpcResult => do
      let requestMessageId ← readInt64
      let responseData ← readRest
      pure (.rpcResult requestMessageId responseData)
  | rpcError => do
      let errorCode ← readInt32
      let errorDescription ← readTLString
      pure (.rpcError errorCode errorDescription)
  | dropRpcResultUnknown => pure .dropRpcResultUnknown
  | dropRpcResultDroppedRunning => pure .dropRpcResultDroppedRunning
  | dropRpcResultDropped => do
      let messageId ← readInt64
      let seqNo ← readInt32
      let size ← readInt32
      pure (.dropRpcResultDropped messageId seqNo size)
  | msgsStateReq => do
      let _ ← readInt32
      let messageIds ← readCounted readInt64
      pure (.msgsStateReq messageIds)
  | msgsStateInfo => do
      let requestMessageId ← readInt64
      let info ← readTLBytes
      pure (.msgsStateInfo requestMessageId info)
  | msgDetailedResponseInfo => do
      let requestMessageId ← readInt64
      let responseMessageId ← readInt64
      let responseLength ← readInt32
      let status ← readInt32
      pure (.msgDetailedResponseInfo requestMessageId responseMessageId responseLength status)
  | msgDetailedInfo => do
      let responseMessageId ← readInt64
      let responseLength ← readInt32
      let status ← readInt32
      pure (.msgDetailedInfo responseMessageId responseLength status)
  | msgAllInfo => do
      let _ ← readInt32
      let messageIds ← readCounted readInt64
      let info ← readTLBytes
      pure (.msgAllInfo messageIds info)
  | message => do
      let _ ← readSignature 0x5bb8e511
      let messageId ← readInt64
      let seqNo ← readInt32
      let length ← readInt32
      let data ← readRest
      checkMessageLength messageId seqNo length data
  | msgResendReq => do
      let messageIds ← readCounted readInt64
      pure (.msgResendReq messageIds)
  | badMsgNotification => do
      let badMessageId ← readInt64
      let badMessageSeqNo ← readInt32
      let errorCode ← readInt32
      pure (.badMsgNotification badMessageId badMessageSeqNo errorCode)
  | badServerSaltNotification => do
      let badMessageId ← readInt64
      let badMessageSeqNo ← readInt32
      let errorCode ← readInt32
      let nextServerSalt ← readInt64
      pure (.badServerSaltNotification badMessageId badMessageSeqNo errorCode nextServerSalt)
  | msgsAck => do
      let _ ← readSignature 0x1cb5c415
      let messageIds ← readCounted readInt64
      pure (.msgsAck messageIds)
  | ping => do
      let pingId ← readInt64
      pure (.ping pingId)
  | pong => do
      let messageId ← readInt64
      let pingId ← readInt64
      pure (.pong messageId pingId)
  | newSessionCreated => do
      let firstMessageId ← readInt64
      let uniqueId ← readInt64
      let serverSalt ← readInt64
      pure (.newSessionCreated firstMessageId uniqueId serverSalt)
  | destroySessionResponseOk => do
      let sessionId ← readInt64
      pure (.destroySessionResponseOk sessionId)
  | destroySessionResponseNone => do
      let sessionId ← readInt64
      pure (.destroySessionResponseNone sessionId)
  | destroySessionMultipleResponse => do
      let responsesData ← readRest
      pure (.destroySessionMultipleResponse responsesData)
  | msgContainer => do
      let messages ← readCounted readMessage
      pure (.msgContainer messages)
  | futureSalts => do
      let requestMessageId ← readInt64
      let now ← readInt32
      let salts ← readCounted readSalt
      pure (.futureSalts requestMessageId now salts)

/-- The `switch` over the signature. -/
def readConstructor (signature : BitVec 32) : Reader InternalMessage :=
  match Constructor.ofSignature signature with
  | some c => c.read
  | none => Reader.fail

/-- `+parseMessage:` as a reader. -/
def readInternalMessage : Reader InternalMessage := do
  let signature ← readInt32
  readConstructor signature

/-- `+parseMessage:`. -/
def parseInternalMessage (data : List UInt8) : ReadResult InternalMessage :=
  readInternalMessage data 0

/-! ### Unwrapping -/

/-- `getBytes:range:` and `subdataWithRange:`, which raise outside the data. -/
def subdataWithRange (data : List UInt8) (location length : ℕ) : Option (List UInt8) :=
  if location + length ≤ data.length then some ((data.drop location).take length) else none

/-- `readBytes:skippingLength:`. -/
def readBytesSkippingLength (data : List UInt8) (skipLength : ℕ) : Option (List UInt8) := do
  let offset := skipLength
  let tmp ← subdataWithRange data offset 1
  let offset := offset + 1
  if leNat tmp = 254 then
    let bytes ← subdataWithRange data offset 3
    let offset := offset + 3
    subdataWithRange data offset (toNSUInteger (tlLength bytes))
  else
    subdataWithRange data offset (leNat tmp)

/-- `decompressGZip:`, where `inflate` stands for the loop over zlib's. -/
def decompressGZip (inflate : List UInt8 → Option NSData) (data : List UInt8) :
    Option NSData :=
  if data.length = 0 ∨ data.length > 0xFFFFFFFF then none else inflate data

/-- The signature of `gzip_packed`. -/
def gzipPackedSignature : BitVec 32 := 0x3072cfa1

/-- `unwrapMessage:`. A failure is `nil`. -/
def unwrapMessage (inflate : List UInt8 → Option NSData) (data : List UInt8) :
    Outcome (List UInt8) :=
  if data.length < 4 then .value data
  else if BitVec.ofNat 32 (leNat (data.take 4)) = gzipPackedSignature then
    match readBytesSkippingLength data 4 with
    | none => .raised
    | some packedData =>
        match decompressGZip inflate packedData with
        | none => .failed
        | some unpackedData => .value unpackedData.bytes
  else .value data

end Telegraph.MtProto
