import Telegraph.VoIP.Acks
import Telegraph.VoIP.BufferStreams

/-!
# The Packet Format

`WritePacketHeader` and `SendPacket` turn a payload into a datagram: a header in one of two
block formats, depending on the state of the call, the payload, padding, and around it the
encryption under the key of the call. `RunRecvThread` takes a datagram apart again.

The hash and cipher functions are parameters: hashes of the right lengths, and a cipher
that decrypts what it encrypted under the same key and vector. Random bytes are arguments.
`packetInnerLen` is `none` where the receive thread leaves the variable uninitialised.

## Main results

* `receivePacket_sendPacket`: what the peer makes of a datagram that it does not take for a message of
  the relay itself.
* `packet_roundTrip_iff`: **everything comes back as it was sent** exactly when, besides
  that, the call is not established and the payload is not empty.
-/

open Bytes

namespace Telegraph.VoIP

/-! ### Keys and endpoints -/

/-- The functions of `voip_crypto_functions_t`, with what is assumed of them. -/
structure Crypto where
  sha1 : List UInt8 → List UInt8
  sha256 : List UInt8 → List UInt8
  aesIgeEncrypt : List UInt8 → List UInt8 → List UInt8 → List UInt8
  aesIgeDecrypt : List UInt8 → List UInt8 → List UInt8 → List UInt8
  sha1_length : ∀ data, (sha1 data).length = 20
  sha256_length : ∀ data, (sha256 data).length = 32
  encrypt_length : ∀ data key iv, 16 ∣ data.length →
    (aesIgeEncrypt data key iv).length = data.length
  decrypt_encrypt : ∀ data key iv, 16 ∣ data.length →
    aesIgeDecrypt (aesIgeEncrypt data key iv) key iv = data

/-- `encryptionKey`. -/
structure EncryptionKey where
  bytes : List UInt8
  length_eq : bytes.length = 256

/-- `keyFingerprint`, as `SetEncryptionKey` computes it. -/
def EncryptionKey.fingerprint (crypto : Crypto) (key : EncryptionKey) : List UInt8 :=
  (crypto.sha1 key.bytes).drop 12

/-- `callID`, as `SetEncryptionKey` computes it. -/
def EncryptionKey.callID (crypto : Crypto) (key : EncryptionKey) : List UInt8 :=
  (crypto.sha256 key.bytes).drop 16

/-- `KDF`: the key and the vector for a message key. -/
def EncryptionKey.kdf (crypto : Crypto) (key : EncryptionKey) (msgKey : List UInt8) (x : ℕ) :
    List UInt8 × List UInt8 :=
  let part (offset count : ℕ) : List UInt8 := (key.bytes.drop (offset + x)).take count
  let sA := crypto.sha1 (msgKey ++ part 0 32)
  let sB := crypto.sha1 (part 32 16 ++ msgKey ++ part 48 16)
  let sC := crypto.sha1 (part 64 32 ++ msgKey)
  let sD := crypto.sha1 (msgKey ++ part 96 32)
  (sA.take 8 ++ (sB.drop 8).take 12 ++ (sC.drop 4).take 12,
    (sA.drop 8).take 12 ++ sB.take 8 ++ (sC.drop 16).take 4 ++ sD.take 8)

/-- The type of an `Endpoint`. -/
inductive EndpointType where
  | udpP2pInet
  | udpP2pLan
  | udpRelay
  | tcpRelay
deriving DecidableEq

/-- The endpoint is a relay. -/
def EndpointType.isRelay : EndpointType → Bool
  | .udpRelay => true
  | .tcpRelay => true
  | _ => false

/-- What of an `Endpoint` a datagram depends on. -/
structure DatagramEndpoint where
  type : EndpointType
  peerTag : List UInt8
  peerTag_length : peerTag.length = 16

/-- The first 16 bytes of a datagram: the peer tag for a relay, and otherwise the call id. -/
def DatagramEndpoint.tag (ep : DatagramEndpoint) (callID : List UInt8) : List UInt8 :=
  if ep.type.isRelay then ep.peerTag else callID

/-- The states of a call. -/
inductive CallState where
  | waitInit
  | waitInitAck
  | established
  | failed
  | reconnecting
deriving DecidableEq

/-! ### Constants -/

/-- `TLID_DECRYPTED_AUDIO_BLOCK`. -/
def TLID_DECRYPTED_AUDIO_BLOCK : BitVec 32 := 0xDBF948C1

/-- `TLID_SIMPLE_AUDIO_BLOCK`. -/
def TLID_SIMPLE_AUDIO_BLOCK : BitVec 32 := 0xCC0D0E76

/-- `PROTOCOL_NAME`. -/
def PROTOCOL_NAME : BitVec 32 := 0x50567247

/-- `PFLAG_HAS_DATA`. -/
def PFLAG_HAS_DATA : BitVec 32 := 1

/-- `PFLAG_HAS_EXTRA`. -/
def PFLAG_HAS_EXTRA : BitVec 32 := 2

/-- `PFLAG_HAS_CALL_ID`. -/
def PFLAG_HAS_CALL_ID : BitVec 32 := 4

/-- `PFLAG_HAS_PROTO`. -/
def PFLAG_HAS_PROTO : BitVec 32 := 8

/-- `PFLAG_HAS_SEQ`. -/
def PFLAG_HAS_SEQ : BitVec 32 := 16

/-- `PFLAG_HAS_RECENT_RECV`. -/
def PFLAG_HAS_RECENT_RECV : BitVec 32 := 32

/-! ### Sending -/

/-- What `crypto.rand_bytes` gives for one datagram. -/
structure DatagramRandom where
  randomID : BitVec 64
  randBytes : Fin 7 → UInt8
  padding : Fin 16 → UInt8

/-- The random string of a header: its length, and seven bytes. -/
def DatagramRandom.string (random : DatagramRandom) : List UInt8 :=
  7 :: List.ofFn random.randBytes

/-- What a header is written from: the state of the call and the window of `RunRecvThread`. -/
structure HeaderState where
  state : CallState
  window : RecvWindow

/-- `state==STATE_WAIT_INIT || state==STATE_WAIT_INIT_ACK`. -/
def CallState.waiting : CallState → Bool
  | .waitInit => true
  | .waitInitAck => true
  | _ => false

/-- The `pflags` of `WritePacketHeader`. -/
def packetFlags (type : UInt8) (hasData : Bool) : BitVec 32 :=
  PFLAG_HAS_RECENT_RECV ||| PFLAG_HAS_SEQ ||| (if hasData then PFLAG_HAS_DATA else 0) |||
    (PFLAG_HAS_CALL_ID ||| PFLAG_HAS_PROTO) ||| (BitVec.ofNat 32 type.toNat <<< 24)

/-- The bytes of `WritePacketHeader`. -/
def writePacketHeader (callID : List UInt8) (h : HeaderState) (random : DatagramRandom)
    (pseq : BitVec 32) (type : UInt8) (length : ℕ) : List UInt8 :=
  let acks := ackMask h.window.recvPacketTimes
  let random := toLE 8 random.randomID.toNat ++ random.string
  if h.state.waiting then
    let pflags := packetFlags type (length > 0)
    toLE 4 TLID_DECRYPTED_AUDIO_BLOCK.toNat ++ (random ++ (toLE 4 pflags.toNat ++ (callID ++
      (toLE 4 h.window.lastRemoteSeq.toNat ++ (toLE 4 pseq.toNat ++ (toLE 4 acks.toNat ++
        (toLE 4 PROTOCOL_NAME.toNat ++ if length > 0 then tlLength length else [])))))))
  else
    toLE 4 TLID_SIMPLE_AUDIO_BLOCK.toNat ++ (random ++ (tlLength (length + 13) ++ (type ::
      (toLE 4 h.window.lastRemoteSeq.toNat ++ (toLE 4 pseq.toNat ++ toLE 4 acks.toNat)))))

/-- The hash a datagram is checked by: of the length and the data, without the padding. -/
def messageKey (crypto : Crypto) (data : List UInt8) : List UInt8 :=
  (crypto.sha1 (toLE 4 data.length ++ data)).drop 4

/-- The length, the data, and padding to a multiple of 16 bytes. -/
def paddedData (random : DatagramRandom) (data : List UInt8) : List UInt8 :=
  let inner := toLE 4 data.length ++ data
  inner ++ if inner.length % 16 ≠ 0 then
    (List.ofFn random.padding).take (16 - inner.length % 16) else []

/-- What `SendPacket` writes behind the tag: the fingerprint, the hash, and the encrypted
data. -/
def encryptedBody (crypto : Crypto) (key : EncryptionKey) (isOutgoing : Bool)
    (random : DatagramRandom) (data : List UInt8) : List UInt8 :=
  let msgKey := messageKey crypto data
  let aes := key.kdf crypto msgKey (if isOutgoing then 0 else 8)
  key.fingerprint crypto ++ (msgKey ++
    crypto.aesIgeEncrypt (paddedData random data) aes.1 aes.2)

/-- `SendPacket`. Nothing goes out when the call is stopping, or over TCP when it is off. -/
def sendPacket (crypto : Crypto) (key : EncryptionKey) (isOutgoing stopping useTCP : Bool)
    (random : DatagramRandom) (data : List UInt8) (ep : DatagramEndpoint) :
    Option (List UInt8) :=
  if stopping then none
  else if ep.type = .tcpRelay ∧ useTCP = false then none
  else
    let tag := ep.tag (key.callID crypto)
    if data.length > 0 then some (tag ++ encryptedBody crypto key isOutgoing random data)
    else some tag

/-- `RunSendThread`, for one pending packet: the header, the payload, `SendPacket`. -/
def sendPending (crypto : Crypto) (key : EncryptionKey) (isOutgoing stopping useTCP useUDP : Bool)
    (h : HeaderState) (random : DatagramRandom) (pseq : BitVec 32) (type : UInt8)
    (payload : List UInt8) (ep : DatagramEndpoint) : Option (List UInt8) :=
  if (ep.type = .tcpRelay ∧ useTCP = true) ∨ (ep.type ≠ .tcpRelay ∧ useUDP = true) then
    sendPacket crypto key isOutgoing stopping useTCP random
      (writePacketHeader (key.callID crypto) h random pseq type payload.length ++ payload) ep
  else none

/-! ### Receiving -/

/-- Why a datagram is not handled. -/
inductive Rejection where
  | wrongPeerTag
  | relayResponse
  | tooSmall
  | wrongFingerprint
  | wrongHash
  | noSeq
  | wrongCallId
  | wrongProtocol
  | unknownType
  | outOfRange
deriving DecidableEq

/-- What `RunRecvThread` reads before it handles a packet. -/
structure PacketHeader where
  type : UInt8
  ackId : BitVec 32
  pseq : BitVec 32
  acks : BitVec 32
  packetInnerLen : Option ℕ
deriving DecidableEq

/-- `pad4`. -/
def pad4 (x : ℕ) : ℕ :=
  let r := 4 - (x + if x ≤ 253 then 1 else 0) % 4
  if r = 4 then 0 else r

/-- A TL string is skipped. -/
def skipTlString : StreamReader Unit := do
  let length ← readTlLength
  skip (length + pad4 length)

/-- The `type` in the flags. -/
def packetType (flags : BitVec 32) : UInt8 :=
  UInt8.ofNat ((flags >>> 24) &&& 0xFF).toNat

/-- The rest of a `decryptedAudioBlock`. -/
def readDecryptedAudioBlock (callID : List UInt8) :
    StreamReader (Except Rejection PacketHeader) := do
  let _ ← readInt64
  skipTlString
  let flags ← readInt32
  if flags &&& PFLAG_HAS_SEQ = 0 ∨ flags &&& PFLAG_HAS_RECENT_RECV = 0 then pure (.error .noSeq)
  else do
    let pktCallID ←
      if flags &&& PFLAG_HAS_CALL_ID ≠ 0 then readBytes 16 else pure callID
    if pktCallID ≠ callID then pure (.error .wrongCallId)
    else do
      let ackId ← readInt32
      let pseq ← readInt32
      let acks ← readInt32
      let proto ← if flags &&& PFLAG_HAS_PROTO ≠ 0 then readInt32 else pure PROTOCOL_NAME
      if proto ≠ PROTOCOL_NAME then pure (.error .wrongProtocol)
      else do
        if flags &&& PFLAG_HAS_EXTRA ≠ 0 then skipTlString else pure ()
        let packetInnerLen ←
          if flags &&& PFLAG_HAS_DATA ≠ 0 then some <$> readTlLength else pure none
        pure (.ok ⟨packetType flags, ackId, pseq, acks, packetInnerLen⟩)

/-- The rest of a `simpleAudioBlock`. -/
def readSimpleAudioBlock : StreamReader (Except Rejection PacketHeader) := do
  let _ ← readInt64
  skipTlString
  let packetInnerLen ← readTlLength
  let type ← readByte
  let ackId ← readInt32
  let pseq ← readInt32
  let acks ← readInt32
  pure (.ok ⟨type, ackId, pseq, acks, some packetInnerLen⟩)

/-- The header of a decrypted packet. -/
def readPacketHeader (callID : List UInt8) : StreamReader (Except Rejection PacketHeader) := do
  let tlid ← readInt32
  if tlid = TLID_DECRYPTED_AUDIO_BLOCK then readDecryptedAudioBlock callID
  else if tlid = TLID_SIMPLE_AUDIO_BLOCK then readSimpleAudioBlock
  else pure (.error .unknownType)

/-- The twelve bytes that mark a message of the relay itself. -/
def relaySpecial : List UInt8 :=
  List.replicate 12 0xFF

/-- The hash check, for the length read just before. -/
def hashMatches (crypto : Crypto) (msgHash : List UInt8) (length : ℕ) (s : BufferInputStream) :
    Bool :=
  let length := min length s.remaining
  (crypto.sha1 ((s.buffer.drop (s.offset - 4)).take (length + 4))).drop 4 = msgHash

/-- Decrypting, and checking the hash. The stream is left behind the length. -/
def decryptPacket (crypto : Crypto) (key : EncryptionKey) (isOutgoing : Bool) :
    StreamReader (Option Rejection) := do
  let fingerprint ← readBytes 8
  let msgHash ← readBytes 16
  if fingerprint ≠ key.fingerprint crypto then pure (some .wrongFingerprint)
  else do
    let (aesKey, aesIv) := key.kdf crypto msgHash (if isOutgoing then 8 else 0)
    modify fun s => { s with rest := crypto.aesIgeDecrypt s.rest aesKey aesIv }
    let length ← readInt32
    let s ← get
    if hashMatches crypto msgHash length.toNat s then pure none
    else pure (some .wrongHash)

/-- `RunRecvThread`, up to the header of a packet that comes from `src`; the buffer has
1024 bytes. -/
def receivePacket (crypto : Crypto) (key : EncryptionKey) (isOutgoing : Bool)
    (src : DatagramEndpoint) (datagram : List UInt8) :
    Except Rejection (PacketHeader × BufferInputStream) :=
  let buffer := datagram.take 1024
  let callID := key.callID crypto
  if buffer.take 16 ≠ src.tag callID then .error .wrongPeerTag
  else
    let s : BufferInputStream := ⟨buffer.take 16, buffer.drop 16⟩
    if 16 ≤ s.remaining ∧ src.type.isRelay = true ∧ s.rest.take 12 = relaySpecial then
      .error .relayResponse
    else if s.remaining < 40 then .error .tooSmall
    else
      match decryptPacket crypto key isOutgoing s with
      | none => .error .outOfRange
      | some (some rejection, _) => .error rejection
      | some (none, s) =>
          match readPacketHeader callID s with
          | none => .error .outOfRange
          | some (.error rejection, _) => .error rejection
          | some (.ok header, s) => .ok (header, s)

/-! ### The header is read back -/

section Header

variable {callID : List UInt8} {type : UInt8} {hasData : Bool}

/-- The type is in the high byte of the flags. -/
@[simp] theorem packetType_packetFlags (type : UInt8) (hasData : Bool) :
    packetType (packetFlags type hasData) = type := by
  have hall : ∀ n : Fin 256, ∀ hasData : Bool,
      packetType (packetFlags (UInt8.ofFin n) hasData) = UInt8.ofFin n := by
    decide +kernel
  exact hall type.toFin hasData

/-- Which flags are set. -/
theorem packetFlags_and (type : UInt8) (hasData : Bool) :
    packetFlags type hasData &&& PFLAG_HAS_SEQ ≠ 0 ∧
    packetFlags type hasData &&& PFLAG_HAS_RECENT_RECV ≠ 0 ∧
    packetFlags type hasData &&& PFLAG_HAS_CALL_ID ≠ 0 ∧
    packetFlags type hasData &&& PFLAG_HAS_PROTO ≠ 0 ∧
    packetFlags type hasData &&& PFLAG_HAS_EXTRA = 0 ∧
    (packetFlags type hasData &&& PFLAG_HAS_DATA ≠ 0 ↔ hasData = true) := by
  have hall : ∀ n : Fin 256, ∀ hasData : Bool,
      packetFlags (UInt8.ofFin n) hasData &&& PFLAG_HAS_SEQ ≠ 0 ∧
      packetFlags (UInt8.ofFin n) hasData &&& PFLAG_HAS_RECENT_RECV ≠ 0 ∧
      packetFlags (UInt8.ofFin n) hasData &&& PFLAG_HAS_CALL_ID ≠ 0 ∧
      packetFlags (UInt8.ofFin n) hasData &&& PFLAG_HAS_PROTO ≠ 0 ∧
      packetFlags (UInt8.ofFin n) hasData &&& PFLAG_HAS_EXTRA = 0 ∧
      (packetFlags (UInt8.ofFin n) hasData &&& PFLAG_HAS_DATA ≠ 0 ↔ hasData = true) := by
    decide +kernel
  exact hall type.toFin hasData

/-- The random string of a header is skipped. -/
@[simp] theorem skipTlString_random (before rest : List UInt8) (random : DatagramRandom) :
    skipTlString ⟨before, random.string ++ rest⟩ =
      some ((), ⟨before ++ random.string, rest⟩) := by
  have hlength : readTlLength ⟨before, random.string ++ rest⟩ =
      some (7, ⟨before ++ [7], List.ofFn random.randBytes ++ rest⟩) := rfl
  have hskip := skip_append (before ++ [7]) rest (List.length_ofFn (f := random.randBytes))
  simp only [skipTlString, bind_read, hlength, Option.bind_some]
  rw [show 7 + pad4 7 = 7 by decide, hskip, List.append_assoc]
  rfl

/-- The length `readPacketHeader` finds in the header of a payload. -/
def innerLength (state : CallState) (length : ℕ) : Option ℕ :=
  if state.waiting then if length > 0 then some length else none else some (length + 13)

/-- **The header is read back**, and leaves the stream at the payload. The length in it is
that of the payload in one format, and 13 more in the other. -/
theorem readPacketHeader_write (before rest : List UInt8) (hcallID : callID.length = 16)
    (h : HeaderState) (random : DatagramRandom) (pseq : BitVec 32) (type : UInt8) {length : ℕ}
    (hlength : length + 13 < 2 ^ 24) :
    readPacketHeader callID
        ⟨before, writePacketHeader callID h random pseq type length ++ rest⟩ =
      some (.ok
          { type := type
            ackId := h.window.lastRemoteSeq
            pseq := pseq
            acks := ackMask h.window.recvPacketTimes
            packetInnerLen := innerLength h.state length },
        ⟨before ++ writePacketHeader callID h random pseq type length, rest⟩) := by
  cases hwaiting : h.state.waiting with
  | true =>
      obtain ⟨hseq, hrecent, hcall, hproto, hextra, hdata⟩ :=
        packetFlags_and type (decide (length > 0))
      have hflags := not_or.mpr ⟨hseq, hrecent⟩
      have hlen : length < 2 ^ 24 := by omega
      simp only [readPacketHeader, writePacketHeader, hwaiting, if_true, List.append_assoc,
        bind_read, readInt32_append, Option.bind_some, readDecryptedAudioBlock,
        readInt64_append, skipTlString_random, if_neg hflags, if_pos hcall, if_pos hproto,
        readBytes_append _ _ hcallID, ne_eq, not_true, if_false, hextra,
        packetType_packetFlags]
      by_cases hpos : length > 0
      · rw [decide_eq_true hpos] at hdata ⊢
        have hset : packetFlags type true &&& PFLAG_HAS_DATA ≠ 0#32 := hdata.mpr rfl
        simp [innerLength, hwaiting, hpos, hset, readTlLength_tlLength _ _ hlen]
      · rw [decide_eq_false hpos] at hdata ⊢
        have hclear : packetFlags type false &&& PFLAG_HAS_DATA = 0#32 := by
          by_contra hne
          exact Bool.false_ne_true (hdata.mp hne)
        simp [innerLength, hwaiting, hpos, hclear]
  | false =>
      have htlid : TLID_SIMPLE_AUDIO_BLOCK ≠ TLID_DECRYPTED_AUDIO_BLOCK := by decide
      simp [readPacketHeader, writePacketHeader, readSimpleAudioBlock, innerLength, hwaiting,
        htlid, readTlLength_tlLength _ _ hlength]

end Header

/-! ### The datagram is taken apart again -/

section Datagram

variable {crypto : Crypto} {key : EncryptionKey} {isOutgoing stopping useTCP useUDP : Bool}
  {random : DatagramRandom} {data datagram : List UInt8} {ep : DatagramEndpoint}

@[simp] theorem length_fingerprint : (key.fingerprint crypto).length = 8 := by
  simp [EncryptionKey.fingerprint, crypto.sha1_length]

@[simp] theorem length_callID : (key.callID crypto).length = 16 := by
  simp [EncryptionKey.callID, crypto.sha256_length]

@[simp] theorem length_messageKey : (messageKey crypto data).length = 16 := by
  simp [messageKey, crypto.sha1_length]

@[simp] theorem length_tag : (ep.tag (key.callID crypto)).length = 16 := by
  unfold DatagramEndpoint.tag
  split
  · exact ep.peerTag_length
  · exact length_callID

/-- The padded data fills whole blocks. -/
theorem dvd_length_paddedData : 16 ∣ (paddedData random data).length := by
  simp only [paddedData, List.length_append, length_toLE]
  split
  · simp only [List.length_take, List.length_ofFn]
    omega
  · simp only [List.length_nil]
    omega

/-- The padded data is the length and the data, and then some. -/
theorem paddedData_eq (random : DatagramRandom) (data : List UInt8) :
    ∃ padding, paddedData random data = toLE 4 data.length ++ (data ++ padding) := by
  simp only [paddedData, List.append_assoc]
  exact ⟨_, rfl⟩

/-- **The peer decrypts what was sent** and finds the hash right. -/
theorem decryptPacket_sent (before : List UInt8) (hlen : data.length < 2 ^ 32) :
    ∃ padding, decryptPacket crypto key (!isOutgoing)
        ⟨before, encryptedBody crypto key isOutgoing random data⟩ =
      some (none, ⟨before ++ key.fingerprint crypto ++ messageKey crypto data ++
        toLE 4 data.length, data ++ padding⟩) := by
  obtain ⟨padding, hpadding⟩ := paddedData_eq random data
  have hx : (if (!isOutgoing) = true then 8 else 0) = if isOutgoing = true then 0 else 8 := by
    cases isOutgoing <;> rfl
  have hread : readInt32 ⟨before ++ key.fingerprint crypto ++ messageKey crypto data,
      toLE 4 data.length ++ (data ++ padding)⟩ =
      some (BitVec.ofNat 32 data.length, ⟨before ++ key.fingerprint crypto ++
        messageKey crypto data ++ toLE 4 data.length, data ++ padding⟩) := by
    have h := readInt32_append (before ++ key.fingerprint crypto ++ messageKey crypto data)
      (data ++ padding) (BitVec.ofNat 32 data.length)
    rwa [BitVec.toNat_ofNat, Nat.mod_eq_of_lt hlen] at h
  have hhash : hashMatches crypto (messageKey crypto data) data.length
      ⟨before ++ key.fingerprint crypto ++ messageKey crypto data ++ toLE 4 data.length,
        data ++ padding⟩ = true := by
    unfold hashMatches
    rw [decide_eq_true_eq]
    simp only [BufferInputStream.remaining, BufferInputStream.offset, BufferInputStream.buffer]
    rw [@List.length_append _ data, Nat.min_eq_left (Nat.le_add_right _ _),
      List.append_assoc _ (toLE 4 data.length), List.length_append, length_toLE,
      Nat.add_sub_cancel, List.drop_left, ← List.append_assoc,
      List.take_left' (by simp [Nat.add_comm])]
    rfl
  have hdecrypt : ∀ aesKey aesIv, crypto.aesIgeDecrypt
      (crypto.aesIgeEncrypt (paddedData random data) aesKey aesIv) aesKey aesIv =
        toLE 4 data.length ++ (data ++ padding) := fun aesKey aesIv =>
    (crypto.decrypt_encrypt _ aesKey aesIv dvd_length_paddedData).trans hpadding
  refine ⟨padding, ?_⟩
  simp only [decryptPacket, encryptedBody, bind_read, readBytes_append _ _ length_fingerprint,
    readBytes_append _ _ length_messageKey, Option.bind_some, ne_eq, not_true, if_false, hx,
    modify_read, get_read, hdecrypt, hread, BitVec.toNat_ofNat, Nat.mod_eq_of_lt hlen, hhash,
    if_true, pure_read]

/-- The datagram starts like a message of the relay itself: the fingerprint of the key is
all ones, and so are the first four bytes of the hash. -/
def TakenForRelay (crypto : Crypto) (key : EncryptionKey) (ep : DatagramEndpoint)
    (data : List UInt8) : Prop :=
  ep.type.isRelay = true ∧
    (key.fingerprint crypto ++ messageKey crypto data).take 12 = relaySpecial

/-- The datagram that is sent. -/
theorem sendPacket_eq_some
    (h : sendPacket crypto key isOutgoing stopping useTCP random data ep = some datagram)
    (hpos : data.length > 0) :
    datagram = ep.tag (key.callID crypto) ++ encryptedBody crypto key isOutgoing random data := by
  unfold sendPacket at h
  split at h
  · simp at h
  · split at h
    · simp at h
    · exact (Option.some.inj h).symm

theorem length_encryptedBody :
    data.length + 28 ≤ (encryptedBody crypto key isOutgoing random data).length ∧
      40 ≤ (encryptedBody crypto key isOutgoing random data).length := by
  obtain ⟨padding, hpadding⟩ := paddedData_eq random data
  have hdvd : 16 ∣ (paddedData random data).length := dvd_length_paddedData
  have hlength := congrArg List.length hpadding
  simp only [List.length_append, length_toLE] at hlength
  simp only [encryptedBody, List.length_append, length_fingerprint, length_messageKey,
    crypto.encrypt_length _ _ _ hdvd]
  omega

/-- **What the peer makes of a datagram** it does not take for a message of the relay: it
finds the data, from behind the length on. -/
theorem receivePacket_sendPacket
    (h : sendPacket crypto key isOutgoing stopping useTCP random data ep = some datagram)
    (hpos : data.length > 0) (hfits : datagram.length ≤ 1024) :
    (TakenForRelay crypto key ep data →
      receivePacket crypto key (!isOutgoing) ep datagram = .error .relayResponse) ∧
    (¬TakenForRelay crypto key ep data → ∃ before padding,
      receivePacket crypto key (!isOutgoing) ep datagram =
        match readPacketHeader (key.callID crypto) ⟨before, data ++ padding⟩ with
        | none => .error .outOfRange
        | some (.error rejection, _) => .error rejection
        | some (.ok header, s) => .ok (header, s)) := by
  obtain rfl := sendPacket_eq_some h hpos
  obtain ⟨hdata, hbody⟩ := @length_encryptedBody crypto key isOutgoing random data
  have htag : (ep.tag (key.callID crypto)).length = 16 := length_tag
  rw [List.length_append, htag] at hfits
  obtain ⟨padding, hdecrypt⟩ := @decryptPacket_sent crypto key isOutgoing random data
    (ep.tag (key.callID crypto)) (by omega)
  have hspecial : TakenForRelay crypto key ep data ↔ ep.type.isRelay = true ∧
      (encryptedBody crypto key isOutgoing random data).take 12 = relaySpecial := by
    have hlength : 12 ≤ (key.fingerprint crypto ++ messageKey crypto data).length := by
      simp only [List.length_append, length_fingerprint, length_messageKey]
      omega
    simp only [TakenForRelay, encryptedBody]
    rw [← List.append_assoc, List.take_append_of_le_length hlength]
  have hbuffer : (ep.tag (key.callID crypto) ++
      encryptedBody crypto key isOutgoing random data).take 1024 =
      ep.tag (key.callID crypto) ++ encryptedBody crypto key isOutgoing random data :=
    List.take_of_length_le (by rw [List.length_append, htag]; omega)
  have hlong : 16 ≤ (encryptedBody crypto key isOutgoing random data).length := by omega
  have hsmall := Nat.not_lt.mpr hbody
  constructor
  · intro htaken
    obtain ⟨hrelay, htake⟩ := hspecial.mp htaken
    simp only [receivePacket, hbuffer, List.take_left' htag, List.drop_left' htag, ne_eq,
      not_true, if_false, BufferInputStream.remaining, hlong, hrelay, htake, and_self, if_true]
  · intro htaken
    have hcond := mt hspecial.mpr htaken
    simp only [receivePacket, hbuffer, List.take_left' htag, List.drop_left' htag, ne_eq,
      not_true, if_false, BufferInputStream.remaining, hlong, hcond, true_and, hsmall, hdecrypt]
    exact ⟨_, padding, rfl⟩

end Datagram

/-! ### The round trip -/

section RoundTrip

variable {crypto : Crypto} {key : EncryptionKey} {isOutgoing stopping useTCP useUDP : Bool}
  {h : HeaderState} {random : DatagramRandom} {pseq : BitVec 32} {type : UInt8}
  {payload datagram : List UInt8} {ep : DatagramEndpoint}

/-- What the peer is to make of a packet: its type, numbers and mask, the length of the
payload, and the stream standing at the payload. -/
def RoundTrip (h : HeaderState) (pseq : BitVec 32) (type : UInt8) (payload : List UInt8)
    (received : Except Rejection (PacketHeader × BufferInputStream)) : Prop :=
  ∃ s, received = .ok
      ({ type := type
         ackId := h.window.lastRemoteSeq
         pseq := pseq
         acks := ackMask h.window.recvPacketTimes
         packetInnerLen := some payload.length }, s) ∧
    payload <+: s.rest

/-- A packet to send: the header and the payload. -/
def packetData (crypto : Crypto) (key : EncryptionKey) (h : HeaderState)
    (random : DatagramRandom) (pseq : BitVec 32) (type : UInt8) (payload : List UInt8) :
    List UInt8 :=
  writePacketHeader (key.callID crypto) h random pseq type payload.length ++ payload

/-- A packet is never empty: there is the header. -/
theorem length_packetData_pos :
    0 < (packetData crypto key h random pseq type payload).length := by
  simp only [packetData, writePacketHeader, List.length_append]
  split <;> simp only [List.length_append, length_toLE] <;> omega

/-- The packet fits where the datagram does. -/
theorem length_packetData_le
    (hsent : sendPacket crypto key isOutgoing stopping useTCP random
      (packetData crypto key h random pseq type payload) ep = some datagram)
    (hfits : datagram.length ≤ 1024) :
    (packetData crypto key h random pseq type payload).length ≤ 1024 := by
  obtain rfl := sendPacket_eq_some hsent length_packetData_pos
  obtain ⟨hdata, -⟩ := @length_encryptedBody crypto key isOutgoing random
    (packetData crypto key h random pseq type payload)
  rw [List.length_append] at hfits
  omega

/-- The length in the header is that of the payload in the longer format only, and there
only when there is a payload. -/
theorem innerLength_eq_some_iff {state : CallState} {length : ℕ} :
    innerLength state length = some length ↔ state.waiting = true ∧ 0 < length := by
  unfold innerLength
  split
  · split <;> simp_all
  · simp_all

/-- **Everything comes back as it was sent**, the length of the payload with it, exactly
when the call is not established yet, the payload is not empty, and the datagram does not
start like a message of the relay. -/
theorem packet_roundTrip_iff
    (hsent : sendPending crypto key isOutgoing stopping useTCP useUDP h random pseq type
      payload ep = some datagram)
    (hfits : datagram.length ≤ 1024) :
    RoundTrip h pseq type payload (receivePacket crypto key (!isOutgoing) ep datagram) ↔
      (h.state = .waitInit ∨ h.state = .waitInitAck) ∧ payload ≠ [] ∧
        ¬TakenForRelay crypto key ep (packetData crypto key h random pseq type payload) := by
  have hsent : sendPacket crypto key isOutgoing stopping useTCP random
      (packetData crypto key h random pseq type payload) ep = some datagram := by
    unfold sendPending at hsent
    split at hsent
    · exact hsent
    · cases hsent
  have hwaiting : (h.state = .waitInit ∨ h.state = .waitInitAck) ↔ h.state.waiting = true := by
    cases h.state <;> simp [CallState.waiting]
  have hdata := length_packetData_le hsent hfits
  have hpayload : payload.length ≤ 1024 := by
    rw [packetData, List.length_append] at hdata
    omega
  obtain ⟨hrelay, hpeer⟩ := receivePacket_sendPacket hsent length_packetData_pos hfits
  rw [hwaiting]
  by_cases htaken : TakenForRelay crypto key ep
      (packetData crypto key h random pseq type payload)
  · rw [hrelay htaken]
    constructor
    · rintro ⟨s, hreceived, -⟩
      cases hreceived
    · rintro ⟨-, -, hnot⟩
      exact absurd htaken hnot
  · obtain ⟨before, padding, hreceived⟩ := hpeer htaken
    have hcallID : (key.callID crypto).length = 16 := length_callID
    have hlength : payload.length + 13 < 2 ^ 24 := by omega
    have hread := readPacketHeader_write before (payload ++ padding) hcallID h random pseq type
      hlength
    rw [packetData, List.append_assoc, hread] at hreceived
    rw [hreceived]
    constructor
    · rintro ⟨s, hs, -⟩
      have hinner := congrArg PacketHeader.packetInnerLen (congrArg Prod.fst (Except.ok.inj hs))
      obtain ⟨hstate, hlength⟩ := innerLength_eq_some_iff.mp hinner
      exact ⟨hstate, List.length_pos_iff.mp hlength, htaken⟩
    · rintro ⟨hstate, hpayload, -⟩
      have hinner := innerLength_eq_some_iff.mpr ⟨hstate, List.length_pos_iff.mpr hpayload⟩
      rw [hinner]
      exact ⟨_, rfl, List.prefix_append payload padding⟩

end RoundTrip

/-- Functions with no secrecy at all: nothing is hashed or encrypted. -/
def plainCrypto : Crypto where
  sha1 _ := List.replicate 20 0
  sha256 _ := List.replicate 32 0
  aesIgeEncrypt data _ _ := data
  aesIgeDecrypt data _ _ := data
  sha1_length _ := List.length_replicate
  sha256_length _ := List.length_replicate
  encrypt_length _ _ _ _ := rfl
  decrypt_encrypt _ _ _ _ := rfl

/-- A key of zeros. -/
def zeroKey : EncryptionKey :=
  ⟨List.replicate 256 0, List.length_replicate⟩

/-- A relay whose peer tag is zeros. -/
def zeroRelay : DatagramEndpoint :=
  ⟨.udpRelay, List.replicate 16 0, List.length_replicate⟩

/-- The random bytes of a datagram, all zeros. -/
def zeroRandom : DatagramRandom :=
  ⟨0, fun _ => 0, fun _ => 0⟩

/-- The state of a call before any packet has arrived. -/
def freshHeader (state : CallState) : HeaderState :=
  ⟨state, RecvWindow.init⟩

/-- **In an established call the length is 13 too much**: four bytes of payload arrive with
`packetInnerLen` 17. -/
theorem packet_roundTrip_established :
    ¬∀ (crypto : Crypto) (key : EncryptionKey) (isOutgoing stopping useTCP useUDP : Bool)
        (h : HeaderState) (random : DatagramRandom) (pseq : BitVec 32) (type : UInt8)
        (payload datagram : List UInt8) (ep : DatagramEndpoint),
      sendPending crypto key isOutgoing stopping useTCP useUDP h random pseq type payload ep =
        some datagram →
      datagram.length ≤ 1024 →
      RoundTrip h pseq type payload (receivePacket crypto key (!isOutgoing) ep datagram) := by
  intro hall
  obtain ⟨datagram, hsent, hfits, hinner⟩ : ∃ datagram,
      sendPending plainCrypto zeroKey true false true true (freshHeader .established) zeroRandom
        1 4 [1, 2, 3, 4] zeroRelay = some datagram ∧
      datagram.length ≤ 1024 ∧
      (receivePacket plainCrypto zeroKey false zeroRelay datagram).toOption.map
        (fun packet => packet.1.packetInnerLen) = some (some 17) :=
    ⟨_, rfl, by decide +kernel, by decide +kernel⟩
  obtain ⟨s, hs, -⟩ := hall _ _ _ _ _ _ _ _ _ _ _ _ _ hsent hfits
  rw [show (!true) = false from rfl] at hs
  rw [hs] at hinner
  have hfour := Option.some.inj (Option.some.inj hinner)
  exact absurd hfour (by decide)

/-- The first packets of a call do come back. -/
theorem packet_roundTrip_waitInit :
    ∃ datagram,
      sendPending plainCrypto zeroKey true false true true (freshHeader .waitInit) zeroRandom
        1 4 [1, 2, 3, 4] zeroRelay = some datagram ∧
      RoundTrip (freshHeader .waitInit) 1 4 [1, 2, 3, 4]
        (receivePacket plainCrypto zeroKey false zeroRelay datagram) := by
  have hsent : sendPending plainCrypto zeroKey true false true true (freshHeader .waitInit)
      zeroRandom 1 4 [1, 2, 3, 4] zeroRelay = some _ := rfl
  refine ⟨_, hsent, (packet_roundTrip_iff hsent ?_).mpr ⟨.inl rfl, ?_, ?_⟩⟩
  · decide +kernel
  · decide
  · rintro ⟨-, htake⟩
    exact absurd htake (by decide +kernel)

end Telegraph.VoIP
