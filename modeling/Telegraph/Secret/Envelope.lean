import Telegraph.Lib.Bytes
import Telegraph.Secret.IncomingQueue
import Telegraph.Secret.Keys

/-!
# The Envelope of a Secret Message

From layer 17 on, `TGSecretOutgoingQueueActor` puts an envelope around a message, with its layer
and sequence numbers, and `TGModernSendSecretMessageActor` pads and encrypts it. The other
client opens it in `decryptEncryptedMessageData:`. Sequence numbers are doubled, and the lowest
bit tells which of the two clients counts: the creator of the chat or the other.

Lengths are kept as `int32_t`, in two's complement where they do not fit. SHA-1 is any function
with digests of 20 bytes, and AES-IGE any length-keeping function that is undone by its inverse.

## Main results

* `appendPadding_spec`: **the padding loop** fills up to a multiple of 16 bytes.
* `contentHeader_envelope`: what the envelope holds is read back.
* `openEnvelope_iff`: **when the padded message is accepted**.
* `secretMessage_roundTrip`: **an encrypted message is opened by the other client**, exactly if
  its layer is that of an `int32_t` and its length is not just below an odd multiple of `2 ^ 31`.
-/

open Bytes

namespace Telegraph.Secret

/-! ### Cryptographic functions -/

/-- The functions of `MTEncryption`, with what is assumed of them. -/
structure SecretCrypto where
  sha1 : List UInt8 → List UInt8
  aesEncrypt : List UInt8 → List UInt8 → List UInt8 → List UInt8
  aesDecrypt : List UInt8 → List UInt8 → List UInt8 → List UInt8
  sha1_length : ∀ data, (sha1 data).length = 20
  encrypt_length : ∀ data key iv, 16 ∣ data.length →
    (aesEncrypt data key iv).length = data.length
  decrypt_encrypt : ∀ data key iv, 16 ∣ data.length →
    aesDecrypt (aesEncrypt data key iv) key iv = data

/-- An integer converted to `int32_t`. -/
def toInt32 (v : ℤ) : ℤ := v.bmod 4294967296

/-- An integer converted to `NSUInteger`. -/
def toNSUInteger (v : ℤ) : ℕ := (v % 18446744073709551616).toNat

/-! ### Conversions -/

theorem toInt32_add_left (a b : ℤ) : toInt32 (toInt32 a + b) = toInt32 (a + b) := by
  simp [toInt32]

theorem toInt32_sub_left (a b : ℤ) : toInt32 (toInt32 a - b) = toInt32 (a - b) := by
  simp [toInt32]

theorem toInt32_sub_right (a b : ℤ) : toInt32 (a - toInt32 b) = toInt32 (a - b) := by
  simp [toInt32]

/-- An integer that fits is kept. -/
theorem toInt32_of_fits {v : ℤ} (hlow : -2147483648 ≤ v) (hhigh : v < 2147483648) :
    toInt32 v = v := by
  apply Int.bmod_eq_of_le <;> omega

/-- The low 32 bits survive both conversions. -/
theorem toNSUInteger_toInt32_mod (n : ℕ) :
    toNSUInteger (toInt32 n) % 4294967296 = n % 4294967296 := by
  simp only [toNSUInteger, toInt32, Int.bmod_def]
  split <;> omega

/-- The order of a length and its padded length is lost only where the range of an `int32_t`
ends between them. -/
theorem toInt32_le_iff {length padded : ℕ} (hdvd : 16 ∣ padded) (hlow : length + 4 ≤ padded)
    (hhigh : padded < length + 20) :
    toInt32 length ≤ toInt32 (padded - 4) ↔
      ¬(2147483645 ≤ length % 4294967296 ∧ length % 4294967296 ≤ 2147483647) := by
  simp only [toInt32, Int.bmod_def]
  split <;> split <;> omega
/-- The receiver does not raise a layer that has envelopes. -/
theorem max_one_eq_iff {value layer : ℕ} (hlayer : 17 ≤ layer) :
    max 1 value = layer ↔ value = layer := by
  omega

section Crypto

variable (crypto : SecretCrypto)

/-- `MTSubdataSha1`; the length is passed on as a `CC_LONG`. -/
def MTSubdataSha1 (data : List UInt8) (offset length : ℕ) : List UInt8 :=
  crypto.sha1 ((data.drop offset).take (length % 4294967296))

/-- `MTSha1`. -/
def MTSha1 (data : List UInt8) : List UInt8 :=
  MTSubdataSha1 crypto data 0 data.length

/-- `generateMessageKeyData:incoming:key:`: the key and the vector for a message key. -/
def generateMessageKeyData (messageKey : List UInt8) (incoming : Bool) (key : List UInt8) :
    Option (List UInt8 × List UInt8) :=
  if key.length = 0 then none
  else
    let x := if incoming then 8 else 0
    let part (offset length : ℕ) : List UInt8 := (key.drop (offset + x)).take length
    let sha1_a := MTSha1 crypto (messageKey ++ part 0 32)
    let sha1_b := MTSha1 crypto (part 32 16 ++ messageKey ++ part 48 16)
    let sha1_c := MTSha1 crypto (part 64 32 ++ messageKey)
    let sha1_d := MTSha1 crypto (messageKey ++ part 96 32)
    some (sha1_a.take 8 ++ (sha1_b.drop 8).take 12 ++ (sha1_c.drop 4).take 12,
      (sha1_a.drop 8).take 12 ++ sha1_b.take 8 ++ (sha1_c.drop 16).take 4 ++ sha1_d.take 8)

/-! ### Sending -/

/-- `constructorSignature`. -/
def constructorSignature : ℤ := 0x1be31789

/-- The envelope that `requestForAction:` puts around a message from layer 17 on, with its 15
random bytes. -/
def envelope (isCreator : Bool) (randomBytes : List UInt8) (layer : ℕ) (seqIn seqOut : ℤ)
    (actionData : List UInt8) : List UInt8 :=
  int32LE constructorSignature ++ [15] ++ randomBytes ++ int32LE layer ++
    int32LE (seqIn * 2 + if isCreator then 0 else 1) ++
    int32LE (seqOut * 2 + if isCreator then 1 else 0) ++ actionData

/-- The padding loop of `encryptMessage:key:keyId:`, which takes one random byte after the
other. -/
def appendPadding (data : List UInt8) : List UInt8 → List UInt8
  | [] => data
  | byte :: randomBuf =>
      if data.length % 16 ≠ 0 then appendPadding (data ++ [byte]) randomBuf else data

/-- `encryptMessage:key:keyId:`, with the bytes of `randomBuf`. -/
def encryptMessage (randomBuf serializedMessage key : List UInt8) (keyId : BitVec 64) :
    Option (List UInt8) :=
  let decryptedBytesOriginal := int32LE serializedMessage.length ++ serializedMessage
  let messageKey := (MTSha1 crypto decryptedBytesOriginal).drop 4
  let decryptedBytes := appendPadding decryptedBytesOriginal randomBuf
  match generateMessageKeyData crypto messageKey false key with
  | some (aesKey, aesIv) =>
      some (toLE 8 keyId.toNat ++ messageKey ++ crypto.aesEncrypt decryptedBytes aesKey aesIv)
  | none => none

/-! ### Receiving -/

/-- What the receiving client knows of the chat. -/
structure Recipient where
  conversationId : ℤ
  participantId : ℤ
  isCreator : Bool
  keys : List EncryptionKeyData

/-- The number of random bytes of an envelope, raised until its length byte and they fill whole
words. -/
def randomBytesLength (content : List UInt8) : ℕ :=
  let length := leNat ((content.drop 4).take 1)
  length + (3 - length % 4)

/-- The layer, `seq_in` and `seq_out` of a decrypted message; those without an envelope have
layer 1 and no numbers. -/
def contentHeader (content : List UInt8) : ℕ × ℤ × ℤ :=
  if content.length ≥ 4 ∧ leInt32 (content.take 4) = constructorSignature then
    let offset := 4 + 1 + randomBytesLength content
    if content.length ≥ 4 + 1 ∧ content.length ≥ offset + 4 + 4 + 4 then
      (max 1 (toNSUInteger (leInt32 ((content.drop offset).take 4))),
        leInt32 ((content.drop (offset + 4)).take 4),
        leInt32 ((content.drop (offset + 4 + 4)).take 4))
    else (1, 0, 0)
  else (1, 0, 0)

/-- The lowest bits a client expects in the numbers of its peer. -/
def parityFits (isCreator : Bool) (seqIn seqOut : ℤ) : Prop :=
  if isCreator then seqIn % 2 ≠ 0 ∧ seqOut % 2 = 0 else seqIn % 2 = 0 ∧ seqOut % 2 ≠ 0

instance (isCreator : Bool) (seqIn seqOut : ℤ) : Decidable (parityFits isCreator seqIn seqOut) :=
  inferInstanceAs (Decidable (if isCreator then _ else _))

/-- The end of `decryptEncryptedMessageData:`, behind the check of the message key. -/
def readContent (recipient : Recipient) (content : List UInt8) : Option DecryptedMessage :=
  let (layer, seqIn, seqOut) := contentHeader content
  if layer ≥ 17 ∧ ¬parityFits recipient.isCreator seqIn seqOut then none
  else if recipient.participantId ≠ 0 then
    some ⟨content, layer, seqIn.tdiv 2, seqOut.tdiv 2⟩
  else none

/-- The middle of `decryptEncryptedMessageData:`, on the decrypted bytes. -/
def openEnvelope (recipient : Recipient) (messageKey messageData : List UInt8) :
    Option DecryptedMessage :=
  let messageLength := leInt32 (messageData.take 4)
  let paddingLength := toInt32 (toInt32 messageData.length - toInt32 (messageLength + 4))
  if messageLength > toInt32 (toInt32 messageData.length - 4) then none
  else if paddingLength > 16 then none
  else if (MTSubdataSha1 crypto messageData 0
      (toNSUInteger (toInt32 (messageLength + 4)))).drop 4 ≠ messageKey then none
  else readContent recipient (messageData.drop 4)

/-- `decryptEncryptedMessageData:`, for the bytes of a message. -/
def decryptEncryptedMessageData (recipient : Recipient) (bytes : List UInt8) :
    Option DecryptedMessage :=
  if bytes.length < 8 + 16 + 16 then none
  else if recipient.conversationId ≠ 0 then
    let keyId := BitVec.ofNat 64 (leNat (bytes.take 8))
    let messageKey := (bytes.drop 8).take 16
    match encryptionKeyForConversationId recipient.keys keyId with
    | (some key, localKeyId) =>
        if keyId = localKeyId then
          match generateMessageKeyData crypto messageKey false key with
          | some (aesKey, aesIv) =>
              openEnvelope crypto recipient messageKey
                (crypto.aesDecrypt (bytes.drop (8 + 16)) aesKey aesIv)
          | none => none
        else none
    | (none, _) => none
  else none

end Crypto

/-! ### The header -/

/-- **The padding loop** fills up to a multiple of 16 bytes. -/
theorem appendPadding_spec (data randomBuf : List UInt8)
    (hrandom : (16 - data.length % 16) % 16 ≤ randomBuf.length) :
    ∃ padding, appendPadding data randomBuf = data ++ padding ∧
      padding.length = (16 - data.length % 16) % 16 := by
  induction randomBuf generalizing data with
  | nil =>
      have hfull : (16 - data.length % 16) % 16 = 0 := Nat.le_zero.mp hrandom
      exact ⟨[], by simp [appendPadding], by simp [hfull]⟩
  | cons byte randomBuf ih =>
      by_cases hfull : data.length % 16 = 0
      · exact ⟨[], by simp [appendPadding, hfull], by simp [hfull]⟩
      · have hnext : (data ++ [byte]).length = data.length + 1 := by simp
        rw [List.length_cons] at hrandom
        obtain ⟨padding, heq, hlength⟩ := ih (data ++ [byte]) (by rw [hnext]; omega)
        refine ⟨byte :: padding, by simp [appendPadding, hfull, heq], ?_⟩
        rw [List.length_cons]
        omega

/-- All but the action takes 32 bytes. -/
theorem length_envelope (isCreator : Bool) {randomBytes : List UInt8} (layer : ℕ)
    (seqIn seqOut : ℤ) (actionData : List UInt8) (hbytes : randomBytes.length = 15) :
    (envelope isCreator randomBytes layer seqIn seqOut actionData).length
      = 32 + actionData.length := by
  simp only [envelope, List.length_append, length_int32LE, List.length_singleton, hbytes]

/-- What the envelope holds is read back. -/
theorem contentHeader_envelope {isCreator : Bool} {randomBytes actionData padding : List UInt8}
    {layer : ℕ} {seqIn seqOut : ℤ} (hbytes : randomBytes.length = 15) :
    contentHeader (envelope isCreator randomBytes layer seqIn seqOut actionData ++ padding) =
      (max 1 (toNSUInteger (toInt32 layer)),
        toInt32 (seqIn * 2 + if isCreator then 0 else 1),
        toInt32 (seqOut * 2 + if isCreator then 1 else 0)) := by
  set content := envelope isCreator randomBytes layer seqIn seqOut actionData ++ padding
    with hcontent
  have hlong : 32 ≤ content.length := by
    rw [hcontent, List.length_append,
      length_envelope isCreator layer seqIn seqOut actionData hbytes]
    omega
  simp only [envelope, List.append_assoc] at hcontent
  have hsignature : leInt32 (content.take 4) = constructorSignature := by
    rw [hcontent, List.take_left' (length_int32LE _)]
    exact leInt32_int32LE_of_fits (by decide) (by decide)
  have hbyte : (content.drop 4).take 1 = [15] := by
    rw [hcontent]
    exact window (length_int32LE _) rfl
  have hcount : randomBytesLength content = 15 := by
    rw [randomBytesLength, hbyte]
    rfl
  have hlayer : (content.drop 20).take 4 = int32LE layer := by
    rw [hcontent, ← List.append_assoc [15], ← List.append_assoc]
    exact window (by simp [hbytes]) (length_int32LE _)
  have hin : (content.drop 24).take 4 = int32LE (seqIn * 2 + if isCreator then 0 else 1) := by
    rw [hcontent, ← List.append_assoc [15], ← List.append_assoc, ← List.append_assoc]
    exact window (by simp [hbytes]) (length_int32LE _)
  have hout : (content.drop 28).take 4 = int32LE (seqOut * 2 + if isCreator then 1 else 0) := by
    rw [hcontent, ← List.append_assoc [15], ← List.append_assoc, ← List.append_assoc,
      ← List.append_assoc]
    exact window (by simp [hbytes]) (length_int32LE _)
  rw [contentHeader, if_pos ⟨by omega, hsignature⟩]
  simp only [hcount]
  rw [if_pos (by omega), hlayer, hin, hout, leInt32_int32LE, leInt32_int32LE, leInt32_int32LE]
  rfl


/-- Half of a number sent is the number counted. -/
theorem tdiv_two_of_parity {seq parity : ℤ} (hseq : 0 ≤ seq)
    (hparity : parity = 0 ∨ parity = 1) :
    (seq * 2 + parity).tdiv 2 = seq := by
  rw [Int.tdiv_eq_ediv_of_nonneg (by omega)]
  omega

/-- Both numbers keep the parity of the side that counts them. -/
theorem readContent_envelope {recipient : Recipient} {isCreator : Bool}
    {randomBytes actionData padding : List UInt8} {layer : ℕ} {seqIn seqOut : ℤ}
    (hparticipant : recipient.participantId ≠ 0) (hcreator : recipient.isCreator = !isCreator)
    (hbytes : randomBytes.length = 15) (hseqIn : 0 ≤ seqIn ∧ seqIn < 1073741824)
    (hseqOut : 0 ≤ seqOut ∧ seqOut < 1073741824) :
    readContent recipient (envelope isCreator randomBytes layer seqIn seqOut actionData ++ padding)
      = some ⟨envelope isCreator randomBytes layer seqIn seqOut actionData ++ padding,
          max 1 (toNSUInteger (toInt32 layer)), seqIn, seqOut⟩ := by
  have hin : toInt32 (seqIn * 2 + if isCreator then 0 else 1)
      = seqIn * 2 + if isCreator then 0 else 1 := by
    apply toInt32_of_fits <;> split <;> omega
  have hout : toInt32 (seqOut * 2 + if isCreator then 1 else 0)
      = seqOut * 2 + if isCreator then 1 else 0 := by
    apply toInt32_of_fits <;> split <;> omega
  have hparity : parityFits recipient.isCreator (seqIn * 2 + if isCreator then 0 else 1)
      (seqOut * 2 + if isCreator then 1 else 0) := by
    rw [hcreator]
    cases isCreator <;> simp [parityFits]
  have hhalfIn : (seqIn * 2 + if isCreator then 0 else 1).tdiv 2 = seqIn :=
    tdiv_two_of_parity hseqIn.1 (by split <;> simp)
  have hhalfOut : (seqOut * 2 + if isCreator then 1 else 0).tdiv 2 = seqOut :=
    tdiv_two_of_parity hseqOut.1 (by split <;> simp)
  rw [readContent, contentHeader_envelope hbytes, hin, hout]
  simp only [hparity, not_true_eq_false, and_false, if_false, if_pos hparticipant, ne_eq,
    hhalfIn, hhalfOut]

/-! ### The round trip -/

section Crypto

variable (crypto : SecretCrypto)

/-- A digest has 20 bytes. -/
theorem length_MTSha1 (data : List UInt8) : (MTSha1 crypto data).length = 20 :=
  crypto.sha1_length _

/-- The padding is left out of the digest, whatever the length was converted to. -/
theorem MTSubdataSha1_append (original padding : List UInt8) :
    MTSubdataSha1 crypto (original ++ padding) 0 (toNSUInteger (toInt32 original.length))
      = MTSha1 crypto original := by
  have hle : original.length % 4294967296 ≤ original.length := Nat.mod_le _ _
  simp only [MTSha1, MTSubdataSha1, toNSUInteger_toInt32_mod, List.drop_zero]
  rw [List.take_append_of_le_length hle]

/-- **When the padded message is accepted**. -/
theorem openEnvelope_iff {recipient : Recipient} {content padding : List UInt8}
    (hpadding : padding.length < 16) (hdvd : 16 ∣ content.length + 4 + padding.length) :
    openEnvelope crypto recipient
        ((MTSha1 crypto (int32LE content.length ++ content)).drop 4)
        (int32LE content.length ++ content ++ padding) =
      if 2147483645 ≤ content.length % 4294967296 ∧ content.length % 4294967296 ≤ 2147483647
      then none else readContent recipient (content ++ padding) := by
  set original := int32LE content.length ++ content with horiginal
  have hlength : original.length = content.length + 4 := by
    rw [horiginal, List.length_append, length_int32LE, Nat.add_comm]
  have htotal : (original ++ padding).length = content.length + 4 + padding.length := by
    rw [List.length_append, hlength]
  have hmessage : leInt32 ((original ++ padding).take 4) = toInt32 content.length := by
    rw [horiginal, List.append_assoc, List.take_left' (length_int32LE _), leInt32_int32LE]
    rfl
  have hrest : (original ++ padding).drop 4 = content ++ padding := by
    rw [horiginal, List.append_assoc, List.drop_left' (length_int32LE _)]
  have hshort : toInt32 (toInt32 (original ++ padding).length
      - toInt32 (toInt32 content.length + 4)) = padding.length := by
    rw [toInt32_sub_left, toInt32_add_left, toInt32_sub_right, htotal,
      show ((content.length + 4 + padding.length : ℕ) : ℤ) - (content.length + 4)
        = padding.length by omega]
    exact toInt32_of_fits (by omega) (by omega)
  have hfits : toInt32 content.length > toInt32 (toInt32 (original ++ padding).length - 4) ↔
      2147483645 ≤ content.length % 4294967296 ∧ content.length % 4294967296 ≤ 2147483647 := by
    rw [toInt32_sub_left, htotal, gt_iff_lt, ← not_le,
      toInt32_le_iff hdvd (by omega) (by omega), not_not]
  have hkey : MTSubdataSha1 crypto (original ++ padding) 0
      (toNSUInteger (toInt32 (toInt32 content.length + 4))) = MTSha1 crypto original := by
    rw [toInt32_add_left, show ((content.length : ℤ) + 4) = original.length by omega]
    exact MTSubdataSha1_append crypto original padding
  simp only [openEnvelope, hmessage, hshort, hkey, hrest, hfits, ne_eq, not_true_eq_false,
    if_false]
  rw [if_neg (by omega : ¬(padding.length : ℤ) > 16)]

/-- With a key there are a message's key and vector. -/
theorem generateMessageKeyData_isSome (messageKey : List UInt8) {key : List UInt8}
    (hkey : key.length = 256) :
    ∃ aesKey aesIv, generateMessageKeyData crypto messageKey false key = some (aesKey, aesIv) := by
  rw [generateMessageKeyData, if_neg (by omega)]
  exact ⟨_, _, rfl⟩

/-- Any message, encrypted and received with one key, reaches the check of its length. -/
theorem decrypt_encrypt {recipient : Recipient} (content : List UInt8)
    {randomBuf key : List UInt8} {keyId : BitVec 64} (hconversation : recipient.conversationId ≠ 0)
    (hfound : encryptionKeyForConversationId recipient.keys keyId = (some key, keyId))
    (hkey : key.length = 256) (hbuf : randomBuf.length = 16) (hcontent : 12 ≤ content.length) :
    ∃ padding, padding.length < 16 ∧ 16 ∣ content.length + 4 + padding.length ∧
      (encryptMessage crypto randomBuf content key keyId).bind
          (decryptEncryptedMessageData crypto recipient) =
        openEnvelope crypto recipient
          ((MTSha1 crypto (int32LE content.length ++ content)).drop 4)
          (int32LE content.length ++ content ++ padding) := by
  set original := int32LE content.length ++ content with horiginal
  set messageKey := (MTSha1 crypto original).drop 4 with hmessageKey
  have hlength : original.length = content.length + 4 := by
    rw [horiginal, List.length_append, length_int32LE, Nat.add_comm]
  have hmessageKeyLength : messageKey.length = 16 := by
    rw [hmessageKey, List.length_drop, length_MTSha1]
  obtain ⟨padding, hpadded, hpadding⟩ :=
    appendPadding_spec original randomBuf (by omega)
  obtain ⟨aesKey, aesIv, hdata⟩ := generateMessageKeyData_isSome crypto messageKey hkey
  have hdvd : 16 ∣ (original ++ padding).length := by
    rw [List.length_append]
    omega
  set encrypted := crypto.aesEncrypt (original ++ padding) aesKey aesIv with hencrypted
  have hencryptedLength : encrypted.length = (original ++ padding).length :=
    crypto.encrypt_length _ _ _ hdvd
  have hsent : encryptMessage crypto randomBuf content key keyId
      = some (toLE 8 keyId.toNat ++ (messageKey ++ encrypted)) := by
    simp only [encryptMessage, ← horiginal, ← hmessageKey, hpadded, hdata, ← hencrypted,
      List.append_assoc]
  have hkeyId : BitVec.ofNat 64 (leNat ((toLE 8 keyId.toNat ++ (messageKey ++ encrypted)).take 8))
      = keyId := by
    rw [List.take_left' (length_toLE _ _), leNat_toLE_of_lt keyId.isLt, BitVec.ofNat_toNat,
      BitVec.setWidth_eq]
  have hreadKey : ((toLE 8 keyId.toNat ++ (messageKey ++ encrypted)).drop 8).take 16
      = messageKey := window (length_toLE _ _) hmessageKeyLength
  have hrest : (toLE 8 keyId.toNat ++ (messageKey ++ encrypted)).drop (8 + 16) = encrypted := by
    rw [← List.append_assoc]
    exact List.drop_left' (by rw [List.length_append, length_toLE, hmessageKeyLength])
  have hlong : ¬(toLE 8 keyId.toNat ++ (messageKey ++ encrypted)).length < 8 + 16 + 16 := by
    simp only [List.length_append, length_toLE, hmessageKeyLength, hencryptedLength, hlength]
    omega
  refine ⟨padding, by omega, by rw [← hlength, ← List.length_append]; exact hdvd, ?_⟩
  rw [hsent, Option.bind_some, decryptEncryptedMessageData, if_neg hlong, if_pos hconversation]
  simp only [hkeyId, hfound, hreadKey, hrest, hdata, if_true]
  rw [hencrypted, crypto.decrypt_encrypt _ _ _ hdvd]

/-- What the other client makes of an encrypted message. -/
theorem secretMessage_decrypted {recipient : Recipient} (isCreator : Bool)
    (randomBytes randomBuf actionData key : List UInt8) (keyId : BitVec 64) (layer : ℕ)
    (seqIn seqOut : ℤ) (hconversation : recipient.conversationId ≠ 0)
    (hparticipant : recipient.participantId ≠ 0) (hcreator : recipient.isCreator = !isCreator)
    (hfound : encryptionKeyForConversationId recipient.keys keyId = (some key, keyId))
    (hkey : key.length = 256) (hbytes : randomBytes.length = 15) (hbuf : randomBuf.length = 16)
    (hseqIn : 0 ≤ seqIn ∧ seqIn < 1073741824) (hseqOut : 0 ≤ seqOut ∧ seqOut < 1073741824) :
    ∃ padding, padding.length < 16 ∧
      (encryptMessage crypto randomBuf
          (envelope isCreator randomBytes layer seqIn seqOut actionData) key keyId).bind
          (decryptEncryptedMessageData crypto recipient) =
        if 2147483645 ≤ (32 + actionData.length) % 4294967296 ∧
          (32 + actionData.length) % 4294967296 ≤ 2147483647
        then none
        else some ⟨envelope isCreator randomBytes layer seqIn seqOut actionData ++ padding,
          max 1 (toNSUInteger (toInt32 layer)), seqIn, seqOut⟩ := by
  have hlength := length_envelope isCreator layer seqIn seqOut actionData hbytes
  obtain ⟨padding, hpadding, hdvd, hopened⟩ :=
    decrypt_encrypt crypto (envelope isCreator randomBytes layer seqIn seqOut actionData)
      hconversation hfound hkey hbuf (by omega)
  refine ⟨padding, hpadding, ?_⟩
  rw [hopened, openEnvelope_iff crypto hpadding hdvd,
    readContent_envelope hparticipant hcreator hbytes hseqIn hseqOut, hlength]

/-- **An encrypted message is opened by the other client**, with its layer and numbers and
the envelope in front of less than a block of padding, exactly if its layer is that of an
`int32_t` and its length is not among the last three below an odd multiple of `2 ^ 31`. -/
theorem secretMessage_roundTrip {recipient : Recipient} {isCreator : Bool}
    {randomBytes randomBuf actionData key : List UInt8} {keyId : BitVec 64} {layer : ℕ}
    {seqIn seqOut : ℤ} (hconversation : recipient.conversationId ≠ 0)
    (hparticipant : recipient.participantId ≠ 0) (hcreator : recipient.isCreator = !isCreator)
    (hfound : encryptionKeyForConversationId recipient.keys keyId = (some key, keyId))
    (hkey : key.length = 256) (hbytes : randomBytes.length = 15) (hbuf : randomBuf.length = 16)
    (hlayer : 17 ≤ layer) (hseqIn : 0 ≤ seqIn ∧ seqIn < 1073741824)
    (hseqOut : 0 ≤ seqOut ∧ seqOut < 1073741824) :
    (∃ padding, padding.length < 16 ∧
      (encryptMessage crypto randomBuf
          (envelope isCreator randomBytes layer seqIn seqOut actionData) key keyId).bind
          (decryptEncryptedMessageData crypto recipient) =
        some ⟨envelope isCreator randomBytes layer seqIn seqOut actionData ++ padding,
          layer, seqIn, seqOut⟩) ↔
      toNSUInteger (toInt32 layer) = layer ∧
        ¬(2147483645 ≤ (32 + actionData.length) % 4294967296 ∧
          (32 + actionData.length) % 4294967296 ≤ 2147483647) := by
  obtain ⟨padding, hpadding, hdecrypted⟩ := secretMessage_decrypted crypto isCreator randomBytes
    randomBuf actionData key keyId layer seqIn seqOut hconversation hparticipant hcreator hfound
    hkey hbytes hbuf hseqIn hseqOut
  rw [hdecrypted]
  constructor
  · rintro ⟨padding', -, heq⟩
    split at heq
    · cases heq
    · rename_i hfits
      have hread := (DecryptedMessage.mk.inj (Option.some.inj heq)).2.1
      exact ⟨(max_one_eq_iff hlayer).mp hread, hfits⟩
  · rintro ⟨hread, hfits⟩
    rw [if_neg hfits, (max_one_eq_iff hlayer).mpr hread]
    exact ⟨padding, hpadding, rfl⟩

end Crypto

theorem zeroDigest_length : ∀ _ : List UInt8, (List.replicate 20 (0 : UInt8)).length = 20 :=
  fun _ => List.length_replicate

/-- A cipher that turns the data around. -/
def plainCrypto : SecretCrypto where
  sha1 _ := List.replicate 20 0
  aesEncrypt data _ _ := data.reverse
  aesDecrypt data _ _ := data.reverse
  sha1_length := zeroDigest_length
  encrypt_length _ _ _ _ := List.length_reverse
  decrypt_encrypt _ _ _ _ := List.reverse_reverse _

/-- A participant with one key. -/
def oneKeyRecipient : Recipient :=
  ⟨1, 1, false, [⟨7, List.replicate 256 1, 0⟩]⟩

/-- An empty action from the creator of a chat. -/
theorem secretMessage_roundTrip_emptyAction :
    ∃ padding, padding.length < 16 ∧
      (encryptMessage plainCrypto (List.replicate 16 0)
          (envelope true (List.replicate 15 0) 17 3 4 []) (List.replicate 256 1) 7).bind
          (decryptEncryptedMessageData plainCrypto oneKeyRecipient) =
        some ⟨envelope true (List.replicate 15 0) 17 3 4 [] ++ padding, 17, 3, 4⟩ :=
  Iff.mpr (secretMessage_roundTrip plainCrypto (by decide) (by decide) rfl rfl
    List.length_replicate List.length_replicate List.length_replicate (by decide) (by decide)
    (by decide)) ⟨by decide, by decide⟩

/-- The length of this action makes the length of the envelope `2 ^ 31 - 1`. -/
theorem secretMessage_roundTrip_hugeAction :
    (encryptMessage plainCrypto (List.replicate 16 0)
        (envelope true (List.replicate 15 0) 17 3 4 (List.replicate 2147483615 0))
        (List.replicate 256 1) 7).bind
      (decryptEncryptedMessageData plainCrypto oneKeyRecipient) = none := by
  obtain ⟨padding, -, hdecrypted⟩ := secretMessage_decrypted plainCrypto true
    (List.replicate 15 0) (List.replicate 16 0) (List.replicate 2147483615 0)
    (List.replicate 256 1) 7 17 3 4 (by decide : oneKeyRecipient.conversationId ≠ 0) (by decide)
    rfl rfl List.length_replicate List.length_replicate List.length_replicate (by decide)
    (by decide)
  rw [hdecrypted, List.length_replicate, if_pos (by decide)]

end Telegraph.Secret
