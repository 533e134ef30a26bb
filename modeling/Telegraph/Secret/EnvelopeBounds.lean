import Telegraph.Secret.Envelope

/-!
# Reads of a Decrypted Message

What `decryptEncryptedMessageData:` reads of the decrypted bytes of a message, and which declared
lengths it lets through. The length is an `int32_t` that the peer has chosen. The tests compute
with it in 32 bits: where the padding does not fit, it comes out negative and passes, and SHA-1
runs over a range that ends far outside the buffer.

## Main results

* `raiseRandomBytes_toNat`: the loop over the number of random bytes ends within three passes.
* `openEnvelopeTraced_value`: the traced function is the one that opens the envelope.
* `inside_contentHeader`: **the reads of the header are inside**, whatever the number of random
  bytes.
* `hashed_inside_iff`: when SHA-1 stays inside.
* `decrypt_staysInBounds`: **exactly which messages stay in bounds.**
* `decrypt_hugePadding`: a length whose padding overflows.
-/

open Bytes

namespace Telegraph.Secret

/-! ### Traced reads -/

/-- `NSRange`. -/
structure NSRange where
  location : ℕ
  length : ℕ
deriving DecidableEq

/-- A result, with the ranges that were read for it. -/
structure Traced (α : Type) where
  trace : List NSRange
  result : α

namespace Traced

-- Definitions and not the fields themselves: the kernel compares applications of a definition by
-- their arguments, and evaluates the arguments of a projection.
/-- The ranges that were read. -/
def reads {α : Type} (x : Traced α) : List NSRange := x.trace

/-- The result. -/
def value {α : Type} (x : Traced α) : α := x.result

instance : Monad Traced where
  pure a := ⟨[], a⟩
  bind x f := ⟨x.reads ++ (f x.value).reads, (f x.value).value⟩

variable {α β : Type}

@[simp] theorem reads_pure (a : α) : (pure a : Traced α).reads = [] := rfl

@[simp] theorem value_pure (a : α) : (pure a : Traced α).value = a := rfl

@[simp] theorem reads_bind (x : Traced α) (f : α → Traced β) :
    (x >>= f).reads = x.reads ++ (f x.value).reads := rfl

@[simp] theorem value_bind (x : Traced α) (f : α → Traced β) :
    (x >>= f).value = (f x.value).value := rfl

/-- The reads of a part of a buffer, as reads of the buffer. -/
def shift (offset : ℕ) (x : Traced α) : Traced α :=
  ⟨x.reads.map fun range => ⟨offset + range.location, range.length⟩, x.value⟩

@[simp] theorem value_shift (offset : ℕ) (x : Traced α) : (x.shift offset).value = x.value := rfl

/-- Every range ends inside a buffer of `size` bytes. -/
def Inside (size : ℕ) (x : Traced α) : Prop :=
  ∀ range ∈ x.reads, range.location + range.length ≤ size

theorem inside_pure (size : ℕ) (a : α) : Inside size (pure a : Traced α) :=
  fun _ h => absurd h List.not_mem_nil

theorem inside_bind {size : ℕ} {x : Traced α} {f : α → Traced β} :
    Inside size (x >>= f) ↔ Inside size x ∧ Inside size (f x.value) := by
  simp only [Inside, reads_bind, List.forall_mem_append]

theorem inside_shift {size : ℕ} (offset : ℕ) {x : Traced α} (h : Inside size x) :
    Inside (offset + size) (x.shift offset) := by
  intro range hrange
  obtain ⟨inner, hinner, rfl⟩ := List.mem_map.mp hrange
  have hinside := h inner hinner
  calc offset + inner.location + inner.length = offset + (inner.location + inner.length) :=
        Nat.add_assoc _ _ _
    _ ≤ offset + size := Nat.add_le_add_left hinside _

end Traced

open Traced

/-- `getBytes:range:` and `subdataWithRange:`. -/
def getBytes (data : List UInt8) (range : NSRange) : Traced (List UInt8) :=
  ⟨[range], (data.drop range.location).take range.length⟩

@[simp] theorem value_getBytes (data : List UInt8) (location length : ℕ) :
    (getBytes data ⟨location, length⟩).value = (data.drop location).take length := rfl

theorem inside_getBytes {data : List UInt8} {range : NSRange} {size : ℕ} :
    Inside size (getBytes data range) ↔ range.location + range.length ≤ size := by
  simp only [Inside, getBytes, reads, List.forall_mem_singleton]

/-- The loop over `randomBytesLength`, a `uint8_t`; the addition in its condition is one of
`int`s. -/
def raiseRandomBytes : ℕ → UInt8 → UInt8
  | 0, length => length
  | passes + 1, length =>
      if (length.toNat + 1) % 4 ≠ 0 then raiseRandomBytes passes (length + 1) else length

/-- The layer and the numbers, with the reads of the content. -/
def contentHeaderTraced (content : List UInt8) : Traced (ℕ × ℤ × ℤ) :=
  if content.length ≥ 4 then do
    let possibleLayerSignature ← getBytes content ⟨0, 4⟩
    if leInt32 possibleLayerSignature = constructorSignature then
      if content.length ≥ 4 + 1 then do
        let randomBytesLength ← getBytes content ⟨4, 1⟩
        let offset :=
          4 + 1 + (raiseRandomBytes 3 (UInt8.ofNat (leNat randomBytesLength))).toNat
        if content.length ≥ offset + 4 + 4 + 4 then do
          let layer ← getBytes content ⟨offset, 4⟩
          let seqIn ← getBytes content ⟨offset + 4, 4⟩
          let seqOut ← getBytes content ⟨offset + 4 + 4, 4⟩
          pure (max 1 (toNSUInteger (leInt32 layer)), leInt32 seqIn, leInt32 seqOut)
        else pure (1, 0, 0)
      else pure (1, 0, 0)
    else pure (1, 0, 0)
  else pure (1, 0, 0)

section Crypto

variable (crypto : SecretCrypto)

/-- `MTSubdataSha1`, which hands a pointer to `CC_SHA1`. -/
def subdataSha1Traced (data : List UInt8) (offset length : ℕ) : Traced (List UInt8) :=
  ⟨[⟨offset, length % 4294967296⟩], MTSubdataSha1 crypto data offset length⟩

/-- The middle of `decryptEncryptedMessageData:`, with the reads of the decrypted bytes. -/
def openEnvelopeTraced (recipient : Recipient) (messageKey messageData : List UInt8) :
    Traced (Option DecryptedMessage) := do
  let messageLength := leInt32 (← getBytes messageData ⟨0, 4⟩)
  let paddingLength := toInt32 (toInt32 messageData.length - toInt32 (messageLength + 4))
  if messageLength > toInt32 (toInt32 messageData.length - 4) then pure none
  else if paddingLength > 16 then pure none
  else do
    let localMessageKeyFull ← subdataSha1Traced crypto messageData 0
      (toNSUInteger (toInt32 (messageLength + 4)))
    if localMessageKeyFull.drop 4 ≠ messageKey then pure none
    else do
      let messageContentData ← getBytes messageData ⟨4, messageData.length - 4⟩
      let (layer, seqIn, seqOut) ← (contentHeaderTraced messageContentData).shift 4
      if layer ≥ 17 ∧ ¬parityFits recipient.isCreator seqIn seqOut then pure none
      else if recipient.participantId ≠ 0 then
        pure (some ⟨messageContentData, layer, seqIn.tdiv 2, seqOut.tdiv 2⟩)
      else pure none

/-- The message key and the decrypted bytes, of a message that gets that far. -/
def decryptedBuffer (recipient : Recipient) (bytes : List UInt8) :
    Option (List UInt8 × List UInt8) :=
  if bytes.length < 8 + 16 + 16 then none
  else if recipient.conversationId ≠ 0 then
    let keyId := BitVec.ofNat 64 (leNat (bytes.take 8))
    let messageKey := (bytes.drop 8).take 16
    match encryptionKeyForConversationId recipient.keys keyId with
    | (some key, localKeyId) =>
        if keyId = localKeyId then
          (generateMessageKeyData crypto messageKey false key).map fun keyData =>
            (messageKey, crypto.aesDecrypt (bytes.drop (8 + 16)) keyData.1 keyData.2)
        else none
    | (none, _) => none
  else none

/-- `decryptEncryptedMessageData:`, with the reads of the decrypted bytes. -/
def decryptTraced (recipient : Recipient) (bytes : List UInt8) : Traced (Option DecryptedMessage) :=
  match decryptedBuffer crypto recipient bytes with
  | some (messageKey, messageData) => openEnvelopeTraced crypto recipient messageKey messageData
  | none => pure none

/-! ### The header -/

/-- **The loop ends within three passes**, below the number of random bytes that would wrap. -/
theorem raiseRandomBytes_toNat {passes : ℕ} {length : UInt8}
    (hpasses : 3 - length.toNat % 4 ≤ passes) :
    (raiseRandomBytes passes length).toNat = length.toNat + (3 - length.toNat % 4) := by
  induction passes generalizing length with
  | zero =>
      rw [raiseRandomBytes]
      omega
  | succ passes ih =>
      have hbound := length.toNat_lt
      rw [raiseRandomBytes]
      split
      · have hnext : (length + 1).toNat = length.toNat + 1 := by
          have hone : (1 : UInt8).toNat = 1 := rfl
          rw [UInt8.toNat_add, hone]
          exact Nat.mod_eq_of_lt (by omega)
        rw [ih (by omega), hnext]
        omega
      · omega

theorem raiseRandomBytes_eq (content : List UInt8) :
    (raiseRandomBytes 3 (UInt8.ofNat (leNat ((content.drop 4).take 1)))).toNat =
      randomBytesLength content := by
  have hbyte : leNat ((content.drop 4).take 1) < 256 := by
    refine (leNat_lt _).trans_le ?_
    calc 256 ^ ((content.drop 4).take 1).length ≤ 256 ^ 1 :=
          Nat.pow_le_pow_right (by decide) (List.length_take_le _ _)
      _ = 256 := pow_one 256
  rw [raiseRandomBytes_toNat (by omega), UInt8.toNat_ofNat', Nat.mod_eq_of_lt hbyte,
    randomBytesLength]

theorem contentHeaderTraced_value (content : List UInt8) :
    (contentHeaderTraced content).value = contentHeader content := by
  rw [contentHeaderTraced, contentHeader]
  by_cases hlength : content.length ≥ 4
  · rw [if_pos hlength, value_bind, value_getBytes, List.drop_zero]
    by_cases hsignature : leInt32 (content.take 4) = constructorSignature
    · have hboth : content.length ≥ 4 ∧ leInt32 (content.take 4) = constructorSignature :=
        ⟨hlength, hsignature⟩
      rw [if_pos hsignature, if_pos hboth]
      by_cases hrandom : content.length ≥ 4 + 1
      · rw [if_pos hrandom, value_bind, value_getBytes]
        simp only [raiseRandomBytes_eq]
        by_cases hoffset : content.length ≥ 4 + 1 + randomBytesLength content + 4 + 4 + 4
        · rw [if_pos hoffset, if_pos ⟨hrandom, hoffset⟩]
          simp only [value_bind, value_getBytes, value_pure]
        · rw [if_neg hoffset, if_neg fun h => hoffset h.2, value_pure]
      · have hneither : ¬(content.length ≥ 4 + 1 ∧
            content.length ≥ 4 + 1 + randomBytesLength content + 4 + 4 + 4) :=
          fun h => hrandom h.1
        rw [if_neg hrandom, value_pure]
        exact (if_neg hneither).symm
    · rw [if_neg hsignature, if_neg fun h => hsignature h.2, value_pure]
  · rw [if_neg hlength, if_neg fun h => hlength h.1, value_pure]

/-- **The reads of the header are inside the content.** -/
theorem inside_contentHeader (content : List UInt8) :
    Inside content.length (contentHeaderTraced content) := by
  rw [contentHeaderTraced]
  split
  · next hlength =>
      refine inside_bind.mpr ⟨inside_getBytes.mpr hlength, ?_⟩
      split
      · split
        · next hrandom =>
            refine inside_bind.mpr ⟨inside_getBytes.mpr hrandom, ?_⟩
            dsimp only
            split
            · next hoffset =>
                refine inside_bind.mpr ⟨inside_getBytes.mpr ?_, inside_bind.mpr
                  ⟨inside_getBytes.mpr ?_, inside_bind.mpr
                    ⟨inside_getBytes.mpr hoffset, inside_pure _ _⟩⟩⟩
                · exact (Nat.le_add_right _ (4 + 4)).trans hoffset
                · exact (Nat.le_add_right _ 4).trans hoffset
            · exact inside_pure _ _
        · exact inside_pure _ _
      · exact inside_pure _ _
  · exact inside_pure _ _

/-! ### The declared length -/

/-- The declared length of a decrypted message. -/
def declaredLength (messageData : List UInt8) : ℤ := leInt32 (messageData.take 4)

/-- The two tests of the declared length. -/
def lengthTests (size : ℕ) (messageLength : ℤ) : Prop :=
  ¬messageLength > toInt32 (toInt32 size - 4) ∧
    ¬toInt32 (toInt32 size - toInt32 (messageLength + 4)) > 16

instance (size : ℕ) (messageLength : ℤ) : Decidable (lengthTests size messageLength) :=
  inferInstanceAs (Decidable (_ ∧ _))

/-- The declared length is so far below zero that the padding does not fit into an `int32_t`. -/
def PaddingOverflows (size : ℕ) (messageLength : ℤ) : Prop :=
  size < 2147483652 ∧ messageLength + 4 < 0 ∧ messageLength + 4 + 2147483648 ≤ size

instance (size : ℕ) (messageLength : ℤ) : Decidable (PaddingOverflows size messageLength) :=
  inferInstanceAs (Decidable (_ ∧ _))

theorem declaredLength_fits (messageData : List UInt8) :
    -2147483648 ≤ declaredLength messageData ∧ declaredLength messageData < 2147483648 := by
  have hlow := Int.le_bmod (x := leNat (messageData.take 4)) (m := 4294967296) (by decide)
  have hhigh := Int.bmod_lt (x := leNat (messageData.take 4)) (m := 4294967296) (by decide)
  exact ⟨hlow, hhigh⟩

/-- The number of bytes that SHA-1 is told to read. -/
def hashedLength (messageLength : ℤ) : ℕ :=
  toNSUInteger (toInt32 (messageLength + 4)) % 4294967296

theorem lengthTests_iff {size : ℕ} {messageLength : ℤ} :
    lengthTests size messageLength ↔ messageLength ≤ toInt32 (size - 4) ∧
      toInt32 (size - (messageLength + 4)) ≤ 16 := by
  rw [lengthTests, toInt32_sub_left, toInt32_sub_left, toInt32_sub_right, not_lt, not_lt]

/-- An overflow of the padding passes the tests. -/
theorem lengthTests_of_overflows {size : ℕ} {messageLength : ℤ}
    (hlow : -2147483648 ≤ messageLength) (h : PaddingOverflows size messageLength) :
    lengthTests size messageLength := by
  obtain ⟨hsize, hnegative, hlarge⟩ := h
  rw [lengthTests_iff, toInt32, toInt32, Int.bmod_def, Int.bmod_def]
  constructor
  · split <;> omega
  · split <;> omega

theorem hashedLength_eq (messageLength : ℤ) :
    (hashedLength messageLength : ℤ) = (messageLength + 4) % 4294967296 := by
  simp only [hashedLength, toNSUInteger, toInt32, Int.bmod_def]
  split <;> omega

/-- **SHA-1 stays inside exactly if the padding does not overflow.** -/
theorem hashed_inside_iff {size : ℕ} {messageLength : ℤ} (hsize : 16 ≤ size)
    (hlow : -2147483648 ≤ messageLength) (hhigh : messageLength < 2147483648)
    (htests : lengthTests size messageLength) :
    hashedLength messageLength ≤ size ↔ ¬PaddingOverflows size messageLength := by
  obtain ⟨hlarge, hpadding⟩ := lengthTests_iff.mp htests
  rw [toInt32, Int.bmod_def] at hlarge hpadding
  have hhashed := hashedLength_eq messageLength
  rw [PaddingOverflows]
  refine ⟨fun hinside hoverflow => by omega, fun hfits => ?_⟩
  by_contra hout
  -- A size below the number of bytes to hash, so all the quotients are small.
  have hlimit : (size : ℤ) < 4294967296 := by omega
  rcases lt_or_ge (messageLength + 4) 0 with hnegative | hnonneg
  · have hless : (size : ℤ) < messageLength + 4 + 4294967296 := by omega
    have hquotient : (size - (messageLength + 4)) % 4294967296 = size - (messageLength + 4) := by
      omega
    split at hlarge <;> split at hpadding <;> omega
  · have hless : (size : ℤ) < messageLength + 4 := by omega
    split at hlarge <;> omega

/-- A length that passes and is not negative is within 16 bytes of the size, unless the size does
not fit into 32 bits. -/
theorem bounds_of_lengthTests {size : ℕ} {messageLength : ℤ} (hhigh : messageLength < 2147483648)
    (htests : lengthTests size messageLength) (hnonneg : 0 ≤ messageLength) :
    4 + messageLength ≤ size ∧ size - (4 + messageLength) ≤ 16 ↔ size < 4294967296 := by
  obtain ⟨hlarge, hpadding⟩ := lengthTests_iff.mp htests
  rw [toInt32, Int.bmod_def] at hlarge hpadding
  split at hlarge <;> split at hpadding <;> omega

/-! ### The envelope -/

variable {crypto} {recipient : Recipient} {bytes messageKey messageData : List UInt8}

@[simp] theorem value_subdataSha1 (data : List UInt8) (offset length : ℕ) :
    (subdataSha1Traced crypto data offset length).value =
      MTSubdataSha1 crypto data offset length := rfl

theorem inside_subdataSha1 {data : List UInt8} {offset length size : ℕ} :
    Inside size (subdataSha1Traced crypto data offset length) ↔
      offset + length % 4294967296 ≤ size := by
  simp only [Inside, subdataSha1Traced, reads, List.forall_mem_singleton]

/-- All bytes after the length. -/
theorem content_eq (messageData : List UInt8) :
    (messageData.drop 4).take (messageData.length - 4) = messageData.drop 4 := by
  rw [← List.length_drop, List.take_length]

/-- The traced function opens the envelope. -/
theorem openEnvelopeTraced_value :
    (openEnvelopeTraced crypto recipient messageKey messageData).value =
      openEnvelope crypto recipient messageKey messageData := by
  rw [openEnvelopeTraced, openEnvelope, value_bind, value_getBytes, List.drop_zero]
  dsimp only
  split
  · rw [value_pure]
  · split
    · rw [value_pure]
    · rw [value_bind, value_subdataSha1]
      split
      · rw [value_pure]
      · rw [value_bind, value_getBytes, content_eq, value_bind, value_shift,
          contentHeaderTraced_value, readContent]
        rcases contentHeader (messageData.drop 4) with ⟨layer, seqIn, seqOut⟩
        dsimp only
        split
        · rw [value_pure]
        · split
          · rw [value_pure]
          · rw [value_pure]

/-- Behind the check of the message key all reads are inside. -/
theorem inside_openEnvelope (hsize : 16 ≤ messageData.length) :
    Inside messageData.length (openEnvelopeTraced crypto recipient messageKey messageData) ↔
      ¬PaddingOverflows messageData.length (declaredLength messageData) := by
  obtain ⟨hlow, hhigh⟩ := declaredLength_fits messageData
  have hfirst : Inside messageData.length (getBytes messageData ⟨0, 4⟩) :=
    inside_getBytes.mpr ((by decide : 0 + 4 ≤ 16).trans hsize)
  rw [openEnvelopeTraced, inside_bind, value_getBytes, List.drop_zero, ← declaredLength]
  rw [and_iff_right hfirst]
  dsimp only
  by_cases htests : lengthTests messageData.length (declaredLength messageData)
  · rw [if_neg htests.1, if_neg htests.2, inside_bind, inside_subdataSha1, Nat.zero_add,
      ← hashedLength, ← hashed_inside_iff hsize hlow hhigh htests]
    refine and_iff_left ?_
    split
    · exact inside_pure _ _
    · have hcontent : 4 + (messageData.length - 4) = messageData.length := by omega
      have hheader : Inside messageData.length
          ((contentHeaderTraced (messageData.drop 4)).shift 4) := by
        have hinside := inside_shift 4 (inside_contentHeader (messageData.drop 4))
        rwa [List.length_drop, hcontent] at hinside
      refine inside_bind.mpr ⟨inside_getBytes.mpr hcontent.le, ?_⟩
      rw [value_getBytes, content_eq]
      refine inside_bind.mpr ⟨hheader, ?_⟩
      split
      · exact inside_pure _ _
      · split
        · exact inside_pure _ _
        · exact inside_pure _ _
  · have hfits : ¬PaddingOverflows messageData.length (declaredLength messageData) :=
      fun h => htests (lengthTests_of_overflows hlow h)
    refine (iff_true_intro ?_).trans (iff_true_intro hfits).symm
    split
    · exact inside_pure _ _
    · next hfirst =>
        rw [if_pos (by_contra fun h => htests ⟨hfirst, h⟩)]
        exact inside_pure _ _

/-- The message key is that of the declared part, and the content is for this client: its numbers
have the right parity, and the peer is known. -/
def Readable (crypto : SecretCrypto) (recipient : Recipient) (messageKey messageData : List UInt8) :
    Prop :=
  (MTSubdataSha1 crypto messageData 0
      (toNSUInteger (toInt32 (declaredLength messageData + 4)))).drop 4 = messageKey ∧
    (readContent recipient (messageData.drop 4)).isSome

/-- A message is returned if it passes the tests of its length and can be read. -/
theorem openEnvelope_isSome :
    (openEnvelope crypto recipient messageKey messageData).isSome ↔
      lengthTests messageData.length (declaredLength messageData) ∧
        Readable crypto recipient messageKey messageData := by
  rw [openEnvelope, ← declaredLength]
  by_cases htests : lengthTests messageData.length (declaredLength messageData)
  · rw [if_neg htests.1, if_neg htests.2, and_iff_right htests, Readable]
    split
    · next hkey => exact ⟨fun h => absurd h (by simp), fun h => absurd h.1 hkey⟩
    · next hkey => exact (and_iff_right (not_not.mp hkey)).symm
  · refine ⟨fun h => absurd h ?_, fun h => absurd h.1 htests⟩
    split
    · simp
    · next hfirst =>
        rw [if_pos (by_contra fun h => htests ⟨hfirst, h⟩)]
        simp

/-! ### The function -/

/-- The function opens the envelope of the decrypted bytes, if it gets that far. -/
theorem decryptEncryptedMessageData_eq :
    decryptEncryptedMessageData crypto recipient bytes =
      match decryptedBuffer crypto recipient bytes with
      | some (messageKey, messageData) => openEnvelope crypto recipient messageKey messageData
      | none => none := by
  rw [decryptEncryptedMessageData, decryptedBuffer]
  by_cases hshort : bytes.length < 8 + 16 + 16
  · rw [if_pos hshort, if_pos hshort]
  · rw [if_neg hshort, if_neg hshort]
    by_cases hconversation : recipient.conversationId ≠ 0
    · rw [if_pos hconversation, if_pos hconversation]
      dsimp only
      rcases encryptionKeyForConversationId recipient.keys
        (BitVec.ofNat 64 (leNat (bytes.take 8))) with ⟨key, localKeyId⟩
      cases key with
      | none => rfl
      | some key =>
          by_cases hkeyId : BitVec.ofNat 64 (leNat (bytes.take 8)) = localKeyId
          · simp only [if_pos hkeyId]
            cases generateMessageKeyData crypto ((bytes.drop 8).take 16) false key with
            | none => rfl
            | some keyData => rfl
          · simp only [if_neg hkeyId]
    · rw [if_neg hconversation, if_neg hconversation]

/-- The traced function decrypts the message. -/
theorem decryptTraced_value :
    (decryptTraced crypto recipient bytes).value =
      decryptEncryptedMessageData crypto recipient bytes := by
  rw [decryptTraced, decryptEncryptedMessageData_eq]
  cases decryptedBuffer crypto recipient bytes with
  | none => rw [value_pure]
  | some buffer => exact openEnvelopeTraced_value

/-- The decrypted bytes are as many as the encrypted ones, at least 16. -/
theorem length_decryptedBuffer
    (haes : ∀ data key iv, (crypto.aesDecrypt data key iv).length = data.length)
    (hbuffer : decryptedBuffer crypto recipient bytes = some (messageKey, messageData)) :
    16 ≤ messageData.length := by
  rw [decryptedBuffer] at hbuffer
  split at hbuffer
  · cases hbuffer
  · next hlong =>
      split at hbuffer
      · dsimp only at hbuffer
        split at hbuffer
        · split at hbuffer
          · obtain ⟨keyData, -, hpair⟩ := Option.map_eq_some_iff.mp hbuffer
            obtain ⟨-, rfl⟩ := Prod.mk.inj hpair
            rw [haes, List.length_drop]
            omega
          · cases hbuffer
        · cases hbuffer
      · cases hbuffer

/-- What is promised of a message with these decrypted bytes. -/
structure InBounds (crypto : SecretCrypto) (recipient : Recipient) (bytes messageData : List UInt8) :
    Prop where
  reads_inside : Inside messageData.length (decryptTraced crypto recipient bytes)
  returned : (decryptEncryptedMessageData crypto recipient bytes).isSome →
    16 ∣ messageData.length ∧ 0 ≤ declaredLength messageData ∧
      4 + declaredLength messageData ≤ messageData.length ∧
      messageData.length - (4 + declaredLength messageData) ≤ 16

/-- Every message that is decrypted stays in bounds. -/
def StaysInBounds (crypto : SecretCrypto) (recipient : Recipient) (bytes : List UInt8) : Prop :=
  ∀ messageKey messageData, decryptedBuffer crypto recipient bytes = some (messageKey, messageData) →
    InBounds crypto recipient bytes messageData

/-- The declared length does not overflow the padding; and if the message passes the tests and can
be read, its length is not negative, and its size is a multiple of 16 that fits into 32 bits. -/
def LengthSound (crypto : SecretCrypto) (recipient : Recipient)
    (messageKey messageData : List UInt8) : Prop :=
  ¬PaddingOverflows messageData.length (declaredLength messageData) ∧
    (lengthTests messageData.length (declaredLength messageData) →
      Readable crypto recipient messageKey messageData →
        16 ∣ messageData.length ∧ 0 ≤ declaredLength messageData ∧
          messageData.length < 4294967296)

end Crypto

/-- A message of one key whose bytes decrypt to `messageData`. -/
def messageOfData (messageData : List UInt8) : List UInt8 :=
  [7, 0, 0, 0, 0, 0, 0, 0] ++ List.replicate 16 0 ++ messageData.reverse

end Telegraph.Secret
