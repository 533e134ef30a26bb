import Mathlib.Data.Int.Basic

/-!
# The Keys of a Secret Chat

The list of keys that `TGDatabase` keeps for a secret chat. A key is named by its fingerprint
and carries the number of the first message that may be sent with it; the last key of the list
is the one in use.
-/

namespace Telegraph.Secret

/-- `TGEncryptionKeyData`. -/
structure EncryptionKeyData where
  keyId : BitVec 64
  key : List UInt8
  firstSeqOut : ℤ
deriving DecidableEq

/-- `encryptionKeyForConversationId:requestedKeyFingerprint:outKeyFingerprint:`: the key, if
there is one, and its fingerprint. The fingerprint 0 asks for the key in use; of several keys
with one fingerprint the last is taken. -/
def encryptionKeyForConversationId (keys : List EncryptionKeyData)
    (requestedKeyFingerprint : BitVec 64) : Option (List UInt8) × BitVec 64 :=
  let record :=
    if requestedKeyFingerprint = 0 ∧ keys ≠ [] then keys.getLast?
    else (keys.filter fun record => record.keyId = requestedKeyFingerprint).getLast?
  match record with
  | some record => (some record.key, record.keyId)
  | none => (none, 0)

/-- The key id of a message that is enqueued with the key id 0. -/
def currentKeyId (keys : List EncryptionKeyData) : BitVec 64 :=
  (encryptionKeyForConversationId keys 0).2

/-- `storeEncryptionKeyForConversationId:key:keyFingerprint:firstSeqOut:`. -/
def storeEncryptionKey (keys : List EncryptionKeyData) (key : List UInt8)
    (keyFingerprint : BitVec 64) (firstSeqOut : ℤ) : List EncryptionKeyData :=
  if (encryptionKeyForConversationId keys keyFingerprint).1 = none then
    keys ++ [⟨keyFingerprint, key, firstSeqOut⟩]
  else keys

/-- The largest `firstSeqOut` of the list. -/
def maxKeySeqOut (keys : List EncryptionKeyData) : ℤ :=
  keys.foldl (fun seqOut record => max seqOut record.firstSeqOut) 0

/-- `discardEncryptionKeysForConversationId:beforeSeqOut:`. -/
def discardEncryptionKeys (keys : List EncryptionKeyData) (beforeSeqOut : ℤ) :
    List EncryptionKeyData :=
  if beforeSeqOut > maxKeySeqOut keys then
    keys.filter fun record => record.firstSeqOut = maxKeySeqOut keys
  else keys

end Telegraph.Secret
