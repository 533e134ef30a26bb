import Telegraph.Media.ImageAttachment

/-!
# Contacts, Locations and Forwarded Messages

Three attachments whose parts are all there in every version that is written: each has a writer,
a parser that also reads what older versions wrote, and a stored form in which an absent string is
the empty one.

## Main results

* `TGContactMediaAttachment.reads_parse`, `TGLocationMediaAttachment.reads_parse`,
  `TGForwardedMessageMediaAttachment.reads_parse`: **what each appends is read as an attachment
  with the same stored form**, and nothing behind it is.
-/

namespace Telegraph.Media

open Bytes Codec
open Telegraph.Coder (utf8)

variable {Object Attribute Other : Type} (runtime : Runtime Object Attribute Other)

/-! ### Contacts -/

/-- `TGContactMediaAttachment`. -/
structure TGContactMediaAttachment where
  uid : BitVec 32
  firstName : Option String
  lastName : Option String
  phoneNumber : Option String

/-- A contact as it is stored. -/
structure StoredContact where
  uid : BitVec 32
  firstName : String
  lastName : String
  phoneNumber : String
deriving DecidableEq

def StoredContact.bytes (contact : StoredContact) : List UInt8 :=
  counted (toLE 4 contact.uid.toNat ++ (counted (utf8 contact.firstName) ++
    (counted (utf8 contact.lastName) ++ counted (utf8 contact.phoneNumber))))

namespace TGContactMediaAttachment

/-- `serialize:`. -/
def serialize (self : TGContactMediaAttachment) : Writer :=
  withDataLength do
    appendInt self.uid
    appendText self.firstName
    appendText self.lastName
    appendText self.phoneNumber

/-- `parseMediaAttachment:`. -/
def parse : Parser TGContactMediaAttachment := do
  let _ ← readInt
  let uid ← readInt
  let firstName ← readText runtime
  let lastName ← readText runtime
  let phoneNumber ← readText runtime
  pure ⟨uid, firstName, lastName, phoneNumber⟩

/-- What is stored of a contact. -/
def stored (self : TGContactMediaAttachment) : StoredContact :=
  ⟨self.uid, text self.firstName, text self.lastName, text self.phoneNumber⟩

theorem appends_serialize (self : TGContactMediaAttachment) :
    Appends 2147483648 self.serialize self.stored.bytes := by
  rw [StoredContact.bytes, stored, ← utf8Data_eq, ← utf8Data_eq, ← utf8Data_eq]
  exact appends_withDataLength ((appends_int _).seq ((appends_text _).seq ((appends_text _).seq
    (appends_text _))))

/-- **A contact is read back.** -/
theorem reads_parse {contact : StoredContact} (h : contact.bytes.length < 2147483648) :
    ∃ parsed, Reads (parse runtime) contact.bytes parsed ∧ parsed.stored = contact := by
  have hparts : (utf8 contact.firstName).length + (utf8 contact.lastName).length +
      (utf8 contact.phoneNumber).length < 2147483648 := by
    simp only [StoredContact.bytes, List.length_append, length_counted] at h
    omega
  refine ⟨⟨contact.uid, some contact.firstName, some contact.lastName,
    some contact.phoneNumber⟩, ?_, rfl⟩
  exact (reads_length _).bind ((reads_int _).bind ((reads_text runtime (by omega)).bind
    ((reads_text runtime (by omega)).bind (reads_text runtime (by omega)).last)))

end TGContactMediaAttachment

/-! ### Locations -/

/-- `TGLocationMediaAttachment`; the venue is an archived object. -/
structure TGLocationMediaAttachment (Object : Type) where
  latitude : BitVec 64
  longitude : BitVec 64
  venue : Option Object

/-- The bytes of a location. -/
def TGLocationMediaAttachment.bytes (self : TGLocationMediaAttachment Object) : List UInt8 :=
  counted (toLE 8 self.latitude.toNat ++ (toLE 8 self.longitude.toNat ++
    counted (archived runtime self.venue)))

namespace TGLocationMediaAttachment

/-- `serialize:`. -/
def serialize (self : TGLocationMediaAttachment Object) : Writer :=
  withDataLength do
    appendLong self.latitude
    appendLong self.longitude
    appendCounted (archived runtime self.venue)

/-- `parseMediaAttachment:`. The venue is read if the length leaves room for it. -/
def parse : Parser (TGLocationMediaAttachment Object) := do
  let dataLength ← readInt
  let latitude ← readLong
  let longitude ← readLong
  let venue ← readIf (20 ≤ dataLength.toInt) (readTested Positive (readObject runtime) none) none
  pure ⟨latitude, longitude, venue⟩

theorem appends_serialize (self : TGLocationMediaAttachment Object) :
    Appends 2147483648 (self.serialize runtime) (self.bytes runtime) :=
  appends_withDataLength ((appends_long _).seq ((appends_long _).seq (appends_counted _)))

/-- **A location is read back.** -/
theorem reads_parse (self : TGLocationMediaAttachment Object)
    (h : (self.bytes runtime).length < 2147483648) :
    Reads (parse runtime) (self.bytes runtime) self := by
  have hvenue : (archived runtime self.venue).length < 2147483648 := by
    simp only [bytes, List.length_append, length_counted] at h
    omega
  have hroom : 20 ≤ (BitVec.ofNat 32 (toLE 8 self.latitude.toNat ++
      (toLE 8 self.longitude.toNat ++ counted (archived runtime self.venue))).length).toInt := by
    rw [bytes, length_counted] at h
    rw [toInt_length (by omega)]
    simp only [List.length_append, length_toLE, length_counted]
    omega
  have hread : Reads (readIf (20 ≤ (BitVec.ofNat 32 (toLE 8 self.latitude.toNat ++
      (toLE 8 self.longitude.toNat ++ counted (archived runtime self.venue))).length).toInt)
      (readTested Positive (readObject runtime) none) none)
      (counted (archived runtime self.venue)) self.venue := by
    rw [readIf, if_pos hroom]
    exact reads_testedObject runtime positive_ofNat _ hvenue
  exact (reads_length _).bind ((reads_long _).bind ((reads_long _).bind hread.last))

end TGLocationMediaAttachment

/-! ### Forwarded messages -/

/-- `TGForwardedMessageMediaAttachment`. -/
structure TGForwardedMessageMediaAttachment where
  forwardSourcePeerId : BitVec 64
  forwardPeerId : BitVec 64
  forwardDate : BitVec 32
  forwardAuthorUserId : BitVec 32
  forwardPostId : BitVec 32
  forwardAuthorSignature : Option String
  forwardMid : BitVec 32

/-- A forwarded message as it is stored. -/
structure StoredForward where
  forwardSourcePeerId : BitVec 64
  forwardPeerId : BitVec 64
  forwardDate : BitVec 32
  forwardAuthorUserId : BitVec 32
  forwardPostId : BitVec 32
  forwardAuthorSignature : String
  forwardMid : BitVec 32
deriving DecidableEq

/-- What stands behind the length of a forwarded message. -/
def StoredForward.block (forward : StoredForward) : List UInt8 :=
  toLE 8 forward.forwardPeerId.toNat ++ (toLE 4 forward.forwardDate.toNat ++
    (toLE 4 forward.forwardMid.toNat ++ (toLE 4 forward.forwardAuthorUserId.toNat ++
      (toLE 4 forward.forwardPostId.toNat ++ (toLE 8 forward.forwardSourcePeerId.toNat ++
        counted (utf8 forward.forwardAuthorSignature))))))

def StoredForward.bytes (forward : StoredForward) : List UInt8 :=
  toLE 4 0x72413fad ++ counted forward.block

namespace TGForwardedMessageMediaAttachment

/-- `serialize:`. -/
def serialize (self : TGForwardedMessageMediaAttachment) : Writer := do
  appendInt 0x72413fad
  withDataLength do
    appendLong self.forwardPeerId
    appendInt self.forwardDate
    appendInt self.forwardMid
    appendInt self.forwardAuthorUserId
    appendInt self.forwardPostId
    appendLong self.forwardSourcePeerId
    appendText self.forwardAuthorSignature

/-- The version of a magic, which a length follows; the first version has the length alone. -/
def versionOf (magic : BitVec 32) : ℕ :=
  if magic = 0x72413faa then 2
  else if magic = 0x72413fab then 3
  else if magic = 0x72413fac then 4
  else if magic = 0x72413fad then 5
  else 0

/-- The version, behind which the length has been read. -/
def readVersion : Parser ℕ := do
  let magic ← readInt
  readIf (versionOf magic ≠ 0) (do
    let _ ← readInt
    pure (versionOf magic)) 0

/-- The peer, which was a user id before the second version. -/
def readPeerId (version : ℕ) : Parser (BitVec 64) :=
  if 2 ≤ version then readLong
  else do
    let forwardUid ← readInt
    pure (forwardUid.signExtend 64)

/-- The signature, from the fifth version on: `nil` for the length `0`. -/
def readSignature : Parser (Option String) := do
  let signatureLength ← readInt
  let signature ← readString runtime signatureLength
  pure (if signatureLength ≠ 0 then signature else none)

/-- `parseMediaAttachment:`. -/
def parse : Parser TGForwardedMessageMediaAttachment := do
  let version ← readVersion
  let forwardPeerId ← readPeerId version
  let forwardDate ← readInt
  let forwardMid ← readInt
  let forwardAuthorUserId ← readIf (3 ≤ version) readInt 0
  let forwardPostId ← readIf (3 ≤ version) readInt 0
  let forwardSourcePeerId ← readIf (4 ≤ version) readLong 0
  let signature ← readIf (5 ≤ version) (readSignature runtime) none
  pure {
    forwardSourcePeerId := forwardSourcePeerId
    forwardPeerId := forwardPeerId
    forwardDate := forwardDate
    forwardAuthorUserId := forwardAuthorUserId
    forwardPostId := forwardPostId
    forwardAuthorSignature := signature
    forwardMid := forwardMid }

/-- What is stored of a forwarded message. -/
def stored (self : TGForwardedMessageMediaAttachment) : StoredForward where
  forwardSourcePeerId := self.forwardSourcePeerId
  forwardPeerId := self.forwardPeerId
  forwardDate := self.forwardDate
  forwardAuthorUserId := self.forwardAuthorUserId
  forwardPostId := self.forwardPostId
  forwardAuthorSignature := text self.forwardAuthorSignature
  forwardMid := self.forwardMid

theorem appends_serialize (self : TGForwardedMessageMediaAttachment) :
    Appends 2147483648 self.serialize self.stored.bytes := by
  rw [StoredForward.bytes, StoredForward.block, stored, ← utf8Data_eq]
  exact (appends_int _).seq (appends_withDataLength ((appends_long _).seq ((appends_int _).seq
    ((appends_int _).seq ((appends_int _).seq ((appends_int _).seq ((appends_long _).seq
      (appends_text _))))))))

theorem reads_version (n : ℕ) : Reads readVersion (toLE 4 0x72413fad ++ toLE 4 n) 5 :=
  (reads_int 0x72413fad).bind (reads_length n).last

theorem reads_signature {signature : String} (h : (utf8 signature).length < 2147483648) :
    Reads (readSignature runtime) (counted (utf8 signature)) (nonEmpty signature) := by
  have hread : Reads (readSignature runtime) (counted (utf8 signature))
      (if Nonzero (BitVec.ofNat 32 (utf8 signature).length) then some signature else none) :=
    (reads_length _).bind (reads_string runtime h).last
  have htest : Nonzero (BitVec.ofNat 32 (utf8 signature).length) ↔ ¬ utf8 signature = [] := by
    rw [nonzero_ofNat _ h, Ne, List.length_eq_zero_iff]
  rwa [if_congr htest rfl rfl, ite_not] at hread

/-- **A forwarded message is read back.** -/
theorem reads_parse {forward : StoredForward} (h : forward.bytes.length < 2147483648) :
    ∃ parsed, Reads (parse runtime) forward.bytes parsed ∧ parsed.stored = forward := by
  have hsignature : (utf8 forward.forwardAuthorSignature).length < 2147483648 := by
    simp only [StoredForward.bytes, StoredForward.block, List.length_append, length_counted] at h
    omega
  refine ⟨⟨forward.forwardSourcePeerId, forward.forwardPeerId, forward.forwardDate,
    forward.forwardAuthorUserId, forward.forwardPostId, nonEmpty forward.forwardAuthorSignature,
    forward.forwardMid⟩, ?_, ?_⟩
  · rw [StoredForward.bytes, counted, ← List.append_assoc]
    exact (reads_version _).bind ((reads_long _).bind ((reads_int _).bind ((reads_int _).bind
      ((reads_int _).bind ((reads_int _).bind ((reads_long _).bind
        (reads_signature runtime hsignature).last))))))
  · rw [stored, text_nonEmpty]

end TGForwardedMessageMediaAttachment

end Telegraph.Media
