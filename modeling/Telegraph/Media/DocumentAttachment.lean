import Telegraph.Media.ImageAttachment

/-!
# Document Attachments

`TGDocumentMediaAttachment`. The attributes of a document are data of the key-value coder in the
middle of the format. The name of the file is written once more before them, for the versions that
have no attributes, and a document that is read without a file name gains that one.

## Main results

* `TGDocumentMediaAttachment.appends_serialize`: a document appends the bytes of its contents.
* `TGDocumentMediaAttachment.reads_parse`: **these bytes are read as the document with a file
  name**, and nothing behind them is.
-/

namespace Telegraph.Media

open Bytes Codec
open Telegraph.Coder (utf8)

/-- `TGDocumentMediaAttachment`. -/
structure TGDocumentMediaAttachment (Attribute : Type) where
  localDocumentId : BitVec 64
  documentId : BitVec 64
  accessHash : BitVec 64
  datacenterId : BitVec 32
  userId : BitVec 32
  date : BitVec 32
  mimeType : Option String
  size : BitVec 32
  version : BitVec 32
  thumbnailInfo : Option TGImageInfo
  documentUri : Option String
  attributes : List (DocumentAttribute Attribute)
  caption : Option String

/-- A document as it is stored. -/
structure StoredDocument (Attribute : Type) where
  localDocumentId : BitVec 64
  documentId : BitVec 64
  accessHash : BitVec 64
  datacenterId : BitVec 32
  userId : BitVec 32
  date : BitVec 32
  mimeType : String
  size : BitVec 32
  version : BitVec 32
  thumbnailInfo : Option (List StoredSize)
  documentUri : String
  attributes : List (DocumentAttribute Attribute)
  caption : String

variable {Object Attribute Other : Type} (runtime : Runtime Object Attribute Other)

/-! ### File names -/

/-- `isKindOfClass:[TGDocumentAttributeFilename class]`. -/
def DocumentAttribute.isFilename : DocumentAttribute Attribute → Bool
  | .filename _ => true
  | .other _ => false

/-- `fileName`: the first file name of the attributes, and `file` without one. -/
def fileName : List (DocumentAttribute Attribute) → Option String
  | [] => some "file"
  | .filename filename :: _ => filename
  | .other _ :: attributes => fileName attributes

/-- The attributes with this file name if they have none. -/
def withFilename (legacyFileName : Option String)
    (attributes : List (DocumentAttribute Attribute)) : List (DocumentAttribute Attribute) :=
  if attributes.any DocumentAttribute.isFilename then attributes
  else attributes ++ [.filename legacyFileName]

/-- Attributes without a file name have the default one. -/
theorem fileName_of_not_any {attributes : List (DocumentAttribute Attribute)}
    (h : ¬ attributes.any DocumentAttribute.isFilename) : fileName attributes = some "file" := by
  induction attributes with
  | nil => rfl
  | cons first attributes ih =>
      cases first with
      | filename filename => exact absurd rfl h
      | other value => exact ih h

/-- A file name is gained only once. -/
theorem withFilename_withFilename (name other : Option String)
    (attributes : List (DocumentAttribute Attribute)) :
    withFilename other (withFilename name attributes) = withFilename name attributes := by
  have hnamed : (withFilename name attributes).any DocumentAttribute.isFilename := by
    rw [withFilename]
    split
    · assumption
    · rw [List.any_append]
      exact Bool.or_true _
  rw [withFilename, if_pos hnamed]

/-! ### The writer and the parser -/

/-- What stands behind the length of a document, whose attributes are these. -/
def StoredDocument.block (document : StoredDocument Attribute)
    (attributes : List (DocumentAttribute Attribute)) : List UInt8 :=
  [6] ++ (toLE 8 document.localDocumentId.toNat ++ (toLE 8 document.documentId.toNat ++
    (toLE 8 document.accessHash.toNat ++ (toLE 4 document.datacenterId.toNat ++
      (toLE 4 document.userId.toNat ++ (toLE 4 document.date.toNat ++
        (counted (utf8Data (fileName attributes)) ++ (counted (utf8 document.mimeType) ++
          (toLE 4 document.size.toNat ++ (imageInfoBytes document.thumbnailInfo ++
            (counted (utf8 document.documentUri) ++ (counted (runtime.encodeArray attributes) ++
              (counted (utf8 document.caption) ++ toLE 4 document.version.toNat)))))))))))))

namespace TGDocumentMediaAttachment

/-- `serialize:`. -/
def serialize (self : TGDocumentMediaAttachment Attribute) : Writer :=
  withDataLength do
    appendByte 6
    appendLong self.localDocumentId
    appendLong self.documentId
    appendLong self.accessHash
    appendInt self.datacenterId
    appendInt self.userId
    appendInt self.date
    appendText (fileName self.attributes)
    appendText self.mimeType
    appendInt self.size
    appendImageInfo self.thumbnailInfo
    appendText self.documentUri
    appendCounted (runtime.encodeArray self.attributes)
    appendText self.caption
    appendInt self.version

/-- The attributes that a decoder finds in so many bytes. -/
def readAttributes (attributesSize : BitVec 32) : Parser (List (DocumentAttribute Attribute)) := do
  let bytes ← readAllocated runtime attributesSize
  pure (runtime.decodeArray bytes)

/-- `parseMediaAttachment:`, of a version that it knows. -/
def readDocument (version : UInt8) : Parser (TGDocumentMediaAttachment Attribute) := do
  let localDocumentId ← readIf (2 ≤ version) readLong 0
  let documentId ← readLong
  let accessHash ← readLong
  let datacenterId ← readInt
  let userId ← readInt
  let date ← readInt
  let legacyFileName ← readTested Nonzero (readString runtime) (some "file")
  let mimeType ← readTested Nonzero (readString runtime) none
  let size ← readInt
  let thumbnailInfo ← readImageInfo runtime
  let documentUri ← readIf (3 ≤ version) (readTested Positive (readString runtime) none) none
  let attributes ← readIf (4 ≤ version) (readTested Positive (readAttributes runtime) []) []
  let caption ← readIf (5 ≤ version) (readTested Positive (readString runtime) none) none
  let fileVersion ← readIf (6 ≤ version) readInt 0
  pure {
    localDocumentId := localDocumentId
    documentId := documentId
    accessHash := accessHash
    datacenterId := datacenterId
    userId := userId
    date := date
    mimeType := mimeType
    size := size
    version := fileVersion
    thumbnailInfo := thumbnailInfo
    documentUri := documentUri
    attributes := withFilename legacyFileName attributes
    caption := caption }

/-- `parseMediaAttachment:`. -/
def parse : Parser (Option (TGDocumentMediaAttachment Attribute)) := do
  let _ ← readInt
  let version ← readByte
  if 1 ≤ version ∧ version ≤ 6 then do
    let document ← readDocument runtime version
    pure (some document)
  else pure none

/-- What is stored of a document: a document without a file name gains the default one. -/
def stored (self : TGDocumentMediaAttachment Attribute) : StoredDocument Attribute where
  localDocumentId := self.localDocumentId
  documentId := self.documentId
  accessHash := self.accessHash
  datacenterId := self.datacenterId
  userId := self.userId
  date := self.date
  mimeType := text self.mimeType
  size := self.size
  version := self.version
  thumbnailInfo := self.thumbnailInfo.map TGImageInfo.stored
  documentUri := text self.documentUri
  attributes := withFilename (some "file") self.attributes
  caption := text self.caption

/-- The bytes of a document. -/
def bytes (self : TGDocumentMediaAttachment Attribute) : List UInt8 :=
  counted (self.stored.block runtime self.attributes)

theorem appends_serialize (self : TGDocumentMediaAttachment Attribute) :
    Appends 2147483648 (self.serialize runtime) (self.bytes runtime) := by
  rw [bytes, StoredDocument.block, stored, ← utf8Data_eq, ← utf8Data_eq, ← utf8Data_eq]
  exact appends_withDataLength ((appends_byte 6).seq ((appends_long _).seq ((appends_long _).seq
    ((appends_long _).seq ((appends_int _).seq ((appends_int _).seq ((appends_int _).seq
      ((appends_text _).seq ((appends_text _).seq ((appends_int _).seq ((appends_imageInfo _).seq
        ((appends_text _).seq ((appends_counted _).seq ((appends_text _).seq
          (appends_int _)))))))))))))))

/-- The file name that was written, or the default one. -/
theorem reads_legacyFileName (filename : Option String)
    (h : (utf8Data filename).length < 2147483648) :
    ∃ legacyFileName, Reads (readTested Nonzero (readString runtime) (some "file"))
        (counted (utf8Data filename)) legacyFileName ∧
      (filename = some "file" → legacyFileName = some "file") := by
  rw [utf8Data_eq] at h ⊢
  refine ⟨if utf8 (text filename) = [] then some "file" else some (text filename),
    reads_tested nonzero_ofNat h (fun hempty => if_pos hempty) fun hne => ?_, ?_⟩
  · rw [if_neg hne]
    exact reads_string runtime h
  · rintro rfl
    exact ite_self _

theorem reads_attributes (attributes : List (DocumentAttribute Attribute))
    (h : (runtime.encodeArray attributes).length < 2147483648) :
    Reads (readTested Positive (readAttributes runtime) [])
      (counted (runtime.encodeArray attributes)) attributes := by
  refine reads_tested positive_ofNat h (runtime.eq_nil_of_encode attributes) fun _ => ?_
  have hread : Reads
      (readAttributes runtime (BitVec.ofNat 32 (runtime.encodeArray attributes).length))
      (runtime.encodeArray attributes) (runtime.decodeArray (runtime.encodeArray attributes)) :=
    (reads_allocated runtime h).last
  rwa [runtime.decode_encode] at hread

/-- The parts of a document behind its version. -/
theorem reads_readDocument (self : TGDocumentMediaAttachment Attribute)
    (h : (self.bytes runtime).length < 2147483648) :
    ∃ parsed, Reads (readDocument runtime 6)
        ((self.stored.block runtime self.attributes).drop 1) parsed ∧
      parsed.stored = self.stored := by
  have hparts : (utf8Data (fileName self.attributes)).length +
      (utf8 self.stored.mimeType).length + (imageInfoBytes self.stored.thumbnailInfo).length +
      (utf8 self.stored.documentUri).length + (runtime.encodeArray self.attributes).length +
      (utf8 self.stored.caption).length < 2147483648 := by
    simp only [bytes, StoredDocument.block, List.length_append, length_counted] at h
    omega
  obtain ⟨info, hinfo, hthumbnail⟩ := reads_imageInfo runtime self.stored.thumbnailInfo (by omega)
  obtain ⟨legacyFileName, hname, hfile⟩ :=
    reads_legacyFileName runtime (fileName self.attributes) (by omega)
  have hattributes : withFilename legacyFileName self.attributes =
      withFilename (some "file") self.attributes := by
    rw [withFilename, withFilename]
    split
    · rfl
    · next hnone => rw [hfile (fileName_of_not_any hnone)]
  refine ⟨{ self with
    mimeType := nonEmpty (text self.mimeType)
    thumbnailInfo := info
    documentUri := nonEmpty (text self.documentUri)
    attributes := withFilename legacyFileName self.attributes
    caption := nonEmpty (text self.caption) }, ?_, ?_⟩
  · exact (reads_long _).bind ((reads_long _).bind ((reads_long _).bind ((reads_int _).bind
      ((reads_int _).bind ((reads_int _).bind (hname.bind
        ((reads_testedText runtime nonzero_ofNat (by omega)).bind ((reads_int _).bind
          (hinfo.bind ((reads_testedText runtime positive_ofNat (by omega)).bind
            ((reads_attributes runtime _ (by omega)).bind
              ((reads_testedText runtime positive_ofNat (by omega)).bind
                (reads_int _).last))))))))))))
  · simp only [stored, text_nonEmpty, hattributes, withFilename_withFilename]
    rw [hthumbnail, stored]

/-- **A document is read back**, with a file name. -/
theorem reads_parse (self : TGDocumentMediaAttachment Attribute)
    (h : (self.bytes runtime).length < 2147483648) :
    ∃ parsed, Reads (parse runtime) (self.bytes runtime) (some parsed) ∧
      parsed.stored = self.stored := by
  obtain ⟨parsed, hread, hstored⟩ := self.reads_readDocument runtime h
  refine ⟨parsed, ?_, hstored⟩
  have hblock : self.stored.block runtime self.attributes =
      [6] ++ (self.stored.block runtime self.attributes).drop 1 := rfl
  rw [bytes, counted, hblock]
  refine (reads_length _).bind ((reads_byte 6).bind ?_)
  rw [if_pos (by decide)]
  exact hread.last

end TGDocumentMediaAttachment

end Telegraph.Media
