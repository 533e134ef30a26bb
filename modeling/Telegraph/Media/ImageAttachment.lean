import Telegraph.Media.Streams

/-!
# Image Attachments

`TGImageMediaAttachment` and the `TGImageInfo` in it. Both are hand-written pairs of a writer and a
parser: optional parts stand behind a byte that says whether they are there, strings and archives
behind their length. What the format holds of an attachment is `StoredImage`; an absent string and
the empty one, and an absent list of stickers and the empty one, are stored alike.

## Main results

* `TGImageInfo.appends_serialize`, `TGImageInfo.reads_deserialize`: the two sides of an image info.
* `TGImageMediaAttachment.appends_serialize`: **an image appends the bytes of its stored form**.
* `TGImageMediaAttachment.reads_parse`: **these bytes are read as an image with the same stored
  form**, and nothing behind them is.
-/

namespace Telegraph.Media

open Bytes Codec
open Telegraph.Coder (utf8)

/-! ### Picture sizes -/

/-- A width or a height that is a `float`, as the integers below `2 ^ 24` are: its bits. -/
abbrev Single := BitVec 32

/-- An image of a `TGImageInfo`. -/
structure TGImageSizeRecord where
  width : Single
  height : Single
  url : Option String
  fileSize : BitVec 32

/-- `TGImageInfo`. -/
structure TGImageInfo where
  sizes : List TGImageSizeRecord

namespace TGImageInfo

/-- `serialize:`. The count has its sign bit set, and a version follows. -/
def serialize (self : TGImageInfo) : Writer := do
  appendInt (BitVec.ofNat 32 self.sizes.length ||| 0x80000000)
  appendShort 1
  self.sizes.forM fun record => do
    appendText record.url
    appendInt record.width
    appendInt record.height
    appendInt record.fileSize

variable {Object Attribute Other : Type} (runtime : Runtime Object Attribute Other)

/-- One image of `deserialize:`. -/
def readSize (version : BitVec 16) : Parser TGImageSizeRecord := do
  let url ← readText runtime
  let width ← readInt
  let height ← readInt
  let fileSize ← readIf (1 ≤ version.toNat) readInt 0
  pure ⟨width, height, url, fileSize⟩

/-- The count of `deserialize:` without its sign bit, and the version, which follows a count with
the sign bit set. -/
def readCount : Parser (BitVec 32 × BitVec 16) := do
  let count ← readInt
  if count.msb then do
    let version ← readShort
    pure (count &&& 0x7fffffff, version)
  else pure (count, 0)

/-- `deserialize:`. -/
def deserialize : Parser TGImageInfo := do
  let (count, version) ← readCount
  let sizes ← times (readSize runtime version) count.toNat
  pure ⟨sizes⟩

end TGImageInfo

/-- An image as it is stored. -/
structure StoredSize where
  width : Single
  height : Single
  url : String
  fileSize : BitVec 32
deriving DecidableEq

def TGImageSizeRecord.stored (record : TGImageSizeRecord) : StoredSize :=
  ⟨record.width, record.height, text record.url, record.fileSize⟩

/-- The image that is read back. -/
def StoredSize.record (size : StoredSize) : TGImageSizeRecord :=
  ⟨size.width, size.height, some size.url, size.fileSize⟩

def StoredSize.bytes (size : StoredSize) : List UInt8 :=
  counted (utf8 size.url) ++ (toLE 4 size.width.toNat ++ (toLE 4 size.height.toNat ++
    toLE 4 size.fileSize.toNat))

/-- A stored image info. -/
def sizesBytes (sizes : List StoredSize) : List UInt8 :=
  toLE 4 (2147483648 + sizes.length) ++ (toLE 2 1 ++ sizes.flatMap StoredSize.bytes)

namespace TGImageInfo

def stored (self : TGImageInfo) : List StoredSize := self.sizes.map TGImageSizeRecord.stored

/-- A count with the sign bit set. -/
theorem or_signBit {n : ℕ} (h : n < 2147483648) :
    (BitVec.ofNat 32 n ||| 0x80000000) = BitVec.ofNat 32 (2147483648 + n) := by
  apply BitVec.eq_of_toNat_eq
  have hor : 2147483648 + n = 2147483648 ||| n := Nat.two_pow_add_eq_or_of_lt (i := 31) h 1
  rw [BitVec.toNat_or, toNat_ofNat h, BitVec.toNat_ofNat, Nat.mod_eq_of_lt (by omega), hor,
    Nat.or_comm]
  rfl

/-- The sign bit is taken off again. -/
theorem and_signBit {n : ℕ} (h : n < 2147483648) :
    (BitVec.ofNat 32 (2147483648 + n) &&& 0x7fffffff).toNat = n := by
  have hand := Nat.and_two_pow_sub_one_eq_mod (2147483648 + n) 31
  rw [BitVec.toNat_and, BitVec.toNat_ofNat, Nat.mod_eq_of_lt (by omega)]
  refine hand.trans ?_
  omega

theorem length_sizes_lt {sizes : List StoredSize} {bound : ℕ}
    (h : (sizesBytes sizes).length < bound) : sizes.length < bound := by
  have hsizes : sizes.length ≤ (sizes.flatMap StoredSize.bytes).length := by
    refine length_le_flatMap fun size _ => ?_
    rw [StoredSize.bytes, counted, List.append_assoc]
    exact List.cons_ne_nil _ _
  rw [sizesBytes, List.length_append, List.length_append] at h
  omega

/-- **An image info appends the bytes of its stored form.** -/
theorem appends_serialize (self : TGImageInfo) :
    Appends 2147483648 self.serialize (sizesBytes self.stored) := by
  refine Appends.of_lt fun hbytes => ?_
  have hcount := length_sizes_lt hbytes
  rw [stored, List.length_map] at hcount
  have hsize (record : TGImageSizeRecord) : Appends 2147483648 (do
      appendText record.url
      appendInt record.width
      appendInt record.height
      appendInt record.fileSize) record.stored.bytes := by
    rw [StoredSize.bytes, TGImageSizeRecord.stored, ← utf8Data_eq]
    exact (appends_text _).seq ((appends_int _).seq ((appends_int _).seq (appends_int _)))
  rw [serialize, or_signBit hcount, sizesBytes, stored, List.length_map, List.flatMap_map]
  exact (appends_length _).seq ((appends_short 1).seq (Appends.forM _ fun record _ => hsize record))

variable {Object Attribute Other : Type} (runtime : Runtime Object Attribute Other)

/-- An image of an image info, read back. -/
theorem reads_readSize {size : StoredSize} (h : size.bytes.length < 2147483648) :
    Reads (readSize runtime 1) size.bytes size.record := by
  have hurl : (utf8 size.url).length < 2147483648 := by
    rw [StoredSize.bytes, List.length_append, length_counted] at h
    omega
  exact (reads_text runtime hurl).bind ((reads_int _).bind ((reads_int _).bind (reads_int _).last))

/-- The count and the version, read back. -/
theorem reads_readCount {n : ℕ} (h : n < 2147483648) :
    Reads readCount (toLE 4 (2147483648 + n) ++ toLE 2 1)
      (BitVec.ofNat 32 (2147483648 + n) &&& 0x7fffffff, 1) := by
  have hmsb : (BitVec.ofNat 32 (2147483648 + n)).msb = true := by
    rw [BitVec.msb_eq_decide, BitVec.toNat_ofNat, decide_eq_true_eq]
    omega
  refine (reads_length _).bind ?_
  rw [if_pos hmsb]
  exact (reads_short 1).last

/-- **These bytes are read as an image info with the same stored form.** -/
theorem reads_deserialize {sizes : List StoredSize}
    (h : (sizesBytes sizes).length < 2147483648) :
    ∃ info, Reads (deserialize runtime) (sizesBytes sizes) info ∧ info.stored = sizes := by
  have hcount := length_sizes_lt h
  have hsizes : Reads (times (readSize runtime 1) sizes.length)
      (sizes.flatMap StoredSize.bytes) (sizes.map StoredSize.record) := by
    refine Reads.times sizes fun size hsize => reads_readSize runtime ?_
    have hpart : size.bytes.length ≤ (sizes.flatMap StoredSize.bytes).length :=
      length_bytes_le_flatMap hsize
    rw [sizesBytes, List.length_append, List.length_append] at h
    omega
  rw [sizesBytes, ← List.append_assoc]
  refine ⟨⟨sizes.map StoredSize.record⟩, (reads_readCount hcount).bind ?_, ?_⟩
  · show Reads (times (readSize runtime 1)
      (BitVec.ofNat 32 (2147483648 + sizes.length) &&& 0x7fffffff).toNat >>= _) _ _
    rw [and_signBit hcount]
    exact hsizes.last
  · rw [stored, List.map_map]
    exact List.map_id _

end TGImageInfo

/-! ### Image attachments -/

/-- `TGImageMediaAttachment`. -/
structure TGImageMediaAttachment (Object : Type) where
  imageId : BitVec 64
  accessHash : BitVec 64
  date : BitVec 32
  hasLocation : Bool
  locationLatitude : BitVec 64
  locationLongitude : BitVec 64
  imageInfo : Option TGImageInfo
  caption : Option String
  hasStickers : Bool
  embeddedStickerDocuments : Option Object

/-- An image attachment as it is stored. -/
structure StoredImage (Object : Type) where
  imageId : BitVec 64
  accessHash : BitVec 64
  date : BitVec 32
  location : Option (BitVec 64 × BitVec 64)
  imageInfo : Option (List StoredSize)
  caption : String
  hasStickers : Bool
  embeddedStickerDocuments : Option Object

variable {Object Attribute Other : Type} (runtime : Runtime Object Attribute Other)

/-- A place on the map, behind a byte that says whether there is one. -/
def locationBytes : Option (BitVec 64 × BitVec 64) → List UInt8
  | none => [0]
  | some (latitude, longitude) => [1] ++ (toLE 8 latitude.toNat ++ toLE 8 longitude.toNat)

/-- An image info behind a byte that says whether there is one. -/
def imageInfoBytes : Option (List StoredSize) → List UInt8
  | none => [0]
  | some sizes => [1] ++ sizesBytes sizes

/-- What stands behind the length of an image. -/
def StoredImage.block (image : StoredImage Object) : List UInt8 :=
  toLE 8 image.imageId.toNat ++ (toLE 4 image.date.toNat ++ (locationBytes image.location ++
    (imageInfoBytes image.imageInfo ++ (toLE 8 image.accessHash.toNat ++
      (counted (utf8 image.caption) ++ ([flag image.hasStickers] ++
        counted (archived runtime image.embeddedStickerDocuments)))))))

def StoredImage.bytes (image : StoredImage Object) : List UInt8 :=
  toLE 4 0x7abacaf1 ++ ([3] ++ counted (image.block runtime))

/-- `_imageInfo` and the byte before it, also as the thumbnail of a document. -/
def appendImageInfo (imageInfo : Option TGImageInfo) : Writer := do
  appendByte (flag imageInfo.isSome)
  match imageInfo with
    | none => pure ()
    | some imageInfo => imageInfo.serialize

def readImageInfo : Parser (Option TGImageInfo) := do
  let hasImageInfo ← readByte
  readIf (hasImageInfo ≠ 0) (do
    let imageInfo ← TGImageInfo.deserialize runtime
    pure (some imageInfo)) none

namespace TGImageMediaAttachment

/-- `_hasLocation` and the place behind it. -/
def appendLocation (self : TGImageMediaAttachment Object) : Writer := do
  appendByte (flag self.hasLocation)
  if self.hasLocation then do
    appendLong self.locationLatitude
    appendLong self.locationLongitude
  else pure ()

/-- The length of the caption and, unless it is `0`, the caption. -/
def appendCaption (self : TGImageMediaAttachment Object) : Writer := do
  let captionLength := BitVec.ofNat 32 (utf8Data self.caption).length
  appendInt captionLength
  if captionLength ≠ 0 then appendBytes (utf8Data self.caption) else pure ()

/-- The documents that are not an empty list. -/
def documents (self : TGImageMediaAttachment Object) : Option Object :=
  self.embeddedStickerDocuments.filter fun documents => runtime.count documents ≠ 0

/-- The archive of the documents behind its length, which is `0` for an empty list. -/
def appendDocuments (self : TGImageMediaAttachment Object) : Writer :=
  match self.documents runtime with
  | none => appendInt 0
  | some documents => appendCounted (runtime.archivedDataWithRootObject documents)

/-- `serialize:`. -/
def serialize (self : TGImageMediaAttachment Object) : Writer := do
  appendInt 0x7abacaf1
  appendByte 3
  withDataLength do
    appendLong self.imageId
    appendInt self.date
    self.appendLocation
    appendImageInfo self.imageInfo
    appendLong self.accessHash
    self.appendCaption
    appendByte (flag self.hasStickers)
    self.appendDocuments runtime

/-- The place that is read when there is one; the longitude is read into the variable of the
latitude. -/
def readLocation : Parser (Bool × BitVec 64 × BitVec 64) := do
  let hasLocation ← readByte
  let (latitude, longitude) ← readIf (hasLocation ≠ 0) (do
    let latitude ← readLong
    let longitude ← readLongInto latitude
    pure (latitude, longitude)) (0, 0)
  pure (hasLocation ≠ 0, latitude, longitude)

/-- The version and the length, or the length alone in the first version. -/
def readVersion : Parser UInt8 := do
  let dataLength ← readInt
  readIf (dataLength = 0x7abacaf1) (do
    let version ← readByte
    let _ ← readInt
    pure version) 1

/-- What the third version adds. -/
def readStickers : Parser (Bool × Option Object) := do
  let hasStickers ← readByte
  let documents ← readTested Nonzero (readObject runtime) none
  pure (hasStickers ≠ 0, documents)

/-- `parseMediaAttachment:`. -/
def parse : Parser (TGImageMediaAttachment Object) := do
  let version ← readVersion
  let imageId ← readLong
  let date ← readInt
  let (hasLocation, latitude, longitude) ← readLocation
  let imageInfo ← readImageInfo runtime
  let accessHash ← readLong
  let caption ← readIf (2 ≤ version) (readTested Nonzero (readString runtime) none) none
  let (hasStickers, documents) ← readIf (3 ≤ version) (readStickers runtime) (false, none)
  pure {
    imageId := imageId
    accessHash := accessHash
    date := date
    hasLocation := hasLocation
    locationLatitude := latitude
    locationLongitude := longitude
    imageInfo := imageInfo
    caption := caption
    hasStickers := hasStickers
    embeddedStickerDocuments := documents }

/-- What is stored of an image attachment. -/
def stored (self : TGImageMediaAttachment Object) : StoredImage Object where
  imageId := self.imageId
  accessHash := self.accessHash
  date := self.date
  location :=
    if self.hasLocation then some (self.locationLatitude, self.locationLongitude) else none
  imageInfo := self.imageInfo.map TGImageInfo.stored
  caption := text self.caption
  hasStickers := self.hasStickers
  embeddedStickerDocuments := self.documents runtime

end TGImageMediaAttachment

section

variable {runtime}

theorem appends_imageInfo (imageInfo : Option TGImageInfo) :
    Appends 2147483648 (appendImageInfo imageInfo)
      (imageInfoBytes (imageInfo.map TGImageInfo.stored)) := by
  cases imageInfo with
  | none => exact (appends_byte 0).seq Appends.nil
  | some imageInfo => exact (appends_byte 1).seq imageInfo.appends_serialize

end

theorem reads_imageInfo (sizes : Option (List StoredSize))
    (h : (imageInfoBytes sizes).length < 2147483648) :
    ∃ info, Reads (readImageInfo runtime) (imageInfoBytes sizes) info ∧
      info.map TGImageInfo.stored = sizes := by
  cases sizes with
  | none => exact ⟨none, (reads_byte 0).bind (Reads.pure none), rfl⟩
  | some sizes =>
      have hsizes : (sizesBytes sizes).length < 2147483648 := by
        rw [imageInfoBytes, List.length_append] at h
        omega
      obtain ⟨info, hread, hstored⟩ := TGImageInfo.reads_deserialize runtime hsizes
      refine ⟨some info, (reads_byte 1).bind ?_, congrArg some hstored⟩
      rw [readIf, if_pos (by decide)]
      exact hread.last

namespace TGImageMediaAttachment

theorem appends_location (self : TGImageMediaAttachment Object) :
    Appends 2147483648 self.appendLocation (locationBytes (self.stored runtime).location) := by
  rw [appendLocation, stored]
  cases self.hasLocation with
  | false => exact (appends_byte 0).seq Appends.nil
  | true => exact (appends_byte 1).seq ((appends_long _).seq (appends_long _))

theorem appends_caption (self : TGImageMediaAttachment Object) :
    Appends 2147483648 self.appendCaption (counted (utf8 (text self.caption))) := by
  rw [← utf8Data_eq]
  refine Appends.of_lt fun hbytes => ?_
  rw [length_counted] at hbytes
  have hlength := nonzero_ofNat (utf8Data self.caption).length (by omega)
  refine (appends_length _).seq ?_
  split
  · exact appends_bytes _
  · next hzero =>
      have hempty : utf8Data self.caption = [] :=
        List.eq_nil_of_length_eq_zero (not_ne_iff.mp (mt hlength.mpr hzero))
      rw [hempty]
      exact Appends.nil

theorem appends_documents (self : TGImageMediaAttachment Object) :
    Appends 2147483648 (self.appendDocuments runtime)
      (counted (archived runtime (self.documents runtime))) := by
  rw [appendDocuments]
  cases self.documents runtime with
  | none => exact appends_int 0
  | some documents => exact appends_counted _

/-- **An image appends the bytes of its stored form.** -/
theorem appends_serialize (self : TGImageMediaAttachment Object) :
    Appends 2147483648 (self.serialize runtime) ((self.stored runtime).bytes runtime) :=
  (appends_int _).seq ((appends_byte 3).seq (appends_withDataLength
    ((appends_long _).seq ((appends_int _).seq ((self.appends_location runtime).seq
      ((appends_imageInfo _).seq ((appends_long _).seq (self.appends_caption.seq
        ((appends_byte _).seq (self.appends_documents runtime))))))))))

theorem reads_location (location : Option (BitVec 64 × BitVec 64)) :
    Reads readLocation (locationBytes location) (location.isSome, location.getD (0, 0)) := by
  cases location with
  | none => exact (reads_byte 0).bind (Reads.pure (false, 0, 0))
  | some location =>
      have hplace : Reads (readIf ((1 : UInt8) ≠ 0) (do
          let latitude ← readLong
          let longitude ← readLongInto latitude
          pure (latitude, longitude)) (0, 0))
          (toLE 8 location.1.toNat ++ toLE 8 location.2.toNat) location := by
        rw [readIf, if_pos (by decide)]
        exact (reads_long _).bind (reads_longInto _ _).last
      exact (reads_byte 1).bind hplace.last

/-- A tag, a version and a length are read as this version. -/
theorem reads_version (n : ℕ) :
    Reads readVersion (toLE 4 0x7abacaf1 ++ ([3] ++ toLE 4 n)) 3 := by
  refine (reads_int 0x7abacaf1).bind ?_
  rw [readIf, if_pos rfl]
  exact (reads_byte 3).bind (reads_length n).last

theorem flag_ne_zero (value : Bool) : decide (flag value ≠ 0) = value := by
  cases value <;> rfl

theorem reads_stickers (hasStickers : Bool) (documents : Option Object)
    (h : (archived runtime documents).length < 2147483648) :
    Reads (readStickers runtime) ([flag hasStickers] ++ counted (archived runtime documents))
      (hasStickers, documents) := by
  have hread : Reads (readStickers runtime)
      ([flag hasStickers] ++ counted (archived runtime documents))
      (decide (flag hasStickers ≠ 0), documents) :=
    (reads_byte _).bind (reads_testedObject runtime nonzero_ofNat documents h).last
  rwa [flag_ne_zero] at hread

/-- **The bytes of a stored image are read as an image with the same stored form.** -/
theorem reads_parse (self : TGImageMediaAttachment Object)
    (h : ((self.stored runtime).bytes runtime).length < 2147483648) :
    ∃ parsed, Reads (parse runtime) ((self.stored runtime).bytes runtime) parsed ∧
      parsed.stored runtime = self.stored runtime := by
  generalize hs : self.stored runtime = image at h
  have hblock : (imageInfoBytes image.imageInfo).length + (utf8 image.caption).length +
      (archived runtime image.embeddedStickerDocuments).length < 2147483648 := by
    simp only [StoredImage.bytes, StoredImage.block, List.length_append, length_counted] at h
    omega
  obtain ⟨info, hinfo, hstored⟩ := reads_imageInfo runtime image.imageInfo (by omega)
  refine ⟨⟨image.imageId, image.accessHash, image.date, image.location.isSome,
    (image.location.getD (0, 0)).1, (image.location.getD (0, 0)).2, info, nonEmpty image.caption,
    image.hasStickers, image.embeddedStickerDocuments⟩, ?_, ?_⟩
  · have hversion : image.bytes runtime =
        (toLE 4 0x7abacaf1 ++ ([3] ++ toLE 4 (image.block runtime).length)) ++
          image.block runtime := by
      rw [StoredImage.bytes, counted, List.append_assoc, List.append_assoc]
    rw [hversion]
    exact (reads_version _).bind ((reads_long _).bind ((reads_int _).bind
      ((reads_location _).bind (hinfo.bind ((reads_long _).bind
        ((reads_testedText runtime nonzero_ofNat (by omega)).bind
          (reads_stickers runtime _ _ (by omega)).last))))))
  · subst hs
    have hlocation : ∀ location : Option (BitVec 64 × BitVec 64), (if location.isSome then
        some ((location.getD (0, 0)).1, (location.getD (0, 0)).2) else none) = location := by
      rintro (_ | location) <;> rfl
    have hdocuments : ((self.documents runtime).filter fun documents =>
        runtime.count documents ≠ 0) = self.documents runtime := by
      rw [documents, Option.filter_filter]
      simp only [Bool.and_self]
    rw [stored, hlocation, hstored, text_nonEmpty, documents]
    exact congrArg (StoredImage.mk _ _ _ _ _ _ _) hdocuments

end TGImageMediaAttachment

end Telegraph.Media
