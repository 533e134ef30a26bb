import Telegraph.Lib.Codec
import Telegraph.Coder.FieldScan

/-!
# The Streams of Stored Media

`NSMutableData` as the attachments write it, and `NSInputStream` as they read it. A length is an
`int` that is written before the bytes it counts, or put in its place when what it counts has been
written. A read past the end leaves what was in the memory it reads into: zeros for a field, and
whatever `malloc` gave for a block.

## Main results

* `appends_withDataLength`: the length of a block stands before it, as long as the positions
  in the data are `int`s.
* `reads_int`, `reads_long`, `reads_text`: a field that was written is read back.
-/

namespace Telegraph.Media

open Bytes Codec
open Telegraph.Coder (utf8 stringWithUTF8 stringWithUTF8_utf8)

/-- An integer `NSNumber`. -/
abbrev NSNumber := BitVec 64

/-- `intValue`. -/
def NSNumber.intValue (number : NSNumber) : BitVec 32 := number.setWidth 32

/-- The `NSNumber` of an `int`. -/
def NSNumber.ofInt (value : BitVec 32) : NSNumber := value.signExtend 64

/-- The number is an `int`. -/
def NSNumber.Fits (number : NSNumber) : Prop :=
  -2147483648 ≤ number.toInt ∧ number.toInt < 2147483648

/-- An attribute of a document: a `TGDocumentAttributeFilename` or one of another class. -/
inductive DocumentAttribute (Attribute : Type) where
  | filename (filename : Option String)
  | other (value : Attribute)

/-- What the attachments use of the system: the memory that `malloc` gives, `NSKeyedArchiver` and
the key-value coder, which read back what they wrote, and the parsers that are registered for the
other types of attachments. -/
structure Runtime (Object Attribute Other : Type) where
  malloc : ℕ → List UInt8
  length_malloc : ∀ size, (malloc size).length = size
  /-- `count`, of an object that is an array. -/
  count : Object → ℕ
  archivedDataWithRootObject : Object → List UInt8
  unarchiveObjectWithData : List UInt8 → Option Object
  unarchive_archived : ∀ object,
    unarchiveObjectWithData (archivedDataWithRootObject object) = some object
  archived_ne_nil : ∀ object, archivedDataWithRootObject object ≠ []
  /-- The data of a coder that has encoded an array. -/
  encodeArray : List (DocumentAttribute Attribute) → List UInt8
  decodeArray : List UInt8 → List (DocumentAttribute Attribute)
  decode_encode : ∀ attributes, decodeArray (encodeArray attributes) = attributes
  eq_nil_of_encode : ∀ attributes, encodeArray attributes = [] → attributes = []
  mediaAttachmentParsers : BitVec 32 → Option (Parser (Option Other))

/-! ### Writing -/

/-- `appendBytes:length:` and `appendData:`. -/
def appendBytes (bytes : List UInt8) : Writer := fun data => some ((), data ++ bytes)

def appendByte (value : UInt8) : Writer := appendBytes [value]

def appendShort (value : BitVec 16) : Writer := appendBytes (toLE 2 value.toNat)

def appendInt (value : BitVec 32) : Writer := appendBytes (toLE 4 value.toNat)

def appendLong (value : BitVec 64) : Writer := appendBytes (toLE 8 value.toNat)

/-- A `bool` in a byte. -/
def flag (value : Bool) : UInt8 := if value then 1 else 0

/-- The length of a block as an `int`, and the block. -/
def appendCounted (bytes : List UInt8) : Writer := do
  appendInt (BitVec.ofNat 32 bytes.length)
  appendBytes bytes

/-- `dataUsingEncoding:` of a string that may be `nil`. -/
def utf8Data : Option String → List UInt8
  | none => []
  | some string => utf8 string

def appendText (string : Option String) : Writer := appendCounted (utf8Data string)

/-- `replaceBytesInRange:withBytes:`, of four bytes; a negative `int` is no location. -/
def replaceBytes (location : BitVec 32) (value : BitVec 32) : Writer := fun data =>
  if location.toInt < 0 ∨ data.length < location.toNat then none
  else some ((), data.take location.toNat ++ toLE 4 value.toNat ++ data.drop (location.toNat + 4))

/-- A block behind its `dataLength`, which is put in its place when the block is written. -/
def withDataLength (block : Writer) : Writer := do
  let dataLengthPtr := BitVec.ofNat 32 (← get).length
  appendInt 0
  block
  let dataLength := BitVec.ofNat 32 (← get).length - dataLengthPtr - 4
  replaceBytes dataLengthPtr dataLength

/-! ### Reading -/

/-- `read:maxLength:` into these bytes. -/
def readInto (buffer : List UInt8) : Parser (List UInt8) := fun stream =>
  some (stream.take buffer.length ++ buffer.drop stream.length, stream.drop buffer.length)

def readByte : Parser UInt8 := do
  let bytes ← readInto [0]
  pure (bytes.headD 0)

def readShort : Parser (BitVec 16) := do
  let bytes ← readInto (toLE 2 0)
  pure (BitVec.ofNat 16 (leNat bytes))

def readInt : Parser (BitVec 32) := do
  let bytes ← readInto (toLE 4 0)
  pure (BitVec.ofNat 32 (leNat bytes))

/-- Eight bytes into a variable that holds `old`. -/
def readLongInto (old : BitVec 64) : Parser (BitVec 64) := do
  let bytes ← readInto (toLE 8 old.toNat)
  pure (BitVec.ofNat 64 (leNat bytes))

def readLong : Parser (BitVec 64) := readLongInto 0

variable {Object Attribute Other : Type} (runtime : Runtime Object Attribute Other)

/-- A block of `malloc` is filled; for a negative length there is none to fill. -/
def readAllocated (length : BitVec 32) : Parser (List UInt8) :=
  if length.toInt < 0 then fun _ => none
  else readInto (runtime.malloc length.toNat)

/-- A string of this many bytes, `nil` if they are not UTF-8. -/
def readString (length : BitVec 32) : Parser (Option String) := do
  let bytes ← readAllocated runtime length
  pure (stringWithUTF8 bytes)

/-- The length of a string and the string. -/
def readText : Parser (Option String) := do
  let length ← readInt
  readString runtime length

/-- An archived object of this many bytes. -/
def readObject (length : BitVec 32) : Parser (Option Object) := do
  let bytes ← readAllocated runtime length
  pure (runtime.unarchiveObjectWithData bytes)

/-- A length, and what it counts if the length passes a test. -/
def readTested {α : Type} (test : BitVec 32 → Prop) [DecidablePred test]
    (read : BitVec 32 → Parser α) (old : α) : Parser α := do
  let length ← readInt
  readIf (test length) (read length) old

/-- The test `length != 0`. -/
abbrev Nonzero (length : BitVec 32) : Prop := length ≠ 0

/-- The test `length > 0`. -/
abbrev Positive (length : BitVec 32) : Prop := 0 < length.toInt

/-! ### Numbers -/

/-- A number that is an `int` survives `intValue`. -/
theorem NSNumber.ofInt_intValue {number : NSNumber} (h : number.Fits) :
    ofInt number.intValue = number := by
  obtain ⟨hlow, hhigh⟩ := h
  apply BitVec.eq_of_toInt_eq
  rw [ofInt, intValue, BitVec.toInt_signExtend_of_le (by decide), BitVec.toInt_setWidth]
  have hnat := BitVec.toInt_eq_toNat_bmod number
  rw [Int.bmod_def] at hnat
  rw [Int.bmod_def]
  omega

/-- The number of an `int` is one. -/
theorem NSNumber.fits_ofInt (value : BitVec 32) : (ofInt value).Fits := by
  have hlow := BitVec.le_toInt value
  have hhigh := BitVec.toInt_lt (x := value)
  rw [Fits, ofInt, BitVec.toInt_signExtend_of_le (by decide)]
  omega

/-! ### What is written -/

/-- A block behind its length. -/
def counted (bytes : List UInt8) : List UInt8 := toLE 4 bytes.length ++ bytes

@[simp] theorem length_counted (bytes : List UInt8) :
    (counted bytes).length = 4 + bytes.length := by
  rw [counted, List.length_append, length_toLE]

/-- The low bytes of a number are those of its remainder. -/
theorem toLE_mod (n v : ℕ) : toLE n (v % 256 ^ n) = toLE n v := by
  have hlength := length_toLE n v
  have h := toLE_leNat (toLE n v)
  rwa [hlength, leNat_toLE] at h

variable {bound : ℕ}

theorem appends_bytes (bytes : List UInt8) : Appends bound (appendBytes bytes) bytes :=
  fun _ _ => rfl

theorem appends_byte (value : UInt8) : Appends bound (appendByte value) [value] :=
  appends_bytes _

theorem appends_short (value : BitVec 16) :
    Appends bound (appendShort value) (toLE 2 value.toNat) :=
  appends_bytes _

theorem appends_int (value : BitVec 32) : Appends bound (appendInt value) (toLE 4 value.toNat) :=
  appends_bytes _

theorem appends_long (value : BitVec 64) :
    Appends bound (appendLong value) (toLE 8 value.toNat) :=
  appends_bytes _

/-- A length is written modulo `2 ^ 32`. -/
theorem appends_length (n : ℕ) :
    Appends bound (appendInt (BitVec.ofNat 32 n)) (toLE 4 n) := by
  have h : Appends bound (appendInt (BitVec.ofNat 32 n)) _ := appends_int (BitVec.ofNat 32 n)
  rwa [BitVec.toNat_ofNat, show 2 ^ 32 = 256 ^ 4 from rfl, toLE_mod] at h

theorem appends_counted (bytes : List UInt8) :
    Appends bound (appendCounted bytes) (counted bytes) :=
  (appends_length _).seq (appends_bytes _)

theorem appends_text (string : Option String) :
    Appends bound (appendText string) (counted (utf8Data string)) :=
  appends_counted _

/-- Four bytes are replaced where they stand. -/
theorem replaceBytes_of_lt {data field rest : List UInt8} (value : BitVec 32)
    (hdata : data.length < 2147483648) (hfield : field.length = 4) :
    replaceBytes (BitVec.ofNat 32 data.length) value (data ++ field ++ rest) =
      some ((), data ++ (toLE 4 value.toNat ++ rest)) := by
  have hlocation : (BitVec.ofNat 32 data.length).toNat = data.length := by
    rw [BitVec.toNat_ofNat]
    omega
  have hsigned : ¬ (BitVec.ofNat 32 data.length).toInt < 0 := by
    rw [BitVec.toInt_eq_toNat_cond, hlocation]
    split <;> omega
  have hinside : ¬ (data ++ field ++ rest).length < data.length := by
    rw [List.length_append, List.length_append]
    omega
  have hafter : (data ++ field).length = data.length + 4 := by
    rw [List.length_append, hfield]
  have hbefore : (data ++ field ++ rest).take data.length = data := by
    rw [List.append_assoc, List.take_left]
  rw [replaceBytes, hlocation, if_neg (not_or.mpr ⟨hsigned, hinside⟩), List.drop_left' hafter,
    hbefore, List.append_assoc]

/-- **The length of a block stands before it**, as long as the data stays below `2 ^ 31` bytes. -/
theorem appends_withDataLength {block : Writer} {bytes : List UInt8}
    (h : Appends 2147483648 block bytes) :
    Appends 2147483648 (withDataLength block) (counted bytes) := by
  intro data hdata
  rw [length_counted] at hdata
  have hblock := h (data ++ toLE 4 0) (by rw [List.length_append, length_toLE]; omega)
  have hlength : BitVec.ofNat 32 (data ++ toLE 4 0 ++ bytes).length -
      BitVec.ofNat 32 data.length - 4 = BitVec.ofNat 32 bytes.length := by
    rw [List.length_append, List.length_append, length_toLE]
    bv_omega
  calc withDataLength block data
      = (block (data ++ toLE 4 0)).bind fun r =>
          replaceBytes (BitVec.ofNat 32 data.length)
            (BitVec.ofNat 32 r.2.length - BitVec.ofNat 32 data.length - 4) r.2 := rfl
    _ = replaceBytes (BitVec.ofNat 32 data.length) (BitVec.ofNat 32 bytes.length)
          (data ++ toLE 4 0 ++ bytes) := by rw [hblock, Option.bind_some, hlength]
    _ = some ((), data ++ counted bytes) := by
        rw [replaceBytes_of_lt _ (by omega) (length_toLE 4 0), counted, BitVec.toNat_ofNat,
          show 2 ^ 32 = 256 ^ 4 from rfl, toLE_mod]

/-! ### What is read -/

/-- What fits into a buffer of its length fills it. -/
theorem reads_into {buffer bytes : List UInt8} (h : buffer.length = bytes.length) :
    Reads (readInto buffer) bytes bytes := by
  intro rest
  have hdrop : buffer.drop (bytes ++ rest).length = [] :=
    List.drop_eq_nil_of_le (by rw [List.length_append]; omega)
  rw [readInto, h, List.take_left, List.drop_left, hdrop, List.append_nil]

theorem reads_byte (value : UInt8) : Reads readByte [value] value :=
  (reads_into (show [(0 : UInt8)].length = [value].length from rfl)).last

theorem reads_short (value : BitVec 16) : Reads readShort (toLE 2 value.toNat) value := by
  have h : Reads readShort (toLE 2 value.toNat) (BitVec.ofNat 16 (leNat (toLE 2 value.toNat))) :=
    (reads_into (by rw [length_toLE, length_toLE])).last
  rwa [leNat_toLE_of_lt value.isLt, BitVec.ofNat_toNat, BitVec.setWidth_eq] at h

theorem reads_int (value : BitVec 32) : Reads readInt (toLE 4 value.toNat) value := by
  have h : Reads readInt (toLE 4 value.toNat) (BitVec.ofNat 32 (leNat (toLE 4 value.toNat))) :=
    (reads_into (by rw [length_toLE, length_toLE])).last
  rwa [leNat_toLE_of_lt value.isLt, BitVec.ofNat_toNat, BitVec.setWidth_eq] at h

theorem reads_longInto (old value : BitVec 64) :
    Reads (readLongInto old) (toLE 8 value.toNat) value := by
  have h : Reads (readLongInto old) (toLE 8 value.toNat)
      (BitVec.ofNat 64 (leNat (toLE 8 value.toNat))) :=
    (reads_into (by rw [length_toLE, length_toLE])).last
  rwa [leNat_toLE_of_lt value.isLt, BitVec.ofNat_toNat, BitVec.setWidth_eq] at h

theorem reads_long (value : BitVec 64) : Reads readLong (toLE 8 value.toNat) value :=
  reads_longInto 0 value

/-- A length is read back. -/
theorem reads_length (n : ℕ) : Reads readInt (toLE 4 n) (BitVec.ofNat 32 n) := by
  have h := reads_int (BitVec.ofNat 32 n)
  rwa [BitVec.toNat_ofNat, show 2 ^ 32 = 256 ^ 4 from rfl, toLE_mod] at h

theorem toNat_ofNat {n : ℕ} (h : n < 2147483648) : (BitVec.ofNat 32 n).toNat = n := by
  rw [BitVec.toNat_ofNat]
  omega

theorem reads_allocated {bytes : List UInt8} (h : bytes.length < 2147483648) :
    Reads (readAllocated runtime (BitVec.ofNat 32 bytes.length)) bytes bytes := by
  have hlength : ¬ (BitVec.ofNat 32 bytes.length).toInt < 0 := by
    rw [toInt_length h]
    omega
  rw [readAllocated, if_neg hlength, toNat_ofNat h]
  exact reads_into (runtime.length_malloc _)

theorem reads_string {string : String} (h : (utf8 string).length < 2147483648) :
    Reads (readString runtime (BitVec.ofNat 32 (utf8 string).length)) (utf8 string)
      (some string) := by
  have hread : Reads (readString runtime (BitVec.ofNat 32 (utf8 string).length)) (utf8 string)
      (stringWithUTF8 (utf8 string)) :=
    (reads_allocated runtime h).last
  rwa [stringWithUTF8_utf8] at hread

/-- The characters of a string that may be `nil`. -/
def text (string : Option String) : String := string.getD ""

theorem utf8Data_eq (string : Option String) : utf8Data string = utf8 (text string) := by
  cases string with
  | none => rfl
  | some string => rfl

/-- Only the empty string has no bytes. -/
theorem eq_empty_of_utf8 {string : String} (h : utf8 string = []) : string = "" := by
  have hstring := stringWithUTF8_utf8 string
  rw [h] at hstring
  exact (Option.some.inj ((stringWithUTF8_utf8 "").symm.trans hstring)).symm

variable {string : String}

theorem reads_text (h : (utf8 string).length < 2147483648) :
    Reads (readText runtime) (counted (utf8 string)) (some string) :=
  (reads_length _).bind (reads_string runtime h)

/-- What is not empty is read, and for what is empty the old value stays. -/
theorem reads_tested {α : Type} {test : BitVec 32 → Prop} [DecidablePred test]
    {read : BitVec 32 → Parser α} {old value : α} {bytes : List UInt8}
    (htest : ∀ n < 2147483648, test (BitVec.ofNat 32 n) ↔ n ≠ 0)
    (h : bytes.length < 2147483648) (hempty : bytes = [] → value = old)
    (hread : bytes ≠ [] → Reads (read (BitVec.ofNat 32 bytes.length)) bytes value) :
    Reads (readTested test read old) (counted bytes) value := by
  refine (reads_length _).bind ?_
  rcases eq_or_ne bytes [] with rfl | hne
  · have hfails : ¬ test (BitVec.ofNat 32 ([] : List UInt8).length) := fun hpasses =>
      (htest 0 (by omega)).mp hpasses rfl
    rw [readIf, if_neg hfails, hempty rfl]
    exact Reads.pure old
  · rw [readIf, if_pos ((htest _ h).mpr fun hzero => hne (List.eq_nil_of_length_eq_zero hzero))]
    exact hread hne

theorem nonzero_ofNat (n : ℕ) (h : n < 2147483648) : Nonzero (BitVec.ofNat 32 n) ↔ n ≠ 0 := by
  refine not_congr ⟨fun hzero => ?_, fun hzero => ?_⟩
  · rw [← toNat_ofNat h, hzero]
    rfl
  · rw [hzero]
    rfl

theorem positive_ofNat (n : ℕ) (h : n < 2147483648) : Positive (BitVec.ofNat 32 n) ↔ n ≠ 0 := by
  rw [Positive, toInt_length h]
  omega

/-- The string that is read of these characters if the empty string stays `nil`. -/
def nonEmpty (string : String) : Option String := if utf8 string = [] then none else some string

@[simp] theorem text_nonEmpty (string : String) : text (nonEmpty string) = string := by
  rw [nonEmpty]
  split
  · next hempty => exact (eq_empty_of_utf8 hempty).symm
  · rfl

section

variable {test : BitVec 32 → Prop} [DecidablePred test]

/-- A string behind a tested length. -/
theorem reads_testedText (htest : ∀ n < 2147483648, test (BitVec.ofNat 32 n) ↔ n ≠ 0)
    (h : (utf8 string).length < 2147483648) :
    Reads (readTested test (readString runtime) none) (counted (utf8 string))
      (nonEmpty string) := by
  refine reads_tested htest h (fun hempty => if_pos hempty) fun hne => ?_
  rw [nonEmpty, if_neg hne]
  exact reads_string runtime h

/-- The bytes of an object that may be `nil`. -/
def archived : Option Object → List UInt8
  | none => []
  | some object => runtime.archivedDataWithRootObject object

/-- An archived object behind a tested length. -/
theorem reads_testedObject (htest : ∀ n < 2147483648, test (BitVec.ofNat 32 n) ↔ n ≠ 0)
    (object : Option Object) (h : (archived runtime object).length < 2147483648) :
    Reads (readTested test (readObject runtime) none) (counted (archived runtime object))
      object := by
  cases object with
  | none => exact reads_tested htest h (fun _ => rfl) fun hne => absurd rfl hne
  | some object =>
      refine reads_tested htest h (fun hempty => ?_) fun _ => ?_
      · exact absurd hempty (runtime.archived_ne_nil object)
      · have hread : Reads
            (readObject runtime (BitVec.ofNat 32 (archived runtime (some object)).length))
            (archived runtime (some object))
            (runtime.unarchiveObjectWithData (archived runtime (some object))) :=
          (reads_allocated runtime h).last
        have hobject : runtime.unarchiveObjectWithData (archived runtime (some object)) =
            some object := runtime.unarchive_archived object
        rwa [hobject] at hread

end

end Telegraph.Media
