import Telegraph.Lib.Memory

/-!
# The Key-Value Encoder

`PSKeyValueEncoder` appends fields to a block of data: the length of the key, the key, the type of
the value and the value. Objects, arrays and dictionaries write four bytes for their length first
and put the length there when the rest is written. An object is the name of its class and the
fields that its `encodeWithKeyValueCoder:` writes, in turn with values that may be objects.

## Main results

* `encodeValue_append`, `encodeFields_append`: **the encoder only appends**.
* `encodeFields_cons`, `encodeObjectValue_mk`, `encodeValue_array`, `encodeValue_int32Dictionary`:
  what is appended, with the lengths in their places.
-/

namespace Telegraph.Coder

open Bytes Memory

/-- `PSKeyValueCoderFieldType`. -/
inductive FieldType where
  | string
  | int32
  | int64
  | customClass
  | array
  | data
  | int32Array
  | int32Dictionary
  | double
deriving DecidableEq

/-- The byte of a type. -/
def FieldType.raw : FieldType → UInt8
  | .string => 1
  | .int32 => 2
  | .int64 => 3
  | .customClass => 4
  | .array => 5
  | .data => 6
  | .int32Array => 7
  | .int32Dictionary => 8
  | .double => 9

/-- The type of a byte. -/
def FieldType.ofRaw (raw : UInt8) : Option FieldType :=
  match raw.toNat with
  | 1 => some .string
  | 2 => some .int32
  | 3 => some .int64
  | 4 => some .customClass
  | 5 => some .array
  | 6 => some .data
  | 7 => some .int32Array
  | 8 => some .int32Dictionary
  | 9 => some .double
  | _ => none

/-- The name of a class, without a zero byte. -/
structure ClassName where
  bytes : List UInt8
  no_zero : 0 ∉ bytes

mutual

/-- A value that the encoder writes for a key. -/
inductive Value where
  | string (string : String)
  | int32 (number : BitVec 32)
  | int64 (number : BitVec 64)
  | customClass (object : CodedObject)
  | array (objects : List CodedObject)
  | data (bytes : List UInt8)
  | int32Array (numbers : List (BitVec 32))
  | int32Dictionary (entries : List (BitVec 32 × CodedObject))
  | double (bits : BitVec 64)

/-- An object: its class and the fields it writes. -/
inductive CodedObject where
  | mk (className : ClassName) (fields : List (List UInt8 × Value))

end

/-- The fields of an object, or of the data as a whole: keys and values. -/
abbrev Fields := List (List UInt8 × Value)

namespace CodedObject

def className : CodedObject → ClassName
  | mk className _ => className

def fields : CodedObject → Fields
  | mk _ fields => fields

end CodedObject

/-- The type that is written before a value. -/
def Value.fieldType : Value → FieldType
  | .string _ => .string
  | .int32 _ => .int32
  | .int64 _ => .int64
  | .customClass _ => .customClass
  | .array _ => .array
  | .data _ => .data
  | .int32Array _ => .int32Array
  | .int32Dictionary _ => .int32Dictionary
  | .double _ => .double

/-- The UTF-8 bytes of a string. -/
def utf8 (string : String) : List UInt8 := string.toUTF8.data.toList

/-! ### The writer -/

/-- `writeLength`, of a length cast to `uint32_t`. -/
def writeLength (value : ℕ) (data : List UInt8) : List UInt8 :=
  data ++ varint 4 (value % 4294967296)

/-- Place for a length, which is patched when the rest is written. -/
def reserveLength (data : List UInt8) : List UInt8 := data ++ toLE 4 0

/-- The length of what is behind the place at `position` is put there. -/
def patchLength (position : ℕ) (data : List UInt8) : List UInt8 :=
  data.take position ++ toLE 4 (data.length - position - 4) ++ data.drop (position + 4)

/-- The key and the type of a field. -/
def encodeKey (key : List UInt8) (fieldType : FieldType) (data : List UInt8) : List UInt8 :=
  writeLength key.length data ++ key ++ [fieldType.raw]

mutual

/-- The value of a field, as the method for its type writes it behind key and type. -/
def encodeValue : Value → List UInt8 → List UInt8
  | .string string, data => writeLength (utf8 string).length data ++ utf8 string
  | .int32 number, data => data ++ toLE 4 number.toNat
  | .int64 number, data => data ++ toLE 8 number.toNat
  | .customClass object, data => encodeObjectValue object data
  | .array objects, data =>
      patchLength data.length
        (encodeObjects objects (writeLength objects.length (reserveLength data)))
  | .data bytes, data => writeLength bytes.length data ++ bytes
  | .int32Array numbers, data =>
      data ++ toLE 4 numbers.length ++ numbers.flatMap fun number => toLE 4 number.toNat
  | .int32Dictionary entries, data =>
      patchLength data.length
        (encodeEntries entries (writeLength entries.length (reserveLength data)))
  | .double bits, data => data ++ toLE 8 bits.toNat

/-- `encodeObjectValue`. -/
def encodeObjectValue : CodedObject → List UInt8 → List UInt8
  | .mk className fields, data =>
      patchLength data.length (encodeFields fields (reserveLength data ++ className.bytes ++ [0]))

/-- The objects of an array. -/
def encodeObjects : List CodedObject → List UInt8 → List UInt8
  | [], data => data
  | object :: objects, data => encodeObjects objects (encodeObjectValue object data)

/-- The entries of a dictionary. -/
def encodeEntries : List (BitVec 32 × CodedObject) → List UInt8 → List UInt8
  | [], data => data
  | (key, object) :: entries, data =>
      encodeEntries entries (encodeObjectValue object (data ++ toLE 4 key.toNat))

/-- `encodeWithKeyValueCoder:`, one call for each field. -/
def encodeFields : List (List UInt8 × Value) → List UInt8 → List UInt8
  | [], data => data
  | (key, value) :: fields, data =>
      encodeFields fields (encodeValue value (encodeKey key value.fieldType data))

end

/-! ### The encoder appends -/

section Appends

variable {object : CodedObject} {objects : List CodedObject} {key : List UInt8} {value : Value}
  {fields : Fields} {entries : List (BitVec 32 × CodedObject)}

/-- What is appended is what is written to empty data. -/
theorem append_of_forall {f : List UInt8 → List UInt8} {bytes : List UInt8}
    (h : ∀ data, f data = data ++ bytes) (data : List UInt8) : f data = data ++ f [] := by
  rw [h data, h [], List.nil_append]

/-- The length of what has been appended is put in its place. -/
theorem patchLength_append (data bytes : List UInt8) :
    patchLength data.length (reserveLength data ++ bytes) =
      data ++ (toLE 4 bytes.length ++ bytes) := by
  have hplace : (reserveLength data).length = data.length + 4 := by
    rw [reserveLength, List.length_append, length_toLE]
  have htake : (reserveLength data ++ bytes).take data.length = data := by
    rw [reserveLength, List.append_assoc, List.take_left]
  have hdrop : (reserveLength data ++ bytes).drop (data.length + 4) = bytes :=
    List.drop_left' hplace
  have hlength : (reserveLength data ++ bytes).length - data.length - 4 = bytes.length := by
    rw [List.length_append, hplace]
    omega
  rw [patchLength, htake, hdrop, hlength, List.append_assoc]

theorem writeLength_append (value : ℕ) (data : List UInt8) :
    writeLength value data = data ++ writeLength value [] := by
  rw [writeLength, writeLength, List.nil_append]

theorem encodeKey_append (key : List UInt8) (fieldType : FieldType) (data : List UInt8) :
    encodeKey key fieldType data = data ++ encodeKey key fieldType [] := by
  rw [encodeKey, encodeKey, writeLength_append, List.append_assoc, List.append_assoc,
    List.append_assoc]

/-- An object whose fields are appended is appended, behind its length and class. -/
theorem encodeObjectValue_of (className : ClassName)
    (h : ∀ data, encodeFields fields data = data ++ encodeFields fields []) (data : List UInt8) :
    encodeObjectValue (.mk className fields) data = data ++
      (toLE 4 (className.bytes ++ [0] ++ encodeFields fields []).length ++
        (className.bytes ++ [0] ++ encodeFields fields [])) := by
  rw [encodeObjectValue, h, List.append_assoc, List.append_assoc,
    ← List.append_assoc className.bytes, patchLength_append]

/-- An array whose objects are appended is appended, behind its length and count. -/
theorem encodeValue_array_of
    (h : ∀ data, encodeObjects objects data = data ++ encodeObjects objects [])
    (data : List UInt8) :
    encodeValue (.array objects) data = data ++
      (toLE 4 (writeLength objects.length [] ++ encodeObjects objects []).length ++
        (writeLength objects.length [] ++ encodeObjects objects [])) := by
  rw [encodeValue, h, writeLength_append, List.append_assoc, patchLength_append]

/-- A dictionary whose entries are appended is appended, behind its length and count. -/
theorem encodeValue_int32Dictionary_of
    (h : ∀ data, encodeEntries entries data = data ++ encodeEntries entries [])
    (data : List UInt8) :
    encodeValue (.int32Dictionary entries) data = data ++
      (toLE 4 (writeLength entries.length [] ++ encodeEntries entries []).length ++
        (writeLength entries.length [] ++ encodeEntries entries [])) := by
  rw [encodeValue, h, writeLength_append, List.append_assoc, patchLength_append]

theorem encodeObjects_cons_of
    (hobject : ∀ data, encodeObjectValue object data = data ++ encodeObjectValue object [])
    (hobjects : ∀ data, encodeObjects objects data = data ++ encodeObjects objects [])
    (data : List UInt8) :
    encodeObjects (object :: objects) data =
      data ++ (encodeObjectValue object [] ++ encodeObjects objects []) := by
  rw [encodeObjects, hobjects, hobject, List.append_assoc]

theorem encodeEntries_cons_of {key : BitVec 32}
    (hobject : ∀ data, encodeObjectValue object data = data ++ encodeObjectValue object [])
    (hentries : ∀ data, encodeEntries entries data = data ++ encodeEntries entries [])
    (data : List UInt8) :
    encodeEntries ((key, object) :: entries) data =
      data ++ (toLE 4 key.toNat ++ (encodeObjectValue object [] ++ encodeEntries entries [])) := by
  rw [encodeEntries, hentries, hobject, List.append_assoc, List.append_assoc]

theorem encodeFields_cons_of
    (hvalue : ∀ data, encodeValue value data = data ++ encodeValue value [])
    (hfields : ∀ data, encodeFields fields data = data ++ encodeFields fields [])
    (data : List UInt8) :
    encodeFields ((key, value) :: fields) data =
      data ++ (encodeKey key value.fieldType [] ++
        (encodeValue value [] ++ encodeFields fields [])) := by
  rw [encodeFields, hfields, hvalue, encodeKey_append, List.append_assoc, List.append_assoc]

mutual

/-- **The encoder only appends.** -/
theorem encodeValue_append (value : Value) (data : List UInt8) :
    encodeValue value data = data ++ encodeValue value [] := by
  match value with
  | .string string => rw [encodeValue, encodeValue, writeLength_append, List.append_assoc]
  | .int32 number => rw [encodeValue, encodeValue, List.nil_append]
  | .int64 number => rw [encodeValue, encodeValue, List.nil_append]
  | .customClass object => rw [encodeValue, encodeValue, encodeObjectValue_append]
  | .array objects =>
      exact append_of_forall (encodeValue_array_of (encodeObjects_append objects)) data
  | .data bytes => rw [encodeValue, encodeValue, writeLength_append, List.append_assoc]
  | .int32Array numbers => rw [encodeValue, encodeValue, List.nil_append, List.append_assoc]
  | .int32Dictionary entries =>
      exact append_of_forall (encodeValue_int32Dictionary_of (encodeEntries_append entries)) data
  | .double bits => rw [encodeValue, encodeValue, List.nil_append]

theorem encodeObjectValue_append (object : CodedObject) (data : List UInt8) :
    encodeObjectValue object data = data ++ encodeObjectValue object [] := by
  match object with
  | .mk className fields =>
      exact append_of_forall (encodeObjectValue_of className (encodeFields_append fields)) data

theorem encodeObjects_append (objects : List CodedObject) (data : List UInt8) :
    encodeObjects objects data = data ++ encodeObjects objects [] := by
  match objects with
  | [] => rw [encodeObjects, encodeObjects, List.append_nil]
  | object :: objects =>
      exact append_of_forall (encodeObjects_cons_of (encodeObjectValue_append object)
        (encodeObjects_append objects)) data

theorem encodeEntries_append (entries : List (BitVec 32 × CodedObject)) (data : List UInt8) :
    encodeEntries entries data = data ++ encodeEntries entries [] := by
  match entries with
  | [] => rw [encodeEntries, encodeEntries, List.append_nil]
  | (_, object) :: entries =>
      exact append_of_forall (encodeEntries_cons_of (encodeObjectValue_append object)
        (encodeEntries_append entries)) data

theorem encodeFields_append (fields : List (List UInt8 × Value)) (data : List UInt8) :
    encodeFields fields data = data ++ encodeFields fields [] := by
  match fields with
  | [] => rw [encodeFields, encodeFields, List.append_nil]
  | (_, value) :: fields =>
      exact append_of_forall (encodeFields_cons_of (encodeValue_append value)
        (encodeFields_append fields)) data

end

end Appends

/-! ### What is appended -/

section Written

variable (object : CodedObject) (objects : List CodedObject) (key : List UInt8) (value : Value)
  (fields : Fields) (entries : List (BitVec 32 × CodedObject))

theorem encodeObjectValue_mk (className : ClassName) :
    encodeObjectValue (.mk className fields) [] =
      toLE 4 (className.bytes ++ [0] ++ encodeFields fields []).length ++
        (className.bytes ++ [0] ++ encodeFields fields []) :=
  encodeObjectValue_of className (encodeFields_append fields) []

theorem encodeValue_array :
    encodeValue (.array objects) [] =
      toLE 4 (writeLength objects.length [] ++ encodeObjects objects []).length ++
        (writeLength objects.length [] ++ encodeObjects objects []) :=
  encodeValue_array_of (encodeObjects_append objects) []

theorem encodeValue_int32Dictionary :
    encodeValue (.int32Dictionary entries) [] =
      toLE 4 (writeLength entries.length [] ++ encodeEntries entries []).length ++
        (writeLength entries.length [] ++ encodeEntries entries []) :=
  encodeValue_int32Dictionary_of (encodeEntries_append entries) []

theorem encodeObjects_cons :
    encodeObjects (object :: objects) [] = encodeObjectValue object [] ++ encodeObjects objects [] :=
  encodeObjects_cons_of (encodeObjectValue_append object) (encodeObjects_append objects) []

theorem encodeEntries_cons (key : BitVec 32) :
    encodeEntries ((key, object) :: entries) [] =
      toLE 4 key.toNat ++ (encodeObjectValue object [] ++ encodeEntries entries []) :=
  encodeEntries_cons_of (encodeObjectValue_append object) (encodeEntries_append entries) []

theorem encodeFields_cons :
    encodeFields ((key, value) :: fields) [] =
      encodeKey key value.fieldType [] ++ (encodeValue value [] ++ encodeFields fields []) :=
  encodeFields_cons_of (encodeValue_append value) (encodeFields_append fields) []

/-- Fields are written one list after the other. -/
theorem encodeFields_append_fields (others : Fields) :
    encodeFields (fields ++ others) [] = encodeFields fields [] ++ encodeFields others [] := by
  induction fields with
  | nil => rw [List.nil_append, encodeFields, List.nil_append]
  | cons field fields ih =>
      obtain ⟨key, value⟩ := field
      rw [List.cons_append, encodeFields_cons, encodeFields_cons, ih, List.append_assoc,
        List.append_assoc]

end Written

end Telegraph.Coder
