import Telegraph.TL.Streams

/-!
# The Fields of a Constructor

`TLMetaConstructor::serialize` writes the fields of an object one behind the other, each from the
value that the object gives for it, and `TLMetaConstructor::construct` reads them in the same order.
What is written for a value of one kind in a field of one category is a table written out by hand,
in `writeValueWithType`. Its rows for the values that are neither strings nor data have no cell for
a field of bytes: nothing is written there, not even the signature of a boxed field.

## Main results

* `encoded_read`: a value with a full cell is written, and read back in front of anything.
* `missing_of_read`: what has no full cell is read back only where a bare field of bytes ends the
  stream.
* `staysInStep_iff`: **the fields are read back exactly when each has a full cell, up to bare fields
  of bytes at the end.**
-/

open Bytes

namespace Telegraph.TL

open Telegraph.Coder (utf8 stringWithUTF8 stringWithUTF8_utf8)
open Telegraph.MtProto (tlBytes)

/-! ### Values and types -/

/-- `TL_INT32_CONSTRUCTOR`. -/
def int32Constructor : BitVec 32 := 0xA8509BDA

/-- `TL_INT64_CONSTRUCTOR`. -/
def int64Constructor : BitVec 32 := 0x22076CBA

/-- `TL_INT128_CONSTRUCTOR`. -/
def int128Constructor : BitVec 32 := 0x4BB5362B

/-- `TL_INT256_CONSTRUCTOR`. -/
def int256Constructor : BitVec 32 := 0x0929C32F

/-- `TL_DOUBLE_CONSTRUCTOR`. -/
def doubleConstructor : BitVec 32 := 0x2210C154

/-- `TL_STRING_CONSTRUCTOR`. -/
def stringConstructor : BitVec 32 := 0xB5286E24

/-- `TL_BYTES_CONSTRUCTOR`. -/
def bytesConstructor : BitVec 32 := 0xEBEFB69E

/-- `TL_BOOL_TRUE_CONSTRUCTOR`. -/
def boolTrueConstructor : BitVec 32 := 0x997275B5

/-- `TL_BOOL_FALSE_CONSTRUCTOR`. -/
def boolFalseConstructor : BitVec 32 := 0xBC799737

/-- `TL_NULL_CONSTRUCTOR`. -/
def nullConstructor : BitVec 32 := 0x56730BCC

/-- `TL_UNIVERSAL_VECTOR_CONSTRUCTOR`. -/
def universalVectorConstructor : BitVec 32 := 0x1cb5c415

/-- `TLConstructedValue`: the primitive or the native object of its type, which can be `nil`. A
`double` is its bits. -/
inductive TLConstructedValue (Obj : Type) where
  | empty
  | object (nativeObject : Option Obj)
  | int32 (int32Value : BitVec 32)
  | int64 (int64Value : BitVec 64)
  | double (doubleValue : BitVec 64)
  | bool (boolValue : Bool)
  | string (nativeObject : Option String)
  | bytes (nativeObject : Option (List UInt8))
  | vector (nativeObject : Option (List Obj))
deriving DecidableEq

/-- `TLMetaTypeCategory`, without objects and vectors. -/
inductive TLMetaTypeCategory where
  | builtinInt32
  | builtinInt64
  | builtinInt128
  | builtinInt256
  | builtinString
  | builtinBytes
  | builtinDouble
  | builtinBool
deriving DecidableEq

/-- `TLMetaTypeArgument`, with the category of its type. -/
structure TLMetaTypeArgument where
  boxed : Bool
  unboxedConstructorSignature : BitVec 32
  category : TLMetaTypeCategory
deriving DecidableEq

/-- `createTypeArgumentFromString`, on the names of the builtin types; every other name is the one
of an object or a vector. -/
def createTypeArgumentFromString (desc : String) : Option TLMetaTypeArgument :=
  if desc = "int" then some ⟨false, int32Constructor, .builtinInt32⟩
  else if desc = "Int" then some ⟨true, 0, .builtinInt32⟩
  else if desc = "long" then some ⟨false, int64Constructor, .builtinInt64⟩
  else if desc = "Long" then some ⟨true, 0, .builtinInt64⟩
  else if desc = "int128" then some ⟨false, int128Constructor, .builtinInt128⟩
  else if desc = "int256" then some ⟨false, int256Constructor, .builtinInt256⟩
  else if desc = "double" then some ⟨false, doubleConstructor, .builtinDouble⟩
  else if desc = "Double" then some ⟨true, 0, .builtinDouble⟩
  else if desc = "string" then some ⟨false, stringConstructor, .builtinString⟩
  else if desc = "String" then some ⟨true, 0, .builtinString⟩
  else if desc = "bytes" then some ⟨false, bytesConstructor, .builtinBytes⟩
  else if desc = "Bytes" then some ⟨true, 0, .builtinBytes⟩
  else if desc = "Bool" then some ⟨true, 0, .builtinBool⟩
  else none

/-- `TLMetaField`, of a type that the scheme names. -/
structure TLMetaField where
  name : BitVec 32
  type : TLMetaTypeArgument
  compiled : ∃ desc, createTypeArgumentFromString desc = some type

/-- The conversions of C between a `double` and the integers, and its comparison with `0.0`. -/
structure Doubles where
  ofInt32 : BitVec 32 → BitVec 64
  ofInt64 : BitVec 64 → BitVec 64
  toInt32 : BitVec 64 → BitVec 32
  toInt64 : BitVec 64 → BitVec 64
  nonzero : BitVec 64 → Bool

/-! ### The writer -/

variable {Obj : Type}

/-- The signature in front of a boxed value. -/
def writeBoxed (type : TLMetaTypeArgument) (signature : BitVec 32) : List UInt8 :=
  if type.boxed then writeInt32 signature else []

/-- The zeros of an `int128` without a value. -/
def zeros128 : List UInt8 := writeInt64 0 ++ writeInt64 0

/-- The zeros of an `int256` without a value. -/
def zeros256 : List UInt8 := writeInt64 0 ++ writeInt64 0 ++ writeInt64 0 ++ writeInt64 0

/-- `writeData:` for data of the right length, or the zeros. The length of `nil` is 0. -/
def writeData (length : ℕ) (data : Option (List UInt8)) (zeros : List UInt8) : List UInt8 :=
  if (data.getD []).length = length then data.getD [] else zeros

/-- The signature of a `bool`. -/
def boolConstructor (value : Bool) : BitVec 32 :=
  if value then boolTrueConstructor else boolFalseConstructor

/-- The number that is written for a `bool`. -/
def boolNumber (value : Bool) : BitVec 32 := if value then 1 else 0

/-- `writeValueWithType`. An array has neither the length of data nor the bytes of a string, and
asking it for them raises. -/
def writeValueWithType (doubles : Doubles) (value : TLConstructedValue Obj)
    (type : TLMetaTypeArgument) : Option (List UInt8) :=
  match value with
  | .empty =>
      match type.category with
      | .builtinInt32 => some (writeBoxed type int32Constructor ++ writeInt32 0)
      | .builtinInt64 => some (writeBoxed type int64Constructor ++ writeInt64 0)
      | .builtinInt128 => some (writeBoxed type int128Constructor ++ zeros128)
      | .builtinInt256 => some (writeBoxed type int256Constructor ++ zeros256)
      | .builtinString => (writeString none).map (writeBoxed type stringConstructor ++ ·)
      | .builtinDouble => some (writeBoxed type doubleConstructor ++ writeInt64 0)
      | .builtinBool => some (writeBoxed type boolFalseConstructor)
      | .builtinBytes => some []
  | .object _ =>
      match type.category with
      | .builtinInt32 => some (writeBoxed type int32Constructor ++ writeInt32 0)
      | .builtinInt64 => some (writeBoxed type int64Constructor ++ writeInt64 0)
      | .builtinInt128 => some (writeBoxed type int128Constructor ++ zeros128)
      | .builtinInt256 => some (writeBoxed type int256Constructor ++ zeros256)
      | .builtinString => (writeString none).map (writeBoxed type stringConstructor ++ ·)
      | .builtinDouble => some (writeBoxed type doubleConstructor ++ writeInt64 0)
      | .builtinBool => some (writeBoxed type boolFalseConstructor)
      | .builtinBytes => some []
  | .int32 int32Value =>
      match type.category with
      | .builtinInt32 => some (writeBoxed type int32Constructor ++ writeInt32 int32Value)
      | .builtinInt64 =>
          some (writeBoxed type int64Constructor ++ writeInt64 (int32Value.signExtend 64))
      | .builtinInt128 => some (writeBoxed type int128Constructor ++ zeros128)
      | .builtinInt256 => some (writeBoxed type int256Constructor ++ zeros256)
      | .builtinString => (writeString none).map (writeBoxed type stringConstructor ++ ·)
      | .builtinDouble =>
          some (writeBoxed type doubleConstructor ++ writeInt64 (doubles.ofInt32 int32Value))
      | .builtinBool => some (writeBoxed type (boolConstructor (int32Value != 0)))
      | .builtinBytes => some []
  | .int64 int64Value =>
      match type.category with
      | .builtinInt32 =>
          some (writeBoxed type int32Constructor ++ writeInt32 (int64Value.setWidth 32))
      | .builtinInt64 => some (writeBoxed type int64Constructor ++ writeInt64 int64Value)
      | .builtinInt128 => some (writeBoxed type int128Constructor ++ zeros128)
      | .builtinInt256 => some (writeBoxed type int256Constructor ++ zeros256)
      | .builtinString => (writeString none).map (writeBoxed type stringConstructor ++ ·)
      | .builtinDouble =>
          some (writeBoxed type doubleConstructor ++ writeInt64 (doubles.ofInt64 int64Value))
      | .builtinBool => some (writeBoxed type (boolConstructor (int64Value != 0)))
      | .builtinBytes => some []
  | .double doubleValue =>
      match type.category with
      | .builtinInt32 =>
          some (writeBoxed type int32Constructor ++ writeInt32 (doubles.toInt32 doubleValue))
      | .builtinInt64 =>
          some (writeBoxed type int64Constructor ++ writeInt64 (doubles.toInt64 doubleValue))
      | .builtinInt128 => some (writeBoxed type int128Constructor ++ zeros128)
      | .builtinInt256 => some (writeBoxed type int256Constructor ++ zeros256)
      | .builtinString => (writeString none).map (writeBoxed type stringConstructor ++ ·)
      | .builtinDouble => some (writeBoxed type doubleConstructor ++ writeInt64 doubleValue)
      | .builtinBool => some (writeBoxed type (boolConstructor (doubles.nonzero doubleValue)))
      | .builtinBytes => some []
  | .bool boolValue =>
      match type.category with
      | .builtinInt32 =>
          some (writeBoxed type int32Constructor ++ writeInt32 (boolNumber boolValue))
      | .builtinInt64 =>
          some (writeBoxed type int64Constructor ++
            writeInt64 ((boolNumber boolValue).signExtend 64))
      | .builtinInt128 => some (writeBoxed type int128Constructor ++ zeros128)
      | .builtinInt256 => some (writeBoxed type int256Constructor ++ zeros256)
      | .builtinString => (writeString none).map (writeBoxed type stringConstructor ++ ·)
      | .builtinDouble =>
          some (writeBoxed type doubleConstructor ++
            writeInt64 (doubles.ofInt32 (boolNumber boolValue)))
      | .builtinBool => some (writeBoxed type (boolConstructor boolValue))
      | .builtinBytes => some []
  | .string nativeObject =>
      match type.category with
      | .builtinInt32 => some (writeBoxed type int32Constructor ++ writeInt32 0)
      | .builtinInt64 => some (writeBoxed type int64Constructor ++ writeInt64 0)
      | .builtinInt128 => some (writeBoxed type int128Constructor ++ zeros128)
      | .builtinInt256 => some (writeBoxed type int256Constructor ++ zeros256)
      | .builtinString => (writeString nativeObject).map (writeBoxed type stringConstructor ++ ·)
      | .builtinBytes =>
          (writeBytes (nativeObject.map utf8)).map (writeBoxed type bytesConstructor ++ ·)
      | .builtinDouble => some (writeBoxed type doubleConstructor ++ writeInt64 0)
      | .builtinBool => some (writeBoxed type boolFalseConstructor)
  | .bytes nativeObject =>
      match type.category with
      | .builtinInt32 => some (writeBoxed type int32Constructor ++ writeInt32 0)
      | .builtinInt64 => some (writeBoxed type int64Constructor ++ writeInt64 0)
      | .builtinInt128 =>
          some (writeBoxed type int128Constructor ++ writeData 16 nativeObject zeros128)
      | .builtinInt256 =>
          some (writeBoxed type int256Constructor ++ writeData 32 nativeObject zeros256)
      | .builtinString => (writeBytes nativeObject).map (writeBoxed type stringConstructor ++ ·)
      | .builtinBytes => (writeBytes nativeObject).map (writeBoxed type bytesConstructor ++ ·)
      | .builtinDouble => some (writeBoxed type doubleConstructor ++ writeInt64 0)
      | .builtinBool => some (writeBoxed type boolFalseConstructor)
  | .vector none =>
      match type.category with
      | .builtinInt32 => some (writeBoxed type int32Constructor ++ writeInt32 0)
      | .builtinInt64 => some (writeBoxed type int64Constructor ++ writeInt64 0)
      | .builtinInt128 => some (writeBoxed type int128Constructor ++ writeData 16 none zeros128)
      | .builtinInt256 => some (writeBoxed type int256Constructor ++ writeData 32 none zeros256)
      | .builtinBytes => (writeBytes none).map (writeBoxed type bytesConstructor ++ ·)
      | .builtinString => (writeString none).map (writeBoxed type bytesConstructor ++ ·)
      | .builtinDouble => some (writeBoxed type doubleConstructor ++ writeInt64 0)
      | .builtinBool => some (writeBoxed type boolFalseConstructor)
  | .vector (some _) =>
      match type.category with
      | .builtinInt32 => some (writeBoxed type int32Constructor ++ writeInt32 0)
      | .builtinInt64 => some (writeBoxed type int64Constructor ++ writeInt64 0)
      | .builtinInt128 => none
      | .builtinInt256 => none
      | .builtinBytes => none
      | .builtinString => none
      | .builtinDouble => some (writeBoxed type doubleConstructor ++ writeInt64 0)
      | .builtinBool => some (writeBoxed type boolFalseConstructor)

/-- The value that is written for a field: the one that the object gives, or the empty one. -/
def fieldValue (fieldValues : BitVec 32 → Option (TLConstructedValue Obj)) (field : TLMetaField) :
    TLConstructedValue Obj :=
  (fieldValues field.name).getD .empty

/-- `TLMetaConstructor::serialize`, from what `TLfillFieldsWithValues:` fills in. -/
def serialize (doubles : Doubles) (fieldValues : BitVec 32 → Option (TLConstructedValue Obj)) :
    List TLMetaField → Option (List UInt8)
  | [] => some []
  | field :: fields => do
      let written ← writeValueWithType doubles (fieldValue fieldValues field) field.type
      let rest ← serialize doubles fieldValues fields
      return written ++ rest

/-! ### The reader -/

/-- `TLMetaClassStore::constructValue`. What it does for the signature of packed data, of an object
or of a vector is given: a value and how many bytes it takes, or an error. -/
def constructValue (other : BitVec 32 → List UInt8 → Option (TLConstructedValue Obj × ℕ))
    (signature : BitVec 32) (is : List UInt8) : Option (TLConstructedValue Obj × List UInt8) :=
  if signature = int32Constructor then
    (readInt32 is).map fun (value, is) => (.int32 value, is)
  else if signature = int64Constructor then
    some (.int64 (readInt64 is).1, (readInt64 is).2)
  else if signature = int128Constructor then
    (readData 16 is).map fun (data, is) => (.bytes (some data), is)
  else if signature = int256Constructor then
    (readData 32 is).map fun (data, is) => (.bytes (some data), is)
  else if signature = stringConstructor then
    (readString is).map fun (data, is) => (.string data, is)
  else if signature = bytesConstructor then
    (readBytes is).map fun (data, is) => (.bytes (some data), is)
  else if signature = doubleConstructor then
    some (.double (readInt64 is).1, (readInt64 is).2)
  else if signature = boolTrueConstructor then
    some (.bool true, is)
  else if signature = boolFalseConstructor then
    some (.bool false, is)
  else if signature = nullConstructor then
    some (.object none, is)
  else
    (other signature is).map fun (value, length) => (value, is.drop length)

/-- The signature of the value of a field, as `TLMetaConstructor::construct` finds it. -/
def readSignature (type : TLMetaTypeArgument) (is : List UInt8) :
    Option (BitVec 32 × List UInt8) :=
  if type.boxed then
    (readInt32 is).map fun (signature, is) =>
      if signature = universalVectorConstructor ∧ type.unboxedConstructorSignature ≠ 0 then
        (type.unboxedConstructorSignature, is)
      else (signature, is)
  else some (type.unboxedConstructorSignature, is)

/-- The value of a field. -/
def constructField (other : BitVec 32 → List UInt8 → Option (TLConstructedValue Obj × ℕ))
    (type : TLMetaTypeArgument) (is : List UInt8) :
    Option (TLConstructedValue Obj × List UInt8) := do
  let (signature, is) ← readSignature type is
  constructValue other signature is

/-- The loop of `TLMetaConstructor::construct`: the values of the fields, and what is left. -/
def construct (other : BitVec 32 → List UInt8 → Option (TLConstructedValue Obj × ℕ)) :
    List TLMetaField → List UInt8 → Option (List (TLConstructedValue Obj) × List UInt8)
  | [], is => some ([], is)
  | field :: fields, is => do
      let (value, is) ← constructField other field.type is
      let (values, is) ← construct other fields is
      return (value :: values, is)

/-! ### Staying in step -/

/-- The default of a category. -/
def defaultValue : TLMetaTypeCategory → TLConstructedValue Obj
  | .builtinInt32 => .int32 0
  | .builtinInt64 => .int64 0
  | .builtinInt128 => .bytes (some zeros128)
  | .builtinInt256 => .bytes (some zeros256)
  | .builtinString => .string (some "")
  | .builtinBytes => .bytes (some [])
  | .builtinDouble => .double 0
  | .builtinBool => .bool false

/-- A value as one of a category: itself, or its conversion where there is one. -/
def conversion (doubles : Doubles) :
    TLMetaTypeCategory → TLConstructedValue Obj → Option (TLConstructedValue Obj)
  | .builtinInt32, .int32 value => some (.int32 value)
  | .builtinInt32, .int64 value => some (.int32 (value.setWidth 32))
  | .builtinInt32, .double value => some (.int32 (doubles.toInt32 value))
  | .builtinInt32, .bool value => some (.int32 (boolNumber value))
  | .builtinInt64, .int32 value => some (.int64 (value.signExtend 64))
  | .builtinInt64, .int64 value => some (.int64 value)
  | .builtinInt64, .double value => some (.int64 (doubles.toInt64 value))
  | .builtinInt64, .bool value => some (.int64 ((boolNumber value).signExtend 64))
  | .builtinDouble, .int32 value => some (.double (doubles.ofInt32 value))
  | .builtinDouble, .int64 value => some (.double (doubles.ofInt64 value))
  | .builtinDouble, .double value => some (.double value)
  | .builtinDouble, .bool value => some (.double (doubles.ofInt32 (boolNumber value)))
  | .builtinBool, .int32 value => some (.bool (value != 0))
  | .builtinBool, .int64 value => some (.bool (value != 0))
  | .builtinBool, .double value => some (.bool (doubles.nonzero value))
  | .builtinBool, .bool value => some (.bool value)
  | .builtinString, .string (some string) => some (.string (some string))
  | .builtinString, .bytes (some data) =>
      (stringWithUTF8 data).map fun string => .string (some string)
  | .builtinBytes, .string (some string) => some (.bytes (some (utf8 string)))
  | .builtinBytes, .bytes (some data) => some (.bytes (some data))
  | .builtinInt128, .bytes (some data) =>
      if data.length = 16 then some (.bytes (some data)) else none
  | .builtinInt256, .bytes (some data) =>
      if data.length = 32 then some (.bytes (some data)) else none
  | _, _ => none

/-- What a value may be read as. -/
def Accepted (doubles : Doubles) (category : TLMetaTypeCategory)
    (value read : TLConstructedValue Obj) : Prop :=
  read = defaultValue category ∨ conversion doubles category value = some read

/-- Field by field, an accepted value is read, and exactly what was written for it is taken. -/
def InStep (doubles : Doubles)
    (other : BitVec 32 → List UInt8 → Option (TLConstructedValue Obj × ℕ))
    (fieldValues : BitVec 32 → Option (TLConstructedValue Obj)) :
    List TLMetaField → List UInt8 → Prop
  | [], output => output = []
  | field :: fields, output => ∃ written rest read,
      writeValueWithType doubles (fieldValue fieldValues field) field.type = some written ∧
      output = written ++ rest ∧
      constructField other field.type output = some (read, rest) ∧
      Accepted doubles field.type.category (fieldValue fieldValues field) read ∧
      InStep doubles other fieldValues fields rest

/-- **The serialisation stays in step**: the object is written, and `construct` reads it field by
field. -/
def StaysInStep (doubles : Doubles)
    (other : BitVec 32 → List UInt8 → Option (TLConstructedValue Obj × ℕ))
    (fieldValues : BitVec 32 → Option (TLConstructedValue Obj)) (fields : List TLMetaField) :
    Prop :=
  ∃ output values, serialize doubles fieldValues fields = some output ∧
    construct other fields output = some (values, []) ∧
    InStep doubles other fieldValues fields output

/-- A value with a full cell in the table. -/
def Encoded (type : TLMetaTypeArgument) (value : TLConstructedValue Obj) : Prop :=
  match type.category, value with
  | .builtinBytes, .string nativeObject => Fits (nativeObject.map utf8)
  | .builtinBytes, .bytes nativeObject => Fits nativeObject
  | .builtinBytes, .vector nativeObject => nativeObject = none
  | .builtinBytes, _ => False
  | .builtinString, .string nativeObject => Fits (nativeObject.map utf8)
  | .builtinString, .bytes nativeObject => Fits nativeObject ∧
      (stringWithUTF8 (nativeObject.getD []) ≠ none ∨ (nativeObject.getD []).length % 2 ^ 32 = 0)
  | .builtinString, .vector nativeObject => nativeObject = none ∧ type.boxed = false
  | .builtinInt128, .vector nativeObject => nativeObject = none
  | .builtinInt256, .vector nativeObject => nativeObject = none
  | _, _ => True

/-- A bare field of bytes for which nothing is written. -/
def Missing (type : TLMetaTypeArgument) (value : TLConstructedValue Obj) : Prop :=
  type.boxed = false ∧ type.category = .builtinBytes ∧
    match value with
    | .string _ => False
    | .bytes _ => False
    | .vector _ => False
    | _ => True

/-! ### What a reader takes -/

section Lengths

variable {is rest : List UInt8}

/-- `readInt32` takes four bytes. -/
theorem readInt32_length {value : BitVec 32} (h : readInt32 is = some (value, rest)) :
    rest.length + 4 = is.length := by
  rw [readInt32] at h
  split at h
  · exact absurd h (Option.some_ne_none _).symm
  · obtain rfl : is.drop 4 = rest := (Prod.ext_iff.mp (Option.some.inj h)).2
    rw [List.length_drop]
    omega

/-- The length of a byte string takes a byte, where there is one. -/
theorem readLength_length (is : List UInt8) : (readLength is).2.2.length ≤ is.length - 1 := by
  rw [readLength]
  split
  · simp only [List.length_drop]
    omega
  · simp only [List.length_drop]
    omega

/-- `readBytes` takes a byte, where there is one. -/
theorem readBytes_length {data : List UInt8} (h : readBytes is = some (data, rest)) :
    rest.length ≤ is.length - 1 := by
  have hle := readLength_length is
  rw [readBytes] at h
  generalize readLength is = read at h hle
  obtain ⟨length, paddingBytes, behind⟩ := read
  dsimp only at h hle
  split at h
  · exact absurd h (Option.some_ne_none _).symm
  · obtain ⟨⟨read, left⟩, hdata, heq⟩ := Option.map_eq_some_iff.mp h
    have hrest := (Prod.ext_iff.mp heq).2
    dsimp only at hrest
    rw [← hrest, readData_eq_some hdata, List.length_drop, List.length_drop]
    omega

/-- `readString` takes a byte, where there is one. -/
theorem readString_length {string : Option String} (h : readString is = some (string, rest)) :
    rest.length ≤ is.length - 1 := by
  have hle := readLength_length is
  rw [readString] at h
  generalize readLength is = read at h hle
  obtain ⟨length, paddingBytes, behind⟩ := read
  dsimp only at h hle
  split at h
  · obtain ⟨⟨read, left⟩, hdata, heq⟩ := Option.map_eq_some_iff.mp h
    have hrest := (Prod.ext_iff.mp heq).2
    dsimp only at hrest
    rw [← hrest, readData_eq_some hdata, List.length_drop, List.length_drop]
    omega
  · obtain rfl := (Prod.ext_iff.mp (Option.some.inj h)).2
    rw [List.length_drop]
    omega

/-- A read that leaves no more than there was. -/
def Shortens {α : Type} (is : List UInt8) (read : Option (α × List UInt8)) : Prop :=
  ∀ value rest, read = some (value, rest) → rest.length ≤ is.length

section Shortens

variable {α β : Type} {read other : Option (α × List UInt8)}

/-- A mapped read leaves what the read left. -/
theorem map_rest {f : α × List UInt8 → β × List UInt8} {value : β}
    (h : read.map f = some (value, rest)) (hf : ∀ p, (f p).2 = p.2) :
    ∃ v, read = some (v, rest) := by
  obtain ⟨⟨v, left⟩, hread, heq⟩ := Option.map_eq_some_iff.mp h
  have hleft : left = rest := (hf (v, left)).symm.trans (congrArg Prod.snd heq)
  exact ⟨v, hleft ▸ hread⟩

/-- A mapped read shortens the stream as the read does. -/
theorem Shortens.map {f : α × List UInt8 → β × List UInt8} (h : Shortens is read)
    (hf : ∀ p, (f p).2 = p.2) : Shortens is (read.map f) := by
  intro value rest hmap
  obtain ⟨v, hread⟩ := map_rest hmap hf
  exact h v rest hread

/-- Of two reads each shortens the stream. -/
theorem shortens_ite {p : Prop} [Decidable p] (h : Shortens is read) (hother : Shortens is other) :
    Shortens is (if p then read else other) := by
  split
  · exact h
  · exact hother

/-- What is left is given. -/
theorem shortens_some {value : α} (h : rest.length ≤ is.length) :
    Shortens is (some (value, rest)) := by
  rintro _ _ ⟨⟩
  exact h

/-- Data shortens the stream. -/
theorem shortens_readData (length : ℕ) : Shortens is (readData length is) := by
  intro data rest h
  rw [readData_eq_some h, List.length_drop]
  omega

end Shortens

variable {other : BitVec 32 → List UInt8 → Option (TLConstructedValue Obj × ℕ)}
  {value : TLConstructedValue Obj} {type : TLMetaTypeArgument}

/-- No value makes the stream longer. -/
theorem shortens_constructValue (signature : BitVec 32) :
    Shortens is (constructValue other signature is) := by
  have hint32 : Shortens is (readInt32 is) := fun v rest h =>
    (Nat.le_add_right _ 4).trans (readInt32_length h).le
  have hint64 : (readInt64 is).2.length ≤ is.length := by
    rw [readInt64, List.length_drop]
    omega
  have hstring : Shortens is (readString is) := fun v rest h =>
    (readString_length h).trans (Nat.sub_le _ 1)
  have hbytes : Shortens is (readBytes is) := fun v rest h =>
    (readBytes_length h).trans (Nat.sub_le _ 1)
  have hother : Shortens is
      ((other signature is).map fun (value, length) => (value, is.drop length)) := by
    intro v rest h
    obtain ⟨⟨u, length⟩, -, heq⟩ := Option.map_eq_some_iff.mp h
    obtain rfl := (Prod.ext_iff.mp heq).2
    rw [List.length_drop]
    omega
  rw [constructValue]
  exact shortens_ite (hint32.map fun _ => rfl) <| shortens_ite (shortens_some hint64) <|
    shortens_ite ((shortens_readData 16).map fun _ => rfl) <|
    shortens_ite ((shortens_readData 32).map fun _ => rfl) <|
    shortens_ite (hstring.map fun _ => rfl) <| shortens_ite (hbytes.map fun _ => rfl) <|
    shortens_ite (shortens_some hint64) <| shortens_ite (shortens_some le_rfl) <|
    shortens_ite (shortens_some le_rfl) <| shortens_ite (shortens_some le_rfl) hother

/-- A boxed value takes at least its signature. -/
theorem constructField_length (hboxed : type.boxed = true)
    (h : constructField other type is = some (value, rest)) : rest.length < is.length := by
  obtain ⟨⟨signature, behind⟩, hsignature, hvalue⟩ := Option.bind_eq_some_iff.mp h
  have hle := shortens_constructValue signature value rest hvalue
  rw [readSignature, if_pos hboxed] at hsignature
  obtain ⟨⟨read, left⟩, hread, heq⟩ := Option.map_eq_some_iff.mp hsignature
  have hlength := readInt32_length hread
  have hbehind : left = behind := by
    dsimp only at heq
    split at heq
    · exact (Prod.ext_iff.mp heq).2
    · exact (Prod.ext_iff.mp heq).2
  subst hbehind
  omega

end Lengths

/-! ### Signatures -/

section Signatures

variable {other : BitVec 32 → List UInt8 → Option (TLConstructedValue Obj × ℕ)}
  {signature : BitVec 32} (field : TLMetaField) (is : List UInt8)

/-- The signature that a bare field of a category stands for; there is no bare `Bool`. -/
def bareSignature : TLMetaTypeCategory → Option (BitVec 32)
  | .builtinInt32 => some int32Constructor
  | .builtinInt64 => some int64Constructor
  | .builtinInt128 => some int128Constructor
  | .builtinInt256 => some int256Constructor
  | .builtinString => some stringConstructor
  | .builtinBytes => some bytesConstructor
  | .builtinDouble => some doubleConstructor
  | .builtinBool => none

/-- A type is boxed, or it is bare with the signature of its category. -/
def BoxedOrBare (type : TLMetaTypeArgument) : Prop :=
  type.boxed = true ∨ type.boxed = false ∧
    bareSignature type.category = some type.unboxedConstructorSignature

/-- One name of a builtin type, or the names behind it. -/
theorem boxedOrBare_ite {p : Prop} [Decidable p] {found type : TLMetaTypeArgument}
    {behind : Option TLMetaTypeArgument} (hfound : BoxedOrBare found)
    (hbehind : behind = some type → BoxedOrBare type)
    (h : (if p then some found else behind) = some type) : BoxedOrBare type := by
  by_cases hp : p
  · rw [if_pos hp] at h
    rwa [← Option.some.inj h]
  · rw [if_neg hp] at h
    exact hbehind h

/-- Every builtin type is boxed, or bare with its signature. -/
theorem boxedOrBare_of_create {desc : String} {type : TLMetaTypeArgument}
    (h : createTypeArgumentFromString desc = some type) : BoxedOrBare type := by
  rw [createTypeArgumentFromString] at h
  revert h
  refine boxedOrBare_ite (Or.inr ⟨rfl, rfl⟩) <| boxedOrBare_ite (Or.inl rfl) <|
    boxedOrBare_ite (Or.inr ⟨rfl, rfl⟩) <| boxedOrBare_ite (Or.inl rfl) <|
    boxedOrBare_ite (Or.inr ⟨rfl, rfl⟩) <| boxedOrBare_ite (Or.inr ⟨rfl, rfl⟩) <|
    boxedOrBare_ite (Or.inr ⟨rfl, rfl⟩) <| boxedOrBare_ite (Or.inl rfl) <|
    boxedOrBare_ite (Or.inr ⟨rfl, rfl⟩) <| boxedOrBare_ite (Or.inl rfl) <|
    boxedOrBare_ite (Or.inr ⟨rfl, rfl⟩) <| boxedOrBare_ite (Or.inl rfl) <|
    boxedOrBare_ite (Or.inl rfl) fun h => ?_
  exact absurd h (Option.some_ne_none _).symm

/-- The type of a field is boxed, or bare with its signature. -/
theorem TLMetaField.boxedOrBare : BoxedOrBare field.type :=
  field.compiled.elim fun _ => boxedOrBare_of_create

/-- The signature of a boxed field is read back. -/
theorem readSignature_boxed (hboxed : field.type.boxed = true)
    (hne : signature ≠ universalVectorConstructor) :
    readSignature field.type (writeBoxed field.type signature ++ is) = some (signature, is) := by
  rw [readSignature, writeBoxed, if_pos hboxed, if_pos hboxed, readInt32_write, Option.map_some]
  dsimp only
  rw [if_neg fun h => hne h.1]

/-- A signature is read back, or it is the one that the bare field stands for. -/
theorem readSignature_write (hne : signature ≠ universalVectorConstructor)
    (hbare : bareSignature field.type.category = some signature) :
    readSignature field.type (writeBoxed field.type signature ++ is) = some (signature, is) := by
  rcases field.boxedOrBare with hboxed | ⟨hboxed, hsignature⟩
  · exact readSignature_boxed field is hboxed hne
  · rw [readSignature, writeBoxed, hboxed, if_neg Bool.false_ne_true, if_neg Bool.false_ne_true,
      List.nil_append, Option.some.inj (hsignature.symm.trans hbare)]

/-- A bare field of bytes stands for its signature. -/
theorem readSignature_bytes {field : TLMetaField} (hcat : field.type.category = .builtinBytes)
    (hboxed : field.type.boxed = false) (is : List UInt8) :
    readSignature field.type is = some (bytesConstructor, is) := by
  have h := readSignature_write field is (show bytesConstructor ≠ universalVectorConstructor by
    decide) (by rw [hcat]; rfl)
  rwa [writeBoxed, hboxed, if_neg Bool.false_ne_true, List.nil_append] at h

/-- Behind its signature the value of a field is read. -/
theorem constructField_of_signature {output : List UInt8}
    (h : readSignature field.type output = some (signature, is)) :
    constructField other field.type output = constructValue other signature is := by
  rw [constructField, h]
  rfl

/-- The value of a string. -/
theorem constructValue_string : constructValue other stringConstructor is =
    (readString is).map fun (data, is) => (.string data, is) := by
  rw [constructValue, if_neg (by decide), if_neg (by decide), if_neg (by decide),
    if_neg (by decide), if_pos rfl]

/-- The value of bytes. -/
theorem constructValue_bytes : constructValue other bytesConstructor is =
    (readBytes is).map fun (data, is) => (.bytes (some data), is) := by
  rw [constructValue, if_neg (by decide), if_neg (by decide), if_neg (by decide),
    if_neg (by decide), if_neg (by decide), if_pos rfl]

/-- The value of a `Bool`. -/
theorem constructValue_bool (value : Bool) :
    constructValue other (boolConstructor value) is = some (.bool value, is) := by
  cases value
  · rw [constructValue, if_neg (by decide), if_neg (by decide), if_neg (by decide),
      if_neg (by decide), if_neg (by decide), if_neg (by decide), if_neg (by decide),
      if_neg (by decide), if_pos (show boolConstructor false = boolFalseConstructor from rfl)]
  · rw [constructValue, if_neg (by decide), if_neg (by decide), if_neg (by decide),
      if_neg (by decide), if_neg (by decide), if_neg (by decide), if_neg (by decide),
      if_pos (show boolConstructor true = boolTrueConstructor from rfl)]

end Signatures

/-! ### Full cells -/

section Cells

variable (doubles : Doubles) {type : TLMetaTypeArgument} {value : TLConstructedValue Obj}

/-- A full cell of an `int`. -/
theorem cell_int32 (hcat : type.category = .builtinInt32) (value : TLConstructedValue Obj) :
    ∃ v, writeValueWithType doubles value type =
        some (writeBoxed type int32Constructor ++ writeInt32 v) ∧
      Accepted doubles .builtinInt32 value (.int32 v) := by
  obtain ⟨boxed, bare, category⟩ := type
  cases hcat
  cases value with
  | empty => exact ⟨0, rfl, Or.inl rfl⟩
  | object nativeObject => exact ⟨0, rfl, Or.inl rfl⟩
  | int32 v => exact ⟨v, rfl, Or.inr rfl⟩
  | int64 v => exact ⟨v.setWidth 32, rfl, Or.inr rfl⟩
  | double v => exact ⟨doubles.toInt32 v, rfl, Or.inr rfl⟩
  | bool v => exact ⟨boolNumber v, rfl, Or.inr rfl⟩
  | string nativeObject => exact ⟨0, rfl, Or.inl rfl⟩
  | bytes nativeObject => exact ⟨0, rfl, Or.inl rfl⟩
  | vector nativeObject => cases nativeObject <;> exact ⟨0, rfl, Or.inl rfl⟩

/-- A full cell of a `long`. -/
theorem cell_int64 (hcat : type.category = .builtinInt64) (value : TLConstructedValue Obj) :
    ∃ v, writeValueWithType doubles value type =
        some (writeBoxed type int64Constructor ++ writeInt64 v) ∧
      Accepted doubles .builtinInt64 value (.int64 v) := by
  obtain ⟨boxed, bare, category⟩ := type
  cases hcat
  cases value with
  | empty => exact ⟨0, rfl, Or.inl rfl⟩
  | object nativeObject => exact ⟨0, rfl, Or.inl rfl⟩
  | int32 v => exact ⟨v.signExtend 64, rfl, Or.inr rfl⟩
  | int64 v => exact ⟨v, rfl, Or.inr rfl⟩
  | double v => exact ⟨doubles.toInt64 v, rfl, Or.inr rfl⟩
  | bool v => exact ⟨(boolNumber v).signExtend 64, rfl, Or.inr rfl⟩
  | string nativeObject => exact ⟨0, rfl, Or.inl rfl⟩
  | bytes nativeObject => exact ⟨0, rfl, Or.inl rfl⟩
  | vector nativeObject => cases nativeObject <;> exact ⟨0, rfl, Or.inl rfl⟩

/-- A full cell of a `double`. -/
theorem cell_double (hcat : type.category = .builtinDouble) (value : TLConstructedValue Obj) :
    ∃ v, writeValueWithType doubles value type =
        some (writeBoxed type doubleConstructor ++ writeInt64 v) ∧
      Accepted doubles .builtinDouble value (.double v) := by
  obtain ⟨boxed, bare, category⟩ := type
  cases hcat
  cases value with
  | empty => exact ⟨0, rfl, Or.inl rfl⟩
  | object nativeObject => exact ⟨0, rfl, Or.inl rfl⟩
  | int32 v => exact ⟨doubles.ofInt32 v, rfl, Or.inr rfl⟩
  | int64 v => exact ⟨doubles.ofInt64 v, rfl, Or.inr rfl⟩
  | double v => exact ⟨v, rfl, Or.inr rfl⟩
  | bool v => exact ⟨doubles.ofInt32 (boolNumber v), rfl, Or.inr rfl⟩
  | string nativeObject => exact ⟨0, rfl, Or.inl rfl⟩
  | bytes nativeObject => exact ⟨0, rfl, Or.inl rfl⟩
  | vector nativeObject => cases nativeObject <;> exact ⟨0, rfl, Or.inl rfl⟩

/-- A full cell of a `Bool`. -/
theorem cell_bool (hcat : type.category = .builtinBool) (value : TLConstructedValue Obj) :
    ∃ v, writeValueWithType doubles value type = some (writeBoxed type (boolConstructor v)) ∧
      Accepted doubles .builtinBool value (.bool v) := by
  obtain ⟨boxed, bare, category⟩ := type
  cases hcat
  cases value with
  | empty => exact ⟨false, rfl, Or.inl rfl⟩
  | object nativeObject => exact ⟨false, rfl, Or.inl rfl⟩
  | int32 v => exact ⟨v != 0, rfl, Or.inr rfl⟩
  | int64 v => exact ⟨v != 0, rfl, Or.inr rfl⟩
  | double v => exact ⟨doubles.nonzero v, rfl, Or.inr rfl⟩
  | bool v => exact ⟨v, rfl, Or.inr rfl⟩
  | string nativeObject => exact ⟨false, rfl, Or.inl rfl⟩
  | bytes nativeObject => exact ⟨false, rfl, Or.inl rfl⟩
  | vector nativeObject => cases nativeObject <;> exact ⟨false, rfl, Or.inl rfl⟩

/-- Data of the right length is written, or zeros. -/
theorem writeData_cases (data : Option (List UInt8)) (zeros : List UInt8) {length : ℕ}
    (hpos : 0 < length) : writeData length data zeros = zeros ∨
      ∃ d, data = some d ∧ d.length = length ∧ writeData length data zeros = d := by
  cases data with
  | none => exact Or.inl (if_neg hpos.ne)
  | some d =>
      by_cases hlength : d.length = length
      · exact Or.inr ⟨d, rfl, hlength, if_pos hlength⟩
      · exact Or.inl (if_neg hlength)

/-- A full cell of an `int128`. -/
theorem cell_int128 (hcat : type.category = .builtinInt128) (h : Encoded type value) :
    ∃ data, writeValueWithType doubles value type =
        some (writeBoxed type int128Constructor ++ data) ∧ data.length = 16 ∧
      Accepted doubles .builtinInt128 value (.bytes (some data)) := by
  obtain ⟨boxed, bare, category⟩ := type
  cases hcat
  cases value with
  | empty => exact ⟨zeros128, rfl, rfl, Or.inl rfl⟩
  | object nativeObject => exact ⟨zeros128, rfl, rfl, Or.inl rfl⟩
  | int32 v => exact ⟨zeros128, rfl, rfl, Or.inl rfl⟩
  | int64 v => exact ⟨zeros128, rfl, rfl, Or.inl rfl⟩
  | double v => exact ⟨zeros128, rfl, rfl, Or.inl rfl⟩
  | bool v => exact ⟨zeros128, rfl, rfl, Or.inl rfl⟩
  | string nativeObject => exact ⟨zeros128, rfl, rfl, Or.inl rfl⟩
  | bytes nativeObject =>
      rcases writeData_cases nativeObject zeros128 (show 0 < 16 by decide) with
        hzeros | ⟨data, rfl, hlength, hdata⟩
      · exact ⟨zeros128, congrArg (fun data => some (_ ++ data)) hzeros, rfl, Or.inl rfl⟩
      · exact ⟨data, congrArg (fun data => some (_ ++ data)) hdata, hlength,
          Or.inr (if_pos hlength)⟩
  | vector nativeObject =>
      obtain rfl : nativeObject = none := h
      exact ⟨zeros128, rfl, rfl, Or.inl rfl⟩

/-- A full cell of an `int256`. -/
theorem cell_int256 (hcat : type.category = .builtinInt256) (h : Encoded type value) :
    ∃ data, writeValueWithType doubles value type =
        some (writeBoxed type int256Constructor ++ data) ∧ data.length = 32 ∧
      Accepted doubles .builtinInt256 value (.bytes (some data)) := by
  obtain ⟨boxed, bare, category⟩ := type
  cases hcat
  cases value with
  | empty => exact ⟨zeros256, rfl, rfl, Or.inl rfl⟩
  | object nativeObject => exact ⟨zeros256, rfl, rfl, Or.inl rfl⟩
  | int32 v => exact ⟨zeros256, rfl, rfl, Or.inl rfl⟩
  | int64 v => exact ⟨zeros256, rfl, rfl, Or.inl rfl⟩
  | double v => exact ⟨zeros256, rfl, rfl, Or.inl rfl⟩
  | bool v => exact ⟨zeros256, rfl, rfl, Or.inl rfl⟩
  | string nativeObject => exact ⟨zeros256, rfl, rfl, Or.inl rfl⟩
  | bytes nativeObject =>
      rcases writeData_cases nativeObject zeros256 (show 0 < 32 by decide) with
        hzeros | ⟨data, rfl, hlength, hdata⟩
      · exact ⟨zeros256, congrArg (fun data => some (_ ++ data)) hzeros, rfl, Or.inl rfl⟩
      · exact ⟨data, congrArg (fun data => some (_ ++ data)) hdata, hlength,
          Or.inr (if_pos hlength)⟩
  | vector nativeObject =>
      obtain rfl : nativeObject = none := h
      exact ⟨zeros256, rfl, rfl, Or.inl rfl⟩

/-- A full cell of `bytes`. -/
theorem cell_bytes (hcat : type.category = .builtinBytes) (h : Encoded type value) :
    ∃ d, writeValueWithType doubles value type =
        (writeBytes d).map (writeBoxed type bytesConstructor ++ ·) ∧ Fits d ∧
      ∀ s, s = [] ∨ d = some s → Accepted doubles .builtinBytes value (.bytes (some s)) := by
  obtain ⟨boxed, bare, category⟩ := type
  cases hcat
  cases value with
  | empty => exact absurd h id
  | object nativeObject => exact absurd h id
  | int32 v => exact absurd h id
  | int64 v => exact absurd h id
  | double v => exact absurd h id
  | bool v => exact absurd h id
  | string nativeObject =>
      refine ⟨nativeObject.map utf8, rfl, h, ?_⟩
      rintro s (rfl | hs)
      · exact Or.inl rfl
      · obtain ⟨string, rfl, rfl⟩ := Option.map_eq_some_iff.mp hs
        exact Or.inr rfl
  | bytes nativeObject =>
      refine ⟨nativeObject, rfl, h, ?_⟩
      rintro s (rfl | rfl)
      · exact Or.inl rfl
      · exact Or.inr rfl
  | vector nativeObject =>
      obtain rfl : nativeObject = none := h
      refine ⟨none, rfl, trivial, ?_⟩
      rintro s (rfl | hs)
      · exact Or.inl rfl
      · exact absurd hs (Option.some_ne_none s).symm

/-- The empty string is read as the default. -/
theorem accepted_nil {d : Option (List UInt8)} (hd : d = none) {s : List UInt8}
    (h : s = [] ∨ d = some s) :
    Accepted doubles .builtinString value (.string (stringWithUTF8 s)) := by
  rcases h with rfl | hs
  · exact Or.inl (congrArg _ (stringWithUTF8_utf8 ""))
  · exact absurd (hs.symm.trans hd) (Option.some_ne_none s)

/-- A full cell of a `string`. -/
theorem cell_string (hcat : type.category = .builtinString) (h : Encoded type value) :
    ∃ d, writeValueWithType doubles value type =
        (tlBytes d).map (writeBoxed type stringConstructor ++ ·) ∧ Fits d ∧
      ∀ s : List UInt8, s.length < 2 ^ 23 → s = [] ∨ d = some s →
        Accepted doubles .builtinString value (.string (stringWithUTF8 s)) := by
  obtain ⟨boxed, bare, category⟩ := type
  cases hcat
  cases value with
  | empty => exact ⟨none, rfl, trivial, fun s _ hs => accepted_nil doubles rfl hs⟩
  | object nativeObject => exact ⟨none, rfl, trivial, fun s _ hs => accepted_nil doubles rfl hs⟩
  | int32 v => exact ⟨none, rfl, trivial, fun s _ hs => accepted_nil doubles rfl hs⟩
  | int64 v => exact ⟨none, rfl, trivial, fun s _ hs => accepted_nil doubles rfl hs⟩
  | double v => exact ⟨none, rfl, trivial, fun s _ hs => accepted_nil doubles rfl hs⟩
  | bool v => exact ⟨none, rfl, trivial, fun s _ hs => accepted_nil doubles rfl hs⟩
  | string nativeObject =>
      refine ⟨nativeObject.map utf8, rfl, h, ?_⟩
      rintro s - (rfl | hs)
      · exact accepted_nil doubles rfl (Or.inl rfl)
      · obtain ⟨string, rfl, rfl⟩ := Option.map_eq_some_iff.mp hs
        rw [stringWithUTF8_utf8]
        exact Or.inr rfl
  | bytes nativeObject =>
      obtain ⟨hfits, hvalid⟩ := h
      refine ⟨nativeObject, rfl, hfits, ?_⟩
      rintro s hshort (rfl | rfl)
      · exact accepted_nil doubles rfl (Or.inl rfl)
      · rcases hvalid with hvalid | hzero
        · obtain ⟨string, hstring⟩ := Option.ne_none_iff_exists'.mp hvalid
          refine Or.inr ?_
          change (stringWithUTF8 s).map _ = _
          rw [show stringWithUTF8 s = some string from hstring]
          rfl
        · rw [Option.getD_some, Nat.mod_eq_of_lt (by omega), List.length_eq_zero_iff] at hzero
          rw [hzero]
          exact accepted_nil doubles rfl (Or.inl rfl)
  | vector nativeObject =>
      obtain ⟨rfl, rfl⟩ : nativeObject = none ∧ boxed = false := h
      exact ⟨none, rfl, trivial, fun s _ hs => accepted_nil doubles rfl hs⟩

end Cells

/-! ### Reading back -/

section ReadBack

variable (doubles : Doubles)
  (other : BitVec 32 → List UInt8 → Option (TLConstructedValue Obj × ℕ))
  {field : TLMetaField} {value : TLConstructedValue Obj}

/-- A value is written, and it is read back in front of anything. -/
def ReadBack (type : TLMetaTypeArgument) (value : TLConstructedValue Obj) : Prop :=
  ∃ written read, writeValueWithType doubles value type = some written ∧ written ≠ [] ∧
    Accepted doubles type.category value read ∧
    ∀ rest, constructField other type (written ++ rest) = some (read, rest)

/-- A value behind its signature. -/
theorem readBack_of_payload {signature : BitVec 32} {payload : List UInt8}
    {read : TLConstructedValue Obj} (hne : signature ≠ universalVectorConstructor)
    (hbare : bareSignature field.type.category = some signature)
    (hwrite : writeValueWithType doubles value field.type =
      some (writeBoxed field.type signature ++ payload))
    (hpayload : payload ≠ [])
    (haccepted : Accepted doubles field.type.category value read)
    (hread : ∀ rest, constructValue other signature (payload ++ rest) = some (read, rest)) :
    ReadBack doubles other field.type value := by
  refine ⟨_, read, hwrite, fun h => hpayload (List.append_eq_nil_iff.mp h).2, haccepted, ?_⟩
  intro rest
  rw [List.append_assoc, constructField_of_signature field _
    (readSignature_write field (payload ++ rest) hne hbare), hread]

/-- **A value with a full cell is read back in front of anything.** -/
theorem encoded_read (h : Encoded field.type value) :
    ReadBack doubles other field.type value := by
  cases hcat : field.type.category with
  | builtinInt32 =>
      obtain ⟨v, hwrite, haccepted⟩ := cell_int32 doubles hcat value
      refine readBack_of_payload doubles other (by decide) (by rw [hcat]; rfl) hwrite
        (by rintro ⟨⟩) (by rw [hcat]; exact haccepted) fun rest => ?_
      rw [constructValue, if_pos rfl, readInt32_write, Option.map_some]
  | builtinInt64 =>
      obtain ⟨v, hwrite, haccepted⟩ := cell_int64 doubles hcat value
      refine readBack_of_payload doubles other (by decide) (by rw [hcat]; rfl) hwrite
        (by rintro ⟨⟩) (by rw [hcat]; exact haccepted) fun rest => ?_
      rw [constructValue, if_neg (by decide), if_pos rfl, readInt64_write]
  | builtinInt128 =>
      obtain ⟨data, hwrite, hlength, haccepted⟩ := cell_int128 doubles hcat h
      refine readBack_of_payload doubles other (by decide) (by rw [hcat]; rfl) hwrite
        (List.ne_nil_of_length_pos (by omega)) (by rw [hcat]; exact haccepted) fun rest => ?_
      rw [constructValue, if_neg (by decide), if_neg (by decide), if_pos rfl, ← hlength,
        readData_append, Option.map_some]
  | builtinInt256 =>
      obtain ⟨data, hwrite, hlength, haccepted⟩ := cell_int256 doubles hcat h
      refine readBack_of_payload doubles other (by decide) (by rw [hcat]; rfl) hwrite
        (List.ne_nil_of_length_pos (by omega)) (by rw [hcat]; exact haccepted) fun rest => ?_
      rw [constructValue, if_neg (by decide), if_neg (by decide), if_neg (by decide), if_pos rfl,
        ← hlength, readData_append, Option.map_some]
  | builtinString =>
      obtain ⟨d, hwrite, hfits, haccepted⟩ := cell_string doubles hcat h
      obtain ⟨s, w, hw, hform, hshort, hs⟩ := tlBytes_of_fits hfits
      rw [hw, Option.map_some] at hwrite
      refine readBack_of_payload doubles other (by decide) (by rw [hcat]; rfl) hwrite
        hform.ne_nil (by rw [hcat]; exact haccepted s hshort (hs.imp_left And.left)) fun rest => ?_
      rw [constructValue_string, readString_form hform hshort, Option.map_some]
  | builtinBytes =>
      obtain ⟨d, hwrite, hfits, haccepted⟩ := cell_bytes doubles hcat h
      obtain ⟨s, w, hw, hform, hshort, hs⟩ := tlBytes_of_fits hfits
      rw [writeBytes, hw, Option.map_some] at hwrite
      refine readBack_of_payload doubles other (by decide) (by rw [hcat]; rfl) hwrite
        hform.ne_nil (by rw [hcat]; exact haccepted s (hs.imp_left And.left)) fun rest => ?_
      rw [constructValue_bytes, readBytes_form hform hshort, Option.map_some]
  | builtinDouble =>
      obtain ⟨v, hwrite, haccepted⟩ := cell_double doubles hcat value
      refine readBack_of_payload doubles other (by decide) (by rw [hcat]; rfl) hwrite
        (by rintro ⟨⟩) (by rw [hcat]; exact haccepted) fun rest => ?_
      rw [constructValue, if_neg (by decide), if_neg (by decide), if_neg (by decide),
        if_neg (by decide), if_neg (by decide), if_neg (by decide), if_pos rfl, readInt64_write]
  | builtinBool =>
      obtain ⟨v, hwrite, haccepted⟩ := cell_bool doubles hcat value
      have hboxed : field.type.boxed = true := by
        rcases field.boxedOrBare with hboxed | ⟨-, hbare⟩
        · exact hboxed
        · rw [hcat] at hbare
          exact absurd hbare (Option.some_ne_none _).symm
      refine ⟨_, .bool v, hwrite, ?_, by rw [hcat]; exact haccepted, fun rest => ?_⟩
      · rw [writeBoxed, if_pos hboxed]
        rintro ⟨⟩
      · rw [constructField_of_signature field _
          (readSignature_boxed field rest hboxed (by cases v <;> decide))]
        exact constructValue_bool rest v

end ReadBack

/-! ### What is not read back -/

section NotReadBack

variable {doubles : Doubles}
  {other : BitVec 32 → List UInt8 → Option (TLConstructedValue Obj × ℕ)}
  {field : TLMetaField} {value read : TLConstructedValue Obj} {written rest : List UInt8}

/-- Nothing is read as bytes only where a bare field ends the stream. -/
theorem bare_of_read (hcat : field.type.category = .builtinBytes)
    (hread : constructField other field.type rest = some (read, rest)) :
    field.type.boxed = false ∧ rest = [] := by
  rcases field.boxedOrBare with hboxed | ⟨hboxed, -⟩
  · exact absurd (constructField_length hboxed hread) (lt_irrefl _)
  · refine ⟨hboxed, List.length_eq_zero_iff.mp ?_⟩
    rw [constructField_of_signature field rest (readSignature_bytes hcat hboxed rest),
      constructValue_bytes] at hread
    obtain ⟨v, hread⟩ := map_rest hread fun _ => rfl
    have hlength := readBytes_length hread
    omega

/-- Bytes that do not fit are read as others. -/
theorem read_bytes_of_not_fits {d : Option (List UInt8)}
    (hcat : field.type.category = .builtinBytes) (hfits : ¬ Fits d)
    (hwrite : (writeBytes d).map (writeBoxed field.type bytesConstructor ++ ·) = some written)
    (hread : constructField other field.type (written ++ rest) = some (read, rest)) :
    ∃ v, read = .bytes (some v) ∧ v ≠ [] ∧ d ≠ some v := by
  obtain ⟨w, hw, rfl⟩ := Option.map_eq_some_iff.mp hwrite
  rw [List.append_assoc, constructField_of_signature field _
    (readSignature_write field (w ++ rest) (by decide) (by rw [hcat]; rfl)),
    constructValue_bytes] at hread
  obtain ⟨⟨v, left⟩, hv, heq⟩ := Option.map_eq_some_iff.mp hread
  obtain ⟨rfl, rfl⟩ := Prod.ext_iff.mp heq
  exact ⟨v, rfl, not_readBytes_of_not_fits hfits hw hv⟩

/-- What a field of a string is read as. -/
theorem read_string_of_write {d : Option (List UInt8)}
    (hcat : field.type.category = .builtinString)
    (hwrite : (tlBytes d).map (writeBoxed field.type stringConstructor ++ ·) = some written)
    (hread : constructField other field.type (written ++ rest) = some (read, rest)) :
    ∃ w string, tlBytes d = some w ∧ readString (w ++ rest) = some (string, rest) ∧
      read = .string string := by
  obtain ⟨w, hw, rfl⟩ := Option.map_eq_some_iff.mp hwrite
  rw [List.append_assoc, constructField_of_signature field _
    (readSignature_write field (w ++ rest) (by decide) (by rw [hcat]; rfl)),
    constructValue_string] at hread
  obtain ⟨⟨string, left⟩, hv, heq⟩ := Option.map_eq_some_iff.mp hread
  obtain ⟨rfl, rfl⟩ := Prod.ext_iff.mp heq
  exact ⟨w, string, hw, hv, rfl⟩

/-- **Without a full cell a field of bytes is read only at the end, bare and missing.** -/
theorem missing_of_read (hcat : field.type.category = .builtinBytes)
    (h : ¬ Encoded field.type value)
    (hwrite : writeValueWithType doubles value field.type = some written)
    (hread : constructField other field.type (written ++ rest) = some (read, rest))
    (haccepted : Accepted doubles .builtinBytes value read) :
    Missing field.type value ∧ rest = [] := by
  have hbare : written = [] → field.type.boxed = false ∧ rest = [] := by
    rintro rfl
    exact bare_of_read hcat hread
  rw [Encoded.eq_def, hcat] at h
  cases value with
  | empty | object nativeObject | int32 v | int64 v | double v | bool v =>
      rw [writeValueWithType, hcat] at hwrite
      obtain ⟨hboxed, hrest⟩ := hbare (Option.some.inj hwrite).symm
      exact ⟨⟨hboxed, hcat, trivial⟩, hrest⟩
  | string nativeObject =>
      rw [writeValueWithType, hcat] at hwrite
      obtain ⟨v, rfl, hne, hother⟩ := read_bytes_of_not_fits hcat h hwrite hread
      rcases haccepted with hdefault | hconversion
      · cases hdefault
        exact absurd rfl hne
      · cases nativeObject with
        | none => cases hconversion
        | some string =>
            cases hconversion
            exact absurd rfl hother
  | bytes nativeObject =>
      rw [writeValueWithType, hcat] at hwrite
      obtain ⟨v, rfl, hne, hother⟩ := read_bytes_of_not_fits hcat h hwrite hread
      rcases haccepted with hdefault | hconversion
      · cases hdefault
        exact absurd rfl hne
      · cases nativeObject with
        | none => cases hconversion
        | some data =>
            cases hconversion
            exact absurd rfl hother
  | vector nativeObject =>
      cases nativeObject with
      | none => exact absurd rfl h
      | some array =>
          rw [writeValueWithType, hcat] at hwrite
          cases hwrite

/-- Data that is no string is not read as one. -/
theorem not_accepted_data {d : Option (List UInt8)} {w : List UInt8} {string : Option String}
    (h : ¬ (Fits d ∧
      (stringWithUTF8 (d.getD []) ≠ none ∨ (d.getD []).length % 2 ^ 32 = 0)))
    (hw : tlBytes d = some w) (hread : readString (w ++ rest) = some (string, rest)) :
    ¬ Accepted doubles .builtinString (.bytes d : TLConstructedValue Obj) (.string string) := by
  by_cases hfits : Fits d
  · have hinvalid := not_or.mp fun hvalid => h ⟨hfits, hvalid⟩
    obtain ⟨s, v, hv, hform, hshort, hs⟩ := tlBytes_of_fits hfits
    obtain rfl := Option.some.inj (hv.symm.trans hw)
    obtain ⟨-, hzero⟩ | rfl := hs
    · exact absurd hzero hinvalid.2
    · have hnone : stringWithUTF8 s = none := not_not.mp hinvalid.1
      rw [readString_form hform hshort, hnone] at hread
      obtain rfl : none = string := (Prod.ext_iff.mp (Option.some.inj hread)).1
      rintro (hdefault | hconversion)
      · cases hdefault
      · change (stringWithUTF8 s).map _ = _ at hconversion
        rw [hnone] at hconversion
        cases hconversion
  · rintro (hdefault | hconversion)
    · cases hdefault
      exact (not_readString_of_not_fits hfits hw hread).1 rfl
    · cases d with
      | none => exact hfits trivial
      | some data =>
          obtain ⟨v, hstring, heq⟩ := Option.map_eq_some_iff.mp hconversion
          cases heq
          rw [← utf8_of_stringWithUTF8 hstring] at hfits hw
          exact (not_readString_of_not_fits hfits hw hread).2 rfl

/-- **Without a full cell a field of another category is not read.** -/
theorem bytes_of_read (h : ¬ Encoded field.type value)
    (hwrite : writeValueWithType doubles value field.type = some written)
    (hread : constructField other field.type (written ++ rest) = some (read, rest))
    (haccepted : Accepted doubles field.type.category value read) :
    field.type.category = .builtinBytes := by
  rw [Encoded.eq_def] at h
  cases hcat : field.type.category with
  | builtinBytes => rfl
  | builtinInt32 | builtinInt64 | builtinDouble | builtinBool =>
      rw [hcat] at h
      exact absurd trivial h
  | builtinInt128 | builtinInt256 =>
      rw [hcat] at h
      cases value with
      | vector nativeObject =>
          cases nativeObject with
          | none => exact absurd rfl h
          | some array =>
              rw [writeValueWithType, hcat] at hwrite
              cases hwrite
      | _ => exact absurd trivial h
  | builtinString =>
      rw [hcat] at h haccepted
      cases value with
      | string nativeObject =>
          rw [writeValueWithType, hcat] at hwrite
          obtain ⟨w, string, hw, hv, rfl⟩ := read_string_of_write hcat hwrite hread
          rcases haccepted with hdefault | hconversion
          · cases hdefault
            exact absurd rfl (not_readString_of_not_fits h hw hv).1
          · cases nativeObject with
            | none => cases hconversion
            | some s =>
                cases hconversion
                exact absurd rfl (not_readString_of_not_fits h hw hv).2
      | bytes nativeObject =>
          rw [writeValueWithType, hcat] at hwrite
          obtain ⟨w, string, hw, hv, rfl⟩ := read_string_of_write hcat hwrite hread
          exact absurd haccepted (not_accepted_data h hw hv)
      | vector nativeObject =>
          cases nativeObject with
          | none =>
              have hboxed : field.type.boxed = true :=
                Bool.of_not_eq_false fun hbare => h ⟨rfl, hbare⟩
              rw [writeValueWithType, hcat] at hwrite
              obtain ⟨w, -, rfl⟩ := Option.map_eq_some_iff.mp hwrite
              rw [List.append_assoc, constructField_of_signature field _
                (readSignature_boxed field (w ++ rest) hboxed (by decide)),
                constructValue_bytes] at hread
              obtain ⟨⟨data, left⟩, -, heq⟩ := Option.map_eq_some_iff.mp hread
              obtain ⟨rfl, -⟩ := Prod.ext_iff.mp heq
              rcases haccepted with hdefault | hconversion
              · cases hdefault
              · cases hconversion
          | some array =>
              rw [writeValueWithType, hcat] at hwrite
              cases hwrite
      | _ => exact absurd trivial h

end NotReadBack

/-! ### The fields of an object -/

section Fields

variable {doubles : Doubles}
  {other : BitVec 32 → List UInt8 → Option (TLConstructedValue Obj × ℕ)}
  {fieldValues : BitVec 32 → Option (TLConstructedValue Obj)}
  {field : TLMetaField} {fields : List TLMetaField} {output : List UInt8}

/-- What is in step was written. -/
theorem serialize_of_inStep (h : InStep doubles other fieldValues fields output) :
    serialize doubles fieldValues fields = some output := by
  induction fields generalizing output with
  | nil => exact congrArg some h.symm
  | cons field fields ih =>
      obtain ⟨written, rest, read, hwrite, rfl, -, -, hrest⟩ := h
      rw [serialize, hwrite, ih hrest]
      rfl

/-- What is in step is read to its end. -/
theorem construct_of_inStep (h : InStep doubles other fieldValues fields output) :
    ∃ values, construct other fields output = some (values, []) := by
  induction fields generalizing output with
  | nil => exact ⟨[], congrArg (fun is => some ([], is)) h⟩
  | cons field fields ih =>
      obtain ⟨written, rest, read, -, -, hread, -, hrest⟩ := h
      obtain ⟨values, hvalues⟩ := ih hrest
      refine ⟨read :: values, ?_⟩
      rw [construct, hread]
      dsimp only [Option.bind_some, bind]
      rw [hvalues]
      rfl

/-- The serialisation stays in step as soon as there is an output in step. -/
theorem staysInStep_iff_exists : StaysInStep doubles other fieldValues fields ↔
    ∃ output, InStep doubles other fieldValues fields output := by
  constructor
  · rintro ⟨output, values, -, -, h⟩
    exact ⟨output, h⟩
  · rintro ⟨output, h⟩
    obtain ⟨values, hvalues⟩ := construct_of_inStep h
    exact ⟨output, values, serialize_of_inStep h, hvalues, h⟩

/-- A field in step has a full cell, or it is missing and nothing is behind it. -/
theorem encoded_or_missing (h : InStep doubles other fieldValues (field :: fields) output) :
    Encoded field.type (fieldValue fieldValues field) ∧
        (∃ rest, InStep doubles other fieldValues fields rest) ∨
      Missing field.type (fieldValue fieldValues field) ∧
        InStep doubles other fieldValues fields [] := by
  obtain ⟨written, rest, read, hwrite, rfl, hread, haccepted, hrest⟩ := h
  by_cases hfull : Encoded field.type (fieldValue fieldValues field)
  · exact Or.inl ⟨hfull, rest, hrest⟩
  · have hcat := bytes_of_read hfull hwrite hread haccepted
    rw [hcat] at haccepted
    obtain ⟨hmissing, rfl⟩ := missing_of_read hcat hfull hwrite hread haccepted
    exact Or.inr ⟨hmissing, hrest⟩

/-- At the end of the stream every field is missing. -/
theorem missing_of_inStep_nil (h : InStep doubles other fieldValues fields []) :
    ∀ field ∈ fields, Missing field.type (fieldValue fieldValues field) := by
  induction fields with
  | nil => exact fun field hfield => absurd hfield List.not_mem_nil
  | cons field fields ih =>
      have hcases := encoded_or_missing h
      obtain ⟨written, rest, read, hwrite, hnil, -, -, -⟩ := h
      obtain ⟨rfl, -⟩ := List.append_eq_nil_iff.mp hnil.symm
      rcases hcases with ⟨hfull, -⟩ | ⟨hmissing, hrest⟩
      · obtain ⟨w, v, hw, hne, -⟩ := encoded_read doubles other hfull
        exact absurd (Option.some.inj (hw.symm.trans hwrite)) hne
      · exact List.forall_mem_cons.mpr ⟨hmissing, ih hrest⟩

/-- Nothing is written for a missing field. -/
theorem write_of_missing (doubles : Doubles) {type : TLMetaTypeArgument}
    {value : TLConstructedValue Obj}
    (h : Missing type value) : writeValueWithType doubles value type = some [] := by
  obtain ⟨-, hcat, hvalue⟩ := h
  cases value with
  | empty | object nativeObject | int32 v | int64 v | double v | bool v =>
      rw [writeValueWithType, hcat]
  | string nativeObject | bytes nativeObject | vector nativeObject => exact hvalue.elim

/-- A missing field is read at the end of the stream. -/
theorem inStep_nil_of_missing
    (h : ∀ field ∈ fields, Missing field.type (fieldValue fieldValues field)) :
    InStep doubles other fieldValues fields [] := by
  induction fields with
  | nil => exact rfl
  | cons field fields ih =>
      obtain ⟨hmissing, hfields⟩ := List.forall_mem_cons.mp h
      have hwrite := write_of_missing doubles hmissing
      obtain ⟨hboxed, hcat, -⟩ := hmissing
      refine ⟨[], [], .bytes (some []), hwrite, rfl, ?_, ?_, ih hfields⟩
      · rw [constructField_of_signature field [] (readSignature_bytes hcat hboxed []),
          constructValue_bytes]
        rfl
      · rw [hcat]
        exact Or.inl rfl

/-- A field with a full cell is read in front of fields in step. -/
theorem inStep_cons (hfull : Encoded field.type (fieldValue fieldValues field))
    (h : InStep doubles other fieldValues fields output) :
    ∃ output, InStep doubles other fieldValues (field :: fields) output := by
  obtain ⟨written, read, hwrite, -, haccepted, hread⟩ := encoded_read doubles other hfull
  exact ⟨written ++ output, written, output, read, hwrite, rfl, hread output, haccepted, h⟩

/-- **The serialisation stays in step exactly when the fields have full cells, up to bare fields of
bytes at the end for which nothing is written.** -/
theorem staysInStep_iff (doubles : Doubles)
    (other : BitVec 32 → List UInt8 → Option (TLConstructedValue Obj × ℕ))
    (fieldValues : BitVec 32 → Option (TLConstructedValue Obj)) (fields : List TLMetaField) :
    StaysInStep doubles other fieldValues fields ↔ ∃ front trailing, fields = front ++ trailing ∧
      (∀ field ∈ front, Encoded field.type (fieldValue fieldValues field)) ∧
      ∀ field ∈ trailing, Missing field.type (fieldValue fieldValues field) := by
  rw [staysInStep_iff_exists]
  constructor
  · rintro ⟨output, h⟩
    induction fields generalizing output with
    | nil => exact ⟨[], [], rfl, fun field hfield => absurd hfield List.not_mem_nil,
        fun field hfield => absurd hfield List.not_mem_nil⟩
    | cons field fields ih =>
        rcases encoded_or_missing h with ⟨hfull, rest, hrest⟩ | ⟨hmissing, hrest⟩
        · obtain ⟨front, trailing, rfl, hfront, htrailing⟩ := ih rest hrest
          exact ⟨field :: front, trailing, rfl, List.forall_mem_cons.mpr ⟨hfull, hfront⟩,
            htrailing⟩
        · exact ⟨[], field :: fields, rfl, fun field hfield => absurd hfield List.not_mem_nil,
            List.forall_mem_cons.mpr ⟨hmissing, missing_of_inStep_nil hrest⟩⟩
  · rintro ⟨front, trailing, rfl, hfront, htrailing⟩
    induction front with
    | nil => exact ⟨[], inStep_nil_of_missing htrailing⟩
    | cons field front ih =>
        obtain ⟨hfull, hrest⟩ := List.forall_mem_cons.mp hfront
        obtain ⟨output, h⟩ := ih hrest
        exact inStep_cons hfull h

end Fields

/-! ### A missing field of bytes -/

/-- A field of `bytes` and one of `int`. -/
def bytesAndInt : List TLMetaField :=
  [⟨1, ⟨false, bytesConstructor, .builtinBytes⟩, "bytes", by decide⟩,
    ⟨2, ⟨false, int32Constructor, .builtinInt32⟩, "int", by decide⟩]

/-- An object that gives 5 for the second field, and nothing for the first. -/
def onlyInt (name : BitVec 32) : Option (TLConstructedValue Empty) :=
  if name = 2 then some (.int32 5) else none

/-- Conversions for an object without a `double`. -/
def noDoubles : Doubles where
  ofInt32 _ := 0
  ofInt64 _ := 0
  toInt32 _ := 0
  toInt64 _ := 0
  nonzero _ := false

/-- **A missing field of bytes shifts the field behind it**: of the two fields only the four bytes
of the second are written, and their first one is read as the length of the first field. -/
theorem not_staysInStep_missing :
    serialize noDoubles onlyInt bytesAndInt = some [5, 0, 0, 0] ∧
      ¬ StaysInStep noDoubles (fun _ _ => none) onlyInt bytesAndInt := by
  have hserialize : serialize noDoubles onlyInt bytesAndInt = some [5, 0, 0, 0] := rfl
  refine ⟨hserialize, ?_⟩
  rintro ⟨output, values, houtput, hconstruct, -⟩
  obtain rfl := Option.some.inj (hserialize.symm.trans houtput)
  have hnone : construct (fun _ _ => none) bytesAndInt [5, 0, 0, 0] =
      (none : Option (List (TLConstructedValue Empty) × List UInt8)) := by decide +kernel
  exact absurd (hnone.symm.trans hconstruct) (Option.some_ne_none _).symm

end Telegraph.TL
