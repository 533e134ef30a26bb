import Telegraph.Lib.Codec
import Telegraph.TL.Scheme

/-!
# Objects of a Scheme

`TLMetaClassStore::serializeObject` and `TLMetaClassStore::constructValue`: objects are written and
read by the tables that the scheme was compiled to. A boxed vector is written with one signature
for all vectors, and is read by the signature in the type of its field. The elements of a vector
are converted by the category of their type when they are written, and by what was read otherwise.

The depth of the nesting is bounded by fuel. The classes of objects keep the values of all their
fields.

## Main definitions

* `serializeObject`: what is written for an object, boxed or bare.
* `constructValue`: what is read behind a signature.
-/

open Bytes

namespace Telegraph.TL.TLMetaClassStore

open Codec (Parser)

/-! ### Objects -/

/-- The class of an object: `TLconstructorName`, `TLconstructorSignature`, and whether it is a
`TLMsgsAck`. -/
structure ObjectClass where
  constructorName : BitVec 32
  constructorSignature : BitVec 32
  isMsgsAck : Bool
deriving DecidableEq

/-- The objects that values have: numbers by what they were made of, strings, data, arrays, a
`TLBool`, a `TLCompressedObject`, an object that is written by hand with the bytes that its
`TLserialize:` writes, and an object of a class with the values of its fields. -/
inductive NativeObject where
  | numberWithInt (value : BitVec 32)
  | numberWithLongLong (value : BitVec 64)
  | numberWithBool (value : Bool)
  | numberWithDouble (value : BitVec 64)
  | string (string : String)
  | data (data : List UInt8)
  | array (items : List NativeObject)
  | bool (boolValue : Bool)
  | compressedObject (compressedData : Option (List UInt8))
  | writtenByHand (constructorSignature : BitVec 32) (serialized : List UInt8)
  | object (objectClass : ObjectClass)
      (fieldValues : List (BitVec 32 × TLConstructedValue NativeObject))

/-- `TLConstructedValue`, with these objects. -/
abbrev Value : Type := TLConstructedValue NativeObject

/-- What the store takes from elsewhere: conversions of numbers and of strings, the classes that
are registered, the parsers that are written by hand, and `decompressGZip`. -/
structure Runtime where
  doubles : Doubles
  stringIntValue : String → BitVec 32
  stringLongLongValue : String → BitVec 64
  objectClasses : BitVec 32 → Option ObjectClass
  manualObjectParsers : BitVec 32 → Option (Parser NativeObject)
  decompressGZip : List UInt8 → Option (List UInt8)

/-- `gzip_packed`. -/
def gzipPacked : BitVec 32 := 0x3072cfa1

/-- The signatures that are told apart before the tables are looked into. -/
def builtinConstructors : List (BitVec 32) :=
  [int32Constructor, int64Constructor, int128Constructor, int256Constructor, stringConstructor,
    bytesConstructor, doubleConstructor, boolTrueConstructor, boolFalseConstructor,
    nullConstructor]

variable (runtime : Runtime)

/-- `intValue`, of a number or of a string. -/
def intValue : NativeObject → Option (BitVec 32)
  | .numberWithInt value => some value
  | .numberWithLongLong value => some (value.setWidth 32)
  | .numberWithBool value => some (boolNumber value)
  | .numberWithDouble value => some (runtime.doubles.toInt32 value)
  | .string string => some (runtime.stringIntValue string)
  | _ => none

/-- `longLongValue`, of a number or of a string. -/
def longLongValue : NativeObject → Option (BitVec 64)
  | .numberWithInt value => some (value.signExtend 64)
  | .numberWithLongLong value => some value
  | .numberWithBool value => some ((boolNumber value).signExtend 64)
  | .numberWithDouble value => some (runtime.doubles.toInt64 value)
  | .string string => some (runtime.stringLongLongValue string)
  | _ => none

/-! ### The writer -/

/-- The value of an element of a vector, by the category of the type of the elements. -/
def itemValue (category : Category) (item : NativeObject) : Option Value :=
  match category with
  | .builtin .builtinInt32 => (intValue runtime item).map .int32
  | .builtin .builtinInt64 => (longLongValue runtime item).map .int64
  | .builtin .builtinString =>
      match item with
      | .string string => some (.string (some string))
      | _ => none
  | _ => some (.object (some item))

/-- What is written in front of a boxed value. -/
def writeSignature (boxed : Bool) (signature : BitVec 32) : List UInt8 :=
  if boxed then writeInt32 signature else []

/-- What is written for a vector without a value. -/
def writeNoVector (boxed : Bool) (unboxedConstructorSignature signature : BitVec 32) :
    List UInt8 :=
  if unboxedConstructorSignature ≠ 0 then writeSignature boxed signature ++ writeInt32 0
  else writeSignature boxed nullConstructor

/-- `writeValueWithType`. A value of another type has its row for an object and for a vector; a
type of vectors without an argument raises. -/
def writeValueWithType (serializeObject : Option NativeObject → Bool → Option (List UInt8))
    (value : Value) : TypeArgument → Option (List UInt8)
  | ⟨boxed, signature, _, _, .builtin category, _⟩ =>
      TL.writeValueWithType runtime.doubles value ⟨boxed, signature, category⟩
  | ⟨boxed, _, _, _, .object, _⟩ =>
      match value with
      | .object nativeObject => serializeObject nativeObject boxed
      | _ => some (writeSignature boxed nullConstructor)
  | ⟨boxed, signature, _, _, .vector, none⟩ =>
      match value with
      | .object _ => some (writeNoVector boxed signature signature)
      | .vector _ => none
      | _ => some (writeNoVector boxed signature universalVectorConstructor)
  | ⟨boxed, signature, _, _, .vector, some typeArgument⟩ =>
      match value with
      | .object _ => some (writeNoVector boxed signature signature)
      | .vector nativeObject => do
          let array := nativeObject.getD []
          let written ← array.mapM fun item => do
            let value ← itemValue runtime typeArgument.category item
            writeValueWithType serializeObject value typeArgument
          pure ((if signature ≠ 0 then writeSignature boxed universalVectorConstructor else []) ++
            writeInt32 (BitVec.ofNat 32 array.length) ++ written.flatten)
      | _ => some (writeNoVector boxed signature universalVectorConstructor)

/-- The values that `TLfillFieldsWithValues:` fills in, of which `insert` keeps the first one. -/
def fieldValue (fieldValues : List (BitVec 32 × Value)) (name : BitVec 32) : Option Value :=
  fieldValues.lookup name

/-- `TLMetaConstructor::serialize`. -/
def serialize (serializeObject : Option NativeObject → Bool → Option (List UInt8))
    (fieldValues : List (BitVec 32 × Value)) : List MetaField → Option (List UInt8)
  | [] => some []
  | field :: fields => do
      let written ← writeValueWithType runtime serializeObject
        ((fieldValue fieldValues field.name).getD .empty) field.type
      let rest ← serialize serializeObject fieldValues fields
      pure (written ++ rest)

/-- The array that is written for a field of a `TLMsgsAck`; a primitive has none. -/
def nativeArray : Value → Option (List NativeObject)
  | .object (some (.array items)) => some items
  | .vector nativeObject => some (nativeObject.getD [])
  | .object (some _) => none
  | .string (some _) => none
  | .bytes (some _) => none
  | _ => some []

/-- The fields of a `TLMsgsAck`, which are all written as vectors of `long`. -/
def serializeMsgsAck (fieldValues : List (BitVec 32 × Value)) :
    List MetaField → Option (List UInt8)
  | [] => some []
  | field :: fields => do
      let value ← fieldValue fieldValues field.name
      let array ← nativeArray value
      let items ← array.mapM (longLongValue runtime)
      let rest ← serializeMsgsAck fieldValues fields
      pure (writeSignature field.type.boxed field.type.unboxedConstructorSignature ++
        writeInt32 (BitVec.ofNat 32 array.length) ++ items.flatMap writeInt64 ++ rest)

variable (store : Store)

/-- The end of `TLMetaClassStore::serializeObject`, for an object with a constructor name. -/
def serializeNamed (serializeObject : Option NativeObject → Bool → Option (List UInt8))
    (constructorName : BitVec 32) (fieldValues : List (BitVec 32 × Value)) (boxed : Bool) :
    Option (List UInt8) :=
  match store.constructorsByName constructorName with
  | some constructor =>
      (serialize runtime serializeObject fieldValues constructor.fields).map fun written =>
        writeSignature boxed constructor.signature ++ written
  | none => some (writeSignature boxed nullConstructor)

/-- `TLMetaClassStore::serializeObject`. To `nil` every message gives zero, and what is no
`TLObject` raises, as does an object that has the signature of packed data and no packed data. An
object of a class whose constructor name is -1 writes no more than its signature. -/
def serializeObject : ℕ → Option NativeObject → Bool → Option (List UInt8)
  | 0, _, _ => none
  | fuel + 1, none, boxed => serializeNamed runtime store (serializeObject fuel) 0 [] boxed
  | fuel + 1, some object, boxed =>
      match object with
      | .bool boolValue => some (writeInt32 (boolConstructor boolValue))
      | .compressedObject compressedData =>
          (writeBytes compressedData).map fun written => writeSignature boxed gzipPacked ++ written
      | .writtenByHand constructorSignature serialized =>
          if constructorSignature = gzipPacked then none
          else some (writeSignature boxed constructorSignature ++ serialized)
      | .object objectClass fieldValues =>
          if objectClass.constructorSignature = gzipPacked then none
          else if objectClass.isMsgsAck then do
            let constructor ← store.constructorsByName objectClass.constructorName
            let written ← serializeMsgsAck runtime fieldValues constructor.fields
            pure (writeSignature boxed objectClass.constructorSignature ++ written)
          else if objectClass.constructorName = -1 then
            some (writeSignature boxed objectClass.constructorSignature)
          else
            serializeNamed runtime store (serializeObject fuel) objectClass.constructorName
              fieldValues boxed
      | _ => none

/-! ### The reader -/

/-- The native object of an element that was read. -/
def nativeValue : Value → Option NativeObject
  | .empty => none
  | .object nativeObject => nativeObject
  | .int32 value => some (.numberWithInt value)
  | .int64 value => some (.numberWithLongLong value)
  | .double value => some (.numberWithDouble value)
  | .bool value => some (.numberWithBool value)
  | .string nativeObject => nativeObject.map .string
  | .bytes nativeObject => nativeObject.map .data
  | .vector nativeObject => nativeObject.map .array

/-- The signature of an element of a vector. -/
def itemSignature (type : TypeArgument) : Parser (BitVec 32) :=
  if type.boxed then readInt32 else pure type.unboxedConstructorSignature

/-- The signature of a field. -/
def fieldSignature (type : TypeArgument) : Parser (BitVec 32) := do
  let signature ← itemSignature type
  if signature = universalVectorConstructor ∧ type.unboxedConstructorSignature ≠ 0 then
    pure type.unboxedConstructorSignature
  else pure signature

/-- An element of a vector: what is added to the array. -/
def constructItem (constructValue : BitVec 32 → Parser Value) (type : TypeArgument) :
    Parser (Option NativeObject) := do
  let signature ← itemSignature type
  let value ← constructValue signature
  pure (nativeValue value)

/-- A vector: as many elements as the count says, without those that are `nil`. -/
def constructVector (constructValue : BitVec 32 → Parser Value) (type : TypeArgument) :
    Parser Value := do
  let count ← (readInt32 : Parser (BitVec 32))
  let items ← Codec.times (constructItem constructValue type) count.toInt.toNat
  pure (.vector (some items.reduceOption))

/-- A field. -/
def constructField (constructValue : BitVec 32 → Parser Value) (type : TypeArgument) :
    Parser Value := do
  let signature ← fieldSignature type
  constructValue signature

/-- The loop of `TLMetaConstructor::construct`. -/
def constructFields (constructValue : BitVec 32 → Parser Value) :
    List MetaField → Parser (List Value)
  | [] => pure []
  | field :: fields => do
      let value ← constructField constructValue field.type
      let values ← constructFields constructValue fields
      pure (value :: values)

/-- An error ends the reader. -/
def fail {α : Type} : Parser α := fun _ => none

/-- `TLMetaConstructor::construct`; the class with the name of the constructor builds the object
out of the values. -/
def construct (constructValue : BitVec 32 → Parser Value) (constructor : MetaConstructor) :
    Parser Value := do
  let values ← constructFields constructValue constructor.fields
  match runtime.objectClasses constructor.name with
  | some objectClass =>
      let fieldValues := (constructor.fields.map MetaField.name).zip values
      pure (.object (some (.object objectClass fieldValues)))
  | none => fail

/-- The part of `TLMetaClassStore::constructValue` that looks into the tables. -/
def constructOther (constructValue : BitVec 32 → Parser Value) (signature : BitVec 32) :
    Parser Value :=
  match runtime.manualObjectParsers signature with
  | some parser => do
      let result ← parser
      pure (.object (some result))
  | none =>
      match store.constructorsBySignature signature with
      | some constructor => construct runtime constructValue constructor
      | none =>
          match store.vectorElementTypesByConstructor signature with
          | some type => constructVector constructValue type
          | none => fail

/-- What is in packed data. -/
def constructPacked (constructValue : BitVec 32 → Parser Value) : Parser Value := do
  let packedData ← (readBytes : Parser (List UInt8))
  match runtime.decompressGZip packedData with
  | some unpackedData =>
      match (readInt32 : Parser (BitVec 32)) unpackedData with
      | some (signature, unpacked) =>
          match constructValue signature unpacked with
          | some (value, _) => pure value
          | none => fail
      | none => fail
  | none => fail

/-- `TLMetaClassStore::constructValue`; the implied signature is the one of the context, or zero
without one. -/
def constructValue : ℕ → BitVec 32 → BitVec 32 → Parser Value
  | 0, _, _ => fail
  | fuel + 1, impliedSignature, signature =>
      if signature = gzipPacked then
        constructPacked runtime (constructValue fuel impliedSignature)
      else if signature ∈ builtinConstructors then
        TL.constructValue (fun _ _ => none) signature
      else
        constructOther runtime store (constructValue fuel 0)
          (if signature = universalVectorConstructor ∧ impliedSignature ≠ 0 then impliedSignature
          else signature)

end Telegraph.TL.TLMetaClassStore
