import Telegraph.Coder.KeyValueEncoder

/-!
# The Key-Value Decoder

`PSKeyValueDecoder` reads a window of a block of data. A decode call scans for the key from where
the call before it ended to the end of the window, then from the beginning to where it started,
and reads the value behind the key. An object is made by the `initWithKeyValueCoder:` of its class
from a decoder over the object's own window, which all objects read by one decoder share one
after the other.

The initialiser of a class is a program: the next decode call, and how it goes on with the
answer. The table of classes, and the conversions between strings, numbers and floating point
numbers, are parameters. A read outside of the block has no result.
-/

namespace Telegraph.Coder

open Bytes Memory

/-! ### Reading and skipping values -/

section Values

variable (data : List UInt8)

/-- `readLength`. -/
def readLength (p : ℕ) : Option (ℕ × ℕ) := do
  let (value, p) ← readVarint data 4 p
  some (value % 4294967296, p)

/-- `initWithBytes:length:encoding:`, of UTF-8. -/
def stringWithUTF8 (bytes : List UInt8) : Option String := String.fromUTF8? ⟨bytes.toArray⟩

/-- `readString`. -/
def readString (p : ℕ) : Option (Option String × ℕ) := do
  let (stringLength, p) ← readLength data p
  let bytes ← readBytes data p stringLength
  some (stringWithUTF8 bytes, p + stringLength)

/-- `skipString`. -/
def skipString (p : ℕ) : Option ℕ := do
  let (stringLength, p) ← readLength data p
  some (p + stringLength)

/-- `readInt32`. -/
def readInt32 (p : ℕ) : Option (BitVec 32 × ℕ) := do
  let number ← readLE data p 4
  some (BitVec.ofNat 32 number, p + 4)

/-- `readInt64` and, for the bits of a `double`, `readDouble`. -/
def readInt64 (p : ℕ) : Option (BitVec 64 × ℕ) := do
  let number ← readLE data p 8
  some (BitVec.ofNat 64 number, p + 8)

/-- `readData`. -/
def readData (p : ℕ) : Option (List UInt8 × ℕ) := do
  let (length, p) ← readLength data p
  let bytes ← readBytes data p length
  some (bytes, p + length)

/-- `readBytes`: what is copied to a buffer of `maxLength` bytes. -/
def readToBuffer (maxLength p : ℕ) : Option (List UInt8 × ℕ) := do
  let (length, p) ← readLength data p
  let bytes ← readBytes data p (min (maxLength % 4294967296) length)
  some (bytes, p + length)

/-- The numbers of an `int32_t` array, `n` of them. -/
def readNumbers : ℕ → ℕ → Option (List (BitVec 32) × ℕ)
  | 0, p => some ([], p)
  | n + 1, p => do
      let (number, p) ← readInt32 data p
      let (numbers, p) ← readNumbers n p
      some (number :: numbers, p)

/-- The array of `decodeInt32ArrayForCKey:`; a negative count reads nothing. -/
def readInt32Array (p : ℕ) : Option (List (BitVec 32) × ℕ) := do
  let (count, p) ← readInt32 data p
  readNumbers data count.toInt.toNat p

/-- `skipObject`, `skipArray`, `skipInt32Dictionary`: a length, and as many bytes. -/
def skipObject (p : ℕ) : Option ℕ := do
  let objectLength ← readLE data p 4
  some (p + 4 + objectLength)

/-- `skipField`. -/
def skipField (p : ℕ) : Option ℕ := do
  let fieldType ← data[p]?
  let p := p + 1
  match FieldType.ofRaw fieldType with
  | some .string => skipString data p
  | some .int32 => some (p + 4)
  | some .int64 => some (p + 8)
  | some .customClass => skipObject data p
  | some .array => skipObject data p
  | some .data => skipString data p
  | some .int32Dictionary => skipObject data p
  | some .double => some (p + 8)
  -- no case for an array of numbers, and none for other bytes
  | some .int32Array => some p
  | none => some p

end Values

/-! ### The scan for a key -/

/-- A decoder: its window and its position. -/
structure PSKeyValueDecoder where
  beginPtr : ℕ
  endPtr : ℕ
  currentPtr : ℕ
deriving DecidableEq

/-- How a scan ends: behind the key, at a key that is too long, or where it should. -/
inductive Scanned where
  | found (p : ℕ)
  | stopped (p : ℕ)
  | ended (p : ℕ)
deriving DecidableEq

section Scan

variable (data key : List UInt8)

/-- The loop of `skipToValueForRawKey`. Every pass moves the position forward, so that there are
no more passes than bytes. -/
def scanFields (scanEnd : ℕ) : ℕ → ℕ → Option Scanned
  | 0, p => if p < scanEnd then none else some (.ended p)
  | passes + 1, p =>
      if p < scanEnd then do
        let (compareKeyLength, p) ← readLength data p
        let differs ←
          if compareKeyLength ≠ key.length then some true
          else (readBytes data p key.length).map (decide <| key ≠ ·)
        if differs then
          if compareKeyLength > 1000 then some (.stopped p)
          else do
            let p ← skipField data (p + compareKeyLength)
            scanFields scanEnd passes p
        else some (.found (p + compareKeyLength))
      else some (.ended p)

namespace PSKeyValueDecoder

/-- `skipToValueForRawKey`. -/
def skipToValueForRawKey (self : PSKeyValueDecoder) : Option (Bool × PSKeyValueDecoder) := do
  let middlePtr := self.currentPtr
  match ← scanFields data key self.endPtr (self.endPtr - middlePtr) middlePtr with
  | .found p => some (true, { self with currentPtr := p })
  | .stopped p => some (false, { self with currentPtr := p })
  | .ended _ =>
      match ← scanFields data key middlePtr (middlePtr - self.beginPtr) self.beginPtr with
      | .found p => some (true, { self with currentPtr := p })
      | .stopped p => some (false, { self with currentPtr := p })
      | .ended p => some (false, { self with currentPtr := p })

end PSKeyValueDecoder

end Scan

/-! ### The calls -/

/-- A decode call. -/
inductive Call where
  | decodeString (key : List UInt8)
  | decodeInt32 (key : List UInt8)
  | decodeInt64 (key : List UInt8)
  | decodeObject (key : List UInt8)
  | decodeArray (key : List UInt8)
  | decodeData (key : List UInt8)
  | decodeBytes (key : List UInt8) (length : ℕ)
  | decodeInt32Array (key : List UInt8)
  | decodeInt32Dictionary (key : List UInt8)
  | decodeDouble (key : List UInt8)

/-- What a decode call returns; of `decodeBytesForCKey:value:length:`, what it copies. -/
inductive Answer where
  | string (string : Option String)
  | int32 (number : BitVec 32)
  | int64 (number : BitVec 64)
  | object (object : Option CodedObject)
  | array (objects : Option (List CodedObject))
  | data (bytes : Option (List UInt8))
  | bytes (copied : Option (List UInt8))
  | int32Array (numbers : Option (List (BitVec 32)))
  | int32Dictionary (entries : Option (List (BitVec 32 × CodedObject)))
  | double (bits : BitVec 64)

/-- An `initWithKeyValueCoder:`: the object it returns, or a decode call and how it goes on. -/
inductive Initializer where
  | done (object : Option CodedObject)
  | decode (call : Call) (next : Answer → Initializer)

/-- The conversions of a value that is asked for by the method of another type. -/
structure Conversions where
  intValue : String → BitVec 32
  longLongValue : String → BitVec 64
  doubleValue : String → BitVec 64
  int32OfDouble : BitVec 64 → BitVec 32
  doubleOfInt32 : BitVec 32 → BitVec 64
  doubleOfInt64 : BitVec 64 → BitVec 64

section Objects

variable (data : List UInt8) (readObject : ℕ → Option (Option CodedObject × ℕ))

/-- The objects of an array, `count` of them; one that is nil is left out. -/
def readObjects : ℕ → ℕ → Option (List CodedObject × ℕ)
  | 0, p => some ([], p)
  | count + 1, p => do
      let (object, p) ← readObject p
      let (objects, p) ← readObjects count p
      some (object.toList ++ objects, p)

/-- `readArray`. -/
def readArray (p : ℕ) : Option (List CodedObject × ℕ) := do
  let objectLength ← readLE data p 4
  let objectEnd := p + 4 + objectLength
  let (count, p) ← readLength data (p + 4)
  let (array, _) ← readObjects readObject count p
  some (array, objectEnd)

/-- `dict[key] = object`. -/
def setObject (dict : List (BitVec 32 × CodedObject)) (key : BitVec 32) (object : CodedObject) :
    List (BitVec 32 × CodedObject) :=
  dict.filter (·.1 ≠ key) ++ [(key, object)]

/-- The entries of a dictionary, `count` of them; one whose object is nil is left out. -/
def readEntries : ℕ → List (BitVec 32 × CodedObject) → ℕ →
    Option (List (BitVec 32 × CodedObject) × ℕ)
  | 0, dict, p => some (dict, p)
  | count + 1, dict, p => do
      let (key, p) ← readInt32 data p
      let (object, p) ← readObject p
      readEntries count (object.elim dict (setObject dict key)) p

/-- `readInt32Dictionary`. -/
def readInt32Dictionary (p : ℕ) : Option (List (BitVec 32 × CodedObject) × ℕ) := do
  let objectLength ← readLE data p 4
  let objectEnd := p + 4 + objectLength
  let (count, p) ← readLength data (p + 4)
  let (dict, _) ← readEntries data readObject count [] p
  some (dict, objectEnd)

end Objects

/-! ### The decode methods -/

namespace PSKeyValueDecoder

section Methods

variable (conversions : Conversions) (data : List UInt8)
  (readObject : ℕ → Option (Option CodedObject × ℕ)) (self : PSKeyValueDecoder) (key : List UInt8)

/-- What the decode methods share: where there is no key `absent` is returned, and of a type
that the method does not read the value is skipped, from behind the byte of the type. -/
def decodeForRawKey {α : Type} (absent : α) (read : FieldType → Option (ℕ → Option (α × ℕ))) :
    Option (α × PSKeyValueDecoder) := do
  match ← self.skipToValueForRawKey data key with
  | (false, self) => some (absent, self)
  | (true, self) =>
      let fieldType ← data[self.currentPtr]?
      let p := self.currentPtr + 1
      match (FieldType.ofRaw fieldType).bind read with
      | some reader => do
          let (value, p) ← reader p
          some (value, { self with currentPtr := p })
      | none => do
          let p ← skipField data p
          some (absent, { self with currentPtr := p })

/-- `decodeStringForRawKey`. -/
def decodeStringForRawKey : Option (Option String × PSKeyValueDecoder) :=
  self.decodeForRawKey data key none fun
    | .string => some (readString data)
    | .int32 => some fun p => do
        let (number, p) ← readInt32 data p
        some (some (toString number.toInt), p)
    | .int64 => some fun p => do
        let (number, p) ← readInt64 data p
        some (some (toString number.toInt), p)
    | _ => none

/-- `decodeInt32ForRawKey`. -/
def decodeInt32ForRawKey : Option (BitVec 32 × PSKeyValueDecoder) :=
  self.decodeForRawKey data key 0 fun
    | .string => some fun p => do
        let (string, p) ← readString data p
        some (string.elim 0 conversions.intValue, p)
    | .int32 => some (readInt32 data)
    | .int64 => some fun p => do
        let (number, p) ← readInt64 data p
        some (number.setWidth 32, p)
    | _ => none

/-- `decodeInt64ForRawKey`. -/
def decodeInt64ForRawKey : Option (BitVec 64 × PSKeyValueDecoder) :=
  self.decodeForRawKey data key 0 fun
    | .string => some fun p => do
        let (string, p) ← readString data p
        some (string.elim 0 conversions.longLongValue, p)
    | .int32 => some fun p => do
        let (number, p) ← readInt32 data p
        some (number.signExtend 64, p)
    | .int64 => some (readInt64 data)
    | _ => none

/-- `decodeObjectForRawKey`. -/
def decodeObjectForRawKey : Option (Option CodedObject × PSKeyValueDecoder) :=
  self.decodeForRawKey data key none fun
    | .customClass => some readObject
    | _ => none

/-- `decodeArrayForRawKey`. -/
def decodeArrayForRawKey : Option (Option (List CodedObject) × PSKeyValueDecoder) :=
  self.decodeForRawKey data key none fun
    | .array => some fun p => do
        let (array, p) ← readArray data readObject p
        some (some array, p)
    | _ => none

/-- `decodeDataForRawKey`. -/
def decodeDataForRawKey : Option (Option (List UInt8) × PSKeyValueDecoder) :=
  self.decodeForRawKey data key none fun
    | .data => some fun p => do
        let (bytes, p) ← readData data p
        some (some bytes, p)
    | _ => none

/-- `decodeBytesForRawKey`. -/
def decodeBytesForRawKey (maxLength : ℕ) : Option (Option (List UInt8) × PSKeyValueDecoder) :=
  self.decodeForRawKey data key none fun
    | .data => some fun p => do
        let (bytes, p) ← readToBuffer data maxLength p
        some (some bytes, p)
    | _ => none

/-- `decodeInt32ArrayForCKey:`, which skips a value of another type from the byte of its type. -/
def decodeInt32ArrayForCKey : Option (Option (List (BitVec 32)) × PSKeyValueDecoder) := do
  match ← self.skipToValueForRawKey data key with
  | (false, self) => some (none, self)
  | (true, self) =>
      let fieldType ← data[self.currentPtr]?
      if FieldType.ofRaw fieldType = some .int32Array then
        let (numbers, p) ← readInt32Array data (self.currentPtr + 1)
        some (some numbers, { self with currentPtr := p })
      else
        let p ← skipField data self.currentPtr
        some (none, { self with currentPtr := p })

/-- `decodeInt32DictionaryForCKey:`. -/
def decodeInt32DictionaryForCKey :
    Option (Option (List (BitVec 32 × CodedObject)) × PSKeyValueDecoder) :=
  self.decodeForRawKey data key none fun
    | .int32Dictionary => some fun p => do
        let (dict, p) ← readInt32Dictionary data readObject p
        some (some dict, p)
    | _ => none

/-- `decodeDoubleForCKey:`. -/
def decodeDoubleForCKey : Option (BitVec 64 × PSKeyValueDecoder) :=
  self.decodeForRawKey data key 0 fun
    | .string => some fun p => do
        let (string, p) ← readString data p
        let number := conversions.int32OfDouble (string.elim 0 conversions.doubleValue)
        some (conversions.doubleOfInt32 number, p)
    | .int32 => some fun p => do
        let (number, p) ← readInt32 data p
        some (conversions.doubleOfInt32 number, p)
    | .int64 => some fun p => do
        let (number, p) ← readInt64 data p
        some (conversions.doubleOfInt64 number, p)
    | .double => some (readInt64 data)
    | _ => none

/-- A decode call: the answer, and the decoder after it. -/
def decode : Call → Option (Answer × PSKeyValueDecoder)
  | .decodeString key => (self.decodeStringForRawKey data key).map (Prod.map .string id)
  | .decodeInt32 key => (self.decodeInt32ForRawKey conversions data key).map (Prod.map .int32 id)
  | .decodeInt64 key => (self.decodeInt64ForRawKey conversions data key).map (Prod.map .int64 id)
  | .decodeObject key =>
      (self.decodeObjectForRawKey data readObject key).map (Prod.map .object id)
  | .decodeArray key => (self.decodeArrayForRawKey data readObject key).map (Prod.map .array id)
  | .decodeData key => (self.decodeDataForRawKey data key).map (Prod.map .data id)
  | .decodeBytes key length =>
      (self.decodeBytesForRawKey data key length).map (Prod.map .bytes id)
  | .decodeInt32Array key => (self.decodeInt32ArrayForCKey data key).map (Prod.map .int32Array id)
  | .decodeInt32Dictionary key =>
      (self.decodeInt32DictionaryForCKey data readObject key).map (Prod.map .int32Dictionary id)
  | .decodeDouble key => (self.decodeDoubleForCKey conversions data key).map (Prod.map .double id)

/-- An initialiser run on a decoder. -/
def runInitializer : Initializer → PSKeyValueDecoder → Option (Option CodedObject)
  | .done object, _ => some object
  | .decode call next, self => do
      let (answer, self) ← self.decode conversions data readObject call
      runInitializer (next answer) self

end Methods

end PSKeyValueDecoder

section Reader

variable (conversions : Conversions) (objc_getClass : List UInt8 → Option Initializer)
  (data : List UInt8)

/-- `readObject`, of objects nested `depth` deep. -/
def readObject : ℕ → ℕ → Option (Option CodedObject × ℕ)
  | 0, _ => none
  | depth + 1, p => do
      let objectLength ← readLE data p 4
      let p := p + 4
      let objectEnd := p + objectLength
      let className ← readCString data p
      let p := p + (className.length + 1)
      match objc_getClass className with
      | none => some (none, objectEnd)
      | some initializer => do
          let object ← PSKeyValueDecoder.runInitializer conversions data (readObject depth)
            initializer ⟨p, objectEnd, p⟩
          some (object, objectEnd)

/-- `initWithData:`. -/
def PSKeyValueDecoder.initWithData : PSKeyValueDecoder := ⟨0, data.length, 0⟩

/-- Decode calls one after the other: their answers, and the decoder after them. -/
def decodeCalls (depth : ℕ) : List Call → PSKeyValueDecoder →
    Option (List Answer × PSKeyValueDecoder)
  | [], self => some ([], self)
  | call :: calls, self => do
      let (answer, self) ←
        self.decode conversions data (readObject conversions objc_getClass data depth) call
      let (answers, self) ← decodeCalls depth calls self
      some (answer :: answers, self)

end Reader

end Telegraph.Coder
