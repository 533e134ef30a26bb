import Mathlib.Data.List.Nodup
import Mathlib.Data.List.TakeWhile
import Telegraph.Coder.KeyValueDecoder

/-!
# Reading What Was Encoded

What the readers and skippers of the decoder do at the position of an encoded value, and how a
scan for a key passes over encoded fields. `skipField` has no case for an array of numbers: the
scan goes on inside of the array, and comes back to the next field only if the array is empty.

## Main results

* `skipField_at`: every other value is skipped up to its end.
* `scanFields_pass`: a scan passes over a field with another key.
* `skipToValueForRawKey_found`, `skipToValueForRawKey_absent`: **from a field the key is found
  wherever it is**, and the position stays where it was if it is nowhere.
-/

namespace Telegraph.Coder

open Bytes Memory

/-! ### The encoded values -/

/-- The objects of a value. -/
def Value.objects : Value → List CodedObject
  | .customClass object => [object]
  | .array objects => objects
  | .int32Dictionary entries => entries.map Prod.snd
  | _ => []

/-- The lengths of a value fit into the bytes there are for them, and the keys of a dictionary
are distinct. -/
def Value.Fits : Value → Prop
  | .string text => (utf8 text).length < 4294967296
  | .data bytes => bytes.length < 4294967296
  | .int32Array numbers => numbers.length < 2147483648
  | .customClass object => (encodeObjectValue object []).length < 4294967300
  | .array objects => (encodeValue (.array objects) []).length < 4294967300
  | .int32Dictionary entries =>
      (encodeValue (.int32Dictionary entries) []).length < 4294967300 ∧
        (entries.map Prod.fst).Nodup
  | _ => True

/-- Fields that the encoder can write: distinct keys of 1 to 1000 bytes, and values that fit. -/
structure Encodable (fields : Fields) : Prop where
  nodup : (fields.map Prod.fst).Nodup
  key_length : ∀ field ∈ fields, 0 < field.1.length ∧ field.1.length ≤ 1000
  fits : ∀ field ∈ fields, field.2.Fits

/-- The scan for a key can pass over the value: it is no array of numbers, unless an empty one. -/
def Skippable (key : List UInt8) (value : Value) : Prop :=
  ∀ numbers, value = .int32Array numbers → numbers = [] ∧ key ≠ []

/-! ### Single values -/

section Values

variable {data : List UInt8} {p n : ℕ}

@[simp] theorem FieldType.ofRaw_raw (t : FieldType) : FieldType.ofRaw t.raw = some t := by
  cases t <;> rfl

theorem length_writeLength_pos (n : ℕ) : 0 < (writeLength n []).length := by
  rw [writeLength, List.nil_append]
  exact List.length_pos_of_ne_nil (varint_ne_nil _ _)

/-- A length that fits is read back. -/
theorem readLength_at (h : At data p (writeLength n [])) (hn : n < 4294967296) :
    readLength data p = some (n, p + (writeLength n []).length) := by
  rw [writeLength, List.nil_append, Nat.mod_eq_of_lt hn] at h ⊢
  have hbound : n < 128 ^ (4 + 1) := by omega
  simp only [readLength, readVarint_at h hbound, Option.bind_eq_bind, Option.bind_some,
    Nat.mod_eq_of_lt hn]

theorem stringWithUTF8_utf8 (string : String) : stringWithUTF8 (utf8 string) = some string := by
  have hvalid : ByteArray.IsValidUTF8 ⟨(utf8 string).toArray⟩ := string.isValidUTF8
  rw [stringWithUTF8, String.fromUTF8?, dif_pos hvalid]
  rfl

theorem readInt32_at {number : BitVec 32} (h : At data p (toLE 4 number.toNat)) :
    readInt32 data p = some (number, p + 4) := by
  rw [readInt32, readLE_at h (by have := number.isLt; omega), Option.bind_eq_bind,
    Option.bind_some, BitVec.ofNat_toNat, BitVec.setWidth_eq]

theorem readInt64_at {number : BitVec 64} (h : At data p (toLE 8 number.toNat)) :
    readInt64 data p = some (number, p + 8) := by
  rw [readInt64, readLE_at h (by have := number.isLt; omega), Option.bind_eq_bind,
    Option.bind_some, BitVec.ofNat_toNat, BitVec.setWidth_eq]

/-- A string is read back. -/
theorem readString_at {string : String} (h : At data p (encodeValue (.string string) []))
    (hfits : (utf8 string).length < 4294967296) :
    readString data p =
      some (some string, p + (encodeValue (.string string) []).length) := by
  rw [encodeValue] at h ⊢
  obtain ⟨hlength, hbytes⟩ := at_append.mp h
  simp only [readString, readLength_at hlength hfits, Option.bind_eq_bind, Option.bind_some,
    readBytes_at hbytes, stringWithUTF8_utf8, List.length_append, Nat.add_assoc]

/-- Data is read back. -/
theorem readData_at {bytes : List UInt8} (h : At data p (encodeValue (.data bytes) []))
    (hfits : bytes.length < 4294967296) :
    readData data p = some (bytes, p + (encodeValue (.data bytes) []).length) := by
  rw [encodeValue] at h ⊢
  obtain ⟨hlength, hbytes⟩ := at_append.mp h
  simp only [readData, readLength_at hlength hfits, Option.bind_eq_bind, Option.bind_some,
    readBytes_at hbytes, List.length_append, Nat.add_assoc]

/-- Data is copied to a buffer as far as there is room. -/
theorem readToBuffer_at {bytes : List UInt8} {maxLength : ℕ}
    (h : At data p (encodeValue (.data bytes) [])) (hfits : bytes.length < 4294967296) :
    readToBuffer data maxLength p =
      some (bytes.take (maxLength % 4294967296),
        p + (encodeValue (.data bytes) []).length) := by
  rw [encodeValue] at h ⊢
  obtain ⟨hlength, hbytes⟩ := at_append.mp h
  have htake : At data (p + (writeLength bytes.length []).length)
      (bytes.take (maxLength % 4294967296)) := hbytes.of_prefix (List.take_prefix _ _)
  have hread := readBytes_at htake
  rw [List.length_take] at hread
  simp only [readToBuffer, readLength_at hlength hfits, Option.bind_eq_bind, Option.bind_some,
    hread, List.length_append, Nat.add_assoc]

theorem readNumbers_at {numbers : List (BitVec 32)}
    (h : At data p (numbers.flatMap fun number => toLE 4 number.toNat)) :
    readNumbers data numbers.length p =
      some (numbers, p + (numbers.flatMap fun number => toLE 4 number.toNat).length) := by
  induction numbers generalizing p with
  | nil => rfl
  | cons number numbers ih =>
      rw [List.flatMap_cons] at h ⊢
      obtain ⟨hnumber, hnumbers⟩ := at_append.mp h
      rw [length_toLE] at hnumbers
      simp only [List.length_cons, readNumbers, readInt32_at hnumber, Option.bind_eq_bind,
        Option.bind_some, ih hnumbers, List.length_append, length_toLE, Nat.add_assoc]

/-- An array of numbers is read back. -/
theorem readInt32Array_at {numbers : List (BitVec 32)}
    (h : At data p (encodeValue (.int32Array numbers) [])) (hfits : numbers.length < 2147483648) :
    readInt32Array data p =
      some (numbers, p + (encodeValue (.int32Array numbers) []).length) := by
  rw [encodeValue, List.nil_append] at h ⊢
  obtain ⟨hcount, hnumbers⟩ := at_append.mp h
  rw [length_toLE] at hnumbers
  have hbits : (BitVec.ofNat 32 numbers.length).toNat = numbers.length := by
    rw [BitVec.toNat_ofNat]
    omega
  have hint : (BitVec.ofNat 32 numbers.length).toInt.toNat = numbers.length := by
    rw [BitVec.toInt_eq_toNat_of_lt (by omega), hbits, Int.toNat_natCast]
  rw [← hbits] at hcount
  simp only [readInt32Array, readInt32_at hcount, Option.bind_eq_bind, Option.bind_some, hint,
    readNumbers_at hnumbers, List.length_append, length_toLE, Nat.add_assoc]

/-- What starts with its length is skipped. -/
theorem skipObject_at {bytes : List UInt8} (h : At data p (toLE 4 bytes.length ++ bytes))
    (hfits : bytes.length < 4294967296) :
    skipObject data p = some (p + (toLE 4 bytes.length ++ bytes).length) := by
  obtain ⟨hlength, -⟩ := at_append.mp h
  rw [skipObject, readLE_at hlength (by omega), Option.bind_eq_bind, Option.bind_some,
    List.length_append, length_toLE, Nat.add_assoc]

/-- An encoded object starts with its length. -/
theorem encodeObjectValue_eq (object : CodedObject) :
    ∃ bytes, encodeObjectValue object [] = toLE 4 bytes.length ++ bytes := by
  obtain ⟨className, fields⟩ := object
  exact ⟨_, encodeObjectValue_mk fields className⟩

/-- **A value that is no array of numbers is skipped up to its end.** -/
theorem skipField_at {value : Value} (htype : data[p]? = some value.fieldType.raw)
    (hvalue : At data (p + 1) (encodeValue value [])) (hfits : value.Fits)
    (hnumbers : ∀ numbers, value ≠ .int32Array numbers) :
    skipField data p = some (p + 1 + (encodeValue value []).length) := by
  have hskip : ∀ bytes, encodeValue value [] = toLE 4 bytes.length ++ bytes →
      (encodeValue value []).length < 4294967300 →
      skipObject data (p + 1) = some (p + 1 + (encodeValue value []).length) := by
    intro bytes hbytes hlength
    rw [hbytes] at hvalue hlength ⊢
    rw [List.length_append, length_toLE] at hlength
    exact skipObject_at hvalue (by omega)
  rw [skipField, htype, Option.bind_eq_bind, Option.bind_some, FieldType.ofRaw_raw]
  cases value with
  | string string =>
      rw [encodeValue] at hvalue ⊢
      obtain ⟨hlength, -⟩ := at_append.mp hvalue
      rw [Value.Fits] at hfits
      simp only [Value.fieldType, skipString, readLength_at hlength hfits, Option.bind_eq_bind,
        Option.bind_some, List.length_append, Nat.add_assoc]
  | data bytes =>
      rw [encodeValue] at hvalue ⊢
      obtain ⟨hlength, -⟩ := at_append.mp hvalue
      rw [Value.Fits] at hfits
      simp only [Value.fieldType, skipString, readLength_at hlength hfits, Option.bind_eq_bind,
        Option.bind_some, List.length_append, Nat.add_assoc]
  | int32 number =>
      rw [encodeValue, List.nil_append, length_toLE]
      rfl
  | int64 number =>
      rw [encodeValue, List.nil_append, length_toLE]
      rfl
  | double bits =>
      rw [encodeValue, List.nil_append, length_toLE]
      rfl
  | customClass object =>
      obtain ⟨bytes, hbytes⟩ := encodeObjectValue_eq object
      have hobject : encodeValue (.customClass object) [] = encodeObjectValue object [] := by
        rw [encodeValue]
      rw [Value.Fits] at hfits
      exact hskip bytes (hobject.trans hbytes) (hobject ▸ hfits)
  | array objects =>
      rw [Value.Fits] at hfits
      exact hskip _ (encodeValue_array objects) hfits
  | int32Dictionary entries =>
      rw [Value.Fits] at hfits
      exact hskip _ (encodeValue_int32Dictionary entries) hfits.1
  | int32Array numbers => exact absurd rfl (hnumbers numbers)

end Values

/-! ### The scan -/

section Scan

variable {data key other : List UInt8} {value : Value} {fields rest : Fields}
  {p q n passes scanEnd : ℕ}

/-- The bytes of a field. -/
theorem encodeKey_eq (key : List UInt8) (fieldType : FieldType) :
    encodeKey key fieldType [] = writeLength key.length [] ++ (key ++ [fieldType.raw]) := by
  rw [encodeKey, List.append_assoc]

/-- One pass of the loop over what is not the key. -/
theorem scanFields_step (hp : p < scanEnd) (hlength : readLength data p = some (n, q))
    (hn : n ≤ 1000)
    (hdiffers : n = key.length → ∃ bytes, readBytes data q key.length = some bytes ∧ key ≠ bytes) :
    scanFields data key scanEnd (passes + 1) p =
      (skipField data (q + n)).bind (scanFields data key scanEnd passes) := by
  have hshort : ¬ n > 1000 := by omega
  rw [scanFields, if_pos hp, hlength]
  by_cases heq : n = key.length
  · obtain ⟨bytes, hbytes, hne⟩ := hdiffers heq
    simp [heq, hbytes, hne, heq ▸ hshort]
  · simp [heq, hshort]

/-- The pass that finds the key. -/
theorem scanFields_key (hp : p < scanEnd) (hlength : key.length < 4294967296)
    (h : At data p (writeLength key.length [] ++ key)) :
    scanFields data key scanEnd (passes + 1) p =
      some (.found (p + (writeLength key.length []).length + key.length)) := by
  obtain ⟨hkeyLength, hkey⟩ := at_append.mp h
  simp [scanFields, hp, readLength_at hkeyLength hlength, readBytes_at hkey]

/-- The count of an empty array of numbers is passed over like two fields of no type. -/
theorem scanFields_zeros (hp : p + 4 ≤ scanEnd) (h : At data p [0, 0, 0, 0]) (hkey : key ≠ []) :
    scanFields data key scanEnd (passes + 2) p = scanFields data key scanEnd passes (p + 4) := by
  have hzeros : ∀ {q : ℕ}, q < scanEnd → At data q [0, 0] → ∀ passes,
      scanFields data key scanEnd (passes + 1) q =
        scanFields data key scanEnd passes (q + 2) := by
    intro q hq hat passes
    obtain ⟨hfirst, hrest⟩ := at_cons.mp hat
    obtain ⟨hsecond, -⟩ := at_cons.mp hrest
    have hlength : readLength data q = some (0, q + 1) := by
      simp [readLength, readVarint, hfirst]
    have hskip : skipField data (q + 1 + 0) = some (q + 2) := by
      simp [skipField, hsecond, FieldType.ofRaw]
    have hempty : 0 ≠ key.length := fun hzero => hkey (List.length_eq_zero_iff.mp hzero.symm)
    rw [scanFields_step hq hlength (by omega) fun hzero => absurd hzero hempty, hskip,
      Option.bind_some]
  obtain ⟨hfirst, hsecond⟩ := at_append.mp (show At data p ([0, 0] ++ [0, 0]) from h)
  rw [hzeros (by omega) hfirst, hzeros (q := p + 2) (by omega) hsecond]

/-- **A scan passes over a field with another key.** -/
theorem scanFields_pass (h : At data p (encodeFields [(other, value)] []))
    (hend : p + (encodeFields [(other, value)] []).length ≤ scanEnd)
    (hlength : 0 < other.length ∧ other.length ≤ 1000) (hfits : value.Fits) (hkey : other ≠ key)
    (hskippable : Skippable key value)
    (hpasses : n + (encodeFields [(other, value)] []).length ≤ passes) :
    ∃ left, n ≤ left ∧ scanFields data key scanEnd passes p =
      scanFields data key scanEnd left (p + (encodeFields [(other, value)] []).length) := by
  have hfield : encodeFields [(other, value)] [] = writeLength other.length [] ++
      (other ++ (value.fieldType.raw :: encodeValue value [])) := by
    rw [encodeFields_cons, encodeFields, List.append_nil, encodeKey_eq, List.append_assoc,
      List.append_assoc, List.singleton_append]
  rw [hfield] at h hend hpasses ⊢
  have hpos := length_writeLength_pos other.length
  obtain ⟨hotherLength, hrest⟩ := at_append.mp h
  obtain ⟨hother, hvalue⟩ := at_append.mp hrest
  obtain ⟨htype, hvalue⟩ := at_cons.mp hvalue
  have hread := readLength_at hotherLength (by omega)
  have hdiffers : other.length = key.length →
      ∃ bytes, readBytes data (p + (writeLength other.length []).length) key.length = some bytes ∧
        key ≠ bytes := by
    intro heq
    exact ⟨other, heq ▸ readBytes_at hother, hkey.symm⟩
  simp only [List.length_append, List.length_cons] at hend hpasses ⊢
  obtain ⟨passes, rfl⟩ : ∃ fewer, passes = fewer + 1 := ⟨passes - 1, by omega⟩
  rw [scanFields_step (by omega) hread hlength.2 hdiffers]
  by_cases hnumbers : ∃ numbers, value = .int32Array numbers
  · obtain ⟨numbers, rfl⟩ := hnumbers
    obtain ⟨rfl, hne⟩ := hskippable numbers rfl
    have hbytes : encodeValue (.int32Array []) [] = [0, 0, 0, 0] := by
      rw [encodeValue]
      rfl
    have hskip : skipField data (p + (writeLength other.length []).length + other.length) =
        some (p + (writeLength other.length []).length + other.length + 1) := by
      rw [skipField, htype]
      rfl
    rw [hbytes] at hvalue hend hpasses ⊢
    simp only [List.length_cons, List.length_nil] at hend hpasses ⊢
    obtain ⟨passes, rfl⟩ : ∃ fewer, passes = fewer + 2 := ⟨passes - 2, by omega⟩
    refine ⟨passes, by omega, ?_⟩
    rw [hskip, Option.bind_some, scanFields_zeros (by omega) hvalue hne]
    congr 1
    omega
  · refine ⟨passes, by omega, ?_⟩
    rw [skipField_at htype hvalue hfits fun numbers heq => hnumbers ⟨numbers, heq⟩,
      Option.bind_some]
    congr 1
    omega

/-- A scan passes over fields with other keys. -/
theorem scanFields_passes (hfields : ∀ field ∈ fields, (0 < field.1.length ∧
      field.1.length ≤ 1000) ∧ field.2.Fits ∧ field.1 ≠ key ∧ Skippable key field.2)
    (h : At data p (encodeFields fields []))
    (hend : p + (encodeFields fields []).length ≤ scanEnd)
    (hpasses : n + (encodeFields fields []).length ≤ passes) :
    ∃ left, n ≤ left ∧ scanFields data key scanEnd passes p =
      scanFields data key scanEnd left (p + (encodeFields fields []).length) := by
  induction fields generalizing p passes with
  | nil =>
      rw [encodeFields] at hpasses ⊢
      exact ⟨passes, hpasses, rfl⟩
  | cons field fields ih =>
      obtain ⟨other, value⟩ := field
      have hsplit : encodeFields ((other, value) :: fields) [] =
          encodeFields [(other, value)] [] ++ encodeFields fields [] :=
        encodeFields_append_fields [(other, value)] fields
      rw [hsplit] at h hend hpasses ⊢
      rw [List.length_append] at hend hpasses ⊢
      obtain ⟨hfield, hrest⟩ := at_append.mp h
      obtain ⟨hlength, hfits, hkey, hskippable⟩ := hfields _ List.mem_cons_self
      have hroom : n + (encodeFields fields []).length +
          (encodeFields [(other, value)] []).length ≤ passes := by omega
      have hfieldEnd : p + (encodeFields [(other, value)] []).length ≤ scanEnd := by omega
      obtain ⟨passes', hpasses', hscan⟩ :=
        scanFields_pass hfield hfieldEnd hlength hfits hkey hskippable hroom
      obtain ⟨left, hleft, hscans⟩ := ih (fun field hmem => hfields field (.tail _ hmem)) hrest
        (by omega) hpasses'
      exact ⟨left, hleft, by rw [hscan, hscans, Nat.add_assoc]⟩

theorem scanFields_end (scanEnd passes : ℕ) :
    scanFields data key scanEnd passes scanEnd = some (.ended scanEnd) := by
  cases passes <;> simp [scanFields]

/-- A scan over fields with other keys ends behind them. -/
theorem scanFields_ended (hfields : ∀ field ∈ fields, (0 < field.1.length ∧
      field.1.length ≤ 1000) ∧ field.2.Fits ∧ field.1 ≠ key ∧ Skippable key field.2)
    (h : At data p (encodeFields fields []))
    (hend : p + (encodeFields fields []).length = scanEnd) :
    scanFields data key scanEnd (scanEnd - p) p = some (.ended scanEnd) := by
  have hroom : 0 + (encodeFields fields []).length ≤ scanEnd - p := by omega
  obtain ⟨left, -, hscan⟩ := scanFields_passes hfields h hend.le hroom
  rw [hscan, hend, scanFields_end]

/-- A scan over fields with other keys finds the key behind them. -/
theorem scanFields_found (hfields : ∀ field ∈ fields, (0 < field.1.length ∧
      field.1.length ≤ 1000) ∧ field.2.Fits ∧ field.1 ≠ key ∧ Skippable key field.2)
    (hkey : key.length ≤ 1000) (h : At data p (encodeFields (fields ++ (key, value) :: rest) []))
    (hend : p + (encodeFields (fields ++ (key, value) :: rest) []).length ≤ scanEnd) :
    scanFields data key scanEnd (scanEnd - p) p =
      some (.found (p + (encodeFields fields []).length + (writeLength key.length []).length +
        key.length)) := by
  rw [encodeFields_append_fields, encodeFields_cons, encodeKey] at h hend
  have hpos := length_writeLength_pos key.length
  obtain ⟨hbefore, hbehind⟩ := at_append.mp h
  have hkeyAt : At data (p + (encodeFields fields []).length)
      (writeLength key.length [] ++ key) := by
    rw [List.append_assoc] at hbehind
    exact (at_append.mp hbehind).1
  simp only [List.length_append] at hend
  have hroom : 1 + (encodeFields fields []).length ≤ scanEnd - p := by omega
  have hbeforeEnd : p + (encodeFields fields []).length ≤ scanEnd := by omega
  obtain ⟨left, hleft, hscan⟩ := scanFields_passes hfields hbefore hbeforeEnd hroom
  obtain ⟨left, rfl⟩ : ∃ fewer, left = fewer + 1 := ⟨left - 1, by omega⟩
  rw [hscan, scanFields_key (by omega) (by omega) hkeyAt]

end Scan

/-! ### From field to field -/

/-- The fields before the one with the key. -/
def fieldsBefore (fields : Fields) (key : List UInt8) : Fields :=
  fields.takeWhile fun field => field.1 ≠ key

/-- The fields a scan from field `j` passes over until it finds the key, if it does. -/
def fieldsPassed (fields : Fields) (j : ℕ) (key : List UInt8) : Fields :=
  fieldsBefore (fields.drop j ++ fields.take j) key

/-- The decoder has the fields in its window, from `base` on, and is at field `j`. -/
structure AtField (data : List UInt8) (fields : Fields) (base j : ℕ)
    (decoder : PSKeyValueDecoder) : Prop where
  written : At data base (encodeFields fields [])
  le : j ≤ fields.length
  begin_eq : decoder.beginPtr = base
  end_eq : decoder.endPtr = base + (encodeFields fields []).length
  current_eq : decoder.currentPtr = base + (encodeFields (fields.take j) []).length

section Position

variable {data key : List UInt8} {value : Value} {fields before rest : Fields} {base j : ℕ}
  {self : PSKeyValueDecoder}

theorem fieldsBefore_append (hbefore : ∀ field ∈ before, field.1 ≠ key) :
    fieldsBefore (before ++ (key, value) :: rest) key = before := by
  rw [fieldsBefore, List.takeWhile_append_of_pos fun field hfield =>
    decide_eq_true (hbefore field hfield), List.takeWhile_cons_of_neg (by simp), List.append_nil]

theorem fieldsBefore_of_absent (h : ∀ field ∈ fields, field.1 ≠ key) :
    fieldsBefore fields key = fields :=
  List.takeWhile_eq_self_iff.mpr fun field hfield => decide_eq_true (h field hfield)

/-- The bytes before the position, and those behind it. -/
theorem AtField.split (h : AtField data fields base j self) :
    At data base (encodeFields (fields.take j) []) ∧
      At data self.currentPtr (encodeFields (fields.drop j) []) ∧
      self.currentPtr + (encodeFields (fields.drop j) []).length = self.endPtr := by
  have hsplit : encodeFields fields [] =
      encodeFields (fields.take j) [] ++ encodeFields (fields.drop j) [] := by
    rw [← encodeFields_append_fields, List.take_append_drop]
  have hwritten := h.written
  rw [hsplit] at hwritten
  obtain ⟨htake, hdrop⟩ := at_append.mp hwritten
  refine ⟨htake, h.current_eq ▸ hdrop, ?_⟩
  rw [h.current_eq, h.end_eq, hsplit, List.length_append, Nat.add_assoc]

/-- What a scan over some of the fields may rely on. -/
theorem Encodable.scanned (h : Encodable fields) {scanned : Fields}
    (hmem : ∀ field ∈ scanned, field ∈ fields) (hkeys : ∀ field ∈ scanned, field.1 ≠ key)
    (hskippable : ∀ field ∈ scanned, Skippable key field.2) :
    ∀ field ∈ scanned, (0 < field.1.length ∧ field.1.length ≤ 1000) ∧ field.2.Fits ∧
      field.1 ≠ key ∧ Skippable key field.2 :=
  fun field hfield => ⟨h.key_length field (hmem field hfield), h.fits field (hmem field hfield),
    hkeys field hfield, hskippable field hfield⟩

/-- **A key that is nowhere leaves the position where it was.** -/
theorem skipToValueForRawKey_absent (hfields : Encodable fields)
    (h : AtField data fields base j self) (habsent : ∀ field ∈ fields, field.1 ≠ key)
    (hskippable : ∀ field ∈ fieldsPassed fields j key, Skippable key field.2) :
    self.skipToValueForRawKey data key = some (false, self) := by
  have hmem : ∀ field ∈ fields.drop j ++ fields.take j, field ∈ fields := by
    intro field hfield
    rcases List.mem_append.mp hfield with hdrop | htake
    · exact List.mem_of_mem_drop hdrop
    · exact List.mem_of_mem_take htake
  rw [fieldsPassed, fieldsBefore_of_absent fun field hfield => habsent field (hmem field hfield)]
    at hskippable
  obtain ⟨htakeAt, hdropAt, hend⟩ := h.split
  have hfirst : scanFields data key self.endPtr (self.endPtr - self.currentPtr)
      self.currentPtr = some (.ended self.endPtr) := scanFields_ended (hfields.scanned
    (fun field hfield => hmem field (List.mem_append_left _ hfield))
    (fun field hfield => habsent field (List.mem_of_mem_drop hfield))
    fun field hfield => hskippable field (List.mem_append_left _ hfield)) hdropAt hend
  have hsecond : scanFields data key self.currentPtr (self.currentPtr - base) base =
      some (.ended self.currentPtr) := scanFields_ended (hfields.scanned
    (fun field hfield => hmem field (List.mem_append_right _ hfield))
    (fun field hfield => habsent field (List.mem_of_mem_take hfield))
    fun field hfield => hskippable field (List.mem_append_right _ hfield)) htakeAt
    h.current_eq.symm
  rw [← h.begin_eq] at hsecond
  simp only [PSKeyValueDecoder.skipToValueForRawKey, hfirst, hsecond, Option.bind_eq_bind,
    Option.bind_some]

/-- **The key of a field is found from wherever the decoder is.** -/
theorem skipToValueForRawKey_found (hfields : Encodable fields)
    (h : AtField data fields base j self) (hsplit : fields = before ++ (key, value) :: rest)
    (hskippable : ∀ field ∈ fieldsPassed fields j key, Skippable key field.2) :
    self.skipToValueForRawKey data key =
      some (true, { self with currentPtr :=
        base + (encodeFields before []).length + (writeLength key.length []).length +
          key.length }) := by
  obtain ⟨htakeAt, hdropAt, hend⟩ := h.split
  have hkeyLength := (hfields.key_length (key, value) (by simp [hsplit])).2
  have hnodup := hfields.nodup
  rw [hsplit, List.map_append, List.map_cons, List.nodup_middle, List.nodup_cons] at hnodup
  have hothers : ∀ field, field ∈ before ∨ field ∈ rest → field.1 ≠ key := by
    rintro field hfield rfl
    refine hnodup.1 (List.mem_append.mpr (hfield.imp ?_ ?_)) <;> exact List.mem_map_of_mem
  have hmem : ∀ field, field ∈ before ∨ field ∈ rest → field ∈ fields := by
    intro field hfield
    rw [hsplit, List.mem_append, List.mem_cons]
    exact hfield.imp_right .inr
  rcases Nat.lt_or_ge before.length j with hlt | hge
  · -- the key is before the position: the scan ends once, and finds it from the beginning
    have hdrop : fields.drop j = rest.drop (j - (before.length + 1)) := by
      rw [hsplit, List.drop_append, List.drop_of_length_le (by omega), List.nil_append,
        show j - before.length = j - (before.length + 1) + 1 by omega, List.drop_succ_cons]
    have htake : fields.take j =
        before ++ (key, value) :: rest.take (j - (before.length + 1)) := by
      rw [hsplit, List.take_append, List.take_of_length_le (by omega),
        show j - before.length = j - (before.length + 1) + 1 by omega, List.take_succ_cons]
    have hrest : ∀ field ∈ fields.drop j, field ∈ rest := fun field hfield =>
      List.mem_of_mem_drop (hdrop ▸ hfield)
    rw [fieldsPassed, htake, ← List.append_assoc, fieldsBefore_append] at hskippable
    · have hfirst : scanFields data key self.endPtr (self.endPtr - self.currentPtr)
          self.currentPtr = some (.ended self.endPtr) := scanFields_ended (hfields.scanned
        (fun field hfield => hmem field (.inr (hrest field hfield)))
        (fun field hfield => hothers field (.inr (hrest field hfield)))
        fun field hfield => hskippable field (List.mem_append_left _ hfield)) hdropAt hend
      have hcurrent := h.current_eq
      rw [htake] at htakeAt hcurrent
      have hsecond := scanFields_found (hfields.scanned
        (fun field hfield => hmem field (.inl hfield))
        (fun field hfield => hothers field (.inl hfield))
        fun field hfield => hskippable field (List.mem_append_right _ hfield)) hkeyLength htakeAt
        hcurrent.ge
      rw [← h.begin_eq] at hsecond ⊢
      simp only [PSKeyValueDecoder.skipToValueForRawKey, hfirst, hsecond, Option.bind_eq_bind,
        Option.bind_some]
    · intro field hfield
      rcases List.mem_append.mp hfield with hfield | hfield
      · exact hothers field (.inr (hrest field hfield))
      · exact hothers field (.inl hfield)
  · -- the key is behind the position
    have hdrop : fields.drop j = before.drop j ++ (key, value) :: rest := by
      rw [hsplit, List.drop_append_of_le_length hge]
    have htake : fields.take j = before.take j := by
      rw [hsplit, List.take_append_of_le_length hge]
    have hbefore : ∀ field ∈ before.drop j, field ∈ before := fun _ => List.mem_of_mem_drop
    rw [fieldsPassed, hdrop, List.append_assoc, List.cons_append, fieldsBefore_append]
      at hskippable
    · rw [hdrop] at hdropAt hend
      have hfirst := scanFields_found (hfields.scanned
        (fun field hfield => hmem field (.inl (hbefore field hfield)))
        (fun field hfield => hothers field (.inl (hbefore field hfield)))
        hskippable) hkeyLength hdropAt hend.le
      have hposition : self.currentPtr + (encodeFields (before.drop j) []).length =
          base + (encodeFields before []).length := by
        rw [h.current_eq, htake, Nat.add_assoc, ← List.length_append,
          ← encodeFields_append_fields, List.take_append_drop]
      rw [hposition] at hfirst
      simp only [PSKeyValueDecoder.skipToValueForRawKey, hfirst, Option.bind_eq_bind,
        Option.bind_some]
    · intro field hfield
      exact hothers field (.inl (hbefore field hfield))

end Position

end Telegraph.Coder
