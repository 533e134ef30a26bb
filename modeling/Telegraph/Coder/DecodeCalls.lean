import Telegraph.Coder.FieldScan

/-!
# Single Decode Calls

What one decode call answers, and where it leaves the decoder: at the field behind the one with
the key, or where it was if there is none. A method that does not read the type of the value skips
from behind the byte of the type, so that the first byte of the value is taken for a type; only
`decodeInt32ArrayForCKey:` goes back one byte first.

## Main results

* `decode_absent`: an absent key is answered by nil or zero.
* `decode_found`: **a value is answered by the method of its type, and the decoder is at the next
  field** behind every value that the method reads.
* `decode_mismatch`: so it is behind a value of another type where that is skipped as it should be.
-/

namespace Telegraph.Coder

open Bytes Memory

/-! ### What is asked -/

namespace Call

/-- The key that is asked. -/
def key : Call → List UInt8
  | decodeString key => key
  | decodeInt32 key => key
  | decodeInt64 key => key
  | decodeObject key => key
  | decodeArray key => key
  | decodeData key => key
  | decodeBytes key _ => key
  | decodeInt32Array key => key
  | decodeInt32Dictionary key => key
  | decodeDouble key => key

/-- The answer for an absent key: nil or zero. -/
def absent : Call → Answer
  | decodeString _ => .string none
  | decodeInt32 _ => .int32 0
  | decodeInt64 _ => .int64 0
  | decodeObject _ => .object none
  | decodeArray _ => .array none
  | decodeData _ => .data none
  | decodeBytes _ _ => .bytes none
  | decodeInt32Array _ => .int32Array none
  | decodeInt32Dictionary _ => .int32Dictionary none
  | decodeDouble _ => .double 0

/-- The value as the method of its type returns it; of data, a buffer takes as much as there is
room for. -/
def answerOf : Call → Value → Option Answer
  | decodeString _, .string s => some (.string (some s))
  | decodeInt32 _, .int32 number => some (.int32 number)
  | decodeInt64 _, .int64 number => some (.int64 number)
  | decodeObject _, .customClass object => some (.object (some object))
  | decodeArray _, .array objects => some (.array (some objects))
  | decodeData _, .data bytes => some (.data (some bytes))
  | decodeBytes _ length, .data bytes => some (.bytes (some (bytes.take length)))
  | decodeInt32Array _, .int32Array numbers => some (.int32Array (some numbers))
  | decodeInt32Dictionary _, .int32Dictionary entries => some (.int32Dictionary (some entries))
  | decodeDouble _, .double bits => some (.double bits)
  | _, _ => none

/-- The types of values that a method reads, its own and those it converts. -/
def reads : Call → FieldType → Bool
  | decodeString _, .string => true
  | decodeString _, .int32 => true
  | decodeString _, .int64 => true
  | decodeInt32 _, .string => true
  | decodeInt32 _, .int32 => true
  | decodeInt32 _, .int64 => true
  | decodeInt64 _, .string => true
  | decodeInt64 _, .int32 => true
  | decodeInt64 _, .int64 => true
  | decodeObject _, .customClass => true
  | decodeArray _, .array => true
  | decodeData _, .data => true
  | decodeBytes _ _, .data => true
  | decodeInt32Array _, .int32Array => true
  | decodeInt32Dictionary _, .int32Dictionary => true
  | decodeDouble _, .string => true
  | decodeDouble _, .int32 => true
  | decodeDouble _, .int64 => true
  | decodeDouble _, .double => true
  | _, _ => false

/-- A value of a type that the method does not read is skipped as it should be: always by
`decodeInt32ArrayForCKey:`, and by the others if it is encoded by a single zero. -/
def SkipsPast : Call → Value → Prop
  | decodeInt32Array _, _ => True
  | _, .string s => utf8 s = []
  | _, .data bytes => bytes = []
  | _, _ => False

/-- The length of a buffer fits into the `uint32_t` it is cast to. -/
def BufferFits : Call → Prop
  | decodeBytes _ length => length < 4294967296
  | _ => True

end Call

/-! ### Objects, arrays and dictionaries -/

/-- Wherever the object is encoded, it is read back. -/
def ReadsObject (data : List UInt8) (readObject : ℕ → Option (Option CodedObject × ℕ))
    (object : CodedObject) : Prop :=
  ∀ p, At data p (encodeObjectValue object []) →
    readObject p = some (some object, p + (encodeObjectValue object []).length)

section Objects

variable {data : List UInt8} {readObject : ℕ → Option (Option CodedObject × ℕ)}
  {objects : List CodedObject} {entries dict : List (BitVec 32 × CodedObject)} {p : ℕ}

theorem length_encodeObjectValue (object : CodedObject) :
    4 ≤ (encodeObjectValue object []).length := by
  obtain ⟨bytes, hbytes⟩ := encodeObjectValue_eq object
  rw [hbytes, List.length_append, length_toLE]
  omega

theorem length_encodeObjects (objects : List CodedObject) :
    objects.length ≤ (encodeObjects objects []).length := by
  induction objects with
  | nil => exact Nat.zero_le _
  | cons object objects ih =>
      have hobject := length_encodeObjectValue object
      rw [encodeObjects_cons, List.length_append, List.length_cons]
      omega

theorem length_encodeEntries (entries : List (BitVec 32 × CodedObject)) :
    entries.length ≤ (encodeEntries entries []).length := by
  induction entries with
  | nil => exact Nat.zero_le _
  | cons entry entries ih =>
      obtain ⟨key, object⟩ := entry
      have hobject := length_encodeObjectValue object
      rw [encodeEntries_cons, List.length_append, List.length_append, List.length_cons]
      omega

theorem readObjects_at (hobjects : ∀ object ∈ objects, ReadsObject data readObject object)
    (h : At data p (encodeObjects objects [])) :
    readObjects readObject objects.length p =
      some (objects, p + (encodeObjects objects []).length) := by
  induction objects generalizing p with
  | nil => rw [encodeObjects]; rfl
  | cons object objects ih =>
      rw [encodeObjects_cons] at h ⊢
      obtain ⟨hobject, hrest⟩ := at_append.mp h
      have hread := hobjects object List.mem_cons_self p hobject
      have hreads := ih (fun object hmem => hobjects object (.tail _ hmem)) hrest
      simp only [List.length_cons, readObjects, hread, hreads, Option.bind_eq_bind,
        Option.bind_some, Option.toList_some, List.singleton_append]
      rw [List.length_append, Nat.add_assoc]

/-- **An array is read back.** -/
theorem readArray_at (hobjects : ∀ object ∈ objects, ReadsObject data readObject object)
    (h : At data p (encodeValue (.array objects) [])) (hfits : (Value.array objects).Fits) :
    readArray data readObject p =
      some (objects, p + (encodeValue (.array objects) []).length) := by
  rw [Value.Fits] at hfits
  rw [encodeValue_array] at h hfits ⊢
  simp only [List.length_append, length_toLE] at hfits
  have hcount := length_encodeObjects objects
  obtain ⟨hlength, hcontent⟩ := at_append.mp h
  obtain ⟨hcountAt, hobjectsAt⟩ := at_append.mp hcontent
  rw [length_toLE] at hcountAt hobjectsAt
  rw [List.length_append] at hlength
  have hcontentFits : (writeLength objects.length []).length +
      (encodeObjects objects []).length < 256 ^ 4 := by omega
  simp only [readArray, readLE_at hlength hcontentFits, readLength_at hcountAt (by omega),
    readObjects_at hobjects hobjectsAt, Option.bind_eq_bind, Option.bind_some,
    List.length_append, length_toLE]
  rw [Nat.add_assoc]

theorem setObject_of_absent {key : BitVec 32} (h : key ∉ dict.map Prod.fst)
    (object : CodedObject) : setObject dict key object = dict ++ [(key, object)] := by
  have hfilter : dict.filter (·.1 ≠ key) = dict := by
    refine List.filter_eq_self.mpr fun entry hentry => decide_eq_true ?_
    rintro rfl
    exact h (List.mem_map_of_mem hentry)
  rw [setObject, hfilter]

theorem readEntries_at
    (hobjects : ∀ entry ∈ entries, ReadsObject data readObject entry.2)
    (hnodup : ((dict ++ entries).map Prod.fst).Nodup)
    (h : At data p (encodeEntries entries [])) :
    readEntries data readObject entries.length dict p =
      some (dict ++ entries, p + (encodeEntries entries []).length) := by
  induction entries generalizing dict p with
  | nil =>
      rw [encodeEntries, List.append_nil]
      rfl
  | cons entry entries ih =>
      obtain ⟨key, object⟩ := entry
      rw [encodeEntries_cons] at h ⊢
      obtain ⟨hkey, hrest⟩ := at_append.mp h
      obtain ⟨hobject, hrest⟩ := at_append.mp hrest
      rw [length_toLE] at hobject hrest
      have hread := hobjects (key, object) List.mem_cons_self (p + 4) hobject
      have habsent : key ∉ dict.map Prod.fst := by
        rw [List.map_append, List.map_cons, List.nodup_middle, List.nodup_cons] at hnodup
        exact fun hmem => hnodup.1 (List.mem_append_left _ hmem)
      have happend : dict ++ (key, object) :: entries = dict ++ [(key, object)] ++ entries := by
        rw [List.append_assoc, List.singleton_append]
      rw [happend] at hnodup ⊢
      have hreads := ih (fun entry hmem => hobjects entry (.tail _ hmem)) hnodup hrest
      simp only [List.length_cons, readEntries, readInt32_at hkey, hread, Option.elim_some,
        setObject_of_absent habsent, hreads, Option.bind_eq_bind, Option.bind_some,
        List.length_append, length_toLE]
      rw [Nat.add_assoc, Nat.add_assoc]

/-- **A dictionary is read back.** -/
theorem readInt32Dictionary_at
    (hobjects : ∀ entry ∈ entries, ReadsObject data readObject entry.2)
    (h : At data p (encodeValue (.int32Dictionary entries) []))
    (hfits : (Value.int32Dictionary entries).Fits) :
    readInt32Dictionary data readObject p =
      some (entries, p + (encodeValue (.int32Dictionary entries) []).length) := by
  rw [Value.Fits] at hfits
  obtain ⟨hfits, hnodup⟩ := hfits
  rw [encodeValue_int32Dictionary] at h hfits ⊢
  simp only [List.length_append, length_toLE] at hfits
  have hcount := length_encodeEntries entries
  obtain ⟨hlength, hcontent⟩ := at_append.mp h
  obtain ⟨hcountAt, hentriesAt⟩ := at_append.mp hcontent
  rw [length_toLE] at hcountAt hentriesAt
  rw [List.length_append] at hlength
  have hcontentFits : (writeLength entries.length []).length +
      (encodeEntries entries []).length < 256 ^ 4 := by omega
  have hempty : (([] ++ entries).map Prod.fst).Nodup := hnodup
  have hreads := readEntries_at hobjects hempty hentriesAt
  simp only [readInt32Dictionary, readLE_at hlength hcontentFits,
    readLength_at hcountAt (by omega), hreads, Option.bind_eq_bind, Option.bind_some,
    List.nil_append, List.length_append, length_toLE]
  rw [Nat.add_assoc]

end Objects

/-! ### What the methods share -/

section Shared

variable {data key : List UInt8} {value : Value} {fields before rest : Fields} {base j : ℕ}
  {self : PSKeyValueDecoder} {α : Type} {absent result : α}
  {read : FieldType → Option (ℕ → Option (α × ℕ))} {reader : ℕ → Option (α × ℕ)}

/-- The decoder behind a key that has been found. -/
def PSKeyValueDecoder.behindKey (self : PSKeyValueDecoder) (before : Fields) (base : ℕ)
    (key : List UInt8) : PSKeyValueDecoder :=
  { self with currentPtr :=
      base + (encodeFields before []).length + (writeLength key.length []).length + key.length }

/-- Behind the key are the type and the value, and behind the value is the next field. -/
theorem AtField.behindKey (h : AtField data fields base j self)
    (hsplit : fields = before ++ (key, value) :: rest) :
    data[(self.behindKey before base key).currentPtr]? = some value.fieldType.raw ∧
      At data ((self.behindKey before base key).currentPtr + 1) (encodeValue value []) ∧
      AtField data fields base (before.length + 1)
        { self.behindKey before base key with
          currentPtr := (self.behindKey before base key).currentPtr + 1 +
            (encodeValue value []).length } := by
  have hbytes : encodeFields fields [] = encodeFields before [] ++
      (writeLength key.length [] ++ (key ++ (value.fieldType.raw :: (encodeValue value [] ++
        encodeFields rest [])))) := by
    rw [hsplit, encodeFields_append_fields, encodeFields_cons, encodeKey_eq, List.append_assoc,
      List.append_assoc, List.singleton_append]
  have hwritten := h.written
  rw [hbytes] at hwritten
  obtain ⟨-, hfield⟩ := at_append.mp hwritten
  obtain ⟨-, hkey⟩ := at_append.mp hfield
  obtain ⟨-, hvalue⟩ := at_append.mp hkey
  obtain ⟨htype, hvalue⟩ := at_cons.mp hvalue
  refine ⟨htype, (at_append.mp hvalue).1, h.written, ?_, h.begin_eq, h.end_eq, ?_⟩
  · rw [hsplit, List.length_append, List.length_cons]
    omega
  · have htake : fields.take (before.length + 1) = before ++ [(key, value)] := by
      rw [hsplit, List.take_length_add_append, List.take_succ_cons, List.take_zero]
    have hfieldBytes : encodeFields [(key, value)] [] =
        writeLength key.length [] ++ (key ++ (value.fieldType.raw :: encodeValue value [])) := by
      rw [encodeFields_cons, encodeFields, List.append_nil, encodeKey_eq, List.append_assoc,
        List.append_assoc, List.singleton_append]
    rw [htake, encodeFields_append_fields, hfieldBytes]
    simp only [PSKeyValueDecoder.behindKey, List.length_append, List.length_cons]
    omega

/-- An absent key is answered as the method says, and leaves the decoder as it is. -/
theorem decodeForRawKey_absent (hfields : Encodable fields)
    (h : AtField data fields base j self) (habsent : ∀ field ∈ fields, field.1 ≠ key)
    (hskippable : ∀ field ∈ fieldsPassed fields j key, Skippable key field.2) :
    self.decodeForRawKey data key absent read = some (absent, self) := by
  simp only [PSKeyValueDecoder.decodeForRawKey,
    skipToValueForRawKey_absent hfields h habsent hskippable, Option.bind_eq_bind,
    Option.bind_some]

/-- The call returns `result` and leaves the decoder at field `j`. -/
def Returns (data : List UInt8) (fields : Fields) (base j : ℕ)
    (m : Option (α × PSKeyValueDecoder)) (result : α) : Prop :=
  ∃ decoder, m = some (result, decoder) ∧ AtField data fields base j decoder

/-- A value that the method reads is answered, and the decoder is at the next field. -/
theorem decodeForRawKey_read (hfields : Encodable fields)
    (h : AtField data fields base j self) (hsplit : fields = before ++ (key, value) :: rest)
    (hskippable : ∀ field ∈ fieldsPassed fields j key, Skippable key field.2)
    (hread : read value.fieldType = some reader)
    (hreader : ∀ q, At data q (encodeValue value []) →
      reader q = some (result, q + (encodeValue value []).length)) :
    Returns data fields base (before.length + 1) (self.decodeForRawKey data key absent read)
      result := by
  obtain ⟨htype, hvalue, hnext⟩ := h.behindKey hsplit
  refine ⟨_, ?_, hnext⟩
  have hfound := skipToValueForRawKey_found hfields h hsplit hskippable
  simp only [PSKeyValueDecoder.behindKey] at htype hvalue
  simp only [PSKeyValueDecoder.decodeForRawKey, hfound, Option.bind_eq_bind, Option.bind_some,
    htype, FieldType.ofRaw_raw, hread, hreader _ hvalue, PSKeyValueDecoder.behindKey]

/-- A value that the method does not read leaves the decoder at the next field if it is skipped
from behind the byte of the type. -/
theorem decodeForRawKey_skip (hfields : Encodable fields)
    (h : AtField data fields base j self) (hsplit : fields = before ++ (key, value) :: rest)
    (hskippable : ∀ field ∈ fieldsPassed fields j key, Skippable key field.2)
    (hread : read value.fieldType = none)
    (hskip : ∀ q, At data q (encodeValue value []) →
      skipField data q = some (q + (encodeValue value []).length)) :
    Returns data fields base (before.length + 1) (self.decodeForRawKey data key absent read)
      absent := by
  obtain ⟨htype, hvalue, hnext⟩ := h.behindKey hsplit
  refine ⟨_, ?_, hnext⟩
  have hfound := skipToValueForRawKey_found hfields h hsplit hskippable
  simp only [PSKeyValueDecoder.behindKey] at htype hvalue
  simp only [PSKeyValueDecoder.decodeForRawKey, hfound, Option.bind_eq_bind, Option.bind_some,
    htype, FieldType.ofRaw_raw, hread, hskip _ hvalue, PSKeyValueDecoder.behindKey]

/-- What a method returns is the answer of the call. -/
theorem Returns.map {m : Option (α × PSKeyValueDecoder)} (h : Returns data fields base j m result)
    (f : α → Answer) : Returns data fields base j (m.map (Prod.map f id)) (f result) := by
  obtain ⟨decoder, rfl, hat⟩ := h
  exact ⟨decoder, rfl, hat⟩

end Shared

/-! ### The calls -/

section Calls

variable {conversions : Conversions} {data : List UInt8}
  {readObject : ℕ → Option (Option CodedObject × ℕ)} {value : Value}
  {fields before rest : Fields} {base j q : ℕ} {self : PSKeyValueDecoder} {call : Call}

theorem readInt32_value {number : BitVec 32} (h : At data q (encodeValue (.int32 number) [])) :
    readInt32 data q = some (number, q + (encodeValue (.int32 number) []).length) := by
  rw [encodeValue, List.nil_append] at h ⊢
  rw [readInt32_at h, length_toLE]

theorem readInt64_value {number : BitVec 64} (h : At data q (encodeValue (.int64 number) [])) :
    readInt64 data q = some (number, q + (encodeValue (.int64 number) []).length) := by
  rw [encodeValue, List.nil_append] at h ⊢
  rw [readInt64_at h, length_toLE]

theorem readDouble_value {bits : BitVec 64} (h : At data q (encodeValue (.double bits) [])) :
    readInt64 data q = some (bits, q + (encodeValue (.double bits) []).length) := by
  rw [encodeValue, List.nil_append] at h ⊢
  rw [readInt64_at h, length_toLE]

theorem readObject_value {object : CodedObject} (hobject : ReadsObject data readObject object)
    (h : At data q (encodeValue (.customClass object) [])) :
    readObject q = some (some object, q + (encodeValue (.customClass object) []).length) := by
  rw [encodeValue] at h ⊢
  exact hobject q h

/-- **An absent key is answered by nil or zero**, and the decoder stays as it is. -/
theorem decode_absent (hfields : Encodable fields) (h : AtField data fields base j self)
    (habsent : ∀ field ∈ fields, field.1 ≠ call.key)
    (hskippable : ∀ field ∈ fieldsPassed fields j call.key, Skippable call.key field.2) :
    self.decode conversions data readObject call = some (call.absent, self) := by
  have hscan := skipToValueForRawKey_absent hfields h habsent hskippable
  cases call with
  | decodeInt32Array key =>
      rw [Call.key] at hscan
      simp only [PSKeyValueDecoder.decode, PSKeyValueDecoder.decodeInt32ArrayForCKey, hscan,
        Option.bind_eq_bind, Option.bind_some, Option.map_some, Prod.map, id, Call.absent]
  | decodeString key =>
      exact congrArg (Option.map (Prod.map Answer.string id))
        (decodeForRawKey_absent hfields h habsent hskippable)
  | decodeInt32 key =>
      exact congrArg (Option.map (Prod.map Answer.int32 id))
        (decodeForRawKey_absent hfields h habsent hskippable)
  | decodeInt64 key =>
      exact congrArg (Option.map (Prod.map Answer.int64 id))
        (decodeForRawKey_absent hfields h habsent hskippable)
  | decodeObject key =>
      exact congrArg (Option.map (Prod.map Answer.object id))
        (decodeForRawKey_absent hfields h habsent hskippable)
  | decodeArray key =>
      exact congrArg (Option.map (Prod.map Answer.array id))
        (decodeForRawKey_absent hfields h habsent hskippable)
  | decodeData key =>
      exact congrArg (Option.map (Prod.map Answer.data id))
        (decodeForRawKey_absent hfields h habsent hskippable)
  | decodeBytes key length =>
      exact congrArg (Option.map (Prod.map Answer.bytes id))
        (decodeForRawKey_absent hfields h habsent hskippable)
  | decodeInt32Dictionary key =>
      exact congrArg (Option.map (Prod.map Answer.int32Dictionary id))
        (decodeForRawKey_absent hfields h habsent hskippable)
  | decodeDouble key =>
      exact congrArg (Option.map (Prod.map Answer.double id))
        (decodeForRawKey_absent hfields h habsent hskippable)

/-- An array of numbers is answered, and the decoder is at the next field. -/
theorem decodeInt32ArrayForCKey_read {key : List UInt8} {numbers : List (BitVec 32)}
    (hfields : Encodable fields) (h : AtField data fields base j self)
    (hsplit : fields = before ++ (key, .int32Array numbers) :: rest)
    (hskippable : ∀ field ∈ fieldsPassed fields j key, Skippable key field.2)
    (hfits : numbers.length < 2147483648) :
    Returns data fields base (before.length + 1) (self.decodeInt32ArrayForCKey data key)
      (some numbers) := by
  obtain ⟨htype, hvalue, hnext⟩ := h.behindKey hsplit
  refine ⟨_, ?_, hnext⟩
  have hfound := skipToValueForRawKey_found hfields h hsplit hskippable
  simp only [PSKeyValueDecoder.behindKey] at htype hvalue
  simp only [PSKeyValueDecoder.decodeInt32ArrayForCKey, hfound, Option.bind_eq_bind,
    Option.bind_some, htype, FieldType.ofRaw_raw, Value.fieldType, if_true,
    readInt32Array_at hvalue hfits, PSKeyValueDecoder.behindKey]

/-- `decodeInt32ArrayForCKey:` skips a value of any other type up to its end. -/
theorem decodeInt32ArrayForCKey_skip {key : List UInt8}
    (hfields : Encodable fields) (h : AtField data fields base j self)
    (hsplit : fields = before ++ (key, value) :: rest)
    (hskippable : ∀ field ∈ fieldsPassed fields j key, Skippable key field.2)
    (hfits : value.Fits) (hnumbers : ∀ numbers, value ≠ .int32Array numbers) :
    Returns data fields base (before.length + 1) (self.decodeInt32ArrayForCKey data key)
      none := by
  obtain ⟨htype, hvalue, hnext⟩ := h.behindKey hsplit
  refine ⟨_, ?_, hnext⟩
  have hfound := skipToValueForRawKey_found hfields h hsplit hskippable
  have hother : some value.fieldType ≠ some .int32Array := by
    cases value with
    | int32Array numbers => exact absurd rfl (hnumbers numbers)
    | _ => simp [Value.fieldType]
  have hskip := skipField_at htype hvalue hfits hnumbers
  simp only [PSKeyValueDecoder.behindKey] at htype hskip
  simp only [PSKeyValueDecoder.decodeInt32ArrayForCKey, hfound, Option.bind_eq_bind,
    Option.bind_some, htype, FieldType.ofRaw_raw, if_neg hother, hskip,
    PSKeyValueDecoder.behindKey]

/-- **A value is answered by the method of its type, and the decoder is at the next field** behind
every value that the method reads. -/
theorem decode_found (hfields : Encodable fields) (h : AtField data fields base j self)
    (hsplit : fields = before ++ (call.key, value) :: rest)
    (hskippable : ∀ field ∈ fieldsPassed fields j call.key, Skippable call.key field.2)
    (hreads : call.reads value.fieldType)
    (hobjects : ∀ object ∈ value.objects, ReadsObject data readObject object) :
    ∃ answer, Returns data fields base (before.length + 1)
        (self.decode conversions data readObject call) answer ∧
      ∀ expected, call.answerOf value = some expected → call.BufferFits → answer = expected := by
  have hfits : value.Fits := hfields.fits (call.key, value) (by simp [hsplit])
  cases call with
  | decodeString key =>
      cases value with
      | string s =>
          have hdecode : Returns data fields base (before.length + 1)
              (self.decodeStringForRawKey data key) (some s) :=
            decodeForRawKey_read hfields h hsplit hskippable rfl fun q hq =>
              readString_at hq hfits
          exact ⟨_, hdecode.map Answer.string, by rintro _ ⟨⟩ -; rfl⟩
      | int32 number =>
          have hdecode : Returns data fields base (before.length + 1)
              (self.decodeStringForRawKey data key) (some (toString number.toInt)) :=
            decodeForRawKey_read hfields h hsplit hskippable rfl fun q hq => by
              simp only [readInt32_value hq, Option.bind_eq_bind, Option.bind_some]
          exact ⟨_, hdecode.map Answer.string, nofun⟩
      | int64 number =>
          have hdecode : Returns data fields base (before.length + 1)
              (self.decodeStringForRawKey data key) (some (toString number.toInt)) :=
            decodeForRawKey_read hfields h hsplit hskippable rfl fun q hq => by
              simp only [readInt64_value hq, Option.bind_eq_bind, Option.bind_some]
          exact ⟨_, hdecode.map Answer.string, nofun⟩
      | _ => cases hreads
  | decodeInt32 key =>
      cases value with
      | int32 number =>
          have hdecode : Returns data fields base (before.length + 1)
              (self.decodeInt32ForRawKey conversions data key) number :=
            decodeForRawKey_read hfields h hsplit hskippable rfl fun q hq => readInt32_value hq
          exact ⟨_, hdecode.map Answer.int32, by rintro _ ⟨⟩ -; rfl⟩
      | string s =>
          have hdecode : Returns data fields base (before.length + 1)
              (self.decodeInt32ForRawKey conversions data key) (conversions.intValue s) :=
            decodeForRawKey_read hfields h hsplit hskippable rfl fun q hq => by
              simp only [readString_at hq hfits, Option.bind_eq_bind, Option.bind_some,
                Option.elim_some]
          exact ⟨_, hdecode.map Answer.int32, nofun⟩
      | int64 number =>
          have hdecode : Returns data fields base (before.length + 1)
              (self.decodeInt32ForRawKey conversions data key) (number.setWidth 32) :=
            decodeForRawKey_read hfields h hsplit hskippable rfl fun q hq => by
              simp only [readInt64_value hq, Option.bind_eq_bind, Option.bind_some]
          exact ⟨_, hdecode.map Answer.int32, nofun⟩
      | _ => cases hreads
  | decodeInt64 key =>
      cases value with
      | int64 number =>
          have hdecode : Returns data fields base (before.length + 1)
              (self.decodeInt64ForRawKey conversions data key) number :=
            decodeForRawKey_read hfields h hsplit hskippable rfl fun q hq => readInt64_value hq
          exact ⟨_, hdecode.map Answer.int64, by rintro _ ⟨⟩ -; rfl⟩
      | string s =>
          have hdecode : Returns data fields base (before.length + 1)
              (self.decodeInt64ForRawKey conversions data key) (conversions.longLongValue s) :=
            decodeForRawKey_read hfields h hsplit hskippable rfl fun q hq => by
              simp only [readString_at hq hfits, Option.bind_eq_bind, Option.bind_some,
                Option.elim_some]
          exact ⟨_, hdecode.map Answer.int64, nofun⟩
      | int32 number =>
          have hdecode : Returns data fields base (before.length + 1)
              (self.decodeInt64ForRawKey conversions data key) (number.signExtend 64) :=
            decodeForRawKey_read hfields h hsplit hskippable rfl fun q hq => by
              simp only [readInt32_value hq, Option.bind_eq_bind, Option.bind_some]
          exact ⟨_, hdecode.map Answer.int64, nofun⟩
      | _ => cases hreads
  | decodeObject key =>
      cases value with
      | customClass object =>
          have hdecode : Returns data fields base (before.length + 1)
              (self.decodeObjectForRawKey data readObject key) (some object) :=
            decodeForRawKey_read hfields h hsplit hskippable rfl fun q hq =>
              readObject_value (hobjects object (List.mem_singleton_self _)) hq
          exact ⟨_, hdecode.map Answer.object, by rintro _ ⟨⟩ -; rfl⟩
      | _ => cases hreads
  | decodeArray key =>
      cases value with
      | array objects =>
          have hdecode : Returns data fields base (before.length + 1)
              (self.decodeArrayForRawKey data readObject key) (some objects) :=
            decodeForRawKey_read hfields h hsplit hskippable rfl fun q hq => by
              have hread : readArray data readObject q =
                  some (objects, q + (encodeValue (.array objects) []).length) :=
                readArray_at hobjects hq hfits
              simp only [hread, Option.bind_eq_bind, Option.bind_some]
          exact ⟨_, hdecode.map Answer.array, by rintro _ ⟨⟩ -; rfl⟩
      | _ => cases hreads
  | decodeData key =>
      cases value with
      | data bytes =>
          have hdecode : Returns data fields base (before.length + 1)
              (self.decodeDataForRawKey data key) (some bytes) :=
            decodeForRawKey_read hfields h hsplit hskippable rfl fun q hq => by
              simp only [readData_at hq hfits, Option.bind_eq_bind, Option.bind_some]
          exact ⟨_, hdecode.map Answer.data, by rintro _ ⟨⟩ -; rfl⟩
      | _ => cases hreads
  | decodeBytes key length =>
      cases value with
      | data bytes =>
          have hdecode : Returns data fields base (before.length + 1)
              (self.decodeBytesForRawKey data key length) (some (bytes.take (length % 4294967296))) :=
            decodeForRawKey_read hfields h hsplit hskippable rfl fun q hq => by
              simp only [readToBuffer_at hq hfits, Option.bind_eq_bind, Option.bind_some]
          exact ⟨_, hdecode.map Answer.bytes, by
            rintro _ ⟨⟩ hbuffer
            rw [Call.BufferFits] at hbuffer
            rw [Nat.mod_eq_of_lt hbuffer]⟩
      | _ => cases hreads
  | decodeInt32Array key =>
      cases value with
      | int32Array numbers =>
          have hdecode : Returns data fields base (before.length + 1)
              (self.decodeInt32ArrayForCKey data key) (some numbers) :=
            decodeInt32ArrayForCKey_read hfields h hsplit hskippable hfits
          exact ⟨_, hdecode.map Answer.int32Array, by rintro _ ⟨⟩ -; rfl⟩
      | _ => cases hreads
  | decodeInt32Dictionary key =>
      cases value with
      | int32Dictionary entries =>
          have hdecode : Returns data fields base (before.length + 1)
              (self.decodeInt32DictionaryForCKey data readObject key) (some entries) :=
            decodeForRawKey_read hfields h hsplit hskippable rfl fun q hq => by
              have hread := readInt32Dictionary_at (fun entry hmem =>
                hobjects entry.2 (List.mem_map_of_mem hmem)) hq hfits
              simp only [hread, Option.bind_eq_bind, Option.bind_some]
          exact ⟨_, hdecode.map Answer.int32Dictionary, by rintro _ ⟨⟩ -; rfl⟩
      | _ => cases hreads
  | decodeDouble key =>
      cases value with
      | double bits =>
          have hdecode : Returns data fields base (before.length + 1)
              (self.decodeDoubleForCKey conversions data key) bits :=
            decodeForRawKey_read hfields h hsplit hskippable rfl fun q hq => readDouble_value hq
          exact ⟨_, hdecode.map Answer.double, by rintro _ ⟨⟩ -; rfl⟩
      | string s =>
          have hdecode : Returns data fields base (before.length + 1)
              (self.decodeDoubleForCKey conversions data key) (conversions.doubleOfInt32
                (conversions.int32OfDouble (conversions.doubleValue s))) :=
            decodeForRawKey_read hfields h hsplit hskippable rfl fun q hq => by
              simp only [readString_at hq hfits, Option.bind_eq_bind, Option.bind_some,
                Option.elim_some]
          exact ⟨_, hdecode.map Answer.double, nofun⟩
      | int32 number =>
          have hdecode : Returns data fields base (before.length + 1)
              (self.decodeDoubleForCKey conversions data key) (conversions.doubleOfInt32 number) :=
            decodeForRawKey_read hfields h hsplit hskippable rfl fun q hq => by
              simp only [readInt32_value hq, Option.bind_eq_bind, Option.bind_some]
          exact ⟨_, hdecode.map Answer.double, nofun⟩
      | int64 number =>
          have hdecode : Returns data fields base (before.length + 1)
              (self.decodeDoubleForCKey conversions data key) (conversions.doubleOfInt64 number) :=
            decodeForRawKey_read hfields h hsplit hskippable rfl fun q hq => by
              simp only [readInt64_value hq, Option.bind_eq_bind, Option.bind_some]
          exact ⟨_, hdecode.map Answer.double, nofun⟩
      | _ => cases hreads

/-- A single zero is skipped as if it were the type of a field without a value. -/
theorem skipField_zero (hvalue : encodeValue value [] = [0])
    (h : At data q (encodeValue value [])) :
    skipField data q = some (q + (encodeValue value []).length) := by
  rw [hvalue] at h ⊢
  obtain ⟨hzero, -⟩ := at_cons.mp h
  rw [skipField, hzero]
  rfl

/-- Values of other types that a method skips as it should are encoded by a single zero. -/
theorem Call.SkipsPast.encodeValue_eq (h : call.SkipsPast value)
    (hcall : ∀ key, call ≠ .decodeInt32Array key) : encodeValue value [] = [0] := by
  have hempty : (∃ s, value = .string s ∧ utf8 s = []) ∨
      ∃ bytes, value = .data bytes ∧ bytes = [] := by
    cases call <;> cases value <;>
      first
        | exact absurd rfl (hcall _)
        | exact .inl ⟨_, rfl, h⟩
        | exact .inr ⟨_, rfl, h⟩
        | exact h.elim
  rcases hempty with ⟨s, rfl, hs⟩ | ⟨bytes, rfl, rfl⟩
  · rw [encodeValue, hs]
    rfl
  · rw [encodeValue]
    rfl

/-- A value of another type that is skipped as it should be is answered by nil or zero, and the
decoder is at the next field. -/
theorem decode_mismatch (hfields : Encodable fields) (h : AtField data fields base j self)
    (hsplit : fields = before ++ (call.key, value) :: rest)
    (hskippable : ∀ field ∈ fieldsPassed fields j call.key, Skippable call.key field.2)
    (hreads : ¬ call.reads value.fieldType) (hskips : call.SkipsPast value) :
    Returns data fields base (before.length + 1)
      (self.decode conversions data readObject call) call.absent := by
  have hfits : value.Fits := hfields.fits (call.key, value) (by simp [hsplit])
  have hzero : (∀ key, call ≠ .decodeInt32Array key) → ∀ q, At data q (encodeValue value []) →
      skipField data q = some (q + (encodeValue value []).length) :=
    fun hcall q hq => skipField_zero (hskips.encodeValue_eq hcall) hq
  cases call with
  | decodeInt32Array key =>
      refine Returns.map (decodeInt32ArrayForCKey_skip hfields h hsplit hskippable hfits ?_) _
      rintro numbers rfl
      exact hreads rfl
  | decodeString key =>
      exact Returns.map (decodeForRawKey_skip hfields h hsplit hskippable
        (by cases value <;> first | rfl | exact absurd rfl hreads) (hzero nofun)) Answer.string
  | decodeInt32 key =>
      exact Returns.map (decodeForRawKey_skip hfields h hsplit hskippable
        (by cases value <;> first | rfl | exact absurd rfl hreads) (hzero nofun)) Answer.int32
  | decodeInt64 key =>
      exact Returns.map (decodeForRawKey_skip hfields h hsplit hskippable
        (by cases value <;> first | rfl | exact absurd rfl hreads) (hzero nofun)) Answer.int64
  | decodeObject key =>
      exact Returns.map (decodeForRawKey_skip hfields h hsplit hskippable
        (by cases value <;> first | rfl | exact absurd rfl hreads) (hzero nofun)) Answer.object
  | decodeArray key =>
      exact Returns.map (decodeForRawKey_skip hfields h hsplit hskippable
        (by cases value <;> first | rfl | exact absurd rfl hreads) (hzero nofun)) Answer.array
  | decodeData key =>
      exact Returns.map (decodeForRawKey_skip hfields h hsplit hskippable
        (by cases value <;> first | rfl | exact absurd rfl hreads) (hzero nofun)) Answer.data
  | decodeBytes key length =>
      exact Returns.map (decodeForRawKey_skip hfields h hsplit hskippable
        (by cases value <;> first | rfl | exact absurd rfl hreads) (hzero nofun)) Answer.bytes
  | decodeInt32Dictionary key =>
      exact Returns.map (decodeForRawKey_skip hfields h hsplit hskippable
        (by cases value <;> first | rfl | exact absurd rfl hreads) (hzero nofun))
        Answer.int32Dictionary
  | decodeDouble key =>
      exact Returns.map (decodeForRawKey_skip hfields h hsplit hskippable
        (by cases value <;> first | rfl | exact absurd rfl hreads) (hzero nofun)) Answer.double

end Calls

end Telegraph.Coder
