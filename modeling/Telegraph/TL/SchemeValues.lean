import Telegraph.TL.SchemeObjects
import Telegraph.TL.SchemeTables

/-!
# The Values of a Scheme

Trees of values that conform to a scheme, and what single ones of them are written as and read
from. Which of the trees are read back is `ValueTree.Fine`: the names of builtin types are those
that the compiler knows, strings and data are short, and vectors are found in the table, which has
the name of bare elements only if the last vector with elements of their name is bare.

The signatures of a scheme have to be told apart, and the memory that is taken for a name must not
hold one (`TLScheme.Legible`).

## Main results

* `compiledType_builtin`, `compiledType_object`, `compiledType_vector`: what the types of a scheme
  are compiled to.
* `readsBack_builtin`, `not_readsBack_plain`: **the builtin values that are read back, and those
  that are not**.
* `readsBack_object`: an object is read back if the values of its fields are.
-/

open Bytes

namespace Telegraph.TL.TLMetaClassStore

open Codec (Parser)
open Telegraph.Coder (utf8)

/-! ### Trees -/

/-- What a tree is one of. -/
inductive Shape where
  | value (desc : String)
  | fields (params : List SchemeParam)
  | items (desc : String)

/-- The builtin types by their names, boxed or bare. -/
def plainCategory (desc : String) : Option TLMetaTypeCategory :=
  if desc = "Int128" then some .builtinInt128
  else if desc = "Int256" then some .builtinInt256
  else if desc = "bool" then some .builtinBool
  else (TL.createTypeArgumentFromString desc).map TLMetaTypeArgument.category

/-- A value of a builtin type. -/
def PlainValue : TLMetaTypeCategory → Value → Prop
  | .builtinInt32, .int32 _ => True
  | .builtinInt64, .int64 _ => True
  | .builtinInt128, .bytes (some data) => data.length = 16
  | .builtinInt256, .bytes (some data) => data.length = 32
  | .builtinString, .string (some string) => (utf8 string).length < 2 ^ 24
  | .builtinBytes, .bytes (some data) => data.length < 2 ^ 24
  | .builtinDouble, .double _ => True
  | .builtinBool, .bool _ => True
  | _, _ => False

/-- The name of an object type. -/
def IsObjectType (desc : String) : Prop := plainCategory desc = none ∧ vectorPrefix desc = none

instance (desc : String) : Decidable (IsObjectType desc) :=
  inferInstanceAs (Decidable (plainCategory desc = none ∧ vectorPrefix desc = none))

/-- Whether an object type is bare. -/
def isBare (desc : String) : Bool := (desc.toList[casePlace desc]?).any fun c => !c.isUpper

/-- A constructor whose objects are of a type: the one that a bare type names, or one of the boxed
type. -/
def HasType (desc : String) (entry : SchemeEntry) : Prop :=
  if isBare desc then entry.name = desc else entry.type = desc ∨ desc = "Object"

instance (desc : String) (entry : SchemeEntry) : Decidable (HasType desc entry) :=
  inferInstanceAs (Decidable
    (if isBare desc then entry.name = desc else entry.type = desc ∨ desc = "Object"))

/-- The elements of vectors are integers, strings or objects. -/
def IsElementType (desc : String) : Prop :=
  IsObjectType desc ∨ ∃ type, TL.createTypeArgumentFromString desc = some type ∧
    type.category ∈ [.builtinInt32, .builtinInt64, .builtinString]

/-- The vectors that a `TLMsgsAck` has. -/
def IsAckType (desc : String) : Prop := desc = "Vector<long>" ∨ desc = "vector<long>"

/-- The class of the objects of a constructor. -/
def classOf (env : Environment) (entry : SchemeEntry) : ObjectClass where
  constructorName := env.murMurHash32 entry.name
  constructorSignature := entry.n_id
  isMsgsAck := entry.name = "msgs_ack"

/-- A constructor whose objects are read and written by the tables. -/
structure Generated (env : Environment) (runtime : Runtime) (scheme : TLScheme)
    (entry : SchemeEntry) : Prop where
  mem : entry ∈ scheme.constructors
  registered : runtime.objectClasses (env.murMurHash32 entry.name) = some (classOf env entry)
  noParser : runtime.manualObjectParsers entry.n_id = none
  named : env.murMurHash32 entry.name ≠ -1
  acks : entry.name = "msgs_ack" → ∀ param ∈ entry.params, IsAckType param.type

/-- The values of a type, the values of the fields of a constructor, and the elements of a vector,
of any depth. -/
inductive ValueTree (env : Environment) (runtime : Runtime) (scheme : TLScheme) : Shape → Type
  | plain {desc : String} (category : TLMetaTypeCategory)
      (hdesc : plainCategory desc = some category) (value : Value)
      (hvalue : PlainValue category value) : ValueTree env runtime scheme (.value desc)
  | object {desc : String} (hdesc : IsObjectType desc) (entry : SchemeEntry)
      (hentry : Generated env runtime scheme entry) (htype : HasType desc entry)
      (fields : ValueTree env runtime scheme (.fields entry.params)) :
      ValueTree env runtime scheme (.value desc)
  | vector {desc : String} (boxed : Bool) (hvectorName : vectorPrefix desc = some boxed)
      (inner : String) (hinner : typeArgumentDesc desc = some inner)
      (helement : IsElementType inner) (items : ValueTree env runtime scheme (.items inner)) :
      ValueTree env runtime scheme (.value desc)
  | noFields : ValueTree env runtime scheme (.fields [])
  | field {param : SchemeParam} {params : List SchemeParam}
      (first : ValueTree env runtime scheme (.value param.type))
      (rest : ValueTree env runtime scheme (.fields params)) :
      ValueTree env runtime scheme (.fields (param :: params))
  | noItems {desc : String} : ValueTree env runtime scheme (.items desc)
  | item {desc : String} (first : ValueTree env runtime scheme (.value desc))
      (rest : ValueTree env runtime scheme (.items desc)) :
      ValueTree env runtime scheme (.items desc)

/-- What a tree stands for. -/
abbrev Shape.Meaning : Shape → Type
  | .value _ => Value
  | .fields _ => List Value
  | .items _ => List Value

/-- The object of a constructor with the values of its fields. -/
def objectOf (env : Environment) (entry : SchemeEntry) (values : List Value) : NativeObject :=
  .object (classOf env entry)
    ((entry.params.map fun param => env.murMurHash32 param.name).zip values)

variable {env : Environment} {runtime : Runtime} {scheme : TLScheme}

/-- What the reader and the writer tell apart has signatures of its own: constructors and vectors
those that are not builtin, vectors those without a parser that is written by hand. The memory that
is taken for a name holds no name of a constructor. -/
structure TLScheme.Legible (env : Environment) (runtime : Runtime) (scheme : TLScheme) : Prop
    extends scheme.Apart env where
  entries : ∀ entry ∈ scheme.entries, entry.n_id ≠ 0 ∧ entry.n_id ≠ gzipPacked ∧
    entry.n_id ∉ builtinConstructors
  vectorSignatures : ∀ type ∈ scheme.vectorTypes, vectorSignature env type.2 ≠ gzipPacked ∧
    vectorSignature env type.2 ∉ builtinConstructors ∧
    runtime.manualObjectParsers (vectorSignature env type.2) = none ∧
    ∀ entry ∈ scheme.entries, entry.n_id ≠ vectorSignature env type.2
  noParser : runtime.manualObjectParsers 0 = none
  memory : ∀ type ∈ scheme.vectorTypes, ∀ entry ∈ scheme.entries,
    env.murMurHash32 entry.name ≠ env.uninitialized type.2

/-- The values of a tree. -/
def ValueTree.meaning : {shape : Shape} → ValueTree env runtime scheme shape → shape.Meaning
  | _, .plain _ _ value _ => value
  | _, .object _ entry _ _ fields =>
      TLConstructedValue.object (some (objectOf env entry fields.meaning))
  | _, .vector _ _ _ _ _ items =>
      let values : List Value := items.meaning
      TLConstructedValue.vector (some (values.filterMap nativeValue))
  | _, .noFields => ([] : List Value)
  | _, .field first rest =>
      let value : Value := first.meaning
      let values : List Value := rest.meaning
      value :: values
  | _, .noItems => ([] : List Value)
  | _, .item first rest =>
      let value : Value := first.meaning
      let values : List Value := rest.meaning
      value :: values

/-- How deep the objects and the vectors of a tree are nested. -/
def ValueTree.depth : {shape : Shape} → ValueTree env runtime scheme shape → ℕ
  | _, .plain _ _ _ _ => 1
  | _, .object _ _ _ _ fields => fields.depth + 1
  | _, .vector _ _ _ _ _ items => items.depth + 1
  | _, .noFields => 0
  | _, .field first rest => max first.depth rest.depth
  | _, .noItems => 0
  | _, .item first rest => max first.depth rest.depth

/-- Strings and data for whose length the streams have room. -/
def IsShort : Value → Prop
  | .string (some string) => (utf8 string).length < 2 ^ 23
  | .bytes (some data) => data.length < 2 ^ 23
  | _ => True

/-- The table of vectors has the type of the elements: the last vector type with elements of their
name has the same elements, and is bare if they are bare objects and there are some. -/
def InTable (env : Environment) (scheme : TLScheme) (inner : String) (isEmpty : Prop) : Prop :=
  ∃ boxed, scheme.lastVector env (typeName env inner) = some (boxed, inner) ∧
    (isEmpty ∨ ¬ (IsObjectType inner ∧ isBare inner = true) ∨ boxed = false)

/-- The trees that are read back. -/
def ValueTree.Fine : {shape : Shape} → ValueTree env runtime scheme shape → Prop
  | _, @ValueTree.plain _ _ _ desc _ _ value _ =>
      TL.createTypeArgumentFromString desc ≠ none ∧ IsShort value
  | _, .object _ _ _ _ fields => fields.Fine
  | _, .vector _ _ inner _ _ items =>
      let values : List Value := items.meaning
      InTable env scheme inner (values = []) ∧ values.length < 2 ^ 31 ∧ items.Fine
  | _, .noFields => True
  | _, .field first rest => first.Fine ∧ rest.Fine
  | _, .noItems => True
  | _, .item first rest => first.Fine ∧ rest.Fine

/-! ### Types of descriptions -/

section CompiledType

variable {names : BitVec 32 → Option (BitVec 32)} {desc : String} {type : TypeArgument}

/-- A builtin type. -/
theorem compiledType_builtin {builtin : TLMetaTypeArgument}
    (hbuiltin : TL.createTypeArgumentFromString desc = some builtin) :
    compiledType env names desc = some ⟨builtin.boxed, builtin.unboxedConstructorSignature, 0,
      env.murMurHash32 (builtinName builtin.category), .builtin builtin.category, none⟩ := by
  have hcreated : createTypeArgumentFromString env desc = some ⟨⟨builtin.boxed,
      builtin.unboxedConstructorSignature, 0, env.murMurHash32 (builtinName builtin.category),
      .builtin builtin.category, none⟩, [], false⟩ := by
    rw [createTypeArgumentFromString, hbuiltin]
  have hvectors : ∀ vectorType ∈ vectorParts desc, vectorSignature env vectorType.2 ≠ 0 := by
    rw [vectorParts, hbuiltin]
    intro vectorType hmem
    cases hmem
  rw [compiledType, hcreated, Option.map_some, resolveUnboxedTypes_created hcreated rfl hvectors]

/-- An object type. -/
theorem compiledType_object (hbuiltin : TL.createTypeArgumentFromString desc = none)
    (hvectorName : vectorPrefix desc = none) (h : compiledType env names desc = some type) :
    ∃ constructorName name, type = ⟨!isBare desc,
      if isBare desc then (names (env.murMurHash32 desc)).getD 0 else 0, constructorName, name,
      .object, none⟩ := by
  obtain ⟨created, hcreated, rfl⟩ := Option.map_eq_some_iff.mp h
  rw [createTypeArgumentFromString, hbuiltin, hvectorName] at hcreated
  dsimp only at hcreated
  split at hcreated
  · next hobject =>
      subst hobject
      obtain rfl := Option.some.inj hcreated
      have hboxed : isBare "Object" = false := by decide
      exact ⟨0, env.murMurHash32 "Object", by rw [hboxed]; rfl⟩
  · rw [createObjectType] at hcreated
    split at hcreated
    · cases hcreated
    · next c hc =>
        have hbare : isBare desc = !c.isUpper := by rw [isBare, hc]; rfl
        split at hcreated
        · next hupper =>
            obtain rfl := Option.some.inj hcreated
            rw [hbare, hupper]
            exact ⟨0, _, rfl⟩
        · next hlower =>
            obtain rfl := Option.some.inj hcreated
            rw [hbare, (Bool.not_eq_true _).mp hlower]
            refine ⟨env.murMurHash32 desc,
              env.murMurHash32 (String.ofList (desc.toList.set (casePlace desc) c.toUpper)), ?_⟩
            rw [resolveUnboxedTypes, resolveUnboxedType, if_pos ⟨rfl, rfl⟩]
            dsimp only
            cases hfound : names (env.murMurHash32 desc) <;> rfl

/-- A name of a vector type is not that of a builtin type. -/
theorem create_of_vectorPrefix {boxed : Bool} (h : vectorPrefix desc = some boxed) :
    TL.createTypeArgumentFromString desc = none := by
  have hnames : ∀ name ∈ ["int", "Int", "long", "Long", "int128", "int256", "double", "Double",
      "string", "String", "bytes", "Bytes", "Bool"], vectorPrefix name = none := by decide
  have hne : ∀ name ∈ ["int", "Int", "long", "Long", "int128", "int256", "double", "Double",
      "string", "String", "bytes", "Bytes", "Bool"], desc ≠ name := by
    rintro name hname rfl
    rw [hnames desc hname] at h
    cases h
  simp only [List.mem_cons, List.not_mem_nil, or_false, forall_eq_or_imp, forall_eq] at hne
  simp only [TL.createTypeArgumentFromString, hne, if_false]

/-- A vector type. -/
theorem compiledType_vector {boxed : Bool} {inner : String}
    (hvectorName : vectorPrefix desc = some boxed) (hinner : typeArgumentDesc desc = some inner)
    (hne : vectorSignature env inner ≠ 0) (h : compiledType env names desc = some type) :
    ∃ element, compiledType env names inner = some element ∧ ∃ constructorName name,
      type = ⟨boxed, vectorSignature env inner, constructorName, name, .vector,
        some element⟩ := by
  obtain ⟨created, hcreated, rfl⟩ := Option.map_eq_some_iff.mp h
  rw [createTypeArgumentFromString, create_of_vectorPrefix hvectorName, hvectorName] at hcreated
  dsimp only at hcreated
  split at hcreated
  · next other hother =>
      obtain rfl := Option.some.inj (hinner.symm.trans hother)
      obtain ⟨element, helement, rfl⟩ := Option.map_eq_some_iff.mp hcreated
      refine ⟨_, by rw [compiledType, helement, Option.map_some], ?_⟩
      obtain ⟨signature, argument, heq, hkeeps, hargument⟩ :=
        @resolveUnboxedTypes_eq names (createdVector env desc boxed inner element).type
      rw [heq, hkeeps (.inr hne), hargument]
      exact ⟨_, _, rfl⟩
  · next hnone =>
      rw [hinner] at hnone
      cases hnone

end CompiledType

/-! ### Builtin values -/

section Builtin

open Codec (ReadsBack Reads)
open Telegraph.MtProto (tlLength longForm)
open Telegraph.Coder (stringWithUTF8 stringWithUTF8_utf8)

variable {data t rest : List UInt8}

/-- A reader whose result is converted. -/
theorem parser_map {α β : Type} (p : Parser α) (f : α → β) :
    (fun is => (p is).map fun r => (f r.1, r.2)) = (do let a ← p; pure (f a) : Parser β) := by
  funext is
  show _ = (p is >>= fun r => some (f r.1, r.2))
  cases p is <;> rfl

/-- Of the bytes of a long string some are missing. -/
theorem length_lt_of_readData {n : ℕ} (hlong : 2 ^ 23 ≤ n) {s read : List UInt8}
    (h : readData (tlLength (toLE 3 n)).toNat s = some (read, rest)) : read.length < n := by
  have hlt := tlLength_add_lt hlong
  rw [readData] at h
  split at h
  · cases h
  · obtain ⟨rfl, -⟩ := Prod.mk.inj (Option.some.inj h)
    rw [List.length_take]
    omega

/-- Of long bytes less are read. -/
theorem length_lt_of_readBytes (hlong : 2 ^ 23 ≤ data.length) {read : List UInt8}
    (h : readBytes (longForm data ++ t) = some (read, rest)) : read.length < data.length := by
  rw [readBytes, readLength_longForm] at h
  dsimp only at h
  split at h
  · cases h
  · obtain ⟨⟨found, behind⟩, hdata, heq⟩ := Option.map_eq_some_iff.mp h
    obtain ⟨rfl, -⟩ := Prod.mk.inj heq
    exact length_lt_of_readData hlong hdata

/-- Of a long string less is read. -/
theorem length_lt_of_readString (hlong : 2 ^ 23 ≤ data.length) {string : String}
    (h : readString (longForm data ++ t) = some (some string, rest)) :
    (utf8 string).length < data.length := by
  rw [readString, readLength_longForm] at h
  dsimp only at h
  split at h
  · obtain ⟨⟨found, behind⟩, hdata, heq⟩ := Option.map_eq_some_iff.mp h
    obtain ⟨hstring, -⟩ := Prod.mk.inj heq
    rw [utf8_of_stringWithUTF8 hstring]
    exact length_lt_of_readData hlong hdata
  · obtain ⟨hstring, -⟩ := Prod.mk.inj (Option.some.inj h)
    obtain rfl := Option.some.inj hstring
    have hempty : (utf8 "").length = 0 := by decide
    omega

/-- What is written for a long string. -/
theorem tlBytes_of_long (hlong : 2 ^ 23 ≤ data.length) (h : data.length < 2 ^ 24) :
    MtProto.tlBytes (some data) = some (longForm data) :=
  MtProto.tlBytes_long (by omega) (by omega)

/-- **Bytes are read back if there are less than `2 ^ 23` of them.** -/
theorem readsBack_bytes (h : data.length < 2 ^ 24) :
    ReadsBack (data.length < 2 ^ 23) (writeBytes (some data)) readBytes data where
  reads := fun hshort => by
    obtain ⟨s, w, hw, hform, hlength, hs⟩ := tlBytes_of_fits (d := some data) (.inl hshort)
    obtain rfl : data = s := by
      rcases hs with ⟨rfl, hmod⟩ | heq
      · rw [Option.getD_some, Nat.mod_eq_of_lt (by omega)] at hmod
        exact List.length_eq_zero_iff.mp hmod
      · exact Option.some.inj heq
    exact ⟨w, hw, fun rest => readBytes_form hform hlength rest⟩
  never := fun hlong bytes hbytes rest read rest' hread => by
    obtain rfl := Option.some.inj ((tlBytes_of_long (not_lt.mp hlong) h).symm.trans hbytes)
    rintro rfl
    exact absurd (length_lt_of_readBytes (not_lt.mp hlong) hread) (lt_irrefl _)

/-- **A string is read back if it has less than `2 ^ 23` bytes.** -/
theorem readsBack_string {string : String} (h : (utf8 string).length < 2 ^ 24) :
    ReadsBack ((utf8 string).length < 2 ^ 23) (writeString (some string)) readString
      (some string) where
  reads := fun hshort => by
    obtain ⟨s, w, hw, hform, hlength, hs⟩ := tlBytes_of_fits (d := some (utf8 string)) (.inl hshort)
    obtain rfl : utf8 string = s := by
      rcases hs with ⟨rfl, hmod⟩ | heq
      · rw [Option.getD_some, Nat.mod_eq_of_lt (by omega)] at hmod
        exact List.length_eq_zero_iff.mp hmod
      · exact Option.some.inj heq
    refine ⟨w, hw, fun rest => ?_⟩
    rw [readString_form hform hlength rest, stringWithUTF8_utf8]
  never := fun hlong bytes hbytes rest read rest' hread => by
    obtain rfl := Option.some.inj ((tlBytes_of_long (not_lt.mp hlong) h).symm.trans hbytes)
    rintro rfl
    exact absurd (length_lt_of_readString (not_lt.mp hlong) hread) (lt_irrefl _)

/-- The reader of a string. -/
theorem parser_string : TL.constructValue (fun _ _ => none) stringConstructor =
    (do let string ← (readString : Parser (Option String)); pure (.string string) :
      Parser Value) := by
  rw [← parser_map]
  funext is
  exact constructValue_string is

/-- The reader of bytes. -/
theorem parser_bytes : TL.constructValue (fun _ _ => none) bytesConstructor =
    (do let data ← (readBytes : Parser (List UInt8)); pure (.bytes (some data)) :
      Parser Value) := by
  rw [← parser_map (readBytes : Parser (List UInt8))]
  funext is
  exact constructValue_bytes is

/-- Data of the length of a category is written as it is. -/
theorem writeData_of_length {length : ℕ} (h : data.length = length) (zeros : List UInt8) :
    writeData length (some data) zeros = data := by
  rw [writeData, Option.getD_some, if_pos h]

/-- What a builtin value is written as: its bytes behind the signature that it is read by. -/
theorem plain_payload (doubles : Doubles) {type : TLMetaTypeArgument} {value : Value}
    (h : PlainValue type.category value) :
    ∃ signature ∈ builtinConstructors, ∃ payload,
      TL.writeValueWithType doubles value type =
        payload.map (fun bytes => writeBoxed type signature ++ bytes) ∧
      (bareSignature type.category = some signature ∨ type.category = .builtinBool) ∧
      ReadsBack (IsShort value) payload (TL.constructValue (fun _ _ => none) signature) value := by
  obtain ⟨boxed, bare, category⟩ := type
  cases category with
  | builtinInt32 =>
      cases value with
      | int32 v =>
          refine ⟨int32Constructor, by decide, some (writeInt32 v), rfl, .inl rfl,
            (ReadsBack.of_reads rfl fun rest => ?_).of_iff (iff_of_true trivial trivial)⟩
          rw [TL.constructValue, if_pos rfl, readInt32_write, Option.map_some]
      | _ => exact absurd h id
  | builtinInt64 =>
      cases value with
      | int64 v =>
          refine ⟨int64Constructor, by decide, some (writeInt64 v), rfl, .inl rfl,
            (ReadsBack.of_reads rfl fun rest => ?_).of_iff (iff_of_true trivial trivial)⟩
          rw [TL.constructValue, if_neg (by decide), if_pos rfl, readInt64_write]
      | _ => exact absurd h id
  | builtinInt128 =>
      obtain ⟨data, rfl, hlength⟩ : ∃ data, value = .bytes (some data) ∧ data.length = 16 := by
        cases value with
        | bytes data =>
            cases data with
            | none => exact absurd h id
            | some data => exact ⟨data, rfl, h⟩
        | _ => exact absurd h id
      have hshort : IsShort (.bytes (some data)) := by
        show data.length < 2 ^ 23
        omega
      refine ⟨int128Constructor, by decide, some data, ?_, .inl rfl,
        (ReadsBack.of_reads rfl fun rest => ?_).of_iff (iff_of_true hshort trivial)⟩
      · rw [TL.writeValueWithType]
        dsimp only
        rw [writeData_of_length hlength, Option.map_some]
      · rw [TL.constructValue, if_neg (by decide), if_neg (by decide), if_pos rfl, ← hlength,
          readData_append, Option.map_some]
  | builtinInt256 =>
      obtain ⟨data, rfl, hlength⟩ : ∃ data, value = .bytes (some data) ∧ data.length = 32 := by
        cases value with
        | bytes data =>
            cases data with
            | none => exact absurd h id
            | some data => exact ⟨data, rfl, h⟩
        | _ => exact absurd h id
      have hshort : IsShort (.bytes (some data)) := by
        show data.length < 2 ^ 23
        omega
      refine ⟨int256Constructor, by decide, some data, ?_, .inl rfl,
        (ReadsBack.of_reads rfl fun rest => ?_).of_iff (iff_of_true hshort trivial)⟩
      · rw [TL.writeValueWithType]
        dsimp only
        rw [writeData_of_length hlength, Option.map_some]
      · rw [TL.constructValue, if_neg (by decide), if_neg (by decide), if_neg (by decide),
          if_pos rfl, ← hlength, readData_append, Option.map_some]
  | builtinString =>
      obtain ⟨string, rfl, hlength⟩ : ∃ string, value = .string (some string) ∧
          (utf8 string).length < 2 ^ 24 := by
        cases value with
        | string string =>
            cases string with
            | none => exact absurd h id
            | some string => exact ⟨string, rfl, h⟩
        | _ => exact absurd h id
      refine ⟨stringConstructor, by decide, writeString (some string), rfl, .inl rfl, ?_⟩
      rw [parser_string]
      exact (readsBack_string hlength).map fun _ _ _ _ _ _ heq => TLConstructedValue.string.inj heq
  | builtinBytes =>
      obtain ⟨data, rfl, hlength⟩ : ∃ data, value = .bytes (some data) ∧
          data.length < 2 ^ 24 := by
        cases value with
        | bytes data =>
            cases data with
            | none => exact absurd h id
            | some data => exact ⟨data, rfl, h⟩
        | _ => exact absurd h id
      refine ⟨bytesConstructor, by decide, writeBytes (some data), rfl, .inl rfl, ?_⟩
      rw [parser_bytes]
      exact (readsBack_bytes hlength).map fun _ _ _ _ _ _ heq =>
        Option.some.inj (TLConstructedValue.bytes.inj heq)
  | builtinDouble =>
      cases value with
      | double v =>
          refine ⟨doubleConstructor, by decide, some (writeInt64 v), rfl, .inl rfl,
            (ReadsBack.of_reads rfl fun rest => ?_).of_iff (iff_of_true trivial trivial)⟩
          rw [TL.constructValue, if_neg (by decide), if_neg (by decide), if_neg (by decide),
            if_neg (by decide), if_neg (by decide), if_neg (by decide), if_pos rfl,
            readInt64_write]
      | _ => exact absurd h id
  | builtinBool =>
      cases value with
      | bool v =>
          refine ⟨boolConstructor v, by cases v <;> decide, some [], ?_, .inr rfl,
            (ReadsBack.of_reads rfl fun rest => constructValue_bool rest v).of_iff
              (iff_of_true trivial trivial)⟩
          rw [Option.map_some, List.append_nil]
          rfl
      | _ => exact absurd h id

end Builtin

/-! ### Signatures -/

section Signatures

open Codec (ReadsBack Reads Yields)

variable {type : TypeArgument} {signature : BitVec 32} {store : Store} {fuel : ℕ}

/-- The signature of an element is read. -/
theorem reads_itemSignature
    (h : type.boxed = false → type.unboxedConstructorSignature = signature) :
    Reads (itemSignature type) (writeSignature type.boxed signature) signature := by
  intro rest
  rw [itemSignature, writeSignature]
  cases hboxed : type.boxed with
  | true =>
      rw [if_pos rfl, if_pos rfl]
      exact readInt32_write signature rest
  | false =>
      rw [if_neg Bool.false_ne_true, if_neg Bool.false_ne_true, h hboxed]
      rfl

/-- The signature of a field is read, unless it is the one of all vectors and the field has
another one. -/
theorem reads_fieldSignature
    (h : type.boxed = false → type.unboxedConstructorSignature = signature)
    (hother : signature = universalVectorConstructor → type.unboxedConstructorSignature ≠ 0 →
      type.unboxedConstructorSignature = signature) :
    Reads (fieldSignature type) (writeSignature type.boxed signature) signature := by
  rw [← List.append_nil (writeSignature type.boxed signature)]
  refine (reads_itemSignature h).bind ?_
  split
  · next hvector =>
      rw [hother hvector.1 hvector.2]
      exact Reads.pure signature
  · exact Reads.pure signature

/-- The signature of all vectors is replaced. -/
theorem reads_fieldSignature_vector (hne : type.unboxedConstructorSignature ≠ 0) :
    Reads (fieldSignature type) (writeSignature type.boxed universalVectorConstructor)
      type.unboxedConstructorSignature := by
  have hsame : Reads (pure type.unboxedConstructorSignature : Parser (BitVec 32)) []
      type.unboxedConstructorSignature := Reads.pure _
  rw [← List.append_nil (writeSignature type.boxed universalVectorConstructor)]
  cases hboxed : type.boxed with
  | true =>
      rw [← hboxed]
      refine (reads_itemSignature fun hbare => ?_).bind ?_
      · rw [hboxed] at hbare
        cases hbare
      · rw [if_pos ⟨rfl, hne⟩]
        exact hsame
  | false =>
      rw [writeSignature, if_neg Bool.false_ne_true]
      have hitem : Reads (itemSignature type)
          (writeSignature type.boxed type.unboxedConstructorSignature)
          type.unboxedConstructorSignature := reads_itemSignature fun _ => rfl
      rw [hboxed, writeSignature, if_neg Bool.false_ne_true] at hitem
      refine hitem.bind ?_
      split <;> exact hsame

/-- A builtin value is read as such. -/
theorem constructValue_builtin (h : signature ∈ builtinConstructors) :
    constructValue runtime store (fuel + 1) 0 signature =
      TL.constructValue (fun _ _ => none) signature := by
  have hne : signature ≠ gzipPacked := by
    rintro rfl
    revert h
    decide
  rw [constructValue, if_neg hne, if_pos h]

/-- What is no builtin value is looked up. -/
theorem constructValue_other (hne : signature ≠ gzipPacked) (h : signature ∉ builtinConstructors) :
    constructValue runtime store (fuel + 1) 0 signature =
      constructOther runtime store (constructValue runtime store fuel 0) signature := by
  rw [constructValue, if_neg hne, if_neg h, if_neg fun himplied => himplied.2 rfl]

/-- What is found in the tables is an object or a vector. -/
theorem yields_constructOther {read : BitVec 32 → Parser Value} (v : Bool) :
    Yields (constructOther runtime store read signature) fun value => value ≠ .bool v := by
  rw [constructOther]
  split
  · exact Yields.after fun _ => Yields.pure (by rintro ⟨⟩)
  · split
    · refine Yields.after fun values => ?_
      split
      · exact Yields.pure (by rintro ⟨⟩)
      · intro _ _ _ hfail
        cases hfail
    · split
      · exact Yields.after fun count => Yields.after fun items => Yields.pure (by rintro ⟨⟩)
      · intro _ _ _ hfail
        cases hfail

end Signatures

/-! ### Single values -/

section Values

open Codec (ReadsBack Reads Yields)

variable {store : Store} {names : BitVec 32 → Option (BitVec 32)} {desc : String}
  {signatureOf : Parser (BitVec 32)} {fuel : ℕ} {value : Value}

/-- **A builtin value is read back if it is short**, by whatever reads its signature. -/
theorem readsBack_builtin {builtin : TLMetaTypeArgument} {constructorName name : BitVec 32}
    (write : Option NativeObject → Bool → Option (List UInt8)) {value : Value}
    (hvalue : PlainValue builtin.category value)
    (hsignature : ∀ signature ∈ builtinConstructors,
      bareSignature builtin.category = some signature ∨ builtin.category = .builtinBool →
        Reads signatureOf (writeBoxed builtin signature) signature) :
    ReadsBack (IsShort value)
      (writeValueWithType runtime write value ⟨builtin.boxed, builtin.unboxedConstructorSignature,
        constructorName, name, .builtin builtin.category, none⟩)
      (do
        let signature ← signatureOf
        constructValue runtime store (fuel + 1) 0 signature) value := by
  obtain ⟨signature, hmem, payload, hwrite, hbare, hback⟩ := plain_payload runtime.doubles hvalue
  rw [writeValueWithType, hwrite]
  refine ReadsBack.after (hsignature signature hmem hbare) ?_
  rw [constructValue_builtin hmem]
  exact hback

/-- As many values are read as there are fields. -/
theorem yields_length_constructFields {read : BitVec 32 → Parser Value} (fields : List MetaField) :
    Yields (constructFields read fields) fun values => values.length = fields.length := by
  induction fields with
  | nil => exact Yields.pure rfl
  | cons field fields ih =>
      refine Yields.after fun value => ih.bind fun values hvalues => Yields.pure ?_
      rw [List.length_cons, List.length_cons, hvalues]

/-- An object of a constructor has the values that it was made of. -/
theorem objectOf_inj {entry : SchemeEntry} {values others : List Value}
    (hvalues : values.length = entry.params.length) (hothers : others.length = entry.params.length)
    (h : objectOf env entry values = objectOf env entry others) : values = others := by
  have hzip := (NativeObject.object.inj h).2
  have hsnd := congrArg (List.map Prod.snd) hzip
  rwa [List.map_snd_zip (by rw [List.length_map, hvalues]),
    List.map_snd_zip (by rw [List.length_map, hothers])] at hsnd

/-- Where no signature is, nothing is read. -/
theorem names_ne (hlegible : scheme.Legible env runtime)
    (hcompiles : store.Compiles env scheme names) (name : BitVec 32) :
    (names name).getD 0 ≠ gzipPacked ∧ (names name).getD 0 ∉ builtinConstructors := by
  by_cases h : ∃ entry ∈ scheme.entries, env.murMurHash32 entry.name = name
  · obtain ⟨entry, hentry, rfl⟩ := h
    rw [hcompiles.names_entry entry hentry, Option.getD_some]
    exact (hlegible.entries entry hentry).2
  · rw [hcompiles.names_other name fun entry hentry heq => h ⟨entry, hentry, heq⟩]
    decide

/-- What is written for no object is read as no object. -/
theorem constructField_null {type : TypeArgument} (hboxed : type.boxed = true)
    (rest : List UInt8) :
    constructField (constructValue runtime store (fuel + 1) 0) type
      (writeSignature true nullConstructor ++ rest) = some (.object none, rest) := by
  have hsignature : Reads (fieldSignature type) (writeSignature type.boxed nullConstructor)
      nullConstructor :=
    reads_fieldSignature (fun hbare => absurd (hboxed.symm.trans hbare) (by decide))
      fun hvector => absurd hvector (by decide)
  rw [hboxed] at hsignature
  rw [constructField, Codec.run_bind (hsignature rest), constructValue_builtin (by decide)]
  rw [TL.constructValue, if_neg (by decide), if_neg (by decide), if_neg (by decide),
    if_neg (by decide), if_neg (by decide), if_neg (by decide), if_neg (by decide),
    if_neg (by decide), if_neg (by decide), if_pos rfl]

/-- The names that the claim of a builtin type rests on only. -/
theorem desc_of_plainCategory {category : TLMetaTypeCategory}
    (hdesc : plainCategory desc = some category)
    (hbuiltin : TL.createTypeArgumentFromString desc = none) :
    desc = "Int128" ∧ category = .builtinInt128 ∨ desc = "Int256" ∧ category = .builtinInt256 ∨
      desc = "bool" ∧ category = .builtinBool := by
  rw [plainCategory, hbuiltin] at hdesc
  split at hdesc
  · next h => exact .inl ⟨h, (Option.some.inj hdesc).symm⟩
  · split at hdesc
    · next h => exact .inr (.inl ⟨h, (Option.some.inj hdesc).symm⟩)
    · split at hdesc
      · next h => exact .inr (.inr ⟨h, (Option.some.inj hdesc).symm⟩)
      · cases hdesc

/-- The category of a builtin type. -/
theorem category_of_create {category : TLMetaTypeCategory} {builtin : TLMetaTypeArgument}
    (hbuiltin : TL.createTypeArgumentFromString desc = some builtin)
    (hdesc : plainCategory desc = some category) : category = builtin.category := by
  have hother : ∀ name ∈ ["Int128", "Int256", "bool"],
      TL.createTypeArgumentFromString name = none := by decide
  have hne : ∀ name ∈ ["Int128", "Int256", "bool"], desc ≠ name := by
    rintro name hname rfl
    rw [hother desc hname] at hbuiltin
    cases hbuiltin
  rw [plainCategory, if_neg (hne _ (by simp)), if_neg (hne _ (by simp)),
    if_neg (hne _ (by simp)), hbuiltin] at hdesc
  exact (Option.some.inj hdesc).symm

/-- Data in a field that is taken for one of a boxed object is not read. -/
theorem not_readsBack_data {type : TypeArgument} (hboxed : type.boxed = true)
    (hcategory : type.category = .object) (hvalue : PlainValue .builtinInt128 value ∨
      PlainValue .builtinInt256 value) {P : Prop} (hP : ¬ P)
    (write : Option NativeObject → Bool → Option (List UInt8)) :
    ReadsBack P (writeValueWithType runtime write value type)
      (constructField (constructValue runtime store (fuel + 1) 0) type) value := by
  refine ReadsBack.of_never hP fun bytes hbytes rest read rest' hread => ?_
  obtain ⟨data, rfl⟩ : ∃ data, value = .bytes (some data) := by
    match value, hvalue with
    | .bytes (some data), _ => exact ⟨data, rfl⟩
  obtain ⟨boxed, signature, constructorName, name, category, argument⟩ := type
  dsimp only at hboxed hcategory
  subst hboxed hcategory
  simp only [writeValueWithType] at hbytes
  obtain rfl := Option.some.inj hbytes
  rw [constructField_null rfl] at hread
  obtain ⟨rfl, -⟩ := Prod.mk.inj (Option.some.inj hread)
  rintro ⟨⟩

/-- **A boxed `Int128` or `Int256` and a bare `Bool` are not read back**: their names are taken for
those of objects. -/
theorem not_readsBack_plain (hlegible : scheme.Legible env runtime)
    (hcompiles : store.Compiles env scheme names) {category : TLMetaTypeCategory}
    (hdesc : plainCategory desc = some category)
    (hbuiltin : TL.createTypeArgumentFromString desc = none)
    (hvalue : PlainValue category value) {type : TypeArgument}
    (htype : compiledType env names desc = some type) {P : Prop} (hP : ¬ P)
    (write : Option NativeObject → Bool → Option (List UInt8)) :
    ReadsBack P (writeValueWithType runtime write value type)
      (constructField (constructValue runtime store (fuel + 1) 0) type) value := by
  rcases desc_of_plainCategory hdesc hbuiltin with ⟨rfl, rfl⟩ | ⟨rfl, rfl⟩ | ⟨rfl, rfl⟩
  · obtain ⟨constructorName, name, rfl⟩ :=
      compiledType_object hbuiltin (by decide) htype
    have hboxed : isBare "Int128" = false := by decide
    exact not_readsBack_data (by rw [hboxed]; rfl) rfl (.inl hvalue) hP write
  · obtain ⟨constructorName, name, rfl⟩ :=
      compiledType_object hbuiltin (by decide) htype
    have hboxed : isBare "Int256" = false := by decide
    exact not_readsBack_data (by rw [hboxed]; rfl) rfl (.inr hvalue) hP write
  · obtain ⟨constructorName, name, rfl⟩ :=
      compiledType_object hbuiltin (by decide) htype
    have hbare : isBare "bool" = true := by decide
    rw [hbare, if_pos rfl]
    refine ReadsBack.of_never hP fun bytes hbytes rest read rest' hread => ?_
    obtain ⟨v, rfl⟩ : ∃ v, value = .bool v := by
      match value, hvalue with
      | .bool v, _ => exact ⟨v, rfl⟩
    obtain ⟨hgzip, hother⟩ := names_ne hlegible hcompiles (env.murMurHash32 "bool")
    generalize (names (env.murMurHash32 "bool")).getD 0 = signature at hbytes hread hgzip hother
    have hsignature : Reads
        (fieldSignature ⟨!true, signature, constructorName, name, .object, none⟩)
        (writeSignature false signature) signature :=
      reads_fieldSignature (fun _ => rfl) fun _ _ => rfl
    have hnothing : writeSignature (!true) nullConstructor = writeSignature false signature := by
      rw [writeSignature, writeSignature, Bool.not_true, if_neg Bool.false_ne_true,
        if_neg Bool.false_ne_true]
    simp only [writeValueWithType] at hbytes
    obtain rfl := Option.some.inj hbytes
    rw [hnothing, constructField, Codec.run_bind (hsignature rest),
      constructValue_other hgzip hother] at hread
    exact yields_constructOther v _ _ _ hread

/-- What is written for the fields of an object. -/
def serializeFields (runtime : Runtime) (store : Store) (w : ℕ) (entry : SchemeEntry)
    (fieldValues : List (BitVec 32 × Value)) (fields : List MetaField) : Option (List UInt8) :=
  if entry.name = "msgs_ack" then serializeMsgsAck runtime fieldValues fields
  else serialize runtime (serializeObject runtime store w) fieldValues fields

/-- What is written for an object: its signature, if it is boxed, and its fields. -/
theorem serializeObject_objectOf (hlegible : scheme.Legible env runtime) {entry : SchemeEntry}
    (hentry : Generated env runtime scheme entry) {constructor : MetaConstructor}
    (hsignature : constructor.signature = entry.n_id)
    (hname : store.constructorsByName (env.murMurHash32 entry.name) = some constructor)
    (values : List Value) (w : ℕ) (boxed : Bool) :
    serializeObject runtime store (w + 1) (some (objectOf env entry values)) boxed =
      (serializeFields runtime store w entry
        ((entry.params.map fun param => env.murMurHash32 param.name).zip values)
        constructor.fields).map fun written => writeSignature boxed entry.n_id ++ written := by
  have hmem : entry ∈ scheme.entries := List.mem_append_left _ hentry.mem
  obtain ⟨-, hgzip, -⟩ := hlegible.entries entry hmem
  by_cases hacks : entry.name = "msgs_ack"
  · simp only [serializeObject, objectOf, classOf, hgzip, hacks, decide_true, if_true, if_false,
      serializeFields]
    rw [← hacks, hname, Option.map_eq_bind]
    rfl
  · simp only [serializeObject, objectOf, classOf, hgzip, hentry.named, hacks, decide_false,
      Bool.false_eq_true, if_false, serializeNamed, serializeFields, hname, hsignature]

/-- **The object of a constructor is read back if its fields are**, by whatever reads its
signature. -/
theorem readsBack_object (hlegible : scheme.Legible env runtime)
    (hcompiles : store.Compiles env scheme names) {entry : SchemeEntry}
    (hentry : Generated env runtime scheme entry) {values : List Value}
    (hlength : values.length = entry.params.length) {P : Prop} {w : ℕ}
    (hfields : ∀ fields, List.Forall₂ (CompiledField env names) entry.params fields →
      ReadsBack P (serializeFields runtime store w entry
        ((entry.params.map fun param => env.murMurHash32 param.name).zip values) fields)
        (constructFields (constructValue runtime store fuel 0) fields) values)
    {boxed : Bool} (hsignature : Reads signatureOf (writeSignature boxed entry.n_id) entry.n_id) :
    ReadsBack P (serializeObject runtime store (w + 1) (some (objectOf env entry values)) boxed)
      (do
        let signature ← signatureOf
        constructValue runtime store (fuel + 1) 0 signature)
      (.object (some (objectOf env entry values))) := by
  obtain ⟨constructor, ⟨hname, hn_id, hcompiled⟩, hbySignature, hbyName⟩ :=
    hcompiles.constructors entry hentry.mem
  have hmem : entry ∈ scheme.entries := List.mem_append_left _ hentry.mem
  obtain ⟨-, hgzip, hbuiltin⟩ := hlegible.entries entry hmem
  have hkeys : constructor.fields.map MetaField.name =
      entry.params.map fun param => env.murMurHash32 param.name := by
    rw [← List.forall₂_eq_eq_eq, List.forall₂_map_left_iff, List.forall₂_map_right_iff]
    exact hcompiled.flip.imp fun _ _ h => h.1
  have hread : constructValue runtime store (fuel + 1) 0 entry.n_id =
      (do
        let values ← constructFields (constructValue runtime store fuel 0) constructor.fields
        pure (.object (some (objectOf env entry values)))) := by
    rw [constructValue_other hgzip hbuiltin, constructOther, hentry.noParser]
    dsimp only
    rw [hbySignature]
    dsimp only
    rw [construct, hname, hentry.registered, hkeys]
    rfl
  rw [serializeObject_objectOf hlegible hentry hn_id hbyName]
  refine ReadsBack.after hsignature ?_
  rw [hread]
  refine (hfields constructor.fields hcompiled).map fun bytes _ rest read rest' hrun heq => ?_
  have hread := yields_length_constructFields constructor.fields _ read rest' hrun
  rw [← hcompiled.length_eq] at hread
  exact objectOf_inj hread hlength (Option.some.inj (TLConstructedValue.object.inj heq))

end Values

end Telegraph.TL.TLMetaClassStore
