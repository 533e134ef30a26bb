import Mathlib.Data.List.ReduceOption
import Telegraph.MtProto.Encryption
import Telegraph.TL.SchemeValues

/-!
# The Round Trip of a Scheme

Every object of a merged scheme is read back from what is written for it if its tree is fine, and
is not otherwise. A value is looked at in the places where it may stand: as a field, as an element
of a vector, and, if it is a vector of `long`, as a field of an acknowledgement, which is written in
a way of its own. The fuel of the reader and that of the writer are at least the depth.

What fails are the vectors. The signature of a vector tells bare elements from boxed ones, but the
table of these signatures is keyed by the name of the type, which does not.

## Main results

* `sameSignature_registered`, `signature_registered_boxed`: when the table has the signature by
  which elements were written.
* `readsBack_vector`: **the vectors that are read back**.
* `outcome`: the same for all trees, by induction.
* `scheme_roundTrips_iff`: **an object of a scheme is read back if and only if its tree is fine**.
* `not_scheme_roundTrips`: a vector of bare objects that is not.
-/

open Bytes

namespace Telegraph.TL.TLMetaClassStore

open Codec (Parser ReadsBack Reads Yields)
open Telegraph.Coder (utf8)

variable {env : Environment} {runtime : Runtime} {scheme : TLScheme} {store : Store}
  {names : BitVec 32 → Option (BitVec 32)} {desc inner : String} {fuel : ℕ}

/-! ### Elements of vectors -/

section Elements

/-- A type of elements by which they are read as they were written by another. -/
def SameSignature (element read : TypeArgument) : Prop :=
  read.boxed = element.boxed ∧
    (element.boxed = false →
      read.unboxedConstructorSignature = element.unboxedConstructorSignature)

/-- An object type is not builtin. -/
theorem create_of_isObjectType (h : IsObjectType desc) :
    TL.createTypeArgumentFromString desc = none := by
  have hplain := h.1
  rw [plainCategory] at hplain
  split at hplain
  · cases hplain
  · split at hplain
    · cases hplain
    · split at hplain
      · cases hplain
      · exact Option.map_eq_none_iff.mp hplain

/-- What is compiled for an object type. -/
theorem created_object {created : Created} (h : IsObjectType desc)
    (hcreated : createTypeArgumentFromString env desc = some created) :
    created.type.boxed = !isBare desc ∧
      (isBare desc = true → created.type.unboxedConstructorSignature = 0 ∧
        created.type.argument = none) := by
  have hbare : isBare "Object" = false := by decide
  rw [createTypeArgumentFromString, create_of_isObjectType h, h.2] at hcreated
  dsimp only at hcreated
  split at hcreated
  · next hobject =>
      subst hobject
      obtain rfl := Option.some.inj hcreated
      rw [hbare]
      exact ⟨rfl, fun hfalse => absurd hfalse Bool.false_ne_true⟩
  · rw [createObjectType] at hcreated
    split at hcreated
    · cases hcreated
    · next c hc =>
        rw [isBare, hc, Option.any_some, Bool.not_not]
        split at hcreated
        · next hupper =>
            obtain rfl := Option.some.inj hcreated
            rw [hupper]
            exact ⟨rfl, fun hfalse => absurd hfalse Bool.false_ne_true⟩
        · next hlower =>
            obtain rfl := Option.some.inj hcreated
            rw [(Bool.not_eq_true _).mp hlower]
            exact ⟨rfl, fun _ => ⟨rfl, rfl⟩⟩

/-- Unless they are bare objects, elements are boxed or have a signature from the beginning. -/
theorem boxed_or_ne_zero_of_isElementType {created : Created} (h : IsElementType desc)
    (hobject : ¬ (IsObjectType desc ∧ isBare desc = true))
    (hcreated : createTypeArgumentFromString env desc = some created) :
    created.type.boxed = true ∨ created.type.unboxedConstructorSignature ≠ 0 := by
  rcases h with h | ⟨builtin, hbuiltin, -⟩
  · refine .inl ?_
    rw [(created_object h hcreated).1, Bool.not_eq_true']
    exact (Bool.not_eq_true _).mp fun hbare => hobject ⟨h, hbare⟩
  · rw [createTypeArgumentFromString, hbuiltin] at hcreated
    obtain rfl := Option.some.inj hcreated
    exact boxed_or_ne_zero hbuiltin

/-- **The type in the table is that of the elements**, unless these are bare objects and the vector
that came last is boxed. -/
theorem sameSignature_registered {created : Created} {element : TypeArgument} {boxed : Bool}
    (helement : IsElementType inner)
    (hcreated : createTypeArgumentFromString env inner = some created)
    (hcompiled : compiledType env names inner = some element)
    (h : ¬ (IsObjectType inner ∧ isBare inner = true) ∨ boxed = false) :
    SameSignature element
      (resolveUnboxedTypes names (registeredVector env boxed created.type inner).type).1 := by
  rw [compiledType, hcreated, Option.map_some] at hcompiled
  obtain rfl := Option.some.inj hcompiled
  cases boxed with
  | false => exact ⟨rfl, fun _ => rfl⟩
  | true =>
      have hsignature := boxed_or_ne_zero_of_isElementType helement
        (h.resolve_right (by decide)) hcreated
      refine ⟨?_, fun _ => ?_⟩
      · rw [resolveUnboxedTypes_boxed, resolveUnboxedTypes_boxed]
        rfl
      · rw [resolveUnboxedTypes_signature _ hsignature, resolveUnboxedTypes_signature]
        · rfl
        · exact hsignature

/-- Bare objects have no signature in the table if the vector that came last is boxed. -/
theorem signature_registered_boxed {created : Created} (hobject : IsObjectType inner)
    (hbare : isBare inner = true)
    (hcreated : createTypeArgumentFromString env inner = some created)
    (hmemory : names (env.uninitialized inner) = none) :
    (resolveUnboxedTypes names (registeredVector env true created.type inner).type).1.boxed =
        false ∧
      (resolveUnboxedTypes names (registeredVector env true created.type inner).type
        ).1.unboxedConstructorSignature = 0 := by
  obtain ⟨hboxed, hzero⟩ := created_object hobject hcreated
  obtain ⟨hsignature, hargument⟩ := hzero hbare
  rw [hbare] at hboxed
  refine ⟨?_, ?_⟩
  · rw [resolveUnboxedTypes_boxed]
    exact hboxed
  · have hname : (registeredVector env true created.type inner).type.unboxedConstructorName =
        env.uninitialized inner := rfl
    rw [resolveUnboxedTypes_bare]
    · rw [hname, hmemory]
      rfl
    · exact hboxed
    · exact hsignature
    · exact hargument

/-- An integer or a string is converted back to what it was made of. -/
theorem itemValue_plain {category : TLMetaTypeCategory} {value : Value}
    (hcategory : category ∈ [.builtinInt32, .builtinInt64, .builtinString])
    (hvalue : PlainValue category value) :
    ∃ item, nativeValue value = some item ∧
      itemValue runtime (.builtin category) item = some value ∧
      ∀ other, (∀ object, other ≠ .object (some object)) → nativeValue other = some item →
        other = value := by
  simp only [List.mem_cons, List.not_mem_nil, or_false] at hcategory
  rcases hcategory with rfl | rfl | rfl
  · match value, hvalue with
    | .int32 v, _ =>
        refine ⟨.numberWithInt v, rfl, rfl, fun other hother heq => ?_⟩
        cases other <;> simp_all [nativeValue]
  · match value, hvalue with
    | .int64 v, _ =>
        refine ⟨.numberWithLongLong v, rfl, rfl, fun other hother heq => ?_⟩
        cases other <;> simp_all [nativeValue]
  · match value, hvalue with
    | .string (some v), _ =>
        refine ⟨.string v, rfl, rfl, fun other hother heq => ?_⟩
        cases other <;> simp_all [nativeValue]

/-- Only an object is converted to an object of a class. -/
theorem eq_object_of_nativeValue {value : Value} {objectClass : ObjectClass}
    {fieldValues : List (BitVec 32 × Value)}
    (h : nativeValue value = some (.object objectClass fieldValues)) :
    value = .object (some (.object objectClass fieldValues)) := by
  cases value with
  | object nativeObject => exact congrArg TLConstructedValue.object h
  | _ => simp [nativeValue] at h

/-- What was read, if anything, is not an object. -/
def NotObject (x : Option (Value × List UInt8)) : Prop :=
  ∀ r ∈ x, ∀ object, r.1 ≠ .object (some object)

/-- What is not an object either way. -/
theorem notObject_ite {c : Prop} [Decidable c] {x y : Option (Value × List UInt8)}
    (hx : NotObject x) (hy : NotObject y) : NotObject (if c then x else y) := by
  split
  · exact hx
  · exact hy

/-- What is made of what was read is not an object. -/
theorem notObject_map {α : Type} {x : Option α} {f : α → Value × List UInt8}
    (hf : ∀ a object, (f a).1 ≠ .object (some object)) : NotObject (x.map f) := by
  intro r hr
  obtain ⟨a, -, rfl⟩ := Option.map_eq_some_iff.mp hr
  exact hf a

/-- What is given is not an object. -/
theorem notObject_some {value : Value} {rest : List UInt8}
    (h : ∀ object, value ≠ .object (some object)) : NotObject (some (value, rest)) := by
  rintro _ ⟨⟩
  exact h

/-- No builtin value is an object. -/
theorem yields_builtin (signature : BitVec 32) :
    Yields (TL.constructValue (fun _ _ => none) signature : Parser Value)
      fun value => ∀ object, value ≠ .object (some object) := by
  intro is value rest hrun
  have h : NotObject (TL.constructValue (fun _ _ => none) signature is) := by
    rw [TL.constructValue]
    refine notObject_ite (notObject_map ?_) <| notObject_ite (notObject_some ?_) <|
      notObject_ite (notObject_map ?_) <| notObject_ite (notObject_map ?_) <|
      notObject_ite (notObject_map ?_) <| notObject_ite (notObject_map ?_) <|
      notObject_ite (notObject_some ?_) <| notObject_ite (notObject_some ?_) <|
      notObject_ite (notObject_some ?_) <| notObject_ite (notObject_some ?_) (by rintro _ ⟨⟩)
    all_goals
      intros
      rw [ne_eq]
      intro heq
      cases heq
  exact h _ hrun

end Elements

/-! ### Vectors -/

section Vectors

/-- What is written for an element of a vector. -/
def writeItem (runtime : Runtime) (write : Option NativeObject → Bool → Option (List UInt8))
    (type : TypeArgument) (item : NativeObject) : Option (List UInt8) := do
  let value ← itemValue runtime type.category item
  writeValueWithType runtime write value type

/-- The elements of a vector are written one after the other. -/
theorem writeItems_cons {write : NativeObject → Option (List UInt8)} (item : NativeObject)
    (items : List NativeObject) :
    ((item :: items).mapM write).map List.flatten = (do
      let bs ← write item
      let cs ← (items.mapM write).map List.flatten
      pure (bs ++ cs)) := by
  rw [List.mapM_cons]
  cases write item with
  | none => rfl
  | some bs => cases items.mapM write <;> rfl

/-- A vector is written with its signature, the number of its elements, and these. -/
theorem writeValueWithType_vector {write : Option NativeObject → Bool → Option (List UInt8)}
    {boxed : Bool} {signature constructorName name : BitVec 32} (hne : signature ≠ 0)
    (element : TypeArgument) (items : List NativeObject) :
    writeValueWithType runtime write (.vector (some items))
        ⟨boxed, signature, constructorName, name, .vector, some element⟩ =
      (((items.mapM (writeItem runtime write element)).map List.flatten).map fun bytes =>
        writeInt32 (BitVec.ofNat 32 items.length) ++ bytes).map fun bytes =>
          writeSignature boxed universalVectorConstructor ++ bytes := by
  rw [writeValueWithType, if_pos hne, Option.getD_some]
  change (items.mapM (writeItem runtime write element)).bind _ = _
  cases items.mapM (writeItem runtime write element) with
  | none => rfl
  | some written =>
      simp only [Option.bind_some, Option.map_some, List.append_assoc]
      rfl

/-- A count of less than `2 ^ 31` elements is read as it is. -/
theorem toNat_count {n : ℕ} (h : n < 2 ^ 31) : (BitVec.ofNat 32 n).toInt.toNat = n := by
  rw [BitVec.toInt_eq_toNat_of_lt (by rw [BitVec.toNat_ofNat]; omega), BitVec.toNat_ofNat]
  omega

/-- A larger count is read as one that is too small. -/
theorem toNat_count_lt {n : ℕ} (h : 2 ^ 31 ≤ n) : (BitVec.ofNat 32 n).toInt.toNat < n := by
  have hlt := BitVec.toInt_lt (x := BitVec.ofNat 32 n)
  omega

/-- Elements that are all there. -/
theorem reduceOption_map_some (items : List NativeObject) :
    (items.map some).reduceOption = items := by
  rw [List.reduceOption, List.filterMap_map]
  exact List.filterMap_some

/-- Of elements that are all there none is left out. -/
theorem eq_map_reduceOption {items : List (Option NativeObject)}
    (h : ∀ item ∈ items, item.isSome = true) : items = items.reduceOption.map some := by
  induction items with
  | nil => rfl
  | cons item items ih =>
      obtain ⟨object, rfl⟩ := Option.isSome_iff_exists.mp (h item List.mem_cons_self)
      rw [List.reduceOption_cons_of_some, List.map_cons,
        ← ih fun other hother => h other (List.mem_cons_of_mem _ hother)]

/-- **The elements of a vector are read back if there are less than `2 ^ 31` of them** and each of
them is. -/
theorem readsBack_count {read : BitVec 32 → Parser Value} {type : TypeArgument}
    {items : List NativeObject} {written : Option (List UInt8)} {P : Prop}
    (h : ReadsBack P written (Codec.times (constructItem read type) items.length)
      (items.map some)) :
    ReadsBack (items.length < 2 ^ 31 ∧ P)
      (written.map fun bytes => writeInt32 (BitVec.ofNat 32 items.length) ++ bytes)
      (constructVector read type) (.vector (some items)) := by
  by_cases hcount : items.length < 2 ^ 31
  · have hitems : ReadsBack P written
        (do
          let items ← Codec.times (constructItem read type)
            (BitVec.ofNat 32 items.length).toInt.toNat
          pure (.vector (some items.reduceOption)) : Parser Value)
        (.vector (some (items.map some).reduceOption)) := by
      rw [toNat_count hcount]
      refine h.map fun bytes _ rest found rest' hrun heq => ?_
      have hlength := Codec.yields_length_times _ _ _ found rest' hrun
      have hfound : found.reduceOption = items := by
        rw [reduceOption_map_some] at heq
        exact Option.some.inj (TLConstructedValue.vector.inj heq)
      have hall := List.reduceOption_length_eq_iff.mp (by rw [hfound, hlength])
      rw [eq_map_reduceOption hall, hfound]
    rw [reduceOption_map_some] at hitems
    exact (hitems.after (readInt32_write _)).of_iff ⟨And.right, fun hP => ⟨hcount, hP⟩⟩
  · refine ReadsBack.of_never (fun hP => hcount hP.1) fun bytes hbytes rest found rest' hrun => ?_
    obtain ⟨behind, -, rfl⟩ := Option.map_eq_some_iff.mp hbytes
    rw [List.append_assoc, constructVector, Codec.run_bind (readInt32_write _ _)] at hrun
    obtain ⟨⟨read, middle⟩, htimes, hlast⟩ := Option.bind_eq_some_iff.mp hrun
    obtain ⟨rfl, -⟩ := Prod.mk.inj (Option.some.inj hlast)
    have hlength := Codec.yields_length_times _ _ _ read middle htimes
    intro heq
    have hfound : read.reduceOption = items :=
      Option.some.inj (TLConstructedValue.vector.inj heq)
    have hle := List.reduceOption_length_le read
    have hlt := toNat_count_lt (not_lt.mp hcount)
    rw [hfound, hlength] at hle
    omega

/-- Where no signature is known, nothing is read. -/
theorem constructValue_zero (hlegible : scheme.Legible env runtime)
    (hcompiles : store.Compiles env scheme names) (is : List UInt8) :
    constructValue runtime store fuel 0 0 is = none := by
  cases fuel with
  | zero => rfl
  | succ fuel =>
      rw [constructValue_other (by decide) (by decide), constructOther, hlegible.noParser]
      dsimp only
      rw [hcompiles.signature_other 0 fun entry hentry => (hlegible.entries entry hentry).1]
      dsimp only
      rw [hcompiles.vector_other 0 hlegible.vectors_ne]
      rfl

/-- A vector is read by what the table has for it. -/
theorem constructValue_vector (hlegible : scheme.Legible env runtime)
    (hcompiles : store.Compiles env scheme names) {vectorType : Bool × String}
    (hmem : vectorType ∈ scheme.vectorTypes) :
    constructValue runtime store (fuel + 1) 0 (vectorSignature env vectorType.2) =
      (store.vectorElementTypesByConstructor (vectorSignature env vectorType.2)).elim fail
        (constructVector (constructValue runtime store fuel 0)) := by
  obtain ⟨hgzip, hbuiltin, hparser, hentries⟩ := hlegible.vectorSignatures vectorType hmem
  rw [constructValue_other hgzip hbuiltin, constructOther, hparser]
  dsimp only
  rw [hcompiles.signature_other _ hentries]
  cases store.vectorElementTypesByConstructor (vectorSignature env vectorType.2) <;> rfl

/-- An element without a signature is not read. -/
theorem constructItem_zero (hlegible : scheme.Legible env runtime)
    (hcompiles : store.Compiles env scheme names) {read : TypeArgument}
    (hboxed : read.boxed = false) (hzero : read.unboxedConstructorSignature = 0)
    (is : List UInt8) : constructItem (constructValue runtime store fuel 0) read is = none := by
  have hsignature : itemSignature read is = some (0, is) := by
    rw [itemSignature, hboxed, if_neg Bool.false_ne_true, hzero]
    rfl
  rw [constructItem, Codec.run_bind hsignature]
  change (constructValue runtime store fuel 0 0 is).bind _ = none
  rw [constructValue_zero hlegible hcompiles]
  rfl

/-- **A vector is read back if the table has its type**, it has less than `2 ^ 31` elements, and
these are read back. -/
theorem readsBack_vector (hlegible : scheme.Legible env runtime)
    (hcompiles : store.Compiles env scheme names) {boxed : Bool}
    (hmem : (boxed, inner) ∈ scheme.vectorTypes) (helement : IsElementType inner)
    {element : TypeArgument} (hcompiled : compiledType env names inner = some element)
    {items : List NativeObject} {written : Option (List UInt8)} {P : Prop}
    (hitems : ∀ read, (items ≠ [] → SameSignature element read) → ReadsBack P written
      (Codec.times (constructItem (constructValue runtime store fuel 0) read) items.length)
      (items.map some)) :
    ReadsBack (InTable env scheme inner (items = []) ∧ items.length < 2 ^ 31 ∧ P)
      (written.map fun bytes => writeInt32 (BitVec.ofNat 32 items.length) ++ bytes)
      (constructValue runtime store (fuel + 1) 0 (vectorSignature env inner))
      (.vector (some items)) := by
  obtain ⟨created, hcreated, last, hlast, htable⟩ := hcompiles.vectors _ hmem
  dsimp only at hcreated hlast htable
  rw [constructValue_vector hlegible hcompiles hmem, htable]
  obtain ⟨lastBoxed, lastInner⟩ := last
  dsimp only
  by_cases hsame : lastInner = inner
  · subst hsame
    rw [if_pos rfl, Option.elim_some]
    by_cases hregistered : items = [] ∨ ¬ (IsObjectType lastInner ∧ isBare lastInner = true) ∨
        lastBoxed = false
    · refine (readsBack_count (hitems _ fun hitem => ?_)).of_iff ?_
      · exact sameSignature_registered helement hcreated hcompiled
          (hregistered.resolve_left hitem)
      · exact ⟨And.right, fun h => ⟨⟨lastBoxed, hlast, hregistered⟩, h⟩⟩
    · rw [not_or, not_or, not_not, Bool.not_eq_false] at hregistered
      obtain ⟨hitem, ⟨hobject, hbare⟩, rfl⟩ := hregistered
      have hmemory : names (env.uninitialized lastInner) = none :=
        hcompiles.names_other _ (hlegible.memory _ hmem)
      obtain ⟨hboxed, hzero⟩ := signature_registered_boxed hobject hbare hcreated hmemory
      refine (readsBack_count (P := False) (ReadsBack.of_never not_false ?_)).of_iff ?_
      · intro bytes _ rest read rest' hrun
        obtain ⟨item, others, rfl⟩ := List.exists_cons_of_ne_nil hitem
        obtain ⟨⟨first, middle⟩, hfirst, -⟩ := Option.bind_eq_some_iff.mp hrun
        rw [constructItem_zero hlegible hcompiles hboxed hzero] at hfirst
        cases hfirst
      · refine iff_of_false ?_ fun h => h.2
        rintro ⟨⟨other, hother, hregistered⟩, -⟩
        obtain ⟨rfl, -⟩ := Prod.mk.inj (Option.some.inj (hlast.symm.trans hother))
        exact hregistered.elim hitem fun h => h.elim (fun hno => hno ⟨hobject, hbare⟩) fun hno =>
          absurd hno (by decide)
  · rw [if_neg hsame, Option.elim_none]
    refine ReadsBack.of_never ?_ fun bytes _ rest read rest' hrun => ?_
    · rintro ⟨⟨other, hother, -⟩, -⟩
      obtain ⟨-, rfl⟩ := Prod.mk.inj (Option.some.inj (hlast.symm.trans hother))
      exact hsame rfl
    · cases hrun

/-! ### Acknowledgements -/

/-- What is written for a field of a `TLMsgsAck`. -/
def writeAck (runtime : Runtime) (type : TypeArgument) (value : Value) : Option (List UInt8) := do
  let array ← nativeArray value
  let items ← array.mapM (longLongValue runtime)
  pure (writeSignature type.boxed type.unboxedConstructorSignature ++
    (writeInt32 (BitVec.ofNat 32 array.length) ++ items.flatMap writeInt64))

/-- A vector is written as a field of a `TLMsgsAck` with the signature of its type. -/
theorem writeAck_vector (type : TypeArgument) (items : List NativeObject) :
    writeAck runtime type (.vector (some items)) =
      (((items.mapM (longLongValue runtime)).map fun values => values.flatMap writeInt64).map
        fun bytes => writeInt32 (BitVec.ofNat 32 items.length) ++ bytes).map fun bytes =>
          writeSignature type.boxed type.unboxedConstructorSignature ++ bytes := by
  rw [writeAck, nativeArray, Option.getD_some]
  change (items.mapM (longLongValue runtime)).bind _ = _
  cases items.mapM (longLongValue runtime) <;> rfl

/-- The fields of a `TLMsgsAck` are written one after the other. -/
theorem serializeMsgsAck_cons {fieldValues : List (BitVec 32 × Value)} {field : MetaField}
    {value : Value} (hvalue : fieldValue fieldValues field.name = some value)
    (fields : List MetaField) :
    serializeMsgsAck runtime fieldValues (field :: fields) = (do
      let bs ← writeAck runtime field.type value
      let cs ← serializeMsgsAck runtime fieldValues fields
      pure (bs ++ cs)) := by
  simp only [serializeMsgsAck, hvalue, writeAck, Option.bind_eq_bind, Option.bind_some,
    Option.bind_assoc, Option.pure_def, List.append_assoc]

/-- A `long` is written as an acknowledgement is. -/
theorem writeItem_long {write : Option NativeObject → Bool → Option (List UInt8)}
    (constructorName name : BitVec 32) (item : NativeObject) :
    writeItem runtime write
        ⟨false, int64Constructor, constructorName, name, .builtin .builtinInt64, none⟩ item =
      (longLongValue runtime item).map writeInt64 := by
  rw [writeItem]
  dsimp only
  rw [itemValue]
  cases longLongValue runtime item <;> rfl

/-- The elements of a vector of `long` are written as those of an acknowledgement are. -/
theorem writeItems_long {write : Option NativeObject → Bool → Option (List UInt8)}
    (constructorName name : BitVec 32) (items : List NativeObject) :
    (items.mapM (writeItem runtime write
        ⟨false, int64Constructor, constructorName, name, .builtin .builtinInt64, none⟩)).map
        List.flatten =
      (items.mapM (longLongValue runtime)).map fun values => values.flatMap writeInt64 := by
  induction items with
  | nil => rfl
  | cons item items ih =>
      rw [writeItems_cons, ih, writeItem_long, List.mapM_cons]
      cases longLongValue runtime item with
      | none => rfl
      | some value => cases items.mapM (longLongValue runtime) <;> rfl

end Vectors

/-! ### Trees -/

section Trees

variable {params : List SchemeParam}

/-- The vector types of a description are in the scheme. -/
def TLScheme.Knows (scheme : TLScheme) (desc : String) : Prop :=
  ∀ vectorType ∈ vectorParts desc, vectorType ∈ scheme.vectorTypes

/-- A value is read back as a field if its tree is fine, with enough fuel. -/
def FieldOutcome (store : Store) (names : BitVec 32 → Option (BitVec 32))
    (tree : ValueTree env runtime scheme (.value desc)) : Prop :=
  ∀ fuel w, tree.depth ≤ fuel → tree.depth ≤ w →
    ∀ type, compiledType env names desc = some type →
      ReadsBack tree.Fine
        (writeValueWithType runtime (serializeObject runtime store w) tree.meaning type)
        (constructField (constructValue runtime store fuel 0) type) tree.meaning

/-- A value is read back as an element of a vector if its tree is fine. -/
def ItemOutcome (store : Store) (names : BitVec 32 → Option (BitVec 32))
    (tree : ValueTree env runtime scheme (.value desc)) (item : NativeObject) : Prop :=
  ∀ fuel w, tree.depth ≤ fuel → tree.depth ≤ w →
    ∀ element, compiledType env names desc = some element → ∀ read, SameSignature element read →
      ReadsBack tree.Fine
        (writeItem runtime (serializeObject runtime store w) element item)
        (constructItem (constructValue runtime store fuel 0) read) (some item)

/-- A value is read back as a field of an acknowledgement if its tree is fine. -/
def AckOutcome (store : Store) (names : BitVec 32 → Option (BitVec 32))
    (tree : ValueTree env runtime scheme (.value desc)) : Prop :=
  ∀ fuel, tree.depth ≤ fuel → ∀ type, compiledType env names desc = some type →
    ReadsBack tree.Fine (writeAck runtime type tree.meaning)
      (constructField (constructValue runtime store fuel 0) type) tree.meaning

/-- The values of fields are read back if their trees are fine. -/
def FieldsOutcome (store : Store) (names : BitVec 32 → Option (BitVec 32))
    (tree : ValueTree env runtime scheme (.fields params)) : Prop :=
  ∀ fuel w, tree.depth ≤ fuel → tree.depth ≤ w → ∀ fieldValues : List (BitVec 32 × Value),
    List.Forall₂ (fun param value =>
      fieldValue fieldValues (env.murMurHash32 param.name) = some value) params tree.meaning →
    ∀ fields, List.Forall₂ (CompiledField env names) params fields →
      ReadsBack tree.Fine
        (serialize runtime (serializeObject runtime store w) fieldValues fields)
        (constructFields (constructValue runtime store fuel 0) fields) tree.meaning

/-- The values of the fields of an acknowledgement are read back if their trees are fine. -/
def AcksOutcome (store : Store) (names : BitVec 32 → Option (BitVec 32))
    (tree : ValueTree env runtime scheme (.fields params)) : Prop :=
  ∀ fuel, tree.depth ≤ fuel → ∀ fieldValues : List (BitVec 32 × Value),
    List.Forall₂ (fun param value =>
      fieldValue fieldValues (env.murMurHash32 param.name) = some value) params tree.meaning →
    ∀ fields, List.Forall₂ (CompiledField env names) params fields →
      ReadsBack tree.Fine (serializeMsgsAck runtime fieldValues fields)
        (constructFields (constructValue runtime store fuel 0) fields) tree.meaning

/-- The elements of a vector are read back if their trees are fine. -/
def ItemsOutcome (store : Store) (names : BitVec 32 → Option (BitVec 32))
    (tree : ValueTree env runtime scheme (.items desc)) (items : List NativeObject) : Prop :=
  ∀ fuel w, tree.depth ≤ fuel → tree.depth ≤ w →
    ∀ element, compiledType env names desc = some element →
      ∀ read, (items ≠ [] → SameSignature element read) →
        ReadsBack tree.Fine
          ((items.mapM (writeItem runtime (serializeObject runtime store w) element)).map
            List.flatten)
          (Codec.times (constructItem (constructValue runtime store fuel 0) read) items.length)
          (items.map some)

/-- What happens to a tree. -/
def ValueTree.Outcome (store : Store) (names : BitVec 32 → Option (BitVec 32)) :
    {shape : Shape} → ValueTree env runtime scheme shape → Prop
  | .value desc, tree => scheme.Knows desc → FieldOutcome store names tree ∧
      (IsAckType desc → AckOutcome store names tree) ∧
      (IsElementType desc → ∃ item, nativeValue tree.meaning = some item ∧
        ItemOutcome store names tree item)
  | .fields params, tree => (∀ param ∈ params, scheme.Knows param.type) →
      FieldsOutcome store names tree ∧
      ((∀ param ∈ params, IsAckType param.type) → AcksOutcome store names tree)
  | .items desc, tree => scheme.Knows desc → IsElementType desc →
      ∃ items : List NativeObject, (tree.meaning : List Value).map nativeValue = items.map some ∧
        ItemsOutcome store names tree items

/-- The signature of a builtin type is read in front of a field. -/
theorem reads_builtinSignature {builtin : TLMetaTypeArgument}
    (hbuiltin : TL.createTypeArgumentFromString desc = some builtin) {signature : BitVec 32}
    (h : bareSignature builtin.category = some signature ∨ builtin.category = .builtinBool) :
    builtin.boxed = false → builtin.unboxedConstructorSignature = signature := by
  intro hbare
  rcases boxedOrBare_of_create hbuiltin with hboxed | ⟨-, hsignature⟩
  · rw [hboxed] at hbare
    cases hbare
  · rcases h with h | h
    · exact Option.some.inj (hsignature.symm.trans h)
    · rw [h] at hsignature
      cases hsignature

/-- A depth of one leaves some fuel. -/
theorem exists_fuel {depth : ℕ} (h : depth + 1 ≤ fuel) : ∃ n, fuel = n + 1 ∧ depth ≤ n :=
  ⟨fuel - 1, by omega, by omega⟩

/-- A builtin value as a field. -/
theorem fieldOutcome_plain (hlegible : scheme.Legible env runtime)
    (hcompiles : store.Compiles env scheme names) {category : TLMetaTypeCategory}
    (hdesc : plainCategory desc = some category) {value : Value}
    (hvalue : PlainValue category value) :
    FieldOutcome store names
      (.plain category hdesc value hvalue : ValueTree env runtime scheme (.value desc)) := by
  intro fuel w hfuel _ type htype
  obtain ⟨fuel, rfl, -⟩ := exists_fuel hfuel
  cases hbuiltin : TL.createTypeArgumentFromString desc with
  | none =>
      refine not_readsBack_plain hlegible hcompiles hdesc hbuiltin hvalue htype ?_ _
      rw [ValueTree.Fine]
      exact fun h => h.1 hbuiltin
  | some builtin =>
      obtain rfl := category_of_create hbuiltin hdesc
      rw [compiledType_builtin hbuiltin] at htype
      obtain rfl := Option.some.inj htype
      refine (readsBack_builtin _ hvalue fun signature hmem hbare => ?_).of_iff ?_
      · refine reads_fieldSignature (reads_builtinSignature hbuiltin hbare) fun hvector => ?_
        rw [hvector] at hmem
        exact absurd hmem (by decide)
      · rw [ValueTree.Fine, hbuiltin]
        exact ⟨And.right, fun h => ⟨Option.some_ne_none _, h⟩⟩

/-- A builtin value as an element. -/
theorem itemOutcome_plain (helement : IsElementType desc) {category : TLMetaTypeCategory}
    (hdesc : plainCategory desc = some category) {value : Value}
    (hvalue : PlainValue category value) :
    ∃ item, nativeValue value = some item ∧ ItemOutcome store names
      (.plain category hdesc value hvalue : ValueTree env runtime scheme (.value desc)) item := by
  obtain ⟨builtin, hbuiltin, hcategory⟩ := helement.resolve_left fun hobject => by
    rw [hobject.1] at hdesc
    cases hdesc
  obtain rfl := category_of_create hbuiltin hdesc
  obtain ⟨item, hnative, hitem, hback⟩ := @itemValue_plain runtime _ value hcategory hvalue
  refine ⟨item, hnative, fun fuel w hfuel _ element htype read hread => ?_⟩
  obtain ⟨fuel, rfl, -⟩ := exists_fuel hfuel
  rw [compiledType_builtin hbuiltin] at htype
  obtain rfl := Option.some.inj htype
  obtain ⟨signature, hmem, payload, hwrite, hbare, hpayload⟩ :=
    plain_payload runtime.doubles hvalue
  have hvalues : ReadsBack (IsShort value) payload (do
      let value ← constructValue runtime store (fuel + 1) 0 signature
      pure (nativeValue value) : Parser (Option NativeObject)) (nativeValue value) := by
    rw [constructValue_builtin hmem]
    refine hpayload.map fun bytes _ rest other rest' hrun heq => ?_
    exact hback other (yields_builtin signature _ other rest' hrun) (heq.trans hnative)
  have hsignature : Reads (itemSignature read) (writeSignature read.boxed signature) signature :=
    reads_itemSignature fun hbare' => by
      rw [hread.2 (hread.1.symm.trans hbare')]
      exact reads_builtinSignature hbuiltin hbare (hread.1.symm.trans hbare')
  have hwritten : writeItem runtime (serializeObject runtime store w)
      ⟨builtin.boxed, builtin.unboxedConstructorSignature, 0,
        env.murMurHash32 (builtinName builtin.category), .builtin builtin.category, none⟩ item =
      payload.map fun bytes => writeSignature read.boxed signature ++ bytes := by
    rw [writeItem, hitem, hread.1]
    exact hwrite
  rw [hwritten, ← hnative]
  refine (hvalues.after hsignature).of_iff ?_
  rw [ValueTree.Fine, hbuiltin]
  exact ⟨And.right, fun h => ⟨Option.some_ne_none _, h⟩⟩

/-- A constructor has as many values as fields. -/
theorem length_meaning : {params : List SchemeParam} →
    (tree : ValueTree env runtime scheme (.fields params)) →
    List.length (tree.meaning : List Value) = params.length
  | _, .noFields => rfl
  | _, .field _ rest => congrArg (· + 1) (length_meaning rest)

/-- Of values with different names each is found by its own. -/
theorem fieldValue_of_mem {fieldValues : List (BitVec 32 × Value)}
    (hnodup : (fieldValues.map Prod.fst).Nodup) {name : BitVec 32} {value : Value}
    (h : (name, value) ∈ fieldValues) : fieldValue fieldValues name = some value := by
  obtain ⟨before, after, rfl⟩ := List.append_of_mem h
  refine List.lookup_eq_some_iff.mpr ⟨before, after, rfl, fun other hother => ?_⟩
  rw [List.map_append, List.map_cons] at hnodup
  have hne := (List.nodup_append.mp hnodup).2.2 other.1 (List.mem_map_of_mem hother) name
    List.mem_cons_self
  exact bne_iff_ne.mpr hne.symm

/-- The value of each field is found by its name. -/
theorem forall₂_fieldValue {values : List Value}
    (hnodup : (params.map fun param => env.murMurHash32 param.name).Nodup)
    (hlength : values.length = params.length) :
    List.Forall₂ (fun param value => fieldValue
      ((params.map fun param => env.murMurHash32 param.name).zip values)
        (env.murMurHash32 param.name) = some value) params values := by
  refine List.forall₂_iff_zip.mpr ⟨hlength.symm, fun {param value} hmem => ?_⟩
  refine fieldValue_of_mem ?_ ?_
  · rwa [List.map_fst_zip (by rw [List.length_map, hlength])]
  · rw [List.zip_map_left]
    exact List.mem_map_of_mem (f := Prod.map (fun p => env.murMurHash32 p.name) id) hmem

section Object

variable {entry : SchemeEntry} {hdesc : IsObjectType desc}
  {hentry : Generated env runtime scheme entry} {htype : HasType desc entry}
  {fields : ValueTree env runtime scheme (.fields entry.params)}

/-- What the fields of a constructor come to, as those of an acknowledgement if it is one. -/
def ObjectOutcome (store : Store) (names : BitVec 32 → Option (BitVec 32)) (entry : SchemeEntry)
    (fields : ValueTree env runtime scheme (.fields entry.params)) : Prop :=
  FieldsOutcome store names fields ∧ (entry.name = "msgs_ack" → AcksOutcome store names fields)

/-- **An object is read back if its fields are fine**, by whatever reads its signature. -/
theorem readsBack_fields (hlegible : scheme.Legible env runtime)
    (hcompiles : store.Compiles env scheme names) (hentry : Generated env runtime scheme entry)
    (hfields : ObjectOutcome store names entry fields) {w : ℕ} (hfuel : fields.depth ≤ fuel)
    (hw : fields.depth ≤ w) {boxed : Bool} {signatureOf : Parser (BitVec 32)}
    (hsignature : Reads signatureOf (writeSignature boxed entry.n_id) entry.n_id) :
    ReadsBack fields.Fine
      (serializeObject runtime store (w + 1) (some (objectOf env entry fields.meaning)) boxed)
      (do
        let signature ← signatureOf
        constructValue runtime store (fuel + 1) 0 signature)
      (.object (some (objectOf env entry fields.meaning))) := by
  have hlength := length_meaning fields
  have hvalues := forall₂_fieldValue (hlegible.fieldNames entry hentry.mem) hlength
  refine readsBack_object hlegible hcompiles hentry hlength (fun compiled hcompiled => ?_)
    hsignature
  rw [serializeFields]
  split
  · next hacks => exact hfields.2 hacks fuel hfuel _ hvalues compiled hcompiled
  · exact hfields.1 fuel w hfuel hw _ hvalues compiled hcompiled

/-- The signature of a constructor is the one that its bare type has. -/
theorem names_of_hasType (hcompiles : store.Compiles env scheme names)
    (hentry : Generated env runtime scheme entry) (htype : HasType desc entry)
    (hbare : isBare desc = true) : (names (env.murMurHash32 desc)).getD 0 = entry.n_id := by
  rw [HasType, if_pos hbare] at htype
  rw [← htype, hcompiles.names_entry entry (List.mem_append_left _ hentry.mem)]
  rfl

/-- An object as a field. -/
theorem fieldOutcome_object (hlegible : scheme.Legible env runtime)
    (hcompiles : store.Compiles env scheme names)
    (hfields : ObjectOutcome store names entry fields) :
    FieldOutcome store names (.object hdesc entry hentry htype fields) := by
  intro fuel w hfuel hw type hcompiled
  obtain ⟨fuel, rfl, hfuel'⟩ := exists_fuel hfuel
  obtain ⟨w, rfl, hw'⟩ := exists_fuel hw
  obtain ⟨constructorName, name, rfl⟩ :=
    compiledType_object (create_of_isObjectType hdesc) hdesc.2 hcompiled
  refine readsBack_fields hlegible hcompiles hentry hfields hfuel' hw' ?_
  cases hbare : isBare desc with
  | true =>
      have hsignature := names_of_hasType hcompiles hentry htype hbare
      exact reads_fieldSignature (fun _ => hsignature) fun _ _ => hsignature
  | false => exact reads_fieldSignature (fun hboxed => nomatch hboxed) fun _ hne => absurd rfl hne

/-- An object as an element. -/
theorem itemOutcome_object (hlegible : scheme.Legible env runtime)
    (hcompiles : store.Compiles env scheme names)
    (hfields : ObjectOutcome store names entry fields) :
    ItemOutcome store names (.object hdesc entry hentry htype fields)
      (objectOf env entry fields.meaning) := by
  intro fuel w hfuel hw element hcompiled read hread
  obtain ⟨fuel, rfl, hfuel'⟩ := exists_fuel hfuel
  obtain ⟨w, rfl, hw'⟩ := exists_fuel hw
  obtain ⟨constructorName, name, rfl⟩ :=
    compiledType_object (create_of_isObjectType hdesc) hdesc.2 hcompiled
  have hsignature : Reads (itemSignature read) (writeSignature (!isBare desc) entry.n_id)
      entry.n_id := by
    have hboxed : read.boxed = !isBare desc := hread.1
    rw [← hboxed]
    refine reads_itemSignature fun hbare' => ?_
    have hbare : isBare desc = true := by
      rw [hboxed] at hbare'
      simpa using hbare'
    rw [hread.2 (hread.1.symm.trans hbare')]
    dsimp only
    rw [if_pos hbare]
    exact names_of_hasType hcompiles hentry htype hbare
  have hitem : constructItem (constructValue runtime store (fuel + 1) 0) read = (do
      let value ← (do
        let signature ← itemSignature read
        constructValue runtime store (fuel + 1) 0 signature)
      pure (nativeValue value)) := by
    rw [bind_assoc]
    rfl
  rw [hitem]
  refine (readsBack_fields hlegible hcompiles hentry hfields hfuel' hw' hsignature).map ?_
  intro bytes _ rest other rest' _ heq
  exact eq_object_of_nativeValue heq

end Object

/-- No fields. -/
theorem fieldsOutcome_noFields :
    FieldsOutcome store names (.noFields : ValueTree env runtime scheme (.fields [])) := by
  intro fuel w _ _ fieldValues _ fields hfields
  obtain rfl := List.forall₂_nil_left_iff.mp hfields
  exact ReadsBack.of_reads rfl (Reads.pure [])

/-- **Fields are read back one by one.** -/
theorem fieldsOutcome_field {param : SchemeParam}
    {first : ValueTree env runtime scheme (.value param.type)}
    {rest : ValueTree env runtime scheme (.fields params)}
    (hfirst : FieldOutcome store names first) (hrest : FieldsOutcome store names rest) :
    FieldsOutcome store names (.field first rest) := by
  intro fuel w hfuel hw fieldValues hvalues fields hfields
  obtain ⟨hvalue, hvalues⟩ := List.forall₂_cons.mp hvalues
  obtain ⟨field, others, hfield, hothers, rfl⟩ := List.forall₂_cons_left_iff.mp hfields
  have hfirst := hfirst fuel w ((le_max_left _ _).trans hfuel) ((le_max_left _ _).trans hw)
    field.type hfield.2
  have hrest := hrest fuel w ((le_max_right _ _).trans hfuel) ((le_max_right _ _).trans hw)
    fieldValues hvalues others hothers
  have hwritten : fieldValue fieldValues field.name = some first.meaning := hfield.1 ▸ hvalue
  rw [serialize, hwritten, Option.getD_some]
  exact hfirst.seq hrest fun _ _ heq => List.cons.inj heq

/-- No fields of an acknowledgement. -/
theorem acksOutcome_noFields :
    AcksOutcome store names (.noFields : ValueTree env runtime scheme (.fields [])) := by
  intro fuel _ fieldValues _ fields hfields
  obtain rfl := List.forall₂_nil_left_iff.mp hfields
  exact ReadsBack.of_reads rfl (Reads.pure [])

/-- The fields of an acknowledgement are read back one by one. -/
theorem acksOutcome_field {param : SchemeParam}
    {first : ValueTree env runtime scheme (.value param.type)}
    {rest : ValueTree env runtime scheme (.fields params)}
    (hfirst : AckOutcome store names first) (hrest : AcksOutcome store names rest) :
    AcksOutcome store names (.field first rest) := by
  intro fuel hfuel fieldValues hvalues fields hfields
  obtain ⟨hvalue, hvalues⟩ := List.forall₂_cons.mp hvalues
  obtain ⟨field, others, hfield, hothers, rfl⟩ := List.forall₂_cons_left_iff.mp hfields
  have hfirst := hfirst fuel ((le_max_left _ _).trans hfuel) field.type hfield.2
  have hrest := hrest fuel ((le_max_right _ _).trans hfuel) fieldValues hvalues others hothers
  rw [serializeMsgsAck_cons (hfield.1 ▸ hvalue)]
  exact hfirst.seq hrest fun _ _ heq => List.cons.inj heq

/-- No elements. -/
theorem itemsOutcome_noItems :
    ItemsOutcome store names (.noItems : ValueTree env runtime scheme (.items desc)) [] := by
  intro fuel w _ _ element _ read _
  exact ReadsBack.of_reads rfl (Reads.pure [])

/-- **Elements are read back one by one.** -/
theorem itemsOutcome_item {first : ValueTree env runtime scheme (.value desc)}
    {rest : ValueTree env runtime scheme (.items desc)} {item : NativeObject}
    {items : List NativeObject} (hfirst : ItemOutcome store names first item)
    (hrest : ItemsOutcome store names rest items) :
    ItemsOutcome store names (.item first rest) (item :: items) := by
  intro fuel w hfuel hw element hcompiled read hread
  have hsame := hread (List.cons_ne_nil _ _)
  have hfirst := hfirst fuel w ((le_max_left _ _).trans hfuel) ((le_max_left _ _).trans hw)
    element hcompiled read hsame
  have hrest := hrest fuel w ((le_max_right _ _).trans hfuel) ((le_max_right _ _).trans hw)
    element hcompiled read fun _ => hsame
  rw [writeItems_cons]
  exact hfirst.seq hrest fun _ _ heq => List.cons.inj heq

section Vector

variable {boxed : Bool} {hvectorName : vectorPrefix desc = some boxed}
  {hinner : typeArgumentDesc desc = some inner} {helement : IsElementType inner}
  {tree : ValueTree env runtime scheme (.items inner)} {items : List NativeObject}

variable (hvectorName hinner helement) in
/-- **A vector is read back behind its signature if it is fine.** -/
theorem readsBack_tree (hlegible : scheme.Legible env runtime)
    (hcompiles : store.Compiles env scheme names) (hknows : scheme.Knows desc)
    (hnative : List.map nativeValue (tree.meaning : List Value) = items.map some)
    (hitems : ItemsOutcome store names tree items) {w : ℕ} (hfuel : tree.depth ≤ fuel)
    (hw : tree.depth ≤ w) {type : TypeArgument} (htype : compiledType env names desc = some type) :
    vectorSignature env inner ≠ 0 ∧ ∃ element constructorName name,
      compiledType env names inner = some element ∧
      type = ⟨boxed, vectorSignature env inner, constructorName, name, .vector, some element⟩ ∧
      ReadsBack (ValueTree.vector boxed hvectorName inner hinner helement tree).Fine
        (((items.mapM (writeItem runtime (serializeObject runtime store w) element)).map
          List.flatten).map fun bytes => writeInt32 (BitVec.ofNat 32 items.length) ++ bytes)
        (constructValue runtime store (fuel + 1) 0 (vectorSignature env inner))
        (.vector (some items)) := by
  have hmem : (boxed, inner) ∈ scheme.vectorTypes := by
    refine hknows _ ?_
    rw [vectorParts_of_vector (create_of_vectorPrefix hvectorName) hvectorName hinner]
    exact List.mem_append_right _ (List.mem_singleton.mpr rfl)
  have hne := hlegible.vectors_ne _ hmem
  obtain ⟨element, hcompiled, constructorName, name, rfl⟩ :=
    compiledType_vector hvectorName hinner hne htype
  have hlength : List.length (tree.meaning : List Value) = items.length := by
    have h := congrArg List.length hnative
    rwa [List.length_map, List.length_map] at h
  have hnil : (tree.meaning : List Value) = [] ↔ items = [] := by
    rw [← List.length_eq_zero_iff, hlength, List.length_eq_zero_iff]
  refine ⟨hne, element, constructorName, name, hcompiled, rfl, ?_⟩
  rw [ValueTree.Fine, hlength, hnil]
  exact readsBack_vector hlegible hcompiles hmem helement hcompiled
    (hitems fuel w hfuel hw element hcompiled)

/-- What the tree of a vector stands for. -/
theorem meaning_vector
    (hnative : List.map nativeValue (tree.meaning : List Value) = items.map some) :
    (ValueTree.vector boxed hvectorName inner hinner helement tree).meaning =
      TLConstructedValue.vector (some items) := by
  rw [ValueTree.meaning, ← reduceOption_map_some items, ← hnative, List.reduceOption,
    List.filterMap_map]
  rfl

/-- A vector as a field. -/
theorem fieldOutcome_vector (hlegible : scheme.Legible env runtime)
    (hcompiles : store.Compiles env scheme names) (hknows : scheme.Knows desc)
    (hnative : List.map nativeValue (tree.meaning : List Value) = items.map some)
    (hitems : ItemsOutcome store names tree items) :
    FieldOutcome store names (.vector boxed hvectorName inner hinner helement tree) := by
  intro fuel w hfuel hw type htype
  obtain ⟨fuel, rfl, hfuel'⟩ := exists_fuel hfuel
  obtain ⟨hne, element, constructorName, name, -, rfl, hback⟩ :=
    readsBack_tree hvectorName hinner helement hlegible hcompiles hknows hnative hitems hfuel'
      ((Nat.le_succ _).trans hw) htype
  rw [meaning_vector hnative, writeValueWithType_vector hne]
  exact hback.after (reads_fieldSignature_vector hne)

/-- A vector as a field of an acknowledgement. -/
theorem ackOutcome_vector (hlegible : scheme.Legible env runtime)
    (hcompiles : store.Compiles env scheme names) (hknows : scheme.Knows desc)
    (hnative : List.map nativeValue (tree.meaning : List Value) = items.map some)
    (hitems : ItemsOutcome store names tree items) (hlong : inner = "long") :
    AckOutcome store names (.vector boxed hvectorName inner hinner helement tree) := by
  subst hlong
  intro fuel hfuel type htype
  obtain ⟨fuel, rfl, hfuel'⟩ := exists_fuel hfuel
  obtain ⟨hne, element, constructorName, name, hcompiled, rfl, hback⟩ :=
    readsBack_tree hvectorName hinner helement hlegible hcompiles hknows hnative hitems hfuel'
      le_rfl htype
  have hbuiltin : TL.createTypeArgumentFromString "long" =
      some ⟨false, int64Constructor, .builtinInt64⟩ := by decide
  rw [compiledType_builtin hbuiltin] at hcompiled
  obtain rfl := Option.some.inj hcompiled
  rw [writeItems_long] at hback
  rw [meaning_vector hnative, writeAck_vector]
  exact hback.after (reads_fieldSignature (fun _ => rfl) fun _ _ => rfl)

end Vector

/-- The names of the vectors of an acknowledgement. -/
theorem vectorPrefix_of_isAckType (h : IsAckType desc) :
    vectorPrefix desc ≠ none ∧ typeArgumentDesc desc = some "long" ∧ plainCategory desc = none := by
  rcases h with rfl | rfl <;> decide

/-- A vector is not an element of a vector. -/
theorem not_isElementType_vector {boxed : Bool} (hvectorName : vectorPrefix desc = some boxed) :
    ¬ IsElementType desc := by
  rintro (hobject | ⟨builtin, hbuiltin, -⟩)
  · rw [hobject.2] at hvectorName
    cases hvectorName
  · rw [create_of_vectorPrefix hvectorName] at hbuiltin
    cases hbuiltin

/-- **Every tree is read back if it is fine, and is not otherwise.** -/
theorem outcome (hlegible : scheme.Legible env runtime)
    (hcompiles : store.Compiles env scheme names) {shape : Shape}
    (tree : ValueTree env runtime scheme shape) : tree.Outcome store names := by
  induction tree with
  | plain category hdesc value hvalue =>
      refine fun _ => ⟨fieldOutcome_plain hlegible hcompiles hdesc hvalue, fun hacks => ?_,
        fun helement => itemOutcome_plain helement hdesc hvalue⟩
      rw [(vectorPrefix_of_isAckType hacks).2.2] at hdesc
      cases hdesc
  | object hdesc entry hentry htype fields ih =>
      obtain ⟨hfields, hacks⟩ := ih fun param hparam vectorType hmem =>
        mem_vectorTypes hentry.mem hparam hmem
      have hobject : ObjectOutcome store names entry fields :=
        ⟨hfields, fun hname => hacks (hentry.acks hname)⟩
      exact fun _ => ⟨fieldOutcome_object hlegible hcompiles hobject,
        fun hack => absurd hdesc.2 (vectorPrefix_of_isAckType hack).1,
        fun _ => ⟨_, rfl, itemOutcome_object hlegible hcompiles hobject⟩⟩
  | vector boxed hvectorName inner hinner helement items ih =>
      intro hknows
      have hparts := vectorParts_of_vector (create_of_vectorPrefix hvectorName) hvectorName hinner
      obtain ⟨objects, hnative, hitems⟩ := ih (fun vectorType hmem =>
        hknows vectorType (hparts ▸ List.mem_append_left _ hmem)) helement
      refine ⟨fieldOutcome_vector hlegible hcompiles hknows hnative hitems, fun hack => ?_,
        fun hvector => absurd hvector (not_isElementType_vector hvectorName)⟩
      have hlong := (vectorPrefix_of_isAckType hack).2.1
      exact ackOutcome_vector hlegible hcompiles hknows hnative hitems
        (Option.some.inj (hinner.symm.trans hlong))
  | noFields => exact fun _ => ⟨fieldsOutcome_noFields, fun _ => acksOutcome_noFields⟩
  | field first rest ihfirst ihrest =>
      intro hknows
      obtain ⟨hfirst, hack, -⟩ := ihfirst (hknows _ List.mem_cons_self)
      obtain ⟨hrest, hacks⟩ :=
        ihrest fun param hparam => hknows param (List.mem_cons_of_mem _ hparam)
      exact ⟨fieldsOutcome_field hfirst hrest, fun hall =>
        acksOutcome_field (hack (hall _ List.mem_cons_self))
          (hacks fun param hparam => hall param (List.mem_cons_of_mem _ hparam))⟩
  | noItems => exact fun _ _ => ⟨[], rfl, itemsOutcome_noItems⟩
  | item first rest ihfirst ihrest =>
      intro hknows helement
      obtain ⟨item, hitem, hfirst⟩ := (ihfirst hknows).2.2 helement
      obtain ⟨items, hitems, hrest⟩ := ihrest hknows helement
      refine ⟨item :: items, ?_, itemsOutcome_item hfirst hrest⟩
      rw [ValueTree.meaning, List.map_cons, List.map_cons, hitem, hitems]

end Trees

/-! ### Objects of a scheme -/

/-- The signature of an object, which is read if the object is boxed. -/
def objectSignature (entry : SchemeEntry) (boxed : Bool) : Parser (BitVec 32) :=
  if boxed then readInt32 else pure entry.n_id

/-- What reads an object. -/
def readObject (runtime : Runtime) (store : Store) (fuel : ℕ) (entry : SchemeEntry)
    (boxed : Bool) : Parser Value := do
  let signature ← objectSignature entry boxed
  constructValue runtime store fuel 0 signature

/-- The object of a constructor with these fields is read back from what is written for it, boxed
and bare, whatever follows, with fuel for its depth. -/
def RoundTrips (store : Store) {entry : SchemeEntry}
    (fields : ValueTree env runtime scheme (.fields entry.params)) : Prop :=
  ∀ fuel, fields.depth < fuel → ∀ boxed, ∃ bytes,
    serializeObject runtime store fuel (some (objectOf env entry fields.meaning)) boxed =
        some bytes ∧
      Reads (readObject runtime store fuel entry boxed) bytes
        (.object (some (objectOf env entry fields.meaning)))

/-- **An object of a merged scheme is read back from what is written for it if and only if its
tree is fine.** -/
theorem scheme_roundTrips_iff (hlegible : scheme.Legible env runtime)
    (hmerge : mergeScheme env scheme = some store) {entry : SchemeEntry}
    (hentry : Generated env runtime scheme entry)
    (fields : ValueTree env runtime scheme (.fields entry.params)) :
    RoundTrips store fields ↔ fields.Fine := by
  obtain ⟨names, hcompiles⟩ := mergeScheme_spec hlegible.toApart hmerge
  obtain ⟨hfields, hacks⟩ := outcome hlegible hcompiles fields fun param hparam vectorType hmem =>
    mem_vectorTypes hentry.mem hparam hmem
  have hobject : ObjectOutcome store names entry fields :=
    ⟨hfields, fun hname => hacks (hentry.acks hname)⟩
  have hsignature : ∀ boxed, Reads (objectSignature entry boxed)
      (writeSignature boxed entry.n_id) entry.n_id := by
    rintro (_ | _)
    · exact Reads.pure _
    · exact readInt32_write _
  have hback : ∀ fuel, fields.depth ≤ fuel → ∀ boxed, ReadsBack fields.Fine
      (serializeObject runtime store (fuel + 1) (some (objectOf env entry fields.meaning)) boxed)
      (readObject runtime store (fuel + 1) entry boxed)
      (.object (some (objectOf env entry fields.meaning))) := fun fuel hfuel boxed =>
    readsBack_fields hlegible hcompiles hentry hobject hfuel hfuel (hsignature boxed)
  constructor
  · intro hround
    by_contra hfine
    obtain ⟨bytes, hwritten, hreads⟩ := hround (fields.depth + 1) (Nat.lt_succ_self _) true
    exact (hback fields.depth le_rfl true).never hfine bytes hwritten [] _ _ (hreads []) rfl
  · intro hfine fuel hfuel boxed
    obtain ⟨fuel, rfl⟩ := Nat.exists_eq_succ_of_ne_zero (Nat.ne_zero_of_lt hfuel)
    exact (hback fuel (Nat.lt_succ_iff.mp hfuel) boxed).reads hfine

/-! ### A scheme with bare and boxed vectors -/

/-- `murMurHash32`, which MtProtoKit has as `MTMurMurHash32`. -/
def murMurHash32 (string : String) : BitVec 32 :=
  (MtProto.MTMurMurHash32 (cString string) (BitVec.ofNat 32 (cString string).length)).getD 0

/-- What a byte does to the checksum, bit by bit. -/
def crcByte (crc : BitVec 32) (byte : UInt8) : BitVec 32 :=
  (List.range 8).foldl
    (fun crc _ => if crc.getLsbD 0 then (crc >>> 1) ^^^ 0xedb88320#32 else crc >>> 1)
    (crc ^^^ byte.toBitVec.setWidth 32)

/-- `crc32` of the system's library. -/
def crc32 (bytes : List UInt8) : BitVec 32 := ~~~(bytes.foldl crcByte 0xffffffff#32)

/-- The functions as they are, and memory that holds zeros. -/
def hashes : Environment where
  murMurHash32 := murMurHash32
  crc32 := crc32
  uninitialized _ := 0

/-- `foo#1 x:int = Foo`. -/
def fooEntry : SchemeEntry := ⟨1, "foo", [⟨"x", "int"⟩], "Foo"⟩

/-- `bar#2 foos:vector<foo> more:Vector<Foo> = Bar`. -/
def barEntry : SchemeEntry := ⟨2, "bar", [⟨"foos", "vector<foo>"⟩, ⟨"more", "Vector<Foo>"⟩], "Bar"⟩

/-- `baz#3 foo:foo more:Vector<Foo> name:string = Baz`. -/
def bazEntry : SchemeEntry :=
  ⟨3, "baz", [⟨"foo", "foo"⟩, ⟨"more", "Vector<Foo>"⟩, ⟨"name", "string"⟩], "Baz"⟩

/-- A scheme of these three. -/
def fooScheme : TLScheme := ⟨[fooEntry, barEntry, bazEntry], []⟩

/-- The classes of the constructors of the scheme, and no parser that is written by hand. -/
def fooRuntime : Runtime where
  doubles := noDoubles
  stringIntValue _ := 0
  stringLongLongValue _ := 0
  objectClasses name := (fooScheme.constructors.find? fun entry =>
    hashes.murMurHash32 entry.name = name).map (classOf hashes)
  manualObjectParsers _ := none
  decompressGZip _ := none

/-- The store of the scheme, or one without any tables. -/
def fooStore : Store :=
  (mergeScheme hashes fooScheme).getD ⟨fun _ => none, fun _ => none, fun _ => none⟩

/-- A `foo`. -/
def fooObject (x : BitVec 32) : NativeObject := objectOf hashes fooEntry [.int32 x]

/-- A `bar` with a `foo`, and no boxed ones. -/
def barObject : NativeObject :=
  objectOf hashes barEntry [.vector (some [fooObject 7]), .vector (some [])]

/-- What the hashes make of the scheme and of the object. -/
theorem checks_fooScheme : fooScheme.Apart hashes ∧
    (∀ entry ∈ fooScheme.entries, entry.n_id ≠ 0 ∧ entry.n_id ≠ gzipPacked ∧
      entry.n_id ∉ builtinConstructors) ∧
    (∀ type ∈ fooScheme.vectorTypes, vectorSignature hashes type.2 ≠ gzipPacked ∧
      vectorSignature hashes type.2 ∉ builtinConstructors ∧
      (∀ entry ∈ fooScheme.entries, entry.n_id ≠ vectorSignature hashes type.2) ∧
      ∀ entry ∈ fooScheme.entries,
        hashes.murMurHash32 entry.name ≠ hashes.uninitialized type.2) ∧
    (∀ entry ∈ [fooEntry, barEntry, bazEntry], entry ∈ fooScheme.constructors ∧
      fooRuntime.objectClasses (hashes.murMurHash32 entry.name) = some (classOf hashes entry) ∧
      hashes.murMurHash32 entry.name ≠ -1 ∧ entry.name ≠ "msgs_ack") ∧
    (mergeScheme hashes fooScheme).isSome = true ∧
    fooScheme.lastVector hashes (typeName hashes "Foo") = some (true, "Foo") ∧
    ((serializeObject fooRuntime fooStore 4 (some barObject) true).bind
      (readObject fooRuntime fooStore 4 barEntry true)).isNone = true := by
  decide +kernel

/-- The scheme can be told apart. -/
theorem legible_fooScheme : fooScheme.Legible hashes fooRuntime := by
  obtain ⟨hapart, hentries, hvectors, -⟩ := checks_fooScheme
  exact ⟨hapart, hentries, fun type htype => ⟨(hvectors type htype).1, (hvectors type htype).2.1,
    rfl, (hvectors type htype).2.2.1⟩, rfl, fun type htype => (hvectors type htype).2.2.2⟩

/-- Its constructors have classes. -/
theorem generated_fooScheme {entry : SchemeEntry} (h : entry ∈ [fooEntry, barEntry, bazEntry]) :
    Generated hashes fooRuntime fooScheme entry := by
  obtain ⟨-, -, -, hclasses, -⟩ := checks_fooScheme
  obtain ⟨hmem, hregistered, hnamed, hacks⟩ := hclasses entry h
  exact ⟨hmem, hregistered, rfl, hnamed, fun hname => absurd hname hacks⟩

/-- The scheme is merged. -/
theorem merge_fooScheme : mergeScheme hashes fooScheme = some fooStore := by
  obtain ⟨store, hstore⟩ := Option.isSome_iff_exists.mp checks_fooScheme.2.2.2.2.1
  rw [fooStore, hstore, Option.getD_some]

/-- A `foo`, boxed or bare. -/
def fooTree {desc : String} (hdesc : IsObjectType desc) (htype : HasType desc fooEntry)
    (x : BitVec 32) : ValueTree hashes fooRuntime fooScheme (.value desc) :=
  .object hdesc fooEntry (generated_fooScheme (.head _)) htype
    (.field (.plain .builtinInt32 (by decide) (.int32 x) trivial) .noFields)

/-- A vector of bare ones, and an empty vector of boxed ones. -/
def barFields : ValueTree hashes fooRuntime fooScheme (.fields barEntry.params) :=
  .field
    (.vector false (by decide) "foo" (by decide) (.inl (by decide))
      (.item (fooTree (by decide) (by decide) 7) .noItems))
    (.field (.vector true (by decide) "Foo" (by decide) (.inl (by decide)) .noItems) .noFields)

/-- A bare one, a vector of a boxed one, and a string. -/
def bazFields : ValueTree hashes fooRuntime fooScheme (.fields bazEntry.params) :=
  .field (fooTree (by decide) (by decide) 7)
    (.field
      (.vector true (by decide) "Foo" (by decide) (.inl (by decide))
        (.item (fooTree (by decide) (by decide) 8) .noItems))
      (.field (.plain .builtinString (by decide) (.string (some "ab")) (by
        show (utf8 "ab").length < 2 ^ 24
        decide)) .noFields))

/-- **A vector of bare objects is not read back if the scheme has a vector of boxed ones behind
it**: both go by the name of the type, and the table has the last one only. -/
theorem not_scheme_roundTrips :
    fooScheme.Legible hashes fooRuntime ∧ Generated hashes fooRuntime fooScheme barEntry ∧
      mergeScheme hashes fooScheme = some fooStore ∧ ¬ RoundTrips fooStore barFields := by
  refine ⟨legible_fooScheme, generated_fooScheme (.tail _ (.head _)), merge_fooScheme, ?_⟩
  intro hround
  obtain ⟨bytes, hwritten, hreads⟩ := hround 4 (by decide) true
  have hobject : objectOf hashes barEntry barFields.meaning = barObject := rfl
  have hnone := checks_fooScheme.2.2.2.2.2.2
  have hread := hreads []
  rw [hobject] at hwritten
  rw [List.append_nil] at hread
  rw [hwritten, Option.bind_some, hread] at hnone
  cases hnone

/-- A bare object, a vector of boxed ones and a string are read back. -/
theorem scheme_roundTrips_baz : RoundTrips fooStore bazFields := by
  refine (scheme_roundTrips_iff legible_fooScheme merge_fooScheme
    (generated_fooScheme (.tail _ (.tail _ (.head _)))) bazFields).mpr ?_
  have hint : TL.createTypeArgumentFromString "int" ≠ none := by decide
  have hstring : TL.createTypeArgumentFromString "string" ≠ none := by decide
  have hshort : (utf8 "ab").length < 2 ^ 23 := by decide
  have hlast := checks_fooScheme.2.2.2.2.2.1
  have hboxed : ¬ (IsObjectType "Foo" ∧ isBare "Foo" = true) := by decide
  exact ⟨⟨⟨hint, trivial⟩, trivial⟩, ⟨⟨true, hlast, .inr (.inl hboxed)⟩, by decide,
    ⟨⟨hint, trivial⟩, trivial⟩, trivial⟩, ⟨hstring, hshort⟩, trivial⟩

end Telegraph.TL.TLMetaClassStore
