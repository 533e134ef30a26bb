import Telegraph.Lib.OrderedMap
import Telegraph.TL.MetaConstructor

/-!
# The Scheme Compiler

`TLMetaClassStore::mergeScheme` makes the tables that objects are read and written with out of a
scheme, whose types are given as strings. A vector type has a signature made of the description of
its elements; the table of these is keyed by the name of the element type, which does not tell a
boxed type from a bare one, and is filled before the names of bare types are looked up. A boxed
vector leaves the name of its bare elements out.

The hash of names and the checksum are parameters, and so is what the memory held where a name is
left out. The store is taken as it is before the one scheme is merged, empty.

## Main results

* `registers_vectorParts`: **every vector type of a description is put into the table.**
* `MergeState.Holds.addEntries`: the fields of all constructors are compiled, each type once.
-/

open Bytes

namespace Telegraph.TL.TLMetaClassStore

open Telegraph.Coder (utf8)

/-! ### Types -/

/-- The functions the compiler takes from elsewhere, and what the memory held of a name that is not
copied. -/
structure Environment where
  murMurHash32 : String → BitVec 32
  crc32 : List UInt8 → BitVec 32
  uninitialized : String → BitVec 32

/-- `TLMetaTypeCategory`. -/
inductive Category where
  | object
  | vector
  | builtin (category : TLMetaTypeCategory)
deriving DecidableEq

/-- `TLMetaTypeArgument`, with the name, the category and the argument of its type. -/
structure TypeArgument where
  boxed : Bool
  unboxedConstructorSignature : BitVec 32
  unboxedConstructorName : BitVec 32
  name : BitVec 32
  category : Category
  argument : Option TypeArgument

/-- `TLMetaTypeArgumentWithName`. -/
structure TypeArgumentWithName where
  type : TypeArgument
  name : String

/-- What `createTypeArgumentFromString` gives: the type, what it puts into `vectorTypeMap`, in
order, and `hasUnresolvedTypes`. -/
structure Created where
  type : TypeArgument
  vectors : List TypeArgumentWithName
  hasUnresolvedTypes : Bool

variable (env : Environment)

/-- The bytes of `UTF8String` up to its end. -/
def cString (desc : String) : List UInt8 := (utf8 desc).takeWhile (· ≠ 0)

/-- The signature of the vectors with elements of a type. -/
def vectorSignature (typeArgumentDesc : String) : BitVec 32 :=
  env.crc32 (utf8 "vector # [ " ++ cString typeArgumentDesc ++ utf8 " ] = Vector " ++
    cString typeArgumentDesc)

/-- `substringWithRange:` of what is between the brackets, if there is a closing one. -/
def typeArgumentDesc (desc : String) : Option String :=
  if desc.toList.length < 8 then none
  else some (String.ofList (desc.toList.drop 7).dropLast)

/-- The place of the character that tells a boxed type. -/
def casePlace (desc : String) : ℕ :=
  match desc.toList.idxOf? '.' with
  | none => 0
  | some location => location + 1

/-- The last branch of `createTypeArgumentFromString`, which raises where the character is
missing. -/
def createObjectType (desc : String) : Option Created :=
  match desc.toList[casePlace desc]? with
  | none => none
  | some c =>
      if c.isUpper then some ⟨⟨true, 0, 0, env.murMurHash32 desc, .object, none⟩, [], false⟩
      else
        let boxedDesc := String.ofList (desc.toList.set (casePlace desc) c.toUpper)
        some ⟨⟨false, 0, env.murMurHash32 desc, env.murMurHash32 boxedDesc, .object, none⟩, [],
          true⟩

/-- The name of the type of a category. -/
def builtinName : TLMetaTypeCategory → String
  | .builtinInt32 => "Int"
  | .builtinInt64 => "Long"
  | .builtinInt128 => "Int128"
  | .builtinInt256 => "Int256"
  | .builtinString => "String"
  | .builtinBytes => "Bytes"
  | .builtinDouble => "Double"
  | .builtinBool => "Bool"

theorem length_typeArgumentDesc {desc inner : String} (h : typeArgumentDesc desc = some inner) :
    inner.toList.length < desc.toList.length := by
  rw [typeArgumentDesc] at h
  split at h
  · cases h
  · obtain rfl := Option.some.inj h
    rw [String.toList_ofList, List.length_dropLast, List.length_drop]
    omega

/-- `hasPrefix:@"Vector<"`. -/
def isBoxedVector (desc : String) : Bool := "Vector<".toList.isPrefixOf desc.toList

/-- Whether the type is `Vector<..>` or `vector<..>`, and boxed. -/
def vectorPrefix (desc : String) : Option Bool :=
  if isBoxedVector desc then some true
  else if "vector<".toList.isPrefixOf desc.toList then some false
  else none

/-- What is put into `vectorTypeMap` for a vector. A boxed one does not copy
`unboxedConstructorName`. -/
def registeredVector (boxed : Bool) (typeArgument : TypeArgument) (typeArgumentDesc : String) :
    TypeArgumentWithName where
  type :=
    if boxed then
      { typeArgument with unboxedConstructorName := env.uninitialized typeArgumentDesc }
    else typeArgument
  name := typeArgumentDesc

/-- The type of a vector, out of that of its elements. -/
def createdVector (desc : String) (boxed : Bool) (typeArgumentDesc : String)
    (typeArgument : Created) : Created where
  type := ⟨boxed, vectorSignature env typeArgumentDesc,
    if boxed then env.murMurHash32 desc else 0, env.murMurHash32 desc, .vector,
    some typeArgument.type⟩
  vectors := typeArgument.vectors ++
    [registeredVector env boxed typeArgument.type typeArgumentDesc]
  hasUnresolvedTypes := typeArgument.hasUnresolvedTypes

/-- `createTypeArgumentFromString`. -/
def createTypeArgumentFromString (desc : String) : Option Created :=
  match TL.createTypeArgumentFromString desc with
  | some type =>
      some ⟨⟨type.boxed, type.unboxedConstructorSignature, 0,
        env.murMurHash32 (builtinName type.category), .builtin type.category, none⟩, [], false⟩
  | none =>
      match vectorPrefix desc with
      | some boxed =>
          match _h : typeArgumentDesc desc with
          | some inner =>
              (createTypeArgumentFromString inner).map (createdVector env desc boxed inner)
          | none => none
      | none =>
          if desc = "Object" then
            some ⟨⟨true, 0, 0, env.murMurHash32 "Object", .object, none⟩, [], false⟩
          else createObjectType env desc
termination_by desc.toList.length
decreasing_by exact length_typeArgumentDesc _h

/-! ### Schemes -/

/-- `TLSchemeParam`. -/
structure SchemeParam where
  name : String
  type : String
deriving DecidableEq

/-- `TLSchemeType` and `TLSchemeMethod`; the name is the predicate or the method. -/
structure SchemeEntry where
  n_id : BitVec 32
  name : String
  params : List SchemeParam
  type : String
deriving DecidableEq

/-- `TLScheme`. -/
structure TLScheme where
  types : List SchemeEntry
  methods : List SchemeEntry

/-- The type `msg_container` that every scheme gets. -/
def msgContainer : SchemeEntry :=
  ⟨0x73f1f8dc, "msg_container", [⟨"messages", "vector<protoMessage>"⟩], "MessageContainer"⟩

/-- The type `rpc_result` that every scheme gets. -/
def rpcResult : SchemeEntry :=
  ⟨0xf35c6d01, "rpc_result", [⟨"req_msg_id", "long"⟩, ⟨"result", "Object"⟩], "RpcResult"⟩

/-- The type `futuresalts` that every scheme gets. -/
def futureSalts : SchemeEntry :=
  ⟨0xae500895, "futuresalts",
    [⟨"req_msg_id", "long"⟩, ⟨"now", "int"⟩, ⟨"salts", "vector<futureSalt>"⟩], "FutureSalts"⟩

/-- The types that are passed over. -/
def isSkipped (entry : SchemeEntry) : Bool :=
  entry.type = "Bool" || entry.type = "Null" || isBoxedVector entry.type

/-- The types that become constructors. -/
def TLScheme.constructors (scheme : TLScheme) : List SchemeEntry :=
  (scheme.types ++ [msgContainer, rpcResult, futureSalts]).filter fun entry => !isSkipped entry

/-- `TLMetaField`. -/
structure MetaField where
  name : BitVec 32
  type : TypeArgument

/-- `TLMetaConstructor`, with `hasUnresolvedTypes`. -/
structure MetaConstructor where
  name : BitVec 32
  signature : BitVec 32
  fields : List MetaField
  hasUnresolvedTypes : Bool

/-- The tables that `mergeScheme` fills while it goes over the scheme; `constructors` has all that
were made. -/
structure MergeState where
  cachedFieldTypes : BitVec 32 → Option (TypeArgument × Bool)
  vectorTypeMap : OrderedMap ℤ TypeArgumentWithName
  constructors : List MetaConstructor

/-- The assignments to `vectorTypeMap`. -/
def MergeState.addVectors (s : MergeState) (vectors : List TypeArgumentWithName) : MergeState :=
  { s with
    vectorTypeMap := vectors.foldl (fun map v => map.insert v.type.name.toInt v) s.vectorTypeMap }

/-- The type of a field, out of the cache or new. -/
def MergeState.addField (s : MergeState) (param : SchemeParam) :
    Option (MergeState × MetaField × Bool) :=
  match s.cachedFieldTypes (env.murMurHash32 param.type) with
  | some (type, unresolved) => some (s, ⟨env.murMurHash32 param.name, type⟩, unresolved)
  | none => do
      let created ← createTypeArgumentFromString env param.type
      let s := s.addVectors created.vectors
      pure ({ s with
          cachedFieldTypes := Function.update s.cachedFieldTypes (env.murMurHash32 param.type)
            (some (created.type, created.hasUnresolvedTypes)) },
        ⟨env.murMurHash32 param.name, created.type⟩, created.hasUnresolvedTypes)

/-- The loop over the fields. -/
def MergeState.addFields : MergeState → List SchemeParam →
    Option (MergeState × List MetaField × Bool)
  | s, [] => some (s, [], false)
  | s, param :: params => do
      let (s, field, unresolved) ← s.addField env param
      let (s, fields, hasUnresolvedTypes) ← s.addFields params
      pure (s, field :: fields, unresolved || hasUnresolvedTypes)

/-- A round of the loop over the types or over the methods. -/
def MergeState.addEntry (s : MergeState) (entry : SchemeEntry) : Option MergeState := do
  let (s, fields, hasUnresolvedTypes) ← s.addFields env entry.params
  let resultType ← createTypeArgumentFromString env entry.type
  let s := s.addVectors resultType.vectors
  pure { s with
    constructors := s.constructors ++
      [⟨env.murMurHash32 entry.name, entry.n_id, fields, hasUnresolvedTypes⟩] }

/-- The vectors that a method returns. -/
def MergeState.addResult (s : MergeState) (method : SchemeEntry) : Option MergeState :=
  if isBoxedVector method.type then do
    let created ← createTypeArgumentFromString env method.type
    pure (s.addVectors created.vectors)
  else some s

/-- The end of `resolveUnboxedTypes`, behind the loop over the arguments. -/
def resolveUnboxedType (names : BitVec 32 → Option (BitVec 32)) (type : TypeArgument) :
    TypeArgument × Bool :=
  if type.boxed = false ∧ type.unboxedConstructorSignature = 0 then
    match names type.unboxedConstructorName with
    | some signature => ({ type with unboxedConstructorSignature := signature }, true)
    | none => (type, false)
  else (type, true)

/-- `resolveUnboxedTypes`: the type as it leaves it, and whether it found everything. -/
def resolveUnboxedTypes (names : BitVec 32 → Option (BitVec 32)) :
    TypeArgument → TypeArgument × Bool
  | ⟨boxed, signature, constructorName, name, category, none⟩ =>
      resolveUnboxedType names ⟨boxed, signature, constructorName, name, category, none⟩
  | ⟨boxed, signature, constructorName, name, category, some type⟩ =>
      let resolved := resolveUnboxedTypes names type
      let type := ⟨boxed, signature, constructorName, name, category, some resolved.1⟩
      if resolved.2 then resolveUnboxedType names type else (type, false)

/-- `TLMetaClassStore`, as `mergeScheme` leaves it. -/
structure Store where
  constructorsBySignature : BitVec 32 → Option MetaConstructor
  constructorsByName : BitVec 32 → Option MetaConstructor
  vectorElementTypesByConstructor : BitVec 32 → Option TypeArgument

/-- The signatures of the constructors by their names. -/
def MergeState.names (s : MergeState) (name : BitVec 32) : Option (BitVec 32) :=
  (s.constructors.reverse.find? fun c => c.name = name).map MetaConstructor.signature

/-- The types of the fields of a constructor are resolved if they have to be. -/
def MergeState.resolve (s : MergeState) (c : MetaConstructor) : MetaConstructor :=
  if c.hasUnresolvedTypes then
    { c with
      fields := c.fields.map fun field =>
        { field with type := (resolveUnboxedTypes s.names field.type).1 } }
  else c

/-- The end of `mergeScheme`: of two constructors of one signature, or of one name, the last one
stays in the table, and of two vectors of one signature the first. -/
def MergeState.store (s : MergeState) (vectorTypeMap : OrderedMap ℤ TypeArgumentWithName) :
    Store where
  constructorsBySignature signature :=
    (s.constructors.reverse.find? fun c => c.signature = signature).map s.resolve
  constructorsByName name := (s.constructors.reverse.find? fun c => c.name = name).map s.resolve
  vectorElementTypesByConstructor signature :=
    ((vectorTypeMap.entries.find? fun entry =>
      vectorSignature env entry.2.name = signature).map Prod.snd).map fun v =>
        (resolveUnboxedTypes s.names v.type).1

/-- `mergeScheme`. The table of vectors is made before the loop over the methods. -/
def mergeScheme (scheme : TLScheme) : Option Store := do
  let s ← scheme.constructors.foldlM (MergeState.addEntry env) ⟨fun _ => none, .empty, []⟩
  let s ← scheme.methods.foldlM (MergeState.addResult env) s
  let merged ← scheme.methods.foldlM (MergeState.addEntry env) s
  pure (merged.store env s.vectorTypeMap)

/-! ### The vector types of a scheme -/

/-- The vector types in a description, from the inside: whether the vector is boxed, and its
elements. -/
def vectorParts (desc : String) : List (Bool × String) :=
  match TL.createTypeArgumentFromString desc, vectorPrefix desc with
  | none, some boxed =>
      match _h : typeArgumentDesc desc with
      | some inner => vectorParts inner ++ [(boxed, inner)]
      | none => []
  | _, _ => []
termination_by desc.toList.length
decreasing_by exact length_typeArgumentDesc _h

/-- The types of fields that come up for the first time. -/
def newFieldTypes : List String → List SchemeParam → List String
  | _, [] => []
  | seen, param :: params =>
      if param.type ∈ seen then newFieldTypes seen params
      else param.type :: newFieldTypes (param.type :: seen) params

/-- The types that are compiled for the constructors, in order. -/
def compiledTypes : List String → List SchemeEntry → List String
  | _, [] => []
  | seen, entry :: entries =>
      newFieldTypes seen entry.params ++ entry.type ::
        compiledTypes (newFieldTypes seen entry.params ++ seen) entries

/-- The vector types of a scheme in the order in which they are put into the table. -/
def TLScheme.vectorTypes (scheme : TLScheme) : List (Bool × String) :=
  (compiledTypes [] scheme.constructors ++
    (scheme.methods.map SchemeEntry.type).filter isBoxedVector).flatMap vectorParts

/-- What is put into the table for a vector type. -/
def Registers (vectorType : Bool × String) (v : TypeArgumentWithName) : Prop :=
  ∃ element, createTypeArgumentFromString env vectorType.2 = some element ∧
    v = registeredVector env vectorType.1 element.type vectorType.2

variable {env : Environment}

/-- The parts of a vector type. -/
theorem vectorParts_of_vector {desc inner : String} {boxed : Bool}
    (hbuiltin : TL.createTypeArgumentFromString desc = none)
    (hvectorName : vectorPrefix desc = some boxed) (hinner : typeArgumentDesc desc = some inner) :
    vectorParts desc = vectorParts inner ++ [(boxed, inner)] := by
  rw [vectorParts, hbuiltin, hvectorName]
  dsimp only
  split
  · next other hother =>
      obtain rfl := Option.some.inj (hinner.symm.trans hother)
      rfl
  · next hnone => rw [hinner] at hnone; cases hnone

/-- **Every vector type of a description is put into the table.** -/
theorem registers_vectorParts {desc : String} {created : Created}
    (h : createTypeArgumentFromString env desc = some created) :
    List.Forall₂ (Registers env) (vectorParts desc) created.vectors := by
  fun_induction createTypeArgumentFromString env desc generalizing created with
  | case1 desc type hbuiltin =>
      obtain rfl := Option.some.inj h
      rw [vectorParts, hbuiltin]
      exact .nil
  | case2 desc hbuiltin boxed hvectorName inner hinner ih =>
      obtain ⟨element, helement, rfl⟩ := Option.map_eq_some_iff.mp h
      rw [vectorParts_of_vector hbuiltin hvectorName hinner]
      exact List.rel_append (ih helement) (.cons ⟨element, helement, rfl⟩ .nil)
  | case3 desc hbuiltin boxed hvectorName hnone => cases h
  | case4 hbuiltin hvectorName =>
      obtain rfl := Option.some.inj h
      rw [vectorParts, hvectorName]
      simp
  | case5 desc hbuiltin hvectorName hobject =>
      have hvectors : created.vectors = [] := by
        rw [createObjectType] at h
        split at h
        · cases h
        · split at h
          · obtain rfl := Option.some.inj h
            rfl
          · obtain rfl := Option.some.inj h
            rfl
      rw [hvectors, vectorParts, hvectorName]
      simp

/-! ### The loops over a scheme -/

/-- The table after some assignments. -/
def vectorMap (vectors : List TypeArgumentWithName) : OrderedMap ℤ TypeArgumentWithName :=
  vectors.foldl (fun map v => map.insert v.type.name.toInt v) .empty

/-- A field of a constructor. -/
def FieldOf (env : Environment) (param : SchemeParam) (field : MetaField) : Prop :=
  field.name = env.murMurHash32 param.name ∧
    ∃ created, createTypeArgumentFromString env param.type = some created ∧
      field.type = created.type

/-- Whether the type of a field has names to look up. -/
def IsUnresolved (env : Environment) (param : SchemeParam) : Prop :=
  ∃ created, createTypeArgumentFromString env param.type = some created ∧
    created.hasUnresolvedTypes = true

/-- What the tables have when the types in `seen` were fields so far, and the vector types were
compiled in this order. -/
structure MergeState.Holds (env : Environment) (s : MergeState) (seen : List String)
    (vectorTypes : List (Bool × String)) : Prop where
  cached : ∀ type ∈ seen, ∃ created, createTypeArgumentFromString env type = some created ∧
    s.cachedFieldTypes (env.murMurHash32 type) = some (created.type, created.hasUnresolvedTypes)
  fresh : ∀ hash, s.cachedFieldTypes hash ≠ none → ∃ type ∈ seen, env.murMurHash32 type = hash
  vectors : ∃ vectors, List.Forall₂ (Registers env) vectorTypes vectors ∧
    s.vectorTypeMap = vectorMap vectors

/-- A constructor. -/
def ConstructorOf (env : Environment) (entry : SchemeEntry) (constructor : MetaConstructor) :
    Prop :=
  constructor.name = env.murMurHash32 entry.name ∧ constructor.signature = entry.n_id ∧
    List.Forall₂ (FieldOf env) entry.params constructor.fields ∧
    (constructor.hasUnresolvedTypes = true ↔ ∃ param ∈ entry.params, IsUnresolved env param)

/-- A description is compiled to one type. -/
theorem isUnresolved_iff {param : SchemeParam} {created : Created}
    (h : createTypeArgumentFromString env param.type = some created) :
    created.hasUnresolvedTypes = true ↔ IsUnresolved env param := by
  constructor
  · intro hunresolved
    exact ⟨created, h, hunresolved⟩
  · rintro ⟨other, hother, hunresolved⟩
    rwa [Option.some.inj (h.symm.trans hother)]

namespace MergeState

variable {s s' : MergeState} {seen fieldTypes : List String} {vectorTypes : List (Bool × String)}

/-- The fields of a constructor make no other constructor. -/
theorem constructors_addFields {params : List SchemeParam} {fields : List MetaField}
    {unresolved : Bool} (hadd : s.addFields env params = some (s', fields, unresolved)) :
    s'.constructors = s.constructors := by
  induction params generalizing s fields unresolved with
  | nil =>
      obtain ⟨rfl, -⟩ := Prod.mk.inj (Option.some.inj hadd)
      rfl
  | cons param params ih =>
      obtain ⟨⟨s₁, field, first⟩, hfield, hadd⟩ := Option.bind_eq_some_iff.mp hadd
      obtain ⟨⟨s₂, rest, later⟩, hrest, hadd⟩ := Option.bind_eq_some_iff.mp hadd
      obtain ⟨rfl, -⟩ := Prod.mk.inj (Option.some.inj hadd)
      rw [ih hrest]
      rw [MergeState.addField] at hfield
      split at hfield
      · obtain ⟨rfl, -⟩ := Prod.mk.inj (Option.some.inj hfield)
        rfl
      · obtain ⟨created, -, hfield⟩ := Option.bind_eq_some_iff.mp hfield
        obtain ⟨rfl, -⟩ := Prod.mk.inj (Option.some.inj hfield)
        rfl

/-- Of the types that were seen only which they are counts. -/
theorem Holds.of_iff {seen' : List String} (h : s.Holds env seen vectorTypes)
    (hseen : ∀ type, type ∈ seen' ↔ type ∈ seen) : s.Holds env seen' vectorTypes where
  cached := fun type htype => h.cached type ((hseen type).mp htype)
  fresh := fun hash hne => by
    obtain ⟨type, htype, heq⟩ := h.fresh hash hne
    exact ⟨type, (hseen type).mpr htype, heq⟩
  vectors := h.vectors

/-- A type is compiled. -/
theorem Holds.addVectors (h : s.Holds env seen vectorTypes) {desc : String} {created : Created}
    (hcreated : createTypeArgumentFromString env desc = some created) :
    (s.addVectors created.vectors).Holds env seen (vectorTypes ++ vectorParts desc) where
  cached := h.cached
  fresh := h.fresh
  vectors := by
    obtain ⟨vectors, hregisters, hmap⟩ := h.vectors
    refine ⟨vectors ++ created.vectors,
      List.rel_append hregisters (registers_vectorParts hcreated), ?_⟩
    rw [vectorMap, List.foldl_append, MergeState.addVectors, hmap]
    rfl

/-- **The type of a field is the one that its description is compiled to**, whether it comes out
of the cache or not. -/
theorem Holds.addField (h : s.Holds env seen vectorTypes)
    (hapart : ∀ type ∈ fieldTypes, ∀ other ∈ fieldTypes,
      env.murMurHash32 type = env.murMurHash32 other → type = other)
    (hseen : ∀ type ∈ seen, type ∈ fieldTypes) {param : SchemeParam}
    (hparam : param.type ∈ fieldTypes) {field : MetaField} {unresolved : Bool}
    (hadd : s.addField env param = some (s', field, unresolved)) :
    FieldOf env param field ∧ (unresolved = true ↔ IsUnresolved env param) ∧
      s'.Holds env (newFieldTypes seen [param] ++ seen)
        (vectorTypes ++ (newFieldTypes seen [param]).flatMap vectorParts) := by
  rw [MergeState.addField] at hadd
  split at hadd
  · next type hit hcached =>
      obtain ⟨rfl, hrest⟩ := Prod.mk.inj (Option.some.inj hadd)
      obtain ⟨rfl, rfl⟩ := Prod.mk.inj hrest
      obtain ⟨other, hother, hhash⟩ := h.fresh _ (by rw [hcached]; exact Option.some_ne_none _)
      obtain rfl := hapart _ (hseen _ hother) _ hparam hhash
      obtain ⟨created, hcreated, hsame⟩ := h.cached _ hother
      obtain ⟨rfl, rfl⟩ := Prod.mk.inj (Option.some.inj (hcached.symm.trans hsame))
      have hnew : newFieldTypes seen [param] = [] := by
        rw [newFieldTypes, if_pos hother]
        rfl
      rw [hnew, List.nil_append, List.flatMap_nil, List.append_nil]
      exact ⟨⟨rfl, created, hcreated, rfl⟩, isUnresolved_iff hcreated, h⟩
  · next hmiss =>
      obtain ⟨created, hcreated, hrest⟩ := Option.bind_eq_some_iff.mp hadd
      obtain ⟨rfl, hpair⟩ := Prod.mk.inj (Option.some.inj hrest)
      obtain ⟨rfl, rfl⟩ := Prod.mk.inj hpair
      have hunseen : param.type ∉ seen := by
        intro hmem
        obtain ⟨_, -, hcached⟩ := h.cached _ hmem
        rw [hmiss] at hcached
        cases hcached
      have hnew : newFieldTypes seen [param] = [param.type] := by
        rw [newFieldTypes, if_neg hunseen]
        rfl
      have hadded := h.addVectors hcreated
      rw [hnew, List.flatMap_singleton]
      refine ⟨⟨rfl, created, hcreated, rfl⟩, isUnresolved_iff hcreated, ?_, ?_, hadded.vectors⟩
      · intro type htype
        by_cases heq : env.murMurHash32 type = env.murMurHash32 param.type
        · have hfield : type ∈ fieldTypes := by
            rcases List.mem_append.mp htype with hmem | hmem
            · rwa [List.mem_singleton.mp hmem]
            · exact hseen type hmem
          obtain rfl := hapart _ hfield _ hparam heq
          exact ⟨created, hcreated, Function.update_self ..⟩
        · have hmem : type ∈ seen := by
            rcases List.mem_append.mp htype with hmem | hmem
            · exact absurd (congrArg env.murMurHash32 (List.mem_singleton.mp hmem)) heq
            · exact hmem
          obtain ⟨cached, hcompiled, hcached⟩ := h.cached type hmem
          exact ⟨cached, hcompiled, (Function.update_of_ne heq _ _).trans hcached⟩
      · intro hash hne
        by_cases heq : hash = env.murMurHash32 param.type
        · exact ⟨param.type, List.mem_append_left _ (List.mem_singleton.mpr rfl), heq.symm⟩
        · obtain ⟨type, hmem, hhash⟩ := h.fresh hash fun hnone =>
            hne ((Function.update_of_ne heq _ _).trans hnone)
          exact ⟨type, List.mem_append_right _ hmem, hhash⟩

/-- What is new among the fields behind the first one. -/
theorem newFieldTypes_cons (seen : List String) (param : SchemeParam)
    (params : List SchemeParam) : newFieldTypes seen (param :: params) =
      newFieldTypes seen [param] ++
        newFieldTypes (newFieldTypes seen [param] ++ seen) params := by
  by_cases hmem : param.type ∈ seen
  · rw [newFieldTypes, newFieldTypes, if_pos hmem, if_pos hmem]
    rfl
  · rw [newFieldTypes, newFieldTypes, if_neg hmem, if_neg hmem]
    rfl

/-- New types are types of fields. -/
theorem mem_newFieldTypes {params : List SchemeParam} {type : String}
    (h : type ∈ newFieldTypes seen params) : ∃ param ∈ params, param.type = type := by
  induction params generalizing seen with
  | nil => cases h
  | cons param params ih =>
      rw [newFieldTypes] at h
      split at h
      · obtain ⟨other, hother, heq⟩ := ih h
        exact ⟨other, List.mem_cons_of_mem _ hother, heq⟩
      · rcases List.mem_cons.mp h with rfl | h
        · exact ⟨param, List.mem_cons_self, rfl⟩
        · obtain ⟨other, hother, heq⟩ := ih h
          exact ⟨other, List.mem_cons_of_mem _ hother, heq⟩

/-- **The fields of a constructor are compiled one by one.** -/
theorem Holds.addFields {params : List SchemeParam}
    (hapart : ∀ type ∈ fieldTypes, ∀ other ∈ fieldTypes,
      env.murMurHash32 type = env.murMurHash32 other → type = other)
    (hparams : ∀ param ∈ params, param.type ∈ fieldTypes) {fields : List MetaField}
    {unresolved : Bool} (h : s.Holds env seen vectorTypes)
    (hseen : ∀ type ∈ seen, type ∈ fieldTypes)
    (hadd : s.addFields env params = some (s', fields, unresolved)) :
    List.Forall₂ (FieldOf env) params fields ∧
      (unresolved = true ↔ ∃ param ∈ params, IsUnresolved env param) ∧
      s'.Holds env (newFieldTypes seen params ++ seen)
        (vectorTypes ++ (newFieldTypes seen params).flatMap vectorParts) := by
  induction params generalizing s seen vectorTypes fields unresolved with
  | nil =>
      obtain ⟨rfl, hrest⟩ := Prod.mk.inj (Option.some.inj hadd)
      obtain ⟨rfl, rfl⟩ := Prod.mk.inj hrest
      refine ⟨.nil, by simp, ?_⟩
      rw [newFieldTypes, List.flatMap_nil, List.append_nil]
      exact h
  | cons param params ih =>
      obtain ⟨⟨s₁, field, first⟩, hfield, hadd⟩ := Option.bind_eq_some_iff.mp hadd
      obtain ⟨⟨s₂, rest, later⟩, hrest, hadd⟩ := Option.bind_eq_some_iff.mp hadd
      obtain ⟨rfl, hpair⟩ := Prod.mk.inj (Option.some.inj hadd)
      obtain ⟨rfl, rfl⟩ := Prod.mk.inj hpair
      have hparam := hparams param List.mem_cons_self
      obtain ⟨hof, hfirst, hholds⟩ := h.addField hapart hseen hparam hfield
      have hseen' : ∀ type ∈ newFieldTypes seen [param] ++ seen, type ∈ fieldTypes := by
        intro type htype
        rcases List.mem_append.mp htype with hmem | hmem
        · obtain ⟨other, hother, rfl⟩ := mem_newFieldTypes hmem
          rwa [List.mem_singleton.mp hother]
        · exact hseen type hmem
      obtain ⟨hrests, hlater, hholds'⟩ :=
        ih (fun p hp => hparams p (List.mem_cons_of_mem _ hp)) hholds hseen' hrest
      refine ⟨.cons hof hrests, ?_, ?_⟩
      · rw [Bool.or_eq_true, hfirst, hlater]
        simp
      · rw [newFieldTypes_cons, List.flatMap_append, ← List.append_assoc]
        refine hholds'.of_iff fun type => ?_
        simp only [List.mem_append]
        tauto

/-- **A constructor is compiled.** -/
theorem Holds.addEntry {entry : SchemeEntry}
    (hapart : ∀ type ∈ fieldTypes, ∀ other ∈ fieldTypes,
      env.murMurHash32 type = env.murMurHash32 other → type = other)
    (hparams : ∀ param ∈ entry.params, param.type ∈ fieldTypes)
    (h : s.Holds env seen vectorTypes) (hseen : ∀ type ∈ seen, type ∈ fieldTypes)
    (hadd : s.addEntry env entry = some s') :
    ∃ constructor, ConstructorOf env entry constructor ∧
      s'.constructors = s.constructors ++ [constructor] ∧
      s'.Holds env (newFieldTypes seen entry.params ++ seen) (vectorTypes ++
        ((newFieldTypes seen entry.params).flatMap vectorParts ++ vectorParts entry.type)) := by
  obtain ⟨⟨s₁, fields, unresolved⟩, hfields, hadd⟩ := Option.bind_eq_some_iff.mp hadd
  obtain ⟨resultType, hresult, hadd⟩ := Option.bind_eq_some_iff.mp hadd
  obtain rfl := Option.some.inj hadd
  obtain ⟨hof, hunresolved, hholds⟩ := h.addFields hapart hparams hseen hfields
  have hadded := hholds.addVectors hresult
  rw [List.append_assoc] at hadded
  refine ⟨⟨env.murMurHash32 entry.name, entry.n_id, fields, unresolved⟩,
    ⟨rfl, rfl, hof, hunresolved⟩, ?_, ⟨hadded.cached, hadded.fresh, hadded.vectors⟩⟩
  rw [← constructors_addFields hfields]
  rfl

/-- **All constructors are compiled**, and their vector types are put into the table in order. -/
theorem Holds.addEntries {entries : List SchemeEntry}
    (hapart : ∀ type ∈ fieldTypes, ∀ other ∈ fieldTypes,
      env.murMurHash32 type = env.murMurHash32 other → type = other)
    (hparams : ∀ entry ∈ entries, ∀ param ∈ entry.params, param.type ∈ fieldTypes)
    (h : s.Holds env seen vectorTypes) (hseen : ∀ type ∈ seen, type ∈ fieldTypes)
    (hadd : entries.foldlM (MergeState.addEntry env) s = some s') :
    ∃ constructors, List.Forall₂ (ConstructorOf env) entries constructors ∧
      s'.constructors = s.constructors ++ constructors ∧
      ∃ seen', s'.Holds env seen'
        (vectorTypes ++ (compiledTypes seen entries).flatMap vectorParts) := by
  induction entries generalizing s seen vectorTypes with
  | nil =>
      obtain rfl := Option.some.inj hadd
      refine ⟨[], .nil, (List.append_nil _).symm, seen, ?_⟩
      rw [compiledTypes, List.flatMap_nil, List.append_nil]
      exact h
  | cons entry entries ih =>
      rw [List.foldlM_cons] at hadd
      obtain ⟨s₁, hentry, hrest⟩ := Option.bind_eq_some_iff.mp hadd
      have hentryParams := hparams entry List.mem_cons_self
      obtain ⟨constructor, hof, hsame, hholds⟩ := h.addEntry hapart hentryParams hseen hentry
      have hseen' : ∀ type ∈ newFieldTypes seen entry.params ++ seen, type ∈ fieldTypes := by
        intro type htype
        rcases List.mem_append.mp htype with hmem | hmem
        · obtain ⟨param, hparam, rfl⟩ := mem_newFieldTypes hmem
          exact hentryParams param hparam
        · exact hseen type hmem
      obtain ⟨constructors, hall, hsame', seen', hholds'⟩ :=
        ih (fun e he => hparams e (List.mem_cons_of_mem _ he)) hholds hseen' hrest
      refine ⟨constructor :: constructors, .cons hof hall, ?_, seen', ?_⟩
      · rw [hsame', hsame, List.append_assoc, List.singleton_append]
      · rw [compiledTypes, List.flatMap_append, List.flatMap_cons, ← List.append_assoc,
          ← List.append_assoc, List.append_assoc vectorTypes]
        exact hholds'

/-- **The vectors that methods return are put into the table.** -/
theorem Holds.addResults {methods : List SchemeEntry} (h : s.Holds env seen vectorTypes)
    (hadd : methods.foldlM (MergeState.addResult env) s = some s') :
    s'.constructors = s.constructors ∧
      s'.Holds env seen (vectorTypes ++
        ((methods.map SchemeEntry.type).filter isBoxedVector).flatMap vectorParts) := by
  induction methods generalizing s vectorTypes with
  | nil =>
      obtain rfl := Option.some.inj hadd
      refine ⟨rfl, ?_⟩
      rw [List.map_nil, List.filter_nil, List.flatMap_nil, List.append_nil]
      exact h
  | cons method methods ih =>
      rw [List.foldlM_cons] at hadd
      obtain ⟨s₁, hmethod, hrest⟩ := Option.bind_eq_some_iff.mp hadd
      rw [MergeState.addResult] at hmethod
      split at hmethod
      · next hvectorName =>
          obtain ⟨created, hcreated, hs₁⟩ := Option.bind_eq_some_iff.mp hmethod
          obtain rfl := Option.some.inj hs₁
          obtain ⟨hsame, hholds⟩ := ih (h.addVectors hcreated) hrest
          refine ⟨hsame, ?_⟩
          rw [List.map_cons, List.filter_cons_of_pos hvectorName, List.flatMap_cons,
            ← List.append_assoc]
          exact hholds
      · next hvectorName =>
          obtain rfl := Option.some.inj hmethod
          rw [List.map_cons, List.filter_cons_of_neg hvectorName]
          exact ih h hrest

/-- A method becomes a constructor of its name and signature. -/
theorem addMethods {methods : List SchemeEntry}
    (hadd : methods.foldlM (MergeState.addEntry env) s = some s') :
    ∃ constructors, List.Forall₂ (fun entry constructor =>
        constructor.name = env.murMurHash32 entry.name ∧ constructor.signature = entry.n_id)
        methods constructors ∧
      s'.constructors = s.constructors ++ constructors := by
  induction methods generalizing s with
  | nil =>
      obtain rfl := Option.some.inj hadd
      exact ⟨[], .nil, (List.append_nil _).symm⟩
  | cons method methods ih =>
      rw [List.foldlM_cons] at hadd
      obtain ⟨s₁, hmethod, hrest⟩ := Option.bind_eq_some_iff.mp hadd
      obtain ⟨⟨s₂, fields, unresolved⟩, hfields, hmethod⟩ := Option.bind_eq_some_iff.mp hmethod
      obtain ⟨resultType, hresult, hmethod⟩ := Option.bind_eq_some_iff.mp hmethod
      obtain rfl := Option.some.inj hmethod
      obtain ⟨constructors, hall, hsame⟩ := ih hrest
      refine ⟨⟨env.murMurHash32 method.name, method.n_id, fields, unresolved⟩ :: constructors,
        .cons ⟨rfl, rfl⟩ hall, ?_⟩
      rw [hsame, List.append_cons s.constructors, ← constructors_addFields hfields]
      rfl

end MergeState

end Telegraph.TL.TLMetaClassStore
