import Mathlib.Data.List.Induction
import Telegraph.TL.Scheme

/-!
# The Tables of a Scheme

What the tables of `mergeScheme` have for a scheme whose names and signatures are told apart by
their hashes. A constructor is found by its name and by its signature, with the names of its bare
types looked up. The elements of a vector are found by its signature only if no other type of the
same name is that of the elements of a later vector.

## Main results

* `resolveUnboxedTypes_eq`: looking names up changes nothing but the signatures of bare types.
* `find_vector`: what the table has for a vector type.
* `mergeScheme_spec`: **what the tables have for a scheme.**
-/

namespace Telegraph.TL.TLMetaClassStore

variable {env : Environment}

/-! ### Names that are looked up -/

section Resolve

variable {names : BitVec 32 → Option (BitVec 32)} (type : TypeArgument)

/-- Looking a name up gives a signature only. -/
theorem resolveUnboxedType_eq : ∃ signature, (resolveUnboxedType names type).1 =
    { type with unboxedConstructorSignature := signature } ∧
    (type.boxed = true ∨ type.unboxedConstructorSignature ≠ 0 →
      signature = type.unboxedConstructorSignature) := by
  obtain ⟨boxed, signature, constructorName, name, category, argument⟩ := type
  rw [resolveUnboxedType]
  split
  · next hbare =>
      have hkeeps : ¬ (boxed = true ∨ signature ≠ 0) := by
        rw [show boxed = false from hbare.1, show signature = 0 from hbare.2]
        simp
      split
      · exact ⟨_, rfl, fun h => absurd h hkeeps⟩
      · exact ⟨_, rfl, fun h => absurd h hkeeps⟩
  · exact ⟨_, rfl, fun _ => rfl⟩

/-- **A type stays as it is** up to its signature, if it had none, and to that of its argument. -/
theorem resolveUnboxedTypes_eq : ∃ signature argument, (resolveUnboxedTypes names type).1 =
    { type with unboxedConstructorSignature := signature, argument := argument } ∧
    (type.boxed = true ∨ type.unboxedConstructorSignature ≠ 0 →
      signature = type.unboxedConstructorSignature) ∧
    argument = type.argument.map fun a => (resolveUnboxedTypes names a).1 := by
  obtain ⟨boxed, signature, constructorName, name, category, argument⟩ := type
  cases argument with
  | none =>
      obtain ⟨found, heq, hkeeps⟩ := @resolveUnboxedType_eq names
        ⟨boxed, signature, constructorName, name, category, none⟩
      rw [resolveUnboxedTypes, heq]
      exact ⟨found, none, rfl, hkeeps, rfl⟩
  | some a =>
      rw [resolveUnboxedTypes]
      dsimp only
      split
      · obtain ⟨found, heq, hkeeps⟩ := @resolveUnboxedType_eq names
          ⟨boxed, signature, constructorName, name, category,
            some (resolveUnboxedTypes names a).1⟩
        exact ⟨found, _, heq, hkeeps, rfl⟩
      · exact ⟨signature, _, rfl, fun _ => rfl, rfl⟩

@[simp] theorem resolveUnboxedTypes_boxed :
    (resolveUnboxedTypes names type).1.boxed = type.boxed := by
  obtain ⟨signature, argument, heq, -⟩ := @resolveUnboxedTypes_eq names type
  rw [heq]

@[simp] theorem resolveUnboxedTypes_category :
    (resolveUnboxedTypes names type).1.category = type.category := by
  obtain ⟨signature, argument, heq, -⟩ := @resolveUnboxedTypes_eq names type
  rw [heq]

/-- A type that is boxed or has its signature keeps it. -/
theorem resolveUnboxedTypes_signature
    (h : type.boxed = true ∨ type.unboxedConstructorSignature ≠ 0) :
    (resolveUnboxedTypes names type).1.unboxedConstructorSignature =
      type.unboxedConstructorSignature := by
  obtain ⟨signature, argument, heq, hkeeps, -⟩ := @resolveUnboxedTypes_eq names type
  rw [heq]
  exact hkeeps h

/-- A bare object type gets the signature of the constructor with its name. -/
theorem resolveUnboxedTypes_bare (hboxed : type.boxed = false)
    (hsignature : type.unboxedConstructorSignature = 0) (hargument : type.argument = none) :
    (resolveUnboxedTypes names type).1.unboxedConstructorSignature =
      (names type.unboxedConstructorName).getD 0 := by
  obtain ⟨boxed, signature, constructorName, name, category, argument⟩ := type
  dsimp only at hboxed hsignature hargument
  subst hboxed hsignature hargument
  rw [resolveUnboxedTypes, resolveUnboxedType, if_pos ⟨rfl, rfl⟩]
  split
  · next found hfound =>
      dsimp only at hfound ⊢
      rw [hfound]
      rfl
  · next hnone =>
      dsimp only at hnone ⊢
      rw [hnone]
      rfl

/-- A builtin type is boxed, or it has a signature. -/
theorem boxed_or_ne_zero {desc : String} {type : TLMetaTypeArgument}
    (h : TL.createTypeArgumentFromString desc = some type) :
    type.boxed = true ∨ type.unboxedConstructorSignature ≠ 0 := by
  rcases boxedOrBare_of_create h with hboxed | ⟨-, hbare⟩
  · exact .inl hboxed
  · refine .inr fun hzero => ?_
    rw [hzero] at hbare
    cases hcategory : type.category <;> rw [hcategory] at hbare <;> exact absurd hbare (by decide)

/-- **A type without names of bare types is left as it is.** -/
theorem resolveUnboxedTypes_created {desc : String} {created : Created}
    (h : createTypeArgumentFromString env desc = some created)
    (hresolved : created.hasUnresolvedTypes = false)
    (hvectors : ∀ vectorType ∈ vectorParts desc, vectorSignature env vectorType.2 ≠ 0) :
    resolveUnboxedTypes names created.type = (created.type, true) := by
  fun_induction createTypeArgumentFromString env desc generalizing created with
  | case1 desc type hbuiltin =>
      obtain rfl := Option.some.inj h
      rw [resolveUnboxedTypes, resolveUnboxedType, if_neg]
      rintro ⟨hbare, hzero⟩
      exact (boxed_or_ne_zero hbuiltin).elim (fun hboxed => by simp_all) fun hne => hne hzero
  | case2 desc hbuiltin boxed hvectorName inner hinner ih =>
      obtain ⟨element, helement, rfl⟩ := Option.map_eq_some_iff.mp h
      rw [vectorParts_of_vector hbuiltin hvectorName hinner] at hvectors
      have hinner := ih helement hresolved fun vectorType hmem =>
        hvectors vectorType (List.mem_append_left _ hmem)
      have hne := hvectors (boxed, inner) (List.mem_append_right _ (List.mem_singleton.mpr rfl))
      rw [createdVector, resolveUnboxedTypes, hinner]
      dsimp only
      rw [if_pos rfl, resolveUnboxedType, if_neg fun hbare => hne hbare.2]
  | case3 desc hbuiltin boxed hvectorName hnone => cases h
  | case4 hbuiltin hvectorName =>
      obtain rfl := Option.some.inj h
      rfl
  | case5 desc hbuiltin hvectorName hobject =>
      rw [createObjectType] at h
      split at h
      · cases h
      · split at h
        · obtain rfl := Option.some.inj h
          rfl
        · obtain rfl := Option.some.inj h
          cases hresolved

end Resolve

/-- The type of a description as the reader and the writer have it. -/
def compiledType (env : Environment) (names : BitVec 32 → Option (BitVec 32)) (desc : String) :
    Option TypeArgument :=
  (createTypeArgumentFromString env desc).map fun created =>
    (resolveUnboxedTypes names created.type).1

/-! ### The tables -/

/-- The last of the constructors with a key. -/
theorem find_reverse_of_nodup {constructors : List MetaConstructor}
    {key : MetaConstructor → BitVec 32} (hnodup : (constructors.map key).Nodup)
    {constructor : MetaConstructor} (hmem : constructor ∈ constructors) :
    constructors.reverse.find? (fun c => key c = key constructor) = some constructor := by
  cases hfind : constructors.reverse.find? fun c => key c = key constructor with
  | none =>
      have hnone := List.find?_eq_none.mp hfind constructor (List.mem_reverse.mpr hmem)
      exact absurd (decide_eq_true rfl) hnone
  | some found =>
      have hkey : key found = key constructor := by simpa using List.find?_some hfind
      have hfound := List.mem_reverse.mp (List.mem_of_find?_eq_some hfind)
      rw [List.inj_on_of_nodup_map hnodup hfound hmem hkey]

/-- The table has the last of the vector types under a name. -/
theorem lookup_vectorMap (vectors : List TypeArgumentWithName) (k : ℤ) :
    (vectorMap vectors).lookup k = vectors.reverse.find? fun v => v.type.name.toInt = k := by
  induction vectors using List.reverseRecOn with
  | nil => rfl
  | append_singleton vectors v ih =>
      rw [vectorMap, List.foldl_append, List.foldl_cons, List.foldl_nil,
        OrderedMap.lookup_insert, List.reverse_append, List.reverse_singleton,
        List.singleton_append, List.find?_cons]
      by_cases hk : v.type.name.toInt = k
      · rw [if_pos hk.symm, decide_eq_true hk]
      · rw [if_neg (Ne.symm hk), decide_eq_false hk]
        exact ih

/-- What is found in related lists is related. -/
theorem rel_find {α β : Type} {R : α → β → Prop} {p : α → Bool} {q : β → Bool} {l : List α}
    {l' : List β} (h : List.Forall₂ R l l') (hpq : ∀ a b, R a b → p a = q b) :
    Option.Rel R (l.find? p) (l'.find? q) := by
  induction h with
  | nil => exact .none
  | cons hab htail ih =>
      rw [List.find?_cons, List.find?_cons, hpq _ _ hab]
      split
      · exact .some hab
      · exact ih

/-- The constructors of a scheme, and its methods behind them. -/
def TLScheme.entries (scheme : TLScheme) : List SchemeEntry :=
  scheme.constructors ++ scheme.methods

/-- The types of the fields of the constructors. -/
def TLScheme.fieldTypes (scheme : TLScheme) : List String :=
  scheme.constructors.flatMap fun entry => entry.params.map SchemeParam.type

/-- What has to be told apart has hashes of its own. -/
structure TLScheme.Apart (env : Environment) (scheme : TLScheme) : Prop where
  signatures : (scheme.entries.map SchemeEntry.n_id).Nodup
  names : (scheme.entries.map fun entry => env.murMurHash32 entry.name).Nodup
  fieldNames : ∀ entry ∈ scheme.constructors,
    (entry.params.map fun param => env.murMurHash32 param.name).Nodup
  fieldTypes : ∀ type ∈ scheme.fieldTypes, ∀ other ∈ scheme.fieldTypes,
    env.murMurHash32 type = env.murMurHash32 other → type = other
  vectors : ∀ type ∈ scheme.vectorTypes, ∀ other ∈ scheme.vectorTypes,
    vectorSignature env type.2 = vectorSignature env other.2 → type.2 = other.2
  vectors_ne : ∀ type ∈ scheme.vectorTypes, vectorSignature env type.2 ≠ 0

instance (env : Environment) (scheme : TLScheme) : Decidable (scheme.Apart env) :=
  decidable_of_iff
    ((scheme.entries.map SchemeEntry.n_id).Nodup ∧
      (scheme.entries.map fun entry => env.murMurHash32 entry.name).Nodup ∧
      (∀ entry ∈ scheme.constructors,
        (entry.params.map fun param => env.murMurHash32 param.name).Nodup) ∧
      (∀ type ∈ scheme.fieldTypes, ∀ other ∈ scheme.fieldTypes,
        env.murMurHash32 type = env.murMurHash32 other → type = other) ∧
      (∀ type ∈ scheme.vectorTypes, ∀ other ∈ scheme.vectorTypes,
        vectorSignature env type.2 = vectorSignature env other.2 → type.2 = other.2) ∧
      ∀ type ∈ scheme.vectorTypes, vectorSignature env type.2 ≠ 0)
    ⟨fun h => ⟨h.1, h.2.1, h.2.2.1, h.2.2.2.1, h.2.2.2.2.1, h.2.2.2.2.2⟩,
      fun h => ⟨h.signatures, h.names, h.fieldNames, h.fieldTypes, h.vectors, h.vectors_ne⟩⟩

/-- A type of a field is compiled, if it was not before. -/
theorem mem_newFieldTypes_or {seen : List String} {params : List SchemeParam}
    {param : SchemeParam} (h : param ∈ params) :
    param.type ∈ newFieldTypes seen params ∨ param.type ∈ seen := by
  induction params generalizing seen with
  | nil => cases h
  | cons first params ih =>
      rw [newFieldTypes]
      rcases List.mem_cons.mp h with rfl | h
      · split
        · next hmem => exact .inr hmem
        · exact .inl List.mem_cons_self
      · split
        · exact ih h
        · rcases @ih (first.type :: seen) h with hnew | hold
          · exact .inl (List.mem_cons_of_mem _ hnew)
          · rcases List.mem_cons.mp hold with heq | hold
            · exact .inl (heq ▸ List.mem_cons_self)
            · exact .inr hold

/-- The types of all fields are compiled. -/
theorem mem_compiledTypes {seen : List String} {entries : List SchemeEntry} {entry : SchemeEntry}
    (hentry : entry ∈ entries) {param : SchemeParam} (hparam : param ∈ entry.params) :
    param.type ∈ compiledTypes seen entries ∨ param.type ∈ seen := by
  induction entries generalizing seen with
  | nil => cases hentry
  | cons first entries ih =>
      rw [compiledTypes]
      have hhead : ∀ type ∈ newFieldTypes seen first.params, type ∈
          newFieldTypes seen first.params ++ first.type ::
            compiledTypes (newFieldTypes seen first.params ++ seen) entries :=
        fun type h => List.mem_append_left _ h
      rcases List.mem_cons.mp hentry with rfl | hentry
      · exact (mem_newFieldTypes_or hparam).imp_left (hhead _)
      · rcases @ih (newFieldTypes seen first.params ++ seen) hentry with hlater | hseen
        · exact .inl (List.mem_append_right _ (List.mem_cons_of_mem _ hlater))
        · exact (List.mem_append.mp hseen).imp_left (hhead _)

/-- **The vector types in the fields of a constructor are vector types of the scheme.** -/
theorem mem_vectorTypes {scheme : TLScheme} {entry : SchemeEntry}
    (hentry : entry ∈ scheme.constructors) {param : SchemeParam} (hparam : param ∈ entry.params)
    {vectorType : Bool × String} (h : vectorType ∈ vectorParts param.type) :
    vectorType ∈ scheme.vectorTypes :=
  List.mem_flatMap.mpr ⟨param.type, List.mem_append_left _
    ((mem_compiledTypes hentry hparam).resolve_right List.not_mem_nil), h⟩

/-- The name of the type that a description is compiled to. -/
def typeName (env : Environment) (desc : String) : Option (BitVec 32) :=
  (createTypeArgumentFromString env desc).map fun created => created.type.name

/-- The vector type whose elements are in the table under a name: the last one. -/
def TLScheme.lastVector (env : Environment) (scheme : TLScheme) (name : Option (BitVec 32)) :
    Option (Bool × String) :=
  scheme.vectorTypes.reverse.find? fun vectorType => typeName env vectorType.2 = name

/-- A field as the reader and the writer have it. -/
def CompiledField (env : Environment) (names : BitVec 32 → Option (BitVec 32))
    (param : SchemeParam) (field : MetaField) : Prop :=
  field.name = env.murMurHash32 param.name ∧
    compiledType env names param.type = some field.type

/-- A constructor as the reader and the writer have it. -/
def CompiledConstructor (env : Environment) (names : BitVec 32 → Option (BitVec 32))
    (entry : SchemeEntry) (constructor : MetaConstructor) : Prop :=
  constructor.name = env.murMurHash32 entry.name ∧ constructor.signature = entry.n_id ∧
    List.Forall₂ (CompiledField env names) entry.params constructor.fields

/-- What the tables have. -/
structure Store.Compiles (env : Environment) (scheme : TLScheme)
    (names : BitVec 32 → Option (BitVec 32)) (store : Store) : Prop where
  names_entry : ∀ entry ∈ scheme.entries, names (env.murMurHash32 entry.name) = some entry.n_id
  names_other : ∀ name, (∀ entry ∈ scheme.entries, env.murMurHash32 entry.name ≠ name) →
    names name = none
  constructors : ∀ entry ∈ scheme.constructors, ∃ constructor,
    CompiledConstructor env names entry constructor ∧
      store.constructorsBySignature entry.n_id = some constructor ∧
      store.constructorsByName (env.murMurHash32 entry.name) = some constructor
  signature_other : ∀ signature, (∀ entry ∈ scheme.entries, entry.n_id ≠ signature) →
    store.constructorsBySignature signature = none
  vectors : ∀ vectorType ∈ scheme.vectorTypes, ∃ created,
    createTypeArgumentFromString env vectorType.2 = some created ∧
      ∃ last, scheme.lastVector env (typeName env vectorType.2) = some last ∧
        store.vectorElementTypesByConstructor (vectorSignature env vectorType.2) =
          if last.2 = vectorType.2 then
            some (resolveUnboxedTypes names
              (registeredVector env last.1 created.type vectorType.2).type).1
          else none
  vector_other : ∀ signature,
    (∀ vectorType ∈ scheme.vectorTypes, vectorSignature env vectorType.2 ≠ signature) →
      store.vectorElementTypesByConstructor signature = none

/-- A constructor and its entry have one name and one signature. -/
def Named (env : Environment) (entry : SchemeEntry) (constructor : MetaConstructor) : Prop :=
  constructor.name = env.murMurHash32 entry.name ∧ constructor.signature = entry.n_id

/-- Entries and constructors that belong to each other have the same keys. -/
theorem map_eq_of_named {entries : List SchemeEntry} {constructors : List MetaConstructor}
    (h : List.Forall₂ (Named env) entries constructors) :
    constructors.map MetaConstructor.name = (entries.map fun e => env.murMurHash32 e.name) ∧
      constructors.map MetaConstructor.signature = entries.map SchemeEntry.n_id := by
  induction h with
  | nil => exact ⟨rfl, rfl⟩
  | cons hnamed _ ih =>
      simp only [List.map_cons]
      rw [hnamed.1, hnamed.2, ih.1, ih.2]
      exact ⟨rfl, rfl⟩

/-- What is in one of two related lists has its counterpart in the other. -/
theorem exists_of_forall₂ {α β : Type} {R : α → β → Prop} {l : List α} {l' : List β}
    (h : List.Forall₂ R l l') {a : α} (ha : a ∈ l) : ∃ b ∈ l', R a b := by
  induction h with
  | nil => cases ha
  | cons hab _ ih =>
      rcases List.mem_cons.mp ha with rfl | ha
      · exact ⟨_, List.mem_cons_self, hab⟩
      · obtain ⟨b, hb, hrel⟩ := ih ha
        exact ⟨b, List.mem_cons_of_mem _ hb, hrel⟩

section Store

variable {s : MergeState} {vectorTypeMap : OrderedMap ℤ TypeArgumentWithName}
  {scheme : TLScheme} {made methods : List MetaConstructor}
  {vectors : List TypeArgumentWithName}

/-- **A constructor is compiled**, with its names looked up if it has some. -/
theorem compiledConstructor_resolve {entry : SchemeEntry} {c : MetaConstructor}
    (hvectors : ∀ param ∈ entry.params, ∀ vectorType ∈ vectorParts param.type,
      vectorSignature env vectorType.2 ≠ 0) (h : ConstructorOf env entry c) :
    CompiledConstructor env s.names entry (s.resolve c) := by
  obtain ⟨hname, hsignature, hfields, hunresolved⟩ := h
  rw [MergeState.resolve]
  split
  · refine ⟨hname, hsignature, List.forall₂_map_right_iff.mpr (hfields.imp ?_)⟩
    rintro param field ⟨hfield, created, hcreated, htype⟩
    refine ⟨hfield, ?_⟩
    rw [compiledType, hcreated, Option.map_some, htype]
  · next hflag =>
      refine ⟨hname, hsignature, List.forall₂_iff_zip.mpr ⟨hfields.length_eq, ?_⟩⟩
      intro param field hmem
      have hparam := (List.of_mem_zip hmem).1
      obtain ⟨hfield, created, hcreated, htype⟩ := List.forall₂_zip hfields hmem
      have hresolved : created.hasUnresolvedTypes = false := by
        by_contra hyes
        exact hflag (hunresolved.mpr ⟨param, hparam, created, hcreated, by simpa using hyes⟩)
      refine ⟨hfield, ?_⟩
      rw [compiledType, hcreated, Option.map_some,
        resolveUnboxedTypes_created hcreated hresolved (hvectors param hparam), htype]

@[simp] theorem registeredVector_name (boxed : Bool) (type : TypeArgument) (desc : String) :
    (registeredVector env boxed type desc).type.name = type.name := by
  cases boxed <;> rfl

/-- What is in the table comes from a vector type, and stands at its name. -/
theorem mem_vectorMap (hregisters : List.Forall₂ (Registers env) scheme.vectorTypes vectors)
    {entry : ℤ × TypeArgumentWithName} (hentry : entry ∈ (vectorMap vectors).entries) :
    ∃ vectorType ∈ scheme.vectorTypes, ∃ created,
      createTypeArgumentFromString env vectorType.2 = some created ∧
        entry.2.name = vectorType.2 ∧ entry.1 = created.type.name.toInt := by
  have hlookup := OrderedMap.lookup_eq_some_iff.mpr hentry
  rw [lookup_vectorMap] at hlookup
  have hkey := List.find?_some hlookup
  have hmem := List.mem_reverse.mp (List.mem_of_find?_eq_some hlookup)
  obtain ⟨vectorType, hvector, created, hcreated, heq⟩ := exists_of_forall₂ hregisters.flip hmem
  refine ⟨vectorType, hvector, created, hcreated, by rw [heq]; rfl, ?_⟩
  rw [heq, registeredVector_name] at hkey
  exact (of_decide_eq_true hkey).symm

/-- **What the table has for a vector type**: its elements, if no vector type behind it has
elements of the same name that are not the same. -/
theorem find_vector (hapart : scheme.Apart env)
    (hregisters : List.Forall₂ (Registers env) scheme.vectorTypes vectors)
    {vectorType : Bool × String} (hmem : vectorType ∈ scheme.vectorTypes) :
    ∃ created, createTypeArgumentFromString env vectorType.2 = some created ∧
      ∃ last, scheme.lastVector env (typeName env vectorType.2) = some last ∧
        ((vectorMap vectors).entries.find? fun entry =>
          vectorSignature env entry.2.name = vectorSignature env vectorType.2).map Prod.snd =
          if last.2 = vectorType.2 then
            some (registeredVector env last.1 created.type vectorType.2)
          else none := by
  obtain ⟨v, -, created, hcreated, -⟩ := exists_of_forall₂ hregisters hmem
  have htypeName : typeName env vectorType.2 = some created.type.name := by
    rw [typeName, hcreated]
    rfl
  -- what is last under the name
  have hrel : Option.Rel (Registers env) (scheme.lastVector env (typeName env vectorType.2))
      ((vectorMap vectors).lookup created.type.name.toInt) := by
    rw [lookup_vectorMap, TLScheme.lastVector]
    refine rel_find (List.forall₂_reverse_iff.mpr hregisters) ?_
    rintro other _ ⟨element, helement, rfl⟩
    rw [registeredVector_name, htypeName, typeName, helement]
    simp [BitVec.toInt_inj]
  obtain ⟨last, hlast⟩ : ∃ last,
      scheme.lastVector env (typeName env vectorType.2) = some last := by
    rw [← Option.isSome_iff_exists, TLScheme.lastVector, List.find?_isSome]
    exact ⟨vectorType, List.mem_reverse.mpr hmem, decide_eq_true rfl⟩
  rw [hlast] at hrel
  obtain ⟨w, hlookup, element, helement, rfl⟩ : ∃ w,
      (vectorMap vectors).lookup created.type.name.toInt = some w ∧ Registers env last w := by
    cases hfound : (vectorMap vectors).lookup created.type.name.toInt with
    | none => rw [hfound] at hrel; cases hrel
    | some w =>
        rw [hfound] at hrel
        cases hrel with
        | some h => exact ⟨w, rfl, h⟩
  -- an entry with the signature is that one
  have hentry : ∀ entry ∈ (vectorMap vectors).entries,
      vectorSignature env entry.2.name = vectorSignature env vectorType.2 →
        entry.2 = registeredVector env last.1 element.type last.2 ∧ last.2 = vectorType.2 := by
    intro entry hin hsignature
    obtain ⟨other, hother, found, hfound, hname, hkey⟩ := mem_vectorMap hregisters hin
    rw [hname] at hsignature
    have hsame := hapart.vectors other hother vectorType hmem hsignature
    rw [hsame] at hfound hname
    obtain rfl := Option.some.inj (hcreated.symm.trans hfound)
    have hvalue := OrderedMap.lookup_eq_some_iff.mpr hin
    rw [hkey, hlookup] at hvalue
    have hsecond := Option.some.inj hvalue
    refine ⟨hsecond.symm, ?_⟩
    rw [← hname, ← hsecond]
    rfl
  refine ⟨created, hcreated, last, hlast, ?_⟩
  split
  · next hsame =>
      rw [hsame] at helement hlookup hentry
      obtain rfl := Option.some.inj (hcreated.symm.trans helement)
      have hin := OrderedMap.lookup_eq_some_iff.mp hlookup
      cases hfind : (vectorMap vectors).entries.find? fun entry =>
          vectorSignature env entry.2.name = vectorSignature env vectorType.2 with
      | none =>
          have hnone := List.find?_eq_none.mp hfind _ hin
          exact absurd (decide_eq_true rfl) hnone
      | some entry =>
          have hsignature : vectorSignature env entry.2.name =
              vectorSignature env vectorType.2 := by
            simpa using List.find?_some hfind
          rw [Option.map_some,
            (hentry entry (List.mem_of_find?_eq_some hfind) hsignature).1]
  · next hother =>
      rw [Option.map_eq_none_iff, List.find?_eq_none]
      intro entry hin hsignature
      exact hother (hentry entry hin (of_decide_eq_true hsignature)).2

/-- What is in a table by the key of an entry. -/
theorem find_entry {entries : List SchemeEntry} {constructors : List MetaConstructor}
    {key : SchemeEntry → BitVec 32} {made : MetaConstructor → BitVec 32}
    (hkeys : constructors.map made = entries.map key) (hnodup : (entries.map key).Nodup)
    {entry : SchemeEntry} {c : MetaConstructor} (hc : c ∈ constructors)
    (hkey : made c = key entry) :
    constructors.reverse.find? (fun c => made c = key entry) = some c := by
  rw [← hkey]
  exact find_reverse_of_nodup (hkeys ▸ hnodup) hc

/-- What no entry has as its key is not in the table. -/
theorem find_other {entries : List SchemeEntry} {constructors : List MetaConstructor}
    {key : SchemeEntry → BitVec 32} {made : MetaConstructor → BitVec 32}
    (hkeys : constructors.map made = entries.map key) {k : BitVec 32}
    (h : ∀ entry ∈ entries, key entry ≠ k) :
    constructors.reverse.find? (fun c => made c = k) = none := by
  rw [List.find?_eq_none]
  intro c hc hk
  have hmem : made c ∈ entries.map key := hkeys ▸ List.mem_map_of_mem (List.mem_reverse.mp hc)
  obtain ⟨entry, hentry, heq⟩ := List.mem_map.mp hmem
  exact h entry hentry (heq.trans (of_decide_eq_true hk))

/-- **What `mergeScheme` makes of a scheme** whose names and signatures are told apart. -/
theorem mergeScheme_spec {store : Store} (hapart : scheme.Apart env)
    (hmerge : mergeScheme env scheme = some store) :
    ∃ names, store.Compiles env scheme names := by
  obtain ⟨s₁, htypes, hrest⟩ := Option.bind_eq_some_iff.mp hmerge
  obtain ⟨s₂, hresults, hrest⟩ := Option.bind_eq_some_iff.mp hrest
  obtain ⟨s, hmethods, hstore⟩ := Option.bind_eq_some_iff.mp hrest
  obtain rfl := Option.some.inj hstore
  have hempty : MergeState.Holds env ⟨fun _ => none, .empty, []⟩ [] [] :=
    ⟨fun _ h => absurd h List.not_mem_nil, fun _ h => absurd rfl h, [], .nil, rfl⟩
  have hparams : ∀ entry ∈ scheme.constructors, ∀ param ∈ entry.params,
      param.type ∈ scheme.fieldTypes := fun entry hentry param hparam =>
    List.mem_flatMap.mpr ⟨entry, hentry, List.mem_map_of_mem hparam⟩
  obtain ⟨made, hmade, hconstructors, seen, hholds⟩ := hempty.addEntries hapart.fieldTypes hparams
    (fun _ h => absurd h List.not_mem_nil) htypes
  obtain ⟨hsame, hholds₂⟩ := hholds.addResults hresults
  obtain ⟨others, hothers, hall⟩ := MergeState.addMethods hmethods
  obtain ⟨vectors, hregisters, hmap⟩ := hholds₂.vectors
  rw [List.nil_append, ← List.flatMap_append] at hregisters
  have hlist : s.constructors = made ++ others := by
    rw [hall, hsame, hconstructors, List.nil_append]
  have hnamed : List.Forall₂ (Named env) scheme.entries (made ++ others) :=
    List.rel_append (hmade.imp fun _ _ h => ⟨h.1, h.2.1⟩) hothers
  obtain ⟨hnames, hsignatures⟩ := map_eq_of_named hnamed
  refine ⟨s.names, ?_, ?_, ?_, ?_, ?_, ?_⟩
  · intro entry hentry
    obtain ⟨c, hc, hname, hsignature⟩ := exists_of_forall₂ hnamed hentry
    rw [MergeState.names, hlist, find_entry hnames hapart.names hc hname, Option.map_some,
      hsignature]
  · intro name hother
    rw [MergeState.names, hlist, find_other hnames hother]
    rfl
  · intro entry hentry
    obtain ⟨c, hc, hof⟩ := exists_of_forall₂ hmade hentry
    have hin : c ∈ made ++ others := List.mem_append_left _ hc
    have hvectors : ∀ param ∈ entry.params, ∀ vectorType ∈ vectorParts param.type,
        vectorSignature env vectorType.2 ≠ 0 := fun param hparam vectorType hmem =>
      hapart.vectors_ne vectorType (mem_vectorTypes hentry hparam hmem)
    refine ⟨s.resolve c, compiledConstructor_resolve hvectors hof, ?_, ?_⟩
    · rw [MergeState.store, hlist]
      dsimp only
      rw [find_entry hsignatures hapart.signatures hin hof.2.1, Option.map_some]
    · rw [MergeState.store, hlist]
      dsimp only
      rw [find_entry hnames hapart.names hin hof.1, Option.map_some]
  · intro signature hother
    rw [MergeState.store, hlist]
    dsimp only
    rw [find_other hsignatures hother, Option.map_none]
  · intro vectorType hmem
    obtain ⟨created, hcreated, last, hlast, hfind⟩ := find_vector hapart hregisters hmem
    refine ⟨created, hcreated, last, hlast, ?_⟩
    rw [MergeState.store, hmap]
    dsimp only
    rw [hfind]
    split <;> rfl
  · intro signature hother
    rw [MergeState.store, hmap]
    dsimp only
    rw [Option.map_eq_none_iff, Option.map_eq_none_iff, List.find?_eq_none]
    intro entry hentry hsignature
    obtain ⟨vectorType, hmem, -, -, hname, -⟩ := mem_vectorMap hregisters hentry
    exact hother vectorType hmem (hname ▸ of_decide_eq_true hsignature)

end Store

end Telegraph.TL.TLMetaClassStore
