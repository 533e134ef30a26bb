import Telegraph.Database.IndexSets
import Telegraph.Lib.Bytes
import Telegraph.Lib.Dictionary
import Telegraph.Lib.OrderedMap

/-!
# Custom Properties of Conversations

Each conversation has properties, which are data under a number. They are kept in one blob, which
is parsed and written anew for every change, and parsed again for every look at a property. The
offsets and lengths are `int`s.

The blob is bound to the statement with its length as an `int`, and nobody looks at the result: a
blob that is too long for the database is replaced by `NULL`, and the properties are lost.

## Main results

* `readEntries_at`, `findEntry_at`: what is written is read, at any offset below `2 ^ 31`.
* `readProperties_serialize`: a map is got back from its blob.
* `propertiesKept_of_fits`: **in every run in which the blobs fit, every property reads as it was
  set last.**
-/

open Bytes

namespace Telegraph.Database

/-- An `int`. -/
abbrev CInt := {value : ℤ // -2147483648 ≤ value ∧ value < 2147483648}

/-- The `int` with these four bytes. -/
def CInt.ofBytes (bytes : List UInt8) : CInt :=
  ⟨leInt32 bytes, Int.le_bmod (by decide), Int.bmod_lt (by decide)⟩

/-- `getBytes:range:`, which raises for a range that goes too far. -/
def getBytes (data : List UInt8) (range : NSRange) : Option (List UInt8) :=
  if range.location + range.length ≤ data.length then
    some ((data.drop range.location).take range.length)
  else none

/-- Four bytes as an `int` that is counted with. -/
def intOfBytes (bytes : List UInt8) : BitVec 32 := BitVec.ofNat 32 (leNat bytes)

/-- The properties of a conversation, a `std::map<int, NSData *>`. -/
abbrev Properties := OrderedMap CInt (List UInt8)

namespace Properties

/-- `tmpDict.insert`, which keeps a value that is there. -/
def insertNew (tmpDict : Properties) (entry : CInt × List UInt8) : Properties :=
  if (tmpDict.lookup entry.1).isSome then tmpDict else tmpDict.insert entry.1 entry.2

/-- The bytes of an entry. -/
def writeEntry (entry : CInt × List UInt8) : List UInt8 :=
  int32LE entry.1 ++ (toLE 4 entry.2.length ++ entry.2)

/-- The blob of a map: a version, the number of the entries and the entries. -/
def serialize (tmpDict : Properties) : List UInt8 :=
  toLE 4 0 ++ (toLE 4 tmpDict.entries.length ++ tmpDict.entries.flatMap writeEntry)

/-- The entries from an offset on. -/
def readEntries (serializedProperties : List UInt8) :
    ℕ → BitVec 32 → Option (List (CInt × List UInt8))
  | 0, _ => some []
  | count + 1, ptr => do
      let key ← getBytes serializedProperties (NSMakeRange ptr 4)
      let valueLength ← getBytes serializedProperties (NSMakeRange (ptr + 4) 4)
      let value ← getBytes serializedProperties
        (NSMakeRange (ptr + 4 + 4) (intOfBytes valueLength))
      let rest ← readEntries serializedProperties count (ptr + 4 + 4 + intOfBytes valueLength)
      pure ((CInt.ofBytes key, value) :: rest)

/-- The number of the entries, after the version. -/
def readCount (serializedProperties : List UInt8) : Option ℕ := do
  let _version ← getBytes serializedProperties (NSMakeRange 0 4)
  let count ← getBytes serializedProperties (NSMakeRange 4 4)
  pure (intOfBytes count).toInt.toNat

/-- The map of a blob; without a blob it is empty. -/
def readProperties : Option (List UInt8) → Option Properties
  | none => some OrderedMap.empty
  | some serializedProperties => do
      let count ← readCount serializedProperties
      let entries ← readEntries serializedProperties count 8
      pure (entries.foldl insertNew OrderedMap.empty)

/-- The first entry with a name from an offset on. -/
def findEntry (serializedProperties : List UInt8) (name : CInt) :
    ℕ → BitVec 32 → Option (Option (List UInt8))
  | 0, _ => some none
  | count + 1, ptr => do
      let key ← getBytes serializedProperties (NSMakeRange ptr 4)
      let valueLength ← getBytes serializedProperties (NSMakeRange (ptr + 4) 4)
      if CInt.ofBytes key = name then
        (getBytes serializedProperties
          (NSMakeRange (ptr + 4 + 4) (intOfBytes valueLength))).map some
      else findEntry serializedProperties name count (ptr + 4 + 4 + intOfBytes valueLength)

end Properties

open Properties

/-! ### The table -/

/-- The rows of the table of the peers, with the blob or `NULL`. -/
abbrev PeerRows := Dictionary ℤ (Option (List UInt8))

/-- What the database has room for: a blob that is bound, and the row of a peer. -/
structure SQLite where
  lengthLimit : ℕ
  room : ℤ → ℕ
  limit_lt : lengthLimit < 2 ^ 31
  room_le : ∀ pid, room pid ≤ lengthLimit

/-- `bindObject:toColumn:inStatement:` and the statement. A negative length is undefined; a blob
above the limit leaves `NULL` bound; a statement whose row is too long changes nothing. -/
def SQLite.write (sqlite : SQLite) (rows : PeerRows) (pid : ℤ) (blob : List UInt8) :
    Option PeerRows :=
  let length := (BitVec.ofNat 32 blob.length).toInt
  if length < 0 then none
  else if sqlite.lengthLimit < length then some (rows.insert pid none)
  else if sqlite.room pid < length then some rows
  else some (rows.insert pid (some (blob.take length.toNat)))

/-- A call of `setConversationCustomProperty:name:value:`. -/
structure SetProperty where
  conversationId : ℤ
  name : CInt
  value : Option (List UInt8)
deriving DecidableEq

/-- The map after a call. -/
def SetProperty.update (call : SetProperty) (tmpDict : Properties) : Properties :=
  match call.value with
  | some value => tmpDict.insert call.name value
  | none => tmpDict.erase call.name

/-- `setConversationCustomProperty:name:value:`. -/
def setConversationCustomProperty (sqlite : SQLite) (rows : PeerRows) (call : SetProperty) :
    Option PeerRows := do
  let tmpDict ← readProperties ((rows.lookup call.conversationId).join)
  sqlite.write rows call.conversationId (serialize (call.update tmpDict))

/-- `conversationCustomProperty:name:completion:`, of the value that is passed on. -/
def conversationCustomProperty (rows : PeerRows) (conversationId : ℤ) (name : CInt) :
    Option (Option (List UInt8)) :=
  match (rows.lookup conversationId).join with
  | none => some none
  | some serializedProperties => do
      let count ← readCount serializedProperties
      findEntry serializedProperties name count 8

/-- `conversationCustomPropertySync:name:`, whose body is the same. -/
def conversationCustomPropertySync (rows : PeerRows) (conversationId : ℤ) (name : CInt) :
    Option (Option (List UInt8)) :=
  conversationCustomProperty rows conversationId name

/-- A sequence of calls. -/
def runCalls (sqlite : SQLite) (rows : PeerRows) (calls : List SetProperty) : Option PeerRows :=
  calls.foldlM (setConversationCustomProperty sqlite) rows

/-! ### What is to hold -/

/-- The value that was set last. -/
def lastValue (calls : List SetProperty) (conversationId : ℤ) (name : CInt) :
    Option (List UInt8) :=
  (calls.reverse.find? fun call => call.conversationId = conversationId ∧ call.name = name).bind
    SetProperty.value

/-- The calls run, and every property reads as it was set last. -/
def PropertiesKept (sqlite : SQLite) (rows : PeerRows) (calls : List SetProperty) : Prop :=
  ∃ after, runCalls sqlite rows calls = some after ∧ ∀ conversationId name,
    conversationCustomProperty after conversationId name =
        some (lastValue calls conversationId name) ∧
      conversationCustomPropertySync after conversationId name =
        some (lastValue calls conversationId name)

/-- The length of the blob of a conversation: eight bytes, and eight bytes and the value for every
name that has one. -/
def blobLength (calls : List SetProperty) (conversationId : ℤ) : ℕ :=
  8 + ∑ name ∈ (calls.map SetProperty.name).toFinset,
    ((lastValue calls conversationId name).map fun value => 8 + value.length).getD 0

/-- After the last call the properties of its conversation fit into its row. -/
def LastFits (sqlite : SQLite) (calls : List SetProperty) : Prop :=
  ∀ call ∈ calls.getLast?, blobLength calls call.conversationId ≤ sqlite.room call.conversationId

/-! ### Reading what was written -/

section Read

variable {before : List UInt8} {ptr length : BitVec 32} {name : CInt}

/-- An `int` that is counted with is the number that was written. -/
theorem toNat_intOfBytes {n : ℕ} (h : n < 2 ^ 31) : (intOfBytes (toLE 4 n)).toNat = n := by
  have hback : leNat (toLE 4 n) = n := by
    rw [leNat_toLE]
    exact Nat.mod_eq_of_lt (lt_of_lt_of_le h (by decide))
  rw [intOfBytes, hback, BitVec.toNat_ofNat, Nat.mod_eq_of_lt (by omega)]

/-- A name is the one that was written. -/
theorem CInt.ofBytes_int32LE (name : CInt) : CInt.ofBytes (int32LE name) = name := by
  have hback : leInt32 (int32LE name.1) = name.1 := leInt32_int32LE_of_fits name.2.1 name.2.2
  apply Subtype.ext
  dsimp only [CInt.ofBytes]
  exact hback

/-- An offset moves on. -/
theorem toNat_add_four (h : ptr.toNat + 4 < 2 ^ 32) : (ptr + 4).toNat = ptr.toNat + 4 := by
  rw [BitVec.toNat_add, show (4 : BitVec 32).toNat = 4 from rfl, Nat.mod_eq_of_lt h]

/-- A range of `int`s that are not negative. -/
theorem NSMakeRange_of_lt (hptr : ptr.toNat < 2 ^ 31) (hlength : length.toNat < 2 ^ 31) :
    NSMakeRange ptr length = ⟨ptr.toNat, length.toNat⟩ := by
  have hwide : ∀ value : BitVec 32, value.toNat < 2 ^ 31 →
      (value.signExtend 64).toNat = value.toNat := by
    intro value hvalue
    have hint : value.toInt = value.toNat := BitVec.toInt_eq_toNat_of_lt (by omega)
    rw [toNat_wide_of_nonneg (by omega), hint, Int.toNat_natCast]
  rw [NSMakeRange, hwide ptr hptr, hwide length hlength]

/-- A field is read from its place. -/
theorem getBytes_at (before field after : List UInt8) (hptr : ptr.toNat = before.length)
    (hlength : length.toNat = field.length) (h : before.length + field.length < 2 ^ 31) :
    getBytes (before ++ (field ++ after)) (NSMakeRange ptr length) = some field := by
  rw [NSMakeRange_of_lt (by omega) (by omega), getBytes, if_pos, window hptr.symm hlength.symm]
  simp only [List.length_append]
  omega

/-- The three fields of an entry. -/
theorem getBytes_entry (entry : CInt × List UInt8) (after : List UInt8)
    (hptr : ptr.toNat = before.length) (h : before.length + (writeEntry entry).length < 2 ^ 31) :
    getBytes (before ++ (writeEntry entry ++ after)) (NSMakeRange ptr 4) =
        some (int32LE entry.1) ∧
      getBytes (before ++ (writeEntry entry ++ after)) (NSMakeRange (ptr + 4) 4) =
        some (toLE 4 entry.2.length) ∧
      getBytes (before ++ (writeEntry entry ++ after))
        (NSMakeRange (ptr + 4 + 4) (intOfBytes (toLE 4 entry.2.length))) = some entry.2 ∧
      (ptr + 4 + 4 + intOfBytes (toLE 4 entry.2.length)).toNat =
        (before ++ writeEntry entry).length := by
  have hkey : (int32LE entry.1).length = 4 := length_int32LE _
  have hfour : (toLE 4 entry.2.length).length = 4 := length_toLE 4 _
  have hentry : (writeEntry entry).length = 8 + entry.2.length := by
    rw [writeEntry, List.length_append, List.length_append, hkey, hfour]
    omega
  have hvalue : (intOfBytes (toLE 4 entry.2.length)).toNat = entry.2.length :=
    toNat_intOfBytes (by omega)
  have hptr4 : (ptr + 4).toNat = before.length + 4 := by
    rw [toNat_add_four (by omega), hptr]
  have hptr8 : (ptr + 4 + 4).toNat = before.length + 4 + 4 := by
    rw [toNat_add_four (by omega), hptr4]
  refine ⟨?_, ?_, ?_, ?_⟩
  · rw [writeEntry, List.append_assoc (int32LE _)]
    exact getBytes_at before _ _ hptr hkey.symm (by omega)
  · rw [writeEntry, List.append_assoc (int32LE _), ← List.append_assoc before,
      List.append_assoc (toLE 4 _)]
    refine getBytes_at (before ++ int32LE _) _ _ ?_ hfour.symm ?_ <;>
      rw [List.length_append] <;> omega
  · rw [writeEntry, List.append_assoc (int32LE _), ← List.append_assoc before,
      List.append_assoc (toLE 4 _), ← List.append_assoc (before ++ int32LE _)]
    refine getBytes_at (before ++ int32LE _ ++ toLE 4 _) _ _ ?_ hvalue ?_ <;>
      rw [List.length_append, List.length_append] <;> omega
  · rw [BitVec.toNat_add, hptr8, hvalue, List.length_append, Nat.mod_eq_of_lt (by omega)]
    omega

/-- **Entries are read from where they were written.** -/
theorem readEntries_at (entries : List (CInt × List UInt8)) (hptr : ptr.toNat = before.length)
    (h : before.length + (entries.flatMap writeEntry).length < 2 ^ 31) :
    readEntries (before ++ entries.flatMap writeEntry) entries.length ptr = some entries := by
  induction entries generalizing before ptr with
  | nil => rfl
  | cons entry entries ih =>
      rw [List.flatMap_cons, List.length_append] at h
      obtain ⟨hkey, hlength, hvalue, hnext⟩ := getBytes_entry entry
        (entries.flatMap writeEntry) hptr (by omega)
      have hrest := ih hnext (by rw [List.length_append]; omega)
      rw [List.append_assoc] at hrest
      rw [List.flatMap_cons, List.length_cons, readEntries]
      simp only [hkey, hlength, hvalue, hrest, Option.bind_eq_bind, Option.bind_some,
        CInt.ofBytes_int32LE, Option.pure_def, Prod.mk.eta]

/-- **The value of a name is found among the entries.** -/
theorem findEntry_at (entries : List (CInt × List UInt8)) (hptr : ptr.toNat = before.length)
    (h : before.length + (entries.flatMap writeEntry).length < 2 ^ 31) :
    findEntry (before ++ entries.flatMap writeEntry) name entries.length ptr =
      some ((entries.find? fun entry => entry.1 = name).map Prod.snd) := by
  induction entries generalizing before ptr with
  | nil => rfl
  | cons entry entries ih =>
      rw [List.flatMap_cons, List.length_append] at h
      obtain ⟨hkey, hlength, hvalue, hnext⟩ := getBytes_entry entry
        (entries.flatMap writeEntry) hptr (by omega)
      have hrest := ih hnext (by rw [List.length_append]; omega)
      rw [List.append_assoc] at hrest
      rw [List.flatMap_cons, List.length_cons, findEntry, hkey, Option.bind_eq_bind,
        Option.bind_some, hlength, Option.bind_some]
      have hread := CInt.ofBytes_int32LE entry.1
      by_cases hname : entry.1 = name
      · rw [if_pos (hread.trans hname), hvalue,
          List.find?_cons_of_pos (by exact decide_eq_true hname)]
        rfl
      · rw [if_neg fun h => hname (hread.symm.trans h), hrest,
          List.find?_cons_of_neg (by rw [decide_eq_true_eq]; exact hname)]

end Read

/-! ### Blobs -/

section Blob

variable {tmpDict : Properties} {name : CInt}

/-- The length of a blob. -/
theorem length_serialize (tmpDict : Properties) :
    (serialize tmpDict).length =
      8 + (tmpDict.entries.map fun entry => 8 + entry.2.length).sum := by
  have hentries : ∀ entries : List (CInt × List UInt8), (entries.flatMap writeEntry).length =
      (entries.map fun entry => 8 + entry.2.length).sum := by
    intro entries
    rw [List.length_flatMap]
    congr 1
    refine List.map_congr_left fun entry _ => ?_
    simp only [writeEntry, List.length_append, length_int32LE, length_toLE]
    omega
  rw [serialize, List.length_append, List.length_append, length_toLE, length_toLE, hentries]
  omega

/-- The number of the entries is got back. -/
theorem readCount_serialize (h : (serialize tmpDict).length < 2 ^ 31) :
    readCount (serialize tmpDict) = some tmpDict.entries.length := by
  have hlength := length_serialize tmpDict
  have hcount : tmpDict.entries.length ≤
      (tmpDict.entries.map fun entry => 8 + entry.2.length).sum := by
    have hle := List.length_le_sum_of_one_le
      (tmpDict.entries.map fun entry => 8 + entry.2.length) fun n hn => by
        obtain ⟨entry, -, rfl⟩ := List.mem_map.mp hn
        omega
    rwa [List.length_map] at hle
  have hversion : getBytes (serialize tmpDict) (NSMakeRange 0 4) = some (toLE 4 0) :=
    getBytes_at [] (toLE 4 0) _ rfl rfl (by decide)
  have hnumber : getBytes (serialize tmpDict) (NSMakeRange 4 4) =
      some (toLE 4 tmpDict.entries.length) :=
    getBytes_at (toLE 4 0) _ _ rfl (length_toLE 4 _).symm (by
      rw [length_toLE, length_toLE]
      decide)
  have hnat := toNat_intOfBytes (n := tmpDict.entries.length) (by omega)
  have hint : (intOfBytes (toLE 4 tmpDict.entries.length)).toInt = tmpDict.entries.length := by
    rw [BitVec.toInt_eq_toNat_of_lt (by omega), hnat]
  rw [readCount, hversion, hnumber]
  exact congrArg some (by rw [hint, Int.toNat_natCast])

/-- The entries of a blob. -/
theorem serialize_eq (tmpDict : Properties) :
    serialize tmpDict =
      (toLE 4 0 ++ toLE 4 tmpDict.entries.length) ++ tmpDict.entries.flatMap writeEntry :=
  (List.append_assoc _ _ _).symm

/-- The entries are put into a map, of which the first with a name counts. -/
theorem lookup_foldl_insertNew (entries : List (CInt × List UInt8)) (tmpDict : Properties) :
    (entries.foldl insertNew tmpDict).lookup name =
      (tmpDict.lookup name).or ((entries.find? fun entry => entry.1 = name).map Prod.snd) := by
  induction entries generalizing tmpDict with
  | nil => rw [List.foldl_nil, List.find?_nil, Option.map_none, Option.or_none]
  | cons entry entries ih =>
      rw [List.foldl_cons, ih, insertNew]
      by_cases hname : entry.1 = name
      · rw [List.find?_cons_of_pos (by exact decide_eq_true hname), hname]
        cases hlookup : tmpDict.lookup name with
        | none =>
            rw [if_neg nofun, OrderedMap.lookup_insert, if_pos rfl]
            rfl
        | some value =>
            rw [if_pos (by exact rfl), hlookup]
            rfl
      · rw [List.find?_cons_of_neg (by rw [decide_eq_true_eq]; exact hname)]
        congr 1
        split
        · rfl
        · rw [OrderedMap.lookup_insert, if_neg (Ne.symm hname)]

/-- **A map is got back from its blob.** -/
theorem readProperties_serialize (h : (serialize tmpDict).length < 2 ^ 31) :
    ∃ read, readProperties (some (serialize tmpDict)) = some read ∧
      ∀ name, read.lookup name = tmpDict.lookup name := by
  have hentries : readEntries (serialize tmpDict) tmpDict.entries.length 8 =
      some tmpDict.entries := by
    rw [serialize_eq]
    refine readEntries_at tmpDict.entries ?_ ?_
    · rw [List.length_append, length_toLE, length_toLE]
      rfl
    · rwa [← List.length_append, ← serialize_eq]
  refine ⟨tmpDict.entries.foldl insertNew OrderedMap.empty, ?_, fun name => ?_⟩
  · rw [readProperties, readCount_serialize h, Option.bind_eq_bind, Option.bind_some, hentries]
    rfl
  · rw [lookup_foldl_insertNew]
    rfl

/-- **A property is found in the blob.** -/
theorem findEntry_serialize (h : (serialize tmpDict).length < 2 ^ 31) :
    findEntry (serialize tmpDict) name tmpDict.entries.length 8 = some (tmpDict.lookup name) := by
  rw [serialize_eq, findEntry_at tmpDict.entries]
  · rfl
  · rw [List.length_append, length_toLE, length_toLE]
    rfl
  · rwa [← List.length_append, ← serialize_eq]

end Blob

/-! ### Runs -/

section Runs

variable {sqlite : SQLite} {rows : PeerRows} {calls : List SetProperty} {call : SetProperty}
  {conversationId : ℤ}

/-- The last call sets its own property and no other. -/
theorem lastValue_snoc (calls : List SetProperty) (call : SetProperty) (conversationId : ℤ)
    (name : CInt) :
    lastValue (calls ++ [call]) conversationId name =
      if call.conversationId = conversationId ∧ call.name = name then call.value
      else lastValue calls conversationId name := by
  rw [lastValue, List.reverse_append, List.reverse_singleton, List.singleton_append,
    List.find?_cons]
  by_cases h : call.conversationId = conversationId ∧ call.name = name
  · rw [decide_eq_true h, if_pos h]
    rfl
  · rw [decide_eq_false h, if_neg h, lastValue]

/-- A property that has a value has a name that was used. -/
theorem mem_names {name : CInt} {value : List UInt8}
    (h : lastValue calls conversationId name = some value) :
    name ∈ (calls.map SetProperty.name).toFinset := by
  obtain ⟨call, hfind, -⟩ := Option.bind_eq_some_iff.mp h
  have hmem := List.mem_reverse.mp (List.mem_of_find?_eq_some hfind)
  have htest := List.find?_some hfind
  rw [decide_eq_true_eq] at htest
  exact List.mem_toFinset.mpr (htest.2 ▸ List.mem_map_of_mem hmem)

/-- The blob of the map of the last values has the length that is counted. -/
theorem length_serialize_eq {tmpDict : Properties}
    (h : ∀ name, tmpDict.lookup name = lastValue calls conversationId name) :
    (serialize tmpDict).length = blobLength calls conversationId := by
  have hnodup : (tmpDict.entries.map Prod.fst).Nodup :=
    List.pairwise_map.mpr (tmpDict.sorted.imp fun hlt => ne_of_lt hlt)
  have hentries : (tmpDict.entries.map fun entry => 8 + entry.2.length).sum =
      ((tmpDict.entries.map Prod.fst).map fun name =>
        ((tmpDict.lookup name).map fun value => 8 + value.length).getD 0).sum := by
    rw [List.map_map]
    congr 1
    refine List.map_congr_left fun entry hentry => ?_
    have hlookup : tmpDict.lookup entry.1 = some entry.2 :=
      OrderedMap.lookup_eq_some_iff.mpr hentry
    rw [Function.comp_apply, hlookup]
    rfl
  rw [length_serialize, hentries, blobLength, ← List.sum_toFinset _ hnodup]
  congr 1
  refine Finset.sum_subset_zero_on_sdiff (fun name hname => ?_) (fun name hname => ?_)
    fun name _ => by rw [h]
  · obtain ⟨entry, hentry, rfl⟩ := List.mem_map.mp (List.mem_toFinset.mp hname)
    exact mem_names ((h _).symm.trans (OrderedMap.lookup_eq_some_iff.mpr hentry))
  · rw [← h]
    cases hlookup : tmpDict.lookup name with
    | none => rfl
    | some value =>
        have hmem := OrderedMap.lookup_eq_some_iff.mp hlookup
        exact absurd (List.mem_toFinset.mpr (List.mem_map_of_mem hmem))
          (Finset.mem_sdiff.mp hname).2

/-- The rows hold the last values: a conversation has the blob of their map, or none and no
values. -/
def Holds (rows : PeerRows) (calls : List SetProperty) : Prop :=
  ∀ conversationId, ∃ tmpDict : Properties,
    (∀ name, tmpDict.lookup name = lastValue calls conversationId name) ∧
      (serialize tmpDict).length < 2 ^ 31 ∧
      ((rows.lookup conversationId).join = some (serialize tmpDict) ∨
        (rows.lookup conversationId).join = none ∧ tmpDict = OrderedMap.empty)

/-- A blob that fits is written. -/
theorem SQLite.write_of_fits {blob : List UInt8} {pid : ℤ} (h : blob.length ≤ sqlite.room pid) :
    sqlite.write rows pid blob = some (rows.insert pid (some blob)) := by
  have hlimit := sqlite.limit_lt
  have hroom := sqlite.room_le pid
  have hlength : (BitVec.ofNat 32 blob.length).toInt = blob.length := toInt_length (by omega)
  rw [SQLite.write, hlength, if_neg (by omega), if_neg (by omega), if_neg (by omega),
    Int.toNat_natCast, List.take_length]

/-- A blob above the limit is lost. -/
theorem SQLite.write_of_long {blob : List UInt8} {pid : ℤ} (hlow : sqlite.lengthLimit < blob.length)
    (hhigh : blob.length < 2 ^ 31) : sqlite.write rows pid blob = some (rows.insert pid none) := by
  have hlength : (BitVec.ofNat 32 blob.length).toInt = blob.length := toInt_length (by omega)
  rw [SQLite.write, hlength, if_neg (by omega), if_pos (by omega)]

/-- The map that a call starts from. -/
theorem readProperties_of_holds (h : Holds rows calls) (conversationId : ℤ) :
    ∃ tmpDict, readProperties ((rows.lookup conversationId).join) = some tmpDict ∧
      ∀ name, tmpDict.lookup name = lastValue calls conversationId name := by
  obtain ⟨tmpDict, hvalues, hlength, hrow | ⟨hrow, rfl⟩⟩ := h conversationId
  · obtain ⟨read, hread, hsame⟩ := readProperties_serialize hlength
    exact ⟨read, by rw [hrow, hread], fun name => (hsame name).trans (hvalues name)⟩
  · exact ⟨OrderedMap.empty, by rw [hrow]; rfl, hvalues⟩

/-- The map after a call. -/
theorem lookup_update {tmpDict : Properties}
    (h : ∀ name, tmpDict.lookup name = lastValue calls call.conversationId name) (name : CInt) :
    (call.update tmpDict).lookup name =
      lastValue (calls ++ [call]) call.conversationId name := by
  rw [lastValue_snoc, SetProperty.update, ← h]
  cases hvalue : call.value with
  | none =>
      rw [OrderedMap.lookup_erase]
      exact if_congr ⟨fun heq => ⟨rfl, heq.symm⟩, fun heq => heq.2.symm⟩ rfl rfl
  | some value =>
      rw [OrderedMap.lookup_insert]
      exact if_congr ⟨fun heq => ⟨rfl, heq.symm⟩, fun heq => heq.2.symm⟩ rfl rfl

/-- **A call whose properties fit keeps that the rows hold the last values.** -/
theorem Holds.step (h : Holds rows calls) (call : SetProperty)
    (hfits : LastFits sqlite (calls ++ [call])) :
    ∃ after, setConversationCustomProperty sqlite rows call = some after ∧
      Holds after (calls ++ [call]) := by
  obtain ⟨tmpDict, hread, hvalues⟩ := readProperties_of_holds h call.conversationId
  have hupdate := lookup_update hvalues
  have hlength := length_serialize_eq hupdate
  have hroom : (serialize (call.update tmpDict)).length ≤ sqlite.room call.conversationId :=
    hlength ▸ hfits call (List.getLast?_append_of_ne_nil _ (List.cons_ne_nil _ _) ▸ rfl)
  refine ⟨rows.insert call.conversationId (some (serialize (call.update tmpDict))), ?_,
    fun conversationId => ?_⟩
  · rw [setConversationCustomProperty, hread]
    exact SQLite.write_of_fits hroom
  · rcases eq_or_ne conversationId call.conversationId with rfl | hne
    · refine ⟨_, hupdate, ?_, Or.inl ?_⟩
      · exact (hroom.trans (sqlite.room_le _)).trans_lt sqlite.limit_lt
      · rw [AList.lookup_insert]
        rfl
    · obtain ⟨other, hother, hshort, hrow⟩ := h conversationId
      refine ⟨other, fun name => ?_, hshort, ?_⟩
      · rw [lastValue_snoc, if_neg fun heq => hne heq.1.symm, hother]
      · rwa [AList.lookup_insert_ne hne]

/-- What the rows hold is read. -/
theorem Holds.read (h : Holds rows calls) (conversationId : ℤ) (name : CInt) :
    conversationCustomProperty rows conversationId name =
      some (lastValue calls conversationId name) := by
  obtain ⟨tmpDict, hvalues, hlength, hrow | ⟨hrow, rfl⟩⟩ := h conversationId
  · rw [conversationCustomProperty, hrow, ← hvalues]
    show (do
      let count ← readCount (serialize tmpDict)
      findEntry (serialize tmpDict) name count 8) = _
    rw [readCount_serialize hlength, Option.bind_eq_bind, Option.bind_some,
      findEntry_serialize hlength]
  · rw [conversationCustomProperty, hrow, ← hvalues]
    rfl

/-- Rows without blobs hold that nothing was set. -/
theorem holds_start (h : ∀ pid, (rows.lookup pid).join = none) : Holds rows [] :=
  fun conversationId => ⟨OrderedMap.empty, fun _ => rfl, by decide,
    Or.inr ⟨h conversationId, rfl⟩⟩

/-- A run in which the properties fit after every call. -/
theorem holds_run (calls : List SetProperty) (hstart : ∀ pid, (rows.lookup pid).join = none)
    (hfits : ∀ done, done <+: calls → LastFits sqlite done) :
    ∃ after, runCalls sqlite rows calls = some after ∧ Holds after calls := by
  induction calls using List.reverseRecOn with
  | nil => exact ⟨rows, rfl, holds_start hstart⟩
  | append_singleton calls call ih =>
      obtain ⟨before, hrun, hbefore⟩ := ih fun done hdone =>
        hfits done (hdone.trans (List.prefix_append _ _))
      obtain ⟨after, hset, hafter⟩ := hbefore.step call (hfits _ (List.prefix_refl _))
      refine ⟨after, ?_, hafter⟩
      rw [runCalls, List.foldlM_append, ← runCalls, hrun, Option.bind_eq_bind, Option.bind_some,
        List.foldlM_cons, hset]
      rfl

/-- **key result**: in every run in which the properties of a conversation fit after each call of
it, every property of every conversation reads as it was set last, at every point. -/
theorem propertiesKept_of_fits (sqlite : SQLite) (rows : PeerRows) (calls : List SetProperty)
    (hstart : ∀ pid, (rows.lookup pid).join = none)
    (hfits : ∀ done, done <+: calls → LastFits sqlite done) :
    ∀ done, done <+: calls → PropertiesKept sqlite rows done := by
  intro done hdone
  obtain ⟨after, hrun, hholds⟩ := holds_run done hstart fun other hother =>
    hfits other (hother.trans hdone)
  exact ⟨after, hrun, fun conversationId name =>
    ⟨hholds.read conversationId name, hholds.read conversationId name⟩⟩

/-- A database with the default limit. -/
def defaultSQLite : SQLite where
  lengthLimit := 1000000000
  room _ := 1000000000
  limit_lt := by decide
  room_le _ := le_rfl

/-- A property is set. -/
theorem propertiesKept_one :
    PropertiesKept defaultSQLite ∅ [⟨1, ⟨5, by decide⟩, some [7]⟩] := by
  refine propertiesKept_of_fits defaultSQLite ∅ _ (fun _ => rfl) (fun done hdone => ?_) _
    (List.prefix_refl _)
  rcases List.prefix_cons_iff.mp hdone with rfl | ⟨rest, rfl, hrest⟩
  · exact fun call hcall => absurd hcall nofun
  · obtain rfl := List.prefix_nil.mp hrest
    intro call hcall
    obtain rfl := Option.mem_some_iff.mp hcall
    decide

/-- A first property that is longer than the limit is lost. -/
theorem not_propertiesKept_of_long {value : List UInt8} (conversationId : ℤ) (name : CInt)
    (hlow : sqlite.lengthLimit < 16 + value.length) (hhigh : 16 + value.length < 2 ^ 31) :
    ¬ PropertiesKept sqlite ∅ [⟨conversationId, name, some value⟩] := by
  rintro ⟨after, hrun, hread⟩
  have hlength : (serialize ((OrderedMap.empty : Properties).insert name value)).length =
      16 + value.length := by
    rw [length_serialize]
    simp only [OrderedMap.insert, OrderedMap.empty, List.filter_nil, List.nil_append, List.map_cons,
      List.map_nil, List.sum_cons, List.sum_nil]
    omega
  have hlost : setConversationCustomProperty sqlite ∅ ⟨conversationId, name, some value⟩ =
      some (AList.insert conversationId none ∅) :=
    SQLite.write_of_long (by rw [SetProperty.update, hlength]; exact hlow)
      (by rw [SetProperty.update, hlength]; exact hhigh)
  rw [runCalls, List.foldlM_cons, hlost] at hrun
  obtain rfl := Option.some.inj hrun
  have hvalue := (hread conversationId name).1
  rw [conversationCustomProperty, AList.lookup_insert, lastValue, List.reverse_singleton,
    List.find?_cons_of_pos (by exact decide_eq_true ⟨rfl, rfl⟩)] at hvalue
  exact absurd (Option.some.inj hvalue) (Option.some_ne_none value).symm

/-- A property of `10 ^ 9` bytes is lost. -/
theorem not_propertiesKept_long :
    ¬ PropertiesKept defaultSQLite ∅ [⟨1, ⟨5, by decide⟩, some (List.replicate 1000000000 0)⟩] := by
  refine not_propertiesKept_of_long 1 ⟨5, by decide⟩ ?_ ?_
  · rw [List.length_replicate, defaultSQLite]
    decide
  · rw [List.length_replicate]
    decide

end Runs

end Telegraph.Database
