import Telegraph.Lib.Bytes
import Telegraph.Lib.Dictionary
import Telegraph.Lib.OrderedMap

/-!
# The Disk Cache

`TGModernCache` keeps values in files, and in a key-value store the time of the last use of each
key, an index of the keys in the order of their last use with the sizes of their files, and a
counter of the uses. The key-value store is an ordered map of byte strings, and the directory a
dictionary by file name.
-/

open Bytes

namespace Telegraph.Cache

/-! ### The key-value store -/

/-- A key of the key-value store. -/
structure RawKey where
  bytes : List UInt8

/-- Keys are compared as `memcmp` does, and a prefix comes first. -/
instance : LinearOrder RawKey :=
  @LinearOrder.lift' RawKey (List ℕ) (@List.instLinearOrder ℕ Nat.instLinearOrder)
    (fun key => key.bytes.map UInt8.toNat) (by
      rintro ⟨bytes⟩ ⟨others⟩ heq
      have hinj : Function.Injective UInt8.toNat := fun _ _ h => UInt8.toNat_inj.mp h
      exact congrArg RawKey.mk (List.map_injective_iff.mpr hinj heq))

/-- `PSLMDBKeyValueReaderWriter`. -/
abbrev KeyValueStore := OrderedMap RawKey (List UInt8)

namespace KeyValueStore

/-- `readValueForRawKey:value:`. -/
def readValueForRawKey (store : KeyValueStore) (key : List UInt8) : Option (List UInt8) :=
  store.lookup ⟨key⟩

/-- `writeValueForRawKey:keyLength:value:valueLength:`. -/
def writeValueForRawKey (store : KeyValueStore) (key value : List UInt8) : KeyValueStore :=
  if key = [] then store else store.insert ⟨key⟩ value

/-- `deleteValueForRawKey:`. -/
def deleteValueForRawKey (store : KeyValueStore) (key : List UInt8) : KeyValueStore :=
  if key = [] then store else store.erase ⟨key⟩

/-- `enumerateKeysAndValuesBetweenLowerBoundKey:…`, with the upper bound exclusive. -/
def enumerateKeysAndValues {σ : Type} (store : KeyValueStore)
    (lowerBoundKey upperBoundKey : List UInt8) (block : σ → RawKey → List UInt8 → σ × Bool)
    (st : σ) : σ :=
  store.enumerate ⟨lowerBoundKey⟩ ⟨upperBoundKey⟩ block st

end KeyValueStore

/-! ### The cache -/

def TGModernCacheKeyspaceGlobalProperties : UInt8 := 1
def TGModernCacheKeyspaceLastUsageByPath : UInt8 := 2
def TGModernCacheKeyspacePathAndSizeByLastUsage : UInt8 := 3
def TGModernCacheKeyspaceLastUsageSortingValue : UInt8 := 4

def TGModernCacheGlobalPropertySize : ℤ := 1

/-- `TGModernCache`: the maximum size, the key-value store and the files of the directory. -/
structure TGModernCache (Path : Type) where
  maxSize : ℕ
  keyValueStore : KeyValueStore := .empty
  files : Dictionary Path (List UInt8) := ∅
  recalculatedCurrentSize : Bool := false

/-- The cast of an `int32_t` to `NSUInteger`. -/
def toNSUInteger (value : ℤ) : ℕ := (value % 18446744073709551616).toNat

/-- What `_evictValuesOfTotalSize:…` collects. -/
structure Eviction (Path : Type) where
  keysToRemove : List (List UInt8) := []
  remainingSize : ℤ
  removedSize : ℕ := 0
  filePathsToRemove : List Path := []

namespace TGModernCache

variable {Path : Type}

/-- The key of the stored size. -/
def currentSizeKey : List UInt8 :=
  TGModernCacheKeyspaceGlobalProperties :: int32LE TGModernCacheGlobalPropertySize

/-- `_getCurrentSize:`. -/
def getCurrentSize (s : TGModernCache Path) : ℕ :=
  match s.keyValueStore.readValueForRawKey currentSizeKey with
  | some value => if value.length = 4 then toNSUInteger (leInt32 value) else 0
  | none => 0

/-- `setCurrentSize:size:`. -/
def setCurrentSize (s : TGModernCache Path) (size : ℕ) : TGModernCache Path :=
  { s with keyValueStore := s.keyValueStore.writeValueForRawKey currentSizeKey (int32LE size) }

/-- `_recalculateCurrentSizeIfNeeded:`. -/
def recalculateCurrentSizeIfNeeded (s : TGModernCache Path) : TGModernCache Path :=
  if s.recalculatedCurrentSize then s
  else
    let currentSize : ℤ := s.keyValueStore.enumerateKeysAndValues
      [TGModernCacheKeyspacePathAndSizeByLastUsage]
      [TGModernCacheKeyspacePathAndSizeByLastUsage + 1]
      (fun currentSize _ value =>
        ((currentSize + leInt32 (value.take 4)).bmod 4294967296, false)) 0
    { s with recalculatedCurrentSize := true }.setCurrentSize (toNSUInteger currentSize)

/-- `_checkCurrentSize:`. -/
def checkCurrentSize (s : TGModernCache Path) : TGModernCache Path :=
  { s with recalculatedCurrentSize := false }.recalculateCurrentSizeIfNeeded

/-- The next sorting value, from the counter of the uses. -/
def nextInvertedSortingValue (store : KeyValueStore) : ℤ :=
  match store.readValueForRawKey [TGModernCacheKeyspaceLastUsageSortingValue] with
  | some value => if value.length = 4 then leInt32 value else 1
  | none => 1

/-- The last use of a key is deleted, and its entry in the index. -/
def deleteLastUsage (store : KeyValueStore) (key : List UInt8) : KeyValueStore :=
  match store.readValueForRawKey (TGModernCacheKeyspaceLastUsageByPath :: key) with
  | some value =>
      (store.deleteValueForRawKey (TGModernCacheKeyspaceLastUsageByPath :: key)).deleteValueForRawKey
        (TGModernCacheKeyspacePathAndSizeByLastUsage :: (value.take 4 ++ key))
  | none => store

/-- `_updateLastAccessDateForKey:size:readerWriter:`; the counter wraps. -/
def updateLastAccessDateForKey (s : TGModernCache Path) (key : List UInt8) (size : ℕ) :
    TGModernCache Path :=
  let nextInvertedSortingValue := nextInvertedSortingValue s.keyValueStore
  let store := s.keyValueStore.writeValueForRawKey [TGModernCacheKeyspaceLastUsageSortingValue]
    (int32LE (nextInvertedSortingValue + 1))
  let nextSortingValue := (int32LE nextInvertedSortingValue).reverse
  let store := (deleteLastUsage store key).writeValueForRawKey
    (TGModernCacheKeyspaceLastUsageByPath :: key) nextSortingValue
  { s with
    keyValueStore := store.writeValueForRawKey
      (TGModernCacheKeyspacePathAndSizeByLastUsage :: (nextSortingValue ++ key))
      (int32LE size ++ key) }

section Files

variable [DecidableEq Path] (filePathForKey : List UInt8 → Path)

/-- The block of `_evictValuesOfTotalSize:…`. -/
def evictBlock (st : Eviction Path) (key : RawKey) (value : List UInt8) :
    Eviction Path × Bool :=
  let size := leInt32 (value.take 4)
  let originalKey := value.drop 4
  let remainingSize := st.remainingSize - size
  ({ keysToRemove := st.keysToRemove ++
       [key.bytes, TGModernCacheKeyspaceLastUsageByPath :: originalKey]
     remainingSize
     removedSize := st.removedSize + toNSUInteger size
     filePathsToRemove := st.filePathsToRemove ++ [filePathForKey originalKey] },
    remainingSize ≤ 0)

/-- What is evicted for a total size. -/
def eviction (s : TGModernCache Path) (totalSize : ℕ) : Eviction Path :=
  s.keyValueStore.enumerateKeysAndValues [TGModernCacheKeyspacePathAndSizeByLastUsage]
    [TGModernCacheKeyspacePathAndSizeByLastUsage + 1] (evictBlock filePathForKey)
    { remainingSize := totalSize }

/-- `_evictValuesOfTotalSize:removedSize:readerWriter:`. -/
def evictValuesOfTotalSize (s : TGModernCache Path) (totalSize : ℕ) : TGModernCache Path :=
  let e := s.eviction filePathForKey totalSize
  { s with
    files := e.filePathsToRemove.foldl (fun files path => files.erase path) s.files
    keyValueStore := e.keysToRemove.foldl KeyValueStore.deleteValueForRawKey s.keyValueStore }

/-- `setValue:forKey:`. -/
def setValue (s : TGModernCache Path) (value key : List UInt8) : TGModernCache Path :=
  let s := s.checkCurrentSize.recalculateCurrentSizeIfNeeded
  let currentSize := s.getCurrentSize
  let full := s.maxSize < currentSize + value.length
  let removedSize := (s.eviction filePathForKey value.length).removedSize
  let currentSize := if full then currentSize - removedSize else currentSize
  let s := if full then s.evictValuesOfTotalSize filePathForKey value.length else s
  let s := { s with files := s.files.insert (filePathForKey key) value }
  let s := s.setCurrentSize (currentSize + value.length)
  s.updateLastAccessDateForKey key value.length

/-- The use of a key whose file was found. -/
def useKey (s : TGModernCache Path) (key : List UInt8) (size : ℕ) : TGModernCache Path :=
  match s.keyValueStore.readValueForRawKey (TGModernCacheKeyspaceLastUsageByPath :: key) with
  | some _ => s.updateLastAccessDateForKey key size
  | none => s

/-- `getValueForKey:completion:`, and the value that is given. -/
def getValueForKey (s : TGModernCache Path) (key : List UInt8) :
    TGModernCache Path × Option (List UInt8) :=
  match s.files.lookup (filePathForKey key) with
  | some data => (s.useKey key data.length, some data)
  | none => (s, none)

/-- `getValuePathForKey:completion:`, and the path that is given. -/
def getValuePathForKey (s : TGModernCache Path) (key : List UInt8) :
    TGModernCache Path × Option Path :=
  match s.files.lookup (filePathForKey key) with
  | some data => (s.useKey key data.length, some (filePathForKey key))
  | none => (s, none)

/-- `cleanup`. -/
def cleanup (s : TGModernCache Path) : TGModernCache Path :=
  { s with keyValueStore := .empty, files := ∅ }

/-! ### The machine -/

end Files

end TGModernCache

/-- A call of the cache. -/
inductive CacheCall where
  | setValue (value key : List UInt8)
  | getValueForKey (key : List UInt8)
  | getValuePathForKey (key : List UInt8)
  | cleanup

/-- The state after a call. -/
def TGModernCache.step {Path : Type} [DecidableEq Path] (filePathForKey : List UInt8 → Path)
    (s : TGModernCache Path) : CacheCall → TGModernCache Path
  | .setValue value key => s.setValue filePathForKey value key
  | .getValueForKey key => (s.getValueForKey filePathForKey key).1
  | .getValuePathForKey key => (s.getValuePathForKey filePathForKey key).1
  | .cleanup => s.cleanup

end Telegraph.Cache
