import Telegraph.Cache.ModernCache
import Telegraph.Lib.LeastRecentlyUsed
import Telegraph.Lib.Machine

/-!
# The Disk Cache Keeps the Last Used Values

The files of the disk cache, the table of last uses and the index hold the same keys. They
represent a list of entries in the order of their last use, and every call does to the three of
them what it does to the list. The index is ordered by its keys as byte strings: a sorting value
is written with its most significant byte first.

## Main results

* `Represents`: what the key-value store and the files say of the entries.
* `between_index`: **the index lists the entries in the order of their last use.**
* `represents_setValue`, `represents_useKey`: what a call does to the entries.
* `modernCache_consistent`: the cache is consistent, bounded and least recently used in every
  run.
-/

open Bytes LeastRecentlyUsed Machine

namespace Telegraph.Cache

/-! ### Fields -/

section Fields

theorem int32LE_natCast (n : ℕ) : int32LE n = toLE 4 (n % 4294967296) := by
  rw [int32LE]
  congr 1

/-- `CFSwapInt32` of a sorting value. -/
theorem reverse_int32LE {n : ℕ} (h : n < 4294967296) : (int32LE n).reverse = toBE 4 n := by
  rw [int32LE_natCast, Nat.mod_eq_of_lt h, toBE]

theorem int32LE_congr {v w : ℤ} (h : v % 4294967296 = w % 4294967296) : int32LE v = int32LE w := by
  rw [int32LE, int32LE, h]

theorem int32LE_bmod (v : ℤ) : int32LE (v.bmod 4294967296) = int32LE v :=
  int32LE_congr (Int.bmod_emod)

theorem int32LE_bmod_add_one (v : ℤ) :
    int32LE (v.bmod 4294967296 + 1) = int32LE (v + 1) := by
  have hmod : v.bmod 4294967296 % 4294967296 = v % 4294967296 := Int.bmod_emod
  refine int32LE_congr ?_
  omega

theorem leInt32_size {n : ℕ} (h : n < 2147483648) : leInt32 (int32LE n) = n :=
  leInt32_int32LE_of_fits (by omega) (by omega)

theorem toNSUInteger_size {n : ℕ} (h : n < 2147483648) : toNSUInteger n = n := by
  rw [toNSUInteger]
  omega

end Fields

/-! ### The key-value store -/

section Store

variable {store : KeyValueStore} {key value : List UInt8} {other : RawKey}

theorem lookup_write (store : KeyValueStore) (hkey : key ≠ []) (value : List UInt8)
    (other : RawKey) : (store.writeValueForRawKey key value).lookup other =
      if other = ⟨key⟩ then some value else store.lookup other := by
  rw [KeyValueStore.writeValueForRawKey, if_neg hkey, OrderedMap.lookup_insert]

theorem lookup_delete (store : KeyValueStore) (hkey : key ≠ []) (other : RawKey) :
    (store.deleteValueForRawKey key).lookup other =
      if other = ⟨key⟩ then none else store.lookup other := by
  rw [KeyValueStore.deleteValueForRawKey, if_neg hkey, OrderedMap.lookup_erase]

theorem lookup_foldl_delete {keys : List (List UInt8)} (hkeys : ∀ key ∈ keys, key ≠ [])
    (store : KeyValueStore) (other : RawKey) :
    (keys.foldl KeyValueStore.deleteValueForRawKey store).lookup other =
      if other.bytes ∈ keys then none else store.lookup other := by
  induction keys generalizing store with
  | nil => rw [List.foldl_nil, if_neg List.not_mem_nil]
  | cons key keys ih =>
      rw [List.foldl_cons, ih fun key hkey => hkeys key (List.mem_cons_of_mem _ hkey),
        lookup_delete store (hkeys key List.mem_cons_self)]
      by_cases heq : other = ⟨key⟩
      · rw [if_pos heq, heq, if_pos List.mem_cons_self, ite_self]
      · have hne : other.bytes ≠ key := fun h => heq (by rw [← h])
        simp only [if_neg heq, List.mem_cons, hne, false_or]

/-- The keys of a keyspace. -/
theorem mem_keyspace (key : RawKey) :
    (⟨[3]⟩ : RawKey) ≤ key ∧ key < ⟨[4]⟩ ↔ ∃ bytes, key = ⟨3 :: bytes⟩ := by
  have hlt : ∀ a b : RawKey, a < b ↔
      List.Lex (· < ·) (a.bytes.map UInt8.toNat) (b.bytes.map UInt8.toNat) :=
    fun _ _ => Iff.rfl
  rw [← not_lt, hlt, hlt]
  obtain ⟨bytes⟩ := key
  cases bytes with
  | nil => simp
  | cons first bytes =>
      have hfirst : first = 3 ↔ first.toNat = 3 :=
        ⟨fun h => h ▸ rfl, fun h => UInt8.toNat_inj.mp h⟩
      simp only [List.map_cons, List.map_nil, List.cons_lex_cons_iff, List.not_lex_nil,
        and_false, or_false, RawKey.mk.injEq, List.cons.injEq, exists_and_left, exists_eq',
        and_true, hfirst]
      show (¬ first.toNat < 3) ∧ first.toNat < 4 ↔ _
      omega

end Store

/-! ### The entries of the cache -/

/-- The entries of the cache, in the order of their last use. -/
abbrev LastUses := Recency (List UInt8) (List UInt8)

/-- The key of an entry in the index: its sorting value, and its key. -/
def indexKey (entry : Entry (List UInt8) (List UInt8)) : RawKey :=
  ⟨3 :: (toBE 4 entry.stamp ++ entry.key)⟩

/-- The value of an entry in the index: the size of its file, and its key. -/
def indexValue (entry : Entry (List UInt8) (List UInt8)) : List UInt8 :=
  int32LE entry.value.length ++ entry.key

/-- The key-value store holds the counter, the last uses and the index of the entries. -/
structure StoreRepresents (store : KeyValueStore) (r : LastUses) : Prop where
  counter : store.lookup ⟨[4]⟩ = if r.clock = 0 then none else some (int32LE (r.clock + 1))
  usage : ∀ key, store.lookup ⟨2 :: key⟩ = (r.find key).map fun entry => toBE 4 entry.stamp
  index : ∀ bytes value, store.lookup ⟨3 :: bytes⟩ = some value ↔
    ∃ entry ∈ r.entries, (⟨3 :: bytes⟩ : RawKey) = indexKey entry ∧ value = indexValue entry

/-- The files are those of the entries. -/
structure FilesRepresent {Path : Type} [DecidableEq Path] (filePathForKey : List UInt8 → Path)
    (files : Dictionary Path (List UInt8)) (r : LastUses) : Prop where
  file : ∀ key, files.lookup (filePathForKey key) = (r.find key).map Entry.value
  names : ∀ path ∈ files, ∃ key, path = filePathForKey key

section Represents

variable {store : KeyValueStore} {r : LastUses}

theorem indexKey_inj {entry other : Entry (List UInt8) (List UInt8)}
    (h : indexKey entry = indexKey other) :
    toBE 4 entry.stamp = toBE 4 other.stamp ∧ entry.key = other.key := by
  have hbytes := congrArg RawKey.bytes h
  simp only [indexKey, List.cons.injEq, true_and] at hbytes
  exact List.append_inj hbytes (by rw [length_toBE, length_toBE])

/-- Only what is not of the entries changes. -/
theorem StoreRepresents.congr (h : StoreRepresents store r) {store' : KeyValueStore}
    (hlookup : ∀ keyspace bytes, keyspace ≠ 1 →
      store'.lookup ⟨keyspace :: bytes⟩ = store.lookup ⟨keyspace :: bytes⟩) :
    StoreRepresents store' r := by
  refine ⟨?_, fun key => ?_, fun bytes value => ?_⟩
  · rw [hlookup 4 [] (by decide)]
    exact h.counter
  · rw [hlookup 2 key (by decide)]
    exact h.usage key
  · rw [hlookup 3 bytes (by decide)]
    exact h.index bytes value

/-- **The index lists the entries in the order of their last use.** -/
theorem StoreRepresents.between_index (h : StoreRepresents store r)
    (hclock : r.clock < 4294967296) :
    store.between ⟨[3]⟩ ⟨[4]⟩ = r.entries.map fun entry => (indexKey entry, indexValue entry) := by
  refine OrderedMap.between_eq (List.pairwise_map.mpr ?_) fun key value => ?_
  · refine r.sorted.imp_of_mem fun {entry other} hentry hother hlt => ?_
    have hstamp : other.stamp < 256 ^ 4 := Nat.lt_of_le_of_lt (r.stamped other hother).2 hclock
    exact List.Lex.cons (lex_toBE hlt hstamp _ _)
  · rw [mem_keyspace]
    constructor
    · intro hmem
      obtain ⟨entry, hentry, heq⟩ := List.mem_map.mp hmem
      obtain ⟨rfl, rfl⟩ := Prod.mk.inj heq
      exact ⟨(h.index _ _).mpr ⟨entry, hentry, rfl, rfl⟩, _, rfl⟩
    · rintro ⟨hlookup, bytes, rfl⟩
      obtain ⟨entry, hentry, hkey, rfl⟩ := (h.index _ _).mp hlookup
      rw [hkey]
      exact List.mem_map_of_mem hentry

/-- The value of the counter. -/
theorem StoreRepresents.nextInvertedSortingValue (h : StoreRepresents store r) :
    TGModernCache.nextInvertedSortingValue store = ((r.clock : ℤ) + 1).bmod 4294967296 := by
  have hread : store.readValueForRawKey [TGModernCacheKeyspaceLastUsageSortingValue] =
      if r.clock = 0 then none else some (int32LE (r.clock + 1)) := h.counter
  rw [TGModernCache.nextInvertedSortingValue, hread]
  by_cases hzero : r.clock = 0
  · rw [if_pos hzero, hzero]
    rfl
  · rw [if_neg hzero]
    simp only [length_int32LE, if_true]
    exact leInt32_int32LE _

/-- The last use of a key is deleted with its entry in the index. -/
theorem lookup_deleteLastUsage {entry : Option (Entry (List UInt8) (List UInt8))}
    {key : List UInt8} (hfind : store.lookup ⟨2 :: key⟩ = entry.map fun entry => toBE 4 entry.stamp)
    (hkey : ∀ found ∈ entry, found.key = key) (other : RawKey) (hother : other ≠ ⟨2 :: key⟩) :
    (TGModernCache.deleteLastUsage store key).lookup other =
      if entry.map indexKey = some other then none else store.lookup other := by
  have hread : store.readValueForRawKey (TGModernCacheKeyspaceLastUsageByPath :: key) =
      entry.map fun entry => toBE 4 entry.stamp := hfind
  rw [TGModernCache.deleteLastUsage, hread]
  cases entry with
  | none => simp
  | some found =>
      have htake : (toBE 4 found.stamp).take 4 = toBE 4 found.stamp :=
        List.take_of_length_le (by rw [length_toBE])
      obtain rfl := hkey found rfl
      simp only [Option.map_some, htake, Option.some.injEq, eq_comm (a := indexKey found)]
      rw [lookup_delete _ (List.cons_ne_nil _ _), lookup_delete _ (List.cons_ne_nil _ _)]
      have hne : other ≠ ⟨TGModernCacheKeyspaceLastUsageByPath :: found.key⟩ := hother
      rw [if_neg hne]
      rfl

/-- What the key-value store holds after a use of a key. -/
theorem lookup_updateLastAccessDateForKey {Path : Type} {s : TGModernCache Path}
    (h : StoreRepresents s.keyValueStore r) (hclock : r.clock + 1 < 4294967296)
    (key : List UInt8) (size : ℕ) (other : RawKey) :
    (s.updateLastAccessDateForKey key size).keyValueStore.lookup other =
      if other = ⟨3 :: (toBE 4 (r.clock + 1) ++ key)⟩ then some (int32LE size ++ key)
      else if other = ⟨2 :: key⟩ then some (toBE 4 (r.clock + 1))
      else if (r.find key).map indexKey = some other then none
      else if other = ⟨[4]⟩ then some (int32LE (r.clock + 1 + 1))
      else s.keyValueStore.lookup other := by
  have hsorting : (int32LE (((r.clock : ℤ) + 1).bmod 4294967296)).reverse =
      toBE 4 (r.clock + 1) := by
    rw [int32LE_bmod]
    exact_mod_cast reverse_int32LE hclock
  have hcounter := lookup_write s.keyValueStore (List.cons_ne_nil 4 [])
    (int32LE ((r.clock : ℤ) + 1 + 1))
  simp only [TGModernCache.updateLastAccessDateForKey, h.nextInvertedSortingValue, hsorting,
    int32LE_bmod_add_one]
  rw [lookup_write _ (List.cons_ne_nil _ _), lookup_write _ (List.cons_ne_nil _ _)]
  by_cases hindex : other = ⟨3 :: (toBE 4 (r.clock + 1) ++ key)⟩
  · rw [if_pos hindex]
    exact if_pos hindex
  rw [if_neg hindex]
  refine (if_neg hindex).trans ?_
  by_cases husage : other = ⟨2 :: key⟩
  · rw [if_pos husage]
    exact if_pos husage
  rw [if_neg husage]
  refine (if_neg husage).trans ?_
  have hfind := hcounter ⟨2 :: key⟩
  rw [if_neg (by simp), h.usage] at hfind
  rw [← hcounter other]
  exact lookup_deleteLastUsage hfind
    (fun found hfound => (Recency.find_eq_some_iff.mp hfound).2) other husage

/-- **A use of a key is a use of its entry.** -/
theorem storeRepresents_updateLastAccessDateForKey {Path : Type} {s : TGModernCache Path}
    (h : StoreRepresents s.keyValueStore r) (hclock : r.clock + 1 < 4294967296)
    (key value : List UInt8) :
    StoreRepresents (s.updateLastAccessDateForKey key value.length).keyValueStore
      (r.touch key value) := by
  have hlookup := lookup_updateLastAccessDateForKey h hclock key value.length
  refine ⟨?_, fun other => ?_, fun bytes other => ?_⟩
  · rw [hlookup, if_neg (by simp), if_neg (by simp), if_neg (by simp [indexKey]), if_pos rfl]
    simp [Recency.touch]
  · rw [hlookup, if_neg (by simp), Recency.find_touch]
    by_cases hkey : other = key
    · rw [if_pos (by rw [hkey]), if_pos hkey]
      rfl
    · rw [if_neg (by simpa using hkey), if_neg hkey, if_neg (by simp [indexKey]),
        if_neg (by simp)]
      exact h.usage other
  · rw [hlookup]
    by_cases hnew : (⟨3 :: bytes⟩ : RawKey) = ⟨3 :: (toBE 4 (r.clock + 1) ++ key)⟩
    · rw [if_pos hnew]
      constructor
      · intro hvalue
        exact ⟨⟨r.clock + 1, key, value⟩, Recency.mem_touch.mpr (.inr rfl), hnew,
          (Option.some.inj hvalue).symm⟩
      · rintro ⟨entry, hentry, hindex, rfl⟩
        rcases Recency.mem_touch.mp hentry with ⟨-, hne⟩ | rfl
        · have hnew : ⟨3 :: bytes⟩ = indexKey ⟨r.clock + 1, key, value⟩ := hnew
          exact absurd (indexKey_inj (hindex.symm.trans hnew)).2 hne
        · rfl
    · have hcounter : (⟨3 :: bytes⟩ : RawKey) ≠ ⟨[4]⟩ := by simp
      rw [if_neg hnew, if_neg (by simp), if_neg hcounter]
      constructor
      · intro hvalue
        split at hvalue
        case isTrue => cases hvalue
        case isFalse hold =>
          obtain ⟨entry, hentry, hindex, rfl⟩ := (h.index bytes other).mp hvalue
          refine ⟨entry, Recency.mem_touch.mpr (.inl ⟨hentry, fun hkey => hold ?_⟩), hindex, rfl⟩
          rw [Recency.find_eq_some_iff.mpr ⟨hentry, hkey⟩, hindex]
          rfl
      · rintro ⟨entry, hentry, hindex, rfl⟩
        rcases Recency.mem_touch.mp hentry with ⟨hentry, hne⟩ | rfl
        · have hold : (r.find key).map indexKey ≠ some ⟨3 :: bytes⟩ := by
            intro hmap
            obtain ⟨found, hfound, hkey⟩ := Option.map_eq_some_iff.mp hmap
            have hsame := (indexKey_inj (hkey.trans hindex)).2
            exact hne (hsame.symm.trans (Recency.find_eq_some_iff.mp hfound).2)
          rw [if_neg hold]
          exact (h.index bytes _).mpr ⟨entry, hentry, hindex, rfl⟩
        · exact absurd hindex hnew

end Represents

/-! ### Sizes and evictions -/

section Evictions

variable {store : KeyValueStore} {r : LastUses}

/-- The size of an entry, read from the index. -/
theorem size_indexValue (entry : Entry (List UInt8) (List UInt8))
    (h : entry.value.length < 2147483648) :
    leInt32 ((indexValue entry).take 4) = entry.value.length := by
  rw [indexValue, List.take_left' (length_int32LE _), leInt32_size h]

/-- The key of an entry, read from the index. -/
theorem key_indexValue (entry : Entry (List UInt8) (List UInt8)) :
    (indexValue entry).drop 4 = entry.key := by
  rw [indexValue, List.drop_left' (length_int32LE _)]

/-- The sizes of the index are added up. -/
theorem foldUntil_sizes (entries : List (Entry (List UInt8) (List UInt8))) {currentSize : ℕ}
    (h : currentSize + total List.length entries < 2147483648) :
    OrderedMap.foldUntil
      (fun (currentSize : ℤ) (_ : RawKey) (value : List UInt8) =>
        ((currentSize + leInt32 (value.take 4)).bmod 4294967296, false))
      (entries.map fun entry => (indexKey entry, indexValue entry)) currentSize =
      (currentSize + total List.length entries : ℕ) := by
  induction entries generalizing currentSize with
  | nil => rfl
  | cons entry entries ih =>
      rw [total_cons] at h ⊢
      have hwrap : ((currentSize : ℤ) + entry.value.length).bmod 4294967296 =
          (currentSize + entry.value.length : ℕ) := by
        rw [Int.bmod_eq_of_le] <;> omega
      rw [List.map_cons, OrderedMap.foldUntil]
      simp only [Bool.false_eq_true, if_false, size_indexValue entry (by omega), hwrap]
      rw [ih (by omega), Nat.add_assoc]

/-- What is evicted are the oldest entries. -/
theorem foldUntil_evictBlock {Path : Type} [DecidableEq Path]
    (filePathForKey : List UInt8 → Path) {entries : List (Entry (List UInt8) (List UInt8))}
    (hsize : total List.length entries < 2147483648) {n : ℕ} {st : Eviction Path}
    (hremaining : st.remainingSize = n) :
    ∃ remainingSize, OrderedMap.foldUntil (TGModernCache.evictBlock filePathForKey)
      (entries.map fun entry => (indexKey entry, indexValue entry)) st =
      { keysToRemove := st.keysToRemove ++ (evicted List.length n entries).flatMap fun entry =>
          [(indexKey entry).bytes, 2 :: entry.key]
        remainingSize
        removedSize := st.removedSize + total List.length (evicted List.length n entries)
        filePathsToRemove := st.filePathsToRemove ++
          (evicted List.length n entries).map fun entry => filePathForKey entry.key } := by
  induction entries generalizing n st with
  | nil => exact ⟨st.remainingSize, by simp [OrderedMap.foldUntil, evicted]⟩
  | cons entry entries ih =>
      rw [total_cons] at hsize
      have hentry := size_indexValue entry (by omega)
      have hcast : toNSUInteger entry.value.length = entry.value.length :=
        toNSUInteger_size (by omega)
      simp only [List.map_cons, OrderedMap.foldUntil, TGModernCache.evictBlock, hentry,
        key_indexValue, hcast, hremaining, decide_eq_true_eq, evicted,
        TGModernCacheKeyspaceLastUsageByPath]
      by_cases hstop : n ≤ entry.value.length
      · have hle : (n : ℤ) - entry.value.length ≤ 0 := by omega
        simp only [hle, if_true, if_pos hstop]
        exact ⟨(n : ℤ) - entry.value.length, by simp [total]⟩
      · have hgt : ¬ (n : ℤ) - entry.value.length ≤ 0 := by omega
        simp only [hgt, if_false, if_neg hstop]
        have hrest : (n : ℤ) - entry.value.length = (n - entry.value.length : ℕ) := by omega
        obtain ⟨remainingSize, heq⟩ := ih (by omega) (show Eviction.remainingSize
          ⟨st.keysToRemove ++ [(indexKey entry).bytes, 2 :: entry.key],
            (n : ℤ) - entry.value.length, st.removedSize + entry.value.length,
            st.filePathsToRemove ++ [filePathForKey entry.key]⟩ = _ from hrest)
        rw [heq]
        exact ⟨remainingSize, by simp [Nat.add_assoc]⟩

/-- What is evicted for a total size. -/
theorem eviction_eq {Path : Type} [DecidableEq Path] (filePathForKey : List UInt8 → Path)
    {s : TGModernCache Path} (h : StoreRepresents s.keyValueStore r)
    (hclock : r.clock < 4294967296) (hsize : total List.length r.entries < 2147483648) (n : ℕ) :
    ∃ remainingSize, s.eviction filePathForKey n =
      { keysToRemove := (evicted List.length n r.entries).flatMap fun entry =>
          [(indexKey entry).bytes, 2 :: entry.key]
        remainingSize
        removedSize := total List.length (evicted List.length n r.entries)
        filePathsToRemove :=
          (evicted List.length n r.entries).map fun entry => filePathForKey entry.key } := by
  obtain ⟨remainingSize, heq⟩ := foldUntil_evictBlock filePathForKey hsize
    (show Eviction.remainingSize { remainingSize := n } = (n : ℤ) from rfl)
  refine ⟨remainingSize, ?_⟩
  have hbounds : s.keyValueStore.between ⟨[TGModernCacheKeyspacePathAndSizeByLastUsage]⟩
      ⟨[TGModernCacheKeyspacePathAndSizeByLastUsage + 1]⟩ =
      r.entries.map fun entry => (indexKey entry, indexValue entry) := h.between_index hclock
  rw [TGModernCache.eviction, KeyValueStore.enumerateKeysAndValues, OrderedMap.enumerate_eq,
    hbounds, heq]
  simp

theorem mem_keysToRemove {entries : List (Entry (List UInt8) (List UInt8))} {bytes : List UInt8} :
    bytes ∈ (entries.flatMap fun entry => [(indexKey entry).bytes, 2 :: entry.key]) ↔
      (∃ entry ∈ entries, bytes = (indexKey entry).bytes) ∨
        ∃ entry ∈ entries, bytes = 2 :: entry.key := by
  simp only [List.mem_flatMap, List.mem_cons, List.not_mem_nil, or_false, and_or_left, exists_or]

/-- The key-value store without the entries that are evicted. -/
theorem StoreRepresents.evict (h : StoreRepresents store r) (n : ℕ) :
    StoreRepresents (((evicted List.length n r.entries).flatMap fun entry =>
      [(indexKey entry).bytes, 2 :: entry.key]).foldl KeyValueStore.deleteValueForRawKey store)
      (r.evict List.length n) := by
  have hkeys : ∀ key ∈ (evicted List.length n r.entries).flatMap fun entry =>
      [(indexKey entry).bytes, 2 :: entry.key], key ≠ [] := by
    intro key hkey
    rcases mem_keysToRemove.mp hkey with ⟨entry, -, rfl⟩ | ⟨entry, -, rfl⟩
    · exact List.cons_ne_nil _ _
    · exact List.cons_ne_nil _ _
  have hsub : ∀ entry ∈ evicted List.length n r.entries, entry ∈ r.entries := fun entry hentry =>
    evicted_append_kept List.length n r.entries ▸ List.mem_append_left _ hentry
  refine ⟨?_, fun key => ?_, fun bytes value => ?_⟩
  · rw [lookup_foldl_delete hkeys, if_neg]
    · exact h.counter
    · intro hmem
      rcases mem_keysToRemove.mp hmem with ⟨entry, -, heq⟩ | ⟨entry, -, heq⟩
      · cases heq
      · cases heq
  · rw [lookup_foldl_delete hkeys, Recency.find_evict]
    have hiff : (2 :: key ∈ (evicted List.length n r.entries).flatMap fun entry =>
        [(indexKey entry).bytes, 2 :: entry.key]) ↔
        key ∈ (evicted List.length n r.entries).map Entry.key := by
      rw [mem_keysToRemove, List.mem_map]
      constructor
      · rintro (⟨entry, -, heq⟩ | ⟨entry, hentry, heq⟩)
        · cases heq
        · exact ⟨entry, hentry, (List.cons.inj heq).2.symm⟩
      · rintro ⟨entry, hentry, rfl⟩
        exact .inr ⟨entry, hentry, rfl⟩
    by_cases hkey : key ∈ (evicted List.length n r.entries).map Entry.key
    · rw [if_pos (hiff.mpr hkey), if_pos hkey]
      rfl
    · rw [if_neg (mt hiff.mp hkey), if_neg hkey]
      exact h.usage key
  · rw [lookup_foldl_delete hkeys]
    constructor
    · intro hlookup
      split at hlookup
      case isTrue => cases hlookup
      case isFalse hnot =>
        obtain ⟨entry, hentry, hindex, rfl⟩ := (h.index bytes value).mp hlookup
        refine ⟨entry, (Recency.mem_evict _).mpr ⟨hentry, fun hkey => hnot ?_⟩, hindex, rfl⟩
        obtain ⟨other, hother, hsame⟩ := List.mem_map.mp hkey
        obtain rfl := Recency.eq_of_key_eq (hsub other hother) hentry hsame
        exact mem_keysToRemove.mpr (.inl ⟨other, hother, congrArg RawKey.bytes hindex⟩)
    · rintro ⟨entry, hentry, hindex, rfl⟩
      obtain ⟨hentry, hkey⟩ := (Recency.mem_evict _).mp hentry
      rw [if_neg]
      · exact (h.index bytes _).mpr ⟨entry, hentry, hindex, rfl⟩
      · intro hmem
        rcases mem_keysToRemove.mp hmem with ⟨other, hother, heq⟩ | ⟨other, -, heq⟩
        · have hsame : indexKey other = indexKey entry := by
            rw [← hindex]
            exact congrArg RawKey.mk heq.symm
          exact hkey ((indexKey_inj hsame).2 ▸ List.mem_map_of_mem hother)
        · cases heq

variable {Path : Type} [DecidableEq Path] {filePathForKey : List UInt8 → Path}
  {files : Dictionary Path (List UInt8)}

theorem lookup_foldl_erase (paths : List Path) (files : Dictionary Path (List UInt8))
    (path : Path) : (paths.foldl (fun files path => files.erase path) files).lookup path =
      if path ∈ paths then none else files.lookup path := by
  induction paths generalizing files with
  | nil => rw [List.foldl_nil, if_neg List.not_mem_nil]
  | cons first paths ih =>
      rw [List.foldl_cons, ih, Dictionary.lookup_erase_ite]
      by_cases heq : path = first
      · rw [if_pos heq, heq, if_pos List.mem_cons_self, ite_self]
      · rw [if_neg heq]
        simp only [List.mem_cons, heq, false_or]

/-- The files without those that are evicted. -/
theorem FilesRepresent.evict (hinj : Function.Injective filePathForKey)
    (h : FilesRepresent filePathForKey files r) (n : ℕ) :
    FilesRepresent filePathForKey (((evicted List.length n r.entries).map fun entry =>
      filePathForKey entry.key).foldl (fun files path => files.erase path) files)
      (r.evict List.length n) := by
  refine ⟨fun key => ?_, fun path hpath => ?_⟩
  · rw [lookup_foldl_erase, Recency.find_evict]
    have hiff : filePathForKey key ∈ ((evicted List.length n r.entries).map fun entry =>
        filePathForKey entry.key) ↔ key ∈ (evicted List.length n r.entries).map Entry.key := by
      simp only [List.mem_map]
      exact exists_congr fun entry => and_congr_right fun _ => hinj.eq_iff
    by_cases hkey : key ∈ (evicted List.length n r.entries).map Entry.key
    · rw [if_pos (hiff.mpr hkey), if_pos hkey]
      rfl
    · rw [if_neg (mt hiff.mp hkey), if_neg hkey]
      exact h.file key
  · rw [← AList.lookup_isSome, lookup_foldl_erase] at hpath
    split at hpath
    · cases hpath
    · exact h.names path (AList.lookup_isSome.mp hpath)

/-- A file is written for a key. -/
theorem FilesRepresent.touch (hinj : Function.Injective filePathForKey)
    (h : FilesRepresent filePathForKey files r) (key value : List UInt8) :
    FilesRepresent filePathForKey (files.insert (filePathForKey key) value)
      (r.touch key value) := by
  refine ⟨fun other => ?_, fun path hpath => ?_⟩
  · rw [Dictionary.lookup_insert_ite, Recency.find_touch]
    by_cases hkey : other = key
    · rw [if_pos (by rw [hkey]), if_pos hkey]
      rfl
    · rw [if_neg (fun heq => hkey (hinj heq)), if_neg hkey]
      exact h.file other
  · rcases (AList.mem_insert _).mp hpath with rfl | hpath
    · exact ⟨key, rfl⟩
    · exact h.names path hpath

end Evictions

/-! ### Calls -/

/-- The key-value store and the files represent the entries. -/
structure Represents {Path : Type} [DecidableEq Path] (filePathForKey : List UInt8 → Path)
    (s : TGModernCache Path) (r : LastUses) : Prop where
  store : StoreRepresents s.keyValueStore r
  files : FilesRepresent filePathForKey s.files r

/-- Whether a call stores or looks for a value. -/
def CacheCall.isAccess : CacheCall → Bool
  | .cleanup => false
  | _ => true

/-- What a call does to the entries. -/
def callUses (maxSize : ℕ) (r : LastUses) : CacheCall → LastUses
  | .setValue value key => r.store List.length maxSize key value
  | .getValueForKey key => r.use key
  | .getValuePathForKey key => r.use key
  | .cleanup => .empty

/-- The total size of the files. -/
def TGModernCache.filesSize {Path : Type} (s : TGModernCache Path) : ℕ :=
  (s.files.entries.map fun file => file.2.length).sum

section Calls

variable {Path : Type} [DecidableEq Path] {filePathForKey : List UInt8 → Path}
  {s : TGModernCache Path} {r : LastUses}

/-- The total size of entries is the sum of their lengths. -/
theorem total_length_eq_sum (entries : List (Entry (List UInt8) (List UInt8))) :
    total List.length entries = (entries.map fun entry => entry.value.length).sum := by
  induction entries with
  | nil => rfl
  | cons entry entries ih => rw [total_cons, ih, List.map_cons, List.sum_cons]

/-- The total size of the files is that of the entries. -/
theorem FilesRepresent.filesSize (hinj : Function.Injective filePathForKey)
    (h : FilesRepresent filePathForKey s.files r) : s.filesSize = total List.length r.entries := by
  have hperm : s.files.entries.Perm (r.entries.map fun entry =>
      (⟨filePathForKey entry.key, entry.value⟩ : Sigma fun _ : Path => List UInt8)) := by
    refine (List.perm_ext_iff_of_nodup s.files.nodupKeys.nodup ?_).mpr ?_
    · refine List.Nodup.of_map Sigma.fst ?_
      have hmap : (r.entries.map fun entry =>
          (⟨filePathForKey entry.key, entry.value⟩ : Sigma fun _ : Path => List UInt8)).map
            Sigma.fst = (r.entries.map Entry.key).map filePathForKey := by
        rw [List.map_map, List.map_map]
        rfl
      rw [hmap]
      exact r.nodup.map hinj
    · rintro ⟨path, value⟩
      rw [← AList.mem_lookup_iff, Option.mem_def, List.mem_map]
      constructor
      · intro hlookup
        obtain ⟨key, rfl⟩ := h.names path (AList.lookup_isSome.mp (hlookup ▸ rfl))
        rw [h.file] at hlookup
        obtain ⟨entry, hfind, rfl⟩ := Option.map_eq_some_iff.mp hlookup
        obtain ⟨hentry, rfl⟩ := Recency.find_eq_some_iff.mp hfind
        exact ⟨entry, hentry, rfl⟩
      · rintro ⟨entry, hentry, heq⟩
        obtain ⟨rfl, hvalue⟩ := Sigma.mk.inj heq
        obtain rfl := eq_of_heq hvalue
        rw [h.file, Recency.find_eq_some_iff.mpr ⟨hentry, rfl⟩]
        rfl
  rw [TGModernCache.filesSize, (hperm.map _).sum_eq, List.map_map, total_length_eq_sum]
  rfl

omit [DecidableEq Path] in
/-- After it has been checked, the stored size is that of the entries. -/
theorem checkCurrentSize_eq (h : StoreRepresents s.keyValueStore r)
    (hclock : r.clock < 4294967296) (hsize : total List.length r.entries < 2147483648) :
    s.checkCurrentSize = { s with
      recalculatedCurrentSize := true
      keyValueStore := s.keyValueStore.writeValueForRawKey TGModernCache.currentSizeKey
        (int32LE (total List.length r.entries)) } := by
  have hbounds : s.keyValueStore.between ⟨[TGModernCacheKeyspacePathAndSizeByLastUsage]⟩
      ⟨[TGModernCacheKeyspacePathAndSizeByLastUsage + 1]⟩ =
      r.entries.map fun entry => (indexKey entry, indexValue entry) := h.between_index hclock
  have hsum := foldUntil_sizes r.entries (show 0 + _ < 2147483648 by omega)
  rw [Nat.zero_add] at hsum
  simp only [TGModernCache.checkCurrentSize, TGModernCache.recalculateCurrentSizeIfNeeded,
    Bool.false_eq_true, if_false, TGModernCache.setCurrentSize,
    KeyValueStore.enumerateKeysAndValues, OrderedMap.enumerate_eq, hbounds]
  rw [show (0 : ℤ) = ((0 : ℕ) : ℤ) from rfl, hsum, toNSUInteger_size hsize]

/-- The stored size does not matter for the entries. -/
theorem StoreRepresents.writeCurrentSize {store : KeyValueStore} (h : StoreRepresents store r)
    (size : List UInt8) :
    StoreRepresents (store.writeValueForRawKey TGModernCache.currentSizeKey size) r := by
  refine h.congr fun keyspace bytes hkeyspace => ?_
  have hkey : TGModernCache.currentSizeKey ≠ [] := List.cons_ne_nil _ _
  rw [lookup_write _ hkey, if_neg]
  intro heq
  exact hkeyspace (List.cons.inj (congrArg RawKey.bytes heq)).1

/-- A file is written, and its key used. -/
theorem represents_writeValue (hinj : Function.Injective filePathForKey)
    (h : Represents filePathForKey s r) (hclock : r.clock + 1 < 4294967296)
    (value key : List UInt8) (size : ℕ) :
    Represents filePathForKey
      (({ s with files := s.files.insert (filePathForKey key) value }.setCurrentSize
        size).updateLastAccessDateForKey key value.length) (r.touch key value) := by
  constructor
  · exact storeRepresents_updateLastAccessDateForKey (h.store.writeCurrentSize _) hclock key value
  · exact h.files.touch hinj key value

/-- The oldest entries are evicted. -/
theorem represents_evict (hinj : Function.Injective filePathForKey)
    (h : Represents filePathForKey s r) (hclock : r.clock < 4294967296)
    (hsize : total List.length r.entries < 2147483648) (n : ℕ) :
    Represents filePathForKey (s.evictValuesOfTotalSize filePathForKey n)
      (r.evict List.length n) := by
  obtain ⟨remainingSize, heq⟩ := eviction_eq filePathForKey h.store hclock hsize n
  rw [TGModernCache.evictValuesOfTotalSize, heq]
  exact ⟨h.store.evict n, h.files.evict hinj n⟩

/-- **A value that is stored** becomes the last entry, and the oldest ones make room. -/
theorem represents_setValue (hinj : Function.Injective filePathForKey)
    (h : Represents filePathForKey s r) (hclock : r.clock + 1 < 4294967296)
    (hsize : total List.length r.entries < 2147483648) (value key : List UInt8) :
    Represents filePathForKey (s.setValue filePathForKey value key)
      (r.store List.length s.maxSize key value) := by
  have hcheck := checkCurrentSize_eq h.store (by omega) hsize
  have hstore := h.store.writeCurrentSize (int32LE (total List.length r.entries))
  have hcurrent : s.checkCurrentSize.getCurrentSize = total List.length r.entries := by
    have hkey : TGModernCache.currentSizeKey ≠ [] := List.cons_ne_nil _ _
    rw [hcheck]
    simp only [TGModernCache.getCurrentSize, KeyValueStore.readValueForRawKey]
    rw [lookup_write _ hkey, if_pos rfl]
    simp only [length_int32LE, if_true]
    rw [leInt32_size hsize, toNSUInteger_size hsize]
  have hrecalculated : s.checkCurrentSize.recalculateCurrentSizeIfNeeded =
      s.checkCurrentSize := by
    rw [hcheck]
    rfl
  have hmax : s.checkCurrentSize.maxSize = s.maxSize := by rw [hcheck]
  have hchecked : Represents filePathForKey s.checkCurrentSize r := by
    rw [hcheck]
    exact ⟨hstore, h.files⟩
  simp only [TGModernCache.setValue, hrecalculated, hcurrent, hmax, Recency.store]
  split
  · exact represents_writeValue hinj (represents_evict hinj hchecked (by omega) hsize _)
      hclock value key _
  · exact represents_writeValue hinj hchecked hclock value key _

/-- **A key that is used** becomes the last entry, if its file is there. -/
theorem represents_useKey (h : Represents filePathForKey s r) (hclock : r.clock + 1 < 4294967296)
    {key data : List UInt8} (hdata : s.files.lookup (filePathForKey key) = some data) :
    Represents filePathForKey (s.useKey key data.length) (r.use key) := by
  rw [h.files.file] at hdata
  obtain ⟨entry, hfind, rfl⟩ := Option.map_eq_some_iff.mp hdata
  have hread : s.keyValueStore.readValueForRawKey (TGModernCacheKeyspaceLastUsageByPath :: key) =
      some (toBE 4 entry.stamp) := by
    have husage := h.store.usage key
    rw [hfind] at husage
    exact husage
  simp only [TGModernCache.useKey, hread, Recency.use, hfind]
  refine ⟨storeRepresents_updateLastAccessDateForKey h.store hclock key entry.value,
    fun other => ?_, h.files.names⟩
  rw [Recency.find_touch]
  by_cases hother : other = key
  · rw [if_pos hother, hother]
    exact (h.files.file key).trans (by rw [hfind]; rfl)
  · rw [if_neg hother]
    exact h.files.file other

/-- An empty cache has no entries. -/
theorem represents_empty (hstore : s.keyValueStore = .empty) (hfiles : s.files = ∅) :
    Represents filePathForKey s .empty := by
  refine ⟨⟨?_, fun key => ?_, fun bytes value => ⟨fun hlookup => ?_, ?_⟩⟩, fun key => ?_,
    fun path hpath => ?_⟩
  · rw [hstore]
    rfl
  · rw [hstore]
    rfl
  · rw [hstore] at hlookup
    cases hlookup
  · rintro ⟨entry, hentry, -⟩
    cases hentry
  · rw [hfiles]
    rfl
  · rw [hfiles] at hpath
    exact absurd hpath (AList.notMem_empty path)

/-- What a call of the cache does to the entries. -/
theorem represents_step (hinj : Function.Injective filePathForKey)
    (h : Represents filePathForKey s r) (hsize : total List.length r.entries < 2147483648)
    {c : CacheCall} (hclock : c.isAccess = true → r.clock + 1 < 4294967296) :
    Represents filePathForKey (s.step filePathForKey c) (callUses s.maxSize r c) := by
  have hnone : ∀ {key}, s.files.lookup (filePathForKey key) = none → r.use key = r := by
    intro key hnone
    rw [h.files.file, Option.map_eq_none_iff] at hnone
    rw [Recency.use, hnone]
  cases c with
  | setValue value key => exact represents_setValue hinj h (hclock rfl) hsize value key
  | getValueForKey key =>
      simp only [TGModernCache.step, TGModernCache.getValueForKey, callUses]
      cases hdata : s.files.lookup (filePathForKey key) with
      | none => exact (hnone hdata).symm ▸ h
      | some data => exact represents_useKey h (hclock rfl) hdata
  | getValuePathForKey key =>
      simp only [TGModernCache.step, TGModernCache.getValuePathForKey, callUses]
      cases hdata : s.files.lookup (filePathForKey key) with
      | none => exact (hnone hdata).symm ▸ h
      | some data => exact represents_useKey h (hclock rfl) hdata
  | cleanup =>
      exact represents_empty rfl rfl

/-- The clock counts the accesses. -/
theorem clock_callUses (maxSize : ℕ) (r : LastUses) (c : CacheCall) :
    (callUses maxSize r c).clock ≤ r.clock + if c.isAccess = true then 1 else 0 := by
  have huse : ∀ key, (r.use key).clock ≤ r.clock + 1 := by
    intro key
    rw [Recency.use]
    split
    · exact Nat.le_succ _
    · exact Nat.le_refl _
  cases c with
  | setValue value key =>
      simp only [callUses, Recency.store]
      split <;> exact Nat.le_refl _
  | getValueForKey key => exact huse key
  | getValuePathForKey key => exact huse key
  | cleanup => exact Nat.zero_le _

/-- The entries never exceed the maximum size. -/
theorem total_callUses_le {maxSize : ℕ} (hbound : total List.length r.entries ≤ maxSize)
    {c : CacheCall} (hvalue : ∀ value key, c = .setValue value key → value.length ≤ maxSize) :
    total List.length (callUses maxSize r c).entries ≤ maxSize := by
  cases c with
  | setValue value key => exact Recency.total_store_le _ hbound (hvalue value key rfl)
  | getValueForKey key => exact (Recency.total_use_le _ r key).trans hbound
  | getValuePathForKey key => exact (Recency.total_use_le _ r key).trans hbound
  | cleanup => exact Nat.zero_le _

theorem maxSize_step (filePathForKey : List UInt8 → Path) (s : TGModernCache Path)
    (c : CacheCall) :
    (s.step filePathForKey c).maxSize = s.maxSize := by
  have hrecalculate : ∀ s : TGModernCache Path,
      s.recalculateCurrentSizeIfNeeded.maxSize = s.maxSize := by
    intro s
    rw [TGModernCache.recalculateCurrentSizeIfNeeded]
    split <;> rfl
  have hcheck : s.checkCurrentSize.recalculateCurrentSizeIfNeeded.maxSize = s.maxSize :=
    (hrecalculate _).trans (hrecalculate _)
  have huse : ∀ key size, (s.useKey key size).maxSize = s.maxSize := by
    intro key size
    rw [TGModernCache.useKey]
    split <;> rfl
  cases c with
  | setValue value key =>
      refine Eq.trans ?_ hcheck
      simp only [TGModernCache.step, TGModernCache.setValue,
        TGModernCache.updateLastAccessDateForKey, TGModernCache.setCurrentSize]
      split <;> rfl
  | getValueForKey key =>
      simp only [TGModernCache.step, TGModernCache.getValueForKey]
      split
      · exact huse key _
      · rfl
  | getValuePathForKey key =>
      simp only [TGModernCache.step, TGModernCache.getValuePathForKey]
      split
      · exact huse key _
      · rfl
  | cleanup => rfl

end Calls

/-! ### Runs -/

section Runs

variable {Path : Type} [DecidableEq Path] (filePathForKey : List UInt8 → Path)

/-- A call of the cache, beside what it does to the entries. -/
def usesStep (run : TGModernCache Path × LastUses) (c : CacheCall) :
    TGModernCache Path × LastUses :=
  (run.1.step filePathForKey c, callUses run.1.maxSize run.2 c)

/-- The files, the table of last uses and the index hold the same keys: the index has one entry
for each of them, in the order of their last use, with the sorting value of that use and the size
of the file. The files hold the last values and are no longer than the maximum size. -/
structure Consistent (run : TGModernCache Path × LastUses) : Prop where
  file : ∀ key, run.1.files.lookup (filePathForKey key) = (run.2.find key).map Entry.value
  names : ∀ path ∈ run.1.files, ∃ key, path = filePathForKey key
  lastUsage : ∀ key, run.1.keyValueStore.lookup ⟨2 :: key⟩ =
    (run.2.find key).map fun entry => toBE 4 entry.stamp
  index : run.1.keyValueStore.between ⟨[3]⟩ ⟨[4]⟩ =
    run.2.entries.map fun entry => (indexKey entry, indexValue entry)
  bounded : run.1.filesSize ≤ run.1.maxSize

/-- The files that a set removes are the shortest prefix, in the order of their last use, whose
size is that of the new value, or all of them; none if the value fits. -/
def RemovesOldest (run : TGModernCache Path × LastUses) : CacheCall → Prop
  | .setValue value key => ∃ removed,
      (run.1.maxSize < run.1.filesSize + value.length →
        IsShortestPrefix List.length value.length removed run.2.entries) ∧
      (run.1.filesSize + value.length ≤ run.1.maxSize → removed = []) ∧
      ∀ other, other ≠ key →
        (run.1.step filePathForKey (.setValue value key)).files.lookup (filePathForKey other) =
          if other ∈ removed.map Entry.key then none
          else run.1.files.lookup (filePathForKey other)
  | _ => True

variable {filePathForKey} {s : TGModernCache Path} {r : LastUses}

theorem Represents.consistent (hinj : Function.Injective filePathForKey)
    (h : Represents filePathForKey s r) (hclock : r.clock < 4294967296)
    (hbound : total List.length r.entries ≤ s.maxSize) : Consistent filePathForKey (s, r) :=
  ⟨h.files.file, h.files.names, h.store.usage, h.store.between_index hclock,
    h.files.filesSize hinj ▸ hbound⟩

theorem removesOldest_step (hinj : Function.Injective filePathForKey)
    (h : Represents filePathForKey s r) (hsize : total List.length r.entries < 2147483648)
    (hbound : total List.length r.entries ≤ s.maxSize) {c : CacheCall}
    (hclock : c.isAccess = true → r.clock + 1 < 4294967296) :
    RemovesOldest filePathForKey (s, r) c := by
  cases c with
  | setValue value key =>
      have hfile := (represents_step hinj h hsize hclock).files.file
      simp only [callUses, Recency.store] at hfile
      simp only [RemovesOldest, h.files.filesSize hinj]
      by_cases hfull : s.maxSize < total List.length r.entries + value.length
      · refine ⟨evicted List.length value.length r.entries, fun _ =>
          isShortestPrefix_evicted List.length (by omega) r.entries, fun hfits => by omega,
          fun other hother => ?_⟩
        rw [hfile, if_pos hfull, Recency.find_touch, if_neg hother, Recency.find_evict,
          h.files.file]
        split <;> rfl
      · refine ⟨[], fun hfull' => absurd hfull' hfull, fun _ => rfl, fun other hother => ?_⟩
        rw [hfile, if_neg hfull, Recency.find_touch, if_neg hother, h.files.file]
        rfl
  | getValueForKey key => trivial
  | getValuePathForKey key => trivial
  | cleanup => trivial

/-- A run from a cache that represents its entries. -/
theorem consistent_run (hinj : Function.Injective filePathForKey) {es : List CacheCall}
    (h : Represents filePathForKey s r) (hbound : total List.length r.entries ≤ s.maxSize)
    (hvalues : ∀ value key, .setValue value key ∈ es → value.length ≤ s.maxSize)
    (haccesses : r.clock + es.countP CacheCall.isAccess < 4294967296)
    (hsizes : Always (TGModernCache.step filePathForKey) (fun s => s.filesSize < 2147483648)
      s es) :
    Always (usesStep filePathForKey) (Consistent filePathForKey) (s, r) es ∧
      AllSteps (usesStep filePathForKey) (RemovesOldest filePathForKey) (s, r) es := by
  induction es generalizing s r with
  | nil => exact ⟨h.consistent hinj haccesses hbound, trivial⟩
  | cons c es ih =>
      have hsize : s.filesSize < 2147483648 := hsizes.1
      rw [h.files.filesSize hinj] at hsize
      rw [List.countP_cons] at haccesses
      have hclock : c.isAccess = true → r.clock + 1 < 4294967296 := by
        intro hc
        rw [if_pos hc] at haccesses
        omega
      have hclockStep := clock_callUses s.maxSize r c
      have hmax := maxSize_step filePathForKey s c
      have hstep := represents_step hinj h hsize hclock
      have htotal := total_callUses_le hbound fun value key hc =>
        hvalues value key (hc ▸ List.mem_cons_self)
      obtain ⟨halways, hall⟩ := ih hstep (hmax ▸ htotal)
        (fun value key hmem => hmax ▸ hvalues value key (List.mem_cons_of_mem _ hmem))
        (by omega) hsizes.2
      exact ⟨⟨h.consistent hinj (by omega) hbound, halways⟩,
        removesOldest_step hinj h hsize hbound hclock, hall⟩

/-- **The disk cache is consistent, bounded and least recently used** in every run. -/
theorem modernCache_consistent (hinj : Function.Injective filePathForKey) (maxSize : ℕ)
    (es : List CacheCall)
    (hvalues : ∀ value key, .setValue value key ∈ es → value.length ≤ maxSize)
    (haccesses : es.countP CacheCall.isAccess < 4294967296)
    (hsizes : Always (TGModernCache.step filePathForKey) (fun s => s.filesSize < 2147483648)
      { maxSize } es) :
    Always (usesStep filePathForKey) (Consistent filePathForKey) ({ maxSize }, .empty) es ∧
      AllSteps (usesStep filePathForKey) (RemovesOldest filePathForKey) ({ maxSize }, .empty) es :=
  consistent_run hinj (represents_empty rfl rfl) (Nat.zero_le _) hvalues
    ((Nat.zero_add _).trans_lt haccesses) hsizes

/-- Three values are stored, one of them used, and the oldest one evicted. -/
theorem modernCache_consistent_evicted :
    let es : List CacheCall := [.setValue [1, 2] [7], .setValue [3] [8], .getValueForKey [7],
      .setValue [5, 6] [9]]
    Always (usesStep id) (Consistent id) ({ maxSize := 4 }, .empty) es ∧
      AllSteps (usesStep id) (RemovesOldest id) ({ maxSize := 4 }, .empty) es := by
  refine modernCache_consistent Function.injective_id 4 _ (fun value key hmem => ?_)
    (by decide) (by decide +kernel)
  simp only [List.mem_cons, CacheCall.setValue.injEq, reduceCtorEq, List.not_mem_nil, false_or,
    or_false] at hmem
  rcases hmem with ⟨rfl, -⟩ | ⟨rfl, -⟩ | ⟨rfl, -⟩
  · decide
  · decide
  · decide

end Runs

end Telegraph.Cache
