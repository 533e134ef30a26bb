import Telegraph.Lib.Bytes

/-!
# Sort Keys

A message of a channel is ordered by the 17 bytes of its sort key: the peer, the space
(important or unimportant messages), the date and the id. The date and the id are written most
significant byte first, so that `memcmp` compares them as numbers.

## Main results

* `mid_make`: the id is read back.
* `sortKey_space_lt`: **a key of the important space is above every key of the unimportant space
  of the same peer**, whatever the dates.
-/

namespace Telegraph.Messages

open Bytes

/-- `TGMessageSortKey`, an array of 17 bytes. -/
structure TGMessageSortKey where
  key : List UInt8
  length_key : key.length = 8 + 1 + 4 + 4
deriving DecidableEq

/-- `TGMessageSpaceUnimportant`. -/
def TGMessageSpaceUnimportant : UInt8 := 0

/-- `TGMessageSpaceImportant`. -/
def TGMessageSpaceImportant : UInt8 := 1

/-- The bytes of an integer after `NSSwapInt`. -/
def swappedInt (v : ℤ) : List UInt8 := (int32LE v).reverse

@[simp] theorem length_swappedInt (v : ℤ) : (swappedInt v).length = 4 := by
  rw [swappedInt, List.length_reverse, length_int32LE]

/-- The eight bytes of the peer. -/
def peerBytes (peerId : ℤ) : List UInt8 := toLE 8 (peerId % 18446744073709551616).toNat

@[simp] theorem length_peerBytes (peerId : ℤ) : (peerBytes peerId).length = 8 := length_toLE _ _

/-- `TGMessageSortKeyMake`. -/
def TGMessageSortKeyMake (peerId : ℤ) (space : UInt8) (timestamp mid : ℤ) : TGMessageSortKey where
  key := peerBytes peerId ++ ([space] ++ (swappedInt timestamp ++ swappedInt mid))
  length_key := by simp

/-- `TGMessageSortKeyLowerBound`. -/
def TGMessageSortKeyLowerBound (peerId : ℤ) (space : UInt8) : TGMessageSortKey :=
  TGMessageSortKeyMake peerId space 0 0

/-- `TGMessageSortKeyCompare`. -/
def TGMessageSortKeyCompare (lhs rhs : TGMessageSortKey) : ℤ := memcmp lhs.key rhs.key

/-- `TGMessageSortKeySpace`. -/
def TGMessageSortKeySpace (key : TGMessageSortKey) : UInt8 :=
  key.key.get ⟨8, by rw [key.length_key]; decide⟩

/-- `TGMessageSortKeyTimestamp`. -/
def TGMessageSortKeyTimestamp (key : TGMessageSortKey) : ℤ :=
  leInt32 ((key.key.drop 9).take 4).reverse

/-- `TGMessageSortKeyMid`. -/
def TGMessageSortKeyMid (key : TGMessageSortKey) : ℤ :=
  leInt32 ((key.key.drop 13).take 4).reverse

/-! ### The order of keys -/

section Order

variable {lhs rhs key : TGMessageSortKey} {peerId timestamp timestamp' mid mid' : ℤ}
  {space : UInt8}

/-- A key as a number. -/
def TGMessageSortKey.rank (key : TGMessageSortKey) : ℕ := beNat key.key

/-- Keys are compared as numbers. -/
theorem sortKeyCompare_pos : 0 < TGMessageSortKeyCompare lhs rhs ↔ rhs.rank < lhs.rank :=
  memcmp_pos (lhs.length_key.trans rhs.length_key.symm)

theorem sortKeyCompare_nonpos : TGMessageSortKeyCompare lhs rhs ≤ 0 ↔ lhs.rank ≤ rhs.rank := by
  rw [← not_lt, sortKeyCompare_pos, not_lt]

@[simp] theorem space_make :
    TGMessageSortKeySpace (TGMessageSortKeyMake peerId space timestamp mid) = space := by
  have hbytes : (peerBytes peerId ++ ([space] ++ (swappedInt timestamp ++ swappedInt mid)))[8]? =
      some space := by
    rw [List.getElem?_append_right (by simp), length_peerBytes]
    rfl
  exact (List.getElem?_eq_some_iff.mp hbytes).2

/-- An id that fits is read back. -/
theorem mid_make (hlow : -2147483648 ≤ mid) (hhigh : mid < 2147483648) :
    TGMessageSortKeyMid (TGMessageSortKeyMake peerId space timestamp mid) = mid := by
  have hfield : ((TGMessageSortKeyMake peerId space timestamp mid).key.drop 13).take 4 =
      swappedInt mid := by
    have hbefore : (peerBytes peerId ++ ([space] ++ swappedInt timestamp)).length = 13 := by simp
    have hkey : (TGMessageSortKeyMake peerId space timestamp mid).key =
        (peerBytes peerId ++ ([space] ++ swappedInt timestamp)) ++ (swappedInt mid ++ []) := by
      simp only [TGMessageSortKeyMake, List.append_assoc, List.append_nil]
    rw [hkey, window hbefore (length_swappedInt mid)]
  rw [TGMessageSortKeyMid, hfield, swappedInt, List.reverse_reverse,
    leInt32_int32LE_of_fits hlow hhigh]

/-- An important message is above every unimportant one. -/
theorem sortKey_space_lt :
    (TGMessageSortKeyMake peerId TGMessageSpaceUnimportant timestamp mid).rank <
      (TGMessageSortKeyMake peerId TGMessageSpaceImportant timestamp' mid').rank := by
  refine (beNat_append_lt _ (by simp)).mpr ?_
  exact beNat_cons_lt (by decide) (by simp)

end Order

end Telegraph.Messages
