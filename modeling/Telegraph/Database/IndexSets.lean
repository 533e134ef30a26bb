import Mathlib.Order.Interval.Finset.Nat

/-!
# Ranges and Index Sets

Ranges of indexes, as they are made of two `int32_t`s, and sets of indexes. A negative number is
above every index when it is made an `NSUInteger`.

## Main results

* `NSMakeRange_of_nonneg`: the range between two numbers that are not negative.
* `has_addIndexesInRange`, `has_removeIndexes`: what is in a set after a change.
* `intersects_iff`, `not_intersects_of_neg`: what is found in a range.
-/

namespace Telegraph.Database

/-- `NSRange`, of two `NSUInteger`s. -/
structure NSRange where
  location : ℕ
  length : ℕ
deriving DecidableEq

/-- `NSMakeRange` of two `int32_t`s. -/
def NSMakeRange (location length : BitVec 32) : NSRange :=
  ⟨(location.signExtend 64).toNat, (length.signExtend 64).toNat⟩

/-- The indexes of a range. -/
def NSRange.indexes (range : NSRange) : Finset ℕ :=
  Finset.Ico range.location (range.location + range.length)

/-- `NSNotFound`, which is above every index. -/
def NSNotFound : ℕ := 2 ^ 63 - 1

/-- A non-negative `int32_t` as an `NSUInteger`. -/
theorem toNat_wide_of_nonneg {value : BitVec 32} (hvalue : 0 ≤ value.toInt) :
    (value.signExtend 64).toNat = value.toInt.toNat := by
  have hwide : (value.signExtend 64).toInt = value.toInt :=
    BitVec.toInt_signExtend_of_le (by decide)
  have hbound := BitVec.toInt_lt (x := value)
  rw [BitVec.toInt_eq_toNat_cond] at hwide
  split at hwide <;> omega

/-- A negative `int32_t` is above every index as an `NSUInteger`. -/
theorem toNat_wide_of_neg {value : BitVec 32} (hvalue : value.toInt < 0) :
    NSNotFound < (value.signExtend 64).toNat := by
  have hwide : (value.signExtend 64).toInt = value.toInt :=
    BitVec.toInt_signExtend_of_le (by decide)
  rw [BitVec.toInt_eq_toNat_cond] at hwide
  rw [NSNotFound]
  split at hwide <;> omega

/-- A range of non-negative ids. -/
theorem NSMakeRange_of_nonneg {low high : BitVec 32} (hlow : 0 ≤ low.toInt)
    (hle : low.toInt ≤ high.toInt) :
    NSMakeRange low (high - low) = ⟨low.toInt.toNat, (high.toInt - low.toInt).toNat⟩ := by
  have hhigh := BitVec.toInt_lt (x := high)
  have hlength : (high - low).toInt = high.toInt - low.toInt := by
    rw [BitVec.toInt_sub]
    apply Int.bmod_eq_of_le <;> omega
  rw [NSMakeRange, toNat_wide_of_nonneg hlow, toNat_wide_of_nonneg (by omega), hlength]

/-- `NSIndexSet`. -/
@[ext] structure NSIndexSet where
  indexes : Finset ℕ
  lt_NSNotFound : ∀ index ∈ indexes, index < NSNotFound
deriving DecidableEq

namespace NSIndexSet

/-- No index. -/
def empty : NSIndexSet := ⟨∅, fun _ h => absurd h (Finset.notMem_empty _)⟩

/-- `addIndexesInRange:`, which raises for a range that goes too far. -/
def addIndexesInRange (indexSet : NSIndexSet) (range : NSRange) : Option NSIndexSet :=
  if hrange : range.location + range.length ≤ NSNotFound then
    some
      { indexes := indexSet.indexes ∪ range.indexes
        lt_NSNotFound := fun index hindex => by
          rcases Finset.mem_union.mp hindex with hold | hnew
          · exact indexSet.lt_NSNotFound index hold
          · exact lt_of_lt_of_le (Finset.mem_Ico.mp hnew).2 hrange }
  else none

/-- `removeIndexes:`. -/
def removeIndexes (indexSet other : NSIndexSet) : NSIndexSet where
  indexes := indexSet.indexes \ other.indexes
  lt_NSNotFound := fun index hindex =>
    indexSet.lt_NSNotFound index (Finset.mem_sdiff.mp hindex).1

/-- `intersectsIndexesInRange:`. -/
def intersectsIndexesInRange (indexSet : NSIndexSet) (range : NSRange) : Bool :=
  decide (∃ index ∈ indexSet.indexes,
    range.location ≤ index ∧ index < range.location + range.length)

/-- The id is in the set. -/
def Has (indexSet : NSIndexSet) (id : ℤ) : Prop := ∃ index ∈ indexSet.indexes, (index : ℤ) = id

/-- What has been added is in the set, with what has been in it. -/
theorem has_addIndexesInRange {indexSet after : NSIndexSet} {range : NSRange}
    (h : indexSet.addIndexesInRange range = some after) (id : ℤ) :
    after.Has id ↔ indexSet.Has id ∨
      (range.location : ℤ) ≤ id ∧ id < (range.location : ℤ) + range.length := by
  rw [addIndexesInRange] at h
  split at h
  case isFalse => exact absurd h nofun
  obtain rfl := Option.some.inj h
  simp only [Has, Finset.mem_union, NSRange.indexes, Finset.mem_Ico]
  constructor
  · rintro ⟨index, hold | hnew, rfl⟩
    · exact Or.inl ⟨index, hold, rfl⟩
    · exact Or.inr (by omega)
  · rintro (⟨index, hold, rfl⟩ | hnew)
    · exact ⟨index, Or.inl hold, rfl⟩
    · exact ⟨id.toNat, Or.inr (by omega), by omega⟩

/-- What is taken out is not in the set any more, and nothing else. -/
@[simp] theorem has_removeIndexes (indexSet other : NSIndexSet) (id : ℤ) :
    (indexSet.removeIndexes other).Has id ↔ indexSet.Has id ∧ ¬ other.Has id := by
  simp only [Has, removeIndexes, Finset.mem_sdiff]
  constructor
  · rintro ⟨index, ⟨hmem, hother⟩, rfl⟩
    refine ⟨⟨index, hmem, rfl⟩, ?_⟩
    rintro ⟨same, hsame, heq⟩
    exact hother (Int.natCast_inj.mp heq ▸ hsame)
  · rintro ⟨⟨index, hmem, rfl⟩, hother⟩
    exact ⟨index, ⟨hmem, fun h => hother ⟨index, h, rfl⟩⟩, rfl⟩

/-- An id of a set is not negative. -/
theorem nonneg_of_has {indexSet : NSIndexSet} {id : ℤ} (h : indexSet.Has id) : 0 ≤ id := by
  obtain ⟨index, -, rfl⟩ := h
  exact Int.natCast_nonneg index

/-- Nothing is found in a range that starts below zero. -/
theorem not_intersects_of_neg (indexSet : NSIndexSet) {low : BitVec 32} (hlow : low.toInt < 0)
    (length : BitVec 32) : indexSet.intersectsIndexesInRange (NSMakeRange low length) = false := by
  rw [intersectsIndexesInRange, decide_eq_false_iff_not]
  rintro ⟨index, hindex, hrange, -⟩
  have hvalid := indexSet.lt_NSNotFound index hindex
  exact absurd (hrange.trans_lt hvalid) (not_lt.mpr (toNat_wide_of_neg hlow).le)

/-- What is found in a range of non-negative ids. -/
theorem intersects_iff (indexSet : NSIndexSet) {low high : BitVec 32} (hlow : 0 ≤ low.toInt)
    (hle : low.toInt ≤ high.toInt) :
    indexSet.intersectsIndexesInRange (NSMakeRange low (high - low)) = true ↔
      ∃ id, indexSet.Has id ∧ low.toInt ≤ id ∧ id < high.toInt := by
  rw [intersectsIndexesInRange, decide_eq_true_eq, NSMakeRange_of_nonneg hlow hle]
  dsimp only
  constructor
  · rintro ⟨index, hindex, hrange⟩
    exact ⟨index, ⟨index, hindex, rfl⟩, by omega⟩
  · rintro ⟨_, ⟨index, hindex, rfl⟩, hrange⟩
    exact ⟨index, hindex, by omega⟩

end NSIndexSet

end Telegraph.Database
