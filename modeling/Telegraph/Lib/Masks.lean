import Mathlib.Data.Nat.Notation

/-!
# Fields of a Word

A word holds several fields, each in the bits of its mask. A field is set by clearing the bits of
its mask and putting the new ones there. What lies under another mask stays.

## Main results

* `put_and_self`: the bits of a field after it was set.
* `put_and_of_disjoint`: **setting a field leaves the bits under a disjoint mask alone**.
-/

namespace Masks

variable {w : ℕ} {mask other value word : BitVec w}

/-- The word with the bits of a mask replaced. -/
def put (mask value word : BitVec w) : BitVec w := (word &&& ~~~mask) ||| value

/-- The field holds what was put there. -/
theorem put_and_self (hvalue : value &&& mask = value) : put mask value word &&& mask = value := by
  apply BitVec.eq_of_getLsbD_eq
  intro i hi
  have h := congrArg (BitVec.getLsbD · i) hvalue
  simp only [BitVec.getLsbD_and] at h
  simp only [put, BitVec.getLsbD_and, BitVec.getLsbD_or, BitVec.getLsbD_not, hi, decide_true]
  revert h
  cases word.getLsbD i <;> cases mask.getLsbD i <;> cases value.getLsbD i <;> decide

/-- Setting a field leaves the bits under a disjoint mask alone. -/
theorem put_and_of_disjoint (hvalue : value &&& mask = value) (hmask : mask &&& other = 0#w) :
    put mask value word &&& other = word &&& other := by
  apply BitVec.eq_of_getLsbD_eq
  intro i hi
  have h := congrArg (BitVec.getLsbD · i) hvalue
  have hdisjoint := congrArg (BitVec.getLsbD · i) hmask
  simp only [BitVec.getLsbD_and, BitVec.getLsbD_zero] at h hdisjoint
  simp only [put, BitVec.getLsbD_and, BitVec.getLsbD_or, BitVec.getLsbD_not, hi, decide_true]
  revert h hdisjoint
  cases word.getLsbD i <;> cases mask.getLsbD i <;> cases value.getLsbD i <;>
    cases other.getLsbD i <;> decide

/-- All bits of a mask set: the bits need not be cleared first. -/
theorem or_mask (mask word : BitVec w) : word ||| mask = put mask mask word := by
  apply BitVec.eq_of_getLsbD_eq
  intro i hi
  simp only [put, BitVec.getLsbD_and, BitVec.getLsbD_or, BitVec.getLsbD_not, hi, decide_true]
  cases word.getLsbD i <;> cases mask.getLsbD i <;> decide

/-- All bits of a mask cleared. -/
theorem and_not_mask (mask word : BitVec w) : word &&& ~~~mask = put mask 0#w word := by
  rw [put, BitVec.or_zero]

end Masks
