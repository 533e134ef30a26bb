import Mathlib.Algebra.BigOperators.Ring.Finset
import Mathlib.Algebra.Order.BigOperators.Group.Finset

/-!
# The Total over the Slots of a Table

A table has a fixed set of slots, and `g` says what the content of a slot counts for in a
commutative monoid: a number, or the multiset of what is in it. Writing to one slot changes the
total by what was in this slot and by what is put there.

## Main results

* `add_sum_update`: **a slot is written to**, in a monoid without subtraction.
* `sum_update_of_zero`: what counts for nothing is put in, as when a slot is freed.
* `sum_update_of_free`: something is put into a slot that counted for nothing.
-/

namespace Slots

variable {ι α M : Type*} [Fintype ι] [DecidableEq ι] [AddCommMonoid M]
variable (g : α → M) (slots : ι → α) (i : ι)

/-- **A slot is written to.** -/
theorem add_sum_update (a : α) :
    g (slots i) + ∑ j, g (Function.update slots i a j) = g a + ∑ j, g (slots j) := by
  have hrest : ∑ j ∈ Finset.univ.erase i, g (Function.update slots i a j) =
      ∑ j ∈ Finset.univ.erase i, g (slots j) := by
    refine Finset.sum_congr rfl fun j hj => ?_
    rw [Function.update_of_ne (Finset.ne_of_mem_erase hj)]
  rw [← Finset.add_sum_erase Finset.univ (fun j => g (Function.update slots i a j))
      (Finset.mem_univ i),
    ← Finset.add_sum_erase Finset.univ (fun j => g (slots j)) (Finset.mem_univ i), hrest,
    Function.update_self]
  exact add_left_comm _ _ _

variable {g}

/-- **A slot is freed**: the total was what it is now and what the slot held. -/
theorem sum_update_of_zero {a : α} (ha : g a = 0) :
    ∑ j, g (slots j) = g (slots i) + ∑ j, g (Function.update slots i a j) := by
  rw [add_sum_update g slots i a, ha, zero_add]

/-- **A free slot is filled.** -/
theorem sum_update_of_free (a : α) (hi : g (slots i) = 0) :
    ∑ j, g (Function.update slots i a j) = g a + ∑ j, g (slots j) := by
  rw [← add_sum_update g slots i a, hi, zero_add]

end Slots
