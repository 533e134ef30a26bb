import Mathlib.Data.List.Nodup
import Mathlib.Data.List.Pairwise
import Mathlib.Data.Set.Basic
import Mathlib.Order.Defs.LinearOrder

/-!
# Families of Intervals

A list of closed intervals of a linear order, given by two functions `lo` and `hi` of its
members, as a table of ranges stores them. A family is separate when none of its intervals is
empty and no two of them meet.

## Main results

* `Separate.eq_of_mem`: a point lies in one interval of a separate family.
* `Separate.hi_le_of_meets`: **the neighbour rule** — of the intervals that end above `b`
  only the one that ends first can reach down to `b`.
* `Separate.replace`: intervals may be replaced by smaller ones.
* `Separate.flatMap`: so may every interval of a family.
-/

namespace Intervals

variable {ι κ α : Type*} [LinearOrder α]

/-- The points of an interval. -/
def Within (lo hi : ι → α) (i : ι) (x : α) : Prop :=
  lo i ≤ x ∧ x ≤ hi i

/-- The points of a family. -/
def covered (lo hi : ι → α) (l : List ι) : Set α :=
  {x | ∃ i ∈ l, Within lo hi i x}

/-- Two intervals of which one ends before the other begins. -/
def Apart (lo hi : ι → α) (i j : ι) : Prop :=
  hi i < lo j ∨ hi j < lo i

/-- No interval is empty, and no two meet. -/
structure Separate (lo hi : ι → α) (l : List ι) : Prop where
  nonempty : ∀ i ∈ l, lo i ≤ hi i
  apart : l.Pairwise (Apart lo hi)

instance (lo hi : ι → α) (i j : ι) : Decidable (Apart lo hi i j) :=
  inferInstanceAs (Decidable (_ ∨ _))

section Covered

variable {lo hi : ι → α} {l l' : List ι} {i j : ι} {x : α}

theorem mem_covered : x ∈ covered lo hi l ↔ ∃ i ∈ l, Within lo hi i x := Iff.rfl

@[simp] theorem covered_nil : covered lo hi ([] : List ι) = ∅ := by
  ext x
  simp only [mem_covered, List.not_mem_nil, false_and, exists_false, Set.mem_empty_iff_false]

@[simp] theorem covered_append : covered lo hi (l ++ l') = covered lo hi l ∪ covered lo hi l' := by
  ext x
  simp only [mem_covered, List.mem_append, Set.mem_union, or_and_right, exists_or]

@[simp] theorem mem_covered_singleton : x ∈ covered lo hi [i] ↔ Within lo hi i x := by
  simp only [mem_covered, List.mem_singleton, exists_eq_left]

/-- What `f` makes of every interval covers what it covers of each. -/
theorem mem_covered_flatMap {lo' hi' : κ → α} {f : ι → List κ} :
    x ∈ covered lo' hi' (l.flatMap f) ↔ ∃ i ∈ l, x ∈ covered lo' hi' (f i) := by
  constructor
  · rintro ⟨k, hk, hx⟩
    obtain ⟨i, hi, hk⟩ := List.mem_flatMap.mp hk
    exact ⟨i, hi, k, hk, hx⟩
  · rintro ⟨i, hi, k, hk, hx⟩
    exact ⟨k, List.mem_flatMap.mpr ⟨i, hi, hk⟩, hx⟩

theorem Apart.symm (h : Apart lo hi i j) : Apart lo hi j i := Or.symm h

/-- Intervals that are apart have no point in common. -/
theorem Apart.not_within (h : Apart lo hi i j) (hix : Within lo hi i x) :
    ¬ Within lo hi j x := by
  intro hj
  rcases h with h | h
  · exact absurd (hj.1.trans hix.2) (not_le_of_gt h)
  · exact absurd (hix.1.trans hj.2) (not_le_of_gt h)

/-- Intervals without a common point are apart. -/
theorem apart_of_not_within (hnei : lo i ≤ hi i) (hnej : lo j ≤ hi j)
    (h : ∀ x, Within lo hi i x → ¬ Within lo hi j x) : Apart lo hi i j := by
  rcases le_total (lo i) (lo j) with hle | hle
  · refine .inl (lt_of_not_ge fun hmeet => ?_)
    exact h (lo j) ⟨hle, hmeet⟩ ⟨le_refl _, hnej⟩
  · refine .inr (lt_of_not_ge fun hmeet => ?_)
    exact h (lo i) ⟨le_refl _, hnei⟩ ⟨hle, hmeet⟩

end Covered

namespace Separate

variable {lo hi : ι → α} {lo' hi' : κ → α} {l new : List ι} {i j : ι} {x b : α}

theorem nil : Separate lo hi ([] : List ι) := ⟨fun _ h => (List.not_mem_nil h).elim, .nil⟩

theorem singleton (h : lo i ≤ hi i) : Separate lo hi [i] :=
  ⟨fun _ hj => List.mem_singleton.mp hj ▸ h, List.pairwise_singleton _ _⟩

theorem filter (h : Separate lo hi l) (p : ι → Bool) : Separate lo hi (l.filter p) :=
  ⟨fun i hmem => h.nonempty i (List.mem_filter.mp hmem).1, h.apart.filter p⟩

/-- Two families none of whose intervals meet make one. -/
theorem append (h : Separate lo hi l) (hnew : Separate lo hi new)
    (hapart : ∀ i ∈ l, ∀ j ∈ new, Apart lo hi i j) : Separate lo hi (l ++ new) := by
  refine ⟨fun i hmem => ?_, List.pairwise_append.mpr ⟨h.apart, hnew.apart, hapart⟩⟩
  rcases List.mem_append.mp hmem with hmem | hmem
  · exact h.nonempty i hmem
  · exact hnew.nonempty i hmem

theorem of_cons (h : Separate lo hi (i :: l)) : Separate lo hi l :=
  ⟨fun j hmem => h.nonempty j (List.mem_cons_of_mem _ hmem), List.Pairwise.of_cons h.apart⟩

/-- Members of a separate family, each listed once, make one. -/
theorem of_subset (h : Separate lo hi l) (hnodup : new.Nodup) (hsub : ∀ i ∈ new, i ∈ l) :
    Separate lo hi new := by
  have : Std.Symm (Apart lo hi) := ⟨fun _ _ => Apart.symm⟩
  exact ⟨fun i hmem => h.nonempty i (hsub i hmem), hnodup.pairwise_of_forall_ne
    fun i hmem j hj hne => h.apart.forall (hsub i hmem) (hsub j hj) hne⟩

/-- A point lies in one interval of the family. -/
theorem eq_of_mem (h : Separate lo hi l) (hil : i ∈ l) (hjl : j ∈ l)
    (hix : Within lo hi i x) (hjx : Within lo hi j x) : i = j := by
  have : Std.Symm (Apart lo hi) := ⟨fun _ _ => Apart.symm⟩
  by_contra hne
  exact (h.apart.forall hil hjl hne).not_within hix hjx

/-- No interval of the family is listed twice. -/
theorem nodup (h : Separate lo hi l) : l.Nodup := by
  refine List.Pairwise.imp_of_mem ?_ h.apart
  rintro i j hil - hapart rfl
  exact hapart.not_within ⟨le_refl _, h.nonempty i hil⟩ ⟨le_refl _, h.nonempty i hil⟩

/-- Intervals of the family that end at one point are the same. -/
theorem eq_of_hi_eq (h : Separate lo hi l) (hil : i ∈ l) (hjl : j ∈ l) (heq : hi i = hi j) :
    i = j :=
  h.eq_of_mem hil hjl ⟨h.nonempty i hil, le_refl _⟩ ⟨heq ▸ h.nonempty j hjl, heq.le⟩

/-- **The neighbour rule.** An interval that ends above `b` and reaches down to it ends before
every other that ends above `b`. -/
theorem hi_le_of_meets (h : Separate lo hi l) (hil : i ∈ l) (hjl : j ∈ l)
    (hmeets : lo i ≤ b) (hj : b < hi j) : hi i ≤ hi j := by
  refine le_of_not_gt fun hlt => hlt.ne ?_
  rw [h.eq_of_mem hjl hil ⟨h.nonempty j hjl, le_refl _⟩ ⟨hmeets.trans hj.le, hlt.le⟩]

/-- The intervals left by a filter cover what the others do not. -/
theorem covered_filter (h : Separate lo hi l) (p : ι → Bool) :
    covered lo hi (l.filter fun i => !p i) = covered lo hi l \ covered lo hi (l.filter p) := by
  ext x
  simp only [Set.mem_sdiff, mem_covered, List.mem_filter, Bool.not_eq_true']
  constructor
  · rintro ⟨i, ⟨hil, hp⟩, hix⟩
    refine ⟨⟨i, hil, hix⟩, ?_⟩
    rintro ⟨j, ⟨hjl, hpj⟩, hjx⟩
    rw [h.eq_of_mem hil hjl hix hjx, hpj] at hp
    cases hp
  · rintro ⟨⟨i, hil, hix⟩, hnot⟩
    refine ⟨i, ⟨hil, ?_⟩, hix⟩
    exact Bool.eq_false_iff.mpr fun hp => hnot ⟨i, ⟨hil, hp⟩, hix⟩

/-- Intervals may be replaced by others that stay within them. -/
theorem replace (h : Separate lo hi l) (p : ι → Bool) (hnew : Separate lo hi new)
    (hwithin : covered lo hi new ⊆ covered lo hi (l.filter p)) :
    Separate lo hi ((l.filter fun i => !p i) ++ new) := by
  refine (h.filter _).append hnew fun i hmem j hj => ?_
  refine apart_of_not_within ((h.filter _).nonempty i hmem) (hnew.nonempty j hj) fun x hix hjx => ?_
  have hx : x ∈ covered lo hi l \ covered lo hi (l.filter p) :=
    (h.covered_filter p) ▸ ⟨i, hmem, hix⟩
  exact hx.2 (hwithin ⟨j, hj, hjx⟩)

/-- What is made of the intervals of a family, each within its own, is separate. -/
theorem flatMap (h : Separate lo hi l) {f : ι → List κ}
    (hf : ∀ i ∈ l, Separate lo' hi' (f i))
    (hwithin : ∀ i ∈ l, ∀ x ∈ covered lo' hi' (f i), Within lo hi i x) :
    Separate lo' hi' (l.flatMap f) := by
  induction l with
  | nil => exact nil
  | cons i l ih =>
      refine (hf i List.mem_cons_self).append (ih h.of_cons
        (fun i hmem => hf i (List.mem_cons_of_mem _ hmem))
        fun i hmem => hwithin i (List.mem_cons_of_mem _ hmem)) fun k hk k' hk' => ?_
      obtain ⟨j, hjl, hk'⟩ := List.mem_flatMap.mp hk'
      have hapart := List.rel_of_pairwise_cons h.apart hjl
      refine apart_of_not_within ((hf i List.mem_cons_self).nonempty k hk)
        ((hf j (List.mem_cons_of_mem _ hjl)).nonempty k' hk') fun x hx hx' => ?_
      exact hapart.not_within (hwithin i List.mem_cons_self x ⟨k, hk, hx⟩)
        (hwithin j (List.mem_cons_of_mem _ hjl) x ⟨k', hk', hx'⟩)

end Separate

end Intervals
