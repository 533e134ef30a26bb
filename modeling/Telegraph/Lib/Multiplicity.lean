import Mathlib.Algebra.GroupWithZero.Nat
import Mathlib.Data.List.Flatten
import Mathlib.Data.List.Nodup
import Mathlib.Data.List.Perm.Basic

/-!
# Items and Their Owners

A list of owners, each of which holds some items, as `f` tells. The items of all of them
are `owners.flatMap f`; that this list has no duplicates says that no item is held twice,
by one owner or by two.

## Main results

* `count_flatMap_set`: **an owner is replaced**, and the items change by what it holds.
* `flatMap_set_of_length_le`: the only owner is replaced.
* `owner_unique`: an item has one owner.
* `flatMap_filter_perm`: items grouped by a key are the items in another order.
* `of_count_le`: counting carries over that nothing is held twice.
-/

namespace Multiplicity

variable {α β : Type*} {f : α → List β} {owners : List α} {a b : α} {i j : ℕ} {x : β}

/-- **An owner is replaced**: what `a` held is gone, and what `b` holds has come. -/
theorem count_flatMap_set [BEq β] (h : owners[i]? = some a) :
    ((owners.set i b).flatMap f).count x + (f a).count x =
      (owners.flatMap f).count x + (f b).count x := by
  induction owners generalizing i with
  | nil => cases h
  | cons first owners ih =>
      cases i with
      | zero =>
          obtain rfl : first = a := Option.some.inj h
          simp only [List.set_cons_zero, List.flatMap_cons, List.count_append]
          omega
      | succ i =>
          have hrest := ih (i := i) h
          simp only [List.set_cons_succ, List.flatMap_cons, List.count_append]
          omega

/-- **An owner is replaced** by one that holds the same. -/
theorem flatMap_set_of_eq (h : owners[i]? = some a) (heq : f b = f a) :
    (owners.set i b).flatMap f = owners.flatMap f := by
  induction owners generalizing i with
  | nil => cases h
  | cons first owners ih =>
      cases i with
      | zero =>
          obtain rfl : first = a := Option.some.inj h
          rw [List.set_cons_zero, List.flatMap_cons, List.flatMap_cons, heq]
      | succ i => rw [List.set_cons_succ, List.flatMap_cons, List.flatMap_cons, ih h]

/-- **The only owner is replaced.** -/
theorem flatMap_set_of_length_le (h : owners[i]? = some a)
    (hle : (owners.flatMap f).length ≤ (f a).length) :
    owners.flatMap f = f a ∧ (owners.set i b).flatMap f = f b := by
  induction owners generalizing i with
  | nil => cases h
  | cons first owners ih =>
      rw [List.flatMap_cons, List.length_append] at hle
      cases i with
      | zero =>
          obtain rfl : first = a := Option.some.inj h
          have hrest : owners.flatMap f = [] := List.length_eq_zero_iff.mp (by omega)
          rw [List.set_cons_zero, List.flatMap_cons, List.flatMap_cons, hrest, List.append_nil,
            List.append_nil]
          exact ⟨rfl, rfl⟩
      | succ i =>
          obtain ⟨hsame, hset⟩ := ih (i := i) h (by omega)
          rw [hsame] at hle
          have hfirst : f first = [] := List.length_eq_zero_iff.mp (by omega)
          rw [List.set_cons_succ, List.flatMap_cons, List.flatMap_cons, hfirst, hsame, hset]
          exact ⟨rfl, rfl⟩

/-- **An owner is replaced**, where each has a weight. -/
theorem sum_map_set (weight : α → ℕ) (h : owners[i]? = some a) :
    ((owners.set i b).map weight).sum + weight a = (owners.map weight).sum + weight b := by
  induction owners generalizing i with
  | nil => cases h
  | cons first owners ih =>
      cases i with
      | zero =>
          obtain rfl : first = a := Option.some.inj h
          simp only [List.set_cons_zero, List.map_cons, List.sum_cons]
          omega
      | succ i =>
          have hrest := ih (i := i) h
          simp only [List.set_cons_succ, List.map_cons, List.sum_cons]
          omega

/-- What one owner holds has no duplicates. -/
theorem nodup_of_owner (hnodup : (owners.flatMap f).Nodup) (h : owners[i]? = some a) :
    (f a).Nodup :=
  (List.nodup_flatMap.mp hnodup).1 a (List.mem_of_getElem? h)

/-- **An item has one owner.** -/
theorem owner_unique (hnodup : (owners.flatMap f).Nodup) (hi : owners[i]? = some a)
    (hj : owners[j]? = some b) (ha : x ∈ f a) (hb : x ∈ f b) : i = j := by
  have hpairwise := List.pairwise_iff_getElem.mp (List.nodup_flatMap.mp hnodup).2
  obtain ⟨hi', rfl⟩ := List.getElem?_eq_some_iff.mp hi
  obtain ⟨hj', rfl⟩ := List.getElem?_eq_some_iff.mp hj
  rcases Nat.lt_trichotomy i j with hlt | heq | hgt
  · exact absurd hb (hpairwise i j hi' hj' hlt ha)
  · exact heq
  · exact absurd ha (hpairwise j i hj' hi' hgt hb)

/-- What an owner holds is among all items. -/
theorem mem_flatMap_of_owner (h : owners[i]? = some a) (hx : x ∈ f a) :
    x ∈ owners.flatMap f :=
  List.mem_flatMap.mpr ⟨a, List.mem_of_getElem? h, hx⟩

/-- A list that has no item more often than one without duplicates has none either, and
nothing else in it. -/
theorem of_count_le [DecidableEq β] {items others : List β}
    (hle : ∀ x, items.count x ≤ others.count x) :
    (others.Nodup → items.Nodup) ∧ items ⊆ others := by
  constructor
  · intro hnodup
    exact List.nodup_iff_count_le_one.mpr fun x =>
      Nat.le_trans (hle x) (List.nodup_iff_count_le_one.mp hnodup x)
  · intro x hx
    exact List.count_pos_iff.mp (Nat.lt_of_lt_of_le (List.count_pos_iff.mpr hx) (hle x))

/-- An owner that is not listed changes what it holds. -/
theorem flatMap_update_of_notMem [DecidableEq α] (h : a ∉ owners) (items : List β) :
    owners.flatMap (Function.update f a items) = owners.flatMap f :=
  List.flatMap_congr fun other hother =>
    Function.update_of_ne (show other ≠ a from fun heq => h (heq ▸ hother)) ..

/-- **An owner changes what it holds.** -/
theorem length_flatMap_update [DecidableEq α] (hnodup : owners.Nodup) (h : a ∈ owners)
    (items : List β) :
    (owners.flatMap (Function.update f a items)).length + (f a).length =
      (owners.flatMap f).length + items.length := by
  have hperm := List.perm_cons_erase h
  have hrest : a ∉ owners.erase a := fun hmem => (hnodup.mem_erase_iff.mp hmem).1 rfl
  rw [(hperm.flatMap_right _).length_eq, (hperm.flatMap_right f).length_eq, List.flatMap_cons,
    List.flatMap_cons, List.length_append, List.length_append, Function.update_self,
    flatMap_update_of_notMem hrest]
  omega

/-- A list is regrouped by a key of its items. -/
theorem flatMap_filter_perm [DecidableEq α] {items : List β} {key : β → α}
    {keys : List α} (hnodup : keys.Nodup) (hkeys : ∀ x ∈ items, key x ∈ keys) :
    (keys.flatMap fun k => items.filter fun x => key x = k).Perm items := by
  induction keys generalizing items with
  | nil =>
      rw [List.eq_nil_iff_forall_not_mem.mpr fun x hx => List.not_mem_nil (hkeys x hx)]
      exact .refl _
  | cons k keys ih =>
      rw [List.nodup_cons] at hnodup
      have hrest := @ih (items.filter fun x => !(key x = k)) hnodup.2 fun x hx => by
        rw [List.mem_filter] at hx
        exact (List.mem_cons.mp (hkeys x hx.1)).resolve_left (by simpa using hx.2)
      have hsame : (keys.flatMap fun other =>
          (items.filter fun x => !(key x = k)).filter fun x => key x = other)
            = keys.flatMap fun other => items.filter fun x => key x = other := by
        refine List.flatMap_congr fun other hother => ?_
        rw [List.filter_filter]
        refine List.filter_congr fun x _ => ?_
        have hne : other ≠ k := fun heq => hnodup.1 (heq ▸ hother)
        by_cases heq : key x = other <;> simp [heq, hne]
      rw [List.flatMap_cons]
      rw [hsame] at hrest
      exact (hrest.append_left _).trans (List.filter_append_perm _ items)

end Multiplicity
