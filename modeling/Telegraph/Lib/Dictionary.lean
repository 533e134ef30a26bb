import Mathlib.Algebra.BigOperators.Group.Finset.Basic
import Mathlib.Algebra.Ring.Int.Defs
import Mathlib.Data.List.AList

/-!
# Dictionaries and Their Totals

Dictionaries and tables with a primary key are association lists without duplicate keys. The
total of a weight over all entries is a sum of one summand a key, over any set of keys that has
those of the dictionary; two dictionaries that differ at a few keys are compared summand by
summand.

## Main results

* `total_eq_sum`: **the total is the sum over any set that covers the keys**.
* `lookup_mapValues`: values are mapped.
* `listAt_append`: a list of a dictionary of lists is extended.
* `countP_key`: at most one entry has a key.
-/

/-- A dictionary, or a table by its primary key. -/
abbrev Dictionary (κ α : Type*) := AList fun _ : κ => α

namespace Dictionary

variable {κ α β : Type*} [DecidableEq κ]

theorem lookup_insert_ite (d : Dictionary κ α) (k other : κ) (a : α) :
    (d.insert k a).lookup other = if other = k then some a else d.lookup other := by
  by_cases h : other = k
  · rw [if_pos h, h, AList.lookup_insert]
  · rw [if_neg h, AList.lookup_insert_ne h]

theorem lookup_erase_ite (d : Dictionary κ α) (k other : κ) :
    (d.erase k).lookup other = if other = k then none else d.lookup other := by
  by_cases h : other = k
  · rw [if_pos h, h, AList.lookup_erase]
  · rw [if_neg h, AList.lookup_erase_ne h]

/-! ### Entries -/

/-- Erasing filters the entries. -/
theorem entries_erase (d : Dictionary κ α) (k : κ) :
    (d.erase k).entries = d.entries.filter fun entry => entry.1 ≠ k := by
  have herase : ∀ entries : List (Sigma fun _ : κ => α), entries.NodupKeys →
      List.kerase k entries = entries.filter fun entry => entry.1 ≠ k := by
    intro entries hnodup
    induction entries with
    | nil => rfl
    | cons entry entries ih =>
        rw [List.nodupKeys_cons] at hnodup
        by_cases heq : k = entry.1
        · have hrest : ∀ other ∈ entries, other.1 ≠ k := by
            intro other hother hkey
            exact hnodup.1 (heq ▸ hkey ▸ List.mem_map_of_mem hother)
          rw [List.kerase_cons_eq heq, List.filter_cons_of_neg (by simp [heq]),
            List.filter_eq_self.mpr (by simpa using hrest)]
        · rw [List.kerase_cons_ne heq, ih hnodup.2,
            List.filter_cons_of_pos (by simpa using Ne.symm heq)]
  exact herase d.entries d.nodupKeys

/-- At most one entry has a key. -/
theorem countP_key (d : Dictionary κ α) (k : κ) (p : Sigma (fun _ : κ => α) → Bool) :
    d.entries.countP (fun entry => entry.1 = k && p entry) =
      match d.lookup k with
      | some a => if p ⟨k, a⟩ then 1 else 0
      | none => 0 := by
  have hcount : ∀ entries : List (Sigma fun _ : κ => α), entries.NodupKeys →
      entries.countP (fun entry => entry.1 = k && p entry) =
        match List.dlookup k entries with
        | some a => if p ⟨k, a⟩ then 1 else 0
        | none => 0 := by
    intro entries hnodup
    induction entries with
    | nil => rfl
    | cons entry entries ih =>
        obtain ⟨key, a⟩ := entry
        rw [List.nodupKeys_cons] at hnodup
        by_cases heq : key = k
        · subst heq
          have hrest : entries.countP (fun entry => entry.1 = key && p entry) = 0 := by
            refine List.countP_eq_zero.mpr fun other hother hp => ?_
            rw [Bool.and_eq_true, decide_eq_true_eq] at hp
            exact hnodup.1 (List.mem_map.mpr ⟨other, hother, hp.1⟩)
          rw [List.dlookup_cons_eq, List.countP_cons, hrest]
          simp
        · rw [List.dlookup_cons_ne _ _ (Ne.symm heq), List.countP_cons, ih hnodup.2]
          simp [heq]
  exact hcount d.entries d.nodupKeys

/-! ### Values -/

/-- A dictionary with its values mapped. -/
def mapValues (f : α → β) (d : Dictionary κ α) : Dictionary κ β where
  entries := d.entries.map fun entry => ⟨entry.1, f entry.2⟩
  nodupKeys := by
    have hkeys : (d.entries.map fun entry => (⟨entry.1, f entry.2⟩ : Sigma fun _ : κ => β)).keys =
        d.entries.keys := by
      rw [List.keys, List.map_map]
      rfl
    rw [List.NodupKeys, hkeys]
    exact d.nodupKeys

theorem lookup_mapValues (f : α → β) (d : Dictionary κ α) (k : κ) :
    (mapValues f d).lookup k = (d.lookup k).map f := by
  have hentries : ∀ entries : List (Sigma fun _ : κ => α),
      List.dlookup k (entries.map fun entry => (⟨entry.1, f entry.2⟩ : Sigma fun _ : κ => β)) =
        (List.dlookup k entries).map f := by
    intro entries
    induction entries with
    | nil => rfl
    | cons entry entries ih =>
        obtain ⟨key, a⟩ := entry
        by_cases heq : k = key
        · subst heq
          rw [List.map_cons, List.dlookup_cons_eq, List.dlookup_cons_eq, Option.map_some]
        · rw [List.map_cons, List.dlookup_cons_ne _ _ heq, List.dlookup_cons_ne _ _ heq, ih]
  exact hentries d.entries

/-- Values that a map leaves as they are. -/
theorem mapValues_eq_self {f : α → α} {d : Dictionary κ α}
    (h : ∀ k a, d.lookup k = some a → f a = a) : mapValues f d = d := by
  refine AList.ext ?_
  rw [mapValues]
  conv_rhs => rw [← List.map_id d.entries]
  refine List.map_congr_left ?_
  rintro ⟨k, a⟩ hentry
  rw [id, h k a (AList.mem_lookup_iff.mpr hentry)]

/-! ### Totals -/

/-- What a key contributes to the total. -/
def value (weight : κ → α → ℤ) (d : Dictionary κ α) (k : κ) : ℤ :=
  match d.lookup k with
  | some a => weight k a
  | none => 0

/-- The total of a weight over all entries. -/
def total (weight : κ → α → ℤ) (d : Dictionary κ α) : ℤ :=
  (d.entries.map fun entry => weight entry.1 entry.2).sum

theorem value_of_some {weight : κ → α → ℤ} {d : Dictionary κ α} {k : κ} {a : α}
    (h : d.lookup k = some a) : value weight d k = weight k a := by
  rw [value, h]

theorem value_of_none {weight : κ → α → ℤ} {d : Dictionary κ α} {k : κ}
    (h : d.lookup k = none) : value weight d k = 0 := by
  rw [value, h]

/-- The total is the sum over the keys. -/
theorem total_eq_sum_keys (weight : κ → α → ℤ) (d : Dictionary κ α) :
    total weight d = ∑ k ∈ d.keys.toFinset, value weight d k := by
  have hentries : ∀ entry ∈ d.entries, weight entry.1 entry.2 = value weight d entry.1 := by
    intro entry hentry
    exact (value_of_some (AList.mem_lookup_iff.mpr hentry)).symm
  rw [List.sum_toFinset _ d.keys_nodup, total, List.map_congr_left hentries]
  simp only [AList.keys, List.keys, List.map_map]
  rfl

/-- **The total is the sum over any set that covers the keys**. -/
theorem total_eq_sum (weight : κ → α → ℤ) {d : Dictionary κ α} {keys : Finset κ}
    (hkeys : ∀ k, k ∈ d → k ∈ keys) : total weight d = ∑ k ∈ keys, value weight d k := by
  rw [total_eq_sum_keys]
  refine Finset.sum_subset ?_ ?_
  · intro k hk
    exact hkeys k (AList.mem_keys.mpr (List.mem_toFinset.mp hk))
  · intro k _ hk
    refine value_of_none (AList.lookup_eq_none.mpr fun hmem => hk ?_)
    exact List.mem_toFinset.mpr (AList.mem_keys.mp hmem)

/-! ### Dictionaries of lists -/

/-- The list under a key, empty where there is none, is extended. -/
def append (d : Dictionary κ (List β)) (k : κ) (items : List β) : Dictionary κ (List β) :=
  d.insert k ((d.lookup k).getD [] ++ items)

/-- The list under a key, empty where there is none. -/
def listAt (d : Dictionary κ (List β)) (k : κ) : List β :=
  (d.lookup k).getD []

theorem listAt_append (d : Dictionary κ (List β)) (k other : κ) (items : List β) :
    listAt (append d k items) other
      = listAt d other ++ if other = k then items else [] := by
  rw [listAt, append, lookup_insert_ite, listAt]
  split <;> rename_i h
  · rw [h, Option.getD_some]
  · rw [List.append_nil]

theorem mem_append {d : Dictionary κ (List β)} {k other : κ} {items : List β} :
    other ∈ append d k items ↔ other = k ∨ other ∈ d :=
  AList.mem_insert _

end Dictionary
