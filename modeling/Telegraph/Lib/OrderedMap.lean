import Mathlib.Data.List.Nodup
import Mathlib.Data.List.Sort

/-!
# Ordered Maps

A map that lists its entries in the order of their keys, as a store does that is read with a
cursor. A map is determined by its lookups, and so is what a cursor passes between two bounds.

## Main results

* `OrderedMap`: the entries carry the proof that they are sorted by key.
* `lookup_insert`, `lookup_erase`: the map after a change.
* `enumerate_eq`: a cursor passes the entries between its bounds, until it is stopped.
* `between_eq`: **a sorted list of the entries between two bounds is what the cursor passes.**
-/

/-- A map whose entries are sorted by key. -/
structure OrderedMap (κ α : Type*) [LinearOrder κ] where
  entries : List (κ × α)
  sorted : entries.Pairwise fun entry other => entry.1 < other.1

namespace OrderedMap

variable {κ α σ : Type*} [LinearOrder κ]

/-- The map without entries. -/
def empty : OrderedMap κ α := ⟨[], List.Pairwise.nil⟩

/-- The value of a key. -/
def lookup (m : OrderedMap κ α) (k : κ) : Option α :=
  (m.entries.find? fun entry => entry.1 = k).map Prod.snd

/-- A key is given a value. -/
def insert (m : OrderedMap κ α) (k : κ) (a : α) : OrderedMap κ α where
  entries := (m.entries.filter fun entry => entry.1 < k) ++
    (k, a) :: m.entries.filter fun entry => k < entry.1
  sorted := by
    have hrest : ∀ entry ∈ m.entries.filter fun entry => k < entry.1, k < entry.1 :=
      fun entry hentry => of_decide_eq_true (List.mem_filter.mp hentry).2
    refine List.pairwise_append.mpr ⟨m.sorted.filter _,
      List.pairwise_cons.mpr ⟨hrest, m.sorted.filter _⟩, fun entry hentry other hother => ?_⟩
    have hlow : entry.1 < k := of_decide_eq_true (List.mem_filter.mp hentry).2
    rcases List.mem_cons.mp hother with rfl | hother
    · exact hlow
    · exact hlow.trans (hrest other hother)

/-- A key is removed. -/
def erase (m : OrderedMap κ α) (k : κ) : OrderedMap κ α :=
  ⟨m.entries.filter fun entry => entry.1 ≠ k, m.sorted.filter _⟩

/-- The entries from a lower bound on, below an upper bound. -/
def between (m : OrderedMap κ α) (lower upper : κ) : List (κ × α) :=
  m.entries.filter fun entry => lower ≤ entry.1 ∧ entry.1 < upper

/-! ### Lookups -/

section Lookup

variable {m : OrderedMap κ α} {k other : κ} {a : α}

/-- A key has one value. -/
theorem eq_of_mem {b : α} (ha : (k, a) ∈ m.entries) (hb : (k, b) ∈ m.entries) : a = b := by
  have hnodup : (m.entries.map Prod.fst).Nodup :=
    List.pairwise_map.mpr (m.sorted.imp fun h => ne_of_lt h)
  exact (Prod.mk.inj (List.inj_on_of_nodup_map hnodup ha hb rfl)).2

theorem key_of_find {entries : List (κ × α)} {entry : κ × α}
    (h : entries.find? (fun entry => entry.1 = k) = some entry) : entry.1 = k := by
  have hfound := List.find?_some h
  exact of_decide_eq_true hfound

theorem lookup_eq_some_iff : m.lookup k = some a ↔ (k, a) ∈ m.entries := by
  rw [lookup]
  constructor
  · intro h
    obtain ⟨entry, hfind, rfl⟩ := Option.map_eq_some_iff.mp h
    obtain rfl := key_of_find hfind
    exact List.mem_of_find?_eq_some hfind
  · intro hmem
    cases hfind : m.entries.find? fun entry => entry.1 = k with
    | none =>
        have hnone := List.find?_eq_none.mp hfind (k, a) hmem
        exact absurd (decide_eq_true rfl) hnone
    | some entry =>
        obtain rfl := key_of_find hfind
        rw [Option.map_some, eq_of_mem hmem (List.mem_of_find?_eq_some hfind)]

@[simp] theorem lookup_empty : (empty : OrderedMap κ α).lookup k = none := rfl

/-- Two maps with the same entries agree. -/
theorem lookup_congr {m' : OrderedMap κ α} (h : ∀ a, (k, a) ∈ m'.entries ↔ (other, a) ∈ m.entries) :
    m'.lookup k = m.lookup other := by
  apply Option.ext
  intro a
  rw [lookup_eq_some_iff, lookup_eq_some_iff]
  exact h a

theorem lookup_insert (m : OrderedMap κ α) (k other : κ) (a : α) :
    (m.insert k a).lookup other = if other = k then some a else m.lookup other := by
  split
  case isTrue heq =>
    subst heq
    exact lookup_eq_some_iff.mpr (List.mem_append_right _ List.mem_cons_self)
  case isFalse hne =>
    refine lookup_congr fun b => ?_
    simp only [insert, List.mem_append, List.mem_cons, List.mem_filter, decide_eq_true_eq,
      Prod.mk.injEq, hne, false_and, false_or]
    constructor
    · rintro (⟨hmem, -⟩ | ⟨hmem, -⟩)
      · exact hmem
      · exact hmem
    · intro hmem
      rcases lt_or_gt_of_ne hne with hlt | hlt
      · exact .inl ⟨hmem, hlt⟩
      · exact .inr ⟨hmem, hlt⟩

theorem lookup_erase (m : OrderedMap κ α) (k other : κ) :
    (m.erase k).lookup other = if other = k then none else m.lookup other := by
  split
  case isTrue heq =>
    subst heq
    refine Option.eq_none_iff_forall_ne_some.mpr fun b hb => ?_
    have hmem := List.mem_filter.mp (lookup_eq_some_iff.mp hb)
    exact absurd rfl (of_decide_eq_true hmem.2)
  case isFalse hne =>
    refine lookup_congr fun b => ?_
    simp only [erase, List.mem_filter, decide_eq_true_eq]
    exact and_iff_left hne

end Lookup

/-! ### Cursors -/

/-- What a cursor does from a position on: it passes entries below the upper bound, until the
block stops it. -/
def enumerateFrom (upper : κ) (block : σ → κ → α → σ × Bool) : List (κ × α) → σ → σ
  | [], st => st
  | (k, a) :: rest, st =>
      if k < upper then
        if (block st k a).2 then (block st k a).1
        else enumerateFrom upper block rest (block st k a).1
      else st

/-- A cursor is positioned at a lower bound, and passes entries below an upper bound. -/
def enumerate (m : OrderedMap κ α) (lower upper : κ) (block : σ → κ → α → σ × Bool) (st : σ) :
    σ :=
  enumerateFrom upper block (m.entries.dropWhile fun entry => entry.1 < lower) st

/-- The block is given entries until it stops. -/
def foldUntil (block : σ → κ → α → σ × Bool) : List (κ × α) → σ → σ
  | [], st => st
  | (k, a) :: rest, st =>
      if (block st k a).2 then (block st k a).1 else foldUntil block rest (block st k a).1

section Cursor

variable {m : OrderedMap κ α} {lower upper : κ}

theorem enumerateFrom_eq (block : σ → κ → α → σ × Bool) {entries : List (κ × α)}
    (hsorted : entries.Pairwise fun entry other => entry.1 < other.1) (st : σ) :
    enumerateFrom upper block entries st =
      foldUntil block (entries.filter fun entry => entry.1 < upper) st := by
  induction entries generalizing st with
  | nil => rfl
  | cons entry rest ih =>
      obtain ⟨k, a⟩ := entry
      obtain ⟨hfirst, hrest⟩ := List.pairwise_cons.mp hsorted
      rw [enumerateFrom]
      by_cases hk : k < upper
      · rw [if_pos hk, List.filter_cons_of_pos (by simpa using hk), foldUntil, ih hrest]
      · have hnone : rest.filter (fun entry => entry.1 < upper) = [] := by
          refine List.filter_eq_nil_iff.mpr fun entry hentry hlt => hk ?_
          exact (hfirst entry hentry).trans (of_decide_eq_true hlt)
        rw [if_neg hk, List.filter_cons_of_neg (by simpa using hk), hnone, foldUntil]

/-- A cursor that is positioned at a lower bound drops the entries below it. -/
theorem dropWhile_eq {entries : List (κ × α)}
    (hsorted : entries.Pairwise fun entry other => entry.1 < other.1) :
    (entries.dropWhile fun entry => entry.1 < lower) =
      entries.filter fun entry => lower ≤ entry.1 := by
  induction entries with
  | nil => rfl
  | cons entry rest ih =>
      obtain ⟨hfirst, hrest⟩ := List.pairwise_cons.mp hsorted
      by_cases hlow : entry.1 < lower
      · rw [List.dropWhile_cons_of_pos (by simpa using hlow),
          List.filter_cons_of_neg (by simpa using hlow), ih hrest]
      · have hall : ∀ other ∈ entry :: rest, lower ≤ other.1 := by
          intro other hother
          rcases List.mem_cons.mp hother with rfl | hother
          · exact not_lt.mp hlow
          · exact (not_lt.mp hlow).trans (hfirst other hother).le
        rw [List.dropWhile_cons_of_neg (by simpa using hlow),
          List.filter_eq_self.mpr (by simpa using hall)]

/-- A cursor passes the entries between its bounds, until it is stopped. -/
theorem enumerate_eq (m : OrderedMap κ α) (lower upper : κ) (block : σ → κ → α → σ × Bool)
    (st : σ) : m.enumerate lower upper block st = foldUntil block (m.between lower upper) st := by
  rw [enumerate, dropWhile_eq m.sorted, enumerateFrom_eq block (m.sorted.filter _),
    List.filter_filter, between]
  congr 1
  refine List.filter_congr fun entry _ => ?_
  rw [Bool.decide_and, Bool.and_comm]

theorem mem_between {k : κ} {a : α} :
    (k, a) ∈ m.between lower upper ↔ m.lookup k = some a ∧ lower ≤ k ∧ k < upper := by
  rw [between, List.mem_filter, lookup_eq_some_iff, decide_eq_true_eq]

/-- **A sorted list of the entries between two bounds is what the cursor passes.** -/
theorem between_eq {entries : List (κ × α)}
    (hsorted : entries.Pairwise fun entry other => entry.1 < other.1)
    (hmem : ∀ k a, (k, a) ∈ entries ↔ m.lookup k = some a ∧ lower ≤ k ∧ k < upper) :
    m.between lower upper = entries := by
  have hbetween : (m.between lower upper).Pairwise fun entry other => entry.1 < other.1 :=
    m.sorted.filter _
  have hnodup : ∀ {list : List (κ × α)},
      (list.Pairwise fun entry other => entry.1 < other.1) → list.Nodup := fun h =>
    h.imp fun hlt heq => absurd (congrArg Prod.fst heq) (ne_of_lt hlt)
  have hperm : (m.between lower upper).Perm entries :=
    (List.perm_ext_iff_of_nodup (hnodup hbetween) (hnodup hsorted)).mpr fun entry => by
      obtain ⟨k, a⟩ := entry
      rw [mem_between, hmem]
  exact hperm.eq_of_pairwise (fun _ _ _ _ h h' => absurd h' (lt_asymm h)) hbetween hsorted

end Cursor

end OrderedMap
