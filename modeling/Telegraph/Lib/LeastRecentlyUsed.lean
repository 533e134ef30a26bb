import Mathlib.Data.List.Infix
import Mathlib.Data.List.Nodup

/-!
# Least Recently Used Entries

A cache of bounded size lists its entries in the order of their last use. An entry is stamped by
a clock when it is stored or used; to make room the oldest ones are evicted.

## Main results

* `Recency`: the entries carry the proof that they are sorted by their stamps.
* `isShortestPrefix_evicted`: **what is evicted is the shortest prefix that makes room.**
* `total_store_le`: the total size never exceeds the maximum.
-/

namespace LeastRecentlyUsed

/-- An entry, with the time of its last use. -/
structure Entry (κ α : Type*) where
  stamp : ℕ
  key : κ
  value : α

/-- Entries in the order of their last use. -/
structure Recency (κ α : Type*) where
  entries : List (Entry κ α)
  clock : ℕ
  sorted : entries.Pairwise fun entry other => entry.stamp < other.stamp
  nodup : (entries.map Entry.key).Nodup
  stamped : ∀ entry ∈ entries, 0 < entry.stamp ∧ entry.stamp ≤ clock

variable {κ α : Type*} (size : α → ℕ)

/-- The total size of the entries. -/
def total : List (Entry κ α) → ℕ
  | [] => 0
  | entry :: entries => size entry.value + total entries

/-- The oldest entries, up to a total of `n`. -/
def evicted : ℕ → List (Entry κ α) → List (Entry κ α)
  | _, [] => []
  | n, entry :: rest =>
      entry :: if n ≤ size entry.value then [] else evicted (n - size entry.value) rest

/-- What is left without the oldest entries, up to a total of `n`. -/
def kept : ℕ → List (Entry κ α) → List (Entry κ α)
  | _, [] => []
  | n, entry :: rest =>
      if n ≤ size entry.value then rest else kept (n - size entry.value) rest

/-- The shortest prefix of entries with a total of `n`, or all of them. -/
structure IsShortestPrefix (n : ℕ) (removed entries : List (Entry κ α)) : Prop where
  isPrefix : removed <+: entries
  enough : n ≤ total size removed ∨ removed = entries
  shortest : ∀ shorter, shorter <+: removed → shorter ≠ removed → total size shorter < n

/-! ### Evictions -/

section Evict

variable {n : ℕ} {entries : List (Entry κ α)}

@[simp] theorem total_nil : total size ([] : List (Entry κ α)) = 0 := rfl

@[simp] theorem total_cons (entry : Entry κ α) (entries : List (Entry κ α)) :
    total size (entry :: entries) = size entry.value + total size entries := rfl

theorem total_append (entries others : List (Entry κ α)) :
    total size (entries ++ others) = total size entries + total size others := by
  induction entries with
  | nil => rw [List.nil_append, total_nil, Nat.zero_add]
  | cons entry entries ih => rw [List.cons_append, total_cons, total_cons, ih, Nat.add_assoc]

theorem total_le_of_sublist {others : List (Entry κ α)} (h : others.Sublist entries) :
    total size others ≤ total size entries := by
  induction h with
  | slnil => exact Nat.le_refl _
  | cons entry _ ih =>
      rw [total_cons]
      omega
  | cons_cons entry _ ih =>
      rw [total_cons, total_cons]
      omega

theorem evicted_append_kept (n : ℕ) (entries : List (Entry κ α)) :
    evicted size n entries ++ kept size n entries = entries := by
  induction entries generalizing n with
  | nil => rfl
  | cons entry rest ih =>
      rw [evicted, kept]
      split
      · rfl
      · rw [List.cons_append, ih]

theorem kept_sublist (n : ℕ) (entries : List (Entry κ α)) :
    (kept size n entries).Sublist entries := by
  have hsub := List.sublist_append_right (evicted size n entries) (kept size n entries)
  rwa [evicted_append_kept size] at hsub

/-- What is evicted suffices, or nothing is left. -/
theorem le_total_evicted (n : ℕ) (entries : List (Entry κ α)) :
    n ≤ total size (evicted size n entries) ∨ kept size n entries = [] := by
  induction entries generalizing n with
  | nil => exact .inr rfl
  | cons entry rest ih =>
      rw [evicted, kept]
      split
      case isTrue h =>
        rw [total_cons, total_nil]
        exact .inl h
      case isFalse h =>
        refine (ih (n - size entry.value)).imp_left fun h => ?_
        rw [total_cons]
        omega

/-- **What is evicted is the shortest prefix that makes room.** -/
theorem isShortestPrefix_evicted (hn : 0 < n) (entries : List (Entry κ α)) :
    IsShortestPrefix size n (evicted size n entries) entries := by
  refine ⟨⟨_, evicted_append_kept size n entries⟩, ?_, ?_⟩
  · refine (le_total_evicted size n entries).imp_right fun hnil => ?_
    have happend := evicted_append_kept size n entries
    rwa [hnil, List.append_nil] at happend
  · induction entries generalizing n with
    | nil =>
        intro shorter hshorter hne
        exact absurd (List.prefix_nil.mp hshorter) hne
    | cons entry rest ih =>
        intro shorter hshorter hne
        cases shorter with
        | nil => exact hn
        | cons first shorter =>
            rw [evicted] at hshorter hne
            obtain ⟨rfl, hshorter⟩ := List.cons_prefix_cons.mp hshorter
            split at hshorter
            case isTrue h =>
              rw [if_pos h] at hne
              rw [List.prefix_nil.mp hshorter] at hne
              exact absurd rfl hne
            case isFalse h =>
              rw [if_neg h] at hne
              have hrest := ih (by omega) shorter hshorter fun heq => hne (by rw [heq])
              rw [total_cons]
              omega

end Evict

/-! ### Uses -/

namespace Recency

/-- No entries. -/
def empty : Recency κ α :=
  ⟨[], 0, List.Pairwise.nil, List.nodup_nil, fun _ h => absurd h List.not_mem_nil⟩

/-- The oldest entries are removed, up to a total of `n`. -/
def evict (r : Recency κ α) (n : ℕ) : Recency κ α where
  entries := kept size n r.entries
  clock := r.clock
  sorted := r.sorted.sublist (kept_sublist size n r.entries)
  nodup := r.nodup.sublist ((kept_sublist size n r.entries).map _)
  stamped := fun entry hentry => r.stamped entry ((kept_sublist size n r.entries).subset hentry)

variable [DecidableEq κ]

/-- A key is used, with a value: it becomes the last one. -/
def touch (r : Recency κ α) (key : κ) (value : α) : Recency κ α where
  entries := (r.entries.filter fun entry => entry.key ≠ key) ++ [⟨r.clock + 1, key, value⟩]
  clock := r.clock + 1
  sorted := by
    refine List.pairwise_append.mpr ⟨r.sorted.filter _, List.pairwise_singleton _ _, ?_⟩
    intro entry hentry other hother
    obtain rfl := List.mem_singleton.mp hother
    exact Nat.lt_succ_of_le (r.stamped entry (List.mem_filter.mp hentry).1).2
  nodup := by
    rw [List.map_append]
    refine List.nodup_append'.mpr ⟨r.nodup.sublist (List.filter_sublist.map _),
      List.nodup_singleton _, ?_⟩
    intro other hother hkey
    obtain ⟨entry, hentry, rfl⟩ := List.mem_map.mp hother
    exact of_decide_eq_true (List.mem_filter.mp hentry).2 (List.mem_singleton.mp hkey)
  stamped := by
    intro entry hentry
    rcases List.mem_append.mp hentry with hentry | hentry
    · obtain ⟨hpos, hle⟩ := r.stamped entry (List.mem_filter.mp hentry).1
      exact ⟨hpos, Nat.le_succ_of_le hle⟩
    · obtain rfl := List.mem_singleton.mp hentry
      exact ⟨Nat.succ_pos _, Nat.le_refl _⟩

/-- The entry of a key. -/
def find (r : Recency κ α) (key : κ) : Option (Entry κ α) :=
  r.entries.find? fun entry => entry.key = key

/-- A value is stored: where it does not fit, the oldest entries make room. -/
def store (maxSize : ℕ) (r : Recency κ α) (key : κ) (value : α) : Recency κ α :=
  if maxSize < total size r.entries + size value then (r.evict size (size value)).touch key value
  else r.touch key value

/-- A key is used that may be there. -/
def use (r : Recency κ α) (key : κ) : Recency κ α :=
  match r.find key with
  | none => r
  | some entry => r.touch key entry.value

section Bounds

variable {maxSize : ℕ} {r : Recency κ α} {key : κ} {value : α}

theorem mem_touch {entry : Entry κ α} : entry ∈ (r.touch key value).entries ↔
    entry ∈ r.entries ∧ entry.key ≠ key ∨ entry = ⟨r.clock + 1, key, value⟩ := by
  simp only [touch, List.mem_append, List.mem_filter, decide_eq_true_eq, List.mem_singleton]

omit [DecidableEq κ] in
/-- A key has one entry. -/
theorem eq_of_key_eq {entry other : Entry κ α} (hentry : entry ∈ r.entries)
    (hother : other ∈ r.entries) (hkey : entry.key = other.key) : entry = other :=
  List.inj_on_of_nodup_map r.nodup hentry hother hkey

theorem find_eq_some_iff {entry : Entry κ α} :
    r.find key = some entry ↔ entry ∈ r.entries ∧ entry.key = key := by
  constructor
  · intro h
    have hkey := List.find?_some h
    exact ⟨List.mem_of_find?_eq_some h, of_decide_eq_true hkey⟩
  · rintro ⟨hmem, rfl⟩
    rw [find]
    cases hfind : r.entries.find? fun other => other.key = entry.key with
    | none => exact absurd (decide_eq_true rfl) (List.find?_eq_none.mp hfind entry hmem)
    | some other =>
        have hkey := List.find?_some hfind
        rw [eq_of_key_eq (List.mem_of_find?_eq_some hfind) hmem (of_decide_eq_true hkey)]

theorem find_touch (r : Recency κ α) (key other : κ) (value : α) :
    (r.touch key value).find other =
      if other = key then some ⟨r.clock + 1, key, value⟩ else r.find other := by
  apply Option.ext
  intro entry
  rw [find_eq_some_iff, mem_touch]
  split
  case isTrue heq =>
    rw [Option.some_inj]
    constructor
    · rintro ⟨⟨-, hne⟩ | rfl, hkey⟩
      · exact absurd (hkey.trans heq) hne
      · rfl
    · rintro rfl
      exact ⟨.inr rfl, heq.symm⟩
  case isFalse hne =>
    rw [find_eq_some_iff]
    constructor
    · rintro ⟨⟨hmem, -⟩ | rfl, hkey⟩
      · exact ⟨hmem, hkey⟩
      · exact absurd hkey.symm hne
    · rintro ⟨hmem, rfl⟩
      exact ⟨.inl ⟨hmem, hne⟩, rfl⟩

omit [DecidableEq κ] in
/-- What is left are the entries of the keys that are not evicted. -/
theorem mem_evict {n : ℕ} {entry : Entry κ α} : entry ∈ (r.evict size n).entries ↔
    entry ∈ r.entries ∧ entry.key ∉ (evicted size n r.entries).map Entry.key := by
  have happend := evicted_append_kept size n r.entries
  have hnodup := r.nodup
  rw [← happend, List.map_append] at hnodup
  have hdisjoint := (List.nodup_append'.mp hnodup).2.2
  constructor
  · intro hmem
    exact ⟨(kept_sublist size n r.entries).subset hmem, fun hkey =>
      hdisjoint hkey (List.mem_map_of_mem hmem)⟩
  · rintro ⟨hmem, hkey⟩
    rw [← happend] at hmem
    rcases List.mem_append.mp hmem with hmem | hmem
    · exact absurd (List.mem_map_of_mem hmem) hkey
    · exact hmem

theorem find_evict (n : ℕ) (r : Recency κ α) (key : κ) : (r.evict size n).find key =
    if key ∈ (evicted size n r.entries).map Entry.key then none else r.find key := by
  apply Option.ext
  intro entry
  rw [find_eq_some_iff, mem_evict]
  split
  case isTrue hkey =>
    constructor
    · rintro ⟨⟨-, hnot⟩, rfl⟩
      exact absurd hkey hnot
    · intro h
      cases h
  case isFalse hkey =>
    rw [find_eq_some_iff]
    constructor
    · rintro ⟨⟨hmem, -⟩, rfl⟩
      exact ⟨hmem, rfl⟩
    · rintro ⟨hmem, rfl⟩
      exact ⟨⟨hmem, hkey⟩, rfl⟩

theorem total_touch_le (r : Recency κ α) (key : κ) (value : α) :
    total size (r.touch key value).entries ≤ total size r.entries + size value := by
  have hsub := total_le_of_sublist size
    (List.filter_sublist (p := fun entry : Entry κ α => decide (entry.key ≠ key)) (l := r.entries))
  simp only [touch, total_append, total_cons, total_nil]
  omega

/-- **The total size never exceeds the maximum.** -/
theorem total_store_le (htotal : total size r.entries ≤ maxSize) (hvalue : size value ≤ maxSize) :
    total size (r.store size maxSize key value).entries ≤ maxSize := by
  rw [store]
  split
  case isTrue hfull =>
    have htouch := total_touch_le size (r.evict size (size value)) key value
    have happend := congrArg (total size)
      (evicted_append_kept size (size value) r.entries)
    rw [total_append] at happend
    simp only [evict] at htouch
    simp only [evict]
    rcases le_total_evicted size (size value) r.entries with hle | hnil
    · omega
    · have hempty : total size (kept size (size value) r.entries) = 0 := by
        rw [hnil, total_nil]
      omega
  case isFalse hfits =>
    have htouch := total_touch_le size r key value
    omega

/-- A key that is used keeps its value. -/
theorem total_use_le (r : Recency κ α) (key : κ) :
    total size (r.use key).entries ≤ total size r.entries := by
  rw [use]
  split
  · exact Nat.le_refl _
  · rename_i entry hfind
    obtain ⟨hmem, rfl⟩ := find_eq_some_iff.mp hfind
    have hsplit : ∀ entries : List (Entry κ α), entry ∈ entries →
        total size (entries.filter fun other => other.key ≠ entry.key) + size entry.value ≤
          total size entries := by
      intro entries
      induction entries with
      | nil => exact fun h => absurd h List.not_mem_nil
      | cons first rest ih =>
          intro hentry
          have hsub := total_le_of_sublist size (List.filter_sublist
            (p := fun other : Entry κ α => decide (other.key ≠ entry.key)) (l := rest))
          rcases List.mem_cons.mp hentry with rfl | hentry
          · rw [List.filter_cons_of_neg (by simp), total_cons]
            omega
          · have hrest := ih hentry
            rw [total_cons]
            by_cases hkey : first.key = entry.key
            · rw [List.filter_cons_of_neg (by simpa using hkey)]
              omega
            · rw [List.filter_cons_of_pos (by simpa using hkey), total_cons]
              omega
    simp only [touch, total_append, total_cons, total_nil]
    exact hsplit r.entries hmem

end Bounds

end Recency

end LeastRecentlyUsed
