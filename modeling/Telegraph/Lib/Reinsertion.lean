import Mathlib.Data.List.Basic
import Mathlib.Data.List.InsertIdx

/-!
# Putting Elements Back

A new list is to replace an old one, but some elements of the old list that the new one lacks are
kept: each is put back, one after the other, at its old place, or before the last element where the
list is too short for that. On a list that is not empty this weaves the missing elements, in their
order, between the elements of the new list.

## Main results

* `foldl_putBack`: putting back one by one is `weave`.
* `filter_weave`, `filter_not_weave`: the new elements and the missing ones are all there, in order.
* `foldl_putBack_nil_iff`: in the empty list this is so for one missing element alone.
* `weave_again_iff`: **doing it again changes nothing, exactly when no new element before a missing
  one has been lost** in between.
-/

namespace Reinsertion

variable {α : Type*}

/-- An element is put back at its old place, or before the last element. -/
def putBack (current : List α) (entry : α × ℕ) : List α :=
  current.insertIdx (min entry.2 (current.length - 1)) entry.1

variable (missing : α → Bool)

/-- The missing elements of the old list are put between those of a new one. `waiting` elements of
the old list have been passed since the last one that was put back. -/
def weave : ℕ → List α → List α → List α
  | _, rest, [] => rest
  | waiting, rest, x :: old =>
      if missing x then
        rest.take (min waiting (rest.length - 1)) ++
          x :: weave (waiting - min waiting (rest.length - 1))
            (rest.drop (min waiting (rest.length - 1))) old
      else weave (waiting + 1) rest old

/-- How many elements that are not missing stand before the last one that is. -/
def othersBefore : List α → ℕ
  | [] => 0
  | x :: old =>
      if missing x then othersBefore old
      else if old.any missing then othersBefore old + 1
      else 0

/-- How many new elements stand before the last one that is put back. -/
def wovenBefore (waiting : ℕ) (rest old : List α) : ℕ :=
  if old.any missing then min (waiting + othersBefore missing old) (rest.length - 1) else 0

variable {missing} {rest old : List α} {x : α}

/-- Without missing elements nothing stands before one. -/
theorem othersBefore_of_none (hold : ¬ old.any missing) : othersBefore missing old = 0 := by
  cases old with
  | nil => rfl
  | cons y old =>
      rw [List.any_cons, Bool.or_eq_true, not_or] at hold
      rw [othersBefore, if_neg hold.1, if_neg hold.2]

/-- At the start of the old list. -/
theorem wovenBefore_zero (rest old : List α) :
    wovenBefore missing 0 rest old = min (othersBefore missing old) (rest.length - 1) := by
  rw [wovenBefore, Nat.zero_add]
  split
  case isTrue => rfl
  case isFalse hold => rw [othersBefore_of_none hold, Nat.zero_min]

/-- Without missing elements nothing is put back. -/
theorem weave_of_none (hold : ∀ y ∈ old, missing y = false) (waiting : ℕ) :
    weave missing waiting rest old = rest := by
  induction old generalizing waiting with
  | nil => rfl
  | cons y old ih =>
      rw [weave, if_neg (by rw [hold y List.mem_cons_self]; exact nofun)]
      exact ih (fun z hz => hold z (List.mem_cons_of_mem _ hz)) _

/-- Elements that are not missing are passed. -/
theorem weave_append {passed : List α} (hpassed : ∀ y ∈ passed, missing y = false) (waiting : ℕ) :
    weave missing waiting rest (passed ++ old) =
      weave missing (waiting + passed.length) rest old := by
  induction passed generalizing waiting with
  | nil => rfl
  | cons y passed ih =>
      rw [List.cons_append, weave, if_neg (by rw [hpassed y List.mem_cons_self]; exact nofun),
        ih (fun z hz => hpassed z (List.mem_cons_of_mem _ hz)), List.length_cons]
      congr 1
      omega

/-! ### Order -/

/-- The elements of the new list are all there, in their order. -/
theorem filter_weave {test : α → Bool} (hrest : ∀ y ∈ rest, test y = true)
    (hmissing : ∀ y, missing y = true → test y = false) (waiting : ℕ) :
    (weave missing waiting rest old).filter test = rest := by
  induction old generalizing waiting rest with
  | nil => exact List.filter_eq_self.mpr hrest
  | cons x old ih =>
      rw [weave]
      split
      case isTrue hx =>
        rw [List.filter_append, List.filter_cons_of_neg (by rw [hmissing x hx]; exact nofun),
          ih fun y hy => hrest y (List.mem_of_mem_drop hy),
          List.filter_eq_self.mpr fun y hy => hrest y (List.mem_of_mem_take hy),
          List.take_append_drop]
      case isFalse => exact ih hrest _

/-- The missing elements are all there, in their order. -/
theorem filter_not_weave {test : α → Bool} (hrest : ∀ y ∈ rest, test y = false)
    (hmissing : ∀ y, missing y = true → test y = true) (waiting : ℕ) :
    (weave missing waiting rest old).filter test = old.filter missing := by
  induction old generalizing waiting rest with
  | nil =>
      rw [weave, List.filter_nil, List.filter_eq_nil_iff]
      exact fun y hy => by rw [hrest y hy]; exact nofun
  | cons x old ih =>
      rw [weave]
      split
      case isTrue hx =>
        rw [List.filter_append, List.filter_cons_of_pos (hmissing x hx),
          ih fun y hy => hrest y (List.mem_of_mem_drop hy), List.filter_cons_of_pos hx,
          List.filter_eq_nil_iff.mpr fun y hy => by
            rw [hrest y (List.mem_of_mem_take hy)]; exact nofun,
          List.nil_append]
      case isFalse hx =>
        rw [ih hrest, List.filter_cons_of_neg hx]

/-! ### One after the other -/

/-- Inserting behind a prefix. -/
theorem insertIdx_append_length (before rest : List α) (x : α) (i : ℕ) :
    (before ++ rest).insertIdx (before.length + i) x = before ++ rest.insertIdx i x := by
  induction before with
  | nil => rw [List.length_nil, Nat.zero_add, List.nil_append, List.nil_append]
  | cons y before ih =>
      rw [List.length_cons, Nat.add_right_comm, List.cons_append, List.insertIdx_succ_cons, ih,
        List.cons_append]

/-- Inserting parts a list in two. -/
theorem insertIdx_eq_take_drop {i : ℕ} (hi : i ≤ rest.length) :
    rest.insertIdx i x = rest.take i ++ x :: rest.drop i := by
  have hsplit := insertIdx_append_length (rest.take i) (rest.drop i) x 0
  rwa [List.take_append_drop, List.length_take_of_le hi, Nat.add_zero, List.insertIdx_zero]
    at hsplit

/-- **Putting the missing elements back one by one weaves them into the list.** -/
theorem foldl_putBack (hrest : rest ≠ []) (before : List α) (waiting : ℕ) :
    (((old.zipIdx (before.length + waiting)).filter fun entry => missing entry.1).foldl putBack
        (before ++ rest)) = before ++ weave missing waiting rest old := by
  induction old generalizing before waiting rest with
  | nil => rfl
  | cons x old ih =>
      have hpos := List.length_pos_iff.mpr hrest
      rw [List.zipIdx_cons, weave]
      split
      case isTrue hx =>
        have hinsert : putBack (before ++ rest) (x, before.length + waiting) =
            (before ++ rest.take (min waiting (rest.length - 1)) ++ [x]) ++
              rest.drop (min waiting (rest.length - 1)) := by
          rw [putBack, List.length_append, show
              min (before.length + waiting) (before.length + rest.length - 1) =
                before.length + min waiting (rest.length - 1) by omega,
            insertIdx_append_length, insertIdx_eq_take_drop (by omega)]
          simp only [List.append_assoc, List.singleton_append]
        rw [List.filter_cons_of_pos (by exact hx), List.foldl_cons, hinsert]
        have hplace : before.length + waiting + 1 =
            (before ++ rest.take (min waiting (rest.length - 1)) ++ [x]).length +
              (waiting - min waiting (rest.length - 1)) := by
          rw [List.length_append, List.length_append, List.length_take_of_le (by omega),
            List.length_singleton]
          omega
        rw [hplace, ih]
        · simp only [List.append_assoc, List.singleton_append]
        · exact List.ne_nil_of_length_pos (by rw [List.length_drop]; omega)
      case isFalse hx =>
        rw [List.filter_cons_of_neg (by exact hx), Nat.add_assoc, ih hrest]

/-! ### Into the empty list -/

/-- Putting elements back keeps the order of the others. -/
theorem sublist_foldl_putBack (entries : List (α × ℕ)) (current : List α) :
    current.Sublist (entries.foldl putBack current) := by
  induction entries generalizing current with
  | nil => exact List.Sublist.refl _
  | cons entry entries ih => exact (List.sublist_insertIdx _ _ _).trans (ih _)

/-- **In the empty list the missing elements are in order only where there is at most one**: the
second is put before the first. -/
theorem foldl_putBack_nil_iff {entries : List (α × ℕ)}
    (hnodup : (entries.map Prod.fst).Nodup) :
    entries.foldl putBack [] = entries.map Prod.fst ↔ entries.length ≤ 1 := by
  match entries with
  | [] => exact ⟨fun _ => Nat.zero_le 1, fun _ => rfl⟩
  | [entry] =>
      refine ⟨fun _ => Nat.le_refl 1, fun _ => ?_⟩
      rw [List.foldl_cons, List.foldl_nil, putBack, List.length_nil, Nat.zero_sub, Nat.min_zero]
      rfl
  | first :: second :: entries =>
      refine ⟨fun h => ?_, fun h => absurd h (by simp only [List.length_cons]; omega)⟩
      have hswapped :
          [second.1, first.1].Sublist (first.1 :: second.1 :: entries.map Prod.fst) := by
        have hkeeps := sublist_foldl_putBack entries [second.1, first.1]
        have htwo : putBack (putBack [] first) second = [second.1, first.1] := by
          rw [putBack, putBack, List.length_nil, Nat.zero_sub, Nat.min_zero, List.insertIdx_zero,
            List.length_singleton, Nat.sub_self, Nat.min_zero, List.insertIdx_zero]
        rw [← htwo, ← List.foldl_cons, ← List.foldl_cons, h, htwo] at hkeeps
        exact hkeeps
      rw [List.map_cons, List.map_cons, List.nodup_cons] at hnodup
      rcases List.sublist_cons_iff.mp hswapped with hrest | ⟨tail, heq, -⟩
      · exact absurd (hrest.subset (List.mem_cons_of_mem _ List.mem_cons_self)) hnodup.1
      · exact absurd (List.mem_cons.mpr (Or.inl (List.cons.inj heq).1.symm)) hnodup.1

/-! ### Again -/

/-- What is taken of a list up to two places. -/
theorem take_take_drop (i j : ℕ) : rest.take i ++ (rest.drop i).take j = rest.take (i + j) :=
  List.take_add.symm

/-- The prefixes before an element that they lack are compared by themselves. -/
theorem append_cons_inj {front back front' back' : List α} (hfront : x ∉ front)
    (hfront' : x ∉ front') :
    front ++ x :: back = front' ++ x :: back' ↔ front = front' ∧ back = back' := by
  refine ⟨fun h => ?_, fun ⟨hf, hb⟩ => by rw [hf, hb]⟩
  induction front generalizing front' with
  | nil =>
      cases front' with
      | nil => exact ⟨rfl, (List.cons.inj h).2⟩
      | cons y front' =>
          exact absurd (List.mem_cons.mpr (Or.inl (List.cons.inj h).1)) hfront'
  | cons y front ih =>
      cases front' with
      | nil => exact absurd (List.mem_cons.mpr (Or.inl (List.cons.inj h).1.symm)) hfront
      | cons z front' =>
          obtain ⟨rfl, htail⟩ := List.cons.inj h
          obtain ⟨rfl, hback⟩ := ih (fun hx => hfront (List.mem_cons_of_mem _ hx))
            (fun hx => hfront' (List.mem_cons_of_mem _ hx)) htail
          exact ⟨rfl, hback⟩

/-- A shorter prefix is the longer one when nothing was lost of that. -/
theorem take_length_filter_eq_iff {kept : α → Bool} {i : ℕ} (hi : i ≤ rest.length) :
    rest.take ((rest.take i).filter kept).length = rest.take i ↔
      ∀ y ∈ rest.take i, kept y = true := by
  have hlength := List.length_take_of_le hi
  constructor
  · intro h
    have hle := le_of_le_of_eq (List.length_filter_le kept (rest.take i)) hlength
    have heq := congrArg List.length h
    rw [List.length_take_of_le (Nat.le_trans hle hi)] at heq
    exact List.length_filter_eq_length_iff.mp heq
  · intro h
    rw [List.length_filter_eq_length_iff.mpr h, hlength]

/-- **Doing it again, with what is kept of the result as the old list, changes nothing exactly when
the new elements before the last missing one are all kept.** -/
theorem weave_again_iff {kept : α → Bool} (hrest : ∀ y ∈ rest, missing y = false)
    (hne : rest ≠ []) (hkept : ∀ y ∈ old, missing y = true → kept y = true) (waiting : ℕ) :
    weave missing 0 rest ((weave missing waiting rest old).filter kept) =
        weave missing waiting rest old ↔
      ∀ y ∈ rest.take (wovenBefore missing waiting rest old), kept y = true := by
  induction old generalizing waiting rest with
  | nil =>
      rw [weave, weave_of_none fun y hy => hrest y (List.mem_of_mem_filter hy), wovenBefore,
        List.any_nil, if_neg nofun, List.take_zero]
      exact ⟨fun _ y hy => absurd hy List.not_mem_nil, fun _ => rfl⟩
  | cons x old ih =>
      have hpos := List.length_pos_iff.mpr hne
      have hkept' : ∀ y ∈ old, missing y = true → kept y = true :=
        fun y hy => hkept y (List.mem_cons_of_mem _ hy)
      rw [weave]
      split
      case isTrue hx =>
        set place := min waiting (rest.length - 1) with hplace
        have hnotin : x ∉ rest := fun hmem => absurd hx (by rw [hrest x hmem]; exact nofun)
        have hle : ((rest.take place).filter kept).length ≤ place :=
          Nat.le_trans (List.length_filter_le _ _) (List.length_take_le _ _)
        have hmin : min ((rest.take place).filter kept).length (rest.length - 1) =
            ((rest.take place).filter kept).length := by omega
        rw [List.filter_append, List.filter_cons_of_pos (hkept x List.mem_cons_self hx),
          weave_append fun y hy => hrest y (List.mem_of_mem_take (List.mem_of_mem_filter hy)),
          Nat.zero_add, weave, if_pos hx, hmin, Nat.sub_self,
          append_cons_inj (fun h => hnotin (List.mem_of_mem_take h))
            (fun h => hnotin (List.mem_of_mem_take h)),
          take_length_filter_eq_iff (by omega)]
        have hthen := ih
          (show ∀ y ∈ rest.drop place, missing y = false from
            fun y hy => hrest y (List.mem_of_mem_drop hy))
          (List.ne_nil_of_length_pos (by rw [List.length_drop]; omega)) hkept' (waiting - place)
        have htake : rest.take (wovenBefore missing waiting rest (x :: old)) =
            rest.take place ++ (rest.drop place).take
              (wovenBefore missing (waiting - place) (rest.drop place) old) := by
          rw [take_take_drop]
          congr 1
          rw [wovenBefore, wovenBefore, List.any_cons, hx, Bool.true_or, if_pos rfl,
            othersBefore, if_pos hx, List.length_drop]
          split
          · omega
          · rename_i hany
            rw [othersBefore_of_none hany]
            omega
        rw [htake, List.forall_mem_append]
        refine and_congr_right fun hall => ?_
        rw [List.length_filter_eq_length_iff.mpr hall, List.length_take_of_le (by omega)]
        exact hthen
      case isFalse hx =>
        rw [ih hrest hne hkept', wovenBefore, wovenBefore, List.any_cons, othersBefore, if_neg hx,
          Bool.eq_false_iff.mpr hx, Bool.false_or]
        split
        · rw [Nat.add_assoc, Nat.add_comm 1]
        · rfl

end Reinsertion
