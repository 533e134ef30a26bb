import Mathlib.Algebra.Order.Ring.Int
import Mathlib.Data.List.Nodup
import Mathlib.Order.CompletePartialOrder
import Mathlib.Tactic.MkIffOfInductiveProp
import Mathlib.Data.Set.Lattice

/-!
# Chains of Steps of a Counter

Items that move a counter: an item `i` brings it from `value i - count i` to `value i`. This
module says what the maximal chain of some items from a stored counter is, and what becomes
of it when the items are collected in passes over the sorted list, each pass ending at the
first item that does not continue the counter.

Items may be listed more than once, and an item may move the counter by nothing.

## Main results

* `Collects.spec`: **what passes over the sorted items collect**, block by block.
* `Collects.isMaximalChain_iff`: when that is the maximal chain, and gaps are no false alarm.
-/

namespace Chains

variable {ι : Type*} (value count : ι → ℤ)

/-- The numbers that an item brings the counter over. -/
def span (i : ι) : Set ℤ := {x | value i - count i < x ∧ x ≤ value i}

/-- Items with different spans have no number in common. -/
def DisjointOrEqual (l : List ι) : Prop :=
  ∀ i ∈ l, ∀ j ∈ l, span value count i = span value count j ∨
    Disjoint (span value count i) (span value count j)

/-- Every item begins where the one before it ends. -/
def Continues : ℤ → List ι → Prop
  | _, [] => True
  | c, i :: l => c + count i = value i ∧ Continues (value i) l

/-- The counter behind a chain. -/
def chainEnd : ℤ → List ι → ℤ
  | c, [] => c
  | _, i :: l => chainEnd (value i) l

/-- The counters that chains of the items `l` lead to from `s`. -/
inductive Reached (s : ℤ) (l : List ι) : ℤ → Prop
  | start : Reached s l s
  | next {i : ι} : i ∈ l → Reached s l (value i - count i) → Reached s l (value i)

/-- **The maximal chain** of the items `l` above `s`: each span once, and no item left that
begins where the chain has been. -/
structure IsMaximalChain (s : ℤ) (l chain : List ι) : Prop where
  mem : ∀ i ∈ chain, i ∈ l
  above : ∀ i ∈ chain, s < value i
  continues : Continues value count s chain
  once : (chain.map fun i => (value i, count i)).Nodup
  maximal : ∀ i ∈ l, s < value i →
    (value i - count i = s ∨ ∃ j ∈ chain, value j = value i - count i) →
    (value i, count i) ∈ chain.map fun i => (value i, count i)

/-- How often an item that moves the counter to `c` is listed. -/
def movers (l : List ι) (c : ℤ) : ℕ :=
  l.countP fun i => decide (value i = c ∧ 0 < count i)

/-- How many items sit at `c` and move nothing. -/
def resting (l : List ι) (c : ℤ) : ℕ :=
  l.countP fun i => decide (value i = c ∧ count i = 0)

/-- What disturbs no collection in passes: an item that moves nothing lies in no span of a
chain, and where it sits at a counter of the chain it is the only one beside a single
mover; and an item of the chain is listed twice only if some item lies above the chain. -/
@[mk_iff]
structure Undisturbed (s : ℤ) (l : List ι) : Prop where
  outside : ∀ i ∈ l, count i = 0 → s < value i → ∀ j ∈ l,
    Reached value count s l (value j - count j) →
    ¬ (value j - count j < value i ∧ value i < value j)
  alone : ∀ i ∈ l, count i = 0 → s < value i → Reached value count s l (value i) →
    movers value count l (value i) + resting value count l (value i) ≤ 2
  repeated : ∀ c, s < c → Reached value count s l c → 2 ≤ movers value count l c →
    ∃ i ∈ l, ∀ c', Reached value count s l c' → c' < value i

/-- The order of the passes. -/
def Before (i j : ι) : Prop :=
  value i < value j ∨ value i = value j ∧ count j ≤ count i

/-- The first item does not continue the counter. -/
def Stuck (c : ℤ) (l : List ι) : Prop :=
  ∀ i ∈ l.head?, c + count i ≠ value i

/-- Collecting in passes from the counter `s`, out of the sorted items `l` above it. `gap`
tells whether a pass has left something. -/
inductive Collects : ℤ → List ι → List ι → Bool → Prop
  | stop {s : ℤ} {l : List ι} : Stuck value count s l → Collects s l [] (!l.isEmpty)
  | pass {s : ℤ} {taken rest l chain : List ι} {gap : Bool} : taken ≠ [] →
      Continues value count s taken → Stuck value count (chainEnd value s taken) rest →
      l.Perm ((taken ++ rest).filter fun i => chainEnd value s taken < value i) →
      l.Pairwise (Before value count) →
      Collects (chainEnd value s taken) l chain gap →
      Collects s (taken ++ rest) (taken ++ chain) (!rest.isEmpty || gap)

section Chain

variable {value count} {s c : ℤ} {l l' chain : List ι} {i j : ι}

@[simp] theorem chainEnd_append :
    chainEnd value s (l ++ l') = chainEnd value (chainEnd value s l) l' := by
  induction l generalizing s with
  | nil => rfl
  | cons i l ih => exact ih

theorem Continues.append (h : Continues value count s l)
    (h' : Continues value count (chainEnd value s l) l') : Continues value count s (l ++ l') := by
  induction l generalizing s with
  | nil => exact h'
  | cons i l ih => exact ⟨h.1, ih h.2 h'⟩

/-- A chain that is not empty ends at one of its items. -/
theorem exists_value_eq_chainEnd (value : ι → ℤ) (s : ℤ) (hne : l ≠ []) :
    ∃ i ∈ l, value i = chainEnd value s l := by
  induction l generalizing s with
  | nil => exact absurd rfl hne
  | cons i l ih =>
      cases l with
      | nil => exact ⟨i, List.mem_cons_self, rfl⟩
      | cons j l =>
          obtain ⟨k, hk, heq⟩ := ih (value i) (List.cons_ne_nil _ _)
          exact ⟨k, List.mem_cons_of_mem _ hk, heq⟩

/-- The end of a chain is its start or the counter of an item. -/
theorem chainEnd_eq_or (value : ι → ℤ) (s : ℤ) (l : List ι) :
    chainEnd value s l = s ∨ ∃ i ∈ l, value i = chainEnd value s l := by
  cases l with
  | nil => exact .inl rfl
  | cons i l => exact .inr (exists_value_eq_chainEnd value s (List.cons_ne_nil i l))

/-- A chain does not go back. -/
theorem Continues.bounds (h : Continues value count s l) (hcount : ∀ i ∈ l, 0 ≤ count i) :
    s ≤ chainEnd value s l ∧
      ∀ i ∈ l, s ≤ value i - count i ∧ value i ≤ chainEnd value s l := by
  induction l generalizing s with
  | nil => exact ⟨le_refl _, fun i hi => absurd hi List.not_mem_nil⟩
  | cons i l ih =>
      obtain ⟨hle, hbounds⟩ := ih h.2 fun j hj => hcount j (List.mem_cons_of_mem _ hj)
      have hfirst := hcount i List.mem_cons_self
      have hstep := h.1
      simp only [chainEnd]
      refine ⟨by omega, fun j hj => ?_⟩
      rcases List.mem_cons.mp hj with rfl | hj
      · exact ⟨by omega, hle⟩
      · have := hbounds j hj
        exact ⟨by omega, this.2⟩

/-- A chain goes on from every counter below its end. -/
theorem Continues.exists_next (h : Continues value count s l) (hcount : ∀ i ∈ l, 0 ≤ count i)
    (hstart : c = s ∨ ∃ i ∈ l, value i = c) (hend : c < chainEnd value s l) :
    ∃ i ∈ l, value i - count i = c ∧ c < value i := by
  induction l generalizing s with
  | nil =>
      rcases hstart with rfl | ⟨i, hi, -⟩
      · exact absurd hend (lt_irrefl _)
      · exact absurd hi List.not_mem_nil
  | cons i l ih =>
      have hstep := h.1
      have htail := fun j hj => hcount j (List.mem_cons_of_mem i hj)
      have hbounds := (h.2.bounds htail).2
      by_cases hc : c < value i
      · refine ⟨i, List.mem_cons_self, ?_, hc⟩
        rcases hstart with rfl | ⟨j, hj, rfl⟩
        · omega
        · rcases List.mem_cons.mp hj with rfl | hj
          · exact absurd hc (lt_irrefl _)
          · have := hbounds j hj
            have := htail j hj
            omega
      · have hstart' : c = value i ∨ ∃ j ∈ l, value j = c := by
          rcases hstart with rfl | ⟨j, hj, rfl⟩
          · have := hcount i List.mem_cons_self
            exact .inl (by omega)
          · rcases List.mem_cons.mp hj with rfl | hj
            · exact .inl rfl
            · exact .inr ⟨j, hj, rfl⟩
        obtain ⟨j, hj, hnext⟩ := ih h.2 htail hstart' hend
        exact ⟨j, List.mem_cons_of_mem _ hj, hnext⟩

/-- No item of a chain ends inside the span of another. -/
theorem Continues.not_inside (h : Continues value count s l) (hcount : ∀ i ∈ l, 0 ≤ count i)
    (hi : i ∈ l) (hj : j ∈ l) : ¬ (value j - count j < value i ∧ value i < value j) := by
  induction l generalizing s with
  | nil => exact absurd hi List.not_mem_nil
  | cons k l ih =>
      have htail := fun j hj => hcount j (List.mem_cons_of_mem k hj)
      have hbounds := (h.2.bounds htail).2
      rintro ⟨hlow, hhigh⟩
      rcases List.mem_cons.mp hi with rfl | hil
      · rcases List.mem_cons.mp hj with rfl | hjl
        · exact absurd hhigh (lt_irrefl _)
        · exact absurd (hbounds j hjl).1 (not_le_of_gt hlow)
      · rcases List.mem_cons.mp hj with rfl | hjl
        · have := hbounds i hil
          have := htail i hil
          omega
        · exact ih h.2 htail hil hjl ⟨hlow, hhigh⟩

/-- One item of a chain moves the counter to any of its counters. -/
theorem Continues.movers_eq_one (h : Continues value count s l) (hcount : ∀ i ∈ l, 0 ≤ count i)
    (hlt : s < c) (hmem : ∃ i ∈ l, value i = c) : movers value count l c = 1 := by
  induction l generalizing s with
  | nil =>
      obtain ⟨i, hi, -⟩ := hmem
      exact absurd hi List.not_mem_nil
  | cons k l ih =>
      have hstep := h.1
      have htail := fun j hj => hcount j (List.mem_cons_of_mem k hj)
      have hbounds := (h.2.bounds htail).2
      simp only [movers, List.countP_cons] at ih ⊢
      by_cases hk : value k = c
      · have hrest : (l.countP fun i => decide (value i = c ∧ 0 < count i)) = 0 := by
          refine List.countP_eq_zero.mpr fun i hi hmover => ?_
          have := of_decide_eq_true hmover
          have := hbounds i hi
          omega
        have hmoves : value k = c ∧ 0 < count k := ⟨hk, by omega⟩
        simp only [hrest, hmoves, and_self, decide_true, if_true, zero_add]
      · obtain ⟨i, hi, hic⟩ := hmem
        have hil : i ∈ l := by
          rcases List.mem_cons.mp hi with rfl | hil
          · exact absurd hic hk
          · exact hil
        have hbound := hbounds i hil
        have hnonneg := htail i hil
        simp only [hk, false_and, decide_false, Bool.false_eq_true, if_false, add_zero]
        exact ih h.2 htail (by omega) ⟨i, hil, hic⟩

/-- A chain leaves no number out. -/
theorem Continues.exists_span (h : Continues value count s l) {x : ℤ} (hlt : s < x)
    (hle : x ≤ chainEnd value s l) : ∃ i ∈ l, x ∈ span value count i := by
  induction l generalizing s with
  | nil => exact absurd hle (not_le_of_gt hlt)
  | cons i l ih =>
      have hstep := h.1
      by_cases hx : x ≤ value i
      · refine ⟨i, List.mem_cons_self, ?_⟩
        simp only [span, Set.mem_ofPred_eq]
        omega
      · obtain ⟨j, hj, hspan⟩ := ih h.2 (not_le.mp hx) hle
        exact ⟨j, List.mem_cons_of_mem _ hj, hspan⟩

/-- Where every item moves the counter, each one is listed once. -/
theorem Continues.once (h : Continues value count s l) (hcount : ∀ i ∈ l, 0 < count i) :
    (l.map fun i => (value i, count i)).Nodup := by
  induction l generalizing s with
  | nil => exact List.nodup_nil
  | cons i l ih =>
      have htail := fun j hj => hcount j (List.mem_cons_of_mem i hj)
      refine List.nodup_cons.mpr ⟨fun hmem => ?_, ih h.2 htail⟩
      obtain ⟨j, hj, heq⟩ := List.mem_map.mp hmem
      have := ((h.2.bounds fun k hk => (htail k hk).le).2 j hj).1
      have := htail j hj
      have := congrArg Prod.fst heq
      dsimp only at this
      omega

/-- Counters that are reached are not below the start. -/
theorem Reached.start_le (hcount : ∀ i ∈ l, 0 ≤ count i) (h : Reached value count s l c) :
    s ≤ c := by
  induction h with
  | start => exact le_refl _
  | next hi _ ih =>
      have := hcount _ hi
      omega

/-- A chain of listed items reaches its counters. -/
theorem Continues.reached (h : Continues value count s chain) (hmem : ∀ i ∈ chain, i ∈ l)
    (hi : i ∈ chain) : Reached value count s l (value i) := by
  have hstart : ∀ c, Reached value count s l c → Continues value count c chain →
      Reached value count s l (value i) := by
    clear h
    induction chain with
    | nil => exact absurd hi List.not_mem_nil
    | cons k chain ih =>
        intro c hc hcontinues
        have hk : Reached value count s l (value k) := by
          refine .next (hmem k List.mem_cons_self) ?_
          have := hcontinues.1
          rwa [show value k - count k = c by omega]
        rcases List.mem_cons.mp hi with rfl | hi
        · exact hk
        · exact ih (fun j hj => hmem j (List.mem_cons_of_mem _ hj)) hi _ hk hcontinues.2
  exact hstart s .start h

end Chain

/-! ### Passes -/

section Passes

variable {value count} {s c : ℤ} {taken rest l chain : List ι} {i j : ι} {gap : Bool}

theorem movers_append : movers value count (taken ++ rest) c =
    movers value count taken c + movers value count rest c :=
  List.countP_append

theorem resting_append : resting value count (taken ++ rest) c =
    resting value count taken c + resting value count rest c :=
  List.countP_append

/-- What is listed above a counter decides what is listed at a counter above it. -/
theorem countP_filter_above {p : ι → Prop} [DecidablePred p] (hlt : s < c)
    (hperm : chain.Perm (l.filter fun i => s < value i)) :
    (chain.countP fun i => decide (value i = c ∧ p i)) =
      l.countP fun i => decide (value i = c ∧ p i) := by
  rw [hperm.countP_eq, List.countP_filter]
  refine List.countP_congr fun i _ => ?_
  simp only [Bool.and_eq_true, decide_eq_true_eq]
  constructor
  · exact fun h => h.1
  · exact fun h => ⟨h, h.1 ▸ hlt⟩

/-- Items of the order after one that is at `c` are not below it. -/
theorem Before.value_le (h : Before value count i j) : value i ≤ value j := by
  rcases h with h | ⟨h, -⟩
  · exact h.le
  · exact h.le

/-- What a pass leaves is not below what it has taken. -/
theorem chainEnd_le_of_mem_rest (hsorted : (taken ++ rest).Pairwise (Before value count))
    (hne : taken ≠ []) (hj : j ∈ rest) : chainEnd value s taken ≤ value j := by
  obtain ⟨i, hi, heq⟩ := exists_value_eq_chainEnd value s hne
  exact heq ▸ ((List.pairwise_append.mp hsorted).2.2 i hi j hj).value_le

/-- **What a pass does at the counters it comes to**: it takes all there is, or leaves a second
mover and whatever rests there. -/
theorem block_of_pass (hsorted : (taken ++ rest).Pairwise (Before value count))
    (hcount : ∀ i ∈ taken ++ rest, 0 ≤ count i) (habove : ∀ i ∈ taken ++ rest, s < value i)
    (hcontinues : Continues value count s taken)
    (hstuck : Stuck value count (chainEnd value s taken) rest) (hi : i ∈ taken) :
    movers value count taken (value i) = 1 ∧
      (movers value count (taken ++ rest) (value i) = 1 ∧
          resting value count taken (value i) = resting value count (taken ++ rest) (value i) ∨
        2 ≤ movers value count (taken ++ rest) (value i) ∧
          resting value count taken (value i) = 0) := by
  have hcountTaken := fun j hj => hcount j (List.mem_append_left rest hj)
  have hone := hcontinues.movers_eq_one hcountTaken (habove i (List.mem_append_left _ hi))
    ⟨i, hi, rfl⟩
  refine ⟨hone, ?_⟩
  rw [movers_append, resting_append, hone]
  by_cases hrest : ∃ r ∈ rest, value r = value i
  · obtain ⟨r, hr, heq⟩ := hrest
    right
    cases rest with
    | nil => exact absurd hr List.not_mem_nil
    | cons h rest =>
        have hle := (hcontinues.bounds hcountTaken).2 i hi
        have hge := chainEnd_le_of_mem_rest (s := s) hsorted (List.ne_nil_of_mem hi)
          (List.mem_cons_self (a := h) (l := rest))
        have hhr : value h ≤ value r := by
          rcases List.mem_cons.mp hr with rfl | hr
          · exact le_refl _
          · exact (List.rel_of_pairwise_cons (List.pairwise_append.mp hsorted).2.1 hr).value_le
        have hh : value h = value i := by omega
        have hnot : chainEnd value s taken + count h ≠ value h := hstuck h rfl
        have hmoves : 0 < count h := by
          have := hcount h (List.mem_append_right _ List.mem_cons_self)
          omega
        constructor
        · have : 0 < movers value count (h :: rest) (value i) :=
            List.countP_pos_iff.mpr ⟨h, List.mem_cons_self, decide_eq_true ⟨hh, hmoves⟩⟩
          omega
        · refine List.countP_eq_zero.mpr fun t ht hrests => ?_
          obtain ⟨htv, htc⟩ := of_decide_eq_true hrests
          rcases (List.pairwise_append.mp hsorted).2.2 t ht h List.mem_cons_self with hb | ⟨-, hb⟩
          · omega
          · omega
  · left
    have hnone : ∀ p : ι → Prop, [DecidablePred p] →
        (rest.countP fun j => decide (value j = value i ∧ p j)) = 0 := by
      intro p _
      exact List.countP_eq_zero.mpr fun j hj hp => hrest ⟨j, hj, (of_decide_eq_true hp).1⟩
    exact ⟨by rw [movers, hnone], by rw [resting, resting, hnone, add_zero]⟩

/-- What passes have collected out of the items `l` above `s`. -/
structure Collected (value count : ι → ℤ) (s : ℤ) (l chain : List ι) (gap : Bool) : Prop where
  mem : ∀ i ∈ chain, i ∈ l
  first : ∀ i ∈ chain.head?, l.head? = some i
  continues : Continues value count s chain
  settled : ∀ i ∈ l, value i ≤ chainEnd value s chain → ∃ j ∈ chain, value j = value i
  blocks : ∀ i ∈ chain, movers value count chain (value i) = 1 ∧
    (movers value count l (value i) = 1 ∧
        resting value count chain (value i) = resting value count l (value i) ∨
      2 ≤ movers value count l (value i) ∧ resting value count chain (value i) = 0)
  stuck : ∃ rest, rest.Perm (l.filter fun i => chainEnd value s chain < value i) ∧
    rest.Pairwise (Before value count) ∧ Stuck value count (chainEnd value s chain) rest
  gap_iff : gap = true ↔ (∃ i ∈ l, chainEnd value s chain < value i) ∨
    ∃ i ∈ chain, 2 ≤ movers value count l (value i)

/-- Behind an item above its end that a pass has left, the next pass takes nothing. -/
theorem eq_nil_of_stuck (hsorted : (i :: rest).Pairwise (Before value count))
    (hstuck : c + count i ≠ value i) (hl : ∀ j ∈ l, j ∈ i :: rest) (hi : i ∈ l)
    (hsorted' : l.Pairwise (Before value count)) (hcontinues : Continues value count c chain)
    (hfirst : ∀ j ∈ chain.head?, l.head? = some j) : chain = [] := by
  cases chain with
  | nil => rfl
  | cons j chain =>
      obtain ⟨l', rfl⟩ := List.head?_eq_some_iff.mp (hfirst j rfl)
      have hji : j = i ∨ Before value count j i := by
        rcases List.mem_cons.mp hi with rfl | hi
        · exact .inl rfl
        · exact .inr (List.rel_of_pairwise_cons hsorted' hi)
      have hij : j = i ∨ Before value count i j := by
        rcases List.mem_cons.mp (hl j List.mem_cons_self) with rfl | hj
        · exact .inl rfl
        · exact .inr (List.rel_of_pairwise_cons hsorted hj)
      have hstep := hcontinues.1
      rcases hji with rfl | hji
      · exact absurd hstep hstuck
      rcases hij with rfl | hij
      · exact absurd hstep hstuck
      simp only [Before] at hji hij
      omega

/-- **What passes collect.** -/
theorem Collects.spec (h : Collects value count s l chain gap)
    (hsorted : l.Pairwise (Before value count)) (hcount : ∀ i ∈ l, 0 ≤ count i)
    (habove : ∀ i ∈ l, s < value i) : Collected value count s l chain gap := by
  induction h with
  | @stop s l hstuck =>
      have hall : (l.filter fun i => s < value i) = l :=
        List.filter_eq_self.mpr fun i hi => decide_eq_true (habove i hi)
      refine ⟨fun i hi => absurd hi List.not_mem_nil, fun i hi => (by cases hi), trivial,
        fun i hi hle => absurd (habove i hi) (not_lt_of_ge hle),
        fun i hi => absurd hi List.not_mem_nil,
        ⟨l, .of_eq hall.symm, hsorted, hstuck⟩, ?_⟩
      cases l with
      | nil => simp only [List.isEmpty_nil, Bool.not_true, Bool.false_eq_true, List.not_mem_nil,
          false_and, exists_false, or_self]
      | cons i l =>
          simp only [List.isEmpty_cons, Bool.not_false, true_iff]
          exact .inl ⟨i, List.mem_cons_self, habove i List.mem_cons_self⟩
  | @pass s taken rest l chain gap hne hcontinues hstuck hperm hsorted' _ ih =>
      have hmem : ∀ i, i ∈ l ↔ i ∈ taken ++ rest ∧ chainEnd value s taken < value i := fun i => by
        rw [hperm.mem_iff, List.mem_filter, decide_eq_true_eq]
      have hcollected := ih hsorted' (fun i hi => hcount i ((hmem i).mp hi).1)
        (fun i hi => ((hmem i).mp hi).2)
      have hcountTaken := fun j hj => hcount j (List.mem_append_left rest hj)
      have hbounds := hcontinues.bounds hcountTaken
      have hend := (hcollected.continues.bounds fun i hi =>
        hcount i ((hmem i).mp (hcollected.mem i hi)).1).1
      have habove' : ∀ i ∈ chain, chainEnd value s taken < value i := fun i hi =>
        ((hmem i).mp (hcollected.mem i hi)).2
      have hlater : ∀ c, chainEnd value s taken < c →
          ∀ p : ι → Prop, [DecidablePred p] →
            (taken.countP fun i => decide (value i = c ∧ p i)) = 0 := by
        intro c hc p _
        refine List.countP_eq_zero.mpr fun i hi hp => ?_
        have := (hbounds.2 i hi).2
        have := (of_decide_eq_true hp).1
        omega
      have hblocksTaken : ∀ i ∈ taken, movers value count chain (value i) = 0 ∧
          resting value count chain (value i) = 0 := by
        intro i hi
        have hle := (hbounds.2 i hi).2
        constructor
        all_goals
          refine List.countP_eq_zero.mpr fun j hj hp => ?_
          have := habove' j hj
          have := (of_decide_eq_true hp).1
          omega
      have hmovers : ∀ c, chainEnd value s taken < c →
          movers value count l c = movers value count (taken ++ rest) c := fun c hc =>
        countP_filter_above hc hperm
      have hpass := fun i hi => block_of_pass hsorted hcount habove hcontinues hstuck (i := i) hi
      refine ⟨?_, ?_, ?_, ?_, ?_, ?_, ?_⟩
      · intro i hi
        rcases List.mem_append.mp hi with hi | hi
        · exact List.mem_append_left _ hi
        · exact ((hmem i).mp (hcollected.mem i hi)).1
      · intro i hi
        cases taken with
        | nil => exact absurd rfl hne
        | cons k taken => exact hi
      · exact hcontinues.append hcollected.continues
      · intro i hi hle
        rw [chainEnd_append] at hle
        rcases lt_or_ge (chainEnd value s taken) (value i) with hlt | hge
        · obtain ⟨j, hj, heq⟩ := hcollected.settled i ((hmem i).mpr ⟨hi, hlt⟩) hle
          exact ⟨j, List.mem_append_right _ hj, heq⟩
        · rcases List.mem_append.mp hi with hi | hi
          · exact ⟨i, List.mem_append_left _ hi, rfl⟩
          · obtain ⟨j, hj, heq⟩ := exists_value_eq_chainEnd value s hne
            exact ⟨j, List.mem_append_left _ hj,
              heq.trans (le_antisymm (chainEnd_le_of_mem_rest hsorted hne hi) hge)⟩
      · intro i hi
        rw [movers_append, resting_append]
        rcases List.mem_append.mp hi with hi | hi
        · rw [(hblocksTaken i hi).1, (hblocksTaken i hi).2]
          exact hpass i hi
        · have hlt := habove' i hi
          have hblock := hcollected.blocks i hi
          rw [hmovers _ hlt, show resting value count l (value i) =
            resting value count (taken ++ rest) (value i) from countP_filter_above hlt hperm]
            at hblock
          rw [movers, hlater _ hlt, zero_add, resting, hlater _ hlt, zero_add]
          exact hblock
      · obtain ⟨left, hleft, hleftSorted, hleftStuck⟩ := hcollected.stuck
        refine ⟨left, hleft.trans ?_, hleftSorted, by rwa [chainEnd_append]⟩
        rw [chainEnd_append]
        refine (hperm.filter _).trans (.of_eq ?_)
        rw [List.filter_filter]
        refine List.filter_congr fun i _ => ?_
        simp only [Bool.and_eq_left_iff_imp, decide_eq_true_eq]
        exact fun hlt => lt_of_le_of_lt hend hlt
      · have hgap := hcollected.gap_iff
        rw [chainEnd_append, Bool.or_eq_true]
        constructor
        · rintro (hrest | hrest)
          · cases rest with
            | nil => cases hrest
            | cons h rest =>
                have hge := chainEnd_le_of_mem_rest (s := s) hsorted hne
                  (List.mem_cons_self (a := h) (l := rest))
                have hnot := hstuck h rfl
                rcases hge.lt_or_eq with hlt | heq
                · have hl : ∀ j ∈ l, j ∈ h :: rest := by
                    intro j hj
                    obtain ⟨hj, hjlt⟩ := (hmem j).mp hj
                    rcases List.mem_append.mp hj with hj | hj
                    · exact absurd (hbounds.2 j hj).2 (not_le_of_gt hjlt)
                    · exact hj
                  have hh := List.mem_append_right taken (List.mem_cons_self (a := h) (l := rest))
                  have hnil := eq_nil_of_stuck (List.pairwise_append.mp hsorted).2.1 hnot hl
                    ((hmem h).mpr ⟨hh, hlt⟩) hsorted' hcollected.continues hcollected.first
                  exact .inl ⟨h, hh, by rw [hnil]; exact hlt⟩
                · obtain ⟨i, hi, hival⟩ :=
                    exists_value_eq_chainEnd value s hne
                  refine .inr ⟨i, List.mem_append_left _ hi, ?_⟩
                  have hmoves : 0 < count h := by
                    have := hcount h (List.mem_append_right _ List.mem_cons_self)
                    omega
                  have : 0 < movers value count (h :: rest) (value i) :=
                    List.countP_pos_iff.mpr ⟨h, List.mem_cons_self,
                      decide_eq_true ⟨by omega, hmoves⟩⟩
                  rw [movers_append, (hpass i hi).1]
                  omega
          · rcases hgap.mp hrest with ⟨i, hi, hlt⟩ | ⟨i, hi, htwo⟩
            · exact .inl ⟨i, ((hmem i).mp hi).1, hlt⟩
            · exact .inr ⟨i, List.mem_append_right _ hi, hmovers _ (habove' i hi) ▸ htwo⟩
        · rintro (⟨i, hi, hlt⟩ | ⟨i, hi, htwo⟩)
          · exact .inr (hgap.mpr (.inl ⟨i, (hmem i).mpr ⟨hi, lt_of_le_of_lt hend hlt⟩, hlt⟩))
          · rcases List.mem_append.mp hi with hi | hi
            · left
              rw [movers_append, (hpass i hi).1] at htwo
              cases rest with
              | nil => simp only [movers, List.countP_nil, add_zero] at htwo; omega
              | cons _ _ => rfl
            · exact .inr (hgap.mpr (.inr ⟨i, hi, (hmovers _ (habove' i hi)).symm ▸ htwo⟩))

end Passes

/-! ### The maximal chain -/

section Maximal

variable {value count} {s c x : ℤ} {items l chain : List ι} {i j : ι} {gap : Bool}

/-- Items whose spans meet move the counter alike. -/
theorem DisjointOrEqual.eq_of_mem (h : DisjointOrEqual value count items) (hi : i ∈ items)
    (hj : j ∈ items) (hxi : x ∈ span value count i) (hxj : x ∈ span value count j) :
    value i = value j ∧ count i = count j := by
  rcases h i hi j hj with heq | hdisjoint
  · simp only [span, Set.mem_ofPred_eq] at heq hxi hxj
    have hboth := fun y => Set.ext_iff.mp heq y
    simp only [Set.mem_ofPred_eq] at hboth
    have := hboth (value i)
    have := hboth (value j)
    have := hboth (value i - count i + 1)
    have := hboth (value j - count j + 1)
    omega
  · exact absurd hxj (Set.disjoint_left.mp hdisjoint hxi)

/-- Items that are apart, or move the counter alike, have disjoint or equal spans. -/
theorem disjointOrEqual_of_apart (h : ∀ i ∈ items, ∀ j ∈ items,
    value i = value j ∧ count i = count j ∨ value i ≤ value j - count j ∨
      value j ≤ value i - count i) : DisjointOrEqual value count items := by
  intro i hi j hj
  rcases h i hi j hj with ⟨hvalue, hcounts⟩ | hle | hle
  · left
    simp only [span, hvalue, hcounts]
  · right
    refine Set.disjoint_left.mpr fun y hyi hyj => ?_
    simp only [span, Set.mem_ofPred_eq] at hyi hyj
    omega
  · right
    refine Set.disjoint_left.mpr fun y hyi hyj => ?_
    simp only [span, Set.mem_ofPred_eq] at hyi hyj
    omega

/-- Where each span is listed once, at most one item rests at a counter. -/
theorem resting_le_one (h : (chain.map fun i => (value i, count i)).Nodup) :
    resting value count chain c ≤ 1 := by
  have hle := List.nodup_iff_count_le_one.mp h (c, 0)
  rw [List.count, List.countP_map] at hle
  refine le_trans (le_of_eq (List.countP_congr fun i _ => ?_)) hle
  simp only [decide_eq_true_eq, Function.comp_apply, beq_iff_eq, Prod.mk.injEq]

/-- The end of a chain of listed items is reached. -/
theorem Continues.reached_end (h : Continues value count s chain) (hmem : ∀ i ∈ chain, i ∈ l) :
    Reached value count s l (chainEnd value s chain) := by
  rcases chainEnd_eq_or value s chain with heq | ⟨i, hi, heq⟩
  · rw [heq]
    exact .start
  · exact heq ▸ h.reached hmem hi

/-- A maximal chain comes to every counter that is reached. -/
theorem IsMaximalChain.mem_of_reached (h : IsMaximalChain value count s items chain)
    (hcount : ∀ i ∈ items, 0 ≤ count i) (hc : Reached value count s items c) :
    c = s ∨ ∃ i ∈ chain, value i = c := by
  induction hc with
  | start => exact .inl rfl
  | @next i hi hreached ih =>
      have hle := hreached.start_le hcount
      have := hcount i hi
      by_cases hlt : s < value i
      · obtain ⟨j, hj, heq⟩ := List.mem_map.mp (h.maximal i hi hlt
          (ih.imp_right fun ⟨j, hj, heq⟩ => ⟨j, hj, heq⟩))
        exact .inr ⟨j, hj, congrArg Prod.fst heq⟩
      · exact .inl (by omega)

section Collected

variable (hperm : l.Perm (items.filter fun i => s < value i))
  (hcount : ∀ i ∈ items, 0 ≤ count i) (h : Collected value count s l chain gap)

include hperm

theorem mem_of_perm_filter : i ∈ l ↔ i ∈ items ∧ s < value i := by
  rw [hperm.mem_iff, List.mem_filter, decide_eq_true_eq]

include hcount h

/-- If the maximal chain is collected without a false alarm, nothing disturbs it. -/
theorem Collected.undisturbed (hmax : IsMaximalChain value count s items chain)
    (halarm : gap = true → ∃ i ∈ items, chainEnd value s chain < value i) :
    Undisturbed value count s items := by
  have hmem := fun i => mem_of_perm_filter hperm (i := i)
  have hcountChain := fun i hi => hcount i (hmax.mem i hi)
  have hbounds := h.continues.bounds hcountChain
  have hreached := fun c => hmax.mem_of_reached (c := c) hcount
  refine ⟨?_, ?_, ?_⟩
  · intro i hi hzero hlt j hj hstart hinside
    have hltj : s < value j := lt_trans hlt hinside.2
    obtain ⟨a, ha, heq⟩ := List.mem_map.mp (hmax.maximal j hj hltj (hreached _ hstart))
    obtain ⟨hvalue, hcounts⟩ := Prod.mk.inj heq
    have hle := (hbounds.2 a ha).2
    obtain ⟨b, hb, hb'⟩ := h.settled i ((hmem i).mpr ⟨hi, hlt⟩) (by omega)
    exact h.continues.not_inside hcountChain hb ha (by omega)
  · intro i hi hzero hlt hc
    rcases hreached _ hc with heq | ⟨a, ha, heq⟩
    · exact absurd heq hlt.ne'
    · obtain ⟨b, hb, hb'⟩ := List.mem_map.mp (hmax.maximal i hi hlt (.inr ⟨a, ha, by omega⟩))
      obtain ⟨hvalue, hcounts⟩ := Prod.mk.inj hb'
      have hpos : 0 < resting value count chain (value i) :=
        List.countP_pos_iff.mpr ⟨b, hb, decide_eq_true ⟨hvalue, by omega⟩⟩
      have hone := resting_le_one (c := value i) hmax.once
      have hmovers : movers value count l (value i) = movers value count items (value i) :=
        countP_filter_above hlt hperm
      have hresting : resting value count l (value i) = resting value count items (value i) :=
        countP_filter_above hlt hperm
      have hblock := (h.blocks a ha).2
      rw [heq, hmovers, hresting] at hblock
      omega
  · intro c hlt hc htwo
    rcases hreached _ hc with rfl | ⟨a, ha, rfl⟩
    · exact absurd hlt (lt_irrefl _)
    · have hmovers : movers value count l (value a) = movers value count items (value a) :=
        countP_filter_above hlt hperm
      obtain ⟨i, hi, hend⟩ := halarm (h.gap_iff.mpr (.inr ⟨a, ha, hmovers.symm ▸ htwo⟩))
      refine ⟨i, hi, fun c' hc' => lt_of_le_of_lt ?_ hend⟩
      rcases hreached _ hc' with rfl | ⟨b, hb, rfl⟩
      · exact hbounds.1
      · exact (hbounds.2 b hb).2

/-- If nothing disturbs it, what is collected has each span once. -/
theorem Collected.once (hu : Undisturbed value count s items) :
    (chain.map fun i => (value i, count i)).Nodup := by
  have hchain : ∀ i ∈ chain, i ∈ items ∧ s < value i := fun i hi =>
    (mem_of_perm_filter hperm).mp (h.mem i hi)
  refine List.nodup_iff_count_le_one.mpr ?_
  rintro ⟨c, n⟩
  rw [List.count, List.countP_map]
  by_cases hlisted : ∃ i ∈ chain, value i = c ∧ count i = n
  · obtain ⟨i, hi, rfl, rfl⟩ := hlisted
    obtain ⟨hitems, hlt⟩ := hchain i hi
    obtain ⟨hone, hblock⟩ := h.blocks i hi
    rcases (hcount i hitems).lt_or_eq with hpos | hzero
    · -- among the movers at its counter
      refine le_trans (List.countP_mono_left fun j _ hj => ?_) (le_of_eq hone)
      simp only [Function.comp_apply, beq_iff_eq, Prod.mk.injEq] at hj
      exact decide_eq_true ⟨hj.1, hj.2 ▸ hpos⟩
    · have hle : resting value count chain (value i) ≤ 1 := by
        have halone := hu.alone i hitems hzero.symm hlt
          (h.continues.reached (fun j hj => (hchain j hj).1) hi)
        rw [show movers value count l (value i) = movers value count items (value i) from
          countP_filter_above hlt hperm, show resting value count l (value i) =
          resting value count items (value i) from countP_filter_above hlt hperm] at hblock
        omega
      refine le_trans (List.countP_mono_left fun j _ hj => ?_) hle
      simp only [Function.comp_apply, beq_iff_eq, Prod.mk.injEq] at hj
      exact decide_eq_true ⟨hj.1, hj.2.trans hzero.symm⟩
  · refine le_trans (le_of_eq (List.countP_eq_zero.mpr fun j hj hkey => ?_)) (Nat.zero_le 1)
    simp only [Function.comp_apply, beq_iff_eq, Prod.mk.injEq] at hkey
    exact hlisted ⟨j, hj, hkey⟩

/-- If nothing disturbs it, what is collected goes on as far as the items do. -/
theorem Collected.maximal (hdisjoint : DisjointOrEqual value count items)
    (hu : Undisturbed value count s items) (hi : i ∈ items) (hlt : s < value i)
    (hstart : value i - count i = s ∨ ∃ j ∈ chain, value j = value i - count i) :
    ∃ j ∈ chain, value j = value i ∧ count j = count i := by
  have hmem := fun i => mem_of_perm_filter hperm (i := i)
  have hmemItems := fun i hi => ((hmem i).mp (h.mem i hi)).1
  have hcountChain := fun i hi => hcount i (hmemItems i hi)
  have hbounds := h.continues.bounds hcountChain
  rcases (hcount i hi).lt_or_eq with hpos | hzero
  · have hle : value i - count i ≤ chainEnd value s chain := by
      rcases hstart with heq | ⟨j, hj, heq⟩
      · exact heq ▸ hbounds.1
      · exact heq ▸ (hbounds.2 j hj).2
    rcases hle.lt_or_eq with hbelow | hend
    · obtain ⟨k, hk, hkstart, hkend⟩ := h.continues.exists_next hcountChain hstart hbelow
      refine ⟨k, hk, hdisjoint.eq_of_mem (x := value i - count i + 1) (hmemItems k hk) hi ?_ ?_⟩
      all_goals
        simp only [span, Set.mem_ofPred_eq]
        omega
    · -- the first item left is the one in question, or lies in its span
      exfalso
      obtain ⟨rest, hrest, hsorted, hstuck⟩ := h.stuck
      have hrestMem : ∀ j, j ∈ rest ↔ j ∈ l ∧ chainEnd value s chain < value j := fun j => by
        rw [hrest.mem_iff, List.mem_filter, decide_eq_true_eq]
      have hirest := (hrestMem i).mpr ⟨(hmem i).mpr ⟨hi, hlt⟩, by omega⟩
      cases rest with
      | nil => exact List.not_mem_nil hirest
      | cons k rest =>
          have hnot : chainEnd value s chain + count k ≠ value k := hstuck k rfl
          obtain ⟨hkl, hkend⟩ := (hrestMem k).mp List.mem_cons_self
          have hk := ((hmem k).mp hkl).1
          rcases List.mem_cons.mp hirest with rfl | hirest
          · omega
          have hbefore := List.rel_of_pairwise_cons hsorted hirest
          have hle := hbefore.value_le
          rcases (hcount k hk).lt_or_eq with hkpos | hkzero
          · obtain ⟨hvalue, hcounts⟩ := hdisjoint.eq_of_mem (x := value k) hk hi
              (by simp only [span, Set.mem_ofPred_eq]; omega)
              (by simp only [span, Set.mem_ofPred_eq]; omega)
            omega
          · refine hu.outside k hk hkzero.symm (by omega) i hi ?_ ?_
            · exact hend ▸ h.continues.reached_end hmemItems
            · simp only [Before] at hbefore
              omega
  · rcases hstart with heq | ⟨j, hj, heq⟩
    · omega
    · have hreached := h.continues.reached hmemItems hj
      have hji : value j = value i := by omega
      rw [hji] at hreached
      have halone := hu.alone i hi hzero.symm hlt hreached
      have hpos : 0 < resting value count items (value i) :=
        List.countP_pos_iff.mpr ⟨i, hi, decide_eq_true ⟨rfl, hzero.symm⟩⟩
      have hblock := (h.blocks j hj).2
      rw [hji, show movers value count l (value i) = movers value count items (value i) from
        countP_filter_above hlt hperm, show resting value count l (value i) =
        resting value count items (value i) from countP_filter_above hlt hperm] at hblock
      have hposChain : 0 < resting value count chain (value i) := by omega
      obtain ⟨k, hk, hkey⟩ := List.countP_pos_iff.mp hposChain
      obtain ⟨hvalue, hcounts⟩ := of_decide_eq_true hkey
      exact ⟨k, hk, hvalue, by omega⟩

/-- If nothing disturbs it, the maximal chain is collected without a false alarm. -/
theorem Collected.isMaximalChain (hdisjoint : DisjointOrEqual value count items)
    (hu : Undisturbed value count s items) :
    IsMaximalChain value count s items chain ∧
      (gap = true → ∃ i ∈ items, chainEnd value s chain < value i) := by
  have hmem := fun i => mem_of_perm_filter hperm (i := i)
  have hchain : ∀ i ∈ chain, i ∈ items ∧ s < value i := fun i hi => (hmem i).mp (h.mem i hi)
  have hmemItems := fun i hi => (hchain i hi).1
  refine ⟨⟨hmemItems, fun i hi => (hchain i hi).2, h.continues, h.once hperm hcount hu, ?_⟩, ?_⟩
  · intro i hi hlt hstart
    obtain ⟨j, hj, hvalue, hcounts⟩ := h.maximal hperm hcount hdisjoint hu hi hlt hstart
    exact List.mem_map.mpr ⟨j, hj, Prod.ext hvalue hcounts⟩
  · intro hgap
    rcases h.gap_iff.mp hgap with ⟨i, hi, hlt⟩ | ⟨i, hi, htwo⟩
    · exact ⟨i, ((hmem i).mp hi).1, hlt⟩
    · have hlt := (hchain i hi).2
      have hmovers : movers value count l (value i) = movers value count items (value i) :=
        countP_filter_above hlt hperm
      obtain ⟨k, hk, habove⟩ := hu.repeated _ hlt (h.continues.reached hmemItems hi)
        (hmovers ▸ htwo)
      exact ⟨k, hk, habove _ (h.continues.reached_end hmemItems)⟩

end Collected

/-- **Passes collect the maximal chain without a false alarm** exactly if nothing disturbs
them. -/
theorem Collects.isMaximalChain_iff (h : Collects value count s l chain gap)
    (hsorted : l.Pairwise (Before value count))
    (hperm : l.Perm (items.filter fun i => s < value i)) (hcount : ∀ i ∈ items, 0 ≤ count i)
    (hdisjoint : DisjointOrEqual value count items) :
    IsMaximalChain value count s items chain ∧
        (gap = true → ∃ i ∈ items, chainEnd value s chain < value i) ↔
      Undisturbed value count s items := by
  have hmem := fun i => mem_of_perm_filter hperm (i := i)
  have hcollected := h.spec hsorted (fun i hi => hcount i ((hmem i).mp hi).1)
    fun i hi => ((hmem i).mp hi).2
  exact ⟨fun ⟨hmax, halarm⟩ => hcollected.undisturbed hperm hcount hmax halarm,
    fun hu => hcollected.isMaximalChain hperm hcount hdisjoint hu⟩

end Maximal

/-! ### Items of another type -/

section Map

variable {κ : Type*} {value count : κ → ℤ} {f : ι → κ} {s c : ℤ} {l chain : List ι}

theorem continues_map : Continues value count s (l.map f) ↔
    Continues (fun i => value (f i)) (fun i => count (f i)) s l := by
  induction l generalizing s with
  | nil => exact Iff.rfl
  | cons i l ih => exact and_congr_right fun _ => ih

theorem chainEnd_map : chainEnd value s (l.map f) = chainEnd (fun i => value (f i)) s l := by
  induction l generalizing s with
  | nil => rfl
  | cons i l ih => exact ih

theorem reached_map : Reached value count s (l.map f) c ↔
    Reached (fun i => value (f i)) (fun i => count (f i)) s l c := by
  constructor
  · intro h
    induction h with
    | start => exact .start
    | next hi _ ih =>
        obtain ⟨i, hmem, rfl⟩ := List.mem_map.mp hi
        exact .next hmem ih
  · intro h
    induction h with
    | start => exact .start
    | next hi _ ih => exact .next (List.mem_map_of_mem hi) ih

theorem IsMaximalChain.map
    (h : IsMaximalChain (fun i => value (f i)) (fun i => count (f i)) s l chain) :
    IsMaximalChain value count s (l.map f) (chain.map f) := by
  obtain ⟨hmem, habove, hcontinues, honce, hmaximal⟩ := h
  refine ⟨?_, ?_, continues_map.mpr hcontinues, ?_, ?_⟩
  · exact List.forall_mem_map.mpr fun i hi => List.mem_map_of_mem (hmem i hi)
  · exact List.forall_mem_map.mpr habove
  · rwa [List.map_map]
  · refine List.forall_mem_map.mpr fun i hi hlt hstart => ?_
    rw [List.map_map]
    refine hmaximal i hi hlt (hstart.imp_right ?_)
    rintro ⟨_, hmem', heq⟩
    obtain ⟨j, hj, rfl⟩ := List.mem_map.mp hmem'
    exact ⟨j, hj, heq⟩

theorem IsMaximalChain.of_map (hf : Function.Injective f)
    (h : IsMaximalChain value count s (l.map f) (chain.map f)) :
    IsMaximalChain (fun i => value (f i)) (fun i => count (f i)) s l chain := by
  obtain ⟨hmem, habove, hcontinues, honce, hmaximal⟩ := h
  refine ⟨fun i hi => ?_, fun i hi => habove _ (List.mem_map_of_mem hi),
    continues_map.mp hcontinues, ?_, fun i hi hlt hstart => ?_⟩
  · obtain ⟨j, hj, heq⟩ := List.mem_map.mp (hmem _ (List.mem_map_of_mem hi))
    exact hf heq ▸ hj
  · rwa [List.map_map] at honce
  · have hchain := hmaximal _ (List.mem_map_of_mem hi) hlt
      (hstart.imp_right fun ⟨j, hj, heq⟩ => ⟨f j, List.mem_map_of_mem hj, heq⟩)
    rwa [List.map_map] at hchain

theorem disjointOrEqual_map : DisjointOrEqual value count (l.map f) ↔
    DisjointOrEqual (fun i => value (f i)) (fun i => count (f i)) l := by
  simp only [DisjointOrEqual, List.forall_mem_map]
  exact Iff.rfl

theorem undisturbed_map : Undisturbed value count s (l.map f) ↔
    Undisturbed (fun i => value (f i)) (fun i => count (f i)) s l := by
  have hmovers : ∀ c, movers value count (l.map f) c =
      movers (fun i => value (f i)) (fun i => count (f i)) l c := fun c => List.countP_map
  have hresting : ∀ c, resting value count (l.map f) c =
      resting (fun i => value (f i)) (fun i => count (f i)) l c := fun c => List.countP_map
  have hexists : ∀ p : κ → Prop, (∃ i ∈ l.map f, p i) ↔ ∃ i ∈ l, p (f i) := fun p => by
    simp only [List.mem_map, exists_exists_and_eq_and]
  simp only [undisturbed_iff, List.forall_mem_map, reached_map, hmovers, hresting, hexists]

end Map

end Chains
