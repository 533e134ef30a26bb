import Mathlib.Data.List.Chain

/-!
# Walks along a List

A walk takes the elements of a list one after the other. The last marked element is remembered, and
a marked element at which a test stops ends the walk. Two walks from one place in opposite
directions make up a segment.

## Main results

* `longest_walk_iff`: a walk takes as many elements as can be joined exactly when its test agrees
  with what cuts off, as far as that matters.
* `segment_iff`: **two walks make up a segment that is joined and cannot be made longer exactly when
  both agree and nothing cuts between the two.**
-/

namespace Walks

variable {α : Type*} {marked : α → Bool} {stops : α → α → Bool} {agree cut : α → α → Prop}
variable {last : Option α} {x : α} {l w up down : List α}

/-- The walk along a list, behind the last marked element. -/
def walk (marked : α → Bool) (stops : α → α → Bool) : Option α → List α → List α
  | _, [] => []
  | last, x :: l =>
      if marked x then
        if last.any fun a => stops a x then [] else x :: walk marked stops (some x) l
      else x :: walk marked stops last l

/-- Nothing cuts between neighbours among the marked elements. -/
def Joined (marked : α → Bool) (cut : α → α → Prop) (last : Option α) (l : List α) : Prop :=
  (last.toList ++ l.filter marked).IsChain fun a b => ¬ cut a b

/-- Neighbours among the marked elements agree, up to the first that something cuts apart. -/
def Agrees (marked : α → Bool) (agree cut : α → α → Prop) : Option α → List α → Prop
  | _, [] => True
  | last, x :: l =>
      if marked x then
        (∀ a ∈ last, agree a x) ∧
          ((∀ a ∈ last, ¬ cut a x) → Agrees marked agree cut (some x) l)
      else Agrees marked agree cut last l

/-- A joined beginning of a list that is not joined with the next element. -/
structure Longest (marked : α → Bool) (cut : α → α → Prop) (last : Option α) (l w : List α) :
    Prop where
  joined : Joined marked cut last w
  longest : ∀ x rest, l = w ++ x :: rest → ¬ Joined marked cut last (w ++ [x])

/-! ### One walk -/

/-- A walk takes a beginning of the list. -/
theorem walk_prefix (marked : α → Bool) (stops : α → α → Bool) (last : Option α) (l : List α) :
    walk marked stops last l <+: l := by
  induction l generalizing last with
  | nil => exact List.prefix_refl []
  | cons x l ih =>
      rw [walk]
      split
      · split
        · exact List.nil_prefix
        · exact List.cons_prefix_cons.mpr ⟨rfl, ih (some x)⟩
      · exact List.cons_prefix_cons.mpr ⟨rfl, ih last⟩

/-- A walk takes the first element. -/
theorem mem_walk_head (marked : α → Bool) (stops : α → α → Bool) (x : α) (l : List α) :
    x ∈ walk marked stops none (x :: l) := by
  rw [walk]
  split <;> exact List.mem_cons_self

/-- Only along nothing a walk takes nothing. -/
theorem eq_nil_of_walk (h : walk marked stops none l = []) : l = [] := by
  cases l with
  | nil => rfl
  | cons x l =>
      have hmem := mem_walk_head marked stops x l
      rw [h] at hmem
      exact absurd hmem List.not_mem_nil

/-- A walk takes the first marked element. -/
theorem head?_filter_walk (marked : α → Bool) (stops : α → α → Bool) (l : List α) :
    ((walk marked stops none l).filter marked).head? = (l.filter marked).head? := by
  induction l with
  | nil => rfl
  | cons x l ih =>
      rw [walk]
      cases hx : marked x with
      | true =>
          rw [if_pos rfl, Option.any_none, if_neg Bool.false_ne_true, List.filter_cons_of_pos hx,
            List.filter_cons_of_pos hx]
          rfl
      | false =>
          have hnot : ¬ marked x = true := by
            rw [hx]
            exact Bool.false_ne_true
          rw [if_neg Bool.false_ne_true, List.filter_cons_of_neg hnot,
            List.filter_cons_of_neg hnot, ih]

/-- Without a marked element a walk takes everything. -/
theorem walk_eq_self (h : (l.filter marked).head? = none) : walk marked stops last l = l := by
  rw [List.head?_eq_none_iff, List.filter_eq_nil_iff] at h
  induction l with
  | nil => rfl
  | cons x l ih =>
      rw [walk, if_neg (h x List.mem_cons_self), ih fun a ha => h a (List.mem_cons_of_mem x ha)]

/-- An element that is not marked changes nothing. -/
theorem joined_cons_of_not (hx : ¬ marked x = true) :
    Joined marked cut last (x :: w) ↔ Joined marked cut last w := by
  rw [Joined, Joined, List.filter_cons_of_neg hx]

/-- A marked element is joined with the last one and with what comes behind. -/
theorem joined_cons_of_marked (hx : marked x = true) :
    Joined marked cut last (x :: w) ↔
      (∀ a ∈ last, ¬ cut a x) ∧ Joined marked cut (some x) w := by
  rw [Joined, Joined, List.filter_cons_of_pos hx]
  cases last with
  | none => simp
  | some a => simp [List.isChain_cons_cons]

/-- The longest beginning behind an element that is not marked. -/
theorem longest_cons_of_not (hx : ¬ marked x = true) :
    Longest marked cut last (x :: l) (x :: w) ↔ Longest marked cut last l w := by
  constructor
  · rintro ⟨hjoined, hlongest⟩
    refine ⟨(joined_cons_of_not hx).mp hjoined, fun y rest hl hy => ?_⟩
    refine hlongest y rest (by rw [hl]; rfl) ?_
    exact (joined_cons_of_not hx).mpr hy
  · rintro ⟨hjoined, hlongest⟩
    refine ⟨(joined_cons_of_not hx).mpr hjoined, fun y rest hl hy => ?_⟩
    exact hlongest y rest (List.cons.inj hl).2 ((joined_cons_of_not hx).mp hy)

/-- The longest beginning with a marked element. -/
theorem longest_cons_of_marked (hx : marked x = true) :
    Longest marked cut last (x :: l) (x :: w) ↔
      (∀ a ∈ last, ¬ cut a x) ∧ Longest marked cut (some x) l w := by
  constructor
  · rintro ⟨hjoined, hlongest⟩
    obtain ⟨hcut, hrest⟩ := (joined_cons_of_marked hx).mp hjoined
    refine ⟨hcut, hrest, fun y rest hl hy => ?_⟩
    refine hlongest y rest (by rw [hl]; rfl) ?_
    exact (joined_cons_of_marked hx).mpr ⟨hcut, hy⟩
  · rintro ⟨hcut, hjoined, hlongest⟩
    refine ⟨(joined_cons_of_marked hx).mpr ⟨hcut, hjoined⟩, fun y rest hl hy => ?_⟩
    exact hlongest y rest (List.cons.inj hl).2 ((joined_cons_of_marked hx).mp hy).2

/-- Where the walk stops at once. -/
theorem longest_nil_iff (hx : marked x = true) :
    Longest marked cut last (x :: l) [] ↔ ∃ a ∈ last, cut a x := by
  have hjoined : Joined marked cut last [] := by
    rw [Joined]
    cases last <;> simp
  have hone : Joined marked cut last [x] ↔ ∀ a ∈ last, ¬ cut a x := by
    rw [joined_cons_of_marked hx]
    exact and_iff_left (by rw [Joined]; simp)
  constructor
  · rintro ⟨-, hlongest⟩
    have hx := hlongest x l rfl
    rw [List.nil_append, hone] at hx
    push Not at hx
    exact hx
  · rintro ⟨a, ha, hcut⟩
    refine ⟨hjoined, fun y rest hl hy => ?_⟩
    obtain ⟨rfl, rfl⟩ := List.cons.inj hl
    exact hone.mp hy a ha hcut

/-- **A walk takes as many elements as can be joined exactly when its test agrees.** -/
theorem longest_walk_iff (hagree : ∀ a b, agree a b ↔ (stops a b = true ↔ cut a b))
    (last : Option α) (l : List α) :
    Longest marked cut last l (walk marked stops last l) ↔ Agrees marked agree cut last l := by
  induction l generalizing last with
  | nil =>
      refine iff_of_true ⟨?_, fun x rest hl => ?_⟩ trivial
      · rw [walk, Joined]
        cases last <;> simp
      · exact absurd hl (by rw [walk]; exact nofun)
  | cons x l ih =>
      rw [walk, Agrees]
      cases hx : marked x with
      | false =>
          have hnot : ¬ marked x = true := by
            rw [hx]
            exact Bool.false_ne_true
          rw [if_neg Bool.false_ne_true, if_neg Bool.false_ne_true, longest_cons_of_not hnot, ih]
      | true =>
          rw [if_pos rfl, if_pos rfl]
          cases last with
          | none =>
              rw [Option.any_none, if_neg Bool.false_ne_true, longest_cons_of_marked hx, ih]
              simp
          | some a =>
              rw [Option.any_some]
              simp only [hagree]
              cases hstops : stops a x with
              | true =>
                  rw [if_pos rfl, longest_nil_iff hx]
                  simp only [Option.mem_some_iff, exists_eq_left', forall_eq', hstops, true_iff]
                  exact ⟨fun h => ⟨h, fun hnot => absurd h hnot⟩, fun h => h.1⟩
              | false =>
                  rw [if_neg Bool.false_ne_true, longest_cons_of_marked hx, ih]
                  simp only [Option.mem_some_iff, forall_eq', hstops, Bool.false_eq_true, false_iff]
                  exact ⟨fun h => ⟨h.1, fun _ => h.2⟩, fun h => ⟨h.1, h.2 h.1⟩⟩

/-- If any two elements agree, the neighbours of a list do. -/
theorem agrees_of_forall (h : ∀ a b, agree a b) (last : Option α) (l : List α) :
    Agrees marked agree cut last l := by
  induction l generalizing last with
  | nil => trivial
  | cons x l ih =>
      rw [Agrees]
      split
      · exact ⟨fun a _ => h a x, fun _ => ih (some x)⟩
      · exact ih last

/-! ### Two walks -/

/-- Two parts from one place make up a segment that is joined and cannot be made longer. -/
structure Segment (marked : α → Bool) (cut : α → α → Prop) (up down u d : List α) : Prop where
  joined : Joined marked cut none (u.reverse ++ d)
  up : ∀ x rest, up = u ++ x :: rest → ¬ Joined marked cut none (x :: (u.reverse ++ d))
  down : ∀ x rest, down = d ++ x :: rest → ¬ Joined marked cut none (u.reverse ++ d ++ [x])

/-- Two parts are joined: each of them is, and nothing cuts between the two. -/
theorem joined_reverse_append (hsymm : ∀ a b, cut a b → cut b a) (u d : List α) :
    Joined marked cut none (u.reverse ++ d) ↔
      Joined marked cut none u ∧ Joined marked cut none d ∧
        ∀ a ∈ (u.filter marked).head?, ∀ b ∈ (d.filter marked).head?, ¬ cut a b := by
  have hchain : (u.filter marked).IsChain (fun a b => ¬ cut b a) ↔
      (u.filter marked).IsChain fun a b => ¬ cut a b :=
    ⟨List.IsChain.imp fun _ _ h hcut => h (hsymm _ _ hcut),
      List.IsChain.imp fun _ _ h hcut => h (hsymm _ _ hcut)⟩
  rw [Joined, Joined, Joined, Option.toList_none, List.nil_append, List.nil_append,
    List.nil_append, List.filter_append, List.filter_reverse, List.isChain_append,
    List.isChain_reverse, List.getLast?_reverse, hchain]

/-- The first marked element stays the first one, if there is one. -/
theorem head?_filter_concat {l : List α} {a x : α} (h : (l.filter marked).head? = some a) :
    ((l ++ [x]).filter marked).head? = some a := by
  rw [List.filter_append, List.head?_append, h]
  rfl

/-- A walk that left something out has a marked element. -/
theorem exists_head_of_left {rest : List α} (h : l = walk marked stops none l ++ x :: rest) :
    ∃ a, ((walk marked stops none l).filter marked).head? = some a := by
  cases hhead : ((walk marked stops none l).filter marked).head? with
  | some a => exact ⟨a, rfl⟩
  | none =>
      rw [head?_filter_walk] at hhead
      rw [walk_eq_self hhead] at h
      have hlength := congrArg List.length h
      rw [List.length_append, List.length_cons] at hlength
      omega

/-- **Two walks make up a segment exactly when both agree and nothing cuts between the two.** -/
theorem segment_iff (hsymm : ∀ a b, cut a b → cut b a)
    (hagree : ∀ a b, agree a b ↔ (stops a b = true ↔ cut a b)) (up down : List α) :
    Segment marked cut up down (walk marked stops none up) (walk marked stops none down) ↔
      Agrees marked agree cut none up ∧ Agrees marked agree cut none down ∧
        ∀ a ∈ (up.filter marked).head?, ∀ b ∈ (down.filter marked).head?, ¬ cut a b := by
  rw [← longest_walk_iff hagree, ← longest_walk_iff hagree]
  constructor
  · rintro ⟨hjoined, hup, hdown⟩
    obtain ⟨hu, hd, hbetween⟩ := (joined_reverse_append hsymm _ _).mp hjoined
    refine ⟨⟨hu, fun x rest hl hx => hup x rest hl ?_⟩,
      ⟨hd, fun x rest hl hx => hdown x rest hl ?_⟩, ?_⟩
    · obtain ⟨a, ha⟩ := exists_head_of_left hl
      rw [ha] at hbetween
      rw [← List.cons_append, ← List.reverse_concat, joined_reverse_append hsymm,
        head?_filter_concat ha]
      exact ⟨hx, hd, hbetween⟩
    · obtain ⟨b, hb⟩ := exists_head_of_left hl
      rw [hb] at hbetween
      rw [List.append_assoc, joined_reverse_append hsymm, head?_filter_concat hb]
      exact ⟨hu, hx, hbetween⟩
    · rwa [head?_filter_walk, head?_filter_walk] at hbetween
  · rintro ⟨⟨hu, hup⟩, ⟨hd, hdown⟩, hbetween⟩
    rw [← head?_filter_walk marked stops up, ← head?_filter_walk marked stops down] at hbetween
    refine ⟨(joined_reverse_append hsymm _ _).mpr ⟨hu, hd, hbetween⟩, fun x rest hl hx => ?_,
      fun x rest hl hx => ?_⟩
    · rw [← List.cons_append, ← List.reverse_concat, joined_reverse_append hsymm] at hx
      exact hup x rest hl hx.1
    · rw [List.append_assoc, joined_reverse_append hsymm] at hx
      exact hdown x rest hl hx.2.1

end Walks
