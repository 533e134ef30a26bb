import Mathlib.Data.List.Basic
import Mathlib.Data.List.Infix

/-!
# Runs of a Text

A text is scanned from left to right. A run is opened by an element, goes on as long as elements
continue it, and is closed by the first one that does not. What is open at a place depends on what
stands before it, so the text before the place is given backwards.

## Main results

* `exists_of_openRun`: the text before a place where a run is open.
* `foldl_zipIdx_eq`: **the state of a loop over a text, from what one step does.**
-/

namespace Runs

variable {α σ : Type*} {continues : α → Bool} {starts : Option (List α) → List α → α → Bool}
variable {r w : List α} {c : α}

/-- The run that is open behind a text, without the element that opened it, both backwards. An
element may open a run depending on the text before it and on the run that is open there. -/
def openRun (continues : α → Bool) (starts : Option (List α) → List α → α → Bool) :
    List α → Option (List α)
  | [] => none
  | c :: r =>
      if continues c then (openRun continues starts r).map (c :: ·)
      else if starts (openRun continues starts r) r c then some [] else none

/-- Behind nothing no run is open. -/
@[simp] theorem openRun_nil : openRun continues starts [] = none := rfl

/-- A run goes on. -/
theorem openRun_cons_of_continues (h : continues c = true) :
    openRun continues starts (c :: r) = (openRun continues starts r).map (c :: ·) := by
  rw [openRun, if_pos h]

/-- A run is opened, or none is open. -/
theorem openRun_cons_of_not (h : continues c = false) :
    openRun continues starts (c :: r) =
      if starts (openRun continues starts r) r c then some [] else none := by
  rw [openRun, if_neg (by rw [h]; exact Bool.false_ne_true)]

/-- No run is open, and the element opens none. -/
theorem openRun_cons_eq_none (hnone : openRun continues starts r = none)
    (h : continues c = true ∨ starts none r c = false) :
    openRun continues starts (c :: r) = none := by
  rw [openRun, hnone]
  rcases h with hc | hc
  · rw [if_pos hc]
    rfl
  · rw [hc]
    split <;> rfl

/-- **The text before a place where a run is open.** -/
theorem exists_of_openRun (h : openRun continues starts r = some w) :
    ∃ first before, r = w ++ first :: before ∧
      starts (openRun continues starts before) before first = true := by
  induction r generalizing w with
  | nil => exact absurd h (Option.some_ne_none w).symm
  | cons c r ih =>
      cases hc : continues c with
      | true =>
          rw [openRun_cons_of_continues hc, Option.map_eq_some_iff] at h
          obtain ⟨w, hw, rfl⟩ := h
          obtain ⟨first, before, rfl, hstarts⟩ := ih hw
          exact ⟨first, before, rfl, hstarts⟩
      | false =>
          rw [openRun_cons_of_not hc, Option.ite_none_right_eq_some] at h
          obtain ⟨hstarts, hw⟩ := h
          rw [← Option.some.inj hw]
          exact ⟨c, r, rfl, hstarts⟩

/-- A run is shorter than the text. -/
theorem length_lt_of_openRun (h : openRun continues starts r = some w) :
    w.length < r.length := by
  obtain ⟨first, before, rfl, -⟩ := exists_of_openRun h
  rw [List.length_append, List.length_cons]
  omega

/-- A run that is open behind an element was opened by it, or the element continues it. -/
theorem openRun_cons_eq_some (h : openRun continues starts (c :: r) = some w) :
    w = [] ∨ continues c = true ∧ ∃ v, w = c :: v ∧ openRun continues starts r = some v := by
  cases hc : continues c with
  | true =>
      rw [openRun_cons_of_continues hc, Option.map_eq_some_iff] at h
      obtain ⟨v, hv, rfl⟩ := h
      exact Or.inr ⟨rfl, v, rfl, hv⟩
  | false =>
      rw [openRun_cons_of_not hc, Option.ite_none_right_eq_some] at h
      exact Or.inl (Option.some.inj h.2).symm

/-- Where no element opens a run, none is open. -/
theorem openRun_eq_none (h : ∀ c ∈ r, ∀ run before, starts run before c = false) :
    openRun continues starts r = none := by
  induction r with
  | nil => rfl
  | cons c r ih =>
      exact openRun_cons_eq_none (ih fun d hd => h d (List.mem_cons_of_mem c hd))
        (Or.inr (h c List.mem_cons_self none r))

/-- **The state of a loop over a text.** If each step leads from the state that belongs to the text
before the element to the one that belongs to the text with it, so does the loop. -/
theorem foldl_zipIdx_eq {step : σ → α × ℕ → σ} {stateOf : List α → σ} (text : List α)
    (hstep : ∀ r c, (c :: r).reverse <+: text →
      step (stateOf r) (c, r.length) = stateOf (c :: r)) :
    text.zipIdx.foldl step (stateOf []) = stateOf text.reverse := by
  induction text using List.reverseRecOn with
  | nil => rfl
  | append_singleton text c ih =>
      have hbefore := ih fun r d hd => hstep r d (hd.trans (List.prefix_append _ _))
      have hlast := hstep text.reverse c (by rw [List.reverse_cons, List.reverse_reverse])
      rw [List.length_reverse] at hlast
      rw [List.zipIdx_append, List.foldl_append, hbefore, Nat.zero_add, List.zipIdx_singleton,
        List.foldl_cons, List.foldl_nil, hlast, List.reverse_append, List.reverse_singleton,
        List.singleton_append]

end Runs
