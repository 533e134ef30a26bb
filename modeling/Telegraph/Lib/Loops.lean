import Mathlib.Data.Nat.Basic

/-!
# Loops that may Fail or not End

A round of a loop fails, goes on with a new state, or stops. A loop is given a number of rounds, and
fails in a way of its own when they are used up; that it ends is that enough rounds never are.
`Ensures` says what a computation gives and how it may fail. A loop is taken care of by an invariant
and, where its end matters, by a variant.

## Main results

* `Ensures.bind`, `Ensures.mono`: computations one after the other.
* `ensures_loop`: **what a loop ensures, from what a round ensures.**
* `ensures_whileLoop`: the same with the condition in front.
* `foldl_max_spec`: what a loop that keeps a maximum ends with.
-/

namespace Loops

universe u v

variable {ε : Type u} {α β σ : Type v}

/-! ### What a computation ensures -/

/-- The computation fails only as `E` allows, and otherwise gives a value with `Q`. -/
def Ensures (E : ε → Prop) (Q : α → Prop) : Except ε α → Prop
  | .error e => E e
  | .ok a => Q a

variable {E : ε → Prop} {P Q : α → Prop} {x : Except ε α}

theorem Ensures.of_ok (h : Ensures E Q x) {a : α} (hx : x = .ok a) : Q a := by
  subst hx
  exact h

theorem Ensures.of_error (h : Ensures E Q x) {e : ε} (hx : x = .error e) : E e := by
  subst hx
  exact h

/-- A computation that may not fail gives a value. -/
theorem Ensures.exists_ok (h : Ensures (fun _ => False) Q x) : ∃ a, x = .ok a ∧ Q a := by
  cases x with
  | error e => exact h.elim
  | ok a => exact ⟨a, rfl, h⟩

theorem ensures_pure {a : α} (h : Q a) : Ensures E Q (pure a) := h

theorem Ensures.mono (h : Ensures E P x) (hPQ : ∀ a, P a → Q a) : Ensures E Q x := by
  cases x with
  | error e => exact h
  | ok a => exact hPQ a h

/-- The second computation goes on from what the first one ensures. -/
theorem Ensures.bind {f : α → Except ε β} {R : β → Prop} (h : Ensures E P x)
    (hf : ∀ a, P a → Ensures E R (f a)) : Ensures E R (x >>= f) := by
  cases x with
  | error e => exact h
  | ok a => exact hf a h

/-! ### Loops -/

/-- A loop with a number of rounds; `timeout` is how it fails when these are used up. -/
def loop (timeout : ε) (body : σ → Except ε (ForInStep σ)) : ℕ → σ → Except ε σ
  | 0, _ => .error timeout
  | rounds + 1, s =>
      match body s with
      | .error e => .error e
      | .ok (.done s') => .ok s'
      | .ok (.yield s') => loop timeout body rounds s'

/-- `while (cond) body`. -/
def whileLoop (timeout : ε) (cond : σ → Bool) (body : σ → Except ε σ) : ℕ → σ → Except ε σ :=
  loop timeout fun s => if cond s then ForInStep.yield <$> body s else pure (.done s)

/-- What a round has to ensure: it stops with `Q`, or goes on with the invariant and, unless the
loop may run out of rounds, a smaller variant. -/
def RoundEnsures (mayEnd : Prop) (I Q : σ → Prop) (v : σ → ℕ) (s : σ) : ForInStep σ → Prop
  | .done s' => Q s'
  | .yield s' => I s' ∧ (mayEnd ∨ v s' < v s)

/-- **A loop ensures what its last round does**, and it runs out of rounds only if it may or if
there are no more of them than the variant says. -/
theorem ensures_loop {timeout : ε} {body : σ → Except ε (ForInStep σ)} {I Q : σ → Prop} {v : σ → ℕ}
    (hbody : ∀ s, I s → Ensures E (RoundEnsures (E timeout) I Q v s) (body s)) {rounds : ℕ} {s : σ}
    (hs : I s) (hrounds : E timeout ∨ v s < rounds) :
    Ensures E Q (loop timeout body rounds s) := by
  induction rounds generalizing s with
  | zero => exact hrounds.resolve_right (Nat.not_lt_zero _)
  | succ rounds ih =>
      have hround := hbody s hs
      rw [loop]
      cases hstep : body s with
      | error e => exact hround.of_error hstep
      | ok step =>
          cases step with
          | done s' => exact hround.of_ok hstep
          | yield s' =>
              obtain ⟨hs', hv⟩ := hround.of_ok hstep
              refine ih hs' ?_
              rcases hrounds with hmay | hlt
              · exact .inl hmay
              · exact hv.imp_right fun hv => by omega

/-- A loop with its condition in front ends where the condition does not hold. -/
theorem ensures_whileLoop {timeout : ε} {cond : σ → Bool} {body : σ → Except ε σ} {I : σ → Prop}
    {v : σ → ℕ}
    (hbody : ∀ s, I s → cond s = true → Ensures E (fun s' => I s' ∧ v s' < v s) (body s))
    {rounds : ℕ} {s : σ} (hs : I s) (hrounds : E timeout ∨ v s < rounds) :
    Ensures E (fun s' => I s' ∧ cond s' = false) (whileLoop timeout cond body rounds s) := by
  refine ensures_loop (I := I) (v := v) (fun s hs => ?_) hs hrounds
  cases hcond : cond s with
  | false => exact ensures_pure (Q := RoundEnsures _ _ _ _ _) ⟨hs, hcond⟩
  | true =>
      have hround := hbody s hs hcond
      rw [if_pos rfl]
      cases hstep : body s with
      | error e => exact hround.of_error hstep
      | ok s' =>
          obtain ⟨hs', hv⟩ := hround.of_ok hstep
          exact ⟨hs', .inr hv⟩

/-! ### A maximum -/

/-- A loop that keeps a maximum ends with the start or with the value of an entry, and with no less
than any of them. -/
theorem foldl_max_spec (f : α → ℕ) (entries : List α) (start : ℕ) :
    let last := entries.foldl (fun last entry => max last (f entry)) start
    start ≤ last ∧ (∀ entry ∈ entries, f entry ≤ last) ∧
      (last = start ∨ ∃ entry ∈ entries, last = f entry) := by
  induction entries generalizing start with
  | nil => exact ⟨le_rfl, fun _ hentry => absurd hentry List.not_mem_nil, .inl rfl⟩
  | cons entry entries ih =>
      obtain ⟨hstart, hentries, hlast⟩ := ih (max start (f entry))
      refine ⟨Nat.le_trans (Nat.le_max_left _ _) hstart, ?_, ?_⟩
      · intro other hother
        rcases List.mem_cons.mp hother with rfl | hother
        · exact Nat.le_trans (Nat.le_max_right _ _) hstart
        · exact hentries other hother
      · rcases hlast with hlast | ⟨other, hother, hlast⟩
        · rcases Nat.le_total (f entry) start with hle | hle
          · exact .inl (hlast.trans (Nat.max_eq_left hle))
          · exact .inr ⟨entry, List.mem_cons_self, hlast.trans (Nat.max_eq_right hle)⟩
        · exact .inr ⟨other, List.mem_cons_of_mem _ hother, hlast⟩

end Loops
