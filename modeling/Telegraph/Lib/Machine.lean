import Mathlib.Data.List.Infix

/-!
# Deterministic Machines and Their Runs

A machine is a step function `σ → ε → σ`; a run folds it over a list of events. This
module holds the three notions every invariant argument of the development is phrased
in, for arbitrary state and event types:

* `run` — the state reached after a list of events;
* `Always P` — `P` holds in the initial state and after every event of the run;
* `AllSteps C` — every event of the run meets the condition `C` in the state it is
  consumed in.

## Main results

* `always_of_allSteps`: **the invariant rule** — an invariant kept by every step that
  meets `C` holds throughout every run whose steps all meet `C`.
* `allSteps_of_always`: the converse rule — a condition forced by the invariant before
  and after a step is met by every step of a run that keeps the invariant.
* `length_add_le_of_allSteps`: **the measure rule** — a run whose steps all lower a measure is no
  longer than the measure at its start.
* `Always.and_of_step`: what every step from a state with `P` keeps holds as long as `P`.
-/

namespace Machine

variable {σ ε : Type*}

/-- The state reached from `s` by consuming the events `es` in order. -/
def run (step : σ → ε → σ) (s : σ) (es : List ε) : σ :=
  es.foldl step s

/-- `P` holds in `s` and in every state the run of `es` from `s` passes through. -/
def Always (step : σ → ε → σ) (P : σ → Prop) : σ → List ε → Prop
  | s, [] => P s
  | s, e :: es => P s ∧ Always step P (step s e) es

/-- Every event of the run of `es` from `s` meets `C` in the state it is consumed in. -/
def AllSteps (step : σ → ε → σ) (C : σ → ε → Prop) : σ → List ε → Prop
  | _, [] => True
  | s, e :: es => C s e ∧ AllSteps step C (step s e) es

section Basic

variable {step : σ → ε → σ} {P Q : σ → Prop} {C D : σ → ε → Prop}

@[simp] theorem run_nil (s : σ) : run step s [] = s := rfl

@[simp] theorem run_cons (s : σ) (e : ε) (es : List ε) :
    run step s (e :: es) = run step (step s e) es := rfl

@[simp] theorem run_append (s : σ) (es fs : List ε) :
    run step s (es ++ fs) = run step (run step s es) fs :=
  List.foldl_append

instance decidableAlways [DecidablePred P] :
    (s : σ) → (es : List ε) → Decidable (Always step P s es)
  | s, [] => inferInstanceAs (Decidable (P s))
  | s, e :: es =>
      have := decidableAlways (step s e) es
      inferInstanceAs (Decidable (P s ∧ Always step P (step s e) es))

instance decidableAllSteps [∀ s e, Decidable (C s e)] :
    (s : σ) → (es : List ε) → Decidable (AllSteps step C s es)
  | _, [] => inferInstanceAs (Decidable True)
  | s, e :: es =>
      have := decidableAllSteps (step s e) es
      inferInstanceAs (Decidable (C s e ∧ AllSteps step C (step s e) es))

/-- A run that keeps `P` throughout has `P` at its start. -/
theorem Always.head {s : σ} {es : List ε} (h : Always step P s es) : P s := by
  cases es with
  | nil => exact h
  | cons e es => exact h.1

/-- A run that keeps `P` throughout has `P` at its end. -/
theorem Always.last {s : σ} {es : List ε} (h : Always step P s es) : P (run step s es) := by
  induction es generalizing s with
  | nil => exact h
  | cons e es ih => exact ih h.2

/-- `Always` is monotone in its predicate. -/
theorem Always.mono {s : σ} {es : List ε} (hPQ : ∀ s, P s → Q s)
    (h : Always step P s es) : Always step Q s es := by
  induction es generalizing s with
  | nil => exact hPQ s h
  | cons e es ih => exact ⟨hPQ s h.1, ih h.2⟩

/-- `AllSteps` is monotone in its condition. -/
theorem AllSteps.mono {s : σ} {es : List ε} (hCD : ∀ s e, C s e → D s e)
    (h : AllSteps step C s es) : AllSteps step D s es := by
  induction es generalizing s with
  | nil => trivial
  | cons e es ih => exact ⟨hCD s e h.1, ih h.2⟩

/-- A condition on the events alone. -/
theorem AllSteps.of_forall {A : ε → Prop} {s : σ} {es : List ε} (h : ∀ e ∈ es, A e) :
    AllSteps step (fun _ e => A e) s es := by
  induction es generalizing s with
  | nil => trivial
  | cons e es ih =>
      exact ⟨h e List.mem_cons_self, ih fun e he => h e (List.mem_cons_of_mem _ he)⟩

/-- The last event of a run meets the condition in the state before it. -/
theorem AllSteps.last {s : σ} {es : List ε} {e : ε} (h : AllSteps step C s (es ++ [e])) :
    C (run step s es) e := by
  induction es generalizing s with
  | nil => exact h.1
  | cons e' es ih => exact ih h.2

/-- The steps of the beginning of a run meet the condition. -/
theorem AllSteps.of_prefix {s : σ} {es fs : List ε} (h : AllSteps step C s fs)
    (hstart : es <+: fs) : AllSteps step C s es := by
  induction es generalizing s fs with
  | nil => trivial
  | cons e es ih =>
      obtain ⟨rest, rfl⟩ := hstart
      exact ⟨h.1, ih h.2 (List.prefix_append _ _)⟩

/-- Two conditions met by every step are met together. -/
theorem AllSteps.and {s : σ} {es : List ε} (hC : AllSteps step C s es)
    (hD : AllSteps step D s es) : AllSteps step (fun s e => C s e ∧ D s e) s es := by
  induction es generalizing s with
  | nil => trivial
  | cons e es ih => exact ⟨⟨hC.1, hD.1⟩, ih hC.2 hD.2⟩

end Basic

section Rules

variable {step : σ → ε → σ} {I : σ → Prop} {C : σ → ε → Prop}

/-- **The invariant rule.** An invariant that holds initially and is kept by every step
that meets `C` holds throughout every run whose steps all meet `C`. -/
theorem always_of_allSteps (hstep : ∀ s e, I s → C s e → I (step s e)) {s : σ}
    {es : List ε} (h0 : I s) (hC : AllSteps step C s es) : Always step I s es := by
  induction es generalizing s with
  | nil => exact h0
  | cons e es ih => exact ⟨h0, ih (hstep s e h0 hC.1) hC.2⟩

/-- An invariant that every step keeps holds throughout every run. -/
theorem always_of_step (hstep : ∀ s e, I s → I (step s e)) {s : σ} {es : List ε} (h0 : I s) :
    Always step I s es := by
  induction es generalizing s with
  | nil => exact h0
  | cons e es ih => exact ⟨h0, ih (hstep s e h0)⟩

/-- **The converse rule.** A condition that `I` before and after a step forces on the
step is met by every step of a run that keeps `I` throughout. -/
theorem allSteps_of_always (hforce : ∀ s e, I s → I (step s e) → C s e) {s : σ}
    {es : List ε} (h : Always step I s es) : AllSteps step C s es := by
  induction es generalizing s with
  | nil => trivial
  | cons e es ih => exact ⟨hforce s e h.1 h.2.head, ih h.2⟩

/-- What the invariant and the condition of a step entail is met by every step. -/
theorem AllSteps.of_always {D : σ → ε → Prop} (h : ∀ s e, I s → C s e → D s e) {s : σ}
    {es : List ε} (hI : Always step I s es) (hC : AllSteps step C s es) :
    AllSteps step D s es := by
  induction es generalizing s with
  | nil => trivial
  | cons e es ih => exact ⟨h s e hI.1 hC.1, ih hI.2 hC.2⟩

/-- A run that keeps `P` throughout also keeps what every step from a state with `P`
keeps. -/
theorem Always.and_of_step {P : σ → Prop} (hstep : ∀ s e, P s → I s → I (step s e)) {s : σ}
    {es : List ε} (h0 : I s) (h : Always step P s es) :
    Always step (fun s => P s ∧ I s) s es := by
  induction es generalizing s with
  | nil => exact ⟨h, h0⟩
  | cons e es ih => exact ⟨⟨h.1, h0⟩, ih (hstep s e h.1 h0) h.2⟩

/-- **The measure rule.** If the invariant is kept and a measure lowered by every step that meets
`C`, a run of such steps is no longer than the measure at its start. -/
theorem length_add_le_of_allSteps {μ : σ → ℕ}
    (hstep : ∀ s e, I s → C s e → I (step s e) ∧ μ (step s e) < μ s) {s : σ} {es : List ε}
    (h0 : I s) (hC : AllSteps step C s es) : es.length + μ (run step s es) ≤ μ s := by
  induction es generalizing s with
  | nil => exact (Nat.zero_add _).le
  | cons e es ih =>
      obtain ⟨hkept, hlt⟩ := hstep s e h0 hC.1
      have hrest := ih hkept hC.2
      rw [run_cons, List.length_cons]
      omega

end Rules

end Machine
