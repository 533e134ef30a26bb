import Mathlib.Data.List.Basic

/-!
# Readers over a Byte Buffer

A reader consumes a buffer from an offset. It ends with a value, by failing (the caller
sees "no value"), or by raising an exception, and it leaves behind the offset it reached
and a record of every access it made. The record is what bounds claims are about: an
access is in bounds when it lies inside the buffer and moves the offset forward.

## Main results

* `bind_value` / `bind_failed` / `bind_raised`: how a composed reader runs.
* `InBounds.append`: accesses stay in bounds under composition.
-/

/-- How a read ends. -/
inductive Outcome (α : Type*) where
  | value (a : α)
  | failed
  | raised
deriving DecidableEq

/-- One successful access: `length` bytes from `start`, after which the offset is `stop`. -/
structure Access where
  start : ℕ
  length : ℕ
  stop : ℕ
deriving DecidableEq

/-- What a reader leaves behind. -/
structure ReadResult (α : Type*) where
  outcome : Outcome α
  offset : ℕ
  accesses : List Access
deriving DecidableEq

/-- A result whose accesses come after the accesses `as`. -/
def ReadResult.after {α : Type*} (as : List Access) (r : ReadResult α) : ReadResult α :=
  { r with accesses := as ++ r.accesses }

@[simp] theorem ReadResult.after_mk {α : Type*} (as bs : List Access) (c : Outcome α) (o : ℕ) :
    ReadResult.after as ⟨c, o, bs⟩ = ⟨c, o, as ++ bs⟩ := rfl

/-- Accesses put before a result in two steps. -/
theorem ReadResult.after_after {α : Type*} (as bs : List Access) (r : ReadResult α) :
    (r.after bs).after as = r.after (as ++ bs) := by
  simp only [ReadResult.after, List.append_assoc]

@[simp] theorem ReadResult.after_outcome {α : Type*} (as : List Access) (r : ReadResult α) :
    (r.after as).outcome = r.outcome := rfl

/-- A reader over a byte buffer and an offset into it. -/
def Reader (α : Type*) : Type _ :=
  List UInt8 → ℕ → ReadResult α

namespace Reader

universe u

variable {α β : Type u}

/-- Continue after a value; a failure or an exception ends the reader where it is. -/
def bind (p : Reader α) (f : α → Reader β) : Reader β := fun data offset =>
  match p data offset with
  | ⟨.value a, o, as⟩ => (f a data o).after as
  | ⟨.failed, o, as⟩ => ⟨.failed, o, as⟩
  | ⟨.raised, o, as⟩ => ⟨.raised, o, as⟩

instance : Monad Reader where
  pure a := fun _ offset => ⟨.value a, offset, []⟩
  bind := bind

/-- End without a value. -/
def fail : Reader α := fun _ offset => ⟨.failed, offset, []⟩

/-- End with an exception. -/
def throw : Reader α := fun _ offset => ⟨.raised, offset, []⟩

/-- Run a reader `n` times and collect the values. -/
def replicateM (p : Reader α) : ℕ → Reader (List α)
  | 0 => pure []
  | n + 1 => do
      let a ← p
      let as ← replicateM p n
      pure (a :: as)

variable {p : Reader α} {f : α → Reader β} {data : List UInt8} {offset o : ℕ}
  {as : List Access} {a : α}

@[simp] theorem pure_apply (a : α) (data : List UInt8) (offset : ℕ) :
    (pure a : Reader α) data offset = ⟨.value a, offset, []⟩ := rfl

@[simp] theorem fail_apply (data : List UInt8) (offset : ℕ) :
    (fail : Reader α) data offset = ⟨.failed, offset, []⟩ := rfl

@[simp] theorem throw_apply (data : List UInt8) (offset : ℕ) :
    (throw : Reader α) data offset = ⟨.raised, offset, []⟩ := rfl

/-- A composed reader goes on after a value. -/
theorem bind_value (h : p data offset = ⟨.value a, o, as⟩) :
    (p >>= f) data offset = (f a data o).after as := by
  show bind p f data offset = _
  simp only [bind, h]

/-- A composed reader fails where its first part fails. -/
theorem bind_failed (h : p data offset = ⟨.failed, o, as⟩) :
    (p >>= f) data offset = ⟨.failed, o, as⟩ := by
  show bind p f data offset = _
  simp only [bind, h]

/-- A composed reader fails if its first part does, wherever that is. -/
theorem bind_outcome_failed (h : (p data offset).outcome = .failed) :
    ((p >>= f) data offset).outcome = .failed := by
  cases hp : p data offset with
  | mk c o as =>
      rw [hp] at h
      subst h
      rw [bind_failed hp]

/-- A composed reader raises where its first part raises. -/
theorem bind_raised (h : p data offset = ⟨.raised, o, as⟩) :
    (p >>= f) data offset = ⟨.raised, o, as⟩ := by
  show bind p f data offset = _
  simp only [bind, h]

/-- Readers compose associatively, and a reader that reads nothing is neutral. -/
instance : LawfulMonad Reader :=
  LawfulMonad.mk' Reader
    (fun p => by
      funext data offset
      show bind p (fun a => pure a) data offset = p data offset
      cases h : p data offset with
      | mk c o as => cases c <;> simp [bind, h])
    (fun a f => by
      funext data offset
      exact bind_value (pure_apply a data offset))
    (fun p f g => by
      funext data offset
      show bind (bind p f) g data offset = bind p (fun a => bind (f a) g) data offset
      cases h : p data offset with
      | mk c o as =>
          cases c with
          | value a =>
              cases h' : f a data o with
              | mk c' o' as' => cases c' <;> simp [bind, h, h', ReadResult.after]
          | failed => simp [bind, h]
          | raised => simp [bind, h])

/-! ### Accesses in bounds -/

/-- Every access of the result lies inside a buffer of `size` bytes and moves the offset
forward inside it, and so does the offset it ends at. -/
structure InBounds (size : ℕ) (r : ReadResult α) : Prop where
  offset_le : r.offset ≤ size
  inside : ∀ a ∈ r.accesses, a.start + a.length ≤ size
  forward : ∀ a ∈ r.accesses, a.start ≤ a.stop ∧ a.stop ≤ size

/-- A result without accesses is in bounds if its offset is. -/
theorem InBounds.of_nil {size : ℕ} {c : Outcome α} (h : offset ≤ size) :
    InBounds size ⟨c, offset, []⟩ :=
  ⟨h, fun _ ha => absurd ha List.not_mem_nil, fun _ ha => absurd ha List.not_mem_nil⟩

/-- In-bounds accesses before an in-bounds result leave it in bounds. -/
theorem InBounds.append {size : ℕ} {c : Outcome α} {r : ReadResult β}
    (h : InBounds size ⟨c, o, as⟩) (hr : InBounds size r) :
    InBounds size (r.after as) := by
  refine ⟨hr.offset_le, fun b hb => ?_, fun b hb => ?_⟩
  · rcases List.mem_append.mp hb with hb | hb
    · exact h.inside b hb
    · exact hr.inside b hb
  · rcases List.mem_append.mp hb with hb | hb
    · exact h.forward b hb
    · exact hr.forward b hb

end Reader
