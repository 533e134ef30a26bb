import Mathlib.Data.List.Pairwise

/-!
# Tables With an Autoincrement Key

A table whose rows are numbered on insertion by a counter that never goes back, as a
relational database assigns an `INTEGER PRIMARY KEY AUTOINCREMENT`. Rows are never changed
once they are stored, so a reader that has taken a row away from the table can still name it
by its number: whatever the table holds under that number later is that row.

## Main results

* `eq_of_id_eq`: a number names one row.
* `Evolves`: **what inserting and deleting can do to a table**: no stored row changes, and
  the new ones have new numbers.
* `Names.evolves`: a number goes on naming the same row.
-/

/-- A row with its number. -/
structure Row (α : Type*) where
  id : ℕ
  value : α
deriving DecidableEq

/-- A table: its rows by increasing number, all below the next one to be assigned. -/
structure Table (α : Type*) where
  rows : List (Row α)
  nextId : ℕ
  fresh : ∀ row ∈ rows, row.id < nextId
  sorted : rows.Pairwise fun a b => a.id < b.id

namespace Table

variable {α : Type*}

/-- The table without rows; the first number is `1`. -/
def empty : Table α := ⟨[], 1, fun _ h => (List.not_mem_nil h).elim, .nil⟩

/-- One row is inserted. -/
def insert (table : Table α) (value : α) : Table α where
  rows := table.rows ++ [⟨table.nextId, value⟩]
  nextId := table.nextId + 1
  fresh := by
    intro row hrow
    rcases List.mem_append.mp hrow with hold | hnew
    · exact Nat.lt_succ_of_lt (table.fresh row hold)
    · rw [List.mem_singleton.mp hnew]
      exact Nat.lt_succ_self _
  sorted := by
    refine List.pairwise_append.mpr ⟨table.sorted, List.pairwise_singleton _ _, ?_⟩
    intro row hrow new hnew
    rw [List.mem_singleton.mp hnew]
    exact table.fresh row hrow

/-- Rows are inserted one after the other. -/
def insertAll (table : Table α) (values : List α) : Table α :=
  values.foldl insert table

/-- Numbers are assigned to rows that are not seen here. -/
def skip (table : Table α) (count : ℕ) : Table α where
  rows := table.rows
  nextId := table.nextId + count
  fresh := fun row hrow => Nat.lt_of_lt_of_le (table.fresh row hrow) (Nat.le_add_right _ _)
  sorted := table.sorted

/-- The rows that meet a condition are deleted. -/
def delete (table : Table α) (condition : Row α → Bool) : Table α where
  rows := table.rows.filter fun row => !condition row
  nextId := table.nextId
  fresh := fun row hrow => table.fresh row (List.mem_filter.mp hrow).1
  sorted := table.sorted.filter _

/-! ### Rows -/

section Rows

variable {table : Table α} {row other : Row α} {value : α} {values : List α}

@[simp] theorem rows_empty : (empty : Table α).rows = [] := rfl

@[simp] theorem rows_skip (count : ℕ) : (table.skip count).rows = table.rows := rfl

@[simp] theorem rows_insert :
    (table.insert value).rows = table.rows ++ [⟨table.nextId, value⟩] := rfl

@[simp] theorem mem_delete {condition : Row α → Bool} :
    row ∈ (table.delete condition).rows ↔ row ∈ table.rows ∧ condition row = false := by
  simp only [delete, List.mem_filter, Bool.not_eq_true']

@[simp] theorem insertAll_nil : table.insertAll [] = table := rfl

@[simp] theorem insertAll_cons :
    table.insertAll (value :: values) = (table.insert value).insertAll values := rfl

theorem mem_insertAll_of_mem (h : row ∈ table.rows) : row ∈ (table.insertAll values).rows := by
  induction values generalizing table with
  | nil => exact h
  | cons value values ih => exact ih (List.mem_append_left _ h)

/-- An inserted row is a stored one or holds one of the values. -/
theorem mem_insertAll (h : row ∈ (table.insertAll values).rows) :
    row ∈ table.rows ∨ row.value ∈ values := by
  induction values generalizing table with
  | nil => exact .inl h
  | cons value values ih =>
      rcases ih h with hinsert | hlater
      · rcases List.mem_append.mp hinsert with hold | hnew
        · exact .inl hold
        · rw [List.mem_singleton.mp hnew]
          exact .inr List.mem_cons_self
      · exact .inr (List.mem_cons_of_mem _ hlater)

/-- Every value gets a row. -/
theorem exists_mem_insertAll (h : value ∈ values) :
    ∃ row ∈ (table.insertAll values).rows, row.value = value := by
  induction values generalizing table with
  | nil => exact (List.not_mem_nil h).elim
  | cons first values ih =>
      rw [insertAll_cons]
      rcases List.mem_cons.mp h with rfl | hlater
      · exact ⟨⟨table.nextId, value⟩,
          mem_insertAll_of_mem (List.mem_append_right _ List.mem_cons_self), rfl⟩
      · exact ih hlater

/-- **A number names one row.** -/
theorem eq_of_id_eq (hrow : row ∈ table.rows) (hother : other ∈ table.rows)
    (hid : row.id = other.id) : row = other := by
  by_contra hne
  obtain ⟨i, hi, rfl⟩ := List.mem_iff_getElem.mp hrow
  obtain ⟨j, hj, rfl⟩ := List.mem_iff_getElem.mp hother
  have hpairwise := List.pairwise_iff_getElem.mp table.sorted
  rcases Nat.lt_trichotomy i j with hlt | heq | hgt
  · exact absurd hid (Nat.ne_of_lt (hpairwise i j hi hj hlt))
  · subst heq
    exact hne rfl
  · exact absurd hid.symm (Nat.ne_of_lt (hpairwise j i hj hi hgt))

end Rows

/-! ### What can become of a table -/

/-- `later` is a table that `table` can become: its rows are stored ones or new ones. -/
structure Evolves (table later : Table α) : Prop where
  nextId_le : table.nextId ≤ later.nextId
  rows : ∀ row ∈ later.rows, row ∈ table.rows ∨ table.nextId ≤ row.id

namespace Evolves

variable {table later last : Table α}

theorem refl (table : Table α) : Evolves table table :=
  ⟨Nat.le_refl _, fun _ h => .inl h⟩

theorem trans (h : Evolves table later) (h' : Evolves later last) : Evolves table last := by
  refine ⟨Nat.le_trans h.nextId_le h'.nextId_le, fun row hrow => ?_⟩
  rcases h'.rows row hrow with hlater | hnew
  · exact h.rows row hlater
  · exact .inr (Nat.le_trans h.nextId_le hnew)

theorem insert (table : Table α) (value : α) : Evolves table (table.insert value) := by
  refine ⟨Nat.le_succ _, fun row hrow => ?_⟩
  rcases List.mem_append.mp hrow with hold | hnew
  · exact .inl hold
  · rw [List.mem_singleton.mp hnew]
    exact .inr (Nat.le_refl _)

theorem insertAll (table : Table α) (values : List α) :
    Evolves table (table.insertAll values) := by
  induction values generalizing table with
  | nil => exact refl table
  | cons value values ih => exact (insert table value).trans (ih _)

theorem skip (table : Table α) (count : ℕ) : Evolves table (table.skip count) :=
  ⟨Nat.le_add_right _ _, fun _ h => .inl h⟩

theorem delete (table : Table α) (condition : Row α → Bool) :
    Evolves table (table.delete condition) :=
  ⟨Nat.le_refl _, fun _ h => .inl (mem_delete.mp h).1⟩

end Evolves

/-! ### Numbers as names -/

/-- The number `id` has been assigned to a row with `value`: under `id` the table holds that
row, if it still holds one. -/
structure Names (table : Table α) (id : ℕ) (value : α) : Prop where
  assigned : id < table.nextId
  unique : ∀ row ∈ table.rows, row.id = id → row.value = value

/-- A stored row is named by its number. -/
theorem names_of_mem {table : Table α} {row : Row α} (h : row ∈ table.rows) :
    table.Names row.id row.value :=
  ⟨table.fresh row h, fun other hother hid => by rw [eq_of_id_eq hother h hid]⟩

/-- **A number goes on naming the same row.** -/
theorem Names.evolves {table later : Table α} {id : ℕ} {value : α}
    (h : table.Names id value) (hevolves : Evolves table later) : later.Names id value := by
  refine ⟨Nat.lt_of_lt_of_le h.assigned hevolves.nextId_le, fun row hrow hid => ?_⟩
  rcases hevolves.rows row hrow with hold | hnew
  · exact h.unique row hold hid
  · exact absurd h.assigned (Nat.not_lt.mpr (hid ▸ hnew))

end Table
