import Mathlib.Data.Nat.Basic

/-!
# The Buffer Pool of a Call

`BufferPool` hands out up to 64 buffers of one size and keeps in a 64-bit word which of them are in
use. A buffer is named by its place in the pool; a pointer that is none of its buffers makes it
abort.

## Main results

* `get_eq_some`, `get_eq_none`: a buffer that was not in use is handed out, unless all are.
* `reuse_of_lt`: a buffer of the pool is taken back.
-/

namespace Telegraph.VoIP

/-- How memory may be misused. -/
inductive MemoryFault where
  /-- A place behind the end of an array. -/
  | outOfBounds
  /-- `abort()`. -/
  | abort
deriving DecidableEq

/-- `BufferPool`, without the buffers' size. -/
structure BufferPool where
  usedBuffers : BitVec 64
  bufferCount : ℕ
  count_le : bufferCount ≤ 64

namespace BufferPool

/-- A new pool. -/
def new (count : ℕ) (h : count ≤ 64) : BufferPool := ⟨0, count, h⟩

/-- `(usedBuffers >> i) & 1`. -/
def isUsed (pool : BufferPool) (i : ℕ) : Bool := pool.usedBuffers.getLsbD i

/-- `1LL << i`. -/
def bit (i : ℕ) : BitVec 64 := (1 : BitVec 64) <<< i

/-- `Get`. -/
def get (pool : BufferPool) : Option ℕ × BufferPool :=
  match (List.range pool.bufferCount).find? fun i => !pool.isUsed i with
  | some i => (some i, { pool with usedBuffers := pool.usedBuffers ||| bit i })
  | none => (none, pool)

/-- `Reuse`; no buffer is `NULL`. -/
def reuse (pool : BufferPool) (buffer : Option ℕ) : Except MemoryFault BufferPool :=
  match buffer with
  | some i =>
      if i < pool.bufferCount then
        .ok { pool with usedBuffers := pool.usedBuffers &&& ~~~bit i }
      else .error .abort
  | none => .error .abort

variable {pool pool' : BufferPool} {i j : ℕ}

/-- The word of a bit has this bit only. -/
theorem getLsbD_bit (hj : j < 64) : (bit i).getLsbD j = decide (j = i) := by
  have hone : (1 : BitVec 64).getLsbD (j - i) = decide (j - i = 0) := by
    rw [show (1 : BitVec 64) = 1#64 from rfl, BitVec.getLsbD_one]
    simp
  rw [bit, BitVec.getLsbD_shiftLeft, hone, decide_eq_true hj, Bool.true_and]
  rw [Bool.eq_iff_iff, Bool.and_eq_true, Bool.not_eq_true', decide_eq_false_iff_not,
    decide_eq_true_iff, decide_eq_true_iff]
  omega

@[simp] theorem isUsed_new (count : ℕ) (h : count ≤ 64) (i : ℕ) :
    (new count h).isUsed i = false := by
  simp [isUsed, new]

/-- **A buffer that was not in use is handed out.** -/
theorem get_eq_some (h : pool.get = (some i, pool')) :
    i < pool.bufferCount ∧ pool.isUsed i = false ∧ pool'.bufferCount = pool.bufferCount ∧
      ∀ j < pool.bufferCount, pool'.isUsed j = true ↔ pool.isUsed j = true ∨ j = i := by
  rw [get] at h
  split at h
  · next k hfind =>
      obtain ⟨hi, rfl⟩ := Prod.mk.inj h
      obtain rfl := Option.some.inj hi
      have hlt := List.mem_range.mp (List.mem_of_find?_eq_some hfind)
      have hfree := List.find?_some hfind
      refine ⟨hlt, by simpa using hfree, rfl, fun j hj => ?_⟩
      have hcount := pool.count_le
      rw [isUsed, isUsed, BitVec.getLsbD_or, getLsbD_bit (by omega), Bool.or_eq_true,
        decide_eq_true_iff]
  · next hfind => cases h

/-- No buffer is handed out only if all are in use. -/
theorem get_eq_none (h : pool.get.1 = none) : ∀ i < pool.bufferCount, pool.isUsed i = true := by
  rw [get] at h
  split at h
  · cases h
  · next hfind =>
      intro i hi
      have hused := List.find?_eq_none.mp hfind i (List.mem_range.mpr hi)
      simpa using hused

/-- **A buffer of the pool is taken back.** -/
theorem reuse_of_lt (hi : i < pool.bufferCount) :
    ∃ pool', pool.reuse (some i) = .ok pool' ∧ pool'.bufferCount = pool.bufferCount ∧
      ∀ j < pool.bufferCount, pool'.isUsed j = true ↔ pool.isUsed j = true ∧ j ≠ i := by
  refine ⟨_, if_pos hi, rfl, fun j hj => ?_⟩
  have hcount := pool.count_le
  rw [isUsed, isUsed, BitVec.getLsbD_and, BitVec.getLsbD_not, getLsbD_bit (by omega),
    decide_eq_true (show j < 64 by omega), Bool.true_and, Bool.and_eq_true, Bool.not_eq_true',
    decide_eq_false_iff_not]

end BufferPool

end Telegraph.VoIP
