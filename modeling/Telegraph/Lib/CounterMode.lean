import Mathlib.Data.List.GetD
import Mathlib.Data.Nat.Notation
import Mathlib.Tactic.Common

/-!
# Key Streams

A stream cipher combines a text with a key stream, byte by byte. A place in the stream is all that
it has to remember, so a text may be cut anywhere, and a piece of it may be taken out and combined
on its own. In counter mode the stream is made of blocks.

## Main results

* `xorFrom_append`: **a text in two pieces.**
* `xorFrom_xorFrom`: **a text is got back.**
* `xorFrom_blockStream`: within a block of the stream.
-/

namespace CounterMode

variable {stream other : ℕ → UInt8} {start offset : ℕ}

/-! ### Streams -/

/-- A text, combined with a stream from a place on. -/
def xorFrom (stream : ℕ → UInt8) : ℕ → List UInt8 → List UInt8
  | _, [] => []
  | start, b :: text => (b ^^^ stream start) :: xorFrom stream (start + 1) text

@[simp] theorem xorFrom_nil : xorFrom stream start [] = [] := rfl

@[simp] theorem length_xorFrom (stream : ℕ → UInt8) (start : ℕ) (text : List UInt8) :
    (xorFrom stream start text).length = text.length := by
  induction text generalizing start with
  | nil => rfl
  | cons b text ih => rw [xorFrom, List.length_cons, ih, List.length_cons]

/-- **A text in two pieces**: the second one goes on where the first one ends. -/
theorem xorFrom_append (text more : List UInt8) :
    xorFrom stream start (text ++ more) =
      xorFrom stream start text ++ xorFrom stream (start + text.length) more := by
  induction text generalizing start with
  | nil => rfl
  | cons b text ih =>
      rw [List.cons_append, xorFrom, ih, xorFrom, List.cons_append, List.length_cons,
        Nat.add_assoc, Nat.add_comm 1]

/-- **A text is got back** by combining it again. -/
theorem xorFrom_xorFrom (text : List UInt8) :
    xorFrom stream start (xorFrom stream start text) = text := by
  induction text generalizing start with
  | nil => rfl
  | cons b text ih =>
      rw [xorFrom, xorFrom, ih, UInt8.xor_assoc, UInt8.xor_self, UInt8.xor_zero]

/-- Only the places of the text count. -/
theorem xorFrom_congr {text : List UInt8}
    (h : ∀ i < text.length, stream (start + i) = other (offset + i)) :
    xorFrom stream start text = xorFrom other offset text := by
  induction text generalizing start offset with
  | nil => rfl
  | cons b text ih =>
      have hrest : ∀ i < text.length, stream (start + 1 + i) = other (offset + 1 + i) := by
        intro i hi
        have hnext := h (i + 1) (Nat.succ_lt_succ hi)
        rwa [Nat.add_comm i 1, ← Nat.add_assoc, ← Nat.add_assoc] at hnext
      rw [xorFrom, xorFrom, ih hrest]
      exact congrArg (fun k => (b ^^^ k) :: _) (h 0 (Nat.zero_lt_succ _))

/-- The text behind a place. -/
theorem drop_xorFrom (n : ℕ) (text : List UInt8) :
    (xorFrom stream start text).drop n = xorFrom stream (start + n) (text.drop n) := by
  rcases Nat.le_total n text.length with hle | hle
  · have hlength : (xorFrom stream start (text.take n)).length = n := by
      rw [length_xorFrom, List.length_take_of_le hle]
    conv_lhs => rw [← List.take_append_drop n text]
    rw [xorFrom_append, List.drop_left' hlength, List.length_take_of_le hle]
  · rw [List.drop_of_length_le (by rwa [length_xorFrom]), List.drop_of_length_le hle, xorFrom_nil]

/-- The text before a place. -/
theorem take_xorFrom (n : ℕ) (text : List UInt8) :
    (xorFrom stream start text).take n = xorFrom stream start (text.take n) := by
  rcases Nat.le_total n text.length with hle | hle
  · have hlength : (xorFrom stream start (text.take n)).length = n := by
      rw [length_xorFrom, List.length_take_of_le hle]
    conv_lhs => rw [← List.take_append_drop n text]
    rw [xorFrom_append, List.take_left' hlength]
  · rw [List.take_of_length_le (by rwa [length_xorFrom]), List.take_of_length_le hle]

/-! ### Streams of blocks -/

/-- The stream of blocks of a size. -/
def blockStream (size : ℕ) (block : ℕ → List UInt8) (i : ℕ) : UInt8 :=
  (block (i / size)).getD (i % size) 0

variable {size : ℕ} {block : ℕ → List UInt8}

/-- A stream starts with the bytes that stand at its places. -/
theorem xorFrom_eq_zipWith {text pad : List UInt8} (hlength : text.length ≤ pad.length)
    (h : ∀ i < text.length, stream (start + i) = pad.getD i 0) :
    xorFrom stream start text = List.zipWith (· ^^^ ·) text pad := by
  induction text generalizing start pad with
  | nil => rfl
  | cons b text ih =>
      cases pad with
      | nil => exact absurd hlength (Nat.not_succ_le_zero _)
      | cons p pad =>
          have hrest : ∀ i < text.length, stream (start + 1 + i) = pad.getD i 0 := by
            intro i hi
            have hnext : stream (start + (i + 1)) = pad.getD i 0 :=
              h (i + 1) (Nat.succ_lt_succ hi)
            rwa [Nat.add_comm i 1, ← Nat.add_assoc] at hnext
          have hfirst : stream start = p := h 0 (Nat.zero_lt_succ _)
          rw [xorFrom, List.zipWith_cons_cons, hfirst, ih (Nat.le_of_succ_le_succ hlength) hrest]

/-- **Within a block** a text is combined with what the block has left. -/
theorem xorFrom_blockStream {q : ℕ} (r : ℕ) (text : List UInt8) (hblock : (block q).length = size)
    (h : r + text.length ≤ size) :
    xorFrom (blockStream size block) (size * q + r) text =
      List.zipWith (· ^^^ ·) text ((block q).drop r) := by
  refine xorFrom_eq_zipWith (by rw [List.length_drop]; omega) fun i hi => ?_
  have hlt : r + i < size := by omega
  have hdiv : (size * q + (r + i)) / size = q := by
    rw [Nat.mul_add_div (by omega), Nat.div_eq_of_lt hlt, Nat.add_zero]
  have hmod : (size * q + (r + i)) % size = r + i := by
    rw [Nat.mul_add_mod, Nat.mod_eq_of_lt hlt]
  rw [blockStream, Nat.add_assoc, hdiv, hmod, List.getD_eq_getElem?_getD,
    List.getD_eq_getElem?_getD, List.getElem?_drop]

end CounterMode
