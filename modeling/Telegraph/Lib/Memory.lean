import Telegraph.Lib.Bytes

/-!
# Reading Memory at Positions

A pointer into a block of memory is a position. Every read is of single bytes, and a read of a
byte outside the block has no result, so a reader with a result has stayed inside. What a writer
has put at a position is a segment of the block; segments are taken apart where the writer put
them together.

## Main results

* `at_append`, `at_cons`: a segment is its parts, each where the one before it ends.
* `readBytes_at`, `readLE_at`, `readCString_at`: what is read from a segment.
* `readVarint_at`: **a number written in groups of seven bits is read back**, and the reader ends
  where the writer did.
-/

namespace Memory

open Bytes

/-- The block has the segment `bs` at position `p`. -/
def At (data : List UInt8) (p : ℕ) (bs : List UInt8) : Prop := bs <+: data.drop p

section Segments

variable {data bs cs : List UInt8} {b : UInt8} {p : ℕ}

theorem at_zero (data : List UInt8) : At data 0 data := List.prefix_rfl

@[simp] theorem at_nil : At data p [] := List.nil_prefix

/-- The first byte of a segment, and the rest of it. -/
theorem at_cons : At data p (b :: bs) ↔ data[p]? = some b ∧ At data (p + 1) bs := by
  rw [At, At, ← List.drop_drop]
  have hget : data[p]? = (data.drop p)[0]? := by rw [List.getElem?_drop, Nat.add_zero]
  rw [hget]
  cases data.drop p with
  | nil => simp
  | cons c rest =>
      rw [List.cons_prefix_cons, List.getElem?_cons_zero, Option.some.injEq, List.drop_succ_cons,
        List.drop_zero, eq_comm]

/-- A segment is its parts, each where the one before it ends. -/
theorem at_append : At data p (bs ++ cs) ↔ At data p bs ∧ At data (p + bs.length) cs := by
  induction bs generalizing p with
  | nil => simp
  | cons b bs ih =>
      rw [List.cons_append, at_cons, at_cons, ih, List.length_cons, and_assoc,
        Nat.add_right_comm p 1, Nat.add_assoc p bs.length 1]

/-- A segment starts with its prefixes. -/
theorem At.of_prefix (h : At data p bs) (hstart : cs <+: bs) : At data p cs :=
  hstart.trans h

end Segments

/-! ### Reads -/

/-- The `n` bytes from position `p`. -/
def readBytes (data : List UInt8) : ℕ → ℕ → Option (List UInt8)
  | _, 0 => some []
  | p, n + 1 => do
      let b ← data[p]?
      let bs ← readBytes data (p + 1) n
      some (b :: bs)

/-- The number in the `n` bytes from position `p`, least significant first. -/
def readLE (data : List UInt8) (p n : ℕ) : Option ℕ := (readBytes data p n).map leNat

/-- The bytes from position `p` up to the first zero. -/
def readCString (data : List UInt8) (p : ℕ) : Option (List UInt8) :=
  if 0 ∈ data.drop p then some ((data.drop p).takeWhile (· ≠ 0)) else none

/-- A number in groups of seven bits, least significant first, in at most `n + 1` bytes: its value
and the position behind it. -/
def readVarint (data : List UInt8) : ℕ → ℕ → Option (ℕ × ℕ)
  | 0, p => do
      let b ← data[p]?
      some (b.toNat % 128, p + 1)
  | n + 1, p => do
      let b ← data[p]?
      if 128 ≤ b.toNat then do
        let (value, q) ← readVarint data n (p + 1)
        some (b.toNat % 128 + 128 * value, q)
      else some (b.toNat % 128, p + 1)

/-- A number in groups of seven bits, least significant first, in at most `n + 1` bytes. -/
def varint : ℕ → ℕ → List UInt8
  | 0, value => [UInt8.ofNat (value % 128)]
  | n + 1, value =>
      if 127 < value then UInt8.ofNat (value % 128 + 128) :: varint n (value / 128)
      else [UInt8.ofNat (value % 128)]

section Reads

variable {data bs : List UInt8} {p n value : ℕ}

/-- The bytes of a segment are read. -/
theorem readBytes_at (h : At data p bs) : readBytes data p bs.length = some bs := by
  induction bs generalizing p with
  | nil => rfl
  | cons b bs ih =>
      obtain ⟨hb, hbs⟩ := at_cons.mp h
      simp only [List.length_cons, readBytes, hb, ih hbs, Option.bind_eq_bind, Option.bind_some]

/-- Bytes inside of the block are read. -/
theorem readBytes_of_le (h : p + n ≤ data.length) :
    readBytes data p n = some ((data.drop p).take n) := by
  have hread := readBytes_at (List.take_prefix n (data.drop p) : At data p _)
  rwa [List.length_take, List.length_drop, Nat.min_eq_left (by omega)] at hread

/-- A number that fits is read back. -/
theorem readLE_at (h : At data p (toLE n value)) (hvalue : value < 256 ^ n) :
    readLE data p n = some value := by
  have hread := readBytes_at h
  rw [length_toLE] at hread
  rw [readLE, hread, Option.map_some, leNat_toLE_of_lt hvalue]

/-- A string is read up to the zero behind it. -/
theorem readCString_at (h : At data p (bs ++ [0])) (hbs : 0 ∉ bs) :
    readCString data p = some bs := by
  obtain ⟨rest, hrest⟩ := h
  have hmem : 0 ∈ data.drop p := by
    rw [← hrest]
    simp
  have hall : ∀ b ∈ bs, decide (b ≠ 0) = true := by
    intro b hb
    exact decide_eq_true fun hzero => hbs (hzero ▸ hb)
  rw [readCString, if_pos hmem, ← hrest, List.append_assoc, List.takeWhile_append_of_pos hall]
  simp

theorem varint_ne_nil (n value : ℕ) : varint n value ≠ [] := by
  cases n with
  | zero => exact List.cons_ne_nil _ _
  | succ n =>
      rw [varint]
      split <;> exact List.cons_ne_nil _ _

/-- **A number written in groups of seven bits is read back.** -/
theorem readVarint_at (h : At data p (varint n value)) (hvalue : value < 128 ^ (n + 1)) :
    readVarint data n p = some (value, p + (varint n value).length) := by
  induction n generalizing p value with
  | zero =>
      obtain ⟨hb, -⟩ := at_cons.mp h
      have hlow : (UInt8.ofNat (value % 128)).toNat % 128 = value := by
        rw [UInt8.toNat_ofNat']
        omega
      simp only [readVarint, hb, Option.bind_eq_bind, Option.bind_some, hlow, varint,
        List.length_singleton]
  | succ n ih =>
      rw [varint] at h ⊢
      by_cases hmore : 127 < value
      · rw [if_pos hmore] at h ⊢
        obtain ⟨hb, hrest⟩ := at_cons.mp h
        rw [pow_succ] at hvalue
        have hbyte : (UInt8.ofNat (value % 128 + 128)).toNat = value % 128 + 128 := by
          rw [UInt8.toNat_ofNat']
          omega
        have hread := ih hrest (by omega)
        have hsum : (value % 128 + 128) % 128 + 128 * (value / 128) = value := by omega
        simp only [readVarint, hb, Option.bind_eq_bind, Option.bind_some, hbyte,
          Nat.le_add_left, if_true, hread, hsum, List.length_cons]
        rw [Nat.add_right_comm, Nat.add_assoc]
      · rw [if_neg hmore] at h ⊢
        obtain ⟨hb, -⟩ := at_cons.mp h
        have hbyte : (UInt8.ofNat (value % 128)).toNat = value := by
          rw [UInt8.toNat_ofNat']
          omega
        have hlast : ¬ 128 ≤ value := by omega
        have hlow : value % 128 = value := by omega
        rw [readVarint, hb, Option.bind_eq_bind, Option.bind_some, hbyte, if_neg hlast,
          List.length_singleton, hlow]

end Reads

end Memory
