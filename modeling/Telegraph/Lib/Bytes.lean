import Mathlib.Data.List.Induction
import Mathlib.Data.List.Lex
import Mathlib.Data.Nat.ModEq
import Mathlib.Data.Nat.Size
import Mathlib.Tactic.Ring

/-!
# Little-Endian Byte Strings

The value of a byte string read least significant byte first, and the `n`-byte string of
a value. Every fixed-width integer of the wire formats goes through these two.

## Main results

* `leNat_toLE`: writing a value and reading it back reduces it modulo `256 ^ n`.
* `toLE_leNat`: reading a byte string and writing it back is the identity.
* `leInt32_int32LE`: writing an integer as an `int32_t` and reading it back wraps it.
* `lex_toBE`: byte strings that start with values, most significant byte first, are ordered by
  the values.
* `beNat_toBE`, `numBytes_le`: the same most significant byte first, and the bytes a value needs.
* `memcmp_pos`: `memcmp` compares byte strings of one length as big-endian numbers.
* `window`: a field is read back from between what stands around it.
-/

namespace Bytes

/-- The value of a byte string, least significant byte first. -/
def leNat : List UInt8 → ℕ
  | [] => 0
  | b :: bs => b.toNat + 256 * leNat bs

/-- The `n` low bytes of a value, least significant first. -/
def toLE : ℕ → ℕ → List UInt8
  | 0, _ => []
  | n + 1, v => UInt8.ofNat v :: toLE n (v / 256)

@[simp] theorem leNat_nil : leNat [] = 0 := rfl

@[simp] theorem leNat_cons (b : UInt8) (bs : List UInt8) :
    leNat (b :: bs) = b.toNat + 256 * leNat bs := rfl

@[simp] theorem length_toLE (n v : ℕ) : (toLE n v).length = n := by
  induction n generalizing v with
  | zero => rfl
  | succ n ih => simp [toLE, ih]

/-- A value needs no more bits than its bytes have. -/
theorem leNat_lt (bs : List UInt8) : leNat bs < 256 ^ bs.length := by
  induction bs with
  | nil => simp
  | cons b bs ih =>
      have hb := b.toNat_lt
      simp only [leNat_cons, List.length_cons, pow_succ']
      omega

/-- Writing a value in `n` bytes and reading it back reduces it modulo `256 ^ n`. -/
theorem leNat_toLE (n v : ℕ) : leNat (toLE n v) = v % 256 ^ n := by
  induction n generalizing v with
  | zero => simp [toLE, Nat.mod_one]
  | succ n ih =>
      have hlow : (UInt8.ofNat v).toNat = v % 256 := UInt8.toNat_ofNat'
      rw [toLE, leNat_cons, ih, hlow, pow_succ', Nat.mod_mul]

/-- A value that fits is read back unchanged. -/
theorem leNat_toLE_of_lt {n v : ℕ} (h : v < 256 ^ n) : leNat (toLE n v) = v := by
  rw [leNat_toLE, Nat.mod_eq_of_lt h]

/-- Reading a byte string and writing it back is the identity. -/
theorem toLE_leNat (bs : List UInt8) : toLE bs.length (leNat bs) = bs := by
  induction bs with
  | nil => rfl
  | cons b bs ih =>
      have hb := b.toNat_lt
      have hdiv : (b.toNat + 256 * leNat bs) / 256 = leNat bs := by omega
      have hhead : UInt8.ofNat (b.toNat + 256 * leNat bs) = b := by
        apply UInt8.toNat_inj.mp
        rw [UInt8.toNat_ofNat']
        omega
      rw [List.length_cons, toLE, leNat_cons, hdiv, ih, hhead]

/-! ### Signed 32-bit fields -/

/-- The four bytes of an integer converted to `int32_t`. -/
def int32LE (v : ℤ) : List UInt8 :=
  toLE 4 (v % 4294967296).toNat

/-- The `int32_t` with these four bytes. -/
def leInt32 (bs : List UInt8) : ℤ :=
  Int.bmod (leNat bs) 4294967296

@[simp] theorem length_int32LE (v : ℤ) : (int32LE v).length = 4 := length_toLE _ _

/-- The four bytes of an integer hold it modulo `2 ^ 32`. -/
theorem leNat_int32LE (v : ℤ) : leNat (int32LE v) = (v % 4294967296).toNat := by
  have hlt : (v % 4294967296).toNat < 4294967296 := by omega
  rw [int32LE, leNat_toLE, show (256 ^ 4 : ℕ) = 4294967296 from rfl, Nat.mod_eq_of_lt hlt]

/-- Writing an integer as an `int32_t` and reading it back wraps it. -/
theorem leInt32_int32LE (v : ℤ) : leInt32 (int32LE v) = v.bmod 4294967296 := by
  have hpos : 0 ≤ v % 4294967296 := Int.emod_nonneg v (by decide)
  have hwrap : (v % 4294967296).bmod 4294967296 = v.bmod 4294967296 :=
    Int.emod_bmod v 4294967296
  calc leInt32 (int32LE v) = Int.bmod (leNat (int32LE v)) 4294967296 := rfl
    _ = Int.bmod (v % 4294967296) 4294967296 := by
        rw [leNat_int32LE, Int.toNat_of_nonneg hpos]
    _ = v.bmod 4294967296 := hwrap

/-- An integer that fits is read back unchanged. -/
theorem leInt32_int32LE_of_fits {v : ℤ} (hlow : -2147483648 ≤ v) (hhigh : v < 2147483648) :
    leInt32 (int32LE v) = v := by
  rw [leInt32_int32LE]
  apply Int.bmod_eq_of_le <;> omega

/-- A length below `2 ^ 31` is its own `int32_t`. -/
theorem toInt_length {n : ℕ} (h : n < 2 ^ 31) : (BitVec.ofNat 32 n).toInt = n := by
  rw [BitVec.toInt_ofNat', Int.bmod_eq_of_le (by omega) (by omega)]

/-! ### Big-endian order -/

/-- The `n` low bytes of a value, most significant first. -/
def toBE (n v : ℕ) : List UInt8 := (toLE n v).reverse

@[simp] theorem length_toBE (n v : ℕ) : (toBE n v).length = n := by
  rw [toBE, List.length_reverse, length_toLE]

theorem toBE_succ (n v : ℕ) : toBE (n + 1) v = toBE n (v / 256) ++ [UInt8.ofNat v] := by
  rw [toBE, toLE, List.reverse_cons, toBE]

/-- Byte strings that start with values are ordered by the values. -/
theorem lex_toBE {n v w : ℕ} (hvw : v < w) (hw : w < 256 ^ n) (x y : List UInt8) :
    List.Lex (· < ·) ((toBE n v ++ x).map UInt8.toNat) ((toBE n w ++ y).map UInt8.toNat) := by
  induction n generalizing v w x y with
  | zero => omega
  | succ n ih =>
      rw [pow_succ] at hw
      have hquotient : w / 256 < 256 ^ n := by omega
      rw [toBE_succ, toBE_succ, List.append_assoc, List.append_assoc]
      rcases Nat.lt_or_ge (v / 256) (w / 256) with hlt | hge
      · exact ih hlt hquotient _ _
      · have heq : v / 256 = w / 256 := by omega
        have hlow : (UInt8.ofNat v).toNat < (UInt8.ofNat w).toNat := by
          rw [UInt8.toNat_ofNat', UInt8.toNat_ofNat']
          omega
        simp only [heq, List.map_append]
        exact List.Lex.append_left _ (.rel hlow) _

/-- The value of a byte string, most significant byte first. -/
def beNat : List UInt8 → ℕ
  | [] => 0
  | b :: bs => b.toNat * 256 ^ bs.length + beNat bs

theorem beNat_lt (bs : List UInt8) : beNat bs < 256 ^ bs.length := by
  induction bs with
  | nil => exact Nat.one_pos
  | cons b bs ih =>
      have hb : b.toNat + 1 ≤ 256 := b.toNat_lt
      calc beNat (b :: bs) < b.toNat * 256 ^ bs.length + 256 ^ bs.length :=
            Nat.add_lt_add_left ih _
        _ = (b.toNat + 1) * 256 ^ bs.length := (Nat.succ_mul _ _).symm
        _ ≤ 256 * 256 ^ bs.length := Nat.mul_le_mul_right _ hb
        _ = 256 ^ (b :: bs).length := (pow_succ' 256 bs.length).symm

/-- The higher byte decides. -/
theorem beNat_cons_lt {b c : UInt8} {bs cs : List UInt8} (hbc : b.toNat < c.toNat)
    (hlen : bs.length = cs.length) : beNat (b :: bs) < beNat (c :: cs) := by
  have hbs := beNat_lt bs
  calc beNat (b :: bs) < b.toNat * 256 ^ bs.length + 256 ^ bs.length := Nat.add_lt_add_left hbs _
    _ = (b.toNat + 1) * 256 ^ cs.length := by rw [hlen, Nat.succ_mul]
    _ ≤ c.toNat * 256 ^ cs.length := Nat.mul_le_mul_right _ hbc
    _ ≤ beNat (c :: cs) := Nat.le_add_right _ _

/-- What stands before both strings does not matter. -/
theorem beNat_append_lt (x : List UInt8) {bs cs : List UInt8} (hlen : bs.length = cs.length) :
    beNat (x ++ bs) < beNat (x ++ cs) ↔ beNat bs < beNat cs := by
  induction x with
  | nil => rfl
  | cons b x ih =>
      have hlength : (x ++ bs).length = (x ++ cs).length := by
        rw [List.length_append, List.length_append, hlen]
      rw [List.cons_append, List.cons_append, beNat, beNat, hlength, Nat.add_lt_add_iff_left, ih]

/-- The byte behind a string is its lowest one. -/
theorem beNat_concat (bs : List UInt8) (b : UInt8) :
    beNat (bs ++ [b]) = 256 * beNat bs + b.toNat := by
  induction bs with
  | nil => simp [beNat]
  | cons c bs ih =>
      rw [List.cons_append, beNat, beNat, ih, List.length_append, List.length_singleton, pow_succ]
      ring

/-- Writing a value in `n` bytes and reading it back reduces it modulo `256 ^ n`. -/
theorem beNat_toBE (n v : ℕ) : beNat (toBE n v) = v % 256 ^ n := by
  induction n generalizing v with
  | zero => rw [pow_zero, Nat.mod_one]; rfl
  | succ n ih =>
      have hlow : (UInt8.ofNat v).toNat = v % 256 := UInt8.toNat_ofNat'
      rw [toBE_succ, beNat_concat, ih, hlow, pow_succ', Nat.mod_mul, Nat.add_comm]

/-- The bytes of the value of a byte string are the string. -/
theorem toBE_beNat (bs : List UInt8) : toBE bs.length (beNat bs) = bs := by
  induction bs using List.reverseRecOn with
  | nil => rfl
  | append_singleton bs b ih =>
      have hb : b.toNat < 256 := b.toNat_lt
      have hhigh : (256 * beNat bs + b.toNat) / 256 = beNat bs := by omega
      have hlow : UInt8.ofNat (256 * beNat bs + b.toNat) = b := by
        refine UInt8.toNat_inj.mp ?_
        rw [UInt8.toNat_ofNat']
        omega
      rw [List.length_append, List.length_singleton, beNat_concat, toBE_succ, hhigh, ih, hlow]

/-- The number of bytes that a value needs. -/
def numBytes (v : ℕ) : ℕ := (v.size + 7) / 8

/-- A value needs no more than `n` bytes exactly if it is below `256 ^ n`. -/
theorem numBytes_le {v n : ℕ} : numBytes v ≤ n ↔ v < 256 ^ n := by
  have hpow : 256 ^ n = 2 ^ (8 * n) := (pow_mul 2 8 n).symm
  rw [hpow, ← Nat.size_le, numBytes]
  omega

/-- `memcmp`: the difference of the first bytes that differ. -/
def memcmp : List UInt8 → List UInt8 → ℤ
  | b :: bs, c :: cs => if b = c then memcmp bs cs else (b.toNat : ℤ) - c.toNat
  | _, _ => 0

/-- Byte strings of one length are compared as big-endian numbers. -/
theorem memcmp_pos {bs cs : List UInt8} (hlen : bs.length = cs.length) :
    0 < memcmp bs cs ↔ beNat cs < beNat bs := by
  induction bs generalizing cs with
  | nil =>
      obtain rfl := List.length_eq_zero_iff.mp hlen.symm
      exact ⟨fun h => absurd h (lt_irrefl _), fun h => absurd h (lt_irrefl _)⟩
  | cons b bs ih =>
      obtain ⟨c, cs, rfl⟩ := List.exists_cons_of_length_eq_add_one hlen.symm
      have htail : bs.length = cs.length := Nat.succ.inj hlen
      rw [memcmp]
      split
      · next heq =>
          subst heq
          rw [ih htail, beNat, beNat, htail, Nat.add_lt_add_iff_left]
      · next hne =>
          have hvalues : b.toNat ≠ c.toNat := fun h => hne (UInt8.toNat_inj.mp h)
          rcases Nat.lt_or_gt_of_ne hvalues with hlt | hgt
          · have := beNat_cons_lt hlt htail
            omega
          · have := beNat_cons_lt hgt htail.symm
            omega

/-! ### Fields -/

/-- A field is read back from between what stands around it. -/
theorem window {α : Type*} {before field after : List α} {offset length : ℕ}
    (hbefore : before.length = offset) (hfield : field.length = length) :
    ((before ++ (field ++ after)).drop offset).take length = field := by
  rw [List.drop_left' hbefore, List.take_left' hfield]

end Bytes
