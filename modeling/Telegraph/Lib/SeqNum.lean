import Mathlib.Data.BitVec
import Mathlib.Tactic.Abel

/-!
# Wrapping Sequence Numbers

Sequence numbers are `w`-bit counters that wrap. The one quantity everything about them
is said with is the **lag** of a number `p` behind a number `l`, the distance
`l - p` read as a natural number below `2 ^ w`.

## Main results

* `sub_lag`, `lag_sub_ofNat`: a number is recovered from its lag, and a number `k` places
  behind has lag `k`.
* `lag_advance`: advancing `l` by `d` adds `d` to every lag, as long as nothing wraps.
* `sub_ofNat_advance`: the same number named from the old and from the advanced end.
-/

namespace SeqNum

variable {w : ℕ}

/-- How far `p` lies behind `l`. -/
def lag (l p : BitVec w) : ℕ :=
  (l - p).toNat

@[simp] theorem lag_self (l : BitVec w) : lag l l = 0 := by
  simp [lag]

theorem lag_eq_zero {l p : BitVec w} : lag l p = 0 ↔ p = l := by
  constructor
  · intro h
    have h0 : l - p = 0 := BitVec.eq_of_toNat_eq (by simpa [lag] using h)
    exact (sub_eq_zero.mp h0).symm
  · rintro rfl
    exact lag_self p

/-- The lag, as a sequence number, is the difference. -/
theorem ofNat_lag (l p : BitVec w) : BitVec.ofNat w (lag l p) = l - p := by
  rw [lag, BitVec.ofNat_toNat, BitVec.setWidth_eq]

/-- A number is recovered from its lag. -/
theorem sub_lag (l p : BitVec w) : l - BitVec.ofNat w (lag l p) = p := by
  rw [ofNat_lag, sub_sub_cancel]

/-- The number `k` places behind `l` has lag `k`. -/
theorem lag_sub_ofNat (l : BitVec w) {k : ℕ} (hk : k < 2 ^ w) :
    lag l (l - BitVec.ofNat w k) = k := by
  rw [lag, sub_sub_cancel, BitVec.toNat_ofNat, Nat.mod_eq_of_lt hk]

/-- Advancing `l` to `l'` adds the advance to the lag of every number, unless the sum
wraps. -/
theorem lag_advance {l l' p : BitVec w} (h : lag l p + lag l' l < 2 ^ w) :
    lag l' p = lag l p + lag l' l := by
  have hsum : l' - p = (l - p) + (l' - l) := by abel
  rw [lag, hsum, BitVec.toNat_add]
  exact Nat.mod_eq_of_lt h

/-- A number `k` places behind the advanced `l'` lies `k - d` places behind `l`, where `d`
is the advance. -/
theorem sub_ofNat_advance {l l' : BitVec w} {k : ℕ} (h : lag l' l ≤ k) :
    l' - BitVec.ofNat w k = l - BitVec.ofNat w (k - lag l' l) := by
  have hk : BitVec.ofNat w k = BitVec.ofNat w (k - lag l' l) + (l' - l) := by
    rw [← ofNat_lag l' l, ← BitVec.ofNat_add, Nat.sub_add_cancel h]
  rw [hk]
  abel

end SeqNum
