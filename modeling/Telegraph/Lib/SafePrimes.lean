import Mathlib.NumberTheory.LegendreSymbol.QuadraticReciprocity
import Mathlib.Tactic.IntervalCases

/-!
# Quadratic Residues modulo a Safe Prime

A safe prime is a prime `p` for which `(p - 1) / 2` is prime as well. Above 7 this fixes `p` modulo
4 and modulo 3, and so for small numbers the laws of quadratic reciprocity come down to a residue or
two. The quadratic residues other than 1 are the elements of order `(p - 1) / 2`.

## Main results

* `SafePrime.mod_four`, `SafePrime.mod_three`: what is fixed.
* `SafePrime.isSquare_two_iff`, `isSquare_three`, `isSquare_five_iff`, `isSquare_six_iff`,
  `isSquare_seven_iff`: which of the small numbers are quadratic residues.
* `SafePrime.isSquare_iff_orderOf`: **a quadratic residue generates the subgroup of order
  `(p - 1) / 2`.**
-/

/-- A safe prime above 7. -/
structure SafePrime (p : ℕ) : Prop where
  prime : p.Prime
  half_prime : ((p - 1) / 2).Prime
  seven_lt : 7 < p

namespace SafePrime

variable {p : ℕ}

theorem odd (h : SafePrime p) : p % 2 = 1 := by
  have hlt := h.seven_lt
  exact h.prime.eq_two_or_odd.resolve_left (by omega)

/-- The half is an odd prime, so the prime is 3 modulo 4. -/
theorem mod_four (h : SafePrime p) : p % 4 = 3 := by
  have hlt := h.seven_lt
  have hodd := h.odd
  have hhalf := h.half_prime.eq_two_or_odd
  omega

theorem mod_ne_zero (h : SafePrime p) {n : ℕ} (hn : n.Prime) (hle : n ≤ 7) : p % n ≠ 0 := by
  have hlt := h.seven_lt
  intro hmod
  have heq := (Nat.prime_dvd_prime_iff_eq hn h.prime).mp (Nat.dvd_of_mod_eq_zero hmod)
  omega

/-- Neither the prime nor its half is divisible by 3, so the prime is 2 modulo 3. -/
theorem mod_three (h : SafePrime p) : p % 3 = 2 := by
  have hlt := h.seven_lt
  have hodd := h.odd
  have hprime := h.mod_ne_zero Nat.prime_three (by omega)
  have hhalf : (p - 1) / 2 % 3 ≠ 0 := by
    intro hmod
    have heq := (Nat.prime_dvd_prime_iff_eq Nat.prime_three h.half_prime).mp
      (Nat.dvd_of_mod_eq_zero hmod)
    omega
  omega

/-! ### The small numbers -/

theorem isSquare_two_iff (h : SafePrime p) : IsSquare (2 : ZMod p) ↔ p % 8 = 7 := by
  have := Fact.mk h.prime
  have hlt := h.seven_lt
  have hmod := h.mod_four
  rw [ZMod.exists_sq_eq_two_iff (by omega)]
  omega

/-- Another prime that is 3 modulo 4 is a quadratic residue if `p` is none modulo it. -/
theorem isSquare_prime_iff (h : SafePrime p) {n : ℕ} (hn : n.Prime) (hle : n ≤ 7)
    (hmod : n % 4 = 3) : IsSquare (n : ZMod p) ↔ ¬ IsSquare ((p % n : ℕ) : ZMod n) := by
  have := Fact.mk h.prime
  have := Fact.mk hn
  have hlt := h.seven_lt
  rw [ZMod.exists_sq_eq_prime_iff_of_mod_four_eq_three h.mod_four hmod (by omega), ZMod.natCast_mod]

theorem isSquare_three (h : SafePrime p) : IsSquare (3 : ZMod p) := by
  have hiff := h.isSquare_prime_iff Nat.prime_three (by omega) rfl
  rw [h.mod_three] at hiff
  exact hiff.mpr (by decide)

theorem isSquare_four (p : ℕ) : IsSquare (4 : ZMod p) := ⟨2, by norm_num⟩

theorem isSquare_five_iff (h : SafePrime p) :
    IsSquare (5 : ZMod p) ↔ p % 5 = 1 ∨ p % 5 = 4 := by
  have hiff : IsSquare ((p % 5 : ℕ) : ZMod 5) ↔ IsSquare ((5 : ℕ) : ZMod p) := by
    have := Fact.mk h.prime
    have := Fact.mk Nat.prime_five
    have hlt := h.seven_lt
    rw [ZMod.natCast_mod]
    exact ZMod.exists_sq_eq_prime_iff_of_mod_four_eq_one rfl (by omega)
  have hne := h.mod_ne_zero Nat.prime_five (by omega)
  have hlt : p % 5 < 5 := Nat.mod_lt _ (by omega)
  rw [show (5 : ZMod p) = ((5 : ℕ) : ZMod p) by norm_num, ← hiff]
  generalize p % 5 = r at hne hlt
  interval_cases r
  · exact absurd rfl hne
  all_goals decide

theorem isSquare_six_iff (h : SafePrime p) : IsSquare (6 : ZMod p) ↔ p % 24 = 23 := by
  have := Fact.mk h.prime
  have hmod := h.mod_three
  have hfour := h.mod_four
  have hthree : (3 : ZMod p) ≠ 0 := by
    have hlt := h.seven_lt
    rw [show (3 : ZMod p) = ((3 : ℕ) : ZMod p) by norm_num, Ne, ZMod.natCast_eq_zero_iff]
    exact Nat.not_dvd_of_pos_of_lt (by omega) (by omega)
  have htwo : IsSquare (6 : ZMod p) ↔ IsSquare (2 : ZMod p) := by
    constructor
    · intro hsix
      have hdiv := hsix.div h.isSquare_three
      rwa [show (6 : ZMod p) / 3 = 2 by rw [div_eq_iff hthree]; norm_num] at hdiv
    · intro htwo
      have hmul := htwo.mul h.isSquare_three
      rwa [show (2 : ZMod p) * 3 = 6 by norm_num] at hmul
  rw [htwo, h.isSquare_two_iff]
  omega

theorem isSquare_seven_iff (h : SafePrime p) :
    IsSquare (7 : ZMod p) ↔ p % 7 = 3 ∨ p % 7 = 5 ∨ p % 7 = 6 := by
  have hiff := h.isSquare_prime_iff Nat.prime_seven le_rfl rfl
  have hne := h.mod_ne_zero Nat.prime_seven le_rfl
  have hlt : p % 7 < 7 := Nat.mod_lt _ (by omega)
  rw [show (7 : ZMod p) = ((7 : ℕ) : ZMod p) by norm_num, hiff]
  generalize p % 7 = r at hne hlt
  interval_cases r
  · exact absurd rfl hne
  all_goals decide

/-! ### The subgroup of order `(p - 1) / 2` -/

/-- **A number between 1 and the prime is a quadratic residue exactly if it generates the subgroup
of order `(p - 1) / 2`.** -/
theorem isSquare_iff_orderOf (h : SafePrime p) {n : ℕ} (hpos : 1 < n) (hlt : n < p) :
    IsSquare (n : ZMod p) ↔ orderOf (n : ZMod p) = (p - 1) / 2 := by
  have := Fact.mk h.prime
  have := Fact.mk h.half_prime
  have hodd := h.odd
  have hzero : (n : ZMod p) ≠ 0 := by
    rw [Ne, ZMod.natCast_eq_zero_iff]
    exact Nat.not_dvd_of_pos_of_lt (by omega) hlt
  have hone : (n : ZMod p) ≠ 1 := by
    rw [← Nat.cast_one, Ne, ZMod.natCast_eq_natCast_iff', Nat.mod_eq_of_lt hlt,
      Nat.mod_eq_of_lt (by omega)]
    omega
  rw [ZMod.euler_criterion p hzero, orderOf_eq_prime_iff, show p / 2 = (p - 1) / 2 by omega]
  exact ⟨fun hpow => ⟨hpow, hone⟩, And.left⟩

end SafePrime
