import Telegraph.Lib.Loops
import Telegraph.MtProto.DatacenterAuth

/-!
# The Factorization of `pq`

The first answer of the handshake has a number that the client has to split into two factors.
`MTFactorize` looks for a cycle in a sequence of random start, with a binary greatest common divisor
in every round. All arithmetic is that of 64-bit words, and the sums in it may wrap; what is
returned is right all the same, since it is a divisor that is neither 1 nor the number itself. Only
the two remainders at the start of a sequence are taken by a divisor that may be 0.

The random numbers are a parameter, and so is `1 << (i + 18)` once it does not fit an `int`. Loops
are given a number of rounds.

## Main results

* `ensures_mygcd`: the binary greatest common divisor ends and divides the second number.
* `ensures_factorLoop`: from 2 on nothing is divided by 0, and what is found is a divisor.
* `factorizesSafely_iff`: **for which numbers the factorization is safe and right.**
-/

open Loops

namespace Telegraph.MtProto

/-! ### The program -/

/-- How the factorization may end without a result. -/
inductive Halt where
  | divisionByZero
  | outOfRounds
deriving DecidableEq

/-- `a % b`. -/
def remainder (a b : BitVec 64) : Except Halt (BitVec 64) :=
  if b = 0 then .error .divisionByZero else .ok (a % b)

/-- `a / b`. -/
def quotient (a b : BitVec 64) : Except Halt (BitVec 64) :=
  if b = 0 then .error .divisionByZero else .ok (a / b)

/-- `while ((b & 1) == 0) b >>= 1;`. -/
def shiftOutZeros (rounds : ℕ) (b : BitVec 64) : Except Halt (BitVec 64) :=
  whileLoop .outOfRounds (fun b => b &&& 1 = 0) (fun b => pure (b >>> 1)) rounds b

/-- The loop of `mygcd`, over `a` and `b`. -/
def gcdLoop (rounds : ℕ) : BitVec 64 × BitVec 64 → Except Halt (BitVec 64 × BitVec 64) :=
  whileLoop .outOfRounds (fun s => s.1 ≠ 0 ∧ s.2 ≠ 0) (fun (a, b) => do
    let b ← shiftOutZeros rounds b
    let a ← shiftOutZeros rounds a
    pure (if a > b then (a - b, b) else (a, b - a))) rounds

/-- `mygcd`. -/
def mygcd (rounds : ℕ) (a b : BitVec 64) : Except Halt (BitVec 64) := do
  let (a, b) ← gcdLoop rounds (a, b)
  pure (if b = 0 then a else b)

/-- `x += y; if (x >= what) x -= what;`. -/
def addMod (what x y : BitVec 64) : BitVec 64 :=
  if x + y ≥ what then x + y - what else x + y

/-- The variables of the multiplication. -/
structure MulState where
  a : BitVec 64
  b : BitVec 64
  c : BitVec 64

/-- The loop that multiplies by doubling, from `c = q`. -/
def mulLoop (rounds : ℕ) (what : BitVec 64) : MulState → Except Halt MulState :=
  whileLoop .outOfRounds (fun s => s.b ≠ 0) (fun s => pure {
    a := addMod what s.a s.a
    b := s.b >>> 1
    c := if s.b &&& 1 ≠ 0 then addMod what s.c s.a else s.c }) rounds

/-- The variables of the search for a cycle. -/
structure CycleState where
  x : BitVec 64
  y : BitVec 64
  g : BitVec 64
  it : BitVec 32
  j : BitVec 32

/-- The loop `for (j = 1; j < lim; j++)`. -/
def cycleLoop (rounds : ℕ) (what : BitVec 64) (q lim : BitVec 32) :
    CycleState → Except Halt CycleState :=
  loop .outOfRounds (fun s =>
    if s.j.slt lim then do
      let product ← mulLoop rounds what ⟨s.x, s.x, q.signExtend 64⟩
      let x := product.c
      let z := if x < s.y then what + x - s.y else x - s.y
      let g ← mygcd rounds z what
      if g ≠ 1 then pure (.done { s with x := x, g := g, it := s.it + 1 })
      else
        pure (.yield {
          x := x
          y := if s.j &&& (s.j - 1) = 0 then x else s.y
          g := g
          it := s.it + 1
          j := s.j + 1 })
    else pure (.done s)) rounds

/-- `1 << (i + 18)`, which is not defined from `i = 13` on. -/
def cycleLimit (undefinedShift : ℕ → BitVec 32) (i : ℕ) : BitVec 32 :=
  if i + 18 < 31 then (1 : BitVec 32) <<< (i + 18) else undefinedShift i

/-- The variables of `MTFactorize`. -/
structure FactorState where
  i : ℕ
  it : BitVec 32
  g : BitVec 64

/-- A factor other than 1 and the number itself: `g > 1 && g < what`. -/
def isFactor (what g : BitVec 64) : Bool := g > 1 && g < what

/-- The loop `for (int i = 0; i < 3 || it < 1000; i++)`. Each round takes two numbers of
`lrand48`. -/
def factorLoop (undefinedShift : ℕ → BitVec 32) (lrand48 : ℕ → BitVec 31) (rounds : ℕ)
    (what : BitVec 64) : FactorState → Except Halt FactorState :=
  loop .outOfRounds (fun s =>
    if s.i < 3 ∨ s.it.slt 1000 then do
      let q ← remainder (((lrand48 (2 * s.i)).setWidth 64 &&& 15) + 17) what
      let r ← remainder ((lrand48 (2 * s.i + 1)).setWidth 64) (what - 1)
      let x := r + 1
      let cycle ← cycleLoop rounds what (q.setWidth 32) (cycleLimit undefinedShift s.i)
        ⟨x, x, s.g, s.it, 1⟩
      if isFactor what cycle.g then pure (.done ⟨s.i, cycle.it, cycle.g⟩)
      else pure (.yield ⟨s.i + 1, cycle.it, cycle.g⟩)
    else pure (.done s)) rounds

/-- `MTFactorize`; `none` is `false`. -/
def MTFactorize (undefinedShift : ℕ → BitVec 32) (lrand48 : ℕ → BitVec 31) (rounds : ℕ)
    (what : BitVec 64) : Except Halt (Option (BitVec 64 × BitVec 64)) := do
  let s ← factorLoop undefinedShift lrand48 rounds what ⟨0, 0, 0⟩
  if isFactor what s.g then do
    let p1 := s.g
    let p2 ← quotient what s.g
    pure (some (if p1 > p2 then (p2, p1) else (p1, p2)))
  else pure none

/-- What the factorization of a number should keep to: nothing is divided by 0, the greatest common
divisors with the number are found, and what is returned are two factors in order. -/
structure FactorizesSafely (undefinedShift : ℕ → BitVec 32) (lrand48 : ℕ → BitVec 31)
    (what : BitVec 64) : Prop where
  defined : ∀ rounds, MTFactorize undefinedShift lrand48 rounds what ≠ .error .divisionByZero
  gcdEnds : ∀ rounds, 2 ^ 65 ≤ rounds → ∀ z, ∃ g, mygcd rounds z what = .ok g
  factors : ∀ rounds p q, MTFactorize undefinedShift lrand48 rounds what = .ok (some (p, q)) →
    1 < p.toNat ∧ p.toNat ≤ q.toNat ∧ q.toNat < what.toNat ∧ p.toNat * q.toNat = what.toNat

/-! ### The greatest common divisor -/

theorem toNat_ushiftRight_one (b : BitVec 64) : (b >>> 1).toNat = b.toNat / 2 := by
  rw [BitVec.toNat_ushiftRight, Nat.shiftRight_one]

/-- A number whose lowest bit is 0 is twice its half. -/
theorem toNat_of_and_one {b : BitVec 64} (h : b &&& 1 = 0) :
    b.toNat = 2 * (b >>> 1).toNat := by
  have hbit := congrArg BitVec.toNat h
  have hone : (1 : BitVec 64).toNat = 1 := rfl
  have hzero : (0 : BitVec 64).toNat = 0 := rfl
  rw [BitVec.toNat_and, hone, hzero, Nat.and_one_is_mod] at hbit
  rw [toNat_ushiftRight_one]
  omega

section Gcd

variable {E : Halt → Prop} {rounds : ℕ} {a b : BitVec 64}

theorem toNat_pos_of_ne_zero (h : b ≠ 0) : 0 < b.toNat :=
  Nat.pos_of_ne_zero fun hzero => h (BitVec.eq_of_toNat_eq hzero)

theorem ne_zero_of_toNat_pos (h : 0 < b.toNat) : b ≠ 0 := by
  rintro rfl
  exact absurd h (lt_irrefl 0)

/-- Shifting zeros out ends at a number that divides the one before. -/
theorem ensures_shiftOutZeros (hb : b ≠ 0) (hrounds : E .outOfRounds ∨ 2 ^ 65 ≤ rounds) :
    Ensures E (fun b' => b' ≠ 0 ∧ b'.toNat ∣ b.toNat) (shiftOutZeros rounds b) := by
  have hlt := b.isLt
  rw [shiftOutZeros]
  refine Ensures.mono (ensures_whileLoop (I := fun b' => b' ≠ 0 ∧ b'.toNat ∣ b.toNat)
    (v := BitVec.toNat) (fun b' hb' hcond => ?_) ⟨hb, dvd_rfl⟩
    (hrounds.imp_right fun hle => by omega)) fun b' hb' => hb'.1
  have heven := toNat_of_and_one (of_decide_eq_true hcond)
  have hpos := toNat_pos_of_ne_zero hb'.1
  refine ensures_pure ⟨⟨ne_zero_of_toNat_pos (by omega), ?_⟩, by omega⟩
  exact (Dvd.intro_left 2 heven.symm).trans hb'.2

/-- Once zeros are shifted out, the smaller number is taken from the larger one. Every number that
divides both of the results divides both numbers before. -/
theorem ensures_gcdLoop (hrounds : E .outOfRounds ∨ 2 ^ 65 ≤ rounds) :
    Ensures E (fun s => Nat.gcd s.1.toNat s.2.toNat ∣ b.toNat ∧ (s.1 = 0 ∨ s.2 = 0))
      (gcdLoop rounds (a, b)) := by
  have ha := a.isLt
  have hb := b.isLt
  rw [gcdLoop]
  refine Ensures.mono (ensures_whileLoop (I := fun s => Nat.gcd s.1.toNat s.2.toNat ∣ b.toNat)
    (v := fun s => s.1.toNat + s.2.toNat) (fun s hs hcond => ?_) (Nat.gcd_dvd_right _ _)
    (hrounds.imp_right fun hle => by dsimp only; omega)) fun s hs => ⟨hs.1, ?_⟩
  · obtain ⟨h1, h2⟩ := of_decide_eq_true hcond
    refine (ensures_shiftOutZeros h2 hrounds).bind fun b' hb' => ?_
    refine (ensures_shiftOutZeros h1 hrounds).bind fun a' ha' => ensures_pure ?_
    have hdvd : Nat.gcd a'.toNat b'.toNat ∣ b.toNat :=
      ((Nat.gcd_dvd_gcd_of_dvd_left _ ha'.2).trans
        (Nat.gcd_dvd_gcd_of_dvd_right _ hb'.2)).trans hs
    have hapos := toNat_pos_of_ne_zero ha'.1
    have hbpos := toNat_pos_of_ne_zero hb'.1
    have hale := Nat.le_of_dvd (toNat_pos_of_ne_zero h1) ha'.2
    have hble := Nat.le_of_dvd (toNat_pos_of_ne_zero h2) hb'.2
    split
    · next hgt =>
        have hle : b'.toNat ≤ a'.toNat := (BitVec.lt_def.mp hgt).le
        dsimp only
        rw [BitVec.toNat_sub_of_le hle, Nat.gcd_sub_self_left hle]
        exact ⟨hdvd, by omega⟩
    · next hgt =>
        have hle : a'.toNat ≤ b'.toNat := not_lt.mp fun hlt => hgt (BitVec.lt_def.mpr hlt)
        dsimp only
        rw [BitVec.toNat_sub_of_le hle, Nat.gcd_sub_self_right hle]
        exact ⟨hdvd, by omega⟩
  · have hcond := of_decide_eq_false hs.2
    tauto

/-- **The greatest common divisor is found**, and divides the second number. -/
theorem ensures_mygcd (hrounds : E .outOfRounds ∨ 2 ^ 65 ≤ rounds) :
    Ensures E (fun g => g.toNat ∣ b.toNat) (mygcd rounds a b) := by
  have hzero : (0 : BitVec 64).toNat = 0 := rfl
  refine (ensures_gcdLoop hrounds).bind fun s hs => ensures_pure ?_
  obtain ⟨hdvd, hend⟩ := hs
  split
  · next hb =>
      rwa [hb, hzero, Nat.gcd_zero_right] at hdvd
  · next hb =>
      rwa [hend.resolve_right hb, hzero, Nat.gcd_zero_left] at hdvd

end Gcd

/-! ### The sequence stays below the number -/

section Cycle

variable {E : Halt → Prop} {rounds : ℕ} {what x y : BitVec 64}

/-- A sum of two numbers below `what`, reduced once, is below `what`, even if it wraps. -/
theorem addMod_lt (hx : x < what) (hy : y < what) : addMod what x y < what := by
  rw [addMod]
  split <;> bv_omega

/-- The product stays below `what`. -/
theorem ensures_mulLoop {s : MulState} (hE : E .outOfRounds) (ha : s.a < what) (hc : s.c < what) :
    Ensures E (fun s' => s'.c < what) (mulLoop rounds what s) := by
  rw [mulLoop]
  refine Ensures.mono (ensures_whileLoop (I := fun s => s.a < what ∧ s.c < what)
    (v := fun s => s.b.toNat) (fun s hs hcond => ensures_pure ?_) ⟨ha, hc⟩ (.inl hE))
    fun s hs => hs.1.2
  have hb := toNat_pos_of_ne_zero (of_decide_eq_true hcond)
  refine ⟨⟨addMod_lt hs.1 hs.1, ?_⟩, ?_⟩
  · dsimp only
    split
    · exact addMod_lt hs.2 hs.1
    · exact hs.2
  · dsimp only
    rw [toNat_ushiftRight_one]
    omega

/-- What the search for a cycle keeps. -/
structure CycleInvariant (what : BitVec 64) (s : CycleState) : Prop where
  x : s.x < what
  y : s.y < what
  g : s.g ≠ 0 → s.g.toNat ∣ what.toNat

theorem ensures_cycleLoop {q lim : BitVec 32} {s : CycleState} (hE : E .outOfRounds)
    (hq : q.signExtend 64 < what) (hs : CycleInvariant what s) :
    Ensures E (CycleInvariant what) (cycleLoop rounds what q lim s) := by
  rw [cycleLoop]
  refine ensures_loop (I := CycleInvariant what) (v := fun _ => 0) (fun s hs => ?_) hs (.inl hE)
  split
  · refine (ensures_mulLoop hE hs.x hq).bind fun product hproduct => ?_
    refine (ensures_mygcd (.inl hE)).bind fun g hg => ?_
    split
    · exact ensures_pure (Q := RoundEnsures _ _ _ _ _) ⟨hproduct, hs.y, fun _ => hg⟩
    · refine ensures_pure (Q := RoundEnsures _ _ _ _ _) ⟨⟨hproduct, ?_, fun _ => hg⟩, .inl hE⟩
      dsimp only
      split
      · exact hproduct
      · exact hs.y
  · exact ensures_pure (Q := RoundEnsures _ _ _ _ _) hs

end Cycle

/-! ### The factors -/

section Factor

variable {E : Halt → Prop} (undefinedShift : ℕ → BitVec 32) (lrand48 : ℕ → BitVec 31) (rounds : ℕ)
  {what : BitVec 64}

theorem ensures_remainder {a b : BitVec 64} (hb : b ≠ 0) :
    Ensures E (fun r => r < b ∧ r.toNat ≤ a.toNat) (remainder a b) := by
  rw [remainder, if_neg hb]
  show a % b < b ∧ (a % b).toNat ≤ a.toNat
  rw [BitVec.lt_def, BitVec.toNat_umod]
  exact ⟨Nat.mod_lt _ (toNat_pos_of_ne_zero hb), Nat.mod_le _ _⟩

/-- The constant of the sequence is a small number. -/
theorem toNat_start_le (r : BitVec 64) : ((r &&& 15) + 17).toNat ≤ 32 := by
  have hand : (r &&& 15).toNat ≤ 15 := by
    rw [BitVec.toNat_and]
    exact Nat.and_le_right
  have hfifteen : (17 : BitVec 64).toNat = 17 := rfl
  rw [BitVec.toNat_add, hfifteen]
  omega

/-- A small number goes through an `int` and back. -/
theorem signExtend_setWidth {q : BitVec 64} (hq : q.toNat ≤ 32) :
    (q.setWidth 32).signExtend 64 = q := by
  have hwidth : (q.setWidth 32).toNat = q.toNat := by
    rw [BitVec.toNat_setWidth]
    omega
  have hmsb : (q.setWidth 32).msb = false := by
    rw [BitVec.msb_eq_false_iff_two_mul_lt, hwidth]
    omega
  rw [BitVec.signExtend_eq_setWidth_of_msb_false hmsb]
  apply BitVec.eq_of_toNat_eq
  rw [BitVec.toNat_setWidth, hwidth]
  omega

/-- **From 2 on nothing is divided by 0**, and what is found divides the number. -/
theorem ensures_factorLoop (hE : E .outOfRounds) (hwhat : 1 < what.toNat) :
    Ensures E (fun s => s.g ≠ 0 → s.g.toNat ∣ what.toNat)
      (factorLoop undefinedShift lrand48 rounds what ⟨0, 0, 0⟩) := by
  have hzero : what ≠ 0 := ne_zero_of_toNat_pos (by omega)
  have hone : what - 1 ≠ 0 := by bv_omega
  rw [factorLoop]
  refine ensures_loop (I := fun s => s.g ≠ 0 → s.g.toNat ∣ what.toNat) (v := fun _ => 0)
    (fun s hs => ?_) (fun h => absurd rfl h) (.inl hE)
  split
  · refine (ensures_remainder hzero).bind fun q hq => ?_
    refine (ensures_remainder hone).bind fun r hr => ?_
    have hx : r + 1 < what := by
      have hlt := hr.1
      bv_omega
    have hsmall : (q.setWidth 32).signExtend 64 < what := by
      rw [signExtend_setWidth (hq.2.trans (toNat_start_le _))]
      exact hq.1
    have hstart : CycleInvariant what ⟨r + 1, r + 1, s.g, s.it, 1⟩ := ⟨hx, hx, hs⟩
    dsimp only
    refine (ensures_cycleLoop hE hsmall hstart).bind fun cycle hcycle => ?_
    split
    · exact ensures_pure (Q := RoundEnsures _ _ _ _ _) hcycle.g
    · exact ensures_pure (Q := RoundEnsures _ _ _ _ _) ⟨hcycle.g, .inl hE⟩
  · exact ensures_pure (Q := RoundEnsures _ _ _ _ _) hs

/-- What is returned are two factors in order. -/
theorem ensures_MTFactorize (hE : E .outOfRounds) (hwhat : 1 < what.toNat) :
    Ensures E (fun r => ∀ p q, r = some (p, q) →
      1 < p.toNat ∧ p.toNat ≤ q.toNat ∧ q.toNat < what.toNat ∧ p.toNat * q.toNat = what.toNat)
      (MTFactorize undefinedShift lrand48 rounds what) := by
  rw [MTFactorize]
  refine (ensures_factorLoop undefinedShift lrand48 rounds hE hwhat).bind fun s hs => ?_
  split
  · next hfactor =>
      rw [isFactor, Bool.and_eq_true, decide_eq_true_iff, decide_eq_true_iff] at hfactor
      obtain ⟨hgt, hlt⟩ := hfactor
      have hgt' : 1 < s.g.toNat := BitVec.lt_def.mp hgt
      have hlt' : s.g.toNat < what.toNat := BitVec.lt_def.mp hlt
      have hne : s.g ≠ 0 := ne_zero_of_toNat_pos (by omega)
      obtain ⟨k, hk⟩ := hs hne
      rw [quotient, if_neg hne]
      refine ensures_pure fun p q h => ?_
      have hquotient : (what / s.g).toNat = k := by
        rw [BitVec.toNat_udiv, hk, Nat.mul_div_cancel_left _ (by omega)]
      have hk1 : 1 < k := by
        by_contra hle
        have hmul := Nat.mul_le_mul_left s.g.toNat (not_lt.mp hle)
        omega
      have hkwhat : k < what.toNat := by
        have hmul := Nat.mul_lt_mul_of_pos_right hgt' (show 0 < k by omega)
        omega
      have heq := Option.some.inj h
      split at heq
      · next hswap =>
          obtain ⟨rfl, rfl⟩ := Prod.mk.inj heq
          have hle : (what / s.g).toNat < s.g.toNat := BitVec.lt_def.mp hswap
          rw [hquotient] at hle ⊢
          exact ⟨hk1, hle.le, hlt', by rw [hk, Nat.mul_comm]⟩
      · next hswap =>
          obtain ⟨rfl, rfl⟩ := Prod.mk.inj heq
          have hle : s.g.toNat ≤ (what / s.g).toNat :=
            not_lt.mp fun hlt => hswap (BitVec.lt_def.mpr hlt)
          rw [hquotient] at hle ⊢
          exact ⟨hgt', hle, hkwhat, hk.symm⟩
  · exact ensures_pure fun p q h => by cases h

/-- For 0 and 1 the first round divides by 0. -/
theorem MTFactorize_divisionByZero (hwhat : what.toNat ≤ 1) :
    MTFactorize undefinedShift lrand48 1 what = .error .divisionByZero := by
  have hfirst : (0 : ℕ) < 3 ∨ (0 : BitVec 32).slt 1000 := .inl (by omega)
  by_cases hzero : what = 0
  · simp only [MTFactorize, factorLoop, loop, if_pos hfirst, remainder, if_pos hzero]
    rfl
  · have hone : what - 1 = 0 := by bv_omega
    simp only [MTFactorize, factorLoop, loop, if_pos hfirst, remainder, if_neg hzero, if_pos hone]
    rfl

end Factor

/-! ### Which numbers are split safely -/

/-- **Which numbers are split safely and right**: all but 0 and 1, for which the first round divides
by 0. -/
theorem factorizesSafely_iff (undefinedShift : ℕ → BitVec 32) (lrand48 : ℕ → BitVec 31)
    (pq : List UInt8) :
    FactorizesSafely undefinedShift lrand48 (pqOfBytes pq) ↔ 1 < (pqOfBytes pq).toNat := by
  generalize pqOfBytes pq = what
  constructor
  · intro hsafe
    by_contra hle
    exact hsafe.defined 1 (MTFactorize_divisionByZero undefinedShift lrand48 (not_lt.mp hle))
  · intro hwhat
    refine ⟨fun rounds herror => ?_, fun rounds hrounds z => ?_, fun rounds p q hpq => ?_⟩
    · have hsafe := ensures_MTFactorize (E := (· ≠ Halt.divisionByZero)) undefinedShift lrand48
        rounds (by decide) hwhat
      exact hsafe.of_error herror rfl
    · obtain ⟨g, hg, -⟩ := (ensures_mygcd (a := z) (b := what) (.inr hrounds)).exists_ok
      exact ⟨g, hg⟩
    · have hsafe := ensures_MTFactorize (E := fun _ => True) undefinedShift lrand48 rounds trivial
        hwhat
      exact hsafe.of_ok hpq p q rfl

/-- The server may send a `pq` of a single zero byte. -/
theorem not_factorizesSafely_zero :
    ¬ FactorizesSafely (fun _ => 0) (fun _ => 0) (pqOfBytes [0]) := fun hsafe =>
  hsafe.defined 1 (MTFactorize_divisionByZero _ _ (by decide))

end Telegraph.MtProto
