import Mathlib.Tactic.NormNum.Prime
import Telegraph.Lib.SafePrimes
import Telegraph.MtProto.DatacenterAuth

/-!
# The Checks of a Prime and its Generator

Whatever group a server proposes for a Diffie-Hellman exchange, the client checks that the modulus
is a safe prime of 2048 bits, that the generator is one of 2 to 7, and, by a table of residues of
the prime, that it generates the subgroup of order `(p - 1) / 2`. The results are kept in the group
`primes` of a keychain, the first under a key of the number, the second under a key of both.

The primality test of the big-number library is a parameter.

## Main results

* `primeKey_injective`, `primeKey_ne_modKey`: no check finds the result of another.
* `PrimesGroup`: **a number that is kept as a safe prime has 2048 bits.**
* `checkMod_iff`: **the table tells the quadratic residues, which generate the subgroup.**
-/

open Bytes

namespace Telegraph.MtProto

/-! ### The results that are kept -/

/-- `%02x`. -/
def hexDigits (byte : UInt8) : List Char :=
  [Nat.digitChar (byte.toNat / 16), Nat.digitChar (byte.toNat % 16)]

/-- `hexStringFromData`. -/
def hexStringFromData (data : List UInt8) : String :=
  String.ofList (data.flatMap hexDigits)

/-- `primeKey`. -/
def primeKey (numberBytes : List UInt8) : String :=
  "isPrimeSafe_" ++ hexStringFromData numberBytes

/-- `modKey`, where `g` is printed as an `int`. -/
def modKey (numberBytes : List UInt8) (g : BitVec 32) : String :=
  "isPrimeModSafe_" ++ hexStringFromData numberBytes ++ "_" ++ toString g.toInt

/-- Both digits together tell the byte. -/
theorem hexDigits_injective {b c : UInt8} (h : hexDigits b = hexDigits c) : b = c := by
  have hdigit : ∀ m < 16, ∀ n < 16, Nat.digitChar m = Nat.digitChar n → m = n := by decide
  have hb := b.toNat_lt
  have hc := c.toNat_lt
  rw [hexDigits, hexDigits, List.cons.injEq, List.cons.injEq] at h
  have hhigh := hdigit _ (by omega) _ (by omega) h.1
  have hlow := hdigit _ (by omega) _ (by omega) h.2.1
  apply UInt8.toNat_inj.mp
  omega

/-- Every byte has two digits, so the string tells the bytes. -/
theorem hexStringFromData_injective {data other : List UInt8}
    (h : hexStringFromData data = hexStringFromData other) : data = other := by
  have hdigits := congrArg String.toList h
  rw [hexStringFromData, hexStringFromData, String.toList_ofList, String.toList_ofList] at hdigits
  clear h
  induction data generalizing other with
  | nil =>
      cases other with
      | nil => rfl
      | cons c cs => cases hdigits
  | cons b bs ih =>
      cases other with
      | nil => cases hdigits
      | cons c cs =>
          rw [List.flatMap_cons, List.flatMap_cons] at hdigits
          obtain ⟨hhead, htail⟩ := List.append_inj hdigits rfl
          rw [hexDigits_injective hhead, ih htail]

theorem primeKey_injective {numberBytes other : List UInt8}
    (h : primeKey numberBytes = primeKey other) : numberBytes = other := by
  have htail := congrArg String.toList h
  rw [primeKey, primeKey, String.toList_append, String.toList_append] at htail
  exact hexStringFromData_injective (String.toList_inj.mp (List.append_cancel_left htail))

/-- The keys of the two checks differ in their eighth character. -/
theorem primeKey_ne_modKey (numberBytes other : List UInt8) (g : BitVec 32) :
    modKey numberBytes g ≠ primeKey other := by
  intro h
  have hprime : (primeKey other).toList.take 8 = "isPrimeS".toList := by
    rw [primeKey, String.toList_append, List.take_append_of_le_length (by decide)]
    rfl
  have hmod : (modKey numberBytes g).toList.take 8 = "isPrimeM".toList := by
    unfold modKey
    simp only [String.toList_append, List.append_assoc]
    rw [List.take_append_of_le_length (by decide)]
    rfl
  rw [h, hprime] at hmod
  exact absurd hmod (by decide)

/-- A number of 256 bytes, the first one with its top bit. -/
structure Has2048Bits (numberBytes : List UInt8) : Prop where
  length : numberBytes.length = 256
  topBit : numberBytes.headD 0 &&& 0x80 ≠ 0

/-- The group `primes` of a keychain. Only numbers of 2048 bits are kept as safe primes. -/
structure PrimesGroup where
  objectForKey : String → Option Bool
  has2048Bits : ∀ numberBytes, objectForKey (primeKey numberBytes) = some true →
    Has2048Bits numberBytes

namespace PrimesGroup

/-- A keychain where nothing is kept yet. -/
def empty : PrimesGroup := ⟨fun _ => none, fun _ h => absurd h (by simp)⟩

/-- `setObject:forKey:` for a `primeKey`. -/
def setSafePrime (keychain : PrimesGroup) (numberBytes : List UInt8) (result : Bool)
    (h : Has2048Bits numberBytes) : PrimesGroup where
  objectForKey := Function.update keychain.objectForKey (primeKey numberBytes) (some result)
  has2048Bits other hother := by
    by_cases hkey : primeKey other = primeKey numberBytes
    · rwa [primeKey_injective hkey]
    · rw [Function.update_of_ne hkey] at hother
      exact keychain.has2048Bits other hother

/-- `setObject:forKey:` for a `modKey`. -/
def setMod (keychain : PrimesGroup) (numberBytes : List UInt8) (g : BitVec 32) (result : Bool) :
    PrimesGroup where
  objectForKey := Function.update keychain.objectForKey (modKey numberBytes g) (some result)
  has2048Bits other hother := by
    rw [Function.update_of_ne (primeKey_ne_modKey numberBytes other g).symm] at hother
    exact keychain.has2048Bits other hother

end PrimesGroup

/-! ### The checks -/

/-- `goodPrime0`. -/
def goodPrime0 : List UInt8 :=
  [0xc7, 0x1c, 0xae, 0xb9, 0xc6, 0xb1, 0xc9, 0x04, 0x8e, 0x6c, 0x52, 0x2f, 0x70, 0xf1,
    0x3f, 0x73, 0x98, 0x0d, 0x40, 0x23, 0x8e, 0x3e, 0x21, 0xc1, 0x49, 0x34, 0xd0, 0x37,
    0x56, 0x3d, 0x93, 0x0f, 0x48, 0x19, 0x8a, 0x0a, 0xa7, 0xc1, 0x40, 0x58, 0x22, 0x94,
    0x93, 0xd2, 0x25, 0x30, 0xf4, 0xdb, 0xfa, 0x33, 0x6f, 0x6e, 0x0a, 0xc9, 0x25, 0x13,
    0x95, 0x43, 0xae, 0xd4, 0x4c, 0xce, 0x7c, 0x37, 0x20, 0xfd, 0x51, 0xf6, 0x94, 0x58,
    0x70, 0x5a, 0xc6, 0x8c, 0xd4, 0xfe, 0x6b, 0x6b, 0x13, 0xab, 0xdc, 0x97, 0x46, 0x51,
    0x29, 0x69, 0x32, 0x84, 0x54, 0xf1, 0x8f, 0xaf, 0x8c, 0x59, 0x5f, 0x64, 0x24, 0x77,
    0xfe, 0x96, 0xbb, 0x2a, 0x94, 0x1d, 0x5b, 0xcd, 0x1d, 0x4a, 0xc8, 0xcc, 0x49, 0x88,
    0x07, 0x08, 0xfa, 0x9b, 0x37, 0x8e, 0x3c, 0x4f, 0x3a, 0x90, 0x60, 0xbe, 0xe6, 0x7c,
    0xf9, 0xa4, 0xa4, 0xa6, 0x95, 0x81, 0x10, 0x51, 0x90, 0x7e, 0x16, 0x27, 0x53, 0xb5,
    0x6b, 0x0f, 0x6b, 0x41, 0x0d, 0xba, 0x74, 0xd8, 0xa8, 0x4b, 0x2a, 0x14, 0xb3, 0x14,
    0x4e, 0x0e, 0xf1, 0x28, 0x47, 0x54, 0xfd, 0x17, 0xed, 0x95, 0x0d, 0x59, 0x65, 0xb4,
    0xb9, 0xdd, 0x46, 0x58, 0x2d, 0xb1, 0x17, 0x8d, 0x16, 0x9c, 0x6b, 0xc4, 0x65, 0xb0,
    0xd6, 0xff, 0x9c, 0xa3, 0x92, 0x8f, 0xef, 0x5b, 0x9a, 0xe4, 0xe4, 0x18, 0xfc, 0x15,
    0xe8, 0x3e, 0xbe, 0xa0, 0xf8, 0x7f, 0xa9, 0xff, 0x5e, 0xed, 0x70, 0x05, 0x0d, 0xed,
    0x28, 0x49, 0xf4, 0x7b, 0xf9, 0x59, 0xd9, 0x56, 0x85, 0x0c, 0xe9, 0x29, 0x85, 0x1f,
    0x0d, 0x81, 0x15, 0xf6, 0x35, 0xb1, 0x05, 0xee, 0x2e, 0x4e, 0x15, 0xd0, 0x4b, 0x24,
    0x54, 0xbf, 0x6f, 0x4f, 0xad, 0xf0, 0x34, 0xb1, 0x04, 0x03, 0x11, 0x9c, 0xd8, 0xe3,
    0xb9, 0x2f, 0xcc, 0x5b]

/-- `MTCheckIsSafePrime`, with the test `BN_is_prime_ex`. A number of another shape is noted in the
user defaults, which nothing reads. -/
def checkIsSafePrime (isPrimeEx : ℕ → Bool) (numberBytes : List UInt8) (keychain : PrimesGroup) :
    Bool × PrimesGroup :=
  match keychain.objectForKey (primeKey numberBytes) with
  | some cachedResult => (cachedResult, keychain)
  | none =>
      if hlength : numberBytes.length ≠ 256 then (false, keychain)
      else if htop : numberBytes.headD 0 &&& 0x80 = 0 then (false, keychain)
      else if numberBytes = goodPrime0 then (true, keychain)
      else
        let bnNumber := beNat numberBytes
        let result := isPrimeEx bnNumber && isPrimeEx ((bnNumber - 1) / 2)
        (result, keychain.setSafePrime numberBytes result ⟨not_not.mp hlength, htop⟩)

/-- `MTCheckIsSafeGAOrB`. -/
def checkIsSafeGAOrB (gAOrB p : List UInt8) : Bool :=
  1 < beNat gAOrB && (beNat gAOrB : ℤ) < beNat p - 1

/-- The `switch` of `MTCheckMod`. -/
def modResult (bnNumber g : ℕ) : Bool :=
  match g with
  | 2 => bnNumber % 8 = 7
  | 3 => bnNumber % 3 = 2
  | 4 => true
  | 5 => bnNumber % 5 = 1 || bnNumber % 5 = 4
  | 6 => bnNumber % 24 = 19 || bnNumber % 24 = 23
  | 7 => bnNumber % 7 = 3 || bnNumber % 7 = 5 || bnNumber % 7 = 6
  | _ => false

/-- `MTCheckMod`. -/
def checkMod (numberBytes : List UInt8) (g : BitVec 32) (keychain : PrimesGroup) :
    Bool × PrimesGroup :=
  match keychain.objectForKey (modKey numberBytes g) with
  | some cachedResult => (cachedResult, keychain)
  | none =>
      let result := modResult (beNat numberBytes) g.toNat
      (result, keychain.setMod numberBytes g result)

/-- What passes for a safe prime has 2048 bits. -/
theorem checkIsSafePrime_has2048Bits {isPrimeEx : ℕ → Bool} {numberBytes : List UInt8}
    {keychain : PrimesGroup} (h : (checkIsSafePrime isPrimeEx numberBytes keychain).1 = true) :
    Has2048Bits numberBytes := by
  rw [checkIsSafePrime] at h
  split at h
  · next cachedResult hcached =>
      subst h
      exact keychain.has2048Bits numberBytes hcached
  · split at h
    · cases h
    · next hlength =>
        split at h
        · cases h
        · next htop => exact ⟨not_not.mp hlength, htop⟩

/-! ### The table of residues -/

/-- **The table of residues tells which of 2 to 7 are quadratic residues of a safe prime.** -/
theorem modResult_iff {p g : ℕ} (h : SafePrime p) (hg : checkIsSafeG g = true) :
    modResult p g = true ↔ IsSquare (g : ZMod p) := by
  rw [checkIsSafeG, Bool.and_eq_true, decide_eq_true_iff, decide_eq_true_iff] at hg
  obtain ⟨hlow, hhigh⟩ := hg
  have hthree := h.mod_three
  interval_cases g
  · rw [modResult, decide_eq_true_iff, Nat.cast_ofNat, h.isSquare_two_iff]
  · rw [modResult, decide_eq_true_iff, Nat.cast_ofNat]
    exact iff_of_true hthree h.isSquare_three
  · rw [modResult, Nat.cast_ofNat]
    exact iff_of_true rfl (SafePrime.isSquare_four p)
  · rw [modResult, Bool.or_eq_true, decide_eq_true_iff, decide_eq_true_iff, Nat.cast_ofNat,
      h.isSquare_five_iff]
  · rw [modResult, Bool.or_eq_true, decide_eq_true_iff, decide_eq_true_iff, Nat.cast_ofNat,
      h.isSquare_six_iff]
    -- 19 modulo 24 would be 1 modulo 3
    omega
  · rw [modResult, Bool.or_eq_true, Bool.or_eq_true, decide_eq_true_iff, decide_eq_true_iff,
      decide_eq_true_iff, Nat.cast_ofNat, h.isSquare_seven_iff, or_assoc]

/-- **The check of a generator**: the first time that a generator is checked for a safe prime, it
passes exactly if it is a quadratic residue, and the quadratic residues are those that generate the
subgroup of order `(p - 1) / 2`. -/
theorem checkMod_iff {p : ℕ} {numberBytes : List UInt8} {g : BitVec 32} {keychain : PrimesGroup}
    (h : SafePrime p) (hnumber : beNat numberBytes = p) (hg : checkIsSafeG g.toNat = true)
    (hcache : keychain.objectForKey (modKey numberBytes g) = none) :
    ((checkMod numberBytes g keychain).1 = true ↔ IsSquare (g.toNat : ZMod p)) ∧
      (IsSquare (g.toNat : ZMod p) ↔ orderOf (g.toNat : ZMod p) = (p - 1) / 2) := by
  have hbounds := hg
  rw [checkIsSafeG, Bool.and_eq_true, decide_eq_true_iff, decide_eq_true_iff] at hbounds
  have hlt := h.seven_lt
  constructor
  · rw [checkMod, hcache, hnumber]
    exact modResult_iff h hg
  · exact h.isSquare_iff_orderOf (by omega) (by omega)

/-- 2 is a quadratic residue of 23. -/
theorem checkMod_iff_twentyThree :
    ((checkMod [23] 2 PrimesGroup.empty).1 = true ↔ IsSquare ((2 : ℕ) : ZMod 23)) ∧
      (IsSquare ((2 : ℕ) : ZMod 23) ↔ orderOf ((2 : ℕ) : ZMod 23) = 11) :=
  checkMod_iff ⟨by norm_num, by norm_num, by norm_num⟩ rfl rfl rfl

end Telegraph.MtProto
