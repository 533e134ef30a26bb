import Telegraph.Lib.Memory
import Telegraph.MtProto.PrimeChecks

/-!
# The Shape of an Auth Key

The auth key is `g_a ^ b` modulo the prime of the handshake, taken as a byte string out of the
big-number library, which writes no leading zeros. The keys of the messages are hashed from pieces
of the auth key at fixed offsets, and its id from the whole; both sides have to mean 256 bytes. The
secret chats put the zeros back in front of their keys, the handshake does not.

## Main results

* `length_MTExp_le`: a power has at most as many bytes as the modulus.
* `messageEncryptionKey_inside`, `messageEncryptionKeyV2_inside`: how long a key has to be for the
  pieces to lie inside.
* `authKeyShape_iff`: **which auth keys have 256 bytes.**
-/

open Bytes

namespace Telegraph.MtProto

/-! ### Powers -/

/-- `BN_bn2bin`: the bytes of a number, most significant first, without leading zeros. -/
def bn2bin (n : ℕ) : List UInt8 := toBE (numBytes n) n

/-- `MTExp`. -/
def MTExp (base exp modulus : List UInt8) : List UInt8 :=
  bn2bin (beNat base ^ beNat exp % beNat modulus)

@[simp] theorem length_bn2bin (n : ℕ) : (bn2bin n).length = numBytes n := length_toBE _ _

theorem beNat_bn2bin (n : ℕ) : beNat (bn2bin n) = n := by
  rw [bn2bin, beNat_toBE, Nat.mod_eq_of_lt (numBytes_le.mp le_rfl)]

/-- A power has at most as many bytes as the modulus, unless this is 0. -/
theorem length_MTExp_le (base exp : List UInt8) {modulus : List UInt8} (h : 0 < beNat modulus) :
    (MTExp base exp modulus).length ≤ modulus.length := by
  rw [MTExp, length_bn2bin, numBytes_le]
  exact (Nat.mod_lt _ h).trans (beNat_lt modulus)

/-! ### The keys of the messages -/

/-- `MTMessageEncryptionKey`. -/
structure MTMessageEncryptionKey where
  key : List UInt8
  iv : List UInt8

/-- `messageEncryptionKeyForAuthKey:messageKey:toClient:`. The outer `none` is a read outside of the
auth key. -/
def messageEncryptionKeyForAuthKey (sha1 : List UInt8 → List UInt8)
    (authKey messageKey : List UInt8) (toClient : Bool) : Option (Option MTMessageEncryptionKey) :=
  if authKey.length = 0 ∨ messageKey.length = 0 then some none
  else do
    let x := if toClient then 8 else 0
    let sha1_a := sha1 (messageKey ++ (← Memory.readBytes authKey x 32))
    let sha1_b := sha1 ((← Memory.readBytes authKey (32 + x) 16) ++ messageKey ++
      (← Memory.readBytes authKey (48 + x) 16))
    let sha1_c := sha1 ((← Memory.readBytes authKey (64 + x) 32) ++ messageKey)
    let sha1_d := sha1 (messageKey ++ (← Memory.readBytes authKey (96 + x) 32))
    let aesKey := sha1_a.take 8 ++ (sha1_b.drop 8).take 12 ++ (sha1_c.drop 4).take 12
    let aesIv := (sha1_a.drop 8).take 12 ++ sha1_b.take 8 ++ (sha1_c.drop 16).take 4 ++
      sha1_d.take 8
    pure (some ⟨aesKey, aesIv⟩)

/-- `messageEncryptionKeyV2ForAuthKey:messageKey:toClient:`. -/
def messageEncryptionKeyV2ForAuthKey (sha256 : List UInt8 → List UInt8)
    (authKey messageKey : List UInt8) (toClient : Bool) : Option (Option MTMessageEncryptionKey) :=
  if authKey.length = 0 ∨ messageKey.length = 0 then some none
  else do
    let xValue := if toClient then 8 else 0
    let sha256_a := sha256 (messageKey ++ (← Memory.readBytes authKey xValue 36))
    let sha256_b := sha256 ((← Memory.readBytes authKey (40 + xValue) 36) ++ messageKey)
    let aesKey := sha256_a.take 8 ++ (sha256_b.drop 8).take 16 ++ (sha256_a.drop 24).take 8
    let aesIv := sha256_b.take 8 ++ (sha256_a.drop 8).take 16 ++ (sha256_b.drop 24).take 8
    pure (some ⟨aesKey, aesIv⟩)

section Inside

variable {authKey : List UInt8} (sha : List UInt8 → List UInt8) (messageKey : List UInt8)
  (toClient : Bool)

/-- The pieces of the first version end at byte 136. -/
theorem messageEncryptionKey_inside (h : 136 ≤ authKey.length) :
    (messageEncryptionKeyForAuthKey sha authKey messageKey toClient).isSome := by
  have hread : ∀ p n, p + n ≤ 136 →
      Memory.readBytes authKey p n = some ((authKey.drop p).take n) :=
    fun p n hp => Memory.readBytes_of_le (by omega)
  rw [messageEncryptionKeyForAuthKey]
  split
  · rfl
  · cases toClient <;> simp [hread]

/-- The pieces of the second version end at byte 84. -/
theorem messageEncryptionKeyV2_inside (h : 84 ≤ authKey.length) :
    (messageEncryptionKeyV2ForAuthKey sha authKey messageKey toClient).isSome := by
  have hread : ∀ p n, p + n ≤ 84 →
      Memory.readBytes authKey p n = some ((authKey.drop p).take n) :=
    fun p n hp => Memory.readBytes_of_le (by omega)
  rw [messageEncryptionKeyV2ForAuthKey]
  split
  · rfl
  · cases toClient <;> simp [hread]

end Inside

/-! ### The handshake -/

/-- A handshake with the functions of the big-number library. The check of the generator keeps its
result under a key that the check of the prime does not look at. -/
def AuthConfig.withBigNumbers (cfg : AuthConfig) (isPrimeEx : ℕ → Bool) (keychain : PrimesGroup) :
    AuthConfig where
  crypto :=
    { cfg.crypto with
      exp := MTExp
      checkIsSafeGAOrB := MtProto.checkIsSafeGAOrB
      checkMod := fun p g => (MtProto.checkMod p (BitVec.ofNat 32 g) keychain).1
      checkIsSafePrime := fun p => (MtProto.checkIsSafePrime isPrimeEx p keychain).1 }
  cdn := cfg.cdn
  defaultPublicKeys := cfg.defaultPublicKeys

/-- The check of the prime comes behind that of the generator, and finds the same. -/
theorem checkIsSafePrime_checkMod (isPrimeEx : ℕ → Bool) (p : List UInt8) (g : BitVec 32)
    (keychain : PrimesGroup) :
    (checkIsSafePrime isPrimeEx p (checkMod p g keychain).2).1 =
      (checkIsSafePrime isPrimeEx p keychain).1 := by
  have hlookup : (checkMod p g keychain).2.objectForKey (primeKey p) =
      keychain.objectForKey (primeKey p) := by
    rw [checkMod]
    split
    · rfl
    · exact Function.update_of_ne (primeKey_ne_modKey p p g).symm
        (some (modResult (beNat p) g.toNat)) keychain.objectForKey
  rw [checkIsSafePrime, checkIsSafePrime, hlookup]
  cases keychain.objectForKey (primeKey p) with
  | some cachedResult => rfl
  | none =>
      by_cases hlength : p.length ≠ 256
      · simp only [dif_pos hlength]
      · by_cases htop : p.headD 0 &&& 0x80 = 0
        · simp only [dif_neg hlength, dif_pos htop]
        · by_cases hgood : p = goodPrime0
          · simp only [dif_neg hlength, dif_neg htop, if_pos hgood]
          · simp only [dif_neg hlength, dif_neg htop, if_neg hgood]

/-- A number with the top bit of its first byte is not 0. -/
theorem Has2048Bits.beNat_pos {numberBytes : List UInt8} (h : Has2048Bits numberBytes) :
    0 < beNat numberBytes := by
  obtain ⟨hlength, htop⟩ := h
  cases numberBytes with
  | nil => cases hlength
  | cons b bs =>
      have hb : b.toNat ≠ 0 := by
        intro hzero
        have hbyte : b = 0 := UInt8.toNat_inj.mp hzero
        exact htop (by rw [List.headD_cons, hbyte]; rfl)
      exact Nat.add_pos_left (Nat.mul_pos (Nat.pos_of_ne_zero hb) (by positivity)) _

/-- What the key of a handshake should be: 256 bytes with the value of the power, long enough for
the pieces that the keys of the messages are made from. -/
structure AuthKeyShape (gA b dhPrime authKey : List UInt8) : Prop where
  length : authKey.length = 256
  value : beNat authKey = beNat gA ^ beNat b % beNat dhPrime
  inside : ∀ sha1 messageKey toClient,
    (messageEncryptionKeyForAuthKey sha1 authKey messageKey toClient).isSome
  insideV2 : ∀ sha256 messageKey toClient,
    (messageEncryptionKeyV2ForAuthKey sha256 authKey messageKey toClient).isSome

/-- A power modulo a number of 2048 bits has the shape exactly if it needs all of the 256 bytes. -/
theorem MTExp_authKeyShape_iff (gA b : List UInt8) {dhPrime : List UInt8}
    (h : Has2048Bits dhPrime) :
    AuthKeyShape gA b dhPrime (MTExp gA b dhPrime) ↔
      256 ^ 255 ≤ beNat gA ^ beNat b % beNat dhPrime := by
  have hle := length_MTExp_le gA b h.beNat_pos
  rw [h.length, MTExp, length_bn2bin] at hle
  constructor
  · intro hshape
    by_contra hsmall
    have hfew := numBytes_le.mpr (not_le.mp hsmall)
    have hlength := hshape.length
    rw [MTExp, length_bn2bin] at hlength
    omega
  · intro hlarge
    have hmany : ¬ numBytes (beNat gA ^ beNat b % beNat dhPrime) ≤ 255 :=
      fun hfew => absurd (numBytes_le.mp hfew) (not_lt.mpr hlarge)
    have hlength : (MTExp gA b dhPrime).length = 256 := by
      rw [MTExp, length_bn2bin]
      omega
    exact ⟨hlength, beNat_bn2bin _,
      fun sha1 messageKey toClient => messageEncryptionKey_inside sha1 messageKey toClient
        (by omega),
      fun sha256 messageKey toClient => messageEncryptionKeyV2_inside sha256 messageKey toClient
        (by omega)⟩

theorem authKey_withBigNumbers (cfg : AuthConfig) (isPrimeEx : ℕ → Bool) (keychain : PrimesGroup)
    (h : Handshake) (inner : ServerDhInnerData) (b : List UInt8) :
    (authInfoOf (cfg.withBigNumbers isPrimeEx keychain) h inner b).authKey =
      MTExp inner.gA b inner.dhPrime := rfl

/-- **Which auth keys have their shape**: those of powers that need all of the 256 bytes. -/
theorem authKeyShape_iff (cfg : AuthConfig) (isPrimeEx : ℕ → Bool) (keychain : PrimesGroup)
    (h : Handshake) (inner : ServerDhInnerData) (b : List UInt8)
    (hchecked : inner.Checked (cfg.withBigNumbers isPrimeEx keychain) h) :
    AuthKeyShape inner.gA b inner.dhPrime
        (authInfoOf (cfg.withBigNumbers isPrimeEx keychain) h inner b).authKey ↔
      256 ^ 255 ≤ beNat inner.gA ^ beNat b % beNat inner.dhPrime := by
  rw [authKey_withBigNumbers]
  exact MTExp_authKeyShape_iff inner.gA b (checkIsSafePrime_has2048Bits hchecked.safePrime)

/-- So it is with every key that an answer of the server puts into the service. -/
theorem accepted_authKeyShape_iff {cfg : AuthConfig} {isPrimeEx : ℕ → Bool}
    {keychain : PrimesGroup} {s : AuthService} {ev : AuthEvent} {h : Handshake} {info : AuthInfo}
    (haccepts : Accepts (cfg.withBigNumbers isPrimeEx keychain) s ev h info) :
    ∃ (inner : ServerDhInnerData) (b : List UInt8),
      inner.Checked (cfg.withBigNumbers isPrimeEx keychain) h ∧
      (AuthKeyShape inner.gA b inner.dhPrime info.authKey ↔
        256 ^ 255 ≤ beNat inner.gA ^ beNat b % beNat inner.dhPrime) := by
  obtain ⟨_, inner, random, _, -, -, hchecked, rfl⟩ := haccepts.answer
  exact ⟨inner, random.b, hchecked,
    MTExp_authKeyShape_iff inner.gA random.b (checkIsSafePrime_has2048Bits hchecked.safePrime)⟩

/-! ### One handshake -/

/-- A handshake whose ciphers do nothing. -/
def plainConfig : AuthConfig where
  crypto :=
    ⟨fun _ => List.replicate 20 0, fun x _ _ => x, fun x _ _ => x, fun _ x => x, fun _ => none,
      fun x _ _ => x, fun _ _ => true, fun _ _ => true, fun _ => true⟩
  cdn := false
  defaultPublicKeys := []

/-- An answer with 4 as the generator and `g_a = 2`. -/
def smallAnswer (dhPrime : List UInt8) : ServerDhInnerData where
  nonce := []
  serverNonce := []
  g := 4
  dhPrime := dhPrime
  gA := [2]
  serverTime := 0

/-- An exponent below `256 ^ 2` in 256 bytes. -/
def smallExponent (high low : UInt8) : List UInt8 := List.replicate 254 0 ++ [high, low]

theorem three_lt_goodPrime0 : 3 < beNat goodPrime0 := by decide +kernel

theorem goodPrime0_has2048Bits : Has2048Bits goodPrime0 := ⟨by decide +kernel, by decide⟩

/-- With the prime that the client knows the answer passes the checks. -/
theorem smallAnswer_checked (cfg : AuthConfig) (isPrimeEx : ℕ → Bool) {p : List UInt8}
    (hgood : p = goodPrime0) (hp : Has2048Bits p) (hlt : 3 < beNat p) :
    (smallAnswer p).Checked (cfg.withBigNumbers isPrimeEx PrimesGroup.empty) ⟨[], [], []⟩ where
  nonce := rfl
  serverNonce := rfl
  safeG := ⟨(by decide : (0 : ℤ) ≤ (4 : BitVec 32).toInt), rfl⟩
  safeGA := by
    have hone : 1 < beNat [2] := by decide
    have htwo : (beNat [2] : ℤ) < beNat p - 1 := by
      rw [show beNat [2] = 2 from rfl]
      omega
    exact Bool.and_eq_true_iff.mpr ⟨decide_eq_true hone, decide_eq_true htwo⟩
  mod := rfl
  safePrime := by
    show (checkIsSafePrime isPrimeEx p PrimesGroup.empty).1 = true
    rw [checkIsSafePrime, PrimesGroup.empty]
    simp only [dif_neg (not_not.mpr hp.length), dif_neg hp.topBit, if_pos hgood]

/-- The power `2 ^ 2046` needs all of the 256 bytes. -/
theorem authKeyShape_largePower :
    AuthKeyShape [2] (smallExponent 7 254) goodPrime0
      (authInfoOf (plainConfig.withBigNumbers (fun _ => true) PrimesGroup.empty) ⟨[], [], []⟩
        (smallAnswer goodPrime0) (smallExponent 7 254)).authKey :=
  (authKeyShape_iff plainConfig (fun _ => true) PrimesGroup.empty ⟨[], [], []⟩
    (smallAnswer goodPrime0) (smallExponent 7 254)
    (smallAnswer_checked plainConfig _ rfl goodPrime0_has2048Bits three_lt_goodPrime0)).mpr
    (by decide +kernel)

/-- The answer passes the checks, and with the exponent 1 the auth key is a single byte. -/
theorem not_authKeyShape_smallPower :
    (smallAnswer goodPrime0).Checked
        (plainConfig.withBigNumbers (fun _ => true) PrimesGroup.empty) ⟨[], [], []⟩ ∧
      (smallExponent 0 1).length = 256 ∧
      ¬ AuthKeyShape [2] (smallExponent 0 1) goodPrime0
        (authInfoOf (plainConfig.withBigNumbers (fun _ => true) PrimesGroup.empty) ⟨[], [], []⟩
          (smallAnswer goodPrime0) (smallExponent 0 1)).authKey := by
  refine ⟨smallAnswer_checked plainConfig _ rfl goodPrime0_has2048Bits three_lt_goodPrime0,
    by decide +kernel, fun hshape => ?_⟩
  have hpower : numBytes (beNat [2] ^ beNat (smallExponent 0 1) % beNat goodPrime0) ≤ 1 :=
    numBytes_le.mpr (by decide +kernel)
  have hgA : (smallAnswer goodPrime0).gA = [2] := rfl
  have hdhPrime : (smallAnswer goodPrime0).dhPrime = goodPrime0 := rfl
  have hlength := hshape.length
  rw [authKey_withBigNumbers, hgA, hdhPrime, MTExp, length_bn2bin] at hlength
  omega

end Telegraph.MtProto
