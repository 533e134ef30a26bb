import Mathlib.Data.Nat.Notation

/-!
# Chained Block Ciphers

Two modes in which a cipher on blocks is applied to a list of blocks. In cipher block chaining each
block is combined with the encrypted one before it. In the infinite garble extension it is combined
with the encrypted one before it, and its encryption with the plain one before it. The second mode
can be had from the first: each block is first combined with the plain one two places before it,
and each result with the plain one before it.

## Main results

* `igeEncrypt_append`, `igeDecrypt_append`: lists of blocks in two pieces.
* `igeDecrypt_igeEncrypt`: the second mode is undone from front to back.
* `chainOut_cbcEncrypt`: **the second mode from the first**.
-/

namespace BlockChaining

variable {w : ℕ} (encrypt decrypt : BitVec w → BitVec w)

/-- Cipher block chaining. -/
def cbcEncrypt : BitVec w → List (BitVec w) → List (BitVec w)
  | _, [] => []
  | iv, inp :: rest => encrypt (inp ^^^ iv) :: cbcEncrypt (encrypt (inp ^^^ iv)) rest

/-- Infinite garble extension, after a last encrypted and a last plain block. -/
def igeEncrypt : BitVec w → BitVec w → List (BitVec w) → List (BitVec w)
  | _, _, [] => []
  | lastOut, lastIn, inp :: rest =>
      (encrypt (inp ^^^ lastOut) ^^^ lastIn) ::
        igeEncrypt (encrypt (inp ^^^ lastOut) ^^^ lastIn) inp rest

/-- The reverse of `igeEncrypt`, after a last encrypted and a last plain block. -/
def igeDecrypt : BitVec w → BitVec w → List (BitVec w) → List (BitVec w)
  | _, _, [] => []
  | ivp, iv2p, inp :: rest =>
      (decrypt (inp ^^^ iv2p) ^^^ ivp) :: igeDecrypt inp (decrypt (inp ^^^ iv2p) ^^^ ivp) rest

/-- Each block is combined with the one two places before it. -/
def chainIn : BitVec w → BitVec w → List (BitVec w) → List (BitVec w)
  | _, _, [] => []
  | iv3p, before, inp :: rest => (inp ^^^ iv3p) :: chainIn before inp rest

/-- Each result is combined with the plain block before it. -/
def chainOut : BitVec w → List (BitVec w) → List (BitVec w) → List (BitVec w)
  | iv2p, inp :: rest, outp :: out => (outp ^^^ iv2p) :: chainOut inp rest out
  | _, _, _ => []

variable {encrypt decrypt}

/-- Combining twice with the same block. -/
theorem xor_xor_self (a b : BitVec w) : a ^^^ b ^^^ b = a := by
  rw [BitVec.xor_assoc, BitVec.xor_self, BitVec.xor_zero]

/-- A chain is as long as the list. -/
@[simp] theorem length_igeEncrypt (lastOut lastIn : BitVec w) (blocks : List (BitVec w)) :
    (igeEncrypt encrypt lastOut lastIn blocks).length = blocks.length := by
  induction blocks generalizing lastOut lastIn with
  | nil => rfl
  | cons inp rest ih => rw [igeEncrypt, List.length_cons, ih, List.length_cons]

@[simp] theorem length_igeDecrypt (ivp iv2p : BitVec w) (blocks : List (BitVec w)) :
    (igeDecrypt decrypt ivp iv2p blocks).length = blocks.length := by
  induction blocks generalizing ivp iv2p with
  | nil => rfl
  | cons inp rest ih => rw [igeDecrypt, List.length_cons, ih, List.length_cons]

/-- What stands behind a list of blocks is chained to the last encrypted and the last plain one. -/
theorem igeEncrypt_append (lastOut lastIn : BitVec w) (blocks more : List (BitVec w)) :
    igeEncrypt encrypt lastOut lastIn (blocks ++ more) =
      igeEncrypt encrypt lastOut lastIn blocks ++
        igeEncrypt encrypt ((igeEncrypt encrypt lastOut lastIn blocks).getLastD lastOut)
          (blocks.getLastD lastIn) more := by
  induction blocks generalizing lastOut lastIn with
  | nil => rfl
  | cons inp rest ih =>
      rw [List.cons_append, igeEncrypt, ih, igeEncrypt, List.getLastD_cons, List.getLastD_cons,
        List.cons_append]

/-- The same for the reverse. -/
theorem igeDecrypt_append (ivp iv2p : BitVec w) (blocks more : List (BitVec w)) :
    igeDecrypt decrypt ivp iv2p (blocks ++ more) =
      igeDecrypt decrypt ivp iv2p blocks ++
        igeDecrypt decrypt (blocks.getLastD ivp)
          ((igeDecrypt decrypt ivp iv2p blocks).getLastD iv2p) more := by
  induction blocks generalizing ivp iv2p with
  | nil => rfl
  | cons inp rest ih =>
      rw [List.cons_append, igeDecrypt, ih, igeDecrypt, List.getLastD_cons, List.getLastD_cons,
        List.cons_append]

/-- **A list of blocks is got back**, if its blocks are. -/
theorem igeDecrypt_igeEncrypt (hcipher : ∀ block, decrypt (encrypt block) = block)
    (lastOut lastIn : BitVec w) (blocks : List (BitVec w)) :
    igeDecrypt decrypt lastOut lastIn (igeEncrypt encrypt lastOut lastIn blocks) = blocks := by
  induction blocks generalizing lastOut lastIn with
  | nil => rfl
  | cons inp rest ih =>
      rw [igeEncrypt, igeDecrypt, xor_xor_self, hcipher, xor_xor_self, ih]

/-- Behind the first block, the second mode is had from the first: `before` is the plain block
before, `iv3p` the one before that, and `last` what the first mode has made of it. -/
theorem chainOut_cbcEncrypt_rest (last before iv3p : BitVec w) (rest : List (BitVec w)) :
    chainOut before rest (cbcEncrypt encrypt last (chainIn iv3p before rest)) =
      igeEncrypt encrypt (last ^^^ iv3p) before rest := by
  induction rest generalizing last before iv3p with
  | nil => rfl
  | cons inp rest ih =>
      rw [chainIn, cbcEncrypt, chainOut, igeEncrypt, ih, BitVec.xor_assoc,
        BitVec.xor_comm iv3p last]

/-- **The second mode from the first.** -/
theorem chainOut_cbcEncrypt (aesIv ccIv first : BitVec w) (rest : List (BitVec w)) :
    chainOut ccIv (first :: rest)
        (cbcEncrypt encrypt aesIv (first :: chainIn ccIv first rest)) =
      igeEncrypt encrypt aesIv ccIv (first :: rest) := by
  rw [cbcEncrypt, chainOut, igeEncrypt, chainOut_cbcEncrypt_rest]

end BlockChaining
