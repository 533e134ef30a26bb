import Telegraph.Lib.BlockChaining
import Telegraph.Lib.Bytes

/-!
# Encryption of Local Files

AES in the infinite garble extension, as it is built on the block chaining of the system's library,
and the checksum. All take their lengths as `int`s: a length of `2 ^ 31` or more is negative to
them, and they leave their buffers. So does the encryption of less than a block.

## Main results

* `MyAesIgeEncrypt_eq`: the three passes are the infinite garble extension.
* `MTAesDecrypt_encrypt`: **whole blocks are got back**, where the length is an `int`.
* `igeEncryptBytes_append`, `igeDecryptBytes_append`: **a text in pieces, with running initial
  vectors**.
* `MTMurMurHash32_isSome`, `MTMurMurHash32_eq_none`: when the checksum stays in its buffer.
-/

open Bytes BlockChaining

namespace Telegraph.MtProto

/-- A block of AES. -/
abbrev Block := BitVec 128

/-- AES of the system's library on one block, with a key. -/
structure BlockCipher where
  encrypt : List UInt8 → Block → Block
  decrypt : List UInt8 → Block → Block
  decrypt_encrypt : ∀ key block, decrypt key (encrypt key block) = block

/-- A cipher that turns the bits of a block over. -/
def complementCipher : BlockCipher where
  encrypt _ block := ~~~block
  decrypt _ block := ~~~block
  decrypt_encrypt _ _ := BitVec.not_not

/-! ### Blocks -/

/-- The first block of some bytes. -/
def blockAt (bytes : List UInt8) : Block := BitVec.ofNat 128 (leNat (bytes.take 16))

/-- So many blocks of some bytes. -/
def readBlocks : ℕ → List UInt8 → List Block
  | 0, _ => []
  | count + 1, bytes => blockAt bytes :: readBlocks count (bytes.drop 16)

/-- The bytes of blocks. -/
def writeBlocks (blocks : List Block) : List UInt8 :=
  blocks.flatMap fun block => toLE 16 block.toNat

@[simp] theorem length_readBlocks (count : ℕ) (bytes : List UInt8) :
    (readBlocks count bytes).length = count := by
  induction count generalizing bytes with
  | zero => rfl
  | succ count ih => rw [readBlocks, List.length_cons, ih]

@[simp] theorem length_writeBlocks (blocks : List Block) :
    (writeBlocks blocks).length = 16 * blocks.length := by
  induction blocks with
  | nil => rfl
  | cons block blocks ih =>
      rw [writeBlocks, List.flatMap_cons, List.length_append, length_toLE, ← writeBlocks, ih,
        List.length_cons]
      omega

/-- The bytes of blocks give the blocks back. -/
theorem readBlocks_writeBlocks (blocks : List Block) :
    readBlocks blocks.length (writeBlocks blocks) = blocks := by
  induction blocks with
  | nil => rfl
  | cons block blocks ih =>
      have hlt : block.toNat < 256 ^ 16 := block.isLt
      have hlength : (toLE 16 block.toNat).length = 16 := length_toLE 16 _
      rw [writeBlocks, List.flatMap_cons, ← writeBlocks, List.length_cons, readBlocks, blockAt,
        List.take_left' hlength, List.drop_left' hlength, ih, leNat_toLE_of_lt hlt,
        BitVec.ofNat_toNat, BitVec.setWidth_eq]

/-- The blocks of whole blocks give the bytes back. -/
theorem writeBlocks_readBlocks {count : ℕ} {bytes : List UInt8} (h : bytes.length = 16 * count) :
    writeBlocks (readBlocks count bytes) = bytes := by
  induction count generalizing bytes with
  | zero => exact (List.length_eq_zero_iff.mp h).symm
  | succ count ih =>
      have hlength : (bytes.take 16).length = 16 := List.length_take_of_le (by omega)
      have hlt : leNat (bytes.take 16) < 2 ^ 128 := by
        have hbound := leNat_lt (bytes.take 16)
        rwa [hlength] at hbound
      have hblock : toLE 16 (blockAt bytes).toNat = bytes.take 16 := by
        rw [blockAt, BitVec.toNat_ofNat, Nat.mod_eq_of_lt hlt]
        have hback := toLE_leNat (bytes.take 16)
        rwa [hlength] at hback
      rw [readBlocks, writeBlocks, List.flatMap_cons, hblock, ← writeBlocks,
        ih (by rw [List.length_drop]; omega), List.take_append_drop]

/-! ### AES -/

variable (cipher : BlockCipher)

/-- `MyAesIgeEncrypt`: the blocks are chained with plain ones, encrypted by `CCCrypt` and chained
again. The first block is read before the length is looked at. -/
def MyAesIgeEncrypt (inBytes : List UInt8) (length : BitVec 32) (key iv : List UInt8) :
    Option (List UInt8) :=
  let len := length.toInt.tdiv 16
  if len ≤ 0 then none
  else
    let aesIv := blockAt iv
    let ccIv := blockAt (iv.drop 16)
    let inp := readBlocks len.toNat inBytes
    let tmpInBytes := inp.take 1 ++ chainIn ccIv (blockAt inBytes) (inp.drop 1)
    some (writeBlocks (chainOut ccIv inp (cbcEncrypt (cipher.encrypt key) aesIv tmpInBytes)))

/-- `MyAesIgeDecrypt`, of whole blocks. A negative length is counted down until the buffers are
left. -/
def MyAesIgeDecrypt (inBytes : List UInt8) (length : BitVec 32) (key iv : List UInt8) :
    Option (List UInt8) :=
  let len := length.toInt.tdiv 16
  if len < 0 then none
  else
    some (writeBlocks (igeDecrypt (cipher.decrypt key) (blockAt iv) (blockAt (iv.drop 16))
      (readBlocks len.toNat inBytes)))

/-- `MTAesEncryptInplace`. -/
def MTAesEncryptInplace (data key iv : List UInt8) : Option (List UInt8) :=
  MyAesIgeEncrypt cipher data (BitVec.ofNat 32 data.length) key iv

/-- `MTAesDecrypt`, of whole blocks. -/
def MTAesDecrypt (data key iv : List UInt8) : Option (List UInt8) :=
  MyAesIgeDecrypt cipher data (BitVec.ofNat 32 data.length) key iv

variable {cipher} {data key iv : List UInt8} {count : ℕ}

/-- The passes are the infinite garble extension. -/
theorem MyAesIgeEncrypt_eq {length : BitVec 32} (hlength : length.toInt = 16 * (count + 1 : ℕ)) :
    MyAesIgeEncrypt cipher data length key iv =
      some (writeBlocks (igeEncrypt (cipher.encrypt key) (blockAt iv) (blockAt (iv.drop 16))
        (readBlocks (count + 1) data))) := by
  have hlen : length.toInt.tdiv 16 = (count + 1 : ℕ) := by
    rw [hlength, Int.mul_tdiv_cancel_left _ (by decide)]
  rw [MyAesIgeEncrypt, hlen, if_neg (by omega), Int.toNat_natCast, readBlocks,
    ← chainOut_cbcEncrypt]
  rfl

/-- A length from `2 ^ 31` on is negative. -/
theorem intLength_of_ge {n : ℕ} (hlow : 2 ^ 31 ≤ n) (hhigh : n < 2 ^ 32) :
    (BitVec.ofNat 32 n).toInt = n - 2 ^ 32 := by
  rw [BitVec.toInt_ofNat', Int.bmod_def]
  omega

/-- A length that is negative by a block or more has a negative number of blocks. -/
theorem tdiv_neg {n k : ℤ} (hk : 0 < k) (h : n ≤ -k) : n.tdiv k < 0 := by
  have hpos : 1 ≤ -n / k := Int.le_ediv_of_mul_le hk (by omega)
  rw [← Int.tdiv_eq_ediv_of_nonneg (by omega), Int.neg_tdiv] at hpos
  omega

/-- Whole blocks are encrypted to as many bytes. -/
theorem MTAesEncryptInplace_isSome (cipher : BlockCipher) (key iv : List UInt8)
    (hdata : data.length = 16 * (count + 1))
    (h : data.length < 2 ^ 31) :
    ∃ encrypted, MTAesEncryptInplace cipher data key iv = some encrypted ∧
      encrypted.length = data.length := by
  refine ⟨_, MyAesIgeEncrypt_eq ((toInt_length h).trans (by rw [hdata]; rfl)), ?_⟩
  rw [length_writeBlocks, length_igeEncrypt, length_readBlocks, hdata]

/-- Less than a block is not encrypted. -/
theorem MTAesEncryptInplace_nil : MTAesEncryptInplace cipher [] key iv = none := rfl

/-- **Whole blocks are got back.** -/
theorem MTAesDecrypt_encrypt {encrypted : List UInt8} (hdata : data.length = 16 * (count + 1))
    (h : data.length < 2 ^ 31)
    (hencrypted : MTAesEncryptInplace cipher data key iv = some encrypted) :
    MTAesDecrypt cipher encrypted key iv = some data := by
  have hlength := (toInt_length h).trans (congrArg Nat.cast hdata)
  obtain rfl := Option.some.inj ((MyAesIgeEncrypt_eq hlength).symm.trans hencrypted)
  have hsame : (writeBlocks (igeEncrypt (cipher.encrypt key) (blockAt iv) (blockAt (iv.drop 16))
      (readBlocks (count + 1) data))).length = data.length := by
    rw [length_writeBlocks, length_igeEncrypt, length_readBlocks, hdata]
  have hlen : (BitVec.ofNat 32 data.length).toInt.tdiv 16 = (count + 1 : ℕ) := by
    have hblocks : ((16 * (count + 1) : ℕ) : ℤ).tdiv 16 = (16 * (count + 1) / 16 : ℕ) := rfl
    rw [hlength, hblocks, Nat.mul_div_cancel_left _ (by decide)]
  rw [MTAesDecrypt, MyAesIgeDecrypt, hsame, hlen, if_neg (by omega), Int.toNat_natCast]
  have hread := readBlocks_writeBlocks (igeEncrypt (cipher.encrypt key) (blockAt iv)
    (blockAt (iv.drop 16)) (readBlocks (count + 1) data))
  rw [length_igeEncrypt, length_readBlocks] at hread
  rw [hread, igeDecrypt_igeEncrypt (cipher.decrypt_encrypt key), writeBlocks_readBlocks hdata]

/-- Whole blocks are decrypted to as many bytes. -/
theorem MTAesDecrypt_isSome (hdata : data.length = 16 * count) (h : data.length < 2 ^ 31) :
    ∃ decrypted, MTAesDecrypt cipher data key iv = some decrypted ∧
      decrypted.length = data.length := by
  have hlen : (data.length : ℤ).tdiv 16 = (data.length / 16 : ℕ) := rfl
  refine ⟨_, if_neg ?_, ?_⟩
  · rw [toInt_length h, hlen]
    omega
  · rw [length_writeBlocks, length_igeDecrypt, length_readBlocks, toInt_length h, hlen]
    omega

/-- From `2 ^ 31` bytes on the buffers are left. -/
theorem MTAesEncryptInplace_eq_none (hlow : 2 ^ 31 ≤ data.length)
    (hhigh : data.length ≤ 2 ^ 32 - 16) : MTAesEncryptInplace cipher data key iv = none :=
  if_pos (tdiv_neg (by decide) (by rw [intLength_of_ge hlow (by omega)]; omega)).le

/-- From `2 ^ 31` bytes on the buffers are left, this way too. -/
theorem MTAesDecrypt_eq_none (hlow : 2 ^ 31 ≤ data.length) (hhigh : data.length ≤ 2 ^ 32 - 16) :
    MTAesDecrypt cipher data key iv = none :=
  if_pos (tdiv_neg (by decide) (by rw [intLength_of_ge hlow (by omega)]; omega))

/-! ### Running initial vectors -/

/-- The last whole block of some bytes. -/
def lastBlock (bytes : List UInt8) : List UInt8 :=
  (bytes.drop (16 * (bytes.length / 16 - 1))).take 16

variable (cipher) in
/-- `MTAesEncryptInplaceAndModifyIv`: the last encrypted and the last plain block are the next
initial vector. -/
def MTAesEncryptInplaceAndModifyIv (data key iv : List UInt8) :
    Option (List UInt8 × List UInt8) :=
  (MTAesEncryptInplace cipher data key iv).map fun outData =>
    (outData, lastBlock outData ++ lastBlock data)

variable (cipher) in
/-- `MTAesDecryptInplaceAndModifyIv`: of less than a block the initial vector stays. -/
def MTAesDecryptInplaceAndModifyIv (data key iv : List UInt8) :
    Option (List UInt8 × List UInt8) :=
  (MTAesDecrypt cipher data key iv).map fun outData =>
    (outData, if data.length < 16 then iv else lastBlock data ++ lastBlock outData)

variable (cipher) in
/-- The infinite garble extension on bytes. -/
def igeEncryptBytes (key iv data : List UInt8) : List UInt8 :=
  writeBlocks (igeEncrypt (cipher.encrypt key) (blockAt iv) (blockAt (iv.drop 16))
    (readBlocks (data.length / 16) data))

variable (cipher) in
/-- Its reverse on bytes. -/
def igeDecryptBytes (key iv data : List UInt8) : List UInt8 :=
  writeBlocks (igeDecrypt (cipher.decrypt key) (blockAt iv) (blockAt (iv.drop 16))
    (readBlocks (data.length / 16) data))

/-- Whole blocks, in numbers. -/
theorem exists_blocks (hblocks : 16 ∣ data.length) (hne : data ≠ []) :
    ∃ count, data.length = 16 * (count + 1) := by
  obtain ⟨q, hq⟩ := hblocks
  have hpos := List.length_pos_iff.mpr hne
  exact ⟨q - 1, by omega⟩

@[simp] theorem length_igeEncryptBytes (hblocks : 16 ∣ data.length) :
    (igeEncryptBytes cipher key iv data).length = data.length := by
  rw [igeEncryptBytes, length_writeBlocks, length_igeEncrypt, length_readBlocks,
    Nat.mul_div_cancel' hblocks]

@[simp] theorem length_igeDecryptBytes (hblocks : 16 ∣ data.length) :
    (igeDecryptBytes cipher key iv data).length = data.length := by
  rw [igeDecryptBytes, length_writeBlocks, length_igeDecrypt, length_readBlocks,
    Nat.mul_div_cancel' hblocks]

/-- Whole blocks are encrypted, with the initial vector of what follows. -/
theorem MTAesEncryptInplaceAndModifyIv_eq (hblocks : 16 ∣ data.length) (hne : data ≠ [])
    (h : data.length < 2 ^ 31) :
    MTAesEncryptInplaceAndModifyIv cipher data key iv =
      some (igeEncryptBytes cipher key iv data,
        lastBlock (igeEncryptBytes cipher key iv data) ++ lastBlock data) := by
  obtain ⟨count, hcount⟩ := exists_blocks hblocks hne
  have hdiv : data.length / 16 = count + 1 := by omega
  have hlength : (BitVec.ofNat 32 data.length).toInt = 16 * (count + 1 : ℕ) :=
    (toInt_length h).trans (by rw [hcount]; rfl)
  rw [MTAesEncryptInplaceAndModifyIv, MTAesEncryptInplace, MyAesIgeEncrypt_eq hlength,
    Option.map_some, igeEncryptBytes, hdiv]

/-- Whole blocks are decrypted, with the initial vector of what follows. -/
theorem MTAesDecryptInplaceAndModifyIv_eq (h : data.length < 2 ^ 31) :
    MTAesDecryptInplaceAndModifyIv cipher data key iv =
      some (igeDecryptBytes cipher key iv data,
        if data.length < 16 then iv
        else lastBlock data ++ lastBlock (igeDecryptBytes cipher key iv data)) := by
  have hlen : (BitVec.ofNat 32 data.length).toInt.tdiv 16 = (data.length / 16 : ℕ) := by
    rw [toInt_length h]
    rfl
  rw [MTAesDecryptInplaceAndModifyIv, MTAesDecrypt, MyAesIgeDecrypt, hlen, if_neg (by omega), Option.map_some, Int.toNat_natCast, igeDecryptBytes]

/-- Blocks in two pieces. -/
theorem readBlocks_append {first : List UInt8} (hfirst : first.length = 16 * count) (n : ℕ)
    (more : List UInt8) :
    readBlocks (count + n) (first ++ more) = readBlocks count first ++ readBlocks n more := by
  induction count generalizing first with
  | zero => rw [List.length_eq_zero_iff.mp hfirst, Nat.zero_add]; rfl
  | succ count ih =>
      have hblock : blockAt (first ++ more) = blockAt first := by
        rw [blockAt, blockAt, List.take_append_of_le_length (by omega)]
      rw [Nat.add_right_comm, readBlocks, hblock, List.drop_append_of_le_length (by omega),
        ih (by rw [List.length_drop]; omega), readBlocks, List.cons_append]

/-- The last block of some blocks. -/
theorem blockAt_lastBlock (hdata : data.length = 16 * (count + 1)) (default : Block) :
    blockAt (lastBlock data) = (readBlocks (count + 1) data).getLastD default := by
  induction count generalizing data default with
  | zero =>
      have hwhole : data.length / 16 - 1 = 0 := by omega
      rw [lastBlock, hwhole, Nat.mul_zero, List.drop_zero, blockAt, List.take_take, Nat.min_self]
      rfl
  | succ count ih =>
      have hrest : (data.drop 16).length = 16 * (count + 1) := by
        rw [List.length_drop]
        omega
      have hsame : lastBlock data = lastBlock (data.drop 16) := by
        rw [lastBlock, lastBlock, List.drop_drop, List.length_drop]
        congr 2
        omega
      rw [readBlocks, List.getLastD_cons, hsame, ih hrest]

theorem length_lastBlock (hdata : data.length = 16 * (count + 1)) :
    (lastBlock data).length = 16 := by
  rw [lastBlock, List.length_take, List.length_drop]
  omega

/-- An initial vector of two blocks. -/
theorem blockAt_append {first : List UInt8} (hfirst : first.length = 16) (second : List UInt8) :
    blockAt (first ++ second) = blockAt first ∧
      blockAt ((first ++ second).drop 16) = blockAt second := by
  constructor
  · rw [blockAt, blockAt, List.take_append_of_le_length hfirst.ge]
  · rw [List.drop_left' hfirst]

/-- The blocks that encrypted bytes are made of. -/
theorem readBlocks_igeEncryptBytes (hdata : data.length = 16 * count) :
    readBlocks count (igeEncryptBytes cipher key iv data) =
      igeEncrypt (cipher.encrypt key) (blockAt iv) (blockAt (iv.drop 16))
        (readBlocks count data) := by
  have hdiv : data.length / 16 = count := by omega
  have hback := readBlocks_writeBlocks (igeEncrypt (cipher.encrypt key) (blockAt iv)
    (blockAt (iv.drop 16)) (readBlocks count data))
  rw [length_igeEncrypt, length_readBlocks] at hback
  rw [igeEncryptBytes, hdiv, hback]

theorem readBlocks_igeDecryptBytes (hdata : data.length = 16 * count) :
    readBlocks count (igeDecryptBytes cipher key iv data) =
      igeDecrypt (cipher.decrypt key) (blockAt iv) (blockAt (iv.drop 16))
        (readBlocks count data) := by
  have hdiv : data.length / 16 = count := by omega
  have hback := readBlocks_writeBlocks (igeDecrypt (cipher.decrypt key) (blockAt iv)
    (blockAt (iv.drop 16)) (readBlocks count data))
  rw [length_igeDecrypt, length_readBlocks] at hback
  rw [igeDecryptBytes, hdiv, hback]

theorem writeBlocks_append (blocks more : List Block) :
    writeBlocks (blocks ++ more) = writeBlocks blocks ++ writeBlocks more :=
  List.flatMap_append

/-- **A text may be encrypted piece by piece**, with running initial vectors. -/
theorem igeEncryptBytes_append (hblocks : 16 ∣ data.length) (hne : data ≠ [])
    (more : List UInt8) :
    igeEncryptBytes cipher key iv (data ++ more) =
      igeEncryptBytes cipher key iv data ++
        igeEncryptBytes cipher key
          (lastBlock (igeEncryptBytes cipher key iv data) ++ lastBlock data) more := by
  obtain ⟨count, hcount⟩ := exists_blocks hblocks hne
  have hout : (igeEncryptBytes cipher key iv data).length = 16 * (count + 1) :=
    (length_igeEncryptBytes hblocks).trans hcount
  have hdiv : (data ++ more).length / 16 = (count + 1) + more.length / 16 := by
    rw [List.length_append, hcount, Nat.mul_add_div (by decide)]
  obtain ⟨hfirst, hsecond⟩ := blockAt_append (length_lastBlock hout) (lastBlock data)
  conv_lhs => rw [igeEncryptBytes, hdiv, readBlocks_append hcount, igeEncrypt_append,
    writeBlocks_append]
  congr 1
  · rw [igeEncryptBytes, Nat.div_eq_of_eq_mul_right (by decide) hcount]
  · rw [igeEncryptBytes, hfirst, hsecond, blockAt_lastBlock hout (blockAt iv),
      blockAt_lastBlock hcount (blockAt (iv.drop 16)), readBlocks_igeEncryptBytes hcount]

/-- **And it may be decrypted piece by piece.** -/
theorem igeDecryptBytes_append (hblocks : 16 ∣ data.length) (hne : data ≠ [])
    (more : List UInt8) :
    igeDecryptBytes cipher key iv (data ++ more) =
      igeDecryptBytes cipher key iv data ++
        igeDecryptBytes cipher key
          (lastBlock data ++ lastBlock (igeDecryptBytes cipher key iv data)) more := by
  obtain ⟨count, hcount⟩ := exists_blocks hblocks hne
  have hout : (igeDecryptBytes cipher key iv data).length = 16 * (count + 1) :=
    (length_igeDecryptBytes hblocks).trans hcount
  have hdiv : (data ++ more).length / 16 = (count + 1) + more.length / 16 := by
    rw [List.length_append, hcount, Nat.mul_add_div (by decide)]
  obtain ⟨hfirst, hsecond⟩ := blockAt_append (length_lastBlock hcount)
    (lastBlock (igeDecryptBytes cipher key iv data))
  conv_lhs => rw [igeDecryptBytes, hdiv, readBlocks_append hcount, igeDecrypt_append,
    writeBlocks_append]
  congr 1
  · rw [igeDecryptBytes, Nat.div_eq_of_eq_mul_right (by decide) hcount]
  · rw [igeDecryptBytes, hfirst, hsecond, blockAt_lastBlock hcount (blockAt iv),
      blockAt_lastBlock hout (blockAt (iv.drop 16)), readBlocks_igeDecryptBytes hcount]

/-- Whole blocks are got back. -/
theorem igeDecryptBytes_igeEncryptBytes (hblocks : 16 ∣ data.length) :
    igeDecryptBytes cipher key iv (igeEncryptBytes cipher key iv data) = data := by
  obtain ⟨count, hcount⟩ := hblocks
  have hdiv : (igeEncryptBytes cipher key iv data).length / 16 = count := by
    rw [length_igeEncryptBytes ⟨count, hcount⟩, hcount, Nat.mul_div_cancel_left _ (by decide)]
  rw [igeDecryptBytes, hdiv, readBlocks_igeEncryptBytes hcount,
    igeDecrypt_igeEncrypt (cipher.decrypt_encrypt key), writeBlocks_readBlocks hcount]

/-! ### The checksum -/

/-- `rotl32`. -/
def rotl32 (x : BitVec 32) (r : ℕ) : BitVec 32 := (x <<< r) ||| (x >>> (32 - r))

/-- `fmix`. -/
def fmix (h : BitVec 32) : BitVec 32 :=
  let h := h ^^^ (h >>> 16)
  let h := h * 0x85ebca6b#32
  let h := h ^^^ (h >>> 13)
  let h := h * 0xc2b2ae35#32
  h ^^^ (h >>> 16)

/-- A block of the checksum is scrambled. -/
def scramble (k1 : BitVec 32) : BitVec 32 :=
  rotl32 (k1 * 0xcc9e2d51#32) 15 * 0x1b873593#32

/-- The body of `MurmurHash3_x86_32`, of so many blocks of four bytes. -/
def murmurBody : ℕ → BitVec 32 → List UInt8 → BitVec 32
  | 0, h1, _ => h1
  | nblocks + 1, h1, data =>
      murmurBody nblocks
        (rotl32 (h1 ^^^ scramble (BitVec.ofNat 32 (leNat (data.take 4)))) 13 * 5#32 +
          0xe6546b64#32)
        (data.drop 4)

/-- `MTMurMurHash32`: the tail has as many bytes as the length has above a multiple of four. A
negative number of blocks is counted up past the buffer. -/
def MTMurMurHash32 (bytes : List UInt8) (length : BitVec 32) : Option (BitVec 32) :=
  let nblocks := length.toInt.tdiv 4
  let tail := (length &&& 3).toNat
  if nblocks < 0 ∨ bytes.length < 4 * nblocks.toNat + tail then none
  else
    let h1 := murmurBody nblocks.toNat (BitVec.ofInt 32 (-137723950)) bytes
    let h1 :=
      if tail = 0 then h1
      else
        h1 ^^^ scramble (BitVec.ofNat 32 (leNat ((bytes.drop (4 * nblocks.toNat)).take tail)))
    some (fmix (h1 ^^^ length))

/-- The checksum of fewer than `2 ^ 31` bytes stays in them. -/
theorem MTMurMurHash32_isSome (bytes : List UInt8) (h : bytes.length < 2 ^ 31) :
    ∃ hash, MTMurMurHash32 bytes (BitVec.ofNat 32 bytes.length) = some hash := by
  refine ⟨_, if_neg ?_⟩
  have htail : ((BitVec.ofNat 32 bytes.length) &&& 3).toNat = bytes.length % 4 := by
    rw [BitVec.toNat_and, BitVec.toNat_ofNat]
    exact (Nat.and_two_pow_sub_one_eq_mod _ 2).trans (by omega)
  have hblocks : (bytes.length : ℤ).tdiv 4 = (bytes.length / 4 : ℕ) := rfl
  rw [toInt_length h, htail, hblocks]
  omega

/-- The last three lengths of an `uint32_t` have no negative number of blocks. -/
theorem MTMurMurHash32_isSome_of_ge (bytes : List UInt8) (hlow : 2 ^ 32 - 3 ≤ bytes.length)
    (hhigh : bytes.length < 2 ^ 32) :
    ∃ hash, MTMurMurHash32 bytes (BitVec.ofNat 32 bytes.length) = some hash := by
  refine ⟨_, if_neg ?_⟩
  have hblocks : (BitVec.ofNat 32 bytes.length).toInt.tdiv 4 = 0 := by
    rw [intLength_of_ge (by omega) hhigh]
    obtain hlength | hlength | hlength : bytes.length = 2 ^ 32 - 3 ∨ bytes.length = 2 ^ 32 - 2 ∨
        bytes.length = 2 ^ 32 - 1 := by omega
    all_goals
      rw [hlength]
      decide
  have htail : ((BitVec.ofNat 32 bytes.length) &&& 3).toNat ≤ 3 := by
    rw [BitVec.toNat_and]
    exact Nat.and_le_right
  rw [hblocks]
  omega

/-- From `2 ^ 31` bytes on it leaves them, up to the last three lengths. -/
theorem MTMurMurHash32_eq_none {bytes : List UInt8} {n : ℕ} (hlow : 2 ^ 31 ≤ n)
    (hhigh : n ≤ 2 ^ 32 - 4) : MTMurMurHash32 bytes (BitVec.ofNat 32 n) = none := by
  exact if_pos (Or.inl (tdiv_neg (by decide) (by rw [intLength_of_ge hlow (by omega)]; omega)))

end Telegraph.MtProto
