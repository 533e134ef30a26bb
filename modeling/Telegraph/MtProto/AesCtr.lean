import Telegraph.Lib.CounterMode
import Telegraph.MtProto.Encryption

/-!
# AES in Counter Mode

`MTAesCtr` keeps a counter, the block of the key stream it is in, and the place in that block. A
text may be handed to it in any pieces: first the rest of the block is used up, then whole blocks
follow, and what is left begins a new block.

## Main results

* `encryptIn_at`: **what a piece is encrypted to, and where the stream stands behind it.**
* `MTAesCtrDecrypt_slice`: a part of an encrypted file is decrypted on its own, with the place
  of the part in the last four bytes of the initial vector.
-/

open Bytes CounterMode

namespace Telegraph.MtProto

/-! ### The counter -/

/-- The bytes of a number, least significant first, with a carry added. -/
def addCarry : ℕ → List UInt8 → List UInt8
  | _, [] => []
  | c, b :: counter => UInt8.ofNat (c + b.toNat) :: addCarry ((c + b.toNat) >>> 8) counter

/-- `ctr128_inc`: the bytes of the counter are counted up from the last one. -/
def ctr128_inc (counter : List UInt8) : List UInt8 := (addCarry 1 counter.reverse).reverse

/-- The carry is added to the number. -/
theorem addCarry_toLE (c k n : ℕ) : addCarry c (toLE k n) = toLE k (n + c) := by
  induction k generalizing c n with
  | zero => rfl
  | succ k ih =>
      have hlow : (UInt8.ofNat n).toNat = n % 256 := UInt8.toNat_ofNat'
      have hhead : UInt8.ofNat (c + n % 256) = UInt8.ofNat (n + c) := by
        refine UInt8.toNat_inj.mp ?_
        rw [UInt8.toNat_ofNat', UInt8.toNat_ofNat']
        omega
      have hrest : n / 256 + (c + n % 256) / 2 ^ 8 = (n + c) / 256 := by omega
      rw [toLE, addCarry, ih, hlow, hhead, Nat.shiftRight_eq_div_pow, hrest, toLE]

/-- The counter is the next number. -/
theorem ctr128_inc_toBE (n : ℕ) : ctr128_inc (toBE 16 n) = toBE 16 (n + 1) := by
  rw [ctr128_inc, toBE, List.reverse_reverse, addCarry_toLE, toBE]

/-! ### The cipher -/

/-- `MTAesCtr`: `_ivec`, `_num`, `_ecount`, and the key of `_cryptor`. -/
structure MTAesCtr where
  key : List UInt8
  ivec : List UInt8
  num : ℕ
  ecount : List UInt8
deriving DecidableEq

namespace MTAesCtr

/-- `initWithKey:keyLength:iv:decrypt:`. -/
def init (key iv : List UInt8) : MTAesCtr := ⟨key, iv.take 16, 0, List.replicate 16 0⟩

/-- The bytes of a block. -/
def blockBytes (block : Block) : List UInt8 := toLE 16 block.toNat

@[simp] theorem length_blockBytes (block : Block) : (blockBytes block).length = 16 :=
  length_toLE 16 _

variable (cipher : BlockCipher)

/-- `CCCryptorUpdate` of the counter, which is then counted up. -/
def nextBlock (c : MTAesCtr) : MTAesCtr :=
  { c with
    ecount := blockBytes (cipher.encrypt c.key (blockAt c.ivec))
    ivec := ctr128_inc c.ivec }

/-- `while (n && len)`: the rest of the block that the stream is in. The result is what is written,
what is left of the input, and the stream. -/
def finishBlock : MTAesCtr → List UInt8 → List UInt8 × List UInt8 × MTAesCtr
  | c, [] => ([], [], c)
  | c, b :: input =>
      if c.num = 0 then ([], b :: input, c)
      else
        let (out, rest, c') := finishBlock { c with num := (c.num + 1) % 16 } input
        ((b ^^^ c.ecount.getD c.num 0) :: out, rest, c')

/-- `while (len >= 16)`, for so many rounds. -/
def wholeBlocks : ℕ → MTAesCtr → List UInt8 → List UInt8 × List UInt8 × MTAesCtr
  | 0, c, input => ([], input, c)
  | rounds + 1, c, input =>
      let c := nextBlock cipher c
      let (out, rest, c') := wholeBlocks rounds { c with num := 0 } (input.drop 16)
      (List.zipWith (· ^^^ ·) (input.take 16) c.ecount ++ out, rest, c')

/-- `if (len)`: the beginning of a new block. -/
def beginBlock (c : MTAesCtr) (input : List UInt8) : List UInt8 × MTAesCtr :=
  if input = [] then ([], c)
  else
    let c := nextBlock cipher c
    (List.zipWith (· ^^^ ·) input c.ecount, { c with num := input.length })

/-- `encryptIn:out:len:`. -/
def encryptIn (c : MTAesCtr) (input : List UInt8) : List UInt8 × MTAesCtr :=
  let (first, input, c) := finishBlock c input
  let (blocks, input, c) := wholeBlocks cipher (input.length / 16) c input
  let (last, c) := beginBlock cipher c input
  (first ++ blocks ++ last, c)

end MTAesCtr

/-- `MTAesCtrDecrypt`. -/
def MTAesCtrDecrypt (cipher : BlockCipher) (data key iv : List UInt8) : List UInt8 :=
  (MTAesCtr.encryptIn cipher (.init key iv) data).1

/-! ### The key stream -/

namespace MTAesCtr

variable {cipher : BlockCipher} {key : List UInt8} {start place : ℕ} {c : MTAesCtr}
  {input : List UInt8}

/-- A block of the key stream, with the number that the counter starts from. -/
def keyBlock (cipher : BlockCipher) (key : List UInt8) (start q : ℕ) : List UInt8 :=
  blockBytes (cipher.encrypt key (blockAt (toBE 16 (start + q))))

/-- The key stream. -/
def keyStream (cipher : BlockCipher) (key : List UInt8) (start : ℕ) : ℕ → UInt8 :=
  blockStream 16 (keyBlock cipher key start)

@[simp] theorem length_keyBlock (q : ℕ) : (keyBlock cipher key start q).length = 16 :=
  length_blockBytes _

/-- The stream stands at a place: the counter is behind the block of the place, and this is the
block that is used, unless the place is the end of a block. -/
structure At (cipher : BlockCipher) (key : List UInt8) (start place : ℕ) (c : MTAesCtr) :
    Prop where
  key_eq : c.key = key
  num_eq : c.num = place % 16
  ivec_eq : c.ivec = toBE 16 (start + (place + 15) / 16)
  ecount_eq : c.num ≠ 0 → c.ecount = keyBlock cipher key start (place / 16)

/-- The block of the stream at the end of a block. -/
theorem At.nextBlock (h : At cipher key start place c) (hend : place % 16 = 0) :
    nextBlock cipher c =
      ⟨key, toBE 16 (start + (place / 16 + 1)), 0, keyBlock cipher key start (place / 16)⟩ := by
  have hceil : (place + 15) / 16 = place / 16 := by omega
  rw [MTAesCtr.nextBlock, h.key_eq, h.ivec_eq, hceil, ctr128_inc_toBE, h.num_eq, hend, keyBlock,
    Nat.add_assoc]

/-- **The rest of a block.** Either nothing of the input is left, or the stream stands at the end
of a block. -/
theorem finishBlock_at (h : At cipher key start place c) (input : List UInt8) :
    ∃ text rest, input = text ++ rest ∧
      (finishBlock c input).1 = xorFrom (keyStream cipher key start) place text ∧
      (finishBlock c input).2.1 = rest ∧
      At cipher key start (place + text.length) (finishBlock c input).2.2 ∧
      (rest = [] ∨ (place + text.length) % 16 = 0) := by
  induction input generalizing c place with
  | nil => exact ⟨[], [], rfl, rfl, rfl, h, .inl rfl⟩
  | cons b input ih =>
      rw [finishBlock]
      by_cases hnum : c.num = 0
      · rw [if_pos hnum]
        exact ⟨[], b :: input, rfl, rfl, rfl, h, .inr (h.num_eq.symm.trans hnum)⟩
      · rw [if_neg hnum]
        have hplace : place % 16 ≠ 0 := fun hzero => hnum (h.num_eq.trans hzero)
        have hnext : At cipher key start (place + 1) { c with num := (c.num + 1) % 16 } := by
          refine ⟨h.key_eq, ?_, ?_, fun hne => ?_⟩
          · show (c.num + 1) % 16 = _
            rw [h.num_eq]
            omega
          · rw [h.ivec_eq]
            have hceil : (place + 15) / 16 = (place + 1 + 15) / 16 := by omega
            rw [hceil]
          · have hlast : (c.num + 1) % 16 ≠ 0 := hne
            rw [h.num_eq] at hlast
            have hblock : (place + 1) / 16 = place / 16 := by omega
            rw [hblock]
            exact h.ecount_eq hnum
        obtain ⟨text, rest, hinput, hout, hrest, hat, hend⟩ := ih hnext
        have hbyte : c.ecount.getD c.num 0 = keyStream cipher key start place := by
          rw [h.ecount_eq hnum, h.num_eq]
          rfl
        refine ⟨b :: text, rest, by rw [hinput, List.cons_append], ?_, hrest, ?_, ?_⟩
        · rw [xorFrom, ← hbyte, ← hout]
        · rw [List.length_cons, Nat.add_comm text.length, ← Nat.add_assoc]
          exact hat
        · rw [List.length_cons, Nat.add_comm text.length, ← Nat.add_assoc]
          exact hend

/-- Whole blocks, from the end of a block on. -/
theorem wholeBlocks_at {rounds : ℕ} (h : At cipher key start place c) (hend : place % 16 = 0)
    (hrounds : 16 * rounds ≤ input.length) :
    (wholeBlocks cipher rounds c input).1 =
        xorFrom (keyStream cipher key start) place (input.take (16 * rounds)) ∧
      (wholeBlocks cipher rounds c input).2.1 = input.drop (16 * rounds) ∧
      At cipher key start (place + 16 * rounds) (wholeBlocks cipher rounds c input).2.2 := by
  induction rounds generalizing c place input with
  | zero => exact ⟨rfl, rfl, h⟩
  | succ rounds ih =>
      have hnext : At cipher key start (place + 16) { nextBlock cipher c with num := 0 } := by
        rw [h.nextBlock hend]
        refine ⟨rfl, ?_, ?_, fun hne => absurd rfl hne⟩
        · show 0 = _
          omega
        have hceil : (place + 16 + 15) / 16 = place / 16 + 1 := by omega
        rw [hceil]
      have hlong : 16 * rounds ≤ (input.drop 16).length := by
        rw [List.length_drop]
        omega
      obtain ⟨hout, hrest, hat⟩ := ih hnext (by omega) hlong
      have hfirst : List.zipWith (· ^^^ ·) (input.take 16) (nextBlock cipher c).ecount =
          xorFrom (keyStream cipher key start) place (input.take 16) := by
        have hplace : 16 * (place / 16) + 0 = place := by omega
        have hlength : (keyBlock cipher key start (place / 16)).length = 16 := length_keyBlock _
        have hblock := xorFrom_blockStream 0 (input.take 16) hlength
          (by rw [Nat.zero_add, List.length_take]; exact Nat.min_le_left _ _)
        rw [hplace, List.drop_zero] at hblock
        rw [h.nextBlock hend, keyStream, hblock]
      have htake : input.take (16 * (rounds + 1)) =
          input.take 16 ++ (input.drop 16).take (16 * rounds) := by
        rw [Nat.mul_succ, Nat.add_comm, List.take_add]
      refine ⟨?_, ?_, ?_⟩
      · rw [wholeBlocks, htake, xorFrom_append, List.length_take_of_le (by omega), ← hout, ← hfirst]
      · rw [wholeBlocks, hrest, List.drop_drop, Nat.mul_succ, Nat.add_comm]
      · rw [wholeBlocks, Nat.mul_succ, Nat.add_comm (16 * rounds), ← Nat.add_assoc]
        exact hat

/-- The beginning of a block. -/
theorem beginBlock_at (h : At cipher key start place c) (hend : input = [] ∨ place % 16 = 0)
    (hshort : input.length < 16) :
    (beginBlock cipher c input).1 = xorFrom (keyStream cipher key start) place input ∧
      At cipher key start (place + input.length) (beginBlock cipher c input).2 := by
  rw [beginBlock]
  by_cases hnil : input = []
  · rw [if_pos hnil, hnil]
    exact ⟨rfl, h⟩
  · have hend := hend.resolve_left hnil
    have hpos := List.length_pos_iff.mpr hnil
    rw [if_neg hnil, h.nextBlock hend]
    constructor
    · have hplace : 16 * (place / 16) + 0 = place := by omega
      have hlength : (keyBlock cipher key start (place / 16)).length = 16 := length_keyBlock _
      have hblock := xorFrom_blockStream 0 input hlength (by omega)
      rw [hplace, List.drop_zero] at hblock
      rw [keyStream, hblock]
    · have hceil : (place + input.length + 15) / 16 = place / 16 + 1 := by omega
      have hblock : (place + input.length) / 16 = place / 16 := by omega
      refine ⟨rfl, ?_, ?_, fun _ => ?_⟩
      · show input.length = _
        omega
      · rw [hceil]
      · rw [hblock]

/-- **What a piece is encrypted to, and where the stream stands behind it.** -/
theorem encryptIn_at (h : At cipher key start place c) (input : List UInt8) :
    (encryptIn cipher c input).1 = xorFrom (keyStream cipher key start) place input ∧
      At cipher key start (place + input.length) (encryptIn cipher c input).2 := by
  obtain ⟨text, rest, hinput, hfirst, hrest, hat, hend⟩ := finishBlock_at h input
  have hrounds : 16 * (rest.length / 16) ≤ rest.length := Nat.mul_div_le _ _
  rw [encryptIn]
  simp only [hfirst, hrest]
  rcases hend with rfl | hend
  · obtain ⟨hlast, hat'⟩ := beginBlock_at hat (.inl rfl : ([] : List UInt8) = [] ∨ _) (by decide)
    rw [List.append_nil] at hinput
    rw [List.length_nil, Nat.zero_div, wholeBlocks, hlast, List.append_nil, xorFrom_nil,
      List.append_nil, hinput]
    rw [hinput] at hat'
    exact ⟨rfl, hat'⟩
  · obtain ⟨hblocks, hrest', hat'⟩ := wholeBlocks_at hat hend hrounds
    have hshort : (rest.drop (16 * (rest.length / 16))).length < 16 := by
      rw [List.length_drop]
      omega
    obtain ⟨hlast, hat''⟩ := beginBlock_at hat' (.inr (by omega)) hshort
    have hlength : (rest.take (16 * (rest.length / 16))).length = 16 * (rest.length / 16) :=
      List.length_take_of_le hrounds
    simp only [hblocks, hrest', hlast]
    constructor
    · have hsplit : input =
          text ++ rest.take (16 * (rest.length / 16)) ++ rest.drop (16 * (rest.length / 16)) := by
        rw [List.append_assoc, List.take_append_drop, hinput]
      conv_rhs => rw [hsplit]
      rw [xorFrom_append, xorFrom_append, List.length_append, hlength, Nat.add_assoc]
    · have hplace : place + text.length + 16 * (rest.length / 16) +
          (rest.drop (16 * (rest.length / 16))).length = place + input.length := by
        rw [List.length_drop, hinput, List.length_append]
        omega
      rw [hplace] at hat''
      exact hat''

/-- A stream that has not been used. -/
theorem at_init (cipher : BlockCipher) (key : List UInt8) {iv : List UInt8} (hiv : iv.length = 16) :
    At cipher key (beNat iv) 0 (init key iv) := by
  refine ⟨rfl, rfl, ?_, fun hne => absurd rfl hne⟩
  have hback := toBE_beNat iv
  rw [hiv] at hback
  exact (List.take_of_length_le hiv.le).trans hback.symm

end MTAesCtr

/-! ### Parts of a file -/

section Parts

variable {cipher : BlockCipher} {key iv : List UInt8}

/-- A text is combined with the key stream that the initial vector gives. -/
theorem MTAesCtrDecrypt_eq (hiv : iv.length = 16) (data : List UInt8) :
    MTAesCtrDecrypt cipher data key iv =
      xorFrom (MTAesCtr.keyStream cipher key (beNat iv)) 0 data :=
  (MTAesCtr.encryptIn_at (MTAesCtr.at_init cipher key hiv) data).1

/-- The initial vector for a part of a file: the number of the part's first block, in four bytes,
takes the place of the last four bytes. -/
def partIv (encryptionIv : List UInt8) (offset : ℕ) : List UInt8 :=
  encryptionIv.take (encryptionIv.length - 4) ++ toBE 4 (offset / 16)

/-- An initial vector for a part is as long as the one of the file. -/
theorem length_partIv (hiv : iv.length = 16) (offset : ℕ) : (partIv iv offset).length = 16 := by
  rw [partIv, List.length_append, List.length_take, length_toBE]
  omega

/-- The number of a part's initial vector is so many blocks behind the one of the first part. -/
theorem beNat_partIv {offset : ℕ} (hoffset : offset / 16 < 2 ^ 32) :
    beNat (partIv iv offset) = beNat (partIv iv 0) + offset / 16 := by
  have happend : ∀ front : List UInt8, ∀ n, n < 2 ^ 32 →
      beNat (front ++ toBE 4 n) = beNat (front ++ toBE 4 0) + n := by
    intro front n hn
    induction front with
    | nil =>
        rw [List.nil_append, List.nil_append, beNat_toBE, beNat_toBE]
        omega
    | cons b front ih =>
        rw [List.cons_append, List.cons_append, beNat, beNat, ih, List.length_append,
          List.length_append, length_toBE, length_toBE, Nat.add_assoc]
  exact happend _ _ hoffset

/-- **A part of an encrypted file is decrypted on its own**, if it starts with a block. -/
theorem MTAesCtrDecrypt_slice (hiv : iv.length = 16) {offset : ℕ} (hblock : 16 ∣ offset)
    (hoffset : offset / 16 < 2 ^ 32) (content : List UInt8) (limit : ℕ) :
    MTAesCtrDecrypt cipher
        (((MTAesCtrDecrypt cipher content key (partIv iv 0)).drop offset).take limit) key
        (partIv iv offset) =
      (content.drop offset).take limit := by
  rw [MTAesCtrDecrypt_eq (length_partIv hiv 0), MTAesCtrDecrypt_eq (length_partIv hiv offset),
    drop_xorFrom, take_xorFrom, beNat_partIv hoffset, Nat.zero_add]
  have hshift : ∀ i, MTAesCtr.keyStream cipher key (beNat (partIv iv 0) + offset / 16) i =
      MTAesCtr.keyStream cipher key (beNat (partIv iv 0)) (offset + i) := by
    intro i
    obtain ⟨q, rfl⟩ := hblock
    have hdiv : (16 * q + i) / 16 = q + i / 16 := Nat.mul_add_div (by decide) q i
    have hmod : (16 * q + i) % 16 = i % 16 := Nat.mul_add_mod 16 q i
    have hq : 16 * q / 16 = q := Nat.mul_div_cancel_left q (by decide)
    rw [MTAesCtr.keyStream, MTAesCtr.keyStream, blockStream, blockStream, hdiv, hmod, hq,
      MTAesCtr.keyBlock, MTAesCtr.keyBlock, Nat.add_assoc]
  have hsame : ∀ text : List UInt8,
      xorFrom (MTAesCtr.keyStream cipher key (beNat (partIv iv 0) + offset / 16)) 0 text =
        xorFrom (MTAesCtr.keyStream cipher key (beNat (partIv iv 0))) offset text := by
    intro text
    refine xorFrom_congr fun i _ => ?_
    rw [Nat.zero_add, hshift]
  rw [hsame, xorFrom_xorFrom]

end Parts

end Telegraph.MtProto
