import Telegraph.MtProto.Encryption

/-!
# The Keychain in a File

The authorization keys are kept in a file of their own: the length of the archive, the archive
padded to whole blocks and possibly encrypted, and its checksum. A file is believed when its length
is that of one of two layouts, without and with the checksum.

The length of the archive is rounded up to whole blocks as an `uint32_t`. Just below `2 ^ 32` it
becomes zero, and a file of four bytes stands for an archive of four gigabytes. Above `2 ^ 31` the
encryption and the checksum leave their buffers.

## Main results

* `roundTrip_iff`: which archives are got back from the file they are stored in.
* `loadedInside_iff`: **which files are loaded within their bounds.**
* `loadedWhole_iff`: both.
-/

open Bytes

namespace Telegraph.MtProto

/-- `MTFileBasedKeychain`: whether it is encrypted, with its key and vector. -/
structure MTFileBasedKeychain where
  encrypted : Bool
  aesKey : List UInt8
  aesIv : List UInt8
  length_aesKey : aesKey.length = 32
  length_aesIv : aesIv.length = 32

namespace MTFileBasedKeychain

/-- The loop that rounds the length up. -/
def paddedLength (length : BitVec 32) : BitVec 32 :=
  if length.toNat % 16 = 0 then length else paddedLength (length + 1)
termination_by (16 - length.toNat % 16) % 16
decreasing_by bv_omega

/-- The loop that appends random bytes. -/
def padRandom (random : ℕ → UInt8) (encryptedData : List UInt8) : List UInt8 :=
  if encryptedData.length % 16 = 0 then encryptedData
  else padRandom random (encryptedData ++ [random encryptedData.length])
termination_by (16 - encryptedData.length % 16) % 16
decreasing_by
  rw [List.length_append, List.length_singleton]
  omega

/-- `setLength:`. -/
def setLength (data : List UInt8) (length : ℕ) : List UInt8 :=
  data.take length ++ List.replicate (length - data.length) 0

/-- The length that a file starts with. -/
def header (data : List UInt8) : BitVec 32 := BitVec.ofNat 32 (leNat (data.take 4))

variable (cipher : BlockCipher) (keychain : MTFileBasedKeychain)

/-- The encryption of the body of a file. -/
def encryptBody (encryptedData : List UInt8) : Option (List UInt8) :=
  if keychain.encrypted then
    MTAesEncryptInplace cipher encryptedData keychain.aesKey keychain.aesIv
  else some encryptedData

/-- `_storeKeychain:`, of the archive; nothing is stored where a buffer is left. -/
def storeKeychain (random : ℕ → UInt8) (data : List UInt8) : Option (List UInt8) := do
  let hash ← MTMurMurHash32 data (BitVec.ofNat 32 data.length)
  let encryptedData ← encryptBody cipher keychain (padRandom random data)
  pure (toLE 4 data.length ++ encryptedData ++ toLE 4 hash.toNat)

/-- The decryption of the body of a file. -/
def decryptBody (encryptedData : List UInt8) : Option (List UInt8) :=
  if keychain.encrypted then MTAesDecrypt cipher encryptedData keychain.aesKey keychain.aesIv
  else some encryptedData

/-- The checksum, in the layout that has one. -/
def verifyHash (data decryptedData : List UInt8) (hashLocation : ℕ) :
    Option (Option (List UInt8)) := do
  let decryptedHash ← MTMurMurHash32 decryptedData (BitVec.ofNat 32 decryptedData.length)
  pure (if BitVec.ofNat 32 (leNat ((data.drop hashLocation).take 4)) = decryptedHash then
    some decryptedData else none)

/-- `_loadKeychainIfNeeded:`, of the contents of the file: what is handed to the unarchiver. The
outer `none` is a read outside of a buffer. -/
def loadKeychain (data : List UInt8) : Option (Option (List UInt8)) :=
  let paddedLength := paddedLength (header data)
  if data.length < 4 then some none
  else if data.length = (4 + paddedLength).toNat ∨ data.length = (4 + paddedLength + 4).toNat then do
    let decryptedData ← decryptBody cipher keychain ((data.drop 4).take paddedLength.toNat)
    let decryptedData := setLength decryptedData (header data).toNat
    if data.length = (4 + paddedLength + 4).toNat then
      verifyHash data decryptedData (4 + paddedLength).toNat
    else some (some decryptedData)
  else some none

/-! ### What is to hold -/

/-- An archive is got back from the file that it is stored in. -/
def RoundTrip (random : ℕ → UInt8) (archive : List UInt8) : Prop :=
  ∃ file, keychain.storeKeychain cipher random archive = some file ∧
    keychain.loadKeychain cipher file = some (some archive)

/-- A file is loaded within its bounds: what is handed on is a prefix of the decrypted body, and not
longer than the file. -/
def LoadedInside (file : List UInt8) : Prop :=
  ∃ handed, keychain.loadKeychain cipher file = some handed ∧
    ∀ archive, handed = some archive → archive.length ≤ file.length ∧
      ∃ body, keychain.decryptBody cipher ((file.drop 4).take (paddedLength (header file)).toNat) =
        some body ∧ archive <+: body

/-- The archive has a length that is not negative as an `int`, padded if it is encrypted, and then
it is not empty. -/
structure Storable (archive : List UInt8) : Prop where
  short : archive.length < 2 ^ 31
  whole : keychain.encrypted = true → archive ≠ [] ∧ archive.length ≤ 2 ^ 31 - 16

/-- If the file has the length of a layout: its body is short enough to be decrypted, it is not four
bytes for an archive of `2 ^ 32 - 16` or more, and where there is a checksum, the archive is short
enough for it, or its length is one of the last three and the checksum is wrong. -/
structure Loadable (file : List UInt8) : Prop where
  decrypted : file.length = 4 + (paddedLength (header file)).toNat ∨
      file.length = 8 + (paddedLength (header file)).toNat →
    keychain.encrypted = true → (paddedLength (header file)).toNat < 2 ^ 31
  unverified : file.length = 4 + (paddedLength (header file)).toNat →
    (header file).toNat ≤ 2 ^ 32 - 16
  verified : file.length = 8 + (paddedLength (header file)).toNat →
    (header file).toNat < 2 ^ 31 ∨ 2 ^ 32 - 3 ≤ (header file).toNat ∧
      MTMurMurHash32 (List.replicate (header file).toNat 0) (header file) ≠
        some (BitVec.ofNat 32 (leNat (file.drop 4)))

variable {cipher keychain} {archive file : List UInt8} {random : ℕ → UInt8}

/-! ### Lengths -/

/-- The length is rounded up to whole blocks, modulo `2 ^ 32`. -/
theorem toNat_paddedLength (length : BitVec 32) :
    (paddedLength length).toNat = (length.toNat + 15) / 16 * 16 % 2 ^ 32 := by
  fun_induction paddedLength length with
  | case1 length h =>
      have hlt := length.isLt
      omega
  | case2 length h ih =>
      have hlt := length.isLt
      rw [ih, BitVec.toNat_add, show (1 : BitVec 32).toNat = 1 from rfl]
      omega

/-- Up to `2 ^ 32 - 16`. -/
theorem toNat_paddedLength_of_le {length : BitVec 32} (h : length.toNat ≤ 2 ^ 32 - 16) :
    (paddedLength length).toNat = (length.toNat + 15) / 16 * 16 := by
  rw [toNat_paddedLength, Nat.mod_eq_of_lt (by omega)]

/-- Above it becomes zero. -/
theorem toNat_paddedLength_of_gt {length : BitVec 32} (h : 2 ^ 32 - 16 < length.toNat) :
    (paddedLength length).toNat = 0 := by
  have hlt := length.isLt
  rw [toNat_paddedLength]
  omega

/-- The places behind the body. -/
theorem toNat_layouts (length : BitVec 32) :
    (4 + paddedLength length).toNat = 4 + (paddedLength length).toNat ∧
      (4 + paddedLength length + 4).toNat = 8 + (paddedLength length).toNat := by
  have hpadded := toNat_paddedLength length
  have hbare : (4 + paddedLength length).toNat = 4 + (paddedLength length).toNat := by
    rw [BitVec.toNat_add, show (4 : BitVec 32).toNat = 4 from rfl]
    omega
  refine ⟨hbare, ?_⟩
  rw [BitVec.toNat_add, hbare, show (4 : BitVec 32).toNat = 4 from rfl]
  omega

/-- The bytes are padded to whole blocks. -/
theorem padRandom_eq (random : ℕ → UInt8) (data : List UInt8) :
    ∃ padding, padRandom random data = data ++ padding ∧
      (padRandom random data).length = (data.length + 15) / 16 * 16 := by
  fun_induction padRandom random data with
  | case1 data h => exact ⟨[], (List.append_nil data).symm, by omega⟩
  | case2 data h ih =>
      obtain ⟨padding, heq, hlength⟩ := ih
      refine ⟨random data.length :: padding, ?_, ?_⟩
      · rw [heq, List.append_assoc, List.singleton_append]
      · rw [hlength, List.length_append, List.length_singleton]
        omega

/-- A shorter length cuts. -/
theorem setLength_of_le {data : List UInt8} {length : ℕ} (h : length ≤ data.length) :
    setLength data length = data.take length := by
  rw [setLength, Nat.sub_eq_zero_of_le h, List.replicate_zero, List.append_nil]

/-- The length is the one that is set. -/
@[simp] theorem length_setLength (data : List UInt8) (length : ℕ) :
    (setLength data length).length = length := by
  rw [setLength, List.length_append, List.length_take, List.length_replicate]
  omega

/-! ### Loading -/

/-- A file of neither layout is not loaded. -/
theorem loadKeychain_of_neither (h4 : file.length ≠ 4 + (paddedLength (header file)).toNat)
    (h8 : file.length ≠ 8 + (paddedLength (header file)).toNat) :
    keychain.loadKeychain cipher file = some none := by
  obtain ⟨hbare, hhashed⟩ := toNat_layouts (header file)
  rw [loadKeychain, hbare, hhashed]
  split
  · rfl
  · rw [if_neg (by omega)]

/-- A file without a checksum. -/
theorem loadKeychain_bare (h : file.length = 4 + (paddedLength (header file)).toNat) :
    keychain.loadKeychain cipher file =
      (keychain.decryptBody cipher
        ((file.drop 4).take (paddedLength (header file)).toNat)).map fun body =>
          some (setLength body (header file).toNat) := by
  obtain ⟨hbare, hhashed⟩ := toNat_layouts (header file)
  rw [loadKeychain, hbare, hhashed, if_neg (by omega), if_pos (Or.inl h)]
  simp only [if_neg (show file.length ≠ 8 + (paddedLength (header file)).toNat by omega)]
  exact Option.map_eq_bind.symm

/-- A file with a checksum. -/
theorem loadKeychain_hashed (h : file.length = 8 + (paddedLength (header file)).toNat) :
    keychain.loadKeychain cipher file =
      (keychain.decryptBody cipher
        ((file.drop 4).take (paddedLength (header file)).toNat)).bind fun body =>
          verifyHash file (setLength body (header file).toNat)
            (4 + (paddedLength (header file)).toNat) := by
  obtain ⟨hbare, hhashed⟩ := toNat_layouts (header file)
  rw [loadKeychain, hbare, hhashed, if_neg (by omega), if_pos (Or.inr h)]
  simp only [if_pos h]
  rfl

/-- The body of a file of either layout. -/
theorem length_body
    (h : file.length = 4 + (paddedLength (header file)).toNat ∨
      file.length = 8 + (paddedLength (header file)).toNat) :
    ((file.drop 4).take (paddedLength (header file)).toNat).length =
      (paddedLength (header file)).toNat := by
  rw [List.length_take, List.length_drop]
  omega

/-- A body is decrypted to as many bytes, unless it is too long. -/
theorem decryptBody_isSome (cipher : BlockCipher) (keychain : MTFileBasedKeychain)
    (body : List UInt8) (hdvd : 16 ∣ body.length)
    (h : keychain.encrypted = true → body.length < 2 ^ 31) :
    ∃ decrypted, keychain.decryptBody cipher body = some decrypted ∧
      decrypted.length = body.length := by
  rw [decryptBody]
  split
  case isTrue hencrypted =>
    obtain ⟨count, hcount⟩ := hdvd
    exact MTAesDecrypt_isSome hcount (h hencrypted)
  case isFalse => exact ⟨body, rfl, rfl⟩

/-- A body that is too long. -/
theorem decryptBody_eq_none (cipher : BlockCipher) (body : List UInt8)
    (hencrypted : keychain.encrypted = true)
    (hlow : 2 ^ 31 ≤ body.length) (hhigh : body.length ≤ 2 ^ 32 - 16) :
    keychain.decryptBody cipher body = none := by
  rw [decryptBody, if_pos hencrypted, MTAesDecrypt_eq_none hlow hhigh]

/-- The checksum is compared, where it can be had. -/
theorem verifyHash_of_some {decrypted : List UInt8} {place : ℕ} {hash : BitVec 32}
    (h : MTMurMurHash32 decrypted (BitVec.ofNat 32 decrypted.length) = some hash) :
    verifyHash file decrypted place =
      some (if BitVec.ofNat 32 (leNat ((file.drop place).take 4)) = hash then some decrypted
        else none) := by
  rw [verifyHash, h]
  rfl

/-- Without the checksum nothing is handed on, and the buffer is left. -/
theorem verifyHash_of_none {decrypted : List UInt8} {place : ℕ}
    (h : MTMurMurHash32 decrypted (BitVec.ofNat 32 decrypted.length) = none) :
    verifyHash file decrypted place = none := by
  rw [verifyHash, h]
  rfl

/-! ### Round trip -/

/-- A stored file is loaded. -/
theorem loadKeychain_stored (padding : List UInt8) {body : List UInt8} {hash : BitVec 32}
    (hlength : archive.length ≤ 2 ^ 32 - 16)
    (hbody : body.length = (archive.length + 15) / 16 * 16)
    (hdecrypt : keychain.decryptBody cipher body = some (archive ++ padding))
    (hhash : MTMurMurHash32 archive (BitVec.ofNat 32 archive.length) = some hash) :
    keychain.loadKeychain cipher (toLE 4 archive.length ++ body ++ toLE 4 hash.toNat) =
      some (some archive) := by
  have hfour : (toLE 4 archive.length).length = 4 := length_toLE 4 _
  have hheader : header (toLE 4 archive.length ++ body ++ toLE 4 hash.toNat) =
      BitVec.ofNat 32 archive.length := by
    rw [header, List.append_assoc, List.take_left' hfour, leNat_toLE_of_lt (by omega)]
  have hn : (BitVec.ofNat 32 archive.length).toNat = archive.length := by
    rw [BitVec.toNat_ofNat, Nat.mod_eq_of_lt (by omega)]
  have hpadded : (paddedLength (BitVec.ofNat 32 archive.length)).toNat = body.length := by
    rw [toNat_paddedLength_of_le (by omega), hn, hbody]
  have hlast : BitVec.ofNat 32 (leNat (((toLE 4 archive.length ++ body ++
      toLE 4 hash.toNat).drop (4 + body.length)).take 4)) = hash := by
    rw [List.drop_left' (by rw [List.length_append, hfour]),
      List.take_of_length_le (length_toLE 4 _).le, leNat_toLE_of_lt hash.isLt, BitVec.ofNat_toNat,
      BitVec.setWidth_eq]
  have hset : setLength (archive ++ padding) archive.length = archive := by
    rw [setLength_of_le (by rw [List.length_append]; omega), List.take_left' rfl]
  rw [loadKeychain_hashed, hheader, hpadded, hn]
  · rw [List.append_assoc, List.drop_left' hfour, List.take_left' rfl, hdecrypt, Option.bind_some,
      hset, ← List.append_assoc, verifyHash_of_some hhash, hlast, if_pos rfl]
  · rw [hheader, hpadded]
    simp only [List.length_append, length_toLE]
    omega

/-- Storing an archive that is not storable leaves a buffer. -/
theorem storeKeychain_eq_none (hlength : archive.length < 2 ^ 32 - 16)
    (h : ¬ keychain.Storable archive) : keychain.storeKeychain cipher random archive = none := by
  rw [storeKeychain]
  rcases Nat.lt_or_ge archive.length (2 ^ 31) with hshort | hlong
  · obtain ⟨hash, hhash⟩ := MTMurMurHash32_isSome archive hshort
    obtain ⟨padding, heq, hpadded⟩ := padRandom_eq random archive
    have hencrypted : keychain.encrypted = true :=
      Decidable.byContradiction fun hplain => h ⟨hshort, fun he => absurd he hplain⟩
    have hnone : MTAesEncryptInplace cipher (padRandom random archive) keychain.aesKey
        keychain.aesIv = none := by
      rcases eq_or_ne archive [] with rfl | hne
      · rw [List.length_eq_zero_iff.mp hpadded]
        exact MTAesEncryptInplace_nil
      · have hwhole : ¬ archive.length ≤ 2 ^ 31 - 16 :=
          fun hle => h ⟨hshort, fun _ => ⟨hne, hle⟩⟩
        exact MTAesEncryptInplace_eq_none (by omega) (by omega)
    rw [hhash, encryptBody, if_pos hencrypted, hnone]
    rfl
  · rw [MTMurMurHash32_eq_none hlong (by omega)]
    rfl

/-- **An archive is got back exactly when it is storable.** -/
theorem roundTrip_iff (hlength : archive.length < 2 ^ 32 - 16) :
    keychain.RoundTrip cipher random archive ↔ keychain.Storable archive := by
  constructor
  · rintro ⟨file, hstore, -⟩
    by_contra hnot
    rw [storeKeychain_eq_none hlength hnot] at hstore
    exact absurd hstore nofun
  · rintro ⟨hshort, hwhole⟩
    obtain ⟨hash, hhash⟩ := MTMurMurHash32_isSome archive hshort
    obtain ⟨padding, heq, hpadded⟩ := padRandom_eq random archive
    cases hencrypted : keychain.encrypted with
    | false =>
        refine ⟨toLE 4 archive.length ++ padRandom random archive ++ toLE 4 hash.toNat, ?_, ?_⟩
        · rw [storeKeychain, hhash, encryptBody, hencrypted]
          rfl
        · refine loadKeychain_stored padding (by omega) hpadded ?_ hhash
          rw [decryptBody, hencrypted, heq]
          rfl
    | true =>
        obtain ⟨hne, hle⟩ := hwhole hencrypted
        have hpos := List.length_pos_iff.mpr hne
        obtain ⟨count, hcount⟩ : ∃ count, (padRandom random archive).length = 16 * (count + 1) :=
          ⟨(archive.length + 15) / 16 - 1, by omega⟩
        have hfits : (padRandom random archive).length < 2 ^ 31 := by omega
        obtain ⟨encrypted, hsome, hsame⟩ := MTAesEncryptInplace_isSome cipher
          keychain.aesKey keychain.aesIv hcount hfits
        refine ⟨toLE 4 archive.length ++ encrypted ++ toLE 4 hash.toNat, ?_, ?_⟩
        · rw [storeKeychain, hhash, encryptBody, if_pos hencrypted, hsome]
          rfl
        · refine loadKeychain_stored padding (by omega) (hsame.trans hpadded) ?_ hhash
          rw [decryptBody, if_pos hencrypted, MTAesDecrypt_encrypt hcount hfits hsome, heq]

/-! ### Any file -/

/-- What is decrypted is handed on as a prefix, where it is long enough. -/
theorem loadedInside_handed {body : List UInt8} {handed : Option (List UInt8)}
    (hload : keychain.loadKeychain cipher file = some handed)
    (hhanded : ∀ archive, handed = some archive → archive = setLength body (header file).toNat)
    (hbody : keychain.decryptBody cipher
      ((file.drop 4).take (paddedLength (header file)).toNat) = some body)
    (hle : (header file).toNat ≤ body.length) (hlength : body.length ≤ file.length) :
    keychain.LoadedInside cipher file := by
  refine ⟨handed, hload, fun archive harchive => ?_⟩
  obtain rfl := hhanded archive harchive
  refine ⟨by rw [length_setLength]; omega, body, hbody, ?_⟩
  rw [setLength_of_le hle]
  exact List.take_prefix _ _

/-- A file whose archive is longer than the file is not loaded inside, if it is handed on. -/
theorem not_loadedInside_handed (body : List UInt8)
    (hload : keychain.loadKeychain cipher file = some (some (setLength body (header file).toNat)))
    (hgt : file.length < (header file).toNat) : ¬ keychain.LoadedInside cipher file := by
  rintro ⟨handed, hsome, hinside⟩
  have hle := (hinside _ (Option.some.inj (hsome.symm.trans hload))).1
  rw [length_setLength] at hle
  omega

/-- A load that leaves a buffer is not inside. -/
theorem not_loadedInside_none (hload : keychain.loadKeychain cipher file = none) :
    ¬ keychain.LoadedInside cipher file := by
  rintro ⟨handed, hsome, -⟩
  exact absurd (hload.symm.trans hsome) nofun

/-- A length that is not rounded up to zero. -/
theorem loadedInside_iff_of_le (hle : (header file).toNat ≤ 2 ^ 32 - 16)
    (h : file.length = 4 + (paddedLength (header file)).toNat ∨
      file.length = 8 + (paddedLength (header file)).toNat) :
    keychain.LoadedInside cipher file ↔ keychain.Loadable file := by
  have hpadded := toNat_paddedLength_of_le hle
  have hlength := length_body h
  by_cases hlong : keychain.encrypted = true ∧ 2 ^ 31 ≤ (paddedLength (header file)).toNat
  · have hnone := decryptBody_eq_none cipher
      ((file.drop 4).take (paddedLength (header file)).toNat) hlong.1
      (by omega) (by omega)
    refine iff_of_false (not_loadedInside_none ?_) fun hloadable => ?_
    · rcases h with h4 | h8
      · rw [loadKeychain_bare h4, hnone, Option.map_none]
      · rw [loadKeychain_hashed h8, hnone, Option.bind_none]
    · exact absurd (hloadable.decrypted h hlong.1) (not_lt.mpr hlong.2)
  · have hshort : keychain.encrypted = true → (paddedLength (header file)).toNat < 2 ^ 31 :=
      fun hencrypted => not_le.mp fun hge => hlong ⟨hencrypted, hge⟩
    obtain ⟨body, hbody, hsame⟩ := decryptBody_isSome cipher keychain
      ((file.drop 4).take (paddedLength (header file)).toNat) (by omega)
      (fun hencrypted => by rw [hlength]; exact hshort hencrypted)
    have hset : (setLength body (header file).toNat).length = (header file).toNat :=
      length_setLength _ _
    rcases h with h4 | h8
    · refine iff_of_true ?_ ⟨fun _ => hshort, fun _ => hle, fun h8 => by omega⟩
      refine loadedInside_handed (by rw [loadKeychain_bare h4, hbody, Option.map_some])
        (fun archive heq => (Option.some.inj heq).symm) hbody (by omega) (by omega)
    · rcases Nat.lt_or_ge (header file).toNat (2 ^ 31) with hsmall | hbig
      · refine iff_of_true ?_ ⟨fun _ => hshort, fun h4 => by omega, fun _ => Or.inl hsmall⟩
        obtain ⟨hash, hhash⟩ := MTMurMurHash32_isSome
          (setLength body (header file).toNat) (by omega)
        refine loadedInside_handed
          (by rw [loadKeychain_hashed h8, hbody, Option.bind_some, verifyHash_of_some hhash])
          (fun archive heq => ?_) hbody (by omega) (by omega)
        split at heq
        · exact (Option.some.inj heq).symm
        · exact absurd heq nofun
      · refine iff_of_false (not_loadedInside_none ?_) fun hloadable => ?_
        · rw [loadKeychain_hashed h8, hbody, Option.bind_some, verifyHash_of_none]
          rw [hset]
          exact MTMurMurHash32_eq_none hbig (by omega)
        · rcases hloadable.verified h8 with hlt | ⟨hge, -⟩ <;> omega

/-- A length that is rounded up to zero, in a file of four or eight bytes. -/
theorem loadedInside_iff_of_gt (hgt : 2 ^ 32 - 16 < (header file).toNat)
    (h : file.length = 4 + (paddedLength (header file)).toNat ∨
      file.length = 8 + (paddedLength (header file)).toNat) :
    keychain.LoadedInside cipher file ↔ keychain.Loadable file := by
  have hlt := (header file).isLt
  have hpadded := toNat_paddedLength_of_gt hgt
  have hlength := length_body h
  rw [hpadded] at h
  obtain ⟨body, hbody, hsame⟩ := decryptBody_isSome cipher keychain
    ((file.drop 4).take (paddedLength (header file)).toNat) (by omega)
    (fun _ => by omega)
  have hempty : body = [] := List.length_eq_zero_iff.mp (by omega)
  have hset : setLength body (header file).toNat = List.replicate (header file).toNat 0 := by
    rw [hempty, setLength, List.take_nil, List.nil_append, List.length_nil, Nat.sub_zero]
  rcases h with h4 | h8
  · refine iff_of_false (not_loadedInside_handed body ?_ (by omega)) fun hloadable => ?_
    · rw [loadKeychain_bare (by omega), hbody, Option.map_some]
    · exact absurd (hloadable.unverified (by omega)) (not_le.mpr hgt)
  · have hload : keychain.loadKeychain cipher file =
        verifyHash file (List.replicate (header file).toNat 0) 4 := by
      rw [loadKeychain_hashed (by omega), hbody, Option.bind_some, hset, hpadded]
    have hzeros : (List.replicate (header file).toNat (0 : UInt8)).length =
        (header file).toNat := List.length_replicate
    have htail : (file.drop 4).take 4 = file.drop 4 :=
      List.take_of_length_le (by rw [List.length_drop]; omega)
    rcases Nat.lt_or_ge (header file).toNat (2 ^ 32 - 3) with hsmall | hbig
    · refine iff_of_false (not_loadedInside_none ?_) fun hloadable => ?_
      · rw [hload, verifyHash_of_none]
        rw [hzeros]
        exact MTMurMurHash32_eq_none (by omega) (by omega)
      · rcases hloadable.verified (by omega) with hlt | ⟨hge, -⟩ <;> omega
    · obtain ⟨hash, hhash⟩ := MTMurMurHash32_isSome_of_ge
        (List.replicate (header file).toNat 0) (by omega) (by omega)
      have hcompare : MTMurMurHash32 (List.replicate (header file).toNat 0) (header file) =
          some hash := by
        rw [← hhash, hzeros, BitVec.ofNat_toNat, BitVec.setWidth_eq]
      rw [verifyHash_of_some hhash, htail] at hload
      by_cases heq : BitVec.ofNat 32 (leNat (file.drop 4)) = hash
      · rw [if_pos heq, ← hset] at hload
        refine iff_of_false (not_loadedInside_handed body hload (by omega)) fun hloadable => ?_
        rcases hloadable.verified (by omega) with hlt | ⟨-, hne⟩
        · omega
        · exact hne (by rw [hcompare, heq])
      · rw [if_neg heq] at hload
        refine iff_of_true ⟨none, hload, fun archive harchive => absurd harchive nofun⟩
          ⟨fun _ _ => by omega, fun h4 => by omega, fun _ => Or.inr ⟨hbig, fun hsome => ?_⟩⟩
        exact heq (Option.some.inj (hcompare.symm.trans hsome)).symm

/-- **A file is loaded within its bounds exactly when it is loadable.** -/
theorem loadedInside_iff : keychain.LoadedInside cipher file ↔ keychain.Loadable file := by
  by_cases h : file.length = 4 + (paddedLength (header file)).toNat ∨
      file.length = 8 + (paddedLength (header file)).toNat
  · rcases Nat.lt_or_ge (2 ^ 32 - 16) (header file).toNat with hgt | hle
    · exact loadedInside_iff_of_gt hgt h
    · exact loadedInside_iff_of_le hle h
  · rw [not_or] at h
    refine iff_of_true ⟨none, loadKeychain_of_neither h.1 h.2, fun _ harchive => ?_⟩
      ⟨fun h' => absurd h' (not_or.mpr h), fun h4 => absurd h4 h.1, fun h8 => absurd h8 h.2⟩
    exact absurd harchive nofun

/-- **key result**: the archives that are got back, of those with a length below `2 ^ 32 - 16`, and
the files that are loaded within their bounds. -/
theorem loadedWhole_iff (cipher : BlockCipher) (keychain : MTFileBasedKeychain)
    (random : ℕ → UInt8) :
    (∀ archive, archive.length < 2 ^ 32 - 16 →
        (keychain.RoundTrip cipher random archive ↔ keychain.Storable archive)) ∧
      ∀ file, keychain.LoadedInside cipher file ↔ keychain.Loadable file :=
  ⟨fun _ hlength => roundTrip_iff hlength, fun _ => loadedInside_iff⟩

/-- A cipher that changes nothing. -/
def plainCipher : BlockCipher where
  encrypt _ block := block
  decrypt _ block := block
  decrypt_encrypt _ _ := rfl

/-- A keychain that is not encrypted. -/
def plainKeychain : MTFileBasedKeychain where
  encrypted := false
  aesKey := List.replicate 32 0
  aesIv := List.replicate 32 0
  length_aesKey := List.length_replicate
  length_aesIv := List.length_replicate

/-- Four bytes of ones stand for four gigabytes of zeros. -/
theorem not_loadedInside_ones :
    ¬ plainKeychain.LoadedInside plainCipher [0xff, 0xff, 0xff, 0xff] := by
  have hpadded : (paddedLength (header [0xff, 0xff, 0xff, 0xff])).toNat = 0 :=
    toNat_paddedLength_of_gt (by decide)
  refine not_loadedInside_handed [] ?_ (by decide)
  rw [loadKeychain_bare (by rw [hpadded]; rfl), hpadded]
  rfl

end MTFileBasedKeychain

end Telegraph.MtProto
