import Telegraph.Files.FileDownload

/-!
# The Content of a Downloaded File

What is on the server may be encrypted and padded. A part of it is decrypted with the initial vector
that the part before has left, and cut where the content ends; so what is written is the beginning
of the content, and the initial vector that is kept beside it is the one for what follows.

## Main results

* `alignLimit_le`: what is asked for is not more than a part.
* `Stored.length_tempFile`: how long a file that goes on is.
* `Stored.decryptPart`: **a part is decrypted as the piece of the content that it is.**
* `Stored.append`: what has been written goes on with the next part.
-/

open Bytes

namespace Telegraph.Files

namespace FileDownload

open MtProto (BlockCipher MTAesDecryptInplaceAndModifyIv MTAesDecryptInplaceAndModifyIv_eq
  igeDecryptBytes igeDecryptBytes_append length_igeDecryptBytes length_lastBlock exists_blocks
  lastBlock)

variable {Hash : Type} {cipher : BlockCipher} {encoded : List UInt8} {options : DownloadOptions}
  {d : FileDownload Hash}

/-! ### Limits -/

theorem le_alignLimit (rounds updatedLimit : ℕ) :
    updatedLimit ≤ alignLimit rounds updatedLimit := by
  induction rounds generalizing updatedLimit with
  | zero => exact le_rfl
  | succ rounds ih =>
      rw [alignLimit]
      split
      · exact (Nat.le_succ _).trans (ih _)
      · exact le_rfl

/-- A limit is not raised above one that would do. -/
theorem alignLimit_le {rounds updatedLimit limit : ℕ} (hle : updatedLimit ≤ limit)
    (hblocks : limit % 4096 = 0) (hmegabyte : 1048576 % limit = 0) :
    alignLimit rounds updatedLimit ≤ limit := by
  induction rounds generalizing updatedLimit with
  | zero => exact hle
  | succ rounds ih =>
      rw [alignLimit]
      split
      · next hodd =>
          refine ih (Nat.lt_of_le_of_ne hle ?_)
          rintro rfl
          rcases hodd with hodd | hodd
          · exact hodd hblocks
          · exact hodd hmegabyte
      · exact hle

/-! ### What a download is to write -/

/-- What a file on the server stands for. -/
def decode (cipher : BlockCipher) (options : DownloadOptions) (encoded : List UInt8) : List UInt8 :=
  match options.encryptionArgs with
  | none => encoded
  | some fileKey =>
      let content := igeDecryptBytes cipher fileKey.key fileKey.iv encoded
      if options.decryptedSize = 0 then content else content.take options.decryptedSize

/-- Options that fit a file on the server: its size is known, or it is not encrypted; an encrypted
one has whole blocks, and less than one of them is not of the content. -/
structure Fits (options : DownloadOptions) (encoded : List UInt8) : Prop where
  size : options.encryptedSize = encoded.length ∨
    options.encryptedSize = 0 ∧ options.encryptionArgs = none
  key : ∀ fileKey, options.encryptionArgs = some fileKey →
    fileKey.iv.length = 32 ∧ 16 ∣ encoded.length ∧
      (options.decryptedSize = 0 ∨ encoded.length < options.decryptedSize + 16)

/-- What is left of a download when it is cancelled: the beginning of the content, and an initial
vector for what follows. -/
structure Stored (cipher : BlockCipher) (options : DownloadOptions) (encoded : List UInt8)
    (d : FileDownload Hash) : Prop where
  sameOptions : d.options = options
  within : d.downloadedFileSize ≤ encoded.length
  aligned : preferredPartSize ∣ d.downloadedFileSize ∨ d.downloadedFileSize = encoded.length
  written : d.tempFile = (decode cipher options encoded).take d.downloadedFileSize
  plain : options.encryptionArgs = none → d.encryption = none
  running : ∀ fileKey, options.encryptionArgs = some fileKey →
    ∃ iv, d.encryption = some { fileKey with iv := iv } ∧ iv.length = 32 ∧
      (∀ more, igeDecryptBytes cipher fileKey.key fileKey.iv
          (encoded.take d.downloadedFileSize ++ more) =
        igeDecryptBytes cipher fileKey.key fileKey.iv (encoded.take d.downloadedFileSize) ++
          igeDecryptBytes cipher fileKey.key iv more) ∧
      (d.encryptionContext = [] ∧ iv = fileKey.iv ∨
        ∃ before, d.encryptionContext = before ++ iv)

theorem length_decode_le (hfits : Fits options encoded) :
    (decode cipher options encoded).length ≤ encoded.length := by
  rw [decode]
  split
  · exact le_rfl
  · next fileKey hkey =>
      obtain ⟨-, hblocks, -⟩ := hfits.key fileKey hkey
      dsimp only
      split
      · exact (length_igeDecryptBytes hblocks).le
      · rw [List.length_take, length_igeDecryptBytes hblocks]
        exact min_le_right _ _

/-- As far as a file that goes on has been written, its length is that of what is on the server. -/
theorem Stored.length_tempFile (hfits : Fits options encoded)
    (h : Stored cipher options encoded d) (haligned : preferredPartSize ∣ d.downloadedFileSize)
    (hmore : options.encryptionArgs = none ∨ d.downloadedFileSize < encoded.length ∨
      encoded.length = 0) :
    d.tempFile.length = d.downloadedFileSize := by
  have hwithin := h.within
  rw [h.written, List.length_take, Nat.min_eq_left]
  rw [decode]
  split
  · exact hwithin
  · next fileKey hkey =>
      obtain ⟨-, hblocks, hsize⟩ := hfits.key fileKey hkey
      have hoffset : 16 ∣ d.downloadedFileSize := Nat.dvd_trans (by decide) haligned
      have hlt : d.downloadedFileSize < encoded.length ∨ encoded.length = 0 := by
        rcases hmore with hnone | hmore
        · rw [hnone] at hkey
          cases hkey
        · exact hmore
      dsimp only
      split
      · rw [length_igeDecryptBytes hblocks]
        exact hwithin
      · next hne =>
          rw [List.length_take, length_igeDecryptBytes hblocks]
          omega

/-- The beginning of a decrypted text. -/
theorem take_igeDecryptBytes (key iv : List UInt8) {n : ℕ} (hn : 16 ∣ n)
    (hle : n ≤ encoded.length) :
    (igeDecryptBytes cipher key iv encoded).take n =
      igeDecryptBytes cipher key iv (encoded.take n) := by
  have hlength : (encoded.take n).length = n := List.length_take_of_le hle
  rcases Nat.eq_zero_or_pos n with rfl | hpos
  · rw [List.take_zero, List.take_zero]
    rfl
  · have hne : encoded.take n ≠ [] := List.ne_nil_of_length_pos (by omega)
    conv_lhs => rw [← List.take_append_drop n encoded,
      igeDecryptBytes_append (hlength.symm ▸ hn) hne]
    exact List.take_left' ((length_igeDecryptBytes (hlength.symm ▸ hn)).trans hlength)

section Decrypting

variable {data : List UInt8}

/-- A part of a file. -/
theorem take_add_length
    (hdata : data = (encoded.drop d.downloadedFileSize).take preferredPartSize) :
    encoded.take (d.downloadedFileSize + data.length) =
      encoded.take d.downloadedFileSize ++ data := by
  rw [List.take_add]
  congr 1
  conv_rhs => rw [hdata]
  rw [hdata, List.length_take, ← List.take_take, List.take_length]

/-- The parts of an encrypted file are whole blocks. -/
theorem Stored.blocks (h : Stored cipher options encoded d) (hblocks : 16 ∣ encoded.length)
    (hdata : data = (encoded.drop d.downloadedFileSize).take preferredPartSize) :
    16 ∣ d.downloadedFileSize ∧ 16 ∣ data.length := by
  have hoffset : 16 ∣ d.downloadedFileSize := by
    rcases h.aligned with haligned | hend
    · exact Nat.dvd_trans (by decide) haligned
    · rw [hend]
      exact hblocks
  refine ⟨hoffset, ?_⟩
  have hpart : 16 ∣ preferredPartSize := by decide
  rw [hdata, List.length_take, List.length_drop]
  omega

/-- **A part of an encrypted file is decrypted as the piece of the content that it is.** -/
theorem Stored.decryptPart (hfits : Fits options encoded) (h : Stored cipher options encoded d)
    (hdata : data = (encoded.drop d.downloadedFileSize).take preferredPartSize)
    {fileKey : FileKey} (hkey : options.encryptionArgs = some fileKey) :
    ∃ iv dataToWrite,
      FileDownload.decryptPart cipher d data =
          (dataToWrite, some { fileKey with iv := iv }) ∧
        iv.length = 32 ∧
        d.tempFile ++ dataToWrite =
          (decode cipher options encoded).take (d.downloadedFileSize + data.length) ∧
        (∀ more, igeDecryptBytes cipher fileKey.key fileKey.iv
            (encoded.take (d.downloadedFileSize + data.length) ++ more) =
          igeDecryptBytes cipher fileKey.key fileKey.iv
              (encoded.take (d.downloadedFileSize + data.length)) ++
            igeDecryptBytes cipher fileKey.key iv more) := by
  obtain ⟨-, hblocks, hsize⟩ := hfits.key fileKey hkey
  obtain ⟨iv, hencryption, hiv, hrunning, -⟩ := h.running fileKey hkey
  obtain ⟨hoffset, hwhole⟩ := h.blocks hblocks hdata
  have hwithin := h.within
  have hlt : data.length < 2 ^ 31 := by
    rw [hdata, List.length_take]
    exact (min_le_left _ _).trans_lt (by decide)
  have hend : d.downloadedFileSize + data.length ≤ encoded.length := by
    rw [hdata, List.length_take, List.length_drop]
    omega
  have htake := take_add_length hdata
  set piece := igeDecryptBytes cipher fileKey.key iv data with hpiece
  have hpieceLength : piece.length = data.length := length_igeDecryptBytes hwhole
  set whole := igeDecryptBytes cipher fileKey.key fileKey.iv encoded with hdecrypted
  have hwholeLength : whole.length = encoded.length := length_igeDecryptBytes hblocks
  have hstart : whole.take (d.downloadedFileSize + data.length) =
      whole.take d.downloadedFileSize ++ piece := by
    rw [take_igeDecryptBytes _ _ (Nat.dvd_add hoffset hwhole) hend,
      take_igeDecryptBytes _ _ hoffset hwithin, htake, hrunning]
  refine ⟨if data.length < 16 then iv else lastBlock data ++ lastBlock piece,
    if options.decryptedSize ≠ 0 ∧ options.decryptedSize ≥ d.downloadedFileSize ∧
        d.downloadedFileSize + piece.length > options.decryptedSize then
      piece.take (options.decryptedSize - d.downloadedFileSize) else piece, ?_, ?_, ?_, ?_⟩
  · rw [FileDownload.decryptPart, hencryption]
    dsimp only
    rw [if_pos (Nat.mod_eq_zero_of_dvd hwhole), MTAesDecryptInplaceAndModifyIv_eq hlt,
      h.sameOptions]
    dsimp only
    split
    · rfl
    · rfl
  · split
    · exact hiv
    · next hlong =>
        obtain ⟨count, hcount⟩ := exists_blocks hwhole (by rintro rfl; exact hlong (by decide))
        rw [List.length_append, length_lastBlock hcount,
          length_lastBlock (hpieceLength.trans hcount)]
  · rw [h.written, decode, hkey]
    dsimp only
    rcases Nat.eq_zero_or_pos options.decryptedSize with hzero | hpos
    · rw [if_pos hzero, if_neg (fun hcut => hcut.1 hzero), ← hdecrypted, hstart]
    · rw [if_neg hpos.ne', ← hdecrypted, List.take_take, List.take_take]
      split
      · next hcut =>
          have hbegun : (whole.take d.downloadedFileSize).length = d.downloadedFileSize :=
            List.length_take_of_le (by omega)
          have hle : options.decryptedSize ≤ d.downloadedFileSize + data.length := by omega
          rw [Nat.min_eq_left hcut.2.1, Nat.min_eq_right hle]
          calc whole.take d.downloadedFileSize ++
                piece.take (options.decryptedSize - d.downloadedFileSize)
              = (whole.take d.downloadedFileSize ++ piece).take options.decryptedSize := by
                rw [List.take_append, hbegun, List.take_of_length_le (hbegun.le.trans hcut.2.1)]
            _ = whole.take options.decryptedSize := by
                rw [← hstart, List.take_take, Nat.min_eq_left hle]
      · next hkept =>
          rcases Nat.lt_or_ge options.decryptedSize d.downloadedFileSize with hover | hunder
          · have hnil : piece = [] := List.length_eq_zero_iff.mp (by omega)
            rw [hnil, List.append_nil, Nat.min_eq_right hover.le, Nat.min_eq_right (by omega)]
          · rw [Nat.min_eq_left hunder, Nat.min_eq_left (by omega), hstart]
  · intro more
    rw [htake, List.append_assoc, hrunning, hrunning data, List.append_assoc]
    congr 1
    split
    · next hshort =>
        obtain rfl : data = [] := List.length_eq_zero_iff.mp (by omega)
        rfl
    · next hlong =>
        exact igeDecryptBytes_append hwhole (by rintro rfl; exact hlong (by decide)) more

/-- **What has been written goes on with the next part.** -/
theorem Stored.append (hfits : Fits options encoded) (h : Stored cipher options encoded d)
    (hdata : data = (encoded.drop d.downloadedFileSize).take preferredPartSize) :
    Stored cipher options encoded
      { d with
        encryption := (FileDownload.decryptPart cipher d data).2
        encryptionContext :=
          writeRunningIv d.encryptionContext (FileDownload.decryptPart cipher d data).2
        tempFile := d.tempFile ++ (FileDownload.decryptPart cipher d data).1
        downloadedFileSize := d.downloadedFileSize + data.length } := by
  have hwithin := h.within
  have hlength : data.length = min preferredPartSize (encoded.length - d.downloadedFileSize) := by
    rw [hdata, List.length_take, List.length_drop]
  constructor
  case sameOptions => exact h.sameOptions
  case within =>
    dsimp only
    omega
  case aligned =>
    dsimp only
    rcases h.aligned with haligned | hend
    · rcases Nat.le_total preferredPartSize (encoded.length - d.downloadedFileSize) with hle | hle
      · rw [hlength, Nat.min_eq_left hle]
        exact .inl (Nat.dvd_add haligned (Nat.dvd_refl _))
      · exact .inr (by omega)
    · exact .inr (by omega)
  case written =>
    dsimp only
    cases hkey : options.encryptionArgs with
    | none =>
        have hwritten := h.written
        rw [decode, hkey] at hwritten ⊢
        rw [FileDownload.decryptPart, h.plain hkey, hwritten]
        exact (take_add_length hdata).symm
    | some fileKey =>
        obtain ⟨iv, dataToWrite, heq, -, hwritten, -⟩ := h.decryptPart hfits hdata hkey
        rw [heq]
        exact hwritten
  case plain =>
    intro hkey
    dsimp only
    rw [FileDownload.decryptPart, h.plain hkey]
  case running =>
    intro fileKey hkey
    obtain ⟨iv, dataToWrite, heq, hiv, -, hrunning⟩ := h.decryptPart hfits hdata hkey
    dsimp only
    rw [heq]
    exact ⟨iv, rfl, hiv, hrunning, .inr ⟨d.encryptionContext, rfl⟩⟩

end Decrypting

end FileDownload

end Telegraph.Files
