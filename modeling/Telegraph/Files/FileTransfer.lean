import Telegraph.Files.DownloadOrder

/-!
# Files from End to End

One client uploads a file, encrypted or not, and another one downloads it from what the server has
got. Neither the order of the answers nor failures of the download matter.

## Main results

* `decode_encode`: what is encrypted and padded is got back.
* `transfer_sound`: **what is downloaded is what has been uploaded.**
-/

open Bytes

namespace Telegraph.Files

open MtProto (BlockCipher igeDecryptBytes_igeEncryptBytes length_igeEncryptBytes)
open FileUpload (encode padBlocks dvd_length_padBlocks)
open FileDownload (decode Fits)

variable {cipher : BlockCipher} {encryption : Option FileKey} {content : List UInt8}

/-- The options for what has been uploaded: the sizes of what the server has got and of the
content, and the key. -/
def downloadOptions (cipher : BlockCipher) (encryption : Option FileKey) (content : List UInt8) :
    DownloadOptions where
  encryptedSize := (encode cipher encryption content).length
  decryptedSize := content.length
  encryptionArgs := encryption

theorem length_padBlocks_lt (content : List UInt8) :
    (padBlocks content).length < content.length + 16 := by
  rw [padBlocks, List.length_append, List.length_replicate]
  omega

/-- **What is encrypted and padded is got back.** -/
theorem decode_encode (cipher : BlockCipher) (encryption : Option FileKey) (content : List UInt8) :
    decode cipher (downloadOptions cipher encryption content) (encode cipher encryption content) =
      content := by
  cases encryption with
  | none => rfl
  | some fileKey =>
      rw [decode, downloadOptions, encode]
      dsimp only
      rw [igeDecryptBytes_igeEncryptBytes (dvd_length_padBlocks content)]
      split
      · next hzero =>
          rw [List.length_eq_zero_iff.mp hzero]
          rfl
      · rw [padBlocks, List.take_left]

/-- The options fit what the server has got. -/
theorem fits_downloadOptions (hkey : ∀ fileKey, encryption = some fileKey →
    fileKey.iv.length = 32) :
    Fits (downloadOptions cipher encryption content) (encode cipher encryption content) := by
  refine ⟨.inl rfl, ?_⟩
  rintro fileKey hfileKey
  obtain rfl : encryption = some fileKey := hfileKey
  rw [encode, length_igeEncryptBytes (dvd_length_padBlocks content)]
  exact ⟨hkey fileKey rfl, dvd_length_padBlocks content, .inr (length_padBlocks_lt content)⟩

variable {Hash : Type} [DecidableEq Hash] {sha256 : List UInt8 → Hash}

/-- **What is downloaded is what has been uploaded**: when an upload has completed, every run of a
download of what the server has got writes the beginning of the content, and completes with the
content. -/
theorem transfer_sound (isFile : Bool) (hkey : ∀ fileKey, encryption = some fileKey →
      fileKey.iv.length = 32) (hlength : content.length < 2 ^ 31)
    (answers : List FileUpload.Answer) {parts : ℕ} {md5 : List UInt8}
    (hcompleted : (Machine.run (FileUpload.step cipher)
      (FileUpload.begin cipher isFile encryption content) answers).result =
        some (.completed parts md5))
    {events : List (DownloadEvent Hash)}
    (hevents : Machine.AllSteps (FileDownload.step cipher sha256)
      (FileDownload.Serves ((Machine.run (FileUpload.step cipher)
        (FileUpload.begin cipher isFile encryption content) answers).requests.flatMap
          SaveFilePart.bytes))
      (FileDownload.execute (downloadOptions cipher encryption content) [] []) events) :
    let d := Machine.run (FileDownload.step cipher sha256)
      (FileDownload.execute (downloadOptions cipher encryption content) [] []) events
    d.tempFile <+: content ∧ FileDownload.StandsWell content d := by
  intro d
  have hstands := (FileUpload.inRun_run cipher isFile encryption hlength answers).standsWell.2
  rw [FileUpload.StandsWell, hcompleted] at hstands
  rw [hstands.2.2.1] at hevents
  obtain ⟨hwritten, -, hends⟩ :=
    (FileDownload.inRun_run (fits_downloadOptions hkey) hevents).standsWell
  rw [decode_encode] at hwritten hends
  exact ⟨hwritten, hends⟩

/-- Three bytes go there and back. -/
theorem transfer_sound_three :
    let d := Machine.run (FileDownload.step MtProto.complementCipher (id : List UInt8 → List UInt8))
      (FileDownload.execute (downloadOptions MtProto.complementCipher none [1, 2, 3]) [] [])
      [.workerReady, .answer 0 (.file [1, 2, 3])]
    d.tempFile <+: [1, 2, 3] ∧ FileDownload.StandsWell [1, 2, 3] d := by
  refine transfer_sound true (fun _ hnone => by cases hnone) (by decide)
    [⟨0, true⟩] rfl ⟨trivial, ?_, trivial⟩
  intro request hrequest
  have hsent : (FileDownload.step MtProto.complementCipher (id : List UInt8 → List UInt8)
      (FileDownload.execute (downloadOptions MtProto.complementCipher none [1, 2, 3]) [] [])
      .workerReady).requests = [⟨0, 3, 4096, false⟩] := by
    decide +kernel
  rw [hsent] at hrequest
  obtain rfl : ⟨0, 3, 4096, false⟩ = request := Option.some.inj hrequest
  rfl

end Telegraph.Files
