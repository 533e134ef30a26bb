import Telegraph.Files.FileUpload
import Telegraph.Lib.Dictionary
import Telegraph.MtProto.AesCtr
import Mathlib.Data.List.Sort

/-!
# The Download of a File

`TGMultipartFileDownloadActor` asks for a file part by part, up to four parts at a time, and writes
them in the order of the file: a part that arrives early is kept until those before it have been
written. What has been written stays when the actor is cancelled, and the next one goes on from
there; of an encrypted file the initial vectors are kept beside it. The server may send the actor
on to another one, whose parts are compared with checksums that the first one has given.

This module holds the actor; what it does is in `Files.DownloadIntegrity` and
`Files.DownloadOrder`.

## Main results

* `asked_downloadFileParts`: **what asking for parts changes.**
* `commitRounds_induct`: what the loops over the parts keep, if the writing of one part keeps it.
-/

open Bytes

namespace Telegraph.Files

open MtProto (BlockCipher MTAesDecryptInplaceAndModifyIv MTAesCtrDecrypt partIv)

/-- `preferredPartSize`. -/
def preferredPartSize : ℕ := 128 * 1024

/-- `TGFilePartInfo`. -/
structure FilePartInfo where
  partOffset : ℕ
  partLength : ℕ
  downloadedData : Option (List UInt8)
  restart : Bool
deriving DecidableEq

/-- `TGFilePartRequestInfo`. -/
structure FilePartRequestInfo where
  offset : ℕ
  length : ℕ
deriving DecidableEq

/-- `TGCdnFileData`. -/
structure CdnFileData where
  encryptionKey : List UInt8
  encryptionIv : List UInt8
deriving DecidableEq

/-- An `upload_getFile` or, where `isCdn`, an `upload_getCdnFile` that is not answered. -/
structure GetFile where
  offset : ℕ
  length : ℕ
  limit : ℕ
  isCdn : Bool
deriving DecidableEq

/-- How a download ends: with the bytes of the file, with a failure, or by leaving a buffer. -/
inductive DownloadResult where
  | completed (content : List UInt8)
  | failed
  | outOfBounds
deriving DecidableEq

/-- The `options` of `execute:`. -/
structure DownloadOptions where
  encryptedSize : ℕ
  decryptedSize : ℕ
  encryptionArgs : Option FileKey
deriving DecidableEq

/-- A `TGMultipartFileDownloadActor`, the file with the parts that it has written, the file with
the initial vectors beside it, the requests that are not answered, and how it has ended. -/
structure FileDownload (Hash : Type) where
  options : DownloadOptions
  size : ℕ
  encryption : Option FileKey
  downloadedFileSize : ℕ
  downloadingParts : Dictionary ℕ FilePartInfo
  explicitDownloadParts : List FilePartRequestInfo
  hasWorker : Bool
  cdnFileData : Option CdnFileData
  cdnFilePartHashes : Option (Dictionary ℕ Hash)
  awaitedHashes : Option (CdnFileData × Dictionary ℕ Hash)
  isReuploading : Bool
  tempFile : List UInt8
  encryptionContext : List UInt8
  requests : List GetFile
  result : Option DownloadResult

/-- An answer to a request. -/
inductive DownloadReply (Hash : Type) where
  | file (bytes : List UInt8)
  | fileCdnRedirect (fileData : CdnFileData) (cdnFileHashes : List (ℕ × Hash))
  | cdnFile (bytes : List UInt8)
  | cdnFileReuploadNeeded
  | other
  | error

/-- What happens to a download: one of its workers is there, one of its requests is answered,
checksums that it has asked for arrive, a file has been uploaded again, or it is cancelled and
another one is started for the same file. -/
inductive DownloadEvent (Hash : Type) where
  | workerReady
  | additionalWorker
  | answer (place : ℕ) (reply : DownloadReply Hash)
  | partHashes (hashes : List (ℕ × Hash))
  | reuploaded
  | restart

namespace FileDownload

variable {Hash : Type}

/-! ### Requests -/

/-- `while (updatedLimit % 4096 != 0 || 1048576 % updatedLimit != 0) updatedLimit++`, for so many
rounds. -/
def alignLimit : ℕ → ℕ → ℕ
  | 0, updatedLimit => updatedLimit
  | rounds + 1, updatedLimit =>
      if updatedLimit % 4096 ≠ 0 ∨ 1048576 % updatedLimit ≠ 0 then
        alignLimit rounds (updatedLimit + 1)
      else updatedLimit

/-- One of the `requestList` is sent. -/
def sendRequest (d : FileDownload Hash) (requestInfo : FilePartRequestInfo) : FileDownload Hash :=
  { d with
    requests := d.requests ++ [⟨requestInfo.offset, requestInfo.length,
      alignLimit 1048576 requestInfo.length, d.cdnFileData.isSome⟩] }

/-- A part is asked for from now on. -/
def insertPart (d : FileDownload Hash) (requestInfo : FilePartRequestInfo) : FileDownload Hash :=
  { d with
    downloadingParts := d.downloadingParts.insert requestInfo.offset
      ⟨requestInfo.offset, requestInfo.length, none, false⟩ }

/-- The parts that are to be asked for again. -/
def restartedParts (d : FileDownload Hash) : List FilePartRequestInfo :=
  (d.downloadingParts.entries.filter fun entry => entry.2.restart).map fun entry =>
    ⟨entry.2.partOffset, entry.2.partLength⟩

/-- The parts are no longer to be asked for again. -/
def clearRestarts (d : FileDownload Hash) : FileDownload Hash :=
  { d with
    downloadingParts :=
      Dictionary.mapValues (fun partInfo => { partInfo with restart := false })
        d.downloadingParts }

/-- `nextDownloadOffset`. -/
def nextDownloadOffset (d : FileDownload Hash) : ℕ :=
  d.downloadingParts.entries.foldl (fun next entry => max next (entry.1 + entry.2.partLength))
    d.downloadedFileSize

/-- The loop that fills the `requestList`, for so many rounds. -/
def requestParts : ℕ → FileDownload Hash → List FilePartRequestInfo →
    FileDownload Hash × List FilePartRequestInfo
  | 0, d, requestList => (d, requestList)
  | rounds + 1, d, requestList =>
      match d.explicitDownloadParts with
      | explicitPartRequest :: explicitDownloadParts =>
          requestParts rounds
            ({ d with explicitDownloadParts := explicitDownloadParts }.insertPart
              explicitPartRequest)
            (requestList ++ [explicitPartRequest])
      | [] =>
          let nextDownloadOffset := d.nextDownloadOffset
          let requestList := requestList ++ d.restartedParts
          let d := d.clearRestarts
          if d.size ≠ 0 ∧ nextDownloadOffset ≥ d.size then (d, requestList)
          else
            let partLength :=
              if d.size = 0 then preferredPartSize
              else min preferredPartSize (d.size - d.downloadedFileSize)
            requestParts rounds (d.insertPart ⟨nextDownloadOffset, partLength⟩)
              (requestList ++ [⟨nextDownloadOffset, partLength⟩])

/-- `activeDownloadingParts`. -/
def activeDownloadingParts (d : FileDownload Hash) : ℕ :=
  d.downloadingParts.entries.countP fun entry =>
    entry.2.downloadedData.isNone && !entry.2.restart

/-- `downloadFileParts`. -/
def downloadFileParts (d : FileDownload Hash) : FileDownload Hash :=
  if d.hasWorker = false then d
  else if d.size ≠ 0 ∧ d.downloadedFileSize ≥ d.size then
    { d with result := some (.completed d.tempFile) }
  else
    let (d, requestList) := requestParts
      ((if d.size ≠ 0 then 4 else 1) - d.activeDownloadingParts) d []
    requestList.foldl sendRequest d

/-! ### What asking for parts changes -/

/-- What a download is after it has asked for parts: it has got no data, and its new requests go to
the server that is the present one. -/
structure Asked (d d' : FileDownload Hash) : Prop where
  same : d' = { d with
    downloadingParts := d'.downloadingParts
    explicitDownloadParts := d'.explicitDownloadParts
    requests := d'.requests
    result := d'.result }
  data : ∀ offset partInfo data, d'.downloadingParts.lookup offset = some partInfo →
    partInfo.downloadedData = some data →
      ∃ partInfo', d.downloadingParts.lookup offset = some partInfo' ∧
        partInfo'.downloadedData = some data
  requests : ∀ request ∈ d'.requests,
    request ∈ d.requests ∨ request.isCdn = d.cdnFileData.isSome

section Asking

variable {d d' d'' : FileDownload Hash}

theorem Asked.refl (d : FileDownload Hash) : Asked d d :=
  ⟨rfl, fun _ partInfo _ hlookup hdata => ⟨partInfo, hlookup, hdata⟩, fun _ => .inl⟩

theorem Asked.trans (h : Asked d d') (h' : Asked d' d'') : Asked d d'' := by
  refine ⟨?_, ?_, ?_⟩
  · have hsame := h'.same
    rw [h.same] at hsame
    exact hsame
  · intro offset partInfo data hlookup hdata
    obtain ⟨partInfo', hlookup', hdata'⟩ := h'.data offset partInfo data hlookup hdata
    exact h.data offset partInfo' data hlookup' hdata'
  · intro request hrequest
    rcases h'.requests request hrequest with hold | hnew
    · exact h.requests request hold
    · rw [h.same] at hnew
      exact .inr hnew

/-- A part is asked for. -/
theorem asked_insertPart (d : FileDownload Hash) (requestInfo : FilePartRequestInfo) :
    Asked d (d.insertPart requestInfo) := by
  refine ⟨rfl, ?_, fun _ => .inl⟩
  intro offset partInfo data hlookup hdata
  rw [insertPart, Dictionary.lookup_insert_ite] at hlookup
  split at hlookup
  · obtain rfl := Option.some.inj hlookup
    cases hdata
  · exact ⟨partInfo, hlookup, hdata⟩

/-- The restarts are cleared. -/
theorem asked_clearRestarts (d : FileDownload Hash) : Asked d d.clearRestarts := by
  refine ⟨rfl, ?_, fun _ => .inl⟩
  intro offset partInfo data hlookup hdata
  rw [clearRestarts, Dictionary.lookup_mapValues, Option.map_eq_some_iff] at hlookup
  obtain ⟨partInfo', hlookup, rfl⟩ := hlookup
  exact ⟨partInfo', hlookup, hdata⟩

/-- The loop asks for parts. -/
theorem asked_requestParts (rounds : ℕ) (d : FileDownload Hash)
    (requestList : List FilePartRequestInfo) : Asked d (requestParts rounds d requestList).1 := by
  induction rounds generalizing d requestList with
  | zero => exact Asked.refl d
  | succ rounds ih =>
      rw [requestParts]
      split
      · next explicitPartRequest explicitDownloadParts _ =>
          have htaken : Asked d { d with explicitDownloadParts := explicitDownloadParts } :=
            ⟨rfl, fun _ partInfo _ hlookup hdata => ⟨partInfo, hlookup, hdata⟩, fun _ => .inl⟩
          exact (htaken.trans (asked_insertPart _ _)).trans (ih _ _)
      · dsimp only
        split
        · exact asked_clearRestarts d
        · exact ((asked_clearRestarts d).trans (asked_insertPart _ _)).trans (ih _ _)

/-- Requests are sent. -/
theorem asked_sendRequest (requestList : List FilePartRequestInfo) (d : FileDownload Hash) :
    Asked d (requestList.foldl sendRequest d) := by
  induction requestList generalizing d with
  | nil => exact Asked.refl d
  | cons requestInfo requestList ih =>
      have hone : Asked d (d.sendRequest requestInfo) := by
        refine ⟨rfl, fun _ partInfo _ hlookup hdata => ⟨partInfo, hlookup, hdata⟩, ?_⟩
        intro request hrequest
        rcases List.mem_append.mp hrequest with hold | hnew
        · exact .inl hold
        · rw [List.mem_singleton.mp hnew]
          exact .inr rfl
      exact hone.trans (ih _)

/-- **`downloadFileParts` asks for parts**, or completes a download that has got all of them. -/
theorem asked_downloadFileParts (d : FileDownload Hash) :
    Asked d d.downloadFileParts ∧
      (d.downloadFileParts.result = d.result ∨
        d.downloadFileParts.result = some (.completed d.tempFile) ∧ d.size ≠ 0 ∧
          d.size ≤ d.downloadedFileSize) := by
  rw [downloadFileParts]
  split
  · exact ⟨Asked.refl d, .inl rfl⟩
  · split
    · next hcomplete =>
        refine ⟨⟨rfl, ?_, fun _ => .inl⟩, .inr ⟨rfl, hcomplete.1, hcomplete.2⟩⟩
        exact fun _ partInfo _ hlookup hdata => ⟨partInfo, hlookup, hdata⟩
    · dsimp only
      refine ⟨(asked_requestParts _ d []).trans (asked_sendRequest _ _), .inl ?_⟩
      have hresult : ∀ (requestList : List FilePartRequestInfo) (d : FileDownload Hash),
          (requestList.foldl sendRequest d).result = d.result := by
        intro requestList
        induction requestList with
        | nil => exact fun _ => rfl
        | cons requestInfo requestList ih => exact fun d => ih (d.sendRequest requestInfo)
      have hparts : ∀ (rounds : ℕ) (d : FileDownload Hash)
          (requestList : List FilePartRequestInfo),
          (requestParts rounds d requestList).1.result = d.result := by
        intro rounds
        induction rounds with
        | zero => exact fun _ _ => rfl
        | succ rounds ih =>
            intro d requestList
            rw [requestParts]
            split
            · exact ih _ _
            · dsimp only
              split
              · rfl
              · exact ih _ _
      rw [hresult, hparts]

end Asking

/-! ### Parts -/

variable (cipher : BlockCipher) (sha256 : List UInt8 → Hash) [DecidableEq Hash]

/-- The loop that compares the data of a part with the checksums, from a local offset on, for so
many rounds. -/
def hashesAgree (cdnFilePartHashes : Dictionary ℕ Hash) (basePartOffset : ℕ)
    (dataToWrite : List UInt8) : ℕ → ℕ → Bool
  | 0, _ => true
  | rounds + 1, localOffset =>
      if dataToWrite.length ≤ localOffset then true
      else
        let partOffset := basePartOffset + localOffset
        let localHash :=
          if partOffset + 128 * 1024 > dataToWrite.length then
            sha256 (dataToWrite.drop localOffset)
          else sha256 ((dataToWrite.drop localOffset).take (128 * 1024))
        if cdnFilePartHashes.lookup partOffset = some localHash then
          hashesAgree cdnFilePartHashes basePartOffset dataToWrite rounds
            (localOffset + 128 * 1024)
        else false

/-- What is written of the data of a part, and the key for the next one. -/
def decryptPart (d : FileDownload Hash) (data : List UInt8) : List UInt8 × Option FileKey :=
  match d.encryption with
  | none => (data, none)
  | some fileKey =>
      let (decryptedData, fileKey) :=
        if data.length % 16 = 0 then
          match MTAesDecryptInplaceAndModifyIv cipher data fileKey.key fileKey.iv with
          | some (decryptedData, iv) => (decryptedData, { fileKey with iv := iv })
          | none => (data, fileKey)
        else (data, fileKey)
      let decryptedSize := d.options.decryptedSize
      if decryptedSize ≠ 0 ∧ decryptedSize ≥ d.downloadedFileSize ∧
          d.downloadedFileSize + decryptedData.length > decryptedSize then
        (decryptedData.take (decryptedSize - d.downloadedFileSize), some fileKey)
      else (decryptedData, some fileKey)

/-- `writeData:_runningEncryptionIv`: the vector goes to the end of the file beside the download. -/
def writeRunningIv (encryptionContext : List UInt8) : Option FileKey → List UInt8
  | none => encryptionContext
  | some fileKey => encryptionContext ++ fileKey.iv

/-- A part at the end of the file is written: `nextWriteOffset` is always `_downloadedFileSize`. -/
def commitPart (d : FileDownload Hash) (listPartInfo : FilePartInfo) (data : List UInt8) :
    FileDownload Hash :=
  let (dataToWrite, encryption) := decryptPart cipher d data
  let nOffset := d.downloadedFileSize
  let d :=
    { d with
      encryption := encryption
      encryptionContext := writeRunningIv d.encryptionContext encryption }
  if (match d.cdnFilePartHashes with
      | none => true
      | some hashes =>
          hashesAgree sha256 hashes nOffset dataToWrite (dataToWrite.length + 1) 0) then
    let downloadedFileSize := d.downloadedFileSize + data.length
    { d with
      tempFile := d.tempFile ++ dataToWrite
      downloadedFileSize := downloadedFileSize
      explicitDownloadParts :=
        if d.size ≠ 0 ∧ data.length < listPartInfo.partLength ∧
            downloadedFileSize + data.length < d.size then
          d.explicitDownloadParts ++
            [⟨downloadedFileSize, listPartInfo.partLength - data.length⟩]
        else d.explicitDownloadParts
      downloadingParts := d.downloadingParts.erase nOffset }
  else { d with result := some .failed }

/-- The `for` over the sorted parts; whether it has written one. -/
def commitPass : List ℕ → Bool → FileDownload Hash → Bool × FileDownload Hash
  | [], hadCommit, d => (hadCommit, d)
  | nOffset :: sortedDownloadingParts, hadCommit, d =>
      if nOffset = d.downloadedFileSize then
        match d.downloadingParts.lookup nOffset with
        | some ⟨partOffset, partLength, some data, restart⟩ =>
            let d := commitPart cipher sha256 d ⟨partOffset, partLength, some data, restart⟩ data
            if d.result = none then commitPass sortedDownloadingParts true d else (true, d)
        | _ => (hadCommit, d)
      else commitPass sortedDownloadingParts hadCommit d

/-- The `while (true)` around it, for so many rounds. -/
def commitRounds (sortedDownloadingParts : List ℕ) : ℕ → FileDownload Hash → FileDownload Hash
  | 0, d => d
  | rounds + 1, d =>
      match commitPass cipher sha256 sortedDownloadingParts false d with
      | (true, d) =>
          if d.result = none then commitRounds sortedDownloadingParts rounds d else d
      | (false, d) => d

/-- `filePartDownloadSuccess:offset:length:data:`. -/
def filePartDownloadSuccess (d : FileDownload Hash) (offset length : ℕ) (data : List UInt8) :
    FileDownload Hash :=
  let d :=
    if d.size = 0 ∧ data.length < length then
      { d with size := d.downloadedFileSize + data.length }
    else d
  match d.downloadingParts.lookup offset with
  | none => { d with result := some .failed }
  | some partInfo =>
      let d :=
        { d with
          downloadingParts :=
            d.downloadingParts.insert offset { partInfo with downloadedData := some data } }
      let sortedDownloadingParts := d.downloadingParts.keys.insertionSort (· ≤ ·)
      let d := commitRounds cipher sha256 sortedDownloadingParts
        (sortedDownloadingParts.length + 1) d
      if d.result = none then downloadFileParts d else d

/-! ### Another server -/

/-- `switchToCdn:`. -/
def switchToCdn (d : FileDownload Hash) (fileData : CdnFileData) : FileDownload Hash :=
  if d.cdnFileData.isSome then d
  else { d with cdnFileData := some fileData, hasWorker := false }

/-- The hashes of a list in a dictionary. -/
def addHashes (dict : Dictionary ℕ Hash) (hashes : List (ℕ × Hash)) : Dictionary ℕ Hash :=
  hashes.foldl (fun dict nHash => dict.insert nHash.1 nHash.2) dict

/-- `switchToCdnWithFileData:partHashes:`. -/
def switchToCdnWithFileData (d : FileDownload Hash) (fileData : CdnFileData)
    (dict : Dictionary ℕ Hash) : FileDownload Hash :=
  let maxOffset := dict.keys.foldl (fun maxOffset nOffset => max maxOffset (nOffset + 128 * 1024)) 0
  if maxOffset < d.size then { d with awaitedHashes := some (fileData, dict) }
  else { d with cdnFilePartHashes := some dict }.switchToCdn fileData

/-- The part at an offset is to be asked for again. -/
def setRestart (d : FileDownload Hash) (offset : ℕ) : FileDownload Hash :=
  match d.downloadingParts.lookup offset with
  | none => d
  | some partInfo =>
      { d with
        downloadingParts := d.downloadingParts.insert offset { partInfo with restart := true } }

/-- `reuploadToCdn:`. -/
def reuploadToCdn (d : FileDownload Hash) : FileDownload Hash := { d with isReuploading := true }

/-! ### The actor -/

/-- `filePartDownloadFailed:offset:length:`. -/
def filePartDownloadFailed (d : FileDownload Hash) : FileDownload Hash :=
  { d with downloadingParts := ∅, requests := [], result := some .failed }

/-- A request is answered. The key and the initial vector of another server are read as 32 and 16
bytes. -/
def completed (d : FileDownload Hash) (request : GetFile) : DownloadReply Hash → FileDownload Hash
  | .file bytes => filePartDownloadSuccess cipher sha256 d request.offset request.length bytes
  | .fileCdnRedirect fileData cdnFileHashes =>
      (d.setRestart request.offset).switchToCdnWithFileData fileData (addHashes ∅ cdnFileHashes)
  | .cdnFile bytes =>
      match d.cdnFileData with
      | none => { d with result := some .outOfBounds }
      | some fileData =>
          if fileData.encryptionIv.length < 16 ∨ fileData.encryptionKey.length < 32 then
            { d with result := some .outOfBounds }
          else
            filePartDownloadSuccess cipher sha256 d request.offset request.length
              (MTAesCtrDecrypt cipher bytes fileData.encryptionKey
                (partIv fileData.encryptionIv request.offset))
  | .cdnFileReuploadNeeded => (d.setRestart request.offset).reuploadToCdn
  | .other => d
  | .error => d.filePartDownloadFailed

/-- `execute:`, with what is there of the file and of the initial vectors: a file of a length that
cannot be is begun again, the initial vectors are kept. -/
def execute (options : DownloadOptions) (tempFile encryptionContext : List UInt8) :
    FileDownload Hash :=
  let tempFile :=
    if tempFile.length % 1024 ≠ 0 ∧ tempFile.length ≠ options.decryptedSize ∧
        options.decryptedSize ≠ 0 then []
    else tempFile
  { options := options
    size := options.encryptedSize
    encryption := (options.encryptionArgs.filter fun fileKey => fileKey.iv ≠ []).map fun fileKey =>
      if encryptionContext.length ≥ fileKey.iv.length then
        { fileKey with iv := encryptionContext.drop (encryptionContext.length - fileKey.iv.length) }
      else fileKey
    downloadedFileSize := tempFile.length
    downloadingParts := ∅
    explicitDownloadParts := []
    hasWorker := false
    cdnFileData := none
    cdnFilePartHashes := none
    awaitedHashes := none
    isReuploading := false
    tempFile := tempFile
    encryptionContext := encryptionContext
    requests := []
    result := none }

/-- A download goes on. Once it has ended, only a new one can go on; a completed one is not
started again. -/
def step (d : FileDownload Hash) (event : DownloadEvent Hash) : FileDownload Hash :=
  match event, d.result with
  | .restart, some (.completed _) => d
  | .restart, _ => execute d.options d.tempFile d.encryptionContext
  | _, some _ => d
  | .workerReady, none => { d with hasWorker := true }.downloadFileParts
  | .additionalWorker, none => d.downloadFileParts
  | .answer place reply, none =>
      match d.requests[place]? with
      | none => d
      | some request =>
          completed cipher sha256 { d with requests := d.requests.eraseIdx place } request reply
  | .partHashes hashes, none =>
      match d.awaitedHashes with
      | none => d
      | some (fileData, dict) =>
          { d with awaitedHashes := none }.switchToCdnWithFileData fileData
            (addHashes dict hashes)
  | .reuploaded, none =>
      if d.isReuploading then { d with isReuploading := false }.downloadFileParts else d

/-! ### What writing parts changes -/

variable {cipher sha256}
variable {d : FileDownload Hash}

/-- What holds of a download that has not ended and the writing of a part keeps, holds after a
pass. -/
theorem commitPass_induct {I : FileDownload Hash → Prop}
    (hcommit : ∀ d partInfo data, I d → d.result = none →
      d.downloadingParts.lookup d.downloadedFileSize = some partInfo →
      partInfo.downloadedData = some data → I (commitPart cipher sha256 d partInfo data))
    (offsets : List ℕ) (hadCommit : Bool) (hd : I d) (hresult : d.result = none) :
    I (commitPass cipher sha256 offsets hadCommit d).2 := by
  induction offsets generalizing hadCommit d with
  | nil => exact hd
  | cons nOffset offsets ih =>
      rw [commitPass]
      split
      · next hoffset =>
          split
          · next partOffset partLength data restart hlookup =>
              have hnext := hcommit d _ data hd hresult (hoffset ▸ hlookup) rfl
              dsimp only
              split
              · next hgoes => exact ih true hnext hgoes
              · exact hnext
          · exact hd
      · exact ih hadCommit hd hresult

/-- And it holds after all passes. -/
theorem commitRounds_induct {I : FileDownload Hash → Prop}
    (hcommit : ∀ d partInfo data, I d → d.result = none →
      d.downloadingParts.lookup d.downloadedFileSize = some partInfo →
      partInfo.downloadedData = some data → I (commitPart cipher sha256 d partInfo data))
    (offsets : List ℕ) (rounds : ℕ) (hd : I d) (hresult : d.result = none) :
    I (commitRounds cipher sha256 offsets rounds d) := by
  induction rounds generalizing d with
  | zero => exact hd
  | succ rounds ih =>
      have hpass := commitPass_induct hcommit offsets false hd hresult
      rw [commitRounds]
      split
      · next d' heq =>
          rw [heq] at hpass
          split
          · next hgoes => exact ih hpass hgoes
          · exact hpass
      · next d' heq =>
          rw [heq] at hpass
          exact hpass

end FileDownload

end Telegraph.Files
