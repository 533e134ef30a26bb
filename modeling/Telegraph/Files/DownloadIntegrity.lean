import Telegraph.Files.FileDownload

/-!
# Files from Another Server

The server that a download is sent on to may answer with any bytes. What is written is compared with
the checksums that the first server has given, so it is the file, as long as no bytes forge one of
them. This needs that the other server does not send the download on itself: the actor would take
its checksums, too.

## Main results

* `hashesAgree_prefix`: what data that agrees with true checksums is.
* `Intact.step`: **every step keeps a download intact.**
* `download_intact`: what is written is the file, in every run.
-/

open Bytes

namespace Telegraph.Files

namespace FileDownload

open MtProto (BlockCipher MTAesCtrDecrypt partIv)

variable {Hash : Type} {cipher : BlockCipher} {sha256 : List UInt8 → Hash}
  {content : List UInt8} {options : DownloadOptions} {d d' : FileDownload Hash}

/-! ### Checksums -/

/-- The checksum of the piece of a file at an offset. -/
def pieceHash (sha256 : List UInt8 → Hash) (content : List UInt8) (offset : ℕ) : Hash :=
  sha256 ((content.drop offset).take (128 * 1024))

/-- Checksums that are those of a file. -/
def Truthful (sha256 : List UInt8 → Hash) (content : List UInt8) (dict : Dictionary ℕ Hash) :
    Prop :=
  ∀ offset hash, dict.lookup offset = some hash → hash = pieceHash sha256 content offset

/-- True checksums are added. -/
theorem Truthful.addHashes {dict : Dictionary ℕ Hash} {hashes : List (ℕ × Hash)}
    (h : Truthful sha256 content dict)
    (hhashes : ∀ nHash ∈ hashes, nHash.2 = pieceHash sha256 content nHash.1) :
    Truthful sha256 content (FileDownload.addHashes dict hashes) := by
  induction hashes generalizing dict with
  | nil => exact h
  | cons nHash hashes ih =>
      refine ih ?_ fun other hother => hhashes other (List.mem_cons_of_mem _ hother)
      intro offset hash hlookup
      rw [Dictionary.lookup_insert_ite] at hlookup
      split at hlookup
      · next heq =>
          rw [heq, ← Option.some.inj hlookup]
          exact hhashes nHash List.mem_cons_self
      · exact h offset hash hlookup

/-- No checksums are true. -/
theorem truthful_empty : Truthful sha256 content ∅ := by
  intro offset hash hlookup
  rw [AList.lookup_empty] at hlookup
  cases hlookup

/-- Data in which no piece has the checksum of another piece of the file. -/
def Unforged (sha256 : List UInt8 → Hash) (content data : List UInt8) : Prop :=
  ∀ piece offset, piece <:+: data → sha256 piece = pieceHash sha256 content offset →
    piece = (content.drop offset).take (128 * 1024)

/-! ### What holds of a download -/

/-- What is known of another server: how long its key and its initial vector are. -/
def WellFormed (fileData : CdnFileData) : Prop :=
  fileData.encryptionIv.length = 16 ∧ fileData.encryptionKey.length = 32

/-- A download of a file that is not encrypted: what it has written is the beginning of the file,
and so is what it has kept of each part, or it has the checksums for it. -/
structure Intact (sha256 : List UInt8 → Hash) (content : List UInt8) (options : DownloadOptions)
    (d : FileDownload Hash) : Prop where
  sameOptions : d.options = options
  encryption : d.encryption = none
  length : d.downloadedFileSize = d.tempFile.length
  written : d.tempFile <+: content
  size : options.encryptedSize ≠ 0 → d.size = options.encryptedSize
  parts : ∀ offset partInfo data, d.downloadingParts.lookup offset = some partInfo →
    partInfo.downloadedData = some data →
      data <+: content.drop offset ∨ d.cdnFilePartHashes ≠ none ∧ Unforged sha256 content data
  hashes : ∀ dict, d.cdnFilePartHashes = some dict → Truthful sha256 content dict
  awaited : ∀ fileData dict, d.awaitedHashes = some (fileData, dict) →
    WellFormed fileData ∧ Truthful sha256 content dict
  cdn : ∀ fileData, d.cdnFileData = some fileData →
    WellFormed fileData ∧ d.cdnFilePartHashes ≠ none
  requests : ∀ request ∈ d.requests, request.isCdn = true → d.cdnFileData ≠ none
  inBounds : d.result ≠ some .outOfBounds
  completed : ∀ bytes, d.result = some (.completed bytes) →
    bytes = d.tempFile ∧ (options.encryptedSize ≠ 0 → options.encryptedSize ≤ bytes.length)

/-- Asking for parts keeps a download intact. -/
theorem Intact.asked (h : Intact sha256 content options d) (hasked : Asked d d')
    (hresult : d'.result = d.result ∨ d'.result = some (.completed d.tempFile) ∧ d.size ≠ 0 ∧
      d.size ≤ d.downloadedFileSize) :
    Intact sha256 content options d' := by
  have hsame := hasked.same
  have htemp : d'.tempFile = d.tempFile := by rw [hsame]
  have hcdn : d'.cdnFileData = d.cdnFileData := by rw [hsame]
  have hhashes : d'.cdnFilePartHashes = d.cdnFilePartHashes := by rw [hsame]
  constructor
  case sameOptions => exact (congrArg FileDownload.options hsame).trans h.sameOptions
  case encryption => exact (congrArg FileDownload.encryption hsame).trans h.encryption
  case length =>
    rw [htemp]
    exact (congrArg FileDownload.downloadedFileSize hsame).trans h.length
  case written => exact htemp ▸ h.written
  case size => exact fun hne => (congrArg FileDownload.size hsame).trans (h.size hne)
  case parts =>
    intro offset partInfo data hlookup hdata
    obtain ⟨partInfo', hlookup', hdata'⟩ := hasked.data offset partInfo data hlookup hdata
    rw [hhashes]
    exact h.parts offset partInfo' data hlookup' hdata'
  case hashes => exact fun dict hdict => h.hashes dict (hhashes ▸ hdict)
  case awaited =>
    intro fileData dict hawaited
    have hkept : d'.awaitedHashes = d.awaitedHashes := by rw [hsame]
    exact h.awaited fileData dict (hkept ▸ hawaited)
  case cdn =>
    intro fileData hfileData
    rw [hhashes]
    exact h.cdn fileData (hcdn ▸ hfileData)
  case requests =>
    intro request hrequest hisCdn
    rw [hcdn]
    rcases hasked.requests request hrequest with hold | hnew
    · exact h.requests request hold hisCdn
    · intro hnone
      rw [hisCdn, hnone] at hnew
      cases hnew
  case inBounds =>
    rcases hresult with hresult | ⟨hresult, -⟩
    · rw [hresult]
      exact h.inBounds
    · rw [hresult]
      rintro ⟨⟩
  case completed =>
    intro bytes hbytes
    rcases hresult with hresult | ⟨hresult, -, hle⟩
    · rw [htemp]
      exact h.completed bytes (hresult ▸ hbytes)
    · rw [hresult] at hbytes
      cases hbytes
      refine ⟨htemp.symm, fun hne => ?_⟩
      rw [← h.size hne, ← h.length]
      exact hle

/-- `downloadFileParts` keeps a download intact. -/
theorem Intact.downloadFileParts (h : Intact sha256 content options d) :
    Intact sha256 content options d.downloadFileParts :=
  h.asked (asked_downloadFileParts d).1 (asked_downloadFileParts d).2

/-- A part that is to be asked for again. -/
theorem Intact.setRestart (h : Intact sha256 content options d) (offset : ℕ) :
    Intact sha256 content options (d.setRestart offset) := by
  refine h.asked ?_ ?_
  · rw [FileDownload.setRestart]
    split
    · exact Asked.refl d
    · next partInfo hfound =>
        refine ⟨rfl, ?_, fun _ => .inl⟩
        intro other partInfo' data hlookup hdata
        rw [Dictionary.lookup_insert_ite] at hlookup
        split at hlookup
        · next heq =>
            obtain rfl := Option.some.inj hlookup
            exact ⟨partInfo, heq ▸ hfound, hdata⟩
        · exact ⟨partInfo', hlookup, hdata⟩
  · rw [FileDownload.setRestart]
    split
    · exact .inl rfl
    · exact .inl rfl

/-- True checksums, and another server for them. -/
theorem Intact.switchToCdnWithFileData (h : Intact sha256 content options d)
    {fileData : CdnFileData} {dict : Dictionary ℕ Hash} (hfileData : WellFormed fileData)
    (hdict : Truthful sha256 content dict) :
    Intact sha256 content options (d.switchToCdnWithFileData fileData dict) := by
  rw [FileDownload.switchToCdnWithFileData]
  split
  · refine { h with awaited := ?_ }
    intro other dict' hawaited
    cases hawaited
    exact ⟨hfileData, hdict⟩
  · have hparts : ∀ offset partInfo data, d.downloadingParts.lookup offset = some partInfo →
        partInfo.downloadedData = some data → data <+: content.drop offset ∨
          some dict ≠ none ∧ Unforged sha256 content data := by
      intro offset partInfo data hlookup hdata
      rcases h.parts offset partInfo data hlookup hdata with hpiece | ⟨-, hunforged⟩
      · exact .inl hpiece
      · exact .inr ⟨Option.some_ne_none _, hunforged⟩
    rw [FileDownload.switchToCdn]
    split
    · next hsome =>
        refine { h with parts := ?_, hashes := ?_, cdn := ?_ }
        · exact hparts
        · intro dict' hsame
          cases hsame
          exact hdict
        · exact fun other hother => ⟨(h.cdn other hother).1, Option.some_ne_none _⟩
    · refine { h with parts := ?_, hashes := ?_, cdn := ?_, requests := ?_ }
      · exact hparts
      · intro dict' hsame
        cases hsame
        exact hdict
      · intro other hother
        cases hother
        exact ⟨hfileData, Option.some_ne_none _⟩
      · exact fun _ _ _ => Option.some_ne_none _

section Writing

variable [DecidableEq Hash]

/-- **Data that agrees with true checksums is a piece of the file**, as far as it goes. -/
theorem hashesAgree_prefix {dict : Dictionary ℕ Hash} (hdict : Truthful sha256 content dict)
    (base : ℕ) {data : List UInt8} (hunforged : Unforged sha256 content data)
    {rounds localOffset : ℕ}
    (h : hashesAgree sha256 dict base data rounds localOffset = true)
    (hrounds : data.length < localOffset + rounds) :
    data.drop localOffset <+: content.drop (base + localOffset) := by
  induction rounds generalizing localOffset with
  | zero =>
      rw [List.drop_of_length_le (by omega)]
      exact List.nil_prefix
  | succ rounds ih =>
      rw [hashesAgree] at h
      split at h
      · next hend =>
          rw [List.drop_of_length_le hend]
          exact List.nil_prefix
      · obtain ⟨hlookup, hrest⟩ : dict.lookup (base + localOffset) = some
              (if base + localOffset + 128 * 1024 > data.length then
                sha256 (data.drop localOffset)
              else sha256 ((data.drop localOffset).take (128 * 1024))) ∧
            hashesAgree sha256 dict base data rounds (localOffset + 128 * 1024) = true := by
          dsimp only at h
          rwa [Bool.if_false_right, Bool.and_eq_true, decide_eq_true_iff] at h
        have hpiece := hdict _ _ hlookup
        rw [pieceHash] at hpiece
        split at hpiece
        · rw [hunforged _ _ (List.drop_suffix _ _).isInfix hpiece]
          exact List.take_prefix _ _
        · have hrest' := ih hrest (by omega)
          have hfirst : (data.drop localOffset).take (128 * 1024) =
              (content.drop (base + localOffset)).take (128 * 1024) :=
            hunforged _ _ ((List.take_prefix _ _).isInfix.trans (List.drop_suffix _ _).isInfix)
              hpiece
          rw [← List.drop_drop, ← Nat.add_assoc, ← List.drop_drop] at hrest'
          rw [← List.take_append_drop (128 * 1024) (data.drop localOffset), hfirst]
          conv_rhs => rw [← List.take_append_drop (128 * 1024)
            (content.drop (base + localOffset))]
          exact (List.prefix_append_right_inj _).mpr hrest'

/-- **A part that is written keeps a download intact.** -/
theorem Intact.commitPart (h : Intact sha256 content options d) (hresult : d.result = none)
    {partInfo : FilePartInfo} {data : List UInt8}
    (hlookup : d.downloadingParts.lookup d.downloadedFileSize = some partInfo)
    (hdata : partInfo.downloadedData = some data) :
    Intact sha256 content options (FileDownload.commitPart cipher sha256 d partInfo data) := by
  have hdecrypt : decryptPart cipher d data = (data, none) := by rw [decryptPart, h.encryption]
  rw [FileDownload.commitPart, hdecrypt]
  dsimp only
  split
  · next hagree =>
      have hpiece : data <+: content.drop d.downloadedFileSize := by
        rcases h.parts _ partInfo data hlookup hdata with hpiece | ⟨hsome, hunforged⟩
        · exact hpiece
        · obtain ⟨dict, hhashes⟩ := Option.ne_none_iff_exists'.mp hsome
          rw [hhashes] at hagree
          exact hashesAgree_prefix (h.hashes dict hhashes) _ hunforged hagree (by omega)
      have hwritten : d.tempFile ++ data <+: content := by
        obtain ⟨rest, hrest⟩ := h.written
        rw [h.length, ← hrest, List.drop_left] at hpiece
        rw [← hrest]
        exact (List.prefix_append_right_inj _).mpr hpiece
      refine { h with encryption := rfl, length := ?_, written := hwritten, parts := ?_,
                      completed := ?_ }
      · dsimp only
        rw [List.length_append, h.length]
      · intro offset partInfo' data' hlookup' hdata'
        dsimp only at hlookup'
        rw [Dictionary.lookup_erase_ite] at hlookup'
        split at hlookup'
        · cases hlookup'
        · exact h.parts offset partInfo' data' hlookup' hdata'
      · intro bytes hbytes
        rw [show d.result = _ from hbytes] at hresult
        cases hresult
  · refine { h with encryption := rfl, inBounds := ?_, completed := ?_ }
    · rintro ⟨⟩
    · rintro bytes ⟨⟩

/-- **Data of a part keeps a download intact**, if it is a piece of the file, or the download has
checksums for it. -/
theorem Intact.filePartDownloadSuccess (h : Intact sha256 content options d)
    (hresult : d.result = none) (offset length : ℕ) {data : List UInt8}
    (hdata : data <+: content.drop offset ∨
      d.cdnFilePartHashes ≠ none ∧ Unforged sha256 content data) :
    Intact sha256 content options
      (FileDownload.filePartDownloadSuccess cipher sha256 d offset length data) := by
  obtain ⟨size, hsized, hsize⟩ : ∃ size,
      (if d.size = 0 ∧ data.length < length then
        { d with size := d.downloadedFileSize + data.length }
      else d) = { d with size := size } ∧
      (options.encryptedSize ≠ 0 → size = options.encryptedSize) := by
    split
    · next hunknown =>
        exact ⟨_, rfl, fun hne => absurd ((h.size hne).symm.trans hunknown.1) hne⟩
    · exact ⟨d.size, rfl, h.size⟩
  rw [FileDownload.filePartDownloadSuccess, hsized]
  dsimp only
  split
  · refine { h with size := hsize, inBounds := ?_, completed := ?_ }
    · rintro ⟨⟩
    · rintro bytes ⟨⟩
  · next partInfo hfound =>
      have hstored : Intact sha256 content options
          { d with
            size := size
            downloadingParts :=
              d.downloadingParts.insert offset { partInfo with downloadedData := some data } } := by
        refine { h with size := hsize, parts := ?_ }
        intro other partInfo' data' hlookup hdata'
        dsimp only at hlookup
        rw [Dictionary.lookup_insert_ite] at hlookup
        split at hlookup
        · next heq =>
            obtain rfl := Option.some.inj hlookup
            obtain rfl := Option.some.inj hdata'
            rw [heq]
            exact hdata
        · exact h.parts other partInfo' data' hlookup hdata'
      have hcommitted : ∀ offsets rounds, Intact sha256 content options
          (commitRounds cipher sha256 offsets rounds
            { d with
              size := size
              downloadingParts :=
                d.downloadingParts.insert offset
                  { partInfo with downloadedData := some data } }) :=
        fun offsets rounds => commitRounds_induct
          (fun _ _ _ hd hnone hlookup hkept => hd.commitPart hnone hlookup hkept)
          offsets rounds hstored hresult
      split
      · exact (hcommitted _ _).downloadFileParts
      · exact hcommitted _ _

/-! ### Every step -/

/-- What the servers answer to a request: the first one has pieces of the file, and the key and true
checksums of another server. The other one may answer with anything, but has no bytes that forge a
piece of the file and does not send the download on. -/
def FaithfulReply (cipher : BlockCipher) (sha256 : List UInt8 → Hash) (content : List UInt8)
    (d : FileDownload Hash) (request : GetFile) : DownloadReply Hash → Prop
  | .file bytes =>
      if request.isCdn then Unforged sha256 content bytes
      else bytes <+: content.drop request.offset
  | .fileCdnRedirect fileData cdnFileHashes =>
      request.isCdn = false ∧ WellFormed fileData ∧
        ∀ nHash ∈ cdnFileHashes, nHash.2 = pieceHash sha256 content nHash.1
  | .cdnFile bytes =>
      request.isCdn = true ∧ ∀ fileData, d.cdnFileData = some fileData →
        Unforged sha256 content (MTAesCtrDecrypt cipher bytes fileData.encryptionKey
          (partIv fileData.encryptionIv request.offset))
  | _ => True

/-- What the servers answer, and that checksums come from the first one. -/
def Faithful (cipher : BlockCipher) (sha256 : List UInt8 → Hash) (content : List UInt8)
    (d : FileDownload Hash) : DownloadEvent Hash → Prop
  | .answer place reply =>
      ∀ request, d.requests[place]? = some request →
        FaithfulReply cipher sha256 content d request reply
  | .partHashes hashes => ∀ nHash ∈ hashes, nHash.2 = pieceHash sha256 content nHash.1
  | _ => True

omit [DecidableEq Hash] in
/-- A download that begins with a piece of the file is intact. -/
theorem intact_execute (hargs : options.encryptionArgs = none) {tempFile : List UInt8}
    (hwritten : tempFile <+: content) (encryptionContext : List UInt8) :
    Intact sha256 content options
      (execute options tempFile encryptionContext : FileDownload Hash) := by
  constructor
  case sameOptions => rfl
  case encryption => rw [execute, hargs]; rfl
  case length => rfl
  case written =>
    rw [execute]
    dsimp only
    split
    · exact List.nil_prefix
    · exact hwritten
  case size => exact fun _ => rfl
  case parts =>
    intro offset partInfo data hlookup
    rw [execute, AList.lookup_empty] at hlookup
    cases hlookup
  case hashes => rintro dict ⟨⟩
  case awaited => rintro fileData dict ⟨⟩
  case cdn => rintro fileData ⟨⟩
  case requests => rintro request ⟨⟩
  case inBounds => rintro ⟨⟩
  case completed => rintro bytes ⟨⟩

omit [DecidableEq Hash] in
/-- A failure keeps a download intact. -/
theorem Intact.filePartDownloadFailed (h : Intact sha256 content options d) :
    Intact sha256 content options d.filePartDownloadFailed := by
  refine { h with parts := ?_, requests := ?_, inBounds := ?_, completed := ?_ }
  · intro offset partInfo data hlookup
    rw [FileDownload.filePartDownloadFailed, AList.lookup_empty] at hlookup
    cases hlookup
  · rintro request ⟨⟩
  · rintro ⟨⟩
  · rintro bytes ⟨⟩

/-- **An answer keeps a download intact.** -/
theorem Intact.completed_reply (h : Intact sha256 content options d) (hresult : d.result = none)
    {request : GetFile} (hrequest : request.isCdn = true → d.cdnFileData ≠ none)
    {reply : DownloadReply Hash}
    (hreply : FaithfulReply cipher sha256 content d request reply) :
    Intact sha256 content options (FileDownload.completed cipher sha256 d request reply) := by
  have hchecked : request.isCdn = true → d.cdnFilePartHashes ≠ none := by
    intro hisCdn
    obtain ⟨fileData, hfileData⟩ := Option.ne_none_iff_exists'.mp (hrequest hisCdn)
    exact (h.cdn fileData hfileData).2
  cases reply with
  | file bytes =>
      refine h.filePartDownloadSuccess hresult _ _ ?_
      rw [FaithfulReply] at hreply
      split at hreply
      · next hisCdn => exact .inr ⟨hchecked hisCdn, hreply⟩
      · exact .inl hreply
  | fileCdnRedirect fileData cdnFileHashes =>
      obtain ⟨-, hfileData, hhashes⟩ := hreply
      exact (h.setRestart _).switchToCdnWithFileData hfileData (truthful_empty.addHashes hhashes)
  | cdnFile bytes =>
      obtain ⟨hisCdn, hunforged⟩ := hreply
      obtain ⟨fileData, hfileData⟩ := Option.ne_none_iff_exists'.mp (hrequest hisCdn)
      obtain ⟨⟨hiv, hkey⟩, -⟩ := h.cdn fileData hfileData
      rw [FileDownload.completed, hfileData]
      dsimp only
      rw [if_neg (by omega)]
      exact h.filePartDownloadSuccess hresult _ _
        (.inr ⟨hchecked hisCdn, hunforged fileData hfileData⟩)
  | cdnFileReuploadNeeded => exact { h.setRestart request.offset with }
  | other => exact h
  | error => exact h.filePartDownloadFailed

/-- **Every step keeps a download intact.** -/
theorem Intact.step (hargs : options.encryptionArgs = none)
    (h : Intact sha256 content options d) {event : DownloadEvent Hash}
    (hevent : Faithful cipher sha256 content d event) :
    Intact sha256 content options (FileDownload.step cipher sha256 d event) := by
  rw [FileDownload.step.eq_def]
  split
  · exact h
  · rw [h.sameOptions]
    exact intact_execute hargs h.written _
  · exact h
  · exact Intact.downloadFileParts { h with }
  · exact h.downloadFileParts
  · next place reply hresult =>
      split
      · exact h
      · next request hrequest =>
          have hmem := List.mem_of_getElem? hrequest
          have htaken : Intact sha256 content options
              { d with requests := d.requests.eraseIdx place } :=
            { h with
              requests := fun other hother =>
                h.requests other (List.mem_of_mem_eraseIdx hother) }
          exact htaken.completed_reply hresult (h.requests request hmem) (hevent request hrequest)
  · split
    · exact h
    · next fileData dict hawaited =>
        obtain ⟨hfileData, hdict⟩ := h.awaited fileData dict hawaited
        have hasked : Intact sha256 content options { d with awaitedHashes := none } :=
          { h with awaited := by rintro other dict' ⟨⟩ }
        exact hasked.switchToCdnWithFileData hfileData (hdict.addHashes hevent)
  · split
    · exact Intact.downloadFileParts { h with }
    · exact h

/-- **What a download writes is the file**, in every run, whatever the other server answers: what
has been written is the beginning of the file, and a download that completes has got the whole of a
file of the size that it has been told. -/
theorem download_intact (cipher : BlockCipher) (content : List UInt8)
    (hargs : options.encryptionArgs = none) {events : List (DownloadEvent Hash)}
    (hevents : Machine.AllSteps (FileDownload.step cipher sha256)
      (Faithful cipher sha256 content) (execute options [] []) events) :
    let d := Machine.run (FileDownload.step cipher sha256) (execute options [] []) events
    d.tempFile <+: content ∧ d.result ≠ some .outOfBounds ∧
      ∀ bytes, d.result = some (.completed bytes) →
        bytes <+: content ∧ (options.encryptedSize = content.length → bytes = content) := by
  intro d
  have h : Intact sha256 content options d :=
    (Machine.always_of_allSteps (fun _ _ hd hevent => hd.step hargs hevent)
      (intact_execute hargs List.nil_prefix []) hevents).last
  refine ⟨h.written, h.inBounds, ?_⟩
  intro bytes hbytes
  obtain ⟨rfl, hlength⟩ := h.completed bytes hbytes
  refine ⟨h.written, fun hsize => h.written.eq_of_length_le ?_⟩
  by_cases hzero : options.encryptedSize = 0
  · rw [← hsize, hzero]
    exact Nat.zero_le _
  · rw [← hsize]
    exact hlength hzero

end Writing

/-- The key of another server. -/
def zeroFileData : CdnFileData := ⟨List.replicate 32 0, List.replicate 16 0⟩

/-- A download that is sent on to another server. -/
def sentOn : List (DownloadEvent (List UInt8)) :=
  [.workerReady, .answer 0 (.fileCdnRedirect zeroFileData [(0, [1, 2, 3])]), .workerReady,
    .answer 0 (.cdnFile [254, 253, 252])]

/-- Three bytes come from another server, and their checksum from the first one. -/
theorem download_intact_sentOn :
    let d := Machine.run (step MtProto.complementCipher id) (execute ⟨0, 0, none⟩ [] []) sentOn
    d.tempFile <+: [1, 2, 3] ∧ d.result ≠ some .outOfBounds ∧
      ∀ bytes, d.result = some (.completed bytes) →
        bytes <+: [1, 2, 3] ∧ ((0 : ℕ) = [1, 2, 3].length → bytes = [1, 2, 3]) := by
  refine download_intact MtProto.complementCipher [1, 2, 3] rfl ⟨trivial, ?_, trivial, ?_, trivial⟩
  · rintro request hrequest
    obtain rfl : ⟨0, 131072, 131072, false⟩ = request := Option.some.inj hrequest
    refine ⟨rfl, ⟨rfl, rfl⟩, ?_⟩
    rintro nHash hnHash
    rw [List.mem_singleton.mp hnHash]
    rfl
  · rintro request hrequest
    obtain rfl : ⟨0, 131072, 131072, true⟩ = request := Option.some.inj hrequest
    exact ⟨rfl, fun _ _ _ _ _ hsame => hsame⟩

/-- The other server must not send the download on: its own checksums would be taken, and a file of
its own with them. -/
example :
    (Machine.run (step MtProto.complementCipher id) (execute ⟨0, 0, none⟩ [] [])
      [.workerReady, .answer 0 (.fileCdnRedirect zeroFileData [(0, [1, 2, 3])]), .workerReady,
        .answer 0 (.fileCdnRedirect zeroFileData [(0, [9])]), .answer 0 (.cdnFile []),
        .answer 0 (.cdnFile [246])]).result = some (.completed [9]) := by
  decide +kernel

end FileDownload

end Telegraph.Files
