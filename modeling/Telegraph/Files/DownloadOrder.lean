import Telegraph.Files.DownloadRow

/-!
# Files Part by Part

The parts of a file may arrive in any order. They are written in theirs, each of them once; a
download that has failed or has been cancelled is gone on with at the place that it had reached,
and with the initial vector that it had. Here the parts come from the one server that has the file.

## Main results

* `Kept.goesOn`: a download is gone on with.
* `InRun.step`: **every step keeps a download in order.**
* `download_order`: **every run writes the beginning of the file, and completes with the file.**
-/

open Bytes

namespace Telegraph.Files

namespace FileDownload

open MtProto (BlockCipher)

variable {Hash : Type} {cipher : BlockCipher} {sha256 : List UInt8 → Hash} {encoded : List UInt8}
  {options : DownloadOptions} {d : FileDownload Hash} {asked : List ℕ} {count : ℕ}

/-! ### What holds of a download -/

/-- What the next download can go on from. -/
structure Kept (cipher : BlockCipher) (options : DownloadOptions) (encoded : List UInt8)
    (d : FileDownload Hash) : Prop where
  stored : Stored cipher options encoded d
  aligned : preferredPartSize ∣ d.downloadedFileSize
  length : d.tempFile.length = d.downloadedFileSize
  more : options.encryptedSize ≠ 0 → d.downloadedFileSize < options.encryptedSize

/-- A download that goes on: once it has a worker, it has asked for the part that is to be written
next. -/
structure Going (cipher : BlockCipher) (options : DownloadOptions) (encoded : List UInt8)
    (d : FileDownload Hash) : Prop where
  stored : Stored cipher options encoded d
  result : d.result = none
  more : d.size ≠ 0 → d.downloadedFileSize < d.size
  ordered : ∃ count, Ordered options encoded [] count d ∧ (d.hasWorker = true ↔ 0 < count)
  waits : Waits d
  few : d.requests.length ≤ 4

/-- A download goes on, has completed with the content of the file, or has failed. -/
def InRun (cipher : BlockCipher) (options : DownloadOptions) (encoded : List UInt8)
    (d : FileDownload Hash) : Prop :=
  Going cipher options encoded d ∨
    (d.result = some (.completed (decode cipher options encoded)) ∧
      d.tempFile = decode cipher options encoded ∧ d.requests.length ≤ 4) ∨
    (d.result = some .failed ∧ Kept cipher options encoded d ∧ d.requests = [])

/-- A download that goes on can be gone on with. -/
theorem Going.kept (hfits : Fits options encoded) (h : Going cipher options encoded d) :
    Kept cipher options encoded d := by
  obtain ⟨count, hordered, -⟩ := h.ordered
  have haligned : preferredPartSize ∣ d.downloadedFileSize := by
    by_cases hzero : d.size = 0
    · exact (hordered.unknown hzero).2
    · rcases h.stored.aligned with haligned | hend
      · exact haligned
      · have hlt := h.more hzero
        rcases hordered.size with hsize | ⟨hzero', -⟩
        · omega
        · exact absurd hzero' hzero
  refine ⟨h.stored, haligned, h.stored.length_tempFile hfits haligned ?_, ?_⟩
  · rcases hfits.size with hsize | ⟨-, hnone⟩
    · have hsame : d.size = encoded.length := by
        rcases hordered.size with hsame | ⟨hzero, hzero'⟩
        · exact hsame
        · rw [hzero, ← hsize, hzero']
      by_cases hzero : d.size = 0
      · exact .inr (.inr (hsame ▸ hzero))
      · exact .inr (.inl (hsame ▸ h.more hzero))
    · exact .inl hnone
  · intro hne
    have hsize := hfits.size.resolve_right fun hzero => hne hzero.1
    rcases hordered.size with hsame | ⟨-, hzero⟩
    · rw [hsize, ← hsame]
      exact h.more (by rw [hsame, ← hsize]; exact hne)
    · exact absurd hzero hne

/-- **A download is gone on with at the place that it had reached.** -/
theorem Kept.goesOn (hfits : Fits options encoded) (h : Kept cipher options encoded d) :
    Going cipher options encoded
      (execute options d.tempFile d.encryptionContext : FileDownload Hash) := by
  have hthousand : d.tempFile.length % 1024 = 0 := by
    rw [h.length]
    exact Nat.mod_eq_zero_of_dvd (Nat.dvd_trans (by decide) h.aligned)
  have heq : (execute options d.tempFile d.encryptionContext : FileDownload Hash).tempFile =
      d.tempFile := by
    rw [FileDownload.execute]
    exact if_neg fun hreset => hreset.1 hthousand
  have hwritten : (execute options d.tempFile d.encryptionContext :
      FileDownload Hash).downloadedFileSize = d.downloadedFileSize :=
    (congrArg List.length heq).trans h.length
  have hstored : Stored cipher options encoded
      (execute options d.tempFile d.encryptionContext : FileDownload Hash) := by
    constructor
    case sameOptions => rfl
    case within => exact hwritten ▸ h.stored.within
    case aligned => exact .inl (hwritten ▸ h.aligned)
    case written => rw [heq, hwritten, h.stored.written]
    case plain =>
      intro hnone
      rw [FileDownload.execute, hnone]
      rfl
    case running =>
      intro fileKey hkey
      obtain ⟨hlength, -, -⟩ := hfits.key fileKey hkey
      obtain ⟨iv, -, hiv, hrunning, hcontext⟩ := h.stored.running fileKey hkey
      refine ⟨iv, ?_, hiv, hwritten ▸ hrunning, hcontext⟩
      have hne : fileKey.iv ≠ [] := List.ne_nil_of_length_pos (by omega)
      have hkept : (some fileKey).filter (fun fileKey => fileKey.iv ≠ []) = some fileKey :=
        Option.filter_some_pos (decide_eq_true hne)
      rw [FileDownload.execute, hkey, hkept, Option.map_some]
      rcases hcontext with ⟨hnil, rfl⟩ | ⟨before, hbefore⟩
      · rw [hnil, List.length_nil, if_neg (by omega)]
      · rw [hbefore, List.length_append, if_pos (by omega), hlength, hiv, Nat.add_sub_cancel,
          List.drop_left]
  refine ⟨hstored, rfl, ?_, ⟨0, ?_, ?_⟩, ?_, Nat.zero_le _⟩
  · intro hne
    rw [hwritten]
    exact h.more hne
  · constructor
    case size =>
      rcases hfits.size with hsize | ⟨hzero, -⟩
      · exact .inl hsize
      · exact .inr ⟨hzero, hzero⟩
    case unknown => exact fun _ => ⟨Nat.zero_le _, hwritten ▸ h.aligned⟩
    case oneServer => exact ⟨rfl, rfl, rfl, rfl⟩
    case noGaps => rfl
    case keys =>
      intro offset
      constructor
      · exact fun hmem => absurd hmem (AList.notMem_empty _)
      · rintro ⟨place, hplace, -⟩
        exact absurd hplace (Nat.not_lt_zero _)
    case inFile => exact fun hmore => absurd hmore (by decide)
    case part =>
      intro offset partInfo hlookup
      rw [FileDownload.execute, AList.lookup_empty] at hlookup
      cases hlookup
    case unanswered =>
      intro offset
      constructor
      · exact fun hmem => absurd hmem List.not_mem_nil
      · rintro ⟨partInfo, hlookup, -⟩
        rw [FileDownload.execute, AList.lookup_empty] at hlookup
        cases hlookup
    case nodup => exact List.nodup_nil
    case request => exact fun request hrequest => absurd hrequest List.not_mem_nil
  · exact ⟨fun hworker => absurd hworker Bool.false_ne_true, fun hpos => absurd hpos (by decide)⟩
  · intro partInfo hlookup
    rw [FileDownload.execute, AList.lookup_empty] at hlookup
    cases hlookup

/-- A download that begins has nothing to go on from. -/
theorem kept_execute (hfits : Fits options encoded) :
    Kept cipher options encoded (execute options [] [] : FileDownload Hash) := by
  have hempty : (execute options [] [] : FileDownload Hash).downloadedFileSize = 0 := rfl
  refine ⟨⟨rfl, Nat.zero_le _, .inl (Nat.dvd_zero _), (List.take_zero).symm, ?_, ?_⟩,
    Nat.dvd_zero _, rfl, fun hne => Nat.pos_of_ne_zero hne⟩
  · intro hnone
    rw [FileDownload.execute, hnone]
    rfl
  · intro fileKey hkey
    obtain ⟨hiv, -, -⟩ := hfits.key fileKey hkey
    have hne : fileKey.iv ≠ [] := List.ne_nil_of_length_pos (by omega)
    have hkept : (some fileKey).filter (fun fileKey => fileKey.iv ≠ []) = some fileKey :=
      Option.filter_some_pos (decide_eq_true hne)
    refine ⟨fileKey.iv, ?_, hiv, fun more => ?_, .inl ⟨rfl, rfl⟩⟩
    · rw [FileDownload.execute, hkey, hkept, Option.map_some, List.length_nil, if_neg (by omega)]
    · rw [hempty, List.take_zero]
      rfl

/-- **Asking for parts completes a download, or lets it go on.** -/
theorem Ordered.downloadFileParts (hfits : Fits options encoded)
    (hstored : Stored cipher options encoded d) (h : Ordered options encoded [] count d)
    (hwaits : Waits d) (hresult : d.result = none) (hworker : d.hasWorker = true)
    (hfew : d.requests.length ≤ 4) : InRun cipher options encoded d.downloadFileParts := by
  rw [FileDownload.downloadFileParts, if_neg (by rw [hworker]; exact Bool.true_eq_false.mp)]
  split
  · next hend =>
      have hwhole : d.tempFile = decode cipher options encoded := by
        rw [hstored.written, List.take_of_length_le]
        refine (length_decode_le hfits).trans ?_
        rcases h.size with hsize | ⟨hzero, -⟩
        · exact hsize ▸ hend.2
        · exact absurd hzero hend.1
      exact .inr (.inl ⟨congrArg (some ∘ DownloadResult.completed) hwhole, hwhole, hfew⟩)
  · next hmore =>
      have hactive := h.activeDownloadingParts
      rw [List.append_nil, List.length_map] at hactive
      obtain ⟨count', parts, requestList, heq, hordered, hinfos, hlength, hpos⟩ :=
        Ordered.requestParts ((if d.size ≠ 0 then 4 else 1) - d.activeDownloadingParts) h
          (fun _ hnone => absurd hnone List.not_mem_nil)
          (fun hne => Nat.lt_of_not_le fun hle => hmore ⟨hne, hle⟩) (by
            intro hzero
            obtain ⟨hone, -⟩ := h.unknown hzero
            rw [if_neg (not_not.mpr hzero), hactive]
            rcases Nat.eq_zero_or_pos count with rfl | hpos
            · omega
            · have hon := List.length_pos_of_mem (h.mem_unanswered hwaits hpos)
              rw [List.append_nil, List.length_map] at hon
              omega)
      have hrow : 0 < count' := by
        refine hpos ?_
        rcases Nat.eq_zero_or_pos count with rfl | hpos
        · have hnone : d.requests = [] := h.requests_zero
          rw [hactive, hnone, List.length_nil]
          split <;> exact .inr (by decide)
        · exact .inl hpos
      have hkept := (asked_requestParts
        ((if d.size ≠ 0 then 4 else 1) - d.activeDownloadingParts) d []).data
      rw [heq] at hkept ⊢
      dsimp only at hkept ⊢
      obtain ⟨hsent, hcount, hsame⟩ := hordered.sendRequest hinfos
      have hfew' : d.requests.length + requestList.length ≤ 4 := by
        rw [List.length_nil, Nat.zero_add, hactive] at hlength
        split at hlength <;> omega
      refine .inl ⟨?_, ?_, ?_, ⟨count', hsent, ?_⟩, ?_, hcount.trans_le hfew'⟩
      · rw [hsame]
        exact { hstored with }
      · rw [hsame]
        exact hresult
      · rw [hsame]
        exact fun hne => Nat.lt_of_not_le fun hle => hmore ⟨hne, hle⟩
      · rw [hsame]
        exact ⟨fun _ => hrow, fun _ => hworker⟩
      · rw [hsame]
        intro partInfo hlookup
        refine Option.eq_none_iff_forall_ne_some.mpr fun data hdata => ?_
        obtain ⟨partInfo', hlookup', hdata'⟩ := hkept _ partInfo data hlookup hdata
        rw [hwaits partInfo' hlookup'] at hdata'
        cases hdata'

/-- A short answer tells the size of a file. -/
theorem Ordered.knowSize (hstored : Stored cipher options encoded d)
    (h : Ordered options encoded asked count d) {offset length : ℕ} {data : List UInt8}
    (hoffset : offset ∈ d.downloadingParts) (hlength : PartLength d.size offset length)
    (hdata : data = (encoded.drop offset).take preferredPartSize) :
    ∃ size,
      (if d.size = 0 ∧ data.length < length then
        { d with size := d.downloadedFileSize + data.length }
      else d) = { d with size := size } ∧
      Ordered options encoded asked count { d with size := size } ∧
      (size = 0 → data.length = preferredPartSize ∨ encoded = []) := by
  have hpiece : data.length = min preferredPartSize (encoded.length - offset) := by
    rw [hdata, List.length_take, List.length_drop]
  by_cases hshort : d.size = 0 ∧ data.length < length
  · obtain ⟨hzero, hlt⟩ := hshort
    obtain ⟨hone, haligned⟩ := h.unknown hzero
    have hfull : ∀ {offset length}, PartLength d.size offset length →
        length = preferredPartSize := by
      intro offset length hlength
      exact hlength.resolve_right fun hrest => hrest.1 hzero
    obtain ⟨place, hplace, heq⟩ := (h.keys offset).mp hoffset
    obtain rfl : place = 0 := by omega
    have hwithin := hstored.within
    have hsize : d.downloadedFileSize + data.length = encoded.length := by
      have hlength := hfull hlength
      omega
    have hnothing : d.downloadedFileSize + data.length = 0 → encoded = [] :=
      fun hnone => List.length_eq_zero_iff.mp (hsize.symm.trans hnone)
    refine ⟨_, if_pos ⟨hzero, hlt⟩, ?_, fun hnone => .inr (hnothing hnone)⟩
    refine { h with size := .inl hsize, unknown := fun _ => ⟨hone, haligned⟩, part := ?_,
                    request := ?_ }
    · intro other partInfo hlookup
      obtain ⟨hrestart, hwhole, hkept⟩ := h.part other partInfo hlookup
      exact ⟨hrestart, .inl (hfull hwhole), fun data hdata =>
        ⟨(hkept data hdata).1, fun hnone => .inr (hnothing hnone)⟩⟩
    · intro request hrequest
      obtain ⟨hisCdn, hwhole, hlimit⟩ := h.request request hrequest
      exact ⟨hisCdn, .inl (hfull hwhole), hlimit⟩
  · refine ⟨d.size, if_neg hshort, h, fun hzero => .inl ?_⟩
    have hwhole := hlength.resolve_right fun hrest => hrest.1 hzero
    have hlong := Nat.le_of_not_lt fun hlt => hshort ⟨hzero, hlt⟩
    omega

/-- A part arrives. -/
theorem Ordered.insertData {offset : ℕ} (h : Ordered options encoded [offset] count d)
    {partInfo : FilePartInfo} (hlookup : d.downloadingParts.lookup offset = some partInfo)
    {data : List UInt8} (hdata : data = (encoded.drop offset).take preferredPartSize)
    (hwhole : d.size = 0 → data.length = preferredPartSize ∨ encoded = []) :
    Ordered options encoded [] count
      { d with
        downloadingParts :=
          d.downloadingParts.insert offset { partInfo with downloadedData := some data } } := by
  have hmem : offset ∈ d.downloadingParts :=
    AList.lookup_isSome.mp (Option.isSome_of_eq_some hlookup)
  obtain ⟨hnodup, -, hnew⟩ := List.nodup_append.mp h.nodup
  refine { h with keys := ?_, part := ?_, unanswered := ?_, nodup := ?_ }
  · intro other
    rw [AList.mem_insert, ← h.keys]
    exact ⟨fun hother => hother.elim (fun heq => heq ▸ hmem) id, .inr⟩
  · intro other partInfo' hlookup'
    dsimp only at hlookup'
    rw [Dictionary.lookup_insert_ite] at hlookup'
    split at hlookup'
    · next heq =>
        obtain rfl := Option.some.inj hlookup'
        obtain ⟨hrestart, hlength, -⟩ := h.part offset partInfo hlookup
        refine ⟨hrestart, heq ▸ hlength, ?_⟩
        rintro data' ⟨⟩
        exact ⟨heq ▸ hdata, hwhole⟩
    · exact h.part other partInfo' hlookup'
  · intro other
    dsimp only
    rw [Dictionary.lookup_insert_ite, List.append_nil]
    split
    · next heq =>
        constructor
        · intro hasked
          exact absurd heq (hnew other hasked offset (List.mem_singleton.mpr rfl))
        · rintro ⟨partInfo', heq', hnone⟩
          rw [← Option.some.inj heq'] at hnone
          cases hnone
    · next hne =>
        rw [← h.unanswered, List.mem_append, List.mem_singleton]
        exact ⟨.inl, fun hasked => hasked.resolve_right hne⟩
  · rw [List.append_nil]
    exact hnodup

/-- An answer is taken. -/
theorem Ordered.takeRequest (h : Ordered options encoded [] count d) {place : ℕ}
    {request : GetFile} (hrequest : d.requests[place]? = some request) :
    Ordered options encoded [request.offset] count
      { d with requests := d.requests.eraseIdx place } := by
  have hperm : ((d.requests.eraseIdx place).map GetFile.offset ++ [request.offset]).Perm
      (d.requests.map GetFile.offset ++ []) := by
    obtain ⟨hlt, rfl⟩ := List.getElem?_eq_some_iff.mp hrequest
    rw [List.append_nil]
    exact (List.perm_append_singleton _ _).trans
      ((List.getElem_cons_eraseIdx_perm hlt).map GetFile.offset)
  refine { h with unanswered := ?_, nodup := hperm.nodup_iff.mpr h.nodup, request := ?_ }
  · intro offset
    rw [← h.unanswered]
    exact hperm.mem_iff
  · exact fun other hother => h.request other (List.mem_of_mem_eraseIdx hother)

section Running

variable [DecidableEq Hash]

/-- **An answer with a part completes a download, or lets it go on.** -/
theorem Ordered.filePartDownloadSuccess (hfits : Fits options encoded)
    (hstored : Stored cipher options encoded d) {offset length : ℕ}
    (h : Ordered options encoded [offset] count d) (hlength : PartLength d.size offset length)
    (hresult : d.result = none) (hworker : d.hasWorker = true) (hfew : d.requests.length ≤ 4)
    {data : List UInt8} (hdata : data = (encoded.drop offset).take preferredPartSize) :
    InRun cipher options encoded
      (FileDownload.filePartDownloadSuccess cipher sha256 d offset length data) := by
  obtain ⟨partInfo, hlookup, -⟩ :=
    (h.unanswered offset).mp (List.mem_append_right _ (List.mem_singleton.mpr rfl))
  obtain ⟨size, hsized, hordered, hwhole⟩ := h.knowSize hstored
    (AList.lookup_isSome.mp (Option.isSome_of_eq_some hlookup)) hlength hdata
  have hkept : Stored cipher options encoded
      { d with
        size := size
        downloadingParts :=
          d.downloadingParts.insert offset { partInfo with downloadedData := some data } } :=
    { hstored with }
  have harrived : Ordered options encoded [] count
      { d with
        size := size
        downloadingParts :=
          d.downloadingParts.insert offset { partInfo with downloadedData := some data } } :=
    hordered.insertData hlookup hdata hwhole
  obtain ⟨count', d', heq, hstored', hordered', hwaits, hcommitted⟩ :=
    harrived.commitRounds sha256 hfits hkept hresult
      ((d.downloadingParts.insert offset
        { partInfo with downloadedData := some data }).keys.insertionSort (· ≤ ·)).length
  rw [FileDownload.filePartDownloadSuccess, hsized]
  dsimp only at heq ⊢
  rw [hlookup]
  dsimp only
  rw [heq, if_pos (hcommitted.result.trans hresult)]
  exact hordered'.downloadFileParts hfits hstored' hwaits (hcommitted.result.trans hresult)
    (hcommitted.hasWorker.trans hworker) (by rw [hcommitted.requests]; exact hfew)

/-! ### Runs -/

/-- The one server answers with the bytes of the file, or with an error. -/
def Serves (encoded : List UInt8) (d : FileDownload Hash) : DownloadEvent Hash → Prop
  | .answer place (.file bytes) => ∀ request, d.requests[place]? = some request →
      bytes = (encoded.drop request.offset).take request.limit
  | .answer _ .error => True
  | .answer _ _ => False
  | _ => True

/-- **Every step keeps a download in order.** -/
theorem InRun.step (hfits : Fits options encoded) (h : InRun cipher options encoded d)
    {event : DownloadEvent Hash} (hevent : Serves encoded d event) :
    InRun cipher options encoded (FileDownload.step cipher sha256 d event) := by
  rcases h with hgoing | ⟨hcompleted, hrest⟩ | ⟨hfailed, hkept, hnone⟩
  · have hresult := hgoing.result
    have hkept := hgoing.kept hfits
    obtain ⟨count, hordered, hworks⟩ := hgoing.ordered
    rw [FileDownload.step.eq_def, hresult]
    cases event with
    | restart =>
        dsimp only
        rw [hgoing.stored.sameOptions]
        exact .inl (hkept.goesOn hfits)
    | workerReady =>
        have hstored : Stored cipher options encoded { d with hasWorker := true, result := none } :=
          { hgoing.stored with }
        have hrow : Ordered options encoded [] count
            { d with hasWorker := true, result := none } := { hordered with }
        exact hrow.downloadFileParts hfits hstored hgoing.waits rfl rfl hgoing.few
    | additionalWorker =>
        dsimp only
        cases hworker : d.hasWorker with
        | false =>
            rw [FileDownload.downloadFileParts, if_pos hworker]
            exact .inl hgoing
        | true =>
            exact hordered.downloadFileParts hfits hgoing.stored hgoing.waits hresult hworker
              hgoing.few
    | answer place reply =>
        dsimp only
        split
        · exact .inl hgoing
        · next request hrequest =>
            have hmem := List.mem_of_getElem? hrequest
            have hworker : d.hasWorker = true := by
              refine hworks.mpr (Nat.pos_of_ne_zero ?_)
              rintro rfl
              rw [hordered.requests_zero] at hmem
              exact absurd hmem List.not_mem_nil
            obtain ⟨-, hlength, hlimit⟩ := hordered.request request hmem
            have hfew : (d.requests.eraseIdx place).length ≤ 4 :=
              (List.length_eraseIdx_le _ _).trans hgoing.few
            cases reply with
            | file bytes =>
                have hbytes : bytes = _ := hevent request hrequest
                rw [hlimit, hlength.take_limit (hordered.size.imp_right And.left)] at hbytes
                have hstored : Stored cipher options encoded
                    { d with requests := d.requests.eraseIdx place, result := none } :=
                  { hgoing.stored with }
                have htaken : Ordered options encoded [request.offset] count
                    { d with requests := d.requests.eraseIdx place, result := none } :=
                  { hordered.takeRequest hrequest with }
                exact htaken.filePartDownloadSuccess hfits hstored hlength rfl hworker hfew hbytes
            | error =>
                exact .inr (.inr ⟨rfl, { hkept with stored := { hgoing.stored with } }, rfl⟩)
            | fileCdnRedirect fileData cdnFileHashes => exact hevent.elim
            | cdnFile bytes => exact hevent.elim
            | cdnFileReuploadNeeded => exact hevent.elim
            | other => exact hevent.elim
    | partHashes hashes =>
        dsimp only
        rw [hordered.oneServer.2.2.1]
        exact .inl hgoing
    | reuploaded =>
        dsimp only
        rw [hordered.oneServer.2.2.2]
        exact .inl hgoing
  · have hsame : FileDownload.step cipher sha256 d event = d := by
      rw [FileDownload.step.eq_def, hcompleted]
      cases event <;> rfl
    rw [hsame]
    exact .inr (.inl ⟨hcompleted, hrest⟩)
  · rw [FileDownload.step.eq_def, hfailed]
    cases event with
    | restart =>
        dsimp only
        rw [hkept.stored.sameOptions]
        exact .inl (hkept.goesOn hfits)
    | workerReady => exact .inr (.inr ⟨hfailed, hkept, hnone⟩)
    | additionalWorker => exact .inr (.inr ⟨hfailed, hkept, hnone⟩)
    | answer place reply => exact .inr (.inr ⟨hfailed, hkept, hnone⟩)
    | partHashes hashes => exact .inr (.inr ⟨hfailed, hkept, hnone⟩)
    | reuploaded => exact .inr (.inr ⟨hfailed, hkept, hnone⟩)

/-- How a download stands: while it goes on and has a worker, a request is on its way; it completes
only with the content. -/
def StandsWell (content : List UInt8) (d : FileDownload Hash) : Prop :=
  match d.result with
  | none => d.hasWorker = true → d.requests ≠ []
  | some (.completed bytes) => bytes = content
  | some .failed => True
  | some .outOfBounds => False

/-- A download from its beginning on. -/
theorem inRun_run (hfits : Fits options encoded) {events : List (DownloadEvent Hash)}
    (hevents : Machine.AllSteps (FileDownload.step cipher sha256) (Serves encoded)
      (execute options [] []) events) :
    InRun cipher options encoded
      (Machine.run (FileDownload.step cipher sha256) (execute options [] []) events) :=
  (Machine.always_of_allSteps (fun _ _ hd hevent => hd.step hfits hevent)
    (.inl ((kept_execute hfits).goesOn hfits)) hevents).last

omit [DecidableEq Hash] in
/-- **A run leaves a download standing well**, with the beginning of the content written. -/
theorem InRun.standsWell (h : InRun cipher options encoded d) :
    d.tempFile <+: decode cipher options encoded ∧ d.requests.length ≤ 4 ∧
      StandsWell (decode cipher options encoded) d := by
  rw [StandsWell]
  rcases h with hgoing | ⟨hcompleted, hwhole, hfew⟩ | ⟨hfailed, hkept, hnone⟩
  · obtain ⟨count, hordered, hworks⟩ := hgoing.ordered
    refine ⟨?_, hgoing.few, ?_⟩
    · rw [hgoing.stored.written]
      exact List.take_prefix _ _
    · rw [hgoing.result]
      intro hworker
      have hmem := hordered.mem_unanswered hgoing.waits (hworks.mp hworker)
      rw [List.append_nil] at hmem
      intro hnone
      rw [hnone] at hmem
      exact absurd hmem List.not_mem_nil
  · rw [hcompleted]
    exact ⟨hwhole ▸ List.prefix_rfl, hfew, rfl⟩
  · rw [hfailed]
    refine ⟨?_, hnone ▸ Nat.zero_le _, trivial⟩
    rw [hkept.stored.written]
    exact List.take_prefix _ _

/-- **A download writes the content of the file, and completes with it**, whatever the order of the
answers, and however often it fails or is cancelled and is gone on with: what is written is always
the beginning of the content, there are never more than four requests on their way, and as long as
it goes on there is one. -/
theorem download_order (cipher : BlockCipher) (hfits : Fits options encoded)
    {events : List (DownloadEvent Hash)}
    (hevents : Machine.AllSteps (FileDownload.step cipher sha256) (Serves encoded)
      (execute options [] []) events) :
    let d := Machine.run (FileDownload.step cipher sha256) (execute options [] []) events
    d.tempFile <+: decode cipher options encoded ∧ d.requests.length ≤ 4 ∧
      StandsWell (decode cipher options encoded) d :=
  (inRun_run hfits hevents).standsWell

end Running

/-- The options for an encrypted file of 4090 bytes. -/
def encryptedOptions : DownloadOptions := ⟨4096, 4090, some ⟨[], List.replicate 32 0⟩⟩

/-- What the server has of it. -/
def encryptedBytes : List UInt8 := List.replicate 4096 5

/-- An encrypted file arrives after a failure. -/
theorem download_order_encrypted :
    let d := Machine.run (step MtProto.complementCipher (id : List UInt8 → List UInt8))
      (execute encryptedOptions [] [])
      [.workerReady, .answer 0 .error, .restart, .workerReady, .answer 0 (.file encryptedBytes)]
    d.tempFile <+: decode MtProto.complementCipher encryptedOptions encryptedBytes ∧
      d.requests.length ≤ 4 ∧
      StandsWell (decode MtProto.complementCipher encryptedOptions encryptedBytes) d := by
  have hlength : encryptedBytes.length = 4096 := List.length_replicate
  refine download_order MtProto.complementCipher ⟨.inl hlength.symm, ?_⟩
    ⟨trivial, trivial, trivial, trivial, ?_, trivial⟩
  · rintro fileKey ⟨⟩
    rw [hlength]
    exact ⟨List.length_replicate, by decide, .inr (by decide)⟩
  · rintro request hrequest
    obtain rfl : ⟨0, 4096, 4096, false⟩ = request := Option.some.inj hrequest
    exact (List.take_of_length_le hlength.le).symm

end FileDownload

end Telegraph.Files
