import Telegraph.Files.DownloadedContent
import Telegraph.Lib.Loops

/-!
# The Row of Parts

Where the parts of a download are, as long as they come from the one server that has the file: so
many in a row, from the place that has been written on, and for each of them that has not arrived
one request is on its way.

## Main results

* `Ordered.requestParts`: asking for parts makes the row longer.
* `Ordered.commitPass`: **all parts that are there in a row are written.**
* `Ordered.commitRounds`: the same for the loop around it.
-/

open Bytes

namespace Telegraph.Files

namespace FileDownload

open MtProto (BlockCipher igeDecryptBytes)

variable {Hash : Type} {cipher : BlockCipher} {sha256 : List UInt8 → Hash} {encoded : List UInt8}
  {options : DownloadOptions} {d : FileDownload Hash} {asked : List ℕ} {count : ℕ}

/-! ### The row of parts -/

/-- A part is a whole one, or the rest of a file of a known size. -/
def PartLength (size offset length : ℕ) : Prop :=
  length = preferredPartSize ∨
    size ≠ 0 ∧ offset + length = size ∧ 0 < length ∧ length ≤ preferredPartSize

/-- The parts of a download: so many in a row. Those that have not arrived have been asked for,
some of them by a request that is not sent yet. -/
structure Ordered (options : DownloadOptions) (encoded : List UInt8) (asked : List ℕ) (count : ℕ)
    (d : FileDownload Hash) : Prop where
  size : d.size = encoded.length ∨ d.size = 0 ∧ options.encryptedSize = 0
  unknown : d.size = 0 → count ≤ 1 ∧ preferredPartSize ∣ d.downloadedFileSize
  oneServer : d.cdnFileData = none ∧ d.cdnFilePartHashes = none ∧ d.awaitedHashes = none ∧
    d.isReuploading = false
  noGaps : d.explicitDownloadParts = []
  keys : ∀ offset, offset ∈ d.downloadingParts ↔
    ∃ place < count, offset = d.downloadedFileSize + preferredPartSize * place
  inFile : 1 < count →
    d.downloadedFileSize + preferredPartSize * (count - 1) < encoded.length
  part : ∀ offset partInfo, d.downloadingParts.lookup offset = some partInfo →
    partInfo.restart = false ∧ PartLength d.size offset partInfo.partLength ∧
      ∀ data, partInfo.downloadedData = some data →
        data = (encoded.drop offset).take preferredPartSize ∧
          (d.size = 0 → data.length = preferredPartSize ∨ encoded = [])
  unanswered : ∀ offset, offset ∈ d.requests.map GetFile.offset ++ asked ↔
    ∃ partInfo, d.downloadingParts.lookup offset = some partInfo ∧
      partInfo.downloadedData = none
  nodup : (d.requests.map GetFile.offset ++ asked).Nodup
  request : ∀ request ∈ d.requests, request.isCdn = false ∧
    PartLength d.size request.offset request.length ∧
      request.limit = alignLimit 1048576 request.length

/-- The part that is to be written next has not arrived. -/
def Waits (d : FileDownload Hash) : Prop :=
  ∀ partInfo, d.downloadingParts.lookup d.downloadedFileSize = some partInfo →
    partInfo.downloadedData = none

/-- What is asked for is a part, or the rest of the file. -/
theorem PartLength.take_limit {size offset length : ℕ} (h : PartLength size offset length)
    (hsize : size = encoded.length ∨ size = 0) :
    (encoded.drop offset).take (alignLimit 1048576 length) =
      (encoded.drop offset).take preferredPartSize := by
  have hle : alignLimit 1048576 length ≤ preferredPartSize := by
    rcases h with rfl | ⟨-, -, -, hle⟩
    · exact alignLimit_le le_rfl (by decide) (by decide)
    · exact alignLimit_le hle (by decide) (by decide)
  have hge := le_alignLimit 1048576 length
  rcases h with rfl | ⟨hne, hrest, -, -⟩
  · rw [Nat.le_antisymm hle hge]
  · have hlength : (encoded.drop offset).length = length := by
      rw [List.length_drop]
      omega
    rw [List.take_of_length_le (by omega), List.take_of_length_le (by omega)]

/-- As many parts are on their way as requests. -/
theorem Ordered.activeDownloadingParts (h : Ordered options encoded asked count d) :
    d.activeDownloadingParts = (d.requests.map GetFile.offset ++ asked).length := by
  have hpart : ∀ entry ∈ d.downloadingParts.entries,
      (entry.2.downloadedData.isNone && !entry.2.restart) = entry.2.downloadedData.isNone := by
    rintro ⟨offset, partInfo⟩ hentry
    rw [(h.part offset partInfo (AList.mem_lookup_iff.mpr hentry)).1]
    exact Bool.and_true _
  rw [FileDownload.activeDownloadingParts, List.countP_congr (fun entry hentry => by
    rw [hpart entry hentry]), List.countP_eq_length_filter, ← List.length_map Sigma.fst]
  refine List.Perm.length_eq ((List.perm_ext_iff_of_nodup ?_ h.nodup).mpr ?_)
  · exact d.downloadingParts.nodupKeys.sublist List.filter_sublist
  · intro offset
    rw [h.unanswered]
    constructor
    · intro hmem
      obtain ⟨⟨offset, partInfo⟩, hentry, rfl⟩ := List.mem_map.mp hmem
      obtain ⟨hentry, hnone⟩ := List.mem_filter.mp hentry
      exact ⟨partInfo, AList.mem_lookup_iff.mpr hentry, Option.isNone_iff_eq_none.mp hnone⟩
    · rintro ⟨partInfo, hlookup, hnone⟩
      refine List.mem_map.mpr ⟨⟨offset, partInfo⟩, List.mem_filter.mpr ⟨?_, ?_⟩, rfl⟩
      · exact AList.mem_lookup_iff.mp hlookup
      · exact Option.isNone_iff_eq_none.mpr hnone

/-- Nothing is to be asked for again. -/
theorem Ordered.restartedParts (h : Ordered options encoded asked count d) :
    d.restartedParts = [] := by
  rw [FileDownload.restartedParts, List.map_eq_nil_iff, List.filter_eq_nil_iff]
  rintro ⟨offset, partInfo⟩ hentry
  rw [(h.part offset partInfo (AList.mem_lookup_iff.mpr hentry)).1]
  exact Bool.false_ne_true

theorem Ordered.clearRestarts (h : Ordered options encoded asked count d) :
    d.clearRestarts = d := by
  have hsame : Dictionary.mapValues (fun partInfo => { partInfo with restart := false })
      d.downloadingParts = d.downloadingParts := by
    refine Dictionary.mapValues_eq_self ?_
    intro offset partInfo hlookup
    rw [← (h.part offset partInfo hlookup).1]
  rw [FileDownload.clearRestarts, hsame]

/-- The next offset is that of the next part in the row, or it is behind the file. -/
theorem Ordered.nextDownloadOffset (h : Ordered options encoded asked count d) :
    (0 < count ∧ d.size ≠ 0 ∧ d.size ≤ d.nextDownloadOffset) ∨
      d.nextDownloadOffset = d.downloadedFileSize + preferredPartSize * count := by
  obtain ⟨-, hentries, hlast⟩ := Loops.foldl_max_spec
    (fun entry : Sigma fun _ : ℕ => FilePartInfo => entry.1 + entry.2.partLength)
    d.downloadingParts.entries d.downloadedFileSize
  rw [FileDownload.nextDownloadOffset]
  -- The last part of the row, if there is one, is a whole one or reaches the end of the file.
  have hlastPart : ∀ before, count = before + 1 → d.size ≠ 0 ∧ d.size ≤ d.nextDownloadOffset ∨
      d.downloadedFileSize + preferredPartSize * count ≤ d.nextDownloadOffset := by
    intro before hcount
    obtain ⟨partInfo, hlookup⟩ := Option.isSome_iff_exists.mp (AList.lookup_isSome.mpr
      ((h.keys _).mpr ⟨before, by omega, rfl⟩))
    have hge := hentries _ (AList.mem_lookup_iff.mp hlookup)
    rcases (h.part _ partInfo hlookup).2.1 with hwhole | ⟨hne, hrest, -, -⟩
    · refine .inr (le_trans (le_of_eq ?_) hge)
      dsimp only
      rw [hwhole, hcount, Nat.mul_succ, Nat.add_assoc]
    · exact .inl ⟨hne, hrest ▸ hge⟩
  rcases hlast with hlast | ⟨⟨offset, partInfo⟩, hentry, hlast⟩
  · cases count with
    | zero => exact .inr hlast
    | succ before =>
        rcases hlastPart before rfl with hend | hge
        · exact .inl ⟨Nat.succ_pos _, hend⟩
        · rw [FileDownload.nextDownloadOffset, hlast] at hge
          have hpos : 0 < preferredPartSize := by decide
          rw [Nat.mul_succ] at hge
          omega
  · have hlookup := AList.mem_lookup_iff.mpr hentry
    obtain ⟨place, hplace, rfl⟩ := (h.keys offset).mp (AList.lookup_isSome.mp
      (Option.isSome_of_eq_some hlookup))
    have hpos : 0 < count := Nat.zero_lt_of_lt hplace
    rcases (h.part _ partInfo hlookup).2.1 with hwhole | ⟨hne, hrest, -, -⟩
    · rcases hlastPart (count - 1) (by omega) with hend | hge
      · exact .inl ⟨hpos, hend⟩
      · refine .inr (Nat.le_antisymm ?_ hge)
        rw [hlast, hwhole, Nat.add_assoc, ← Nat.mul_succ]
        exact Nat.add_le_add_left (Nat.mul_le_mul_left _ hplace) _
    · refine .inl ⟨hpos, hne, ?_⟩
      rw [hlast]
      exact hrest.ge

/-! ### Asking for parts -/

/-- The next part of the row is asked for. -/
theorem Ordered.insertPart (h : Ordered options encoded asked count d)
    (requestInfo : FilePartRequestInfo)
    (hoffset : requestInfo.offset = d.downloadedFileSize + preferredPartSize * count)
    (hlength : PartLength d.size requestInfo.offset requestInfo.length)
    (hunknown : d.size = 0 → count = 0)
    (hinFile : 0 < count → requestInfo.offset < encoded.length) :
    Ordered options encoded (asked ++ [requestInfo.offset]) (count + 1)
      (d.insertPart requestInfo) := by
  have hpos : 0 < preferredPartSize := by decide
  have hnew : requestInfo.offset ∉ d.downloadingParts := by
    intro hmem
    obtain ⟨place, hplace, heq⟩ := (h.keys _).mp hmem
    have hsame := Nat.eq_of_mul_eq_mul_left hpos (Nat.add_left_cancel (hoffset.symm.trans heq))
    omega
  constructor
  case size => exact h.size
  case unknown =>
    intro hzero
    obtain rfl := hunknown hzero
    exact ⟨le_rfl, (h.unknown hzero).2⟩
  case oneServer => exact h.oneServer
  case noGaps => exact h.noGaps
  case keys =>
    intro offset
    rw [FileDownload.insertPart, AList.mem_insert, h.keys]
    constructor
    · rintro (rfl | ⟨place, hplace, heq⟩)
      · exact ⟨count, Nat.lt_succ_self _, hoffset⟩
      · exact ⟨place, Nat.lt_succ_of_lt hplace, heq⟩
    · rintro ⟨place, hplace, heq⟩
      rcases Nat.lt_succ_iff_lt_or_eq.mp hplace with hlt | rfl
      · exact .inr ⟨place, hlt, heq⟩
      · exact .inl (heq.trans hoffset.symm)
  case inFile =>
    intro hmore
    rw [Nat.add_sub_cancel]
    exact hoffset ▸ hinFile (by omega)
  case part =>
    intro offset partInfo hlookup
    rw [FileDownload.insertPart, Dictionary.lookup_insert_ite] at hlookup
    split at hlookup
    · next heq =>
        obtain rfl := Option.some.inj hlookup
        refine ⟨rfl, heq ▸ hlength, ?_⟩
        rintro data ⟨⟩
    · exact h.part offset partInfo hlookup
  case unanswered =>
    intro offset
    rw [← List.append_assoc, List.mem_append, List.mem_singleton, FileDownload.insertPart,
      Dictionary.lookup_insert_ite]
    split
    · next heq => exact ⟨fun _ => ⟨_, rfl, rfl⟩, fun _ => .inr heq⟩
    · next hne => exact ⟨fun hmem => (h.unanswered offset).mp (hmem.resolve_right hne),
        fun hmem => .inl ((h.unanswered offset).mpr hmem)⟩
  case nodup =>
    refine List.append_assoc _ _ _ ▸ List.nodup_append.mpr ⟨h.nodup, List.nodup_singleton _, ?_⟩
    rintro offset hmem other hother rfl
    obtain ⟨partInfo, hlookup, -⟩ := (h.unanswered offset).mp hmem
    rw [List.mem_singleton.mp hother] at hlookup
    exact hnew (AList.lookup_isSome.mp (Option.isSome_of_eq_some hlookup))
  case request => exact h.request

/-- What the next part is asked for with. -/
theorem partLength_next {size written next : ℕ} (hnext : next = written + preferredPartSize * count)
    (hlt : size ≠ 0 → next < size) :
    PartLength size next
      (if size = 0 then preferredPartSize else min preferredPartSize (size - written)) := by
  split
  · exact .inl rfl
  · next hne =>
      have hlt := hlt hne
      rcases Nat.le_total preferredPartSize (size - written) with hle | hle
      · exact .inl (Nat.min_eq_left hle)
      · have hfirst : count = 0 := by
          by_contra hmore
          have hmul := Nat.le_mul_of_pos_right preferredPartSize (Nat.pos_of_ne_zero hmore)
          omega
        rw [hfirst, Nat.mul_zero] at hnext
        rw [Nat.min_eq_right hle]
        exact .inr ⟨hne, by omega, by omega, hle⟩

/-- **Asking for parts makes the row longer**, by one part at least where there is none. -/
theorem Ordered.requestParts (rounds : ℕ) {requestList : List FilePartRequestInfo}
    (h : Ordered options encoded (requestList.map FilePartRequestInfo.offset) count d)
    (hinfos : ∀ requestInfo ∈ requestList,
      PartLength d.size requestInfo.offset requestInfo.length)
    (hmore : d.size ≠ 0 → d.downloadedFileSize < d.size)
    (hunknown : d.size = 0 → count + rounds ≤ 1) :
    ∃ count' parts requestList',
      FileDownload.requestParts rounds d requestList =
          ({ d with downloadingParts := parts }, requestList') ∧
        Ordered options encoded (requestList'.map FilePartRequestInfo.offset) count'
          { d with downloadingParts := parts } ∧
        (∀ requestInfo ∈ requestList',
          PartLength d.size requestInfo.offset requestInfo.length) ∧
        requestList'.length ≤ requestList.length + rounds ∧
        (0 < count ∨ 0 < rounds → 0 < count') := by
  induction rounds generalizing d count requestList with
  | zero =>
      exact ⟨count, d.downloadingParts, requestList, rfl, h, hinfos, le_rfl, fun hpos => by omega⟩
  | succ rounds ih =>
      rw [FileDownload.requestParts]
      split
      · next hexplicit =>
          rw [h.noGaps] at hexplicit
          cases hexplicit
      · dsimp only
        rw [h.restartedParts, h.clearRestarts, List.append_nil]
        split
        · next hend =>
            refine ⟨count, d.downloadingParts, requestList, rfl, h, hinfos,
              Nat.le_add_right _ _, fun _ => ?_⟩
            rcases h.nextDownloadOffset with ⟨hpos, -⟩ | hnext
            · exact hpos
            · have hlt := hmore hend.1
              refine Nat.pos_of_ne_zero ?_
              rintro rfl
              omega
        · next hinside =>
            have hnext : d.nextDownloadOffset =
                d.downloadedFileSize + preferredPartSize * count :=
              h.nextDownloadOffset.resolve_left fun hend => hinside hend.2
            have hlt : d.size ≠ 0 → d.nextDownloadOffset < d.size :=
              fun hne => Nat.lt_of_not_le fun hle => hinside ⟨hne, hle⟩
            have hlength := partLength_next hnext hlt
            set partLength := if d.size = 0 then preferredPartSize
              else min preferredPartSize (d.size - d.downloadedFileSize)
            have hinserted := h.insertPart ⟨d.nextDownloadOffset, partLength⟩ hnext hlength
              (fun hzero => Nat.eq_zero_of_le_zero (by
                have hone := hunknown hzero
                omega))
              (fun hpos => by
                have hne : d.size ≠ 0 := fun hzero => by
                  have hone := hunknown hzero
                  omega
                rcases h.size with hsize | ⟨hzero, -⟩
                · exact hsize ▸ hlt hne
                · exact absurd hzero hne)
            set requestInfo : FilePartRequestInfo := ⟨d.nextDownloadOffset, partLength⟩
            have hasked : Ordered options encoded
                ((requestList ++ [requestInfo]).map FilePartRequestInfo.offset) (count + 1)
                (d.insertPart requestInfo) := by
              rw [List.map_append]
              exact hinserted
            have hinfosNext : ∀ other ∈ requestList ++ [requestInfo],
                PartLength d.size other.offset other.length := by
              intro other hmem
              rcases List.mem_append.mp hmem with hold | hnew
              · exact hinfos other hold
              · rw [List.mem_singleton.mp hnew]
                exact hlength
            obtain ⟨count', parts, requestList', heq, hordered, hinfos', hlength', hpos'⟩ :=
              ih hasked hinfosNext hmore fun hzero => by
                have hone := hunknown hzero
                omega
            refine ⟨count', parts, requestList', heq, hordered, hinfos', ?_, ?_⟩
            · rw [List.length_append, List.length_singleton] at hlength'
              omega
            · exact fun _ => hpos' (.inl (Nat.succ_pos _))

/-- What is asked for is sent. -/
theorem Ordered.sendRequest {requestList : List FilePartRequestInfo}
    (h : Ordered options encoded (requestList.map FilePartRequestInfo.offset) count d)
    (hinfos : ∀ requestInfo ∈ requestList,
      PartLength d.size requestInfo.offset requestInfo.length) :
    Ordered options encoded [] count (requestList.foldl FileDownload.sendRequest d) ∧
      (requestList.foldl FileDownload.sendRequest d).requests.length =
        d.requests.length + requestList.length ∧
      requestList.foldl FileDownload.sendRequest d =
        { d with requests := (requestList.foldl FileDownload.sendRequest d).requests } := by
  induction requestList generalizing d with
  | nil => exact ⟨h, rfl, rfl⟩
  | cons requestInfo requestList ih =>
      have hsent : Ordered options encoded (requestList.map FilePartRequestInfo.offset) count
          (d.sendRequest requestInfo) := by
        have hoffsets : (d.sendRequest requestInfo).requests.map GetFile.offset ++
              requestList.map FilePartRequestInfo.offset =
            d.requests.map GetFile.offset ++
              (requestInfo :: requestList).map FilePartRequestInfo.offset := by
          rw [FileDownload.sendRequest, List.map_append, List.append_assoc]
          rfl
        refine { h with unanswered := ?_, nodup := ?_, request := ?_ }
        · intro offset
          rw [hoffsets]
          exact h.unanswered offset
        · rw [hoffsets]
          exact h.nodup
        · intro request hrequest
          rcases List.mem_append.mp hrequest with hold | hnew
          · exact h.request request hold
          · rw [List.mem_singleton.mp hnew]
            refine ⟨?_, hinfos requestInfo List.mem_cons_self, rfl⟩
            rw [h.oneServer.1]
            rfl
      obtain ⟨hordered, hlength, heq⟩ :=
        ih hsent fun other hother => hinfos other (List.mem_cons_of_mem _ hother)
      refine ⟨hordered, hlength.trans ?_, heq⟩
      rw [FileDownload.sendRequest, List.length_append, List.length_singleton, List.length_cons]
      omega

/-! ### Writing parts -/

/-- Where there are no parts, none is to be written. -/
theorem Ordered.waits_zero (h : Ordered options encoded asked 0 d) : Waits d := by
  intro partInfo hlookup
  obtain ⟨place, hplace, -⟩ := (h.keys _).mp (AList.lookup_isSome.mp
    (Option.isSome_of_eq_some hlookup))
  exact absurd hplace (Nat.not_lt_zero _)

/-- The part that is to be written next has been asked for. -/
theorem Ordered.mem_unanswered (h : Ordered options encoded asked count d) (hwaits : Waits d)
    (hpos : 0 < count) : d.downloadedFileSize ∈ d.requests.map GetFile.offset ++ asked := by
  obtain ⟨partInfo, hlookup⟩ := Option.isSome_iff_exists.mp (AList.lookup_isSome.mpr
    ((h.keys d.downloadedFileSize).mpr ⟨0, hpos, rfl⟩))
  exact (h.unanswered _).mpr ⟨partInfo, hlookup, hwaits partInfo hlookup⟩

/-- Where there are no parts, none has been asked for. -/
theorem Ordered.requests_zero (h : Ordered options encoded asked 0 d) : d.requests = [] := by
  refine List.eq_nil_iff_forall_not_mem.mpr fun request hrequest => ?_
  obtain ⟨partInfo, hlookup, -⟩ := (h.unanswered request.offset).mp
    (List.mem_append_left _ (List.mem_map_of_mem hrequest))
  obtain ⟨place, hplace, -⟩ := (h.keys _).mp (AList.lookup_isSome.mp
    (Option.isSome_of_eq_some hlookup))
  exact absurd hplace (Nat.not_lt_zero _)

/-- The parts in order. -/
theorem Ordered.sortedDownloadingParts (h : Ordered options encoded asked count d) :
    d.downloadingParts.keys.insertionSort (· ≤ ·) =
      List.range' d.downloadedFileSize count preferredPartSize := by
  have hperm : (d.downloadingParts.keys.insertionSort (· ≤ ·)).Perm
      (List.range' d.downloadedFileSize count preferredPartSize) := by
    refine (List.perm_insertionSort _ _).trans ((List.perm_ext_iff_of_nodup
      d.downloadingParts.nodupKeys (List.nodup_range' preferredPartSize (by decide))).mpr ?_)
    intro offset
    rw [List.mem_range']
    exact h.keys offset
  exact hperm.eq_of_pairwise (fun _ _ _ _ => Nat.le_antisymm)
    (List.pairwise_insertionSort _ _) (List.pairwise_le_range' preferredPartSize)

section Writing

variable [DecidableEq Hash]

/-- What the writing of parts leaves as it is. -/
structure Committed (d d' : FileDownload Hash) : Prop where
  size : d'.size = d.size
  hasWorker : d'.hasWorker = d.hasWorker
  requests : d'.requests = d.requests
  result : d'.result = d.result

omit [DecidableEq Hash] in
theorem Committed.trans {d' d'' : FileDownload Hash} (h : Committed d d')
    (h' : Committed d' d'') : Committed d d'' :=
  ⟨h'.size.trans h.size, h'.hasWorker.trans h.hasWorker, h'.requests.trans h.requests,
    h'.result.trans h.result⟩

variable (sha256) in
/-- **The part at the place that has been written is written.** -/
theorem Ordered.commitPart (hfits : Fits options encoded)
    (hstored : Stored cipher options encoded d)
    (h : Ordered options encoded asked (count + 1) d) {partInfo : FilePartInfo} {data : List UInt8}
    (hlookup : d.downloadingParts.lookup d.downloadedFileSize = some partInfo)
    (hdata : partInfo.downloadedData = some data) :
    let d' := FileDownload.commitPart cipher sha256 d partInfo data
    Stored cipher options encoded d' ∧ Ordered options encoded asked count d' ∧ Committed d d' ∧
      (0 < count → d'.downloadedFileSize = d.downloadedFileSize + preferredPartSize) := by
  obtain ⟨-, hpart, hparts⟩ := h.part _ partInfo hlookup
  obtain ⟨hpiece, hwhole⟩ := hparts data hdata
  have hpos : 0 < preferredPartSize := by decide
  have hwithin := hstored.within
  have hlength : data.length = min preferredPartSize (encoded.length - d.downloadedFileSize) := by
    rw [hpiece, List.length_take, List.length_drop]
  have hinFile : 0 < count →
      d.downloadedFileSize + preferredPartSize * count < encoded.length :=
    fun hmore => h.inFile (Nat.succ_lt_succ hmore)
  have hfull : 0 < count → data.length = preferredPartSize := by
    intro hmore
    have hlt := hinFile hmore
    have hmul := Nat.le_mul_of_pos_right preferredPartSize hmore
    omega
  -- There is no gap behind a part: a short one is the last one.
  have hgap : ¬ (d.size ≠ 0 ∧ data.length < partInfo.partLength ∧
      d.downloadedFileSize + data.length + data.length < d.size) := by
    rintro ⟨hne, hshort, hbefore⟩
    have hle : partInfo.partLength ≤ preferredPartSize := by
      rcases hpart with heq | ⟨-, -, -, hle⟩
      · exact heq.le
      · exact hle
    rcases h.size with hsize | ⟨hzero, -⟩
    · omega
    · exact hne hzero
  have heq : FileDownload.commitPart cipher sha256 d partInfo data =
      { d with
        encryption := (FileDownload.decryptPart cipher d data).2
        encryptionContext :=
          writeRunningIv d.encryptionContext (FileDownload.decryptPart cipher d data).2
        tempFile := d.tempFile ++ (FileDownload.decryptPart cipher d data).1
        downloadedFileSize := d.downloadedFileSize + data.length
        downloadingParts := d.downloadingParts.erase d.downloadedFileSize } := by
    rw [FileDownload.commitPart]
    dsimp only
    rw [h.oneServer.2.1, if_neg hgap]
    rfl
  rw [heq]
  have happended := hstored.append hfits hpiece
  refine ⟨{ happended with }, ?_, ⟨rfl, rfl, rfl, rfl⟩, fun hmore => by rw [hfull hmore]⟩
  refine { h with unknown := ?_, keys := ?_, inFile := ?_, part := ?_, unanswered := ?_ }
  · intro hzero
    obtain ⟨hone, haligned⟩ := h.unknown hzero
    refine ⟨by omega, ?_⟩
    rcases hwhole hzero with hwhole | hempty
    · exact Nat.dvd_add haligned (hwhole ▸ Nat.dvd_refl _)
    · rw [hempty, List.length_nil, Nat.zero_sub, Nat.min_zero] at hlength
      dsimp only
      rwa [hlength]
  · intro offset
    refine AList.mem_erase.trans ?_
    rw [h.keys]
    dsimp only
    constructor
    · rintro ⟨hne, place, hplace, heq⟩
      cases place with
      | zero => exact absurd heq hne
      | succ place =>
          refine ⟨place, Nat.lt_of_succ_lt_succ hplace, ?_⟩
          rw [hfull (by omega), heq, Nat.mul_succ]
          omega
    · rintro ⟨place, hplace, heq⟩
      rw [hfull (by omega)] at heq
      refine ⟨by omega, place + 1, Nat.succ_lt_succ hplace, ?_⟩
      rw [heq, Nat.mul_succ]
      omega
  · intro hmore
    obtain ⟨before, rfl⟩ : ∃ before, count = before + 1 := ⟨count - 1, by omega⟩
    have hlt := hinFile (Nat.succ_pos _)
    rw [Nat.mul_succ] at hlt
    dsimp only
    rw [hfull (Nat.succ_pos _), Nat.add_sub_cancel]
    omega
  · intro offset partInfo' hlookup'
    dsimp only at hlookup'
    rw [Dictionary.lookup_erase_ite] at hlookup'
    split at hlookup'
    · cases hlookup'
    · exact h.part offset partInfo' hlookup'
  · intro offset
    dsimp only
    rw [Dictionary.lookup_erase_ite, h.unanswered]
    split
    · next heq =>
        rw [heq, hlookup]
        constructor
        · rintro ⟨other, hother, hnone⟩
          rw [← Option.some.inj hother, hdata] at hnone
          cases hnone
        · rintro ⟨other, hother, -⟩
          cases hother
    · exact Iff.rfl

variable (sha256) in
/-- **All parts that are there in a row are written.** -/
theorem Ordered.commitPass (hfits : Fits options encoded)
    (hstored : Stored cipher options encoded d) (h : Ordered options encoded asked count d)
    (hresult : d.result = none) (hadCommit : Bool) :
    ∃ hadCommit' count' d',
      FileDownload.commitPass cipher sha256
          (List.range' d.downloadedFileSize count preferredPartSize) hadCommit d =
        (hadCommit', d') ∧
      Stored cipher options encoded d' ∧ Ordered options encoded asked count' d' ∧ Waits d' ∧
        Committed d d' := by
  induction count generalizing d hadCommit with
  | zero =>
      exact ⟨hadCommit, 0, d, rfl, hstored, h, h.waits_zero, ⟨rfl, rfl, rfl, rfl⟩⟩
  | succ count ih =>
      obtain ⟨⟨partOffset, partLength, downloadedData, restart⟩, hlookup⟩ :=
        Option.isSome_iff_exists.mp (AList.lookup_isSome.mpr
          ((h.keys d.downloadedFileSize).mpr ⟨0, Nat.succ_pos _, rfl⟩))
      rw [List.range'_succ, FileDownload.commitPass, if_pos rfl, hlookup]
      cases downloadedData with
      | none =>
          refine ⟨hadCommit, count + 1, d, rfl, hstored, h, ?_, ⟨rfl, rfl, rfl, rfl⟩⟩
          intro other hother
          rw [← Option.some.inj (hlookup.symm.trans hother)]
      | some data =>
          obtain ⟨hstored', hordered', hcommitted, hnext⟩ :=
            h.commitPart sha256 hfits hstored hlookup rfl
          dsimp only
          rw [if_pos (hcommitted.result.trans hresult)]
          rcases Nat.eq_zero_or_pos count with rfl | hpos
          · exact ⟨true, 0, _, rfl, hstored', hordered', hordered'.waits_zero, hcommitted⟩
          · rw [← hnext hpos]
            obtain ⟨hadCommit', count', d', heq, hstored'', hordered'', hwaits, hcommitted'⟩ :=
              ih hstored' hordered' (hcommitted.result.trans hresult) true
            exact ⟨hadCommit', count', d', heq, hstored'', hordered'', hwaits,
              hcommitted.trans hcommitted'⟩

/-- A row that waits is left as it is. -/
theorem commitPass_waits (hwaits : Waits d) (offsets : List ℕ) (hadCommit : Bool) :
    FileDownload.commitPass cipher sha256 offsets hadCommit d = (hadCommit, d) := by
  induction offsets with
  | nil => rfl
  | cons nOffset offsets ih =>
      rw [FileDownload.commitPass]
      split
      · next hoffset =>
          split
          · next hlookup =>
              have hnone := hwaits _ (hoffset ▸ hlookup)
              cases hnone
          · rfl
      · exact ih

variable (sha256) in
/-- **The loops over the parts write all that are there in a row.** -/
theorem Ordered.commitRounds (hfits : Fits options encoded)
    (hstored : Stored cipher options encoded d) (h : Ordered options encoded asked count d)
    (hresult : d.result = none) (rounds : ℕ) :
    ∃ count' d',
      FileDownload.commitRounds cipher sha256
          (d.downloadingParts.keys.insertionSort (· ≤ ·)) (rounds + 1) d = d' ∧
        Stored cipher options encoded d' ∧ Ordered options encoded asked count' d' ∧ Waits d' ∧
          Committed d d' := by
  rw [h.sortedDownloadingParts]
  obtain ⟨hadCommit, count', d', heq, hstored', hordered', hwaits, hcommitted⟩ :=
    h.commitPass sha256 hfits hstored hresult false
  refine ⟨count', d', ?_, hstored', hordered', hwaits, hcommitted⟩
  rw [FileDownload.commitRounds, heq]
  cases hadCommit with
  | false => rfl
  | true =>
      dsimp only
      rw [if_pos (hcommitted.result.trans hresult)]
      cases rounds with
      | zero => rfl
      | succ rounds => rw [FileDownload.commitRounds, commitPass_waits hwaits]

end Writing

end FileDownload

end Telegraph.Files
