import Mathlib.Data.List.Perm.Basic
import Mathlib.Data.Nat.Prime.Basic
import Telegraph.Lib.Machine
import Telegraph.MtProto.Encryption

/-!
# The Upload of a File

`TGFileUploadActor` cuts a file into parts and keeps up to sixteen of them on their way. A part is
read from the stream when it is sent, and encrypted with the initial vector that the part before it
has left behind; the answers come in any order. Once all of them are there, the actor tells the
number of parts and the checksum of what it has sent.

## Main results

* `dvd_partSize`, `length_parts_le`: how long the parts are, and how many there are.
* `parts_fit`: **a file is cut into parts that the server takes.**
* `upload_sound`: **what the server has got is the file**, at every moment of every run.
-/

open Bytes

namespace Telegraph.Files

open MtProto (BlockCipher MTAesEncryptInplaceAndModifyIv igeEncryptBytes lastBlock)

/-! ### The size of a part -/

/-- `while ((1024 * 1024) % partSize != 0) partSize++`, for so many rounds. -/
def alignPartSize : ℕ → ℕ → ℕ
  | 0, partSize => partSize
  | rounds + 1, partSize =>
      if 1024 * 1024 % partSize ≠ 0 then alignPartSize rounds (partSize + 1) else partSize

/-- The `partSize` of `execute:`, for data or for a file. -/
def partSize (isFile : Bool) (fileSize : ℕ) : ℕ :=
  if fileSize ≥ 10 * 1024 * 1024 then
    max (alignPartSize (1024 * 1024) (fileSize / 3000)) (64 * 1024)
  else if isFile then 64 * 1024
  else 8 * 1024

/-- The rounds end at a divisor, the first one from the start on. -/
theorem alignPartSize_spec {divisor : ℕ} (rounds n : ℕ) (hle : n ≤ divisor)
    (hdvd : divisor ∣ 1024 * 1024) (hrounds : divisor - n < rounds) :
    alignPartSize rounds n ∣ 1024 * 1024 ∧ n ≤ alignPartSize rounds n ∧
      alignPartSize rounds n ≤ divisor := by
  induction rounds generalizing n with
  | zero => omega
  | succ rounds ih =>
      rw [alignPartSize]
      split
      · next hnot =>
          have hlt : n < divisor := by
            refine Nat.lt_of_le_of_ne hle fun heq => hnot ?_
            rw [heq]
            exact Nat.mod_eq_zero_of_dvd hdvd
          obtain ⟨h, hlow, hhigh⟩ := ih (n + 1) hlt (by omega)
          exact ⟨h, by omega, hhigh⟩
      · next hdone => exact ⟨Nat.dvd_of_mod_eq_zero (not_not.mp hdone), le_rfl, hle⟩

/-- **A part's size divides a mebibyte**, and is a multiple of eight kibibytes. Up to the size from
which `execute:` fails, it is at most 512 kibibytes. -/
theorem dvd_partSize {fileSize : ℕ} (isFile : Bool) (h : fileSize < 2 ^ 31) :
    partSize isFile fileSize ∣ 1024 * 1024 ∧ 8 * 1024 ∣ partSize isFile fileSize ∧
      fileSize / 3000 ≤ partSize isFile fileSize ∧
      (fileSize ≤ 512 * 1024 * 3000 → partSize isFile fileSize ≤ 512 * 1024) := by
  rw [partSize]
  split
  · next hbig =>
      obtain ⟨hdvd, hlow, -⟩ := alignPartSize_spec (1024 * 1024) (fileSize / 3000)
        (by omega : fileSize / 3000 ≤ 1024 * 1024) dvd_rfl (by omega)
      have hhigh : fileSize ≤ 512 * 1024 * 3000 →
          alignPartSize (1024 * 1024) (fileSize / 3000) ≤ 512 * 1024 := fun hlimit =>
        (alignPartSize_spec (1024 * 1024) (fileSize / 3000)
          (by omega : fileSize / 3000 ≤ 512 * 1024) (by decide) (by omega)).2.2
      rcases le_total (alignPartSize (1024 * 1024) (fileSize / 3000)) (64 * 1024) with hle | hle
      · rw [max_eq_right hle]
        exact ⟨by decide, by decide, by omega, fun _ => by decide⟩
      · rw [max_eq_left hle]
        refine ⟨hdvd, ?_, hlow, hhigh⟩
        obtain ⟨k, hk, heq⟩ := (Nat.dvd_prime_pow Nat.prime_two).mp
          (show alignPartSize (1024 * 1024) (fileSize / 3000) ∣ 2 ^ 20 from hdvd)
        rw [heq] at hle ⊢
        have hpow : 13 ≤ k := by
          by_contra hlt
          have hsmall : 2 ^ k ≤ 2 ^ 12 := Nat.pow_le_pow_right (by decide) (by omega)
          omega
        exact pow_dvd_pow 2 hpow
  · split
    · exact ⟨by decide, by decide, by omega, fun _ => by decide⟩
    · exact ⟨by decide, by decide, by omega, fun _ => by decide⟩

/-! ### The parts -/

/-- `FilePart`. -/
structure FilePart where
  index : ℕ
  length : ℕ
  uploading : Bool
deriving DecidableEq

/-- The loop over the file that fills `_partsToUpload`, for so many rounds; what is given is the
next index and the length that is left. -/
def cutParts (partSize : ℕ) : ℕ → ℕ → ℕ → List FilePart
  | 0, _, _ => []
  | rounds + 1, index, rest =>
      if rest = 0 then []
      else
        ⟨index, min partSize rest, false⟩ ::
          cutParts partSize rounds (index + 1) (rest - partSize)

/-- **How many parts there are**: as many as it takes to cover the file. -/
theorem length_cutParts {size : ℕ} (hsize : 0 < size) (rounds index rest : ℕ)
    (hrounds : rest ≤ rounds) :
    (cutParts size rounds index rest).length = (rest + size - 1) / size := by
  induction rounds generalizing index rest with
  | zero =>
      have hzero : rest + size - 1 < size := by omega
      rw [cutParts, List.length_nil, Nat.div_eq_of_lt hzero]
  | succ rounds ih =>
      rw [cutParts]
      split
      · next hzero =>
          rw [hzero, List.length_nil, Nat.div_eq_of_lt (by omega)]
      · next hpos =>
          rw [List.length_cons, ih _ _ (by omega)]
          rcases Nat.le_total size rest with hle | hle
          · have hnext : rest + size - 1 = rest - size + size - 1 + size := by omega
            rw [hnext, Nat.add_div_right _ hsize]
          · have hlast : rest - size + size - 1 < size := by omega
            have hone : (rest + size - 1) / size = 1 :=
              Nat.div_eq_of_lt_le (by omega) (by omega)
            rw [Nat.div_eq_of_lt hlast, hone]

/-- **There are at most 3001 parts**; there are more than 3000 exactly if a three thousandth of the
size, rounded down, is already the size of a part, and something is left over. -/
theorem length_parts_le {fileSize : ℕ} (isFile : Bool) (h : fileSize < 2 ^ 31) :
    (cutParts (partSize isFile fileSize) fileSize 0 fileSize).length ≤ 3001 ∧
      (3000 < (cutParts (partSize isFile fileSize) fileSize 0 fileSize).length ↔
        partSize isFile fileSize = fileSize / 3000 ∧ fileSize % 3000 ≠ 0) := by
  obtain ⟨hdvd, hblocks, hlow, -⟩ := dvd_partSize isFile h
  have hpos : 0 < partSize isFile fileSize := Nat.pos_of_dvd_of_pos hdvd (by decide)
  have hlarge : 8 * 1024 ≤ partSize isFile fileSize := Nat.le_of_dvd hpos hblocks
  rw [length_cutParts hpos _ _ _ le_rfl]
  generalize partSize isFile fileSize = size at hlow hpos hlarge
  constructor
  · refine Nat.le_of_lt_succ (Nat.div_lt_of_lt_mul ?_)
    omega
  · rw [Nat.lt_iff_add_one_le, Nat.le_div_iff_mul_le hpos]
    omega

/-- The parts are together as long as the file, and each of them has its place. -/
theorem sum_cutParts {size : ℕ} (hsize : 0 < size) (rounds index rest : ℕ)
    (hrounds : rest ≤ rounds) :
    ((cutParts size rounds index rest).map FilePart.length).sum = rest ∧
      (cutParts size rounds index rest).map FilePart.index =
        List.range' index (cutParts size rounds index rest).length := by
  induction rounds generalizing index rest with
  | zero =>
      rw [cutParts, Nat.le_zero.mp hrounds]
      exact ⟨rfl, rfl⟩
  | succ rounds ih =>
      rw [cutParts]
      split
      · next hzero =>
          rw [hzero]
          exact ⟨rfl, rfl⟩
      · obtain ⟨hsum, hindex⟩ := ih (index + 1) (rest - size) (by omega)
        rw [List.map_cons, List.sum_cons, hsum, List.map_cons, hindex, List.length_cons,
          List.range'_succ]
        exact ⟨by dsimp only; omega, rfl⟩

/-- **A file is cut into parts that the server takes**: they cover the file and count up from zero,
their size divides a megabyte and has whole blocks, and up to 1536 megabytes it is half a megabyte
at most. There are never more than 3001 parts, and 3001 exactly where the size of a part is the
3000th part of the file, rounded down. -/
theorem parts_fit {fileSize : ℕ} (isFile : Bool) (h : fileSize < 2 ^ 31) :
    partSize isFile fileSize ∣ 1024 * 1024 ∧ 8 * 1024 ∣ partSize isFile fileSize ∧
      (fileSize ≤ 512 * 1024 * 3000 → partSize isFile fileSize ≤ 512 * 1024) ∧
      let parts := cutParts (partSize isFile fileSize) fileSize 0 fileSize
      (parts.map FilePart.length).sum = fileSize ∧
        parts.map FilePart.index = List.range parts.length ∧
        parts.length ≤ 3001 ∧
        (parts.length = 3001 ↔
          partSize isFile fileSize = fileSize / 3000 ∧ fileSize % 3000 ≠ 0) := by
  obtain ⟨hdvd, hblocks, -, hlimit⟩ := dvd_partSize isFile h
  obtain ⟨hmost, hmore⟩ := length_parts_le isFile h
  obtain ⟨hsum, hindex⟩ := sum_cutParts (Nat.pos_of_dvd_of_pos hdvd (by decide)) fileSize 0
    fileSize le_rfl
  refine ⟨hdvd, hblocks, hlimit, hsum, hindex.trans List.range_eq_range'.symm, hmost, ?_⟩
  rw [← hmore]
  exact ⟨fun heq => heq ▸ Nat.lt_succ_self 3000, fun hlt => Nat.le_antisymm hmost hlt⟩

/-- A file of three bytes is one part. -/
theorem parts_fit_three :
    partSize true 3 ∣ 1024 * 1024 ∧ 8 * 1024 ∣ partSize true 3 ∧
      (3 ≤ 512 * 1024 * 3000 → partSize true 3 ≤ 512 * 1024) ∧
      let parts := cutParts (partSize true 3) 3 0 3
      (parts.map FilePart.length).sum = 3 ∧
        parts.map FilePart.index = List.range parts.length ∧
        parts.length ≤ 3001 ∧
        (parts.length = 3001 ↔ partSize true 3 = 3 / 3000 ∧ 3 % 3000 ≠ 0) :=
  parts_fit true (by decide)

/-! ### The actor -/

/-- A key and the initial vector that runs along with it. -/
structure FileKey where
  key : List UInt8
  iv : List UInt8
deriving DecidableEq

/-- A `saveFilePart` or a `saveBigFilePart`. -/
structure SaveFilePart where
  filePart : ℕ
  bytes : List UInt8
deriving DecidableEq

/-- How an upload ends: with the number of parts and the bytes that the checksum is of, with a
failure, or by leaving a buffer. -/
inductive UploadResult where
  | completed (parts : ℕ) (md5 : List UInt8)
  | failed
  | outOfBounds
deriving DecidableEq

/-- A `TGFileUploadActor` at work: its parts and their number, what is left of the stream, the
running key, what the checksum has been updated with, the requests that have been sent, the parts
of those that are not answered, and how it has ended. -/
structure FileUpload where
  partsToUpload : List FilePart
  partCount : ℕ
  stream : List UInt8
  encryption : Option FileKey
  md5 : List UInt8
  requests : List SaveFilePart
  unanswered : List ℕ
  result : Option UploadResult
deriving DecidableEq

namespace FileUpload

variable (cipher : BlockCipher)

/-- `while (tmpData.length % 16 != 0)` a zero byte is appended. -/
def padBlocks (data : List UInt8) : List UInt8 :=
  data ++ List.replicate ((16 - data.length % 16) % 16) 0

/-- What is sent for the data of a part, and the key for the next one. -/
def encryptPart (encryption : Option FileKey) (partData : List UInt8) :
    Option (List UInt8 × Option FileKey) :=
  match encryption with
  | none => some (partData, none)
  | some fileKey =>
      (MTAesEncryptInplaceAndModifyIv cipher (padBlocks partData) fileKey.key fileKey.iv).map
        fun (encrypted, iv) => (encrypted, some { fileKey with iv := iv })

/-- The first part that is not on its way is sent. -/
def sendPart (u : FileUpload) : FileUpload :=
  match u.partsToUpload.find? fun part => !part.uploading with
  | none => u
  | some part =>
      match encryptPart cipher u.encryption (u.stream.take part.length) with
      | none => { u with result := some .outOfBounds }
      | some (bytes, encryption) =>
          { u with
            partsToUpload := u.partsToUpload.replace part { part with uploading := true }
            stream := u.stream.drop part.length
            encryption := encryption
            md5 := u.md5 ++ bytes
            requests := u.requests ++ [⟨part.index, bytes⟩]
            unanswered := u.unanswered ++ [part.index] }

/-- `sendAnyPart`. -/
def sendAnyPart (u : FileUpload) : FileUpload :=
  if u.partsToUpload = [] then { u with result := some (.completed u.partCount u.md5) }
  else
    let concurrentUploads := 16 - (u.partsToUpload.countP fun part => part.uploading)
    (sendPart cipher)^[concurrentUploads] u

/-- `execute:` for data or a file, up to the request for a worker: nothing is not uploaded, and a
file above the limit neither. -/
def execute (isFile : Bool) (encryption : Option FileKey) (content : List UInt8) : FileUpload where
  partsToUpload := cutParts (partSize isFile content.length) content.length 0 content.length
  partCount := (cutParts (partSize isFile content.length) content.length 0 content.length).length
  stream := content
  encryption := encryption
  md5 := []
  requests := []
  unanswered := []
  result :=
    if content.length = 0 ∨ isFile = true ∧ content.length > 512 * 1024 * 3000 then some .failed
    else none

/-- `filePartUploadSuccess:`. -/
def filePartUploadSuccess (u : FileUpload) (partId : ℕ) : FileUpload :=
  sendAnyPart cipher { u with
    partsToUpload := u.partsToUpload.eraseP fun part => part.index = partId }

/-- One of the requests that are not answered is answered, with or without an error. -/
structure Answer where
  place : ℕ
  success : Bool

/-- An answer arrives. A finished actor is gone. -/
def step (u : FileUpload) (answer : Answer) : FileUpload :=
  match u.result, u.unanswered[answer.place]? with
  | none, some partId =>
      let u := { u with unanswered := u.unanswered.eraseIdx answer.place }
      if answer.success then filePartUploadSuccess cipher u partId
      else { u with result := some .failed }
  | _, _ => u

/-- An upload from the time that it has a worker. -/
def begin (isFile : Bool) (encryption : Option FileKey) (content : List UInt8) : FileUpload :=
  let u := execute isFile encryption content
  if u.result = none then sendAnyPart cipher u else u

variable {cipher : BlockCipher} {encryption : Option FileKey} {content : List UInt8} {size : ℕ}
  {u : FileUpload} {onWay waiting : List FilePart}

/-! ### What is sent -/

variable (cipher) in
/-- What the server is to get of a content. -/
def encode (encryption : Option FileKey) (content : List UInt8) : List UInt8 :=
  match encryption with
  | none => content
  | some fileKey => igeEncryptBytes cipher fileKey.key fileKey.iv (padBlocks content)

theorem dvd_length_padBlocks (data : List UInt8) : 16 ∣ (padBlocks data).length := by
  rw [padBlocks, List.length_append, List.length_replicate]
  omega

theorem padBlocks_of_dvd {data : List UInt8} (h : 16 ∣ data.length) : padBlocks data = data := by
  have hzero : (16 - data.length % 16) % 16 = 0 := by omega
  rw [padBlocks, hzero, List.replicate_zero, List.append_nil]

/-- Only the last piece is padded. -/
theorem padBlocks_append {piece : List UInt8} (h : 16 ∣ piece.length) (rest : List UInt8) :
    padBlocks (piece ++ rest) = piece ++ padBlocks rest := by
  have hsame : (16 - (piece ++ rest).length % 16) % 16 = (16 - rest.length % 16) % 16 := by
    rw [List.length_append]
    omega
  rw [padBlocks, hsame, List.append_assoc, padBlocks]

/-- **A part is the beginning of what is to be sent**, and the rest of it belongs to the rest. -/
theorem encryptPart_spec (cipher : BlockCipher) (encryption : Option FileKey)
    {stream : List UInt8} (hsize : 16 ∣ size) (hlt : size < 2 ^ 30) (hpos : 0 < size)
    (hne : stream ≠ []) :
    ∃ bytes next, encryptPart cipher encryption (stream.take (min size stream.length)) =
        some (bytes, next) ∧
      bytes ++ encode cipher next (stream.drop (min size stream.length)) =
        encode cipher encryption stream := by
  cases encryption with
  | none => exact ⟨_, _, rfl, List.take_append_drop _ _⟩
  | some fileKey =>
      have hlength := List.length_pos_iff.mpr hne
      have hpiece : stream.take (min size stream.length) ≠ [] := by
        refine List.length_pos_iff.mp ?_
        rw [List.length_take]
        omega
      have hpad : padBlocks (stream.take (min size stream.length)) ≠ [] :=
        List.append_ne_nil_of_left_ne_nil hpiece _
      have hshort : (padBlocks (stream.take (min size stream.length))).length < 2 ^ 31 := by
        rw [padBlocks, List.length_append, List.length_replicate, List.length_take]
        omega
      have hsent : MTAesEncryptInplaceAndModifyIv cipher
          (padBlocks (stream.take (min size stream.length))) fileKey.key fileKey.iv = some _ :=
        MtProto.MTAesEncryptInplaceAndModifyIv_eq (dvd_length_padBlocks _) hpad hshort
      refine ⟨_, _, by rw [encryptPart, hsent, Option.map_some], ?_⟩
      rcases Nat.le_total stream.length size with hle | hle
      · rw [min_eq_right hle, List.take_length, List.drop_length]
        exact List.append_nil _
      · have hwhole : 16 ∣ (stream.take size).length := by rwa [List.length_take_of_le hle]
        have hsplit : padBlocks stream = stream.take size ++ padBlocks (stream.drop size) := by
          rw [← padBlocks_append hwhole, List.take_append_drop]
        rw [min_eq_left hle] at hpiece ⊢
        dsimp only [encode]
        rw [padBlocks_of_dvd hwhole, hsplit, MtProto.igeEncryptBytes_append hwhole hpiece]

/-! ### The invariant -/

/-- An upload of a content in parts of a size: some parts are on their way, in the order in which
they were sent, and the others wait, in the order of the file. -/
structure Sound (cipher : BlockCipher) (size : ℕ) (encryption : Option FileKey)
    (content : List UInt8) (onWay waiting : List FilePart) (u : FileUpload) : Prop where
  parts : u.partsToUpload = onWay ++ waiting
  uploading : ∀ part ∈ onWay, part.uploading = true ∧ part.index < u.requests.length
  nodup : (onWay.map FilePart.index).Nodup
  ahead : ∃ rounds, u.stream.length ≤ rounds ∧
    waiting = cutParts size rounds u.requests.length u.stream.length
  partCount : u.partCount = u.requests.length + waiting.length
  unanswered : u.unanswered.Perm (onWay.map FilePart.index)
  few : onWay.length ≤ 16
  places : u.requests.map SaveFilePart.filePart = List.range u.requests.length
  md5 : u.md5 = u.requests.flatMap SaveFilePart.bytes
  sent : u.md5 ++ encode cipher u.encryption u.stream = encode cipher encryption content

/-- A part that is to be sent is not on its way, and comes from where the stream stands on. -/
theorem mem_cutParts {rounds index rest : ℕ} {part : FilePart}
    (h : part ∈ cutParts size rounds index rest) :
    part.uploading = false ∧ index ≤ part.index := by
  induction rounds generalizing index rest with
  | zero => exact absurd h List.not_mem_nil
  | succ rounds ih =>
      rw [cutParts] at h
      split at h
      · exact absurd h List.not_mem_nil
      · rcases List.mem_cons.mp h with rfl | h
        · exact ⟨rfl, le_rfl⟩
        · exact ⟨(ih h).1, Nat.le_of_succ_le (ih h).2⟩

/-- **A part is sent.** -/
theorem Sound.sendPart (h : Sound cipher size encryption content onWay waiting u)
    (hsize : 16 ∣ size) (hlt : size < 2 ^ 30) (hpos : 0 < size) (hroom : onWay.length < 16) :
    (waiting = [] ∧ FileUpload.sendPart cipher u = u) ∨
      ∃ part rest, waiting = part :: rest ∧
        (FileUpload.sendPart cipher u).result = u.result ∧
        Sound cipher size encryption content (onWay ++ [{ part with uploading := true }]) rest
          (FileUpload.sendPart cipher u) := by
  obtain ⟨rounds, hrounds, hwaiting⟩ := h.ahead
  have hfind : u.partsToUpload.find? (fun part => !part.uploading) = waiting.head? := by
    have hnone : onWay.find? (fun part => !part.uploading) = none := by
      refine List.find?_eq_none.mpr fun part hpart => ?_
      rw [(h.uploading part hpart).1]
      exact Bool.false_ne_true
    rw [h.parts, List.find?_append, hnone, Option.none_or]
    cases hlist : waiting with
    | nil => rfl
    | cons part rest =>
        have hpart : part ∈ cutParts size rounds u.requests.length u.stream.length := by
          rw [← hwaiting, hlist]
          exact List.mem_cons_self
        rw [List.find?_cons_of_pos, List.head?_cons]
        rw [(mem_cutParts hpart).1]
        rfl
  rw [FileUpload.sendPart, hfind]
  cases rounds with
  | zero =>
      have hempty : waiting = [] := by rw [hwaiting, cutParts]
      rw [hempty]
      exact .inl ⟨rfl, rfl⟩
  | succ rounds =>
      rw [cutParts] at hwaiting
      split at hwaiting
      · rw [hwaiting]
        exact .inl ⟨rfl, rfl⟩
      · next hstream =>
          have hne : u.stream ≠ [] := fun hnil => hstream (by rw [hnil]; rfl)
          obtain ⟨bytes, next, hencrypt, hsent⟩ := encryptPart_spec cipher u.encryption
            hsize hlt hpos hne
          right
          refine ⟨_, _, hwaiting, ?_, ?_⟩
          · rw [hwaiting, List.head?_cons]
            dsimp only
            rw [hencrypt]
          · rw [hwaiting, List.head?_cons]
            dsimp only
            rw [hencrypt]
            have hnot : (⟨u.requests.length, min size u.stream.length, false⟩ : FilePart) ∉ onWay :=
              fun hmem => absurd (h.uploading _ hmem).1 Bool.false_ne_true
            have hrequests : (u.requests ++ [(⟨u.requests.length, bytes⟩ : SaveFilePart)]).length =
                u.requests.length + 1 := List.length_append
            constructor
            case parts =>
              dsimp only
              rw [h.parts, hwaiting, List.replace_append_right hnot, List.replace_cons_self,
                List.append_assoc]
              rfl
            case uploading =>
              intro part hpart
              rw [hrequests]
              rcases List.mem_append.mp hpart with hold | hnew
              · exact ⟨(h.uploading part hold).1, Nat.lt_succ_of_lt (h.uploading part hold).2⟩
              · rw [List.mem_singleton.mp hnew]
                exact ⟨rfl, Nat.lt_succ_self _⟩
            case nodup =>
              rw [List.map_append, List.map_singleton]
              refine List.nodup_append.mpr ⟨h.nodup, List.pairwise_singleton _ _, ?_⟩
              rintro _ hold _ hnew rfl
              obtain ⟨part, hpart, hindex⟩ := List.mem_map.mp hold
              have hlow := (h.uploading part hpart).2
              rw [hindex, List.mem_singleton.mp hnew] at hlow
              exact absurd hlow (Nat.lt_irrefl _)
            case ahead =>
              refine ⟨rounds, ?_, ?_⟩
              · dsimp only
                rw [List.length_drop]
                omega
              · have hrest : u.stream.length - min size u.stream.length =
                    u.stream.length - size := by omega
                dsimp only
                rw [hrequests, List.length_drop, hrest]
            case partCount =>
              have hcount := h.partCount
              rw [hwaiting, List.length_cons] at hcount
              dsimp only
              rw [hrequests]
              omega
            case unanswered =>
              dsimp only
              rw [List.map_append, List.map_singleton]
              exact h.unanswered.append_right _
            case few =>
              rw [List.length_append, List.length_singleton]
              omega
            case places =>
              dsimp only
              rw [hrequests, List.map_append, h.places, List.range_succ]
              rfl
            case md5 =>
              dsimp only
              rw [List.flatMap_append, List.flatMap_singleton, h.md5]
            case sent =>
              dsimp only
              rw [List.append_assoc, hsent, h.sent]

/-- As many parts are sent as there is room for, or all of them. -/
theorem Sound.sendParts (h : Sound cipher size encryption content onWay waiting u)
    (hsize : 16 ∣ size) (hlt : size < 2 ^ 30) (hpos : 0 < size) (count : ℕ)
    (hroom : onWay.length + count ≤ 16) :
    ∃ onWay' waiting', Sound cipher size encryption content onWay' waiting'
        ((FileUpload.sendPart cipher)^[count] u) ∧
      ((FileUpload.sendPart cipher)^[count] u).result = u.result ∧
      onWay'.length + waiting'.length = onWay.length + waiting.length ∧
      (waiting' = [] ∨ onWay'.length = onWay.length + count) := by
  induction count generalizing u onWay waiting with
  | zero => exact ⟨onWay, waiting, h, rfl, rfl, .inr rfl⟩
  | succ count ih =>
      rw [Function.iterate_succ_apply]
      rcases h.sendPart hsize hlt hpos (by omega) with
        ⟨hnone, hsame⟩ | ⟨part, rest, hwaiting, hresult, hnext⟩
      · rw [hsame]
        obtain ⟨onWay', waiting', hsound, hresult, hlength, hall⟩ := ih h (by omega)
        have hwaiting' : waiting' = [] ∨ onWay'.length = onWay.length + (count + 1) := by
          rcases hall with hempty | hlong
          · exact .inl hempty
          · rw [hnone, List.length_nil] at hlength
            exact .inl (List.length_eq_zero_iff.mp (by omega))
        exact ⟨onWay', waiting', hsound, hresult, hlength, hwaiting'⟩
      · have hmore : (onWay ++ [{ part with uploading := true }]).length = onWay.length + 1 :=
          List.length_append
        obtain ⟨onWay', waiting', hsound, hresult', hlength, hall⟩ := ih hnext (by omega)
        refine ⟨onWay', waiting', hsound, hresult'.trans hresult, ?_, ?_⟩
        · rw [hwaiting, List.length_cons]
          omega
        · exact hall.imp_right fun hlong => by omega

/-- An upload that goes on has parts on their way, and one that has ended has none left. -/
def Goes (onWay waiting : List FilePart) (u : FileUpload) : Prop :=
  u.result = none ∧ onWay ≠ [] ∨
    u.result = some (.completed u.partCount u.md5) ∧ onWay = [] ∧ waiting = []

/-- **`sendAnyPart` sends parts as long as there are any**, and completes otherwise. -/
theorem Sound.sendAnyPart (h : Sound cipher size encryption content onWay waiting u)
    (hsize : 16 ∣ size) (hlt : size < 2 ^ 30) (hpos : 0 < size) (hresult : u.result = none) :
    ∃ onWay' waiting', Sound cipher size encryption content onWay' waiting'
        (FileUpload.sendAnyPart cipher u) ∧
      Goes onWay' waiting' (FileUpload.sendAnyPart cipher u) := by
  obtain ⟨rounds, -, hwaiting⟩ := h.ahead
  rw [FileUpload.sendAnyPart]
  split
  · next hempty =>
      rw [h.parts, List.append_eq_nil_iff] at hempty
      exact ⟨onWay, waiting, ⟨h.parts, h.uploading, h.nodup, h.ahead, h.partCount, h.unanswered,
        h.few, h.places, h.md5, h.sent⟩, .inr ⟨rfl, hempty.1, hempty.2⟩⟩
  · next hne =>
      have hcount : u.partsToUpload.countP (fun part => part.uploading) = onWay.length := by
        have hall : onWay.countP (fun part => part.uploading) = onWay.length :=
          List.countP_eq_length.mpr fun part hpart => (h.uploading part hpart).1
        have hnone : waiting.countP (fun part => part.uploading) = 0 := by
          refine List.countP_eq_zero.mpr fun part hpart => ?_
          rw [hwaiting] at hpart
          rw [(mem_cutParts hpart).1]
          exact Bool.false_ne_true
        rw [h.parts, List.countP_append, hall, hnone, Nat.add_zero]
      have hfew := h.few
      dsimp only
      rw [hcount]
      obtain ⟨onWay', waiting', hsound, hsame, hlength, hall⟩ := h.sendParts hsize hlt hpos
        (16 - onWay.length) (by omega)
      refine ⟨onWay', waiting', hsound, .inl ⟨hsame.trans hresult, ?_⟩⟩
      rintro rfl
      refine hne ?_
      rw [h.parts]
      refine List.length_eq_zero_iff.mp ?_
      rw [List.length_append, ← hlength]
      rcases hall with rfl | hfull
      · rfl
      · rw [List.length_nil] at hfull
        omega

/-- What holds of a failed upload: as far as it has come, it was right. -/
structure Begun (cipher : BlockCipher) (encryption : Option FileKey) (content : List UInt8)
    (u : FileUpload) : Prop where
  few : u.unanswered.length ≤ 16
  places : u.requests.map SaveFilePart.filePart = List.range u.requests.length
  md5 : u.md5 = u.requests.flatMap SaveFilePart.bytes
  sent : u.md5 <+: encode cipher encryption content

theorem Sound.begun (h : Sound cipher size encryption content onWay waiting u) :
    Begun cipher encryption content u := by
  refine ⟨?_, h.places, h.md5, ?_⟩
  · rw [h.unanswered.length_eq, List.length_map]
    exact h.few
  · rw [← h.sent]
    exact List.prefix_append _ _

/-- An upload in a run: it goes on or has ended as it should, or it has failed. -/
def InRun (cipher : BlockCipher) (size : ℕ) (encryption : Option FileKey)
    (content : List UInt8) (u : FileUpload) : Prop :=
  (∃ onWay waiting, Sound cipher size encryption content onWay waiting u ∧ Goes onWay waiting u) ∨
    u.result = some .failed ∧ Begun cipher encryption content u

/-- **A part has arrived.** -/
theorem Sound.answered (h : Sound cipher size encryption content onWay waiting u) {place partId : ℕ}
    (hanswer : u.unanswered[place]? = some partId) :
    ∃ onWay', Sound cipher size encryption content onWay' waiting
      { u with
        unanswered := u.unanswered.eraseIdx place
        partsToUpload := u.partsToUpload.eraseP fun part => part.index = partId } := by
  obtain ⟨hplace, hget⟩ := List.getElem?_eq_some_iff.mp hanswer
  have hmem : partId ∈ onWay.map FilePart.index :=
    h.unanswered.mem_iff.mp (hget ▸ List.getElem_mem hplace)
  obtain ⟨part, hpart, hindex⟩ := List.mem_map.mp hmem
  obtain ⟨found, before, after, -, hfound, hsplit, herase⟩ :=
    List.exists_of_eraseP (p := fun part : FilePart => part.index = partId) hpart
      (decide_eq_true hindex)
  have hfound : found.index = partId := of_decide_eq_true hfound
  have hsub : (onWay.eraseP fun part => part.index = partId).Sublist onWay := List.eraseP_sublist
  refine ⟨onWay.eraseP fun part => part.index = partId, ?_⟩
  constructor
  case parts =>
    dsimp only
    rw [h.parts]
    exact List.eraseP_append_left (p := fun part : FilePart => part.index = partId)
      (decide_eq_true hindex) waiting hpart
  case uploading => exact fun part hpart => h.uploading part (hsub.subset hpart)
  case nodup => exact h.nodup.sublist (hsub.map _)
  case ahead => exact h.ahead
  case partCount => exact h.partCount
  case unanswered =>
    refine List.Perm.cons_inv (a := partId) ?_
    have hleft : (partId :: u.unanswered.eraseIdx place).Perm u.unanswered := by
      rw [← hget]
      exact List.getElem_cons_eraseIdx_perm hplace
    have hright : (onWay.map FilePart.index).Perm
        (partId :: (onWay.eraseP fun part => part.index = partId).map FilePart.index) := by
      rw [herase, hsplit, List.map_append, List.map_cons, hfound, List.map_append]
      exact List.perm_middle
    exact hleft.trans (h.unanswered.trans hright)
  case few => exact hsub.length_le.trans h.few
  case places => exact h.places
  case md5 => exact h.md5
  case sent => exact h.sent

/-- **A step keeps it.** -/
theorem InRun.step (h : InRun cipher size encryption content u) (hsize : 16 ∣ size)
    (hlt : size < 2 ^ 30) (hpos : 0 < size) (answer : Answer) :
    InRun cipher size encryption content (FileUpload.step cipher u answer) := by
  rw [FileUpload.step]
  rcases h with ⟨onWay, waiting, hsound, hgoes⟩ | ⟨hresult, hbegun⟩
  · rcases hgoes with ⟨hresult, hne⟩ | ⟨hresult, hempty⟩
    · rw [hresult]
      cases hanswer : u.unanswered[answer.place]? with
      | none => exact .inl ⟨onWay, waiting, hsound, .inl ⟨hresult, hne⟩⟩
      | some partId =>
          dsimp only
          split
          · obtain ⟨onWay', hnext⟩ := hsound.answered hanswer
            have hsent := hnext.sendAnyPart hsize hlt hpos hresult
            rw [hresult] at hsent
            exact .inl hsent
          · have hbegun := hsound.begun
            refine .inr ⟨rfl, ?_, hbegun.places, hbegun.md5, hbegun.sent⟩
            exact (List.eraseIdx_sublist _ _).length_le.trans hbegun.few
    · rw [hresult]
      exact .inl ⟨onWay, waiting, hsound, .inr ⟨hresult, hempty⟩⟩
  · rw [hresult]
    exact .inr ⟨hresult, hbegun⟩

/-- An upload begins as it should. -/
theorem inRun_begin (cipher : BlockCipher) (isFile : Bool) (encryption : Option FileKey)
    {content : List UInt8} (h : content.length < 2 ^ 31) :
    InRun cipher (partSize isFile content.length) encryption content
      (FileUpload.begin cipher isFile encryption content) := by
  obtain ⟨hdvd, hblocks, -, -⟩ := dvd_partSize isFile h
  have hpos : 0 < partSize isFile content.length := Nat.pos_of_dvd_of_pos hdvd (by decide)
  have hle : partSize isFile content.length ≤ 1024 * 1024 := Nat.le_of_dvd (by decide) hdvd
  have hstart : Sound cipher (partSize isFile content.length) encryption content []
      (cutParts (partSize isFile content.length) content.length 0 content.length)
      (execute isFile encryption content) := by
    constructor
    case parts => rfl
    case uploading => exact fun part hpart => absurd hpart List.not_mem_nil
    case nodup => exact List.nodup_nil
    case ahead => exact ⟨content.length, le_rfl, rfl⟩
    case partCount => exact (Nat.zero_add _).symm
    case unanswered => exact List.Perm.refl _
    case few => exact Nat.zero_le _
    case places => rfl
    case md5 => rfl
    case sent => rfl
  rw [FileUpload.begin]
  split
  · next hresult =>
      exact .inl (hstart.sendAnyPart (Nat.dvd_trans (by decide) hblocks) (by omega) hpos hresult)
  · next hended =>
      refine .inr ⟨?_, hstart.begun⟩
      rw [execute] at hended ⊢
      dsimp only at hended ⊢
      split
      · rfl
      · next hfits => exact absurd (if_neg hfits) hended

/-- An upload from its beginning on. -/
theorem inRun_run (cipher : BlockCipher) (isFile : Bool) (encryption : Option FileKey)
    {content : List UInt8} (h : content.length < 2 ^ 31) (answers : List Answer) :
    InRun cipher (partSize isFile content.length) encryption content
      (Machine.run (step cipher) (begin cipher isFile encryption content) answers) := by
  obtain ⟨hdvd, hblocks, -, -⟩ := dvd_partSize isFile h
  have hpos : 0 < partSize isFile content.length := Nat.pos_of_dvd_of_pos hdvd (by decide)
  have hle : partSize isFile content.length ≤ 1024 * 1024 := Nat.le_of_dvd (by decide) hdvd
  exact (Machine.always_of_step (fun _ answer hinv =>
    hinv.step (Nat.dvd_trans (by decide) hblocks) (by omega) hpos answer)
    (inRun_begin cipher isFile encryption h)).last

/-- How an upload stands: while it goes on, something is on its way; when it completes, everything
has been sent and answered, and what it tells is the number of the parts and the checksum of all of
them. -/
def StandsWell (cipher : BlockCipher) (encryption : Option FileKey) (content : List UInt8)
    (u : FileUpload) : Prop :=
  match u.result with
  | none => u.unanswered ≠ []
  | some (.completed parts md5) =>
      u.unanswered = [] ∧ parts = u.requests.length ∧
        u.requests.flatMap SaveFilePart.bytes = encode cipher encryption content ∧
        md5 = encode cipher encryption content
  | some .failed => True
  | some .outOfBounds => False

/-- **A run leaves an upload standing well**, with the beginning of the file sent. -/
theorem InRun.standsWell (h : InRun cipher size encryption content u) :
    Begun cipher encryption content u ∧ StandsWell cipher encryption content u := by
  rw [StandsWell]
  rcases h with ⟨onWay, waiting, hsound, hgoes⟩ | ⟨hresult, hbegun⟩
  · have hbegun := hsound.begun
    refine ⟨hbegun, ?_⟩
    rcases hgoes with ⟨hresult, hne⟩ | ⟨hresult, rfl, rfl⟩
    · rw [hresult]
      intro hempty
      have hnone := hsound.unanswered
      rw [hempty] at hnone
      exact hne (List.map_eq_nil_iff.mp hnone.nil_eq.symm)
    · obtain ⟨rounds, hrounds, hwaiting⟩ := hsound.ahead
      have hstream : u.stream = [] := by
        cases rounds with
        | zero => exact List.length_eq_zero_iff.mp (Nat.le_zero.mp hrounds)
        | succ rounds =>
            rw [cutParts] at hwaiting
            split at hwaiting
            · next hzero => exact List.length_eq_zero_iff.mp hzero
            · cases hwaiting
      have hsent := hsound.sent
      have hrest : encode cipher u.encryption [] = [] := by
        cases u.encryption with
        | none => rfl
        | some fileKey => rfl
      rw [hstream, hrest, List.append_nil] at hsent
      rw [hresult]
      exact ⟨hsound.unanswered.eq_nil, hsound.partCount, hsound.md5 ▸ hsent, hsent⟩
  · refine ⟨hbegun, ?_⟩
    rw [hresult]
    trivial

/-- **What the server has got is the file**, at every moment of every run, whatever the order of the
answers: the parts are sent in order, with their places, and are together the beginning of what is
to be sent; at most sixteen are on their way. -/
theorem upload_sound (cipher : BlockCipher) (isFile : Bool) (encryption : Option FileKey)
    {content : List UInt8} (h : content.length < 2 ^ 31) (answers : List Answer) :
    let u := Machine.run (step cipher) (begin cipher isFile encryption content) answers
    u.requests.map SaveFilePart.filePart = List.range u.requests.length ∧
      u.requests.flatMap SaveFilePart.bytes <+: encode cipher encryption content ∧
      u.unanswered.length ≤ 16 ∧ StandsWell cipher encryption content u := by
  intro u
  obtain ⟨hbegun, hstands⟩ := (inRun_run cipher isFile encryption h answers).standsWell
  exact ⟨hbegun.places, hbegun.md5 ▸ hbegun.sent, hbegun.few, hstands⟩

/-- Three bytes go out in one part. -/
theorem upload_sound_three :
    let u := Machine.run (step MtProto.complementCipher)
      (begin MtProto.complementCipher true none [1, 2, 3]) [⟨0, true⟩]
    u.requests.map SaveFilePart.filePart = List.range u.requests.length ∧
      u.requests.flatMap SaveFilePart.bytes <+: [1, 2, 3] ∧
      u.unanswered.length ≤ 16 ∧ StandsWell MtProto.complementCipher none [1, 2, 3] u :=
  upload_sound MtProto.complementCipher true none (by decide) [⟨0, true⟩]

end FileUpload

end Telegraph.Files
