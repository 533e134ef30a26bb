import Telegraph.VoIP.CallStates
import Telegraph.VoIP.PacketFormat

/-!
# The Frames of a Stream Packet

A stream packet has one to three frames: a byte with the number of the stream and two flags, the
length in one byte or in two, the timestamp, and the data. `RunRecvThread` hands a frame on to the
jitter buffer as soon as it has read the timestamp. The length is looked at only afterwards, by the
`Seek` to the next frame, and for the last frame not at all. So whether every frame that is handed
on lies inside the datagram is up to the sender: it does if and only if the packet is a sequence of
whole frames, which may break off in the header of one.

`ReadTlLength` asserts that the three bytes of a long length are there before the check that would
throw.

## Main results

* `readFrameHeader_cut`, `readFrameHeader_frame`: the two ways in which a header is read.
* `framesInside_iff`: when the frames of a loop lie inside the datagram.
* `receiveStreamData_inside_iff`: **when the frames of a packet do, and when a TL length does not
  trip the assertion**.
* `readTlLength_eq`: where it does not, the length is that of the model without it.
-/

open Bytes

namespace Telegraph.VoIP

/-! ### The loop over the frames -/

/-- `STREAM_DATA_FLAG_LEN16`. -/
def STREAM_DATA_FLAG_LEN16 : UInt8 := 0x40

/-- A frame as it is handed to `HandleInput`: where it begins, its length and its timestamp. -/
structure StreamFrame where
  offset : ℕ
  sdlen : BitVec 16
  pts : BitVec 32

/-- The length of a frame has 16 bits. -/
def isLong (streamID : UInt8) : Bool :=
  (streamID &&& 0xC0) &&& STREAM_DATA_FLAG_LEN16 ≠ 0

/-- What a round of the loop reads: `sdlen` and `pts`. -/
def readFrameHeader : StreamReader (BitVec 16 × BitVec 32) := do
  let streamID ← readByte
  let sdlen ←
    if isLong streamID then readInt16
    else (fun b => BitVec.ofNat 16 b.toNat) <$> readByte
  let pts ← readInt32
  pure (sdlen, pts)

/-- The loop, with the number of rounds left: the frames that are handed on if there is a jitter
buffer, and the stream, unless `std::out_of_range` is thrown. -/
def readFrames (jitterBuffer : Bool) :
    ℕ → BufferInputStream → List StreamFrame × Option BufferInputStream
  | 0, s => ([], some s)
  | count + 1, s =>
      match readFrameHeader s with
      | none => ([], none)
      | some ((sdlen, pts), s) =>
          let handed := if jitterBuffer then [⟨s.offset, sdlen, pts⟩] else []
          if count = 0 then (handed, some s)
          else
            match skip sdlen.toNat s with
            | none => (handed, none)
            | some ((), s) =>
                let (frames, result) := readFrames jitterBuffer count s
                (handed ++ frames, result)

/-- `count`. -/
def frameCount (type : UInt8) : ℕ :=
  if type = PKT_STREAM_DATA_X2 then 2
  else if type = PKT_STREAM_DATA_X3 then 3
  else 1

/-- A stream packet. -/
def isStreamData (type : UInt8) : Bool :=
  type = PKT_STREAM_DATA || type = PKT_STREAM_DATA_X2 || type = PKT_STREAM_DATA_X3

/-- What `RunRecvThread` does with a stream packet once the header is read. -/
def receiveStreamData (jitterBuffer : Bool) (type : UInt8) (s : BufferInputStream) :
    List StreamFrame × Option BufferInputStream :=
  if isStreamData type then readFrames jitterBuffer (frameCount type) s else ([], some s)

/-- How a read may fail. -/
inductive ReadFault where
  /-- `std::out_of_range`. -/
  | outOfRange
  /-- The assertion does not hold. -/
  | assertion
deriving DecidableEq

/-- `ReadTlLength`, with its assertion. -/
def readTlLengthAsserting (s : BufferInputStream) : Except ReadFault (ℕ × BufferInputStream) :=
  match readByte s with
  | none => .error .outOfRange
  | some (l, s) =>
      if l < 254 then .ok (l.toNat, s)
      else if s.remaining < 3 then .error .assertion
      else
        match readBytes 3 s with
        | none => .error .outOfRange
        | some (bytes, s) => .ok (leNat bytes, s)

/-! ### Whole frames -/

/-- What stands before the data of a frame. -/
def frameHeader (streamID : UInt8) (length : ℕ) (pts : BitVec 32) : List UInt8 :=
  streamID :: (if isLong streamID then toLE 2 length else [UInt8.ofNat length]) ++
    toLE 4 pts.toNat

/-- The lengths that a frame can declare. -/
def lengthBound (streamID : UInt8) : ℕ := if isLong streamID then 2 ^ 16 else 2 ^ 8

/-- A frame as the sender is to write it: the declared length is that of the data. -/
structure WireFrame where
  streamID : UInt8
  pts : BitVec 32
  data : List UInt8
  fits : data.length < lengthBound streamID

/-- The bytes of a frame. -/
def WireFrame.bytes (frame : WireFrame) : List UInt8 :=
  frameHeader frame.streamID frame.data.length frame.pts ++ frame.data

/-- The bytes end in the header of a frame. -/
def CutHeader : List UInt8 → Prop
  | [] => True
  | streamID :: rest => rest.length < if isLong streamID then 6 else 5

/-- **The bytes begin with so many whole frames**, or with fewer and then end in the header of the
next. -/
def WholeFrames (count : ℕ) (bytes : List UInt8) : Prop :=
  ∃ (frames : List WireFrame) (rest : List UInt8),
    bytes = frames.flatMap WireFrame.bytes ++ rest ∧
      (frames.length = count ∨ frames.length < count ∧ CutHeader rest)

/-- The bytes begin with a long TL length and end in it. -/
def CutTlLength : List UInt8 → Prop
  | [] => False
  | l :: rest => 254 ≤ l ∧ rest.length < 3

/-- All frames lie inside a datagram of a length. -/
def FramesInside (frames : List StreamFrame) (length : ℕ) : Prop :=
  ∀ frame ∈ frames, frame.offset + frame.sdlen.toNat ≤ length

/-! ### Headers -/

section Headers

variable {streamID : UInt8} {length : ℕ} {pts : BitVec 32}

/-- A length that a frame can declare has 16 bits. -/
theorem lengthBound_le (streamID : UInt8) : lengthBound streamID ≤ 2 ^ 16 := by
  rw [lengthBound]
  split <;> decide

/-- **A header is read back.** -/
theorem readFrameHeader_append (h : length < lengthBound streamID) (pts : BitVec 32)
    (before rest : List UInt8) :
    readFrameHeader ⟨before, frameHeader streamID length pts ++ rest⟩ =
      some ((BitVec.ofNat 16 length, pts), ⟨before ++ frameHeader streamID length pts, rest⟩) := by
  rw [lengthBound] at h
  cases hlong : isLong streamID with
  | true =>
      rw [hlong, if_pos rfl] at h
      have hread : leNat (toLE 2 length) = length := leNat_toLE_of_lt h
      simp [readFrameHeader, frameHeader, hlong, readInt16, hread]
  | false =>
      rw [hlong, if_neg Bool.false_ne_true] at h
      have hread : (UInt8.ofNat length).toNat = length := by
        rw [UInt8.toNat_ofNat']
        omega
      simp [readFrameHeader, frameHeader, hlong, hread]

/-- An integer that is not there whole is not read. -/
theorem readInt32_short {s : BufferInputStream} (h : s.rest.length < 4) : readInt32 s = none := by
  simp [readInt32, readBytes, h]

/-- **Bytes that end in a header are not read.** -/
theorem readFrameHeader_cut {s : BufferInputStream} (h : CutHeader s.rest) :
    readFrameHeader s = none := by
  obtain ⟨before, bytes⟩ := s
  cases bytes with
  | nil => rfl
  | cons streamID rest =>
      change rest.length < _ at h
      cases hlong : isLong streamID with
      | true =>
          rw [hlong, if_pos rfl] at h
          by_cases htwo : rest.length < 2
          · simp [readFrameHeader, hlong, readInt16, readBytes, htwo]
          · have hshort : ∀ before, readInt32 ⟨before, rest.drop 2⟩ = none := fun before =>
              readInt32_short (by change (rest.drop 2).length < 4; rw [List.length_drop]; omega)
            simp [readFrameHeader, hlong, readInt16, readBytes, htwo, hshort]
      | false =>
          rw [hlong, if_neg Bool.false_ne_true] at h
          cases rest with
          | nil => simp [readFrameHeader, hlong, readByte]
          | cons b rest =>
              rw [List.length_cons] at h
              have hshort : ∀ before, readInt32 ⟨before, rest⟩ = none := fun before =>
                readInt32_short (by change rest.length < 4; omega)
              simp [readFrameHeader, hlong, hshort]

/-- Bytes are the number they make. -/
theorem toLE_leNat_of_length {n : ℕ} {bytes : List UInt8} (h : bytes.length = n) :
    toLE n (leNat bytes) = bytes := by
  rw [← h, toLE_leNat]

/-- Four bytes are a number of 32 bits. -/
theorem toLE_ofNat_leNat {four : List UInt8} (hfour : four.length = 4) :
    toLE 4 (BitVec.ofNat 32 (leNat four)).toNat = four := by
  have hlt : leNat four < 2 ^ 32 := by
    have := leNat_lt four
    rwa [hfour] at this
  rw [BitVec.toNat_ofNat, Nat.mod_eq_of_lt hlt, toLE_leNat_of_length hfour]

/-- **Bytes that do not end in a header begin with one.** -/
theorem exists_frameHeader {bytes : List UInt8} (h : ¬ CutHeader bytes) :
    ∃ streamID length pts rest, length < lengthBound streamID ∧
      bytes = frameHeader streamID length pts ++ rest := by
  cases bytes with
  | nil => exact absurd trivial h
  | cons streamID rest =>
      rw [CutHeader, not_lt] at h
      cases hlong : isLong streamID with
      | true =>
          rw [hlong, if_pos rfl] at h
          have htwo : (rest.take 2).length = 2 := List.length_take_of_le (by omega)
          have hfour : ((rest.drop 2).take 4).length = 4 :=
            List.length_take_of_le (by rw [List.length_drop]; omega)
          refine ⟨streamID, leNat (rest.take 2), BitVec.ofNat 32 (leNat ((rest.drop 2).take 4)),
            (rest.drop 2).drop 4, ?_, ?_⟩
          · have hlt := leNat_lt (rest.take 2)
            rw [lengthBound, hlong, if_pos rfl]
            rwa [htwo] at hlt
          · rw [frameHeader, hlong, if_pos rfl, toLE_leNat_of_length htwo, toLE_ofNat_leNat hfour,
              List.append_assoc, List.cons_append, List.take_append_drop, List.take_append_drop]
      | false =>
          rw [hlong, if_neg Bool.false_ne_true] at h
          cases rest with
          | nil => simp at h
          | cons b rest =>
              rw [List.length_cons] at h
              have hfour : (rest.take 4).length = 4 := List.length_take_of_le (by omega)
              refine ⟨streamID, b.toNat, BitVec.ofNat 32 (leNat (rest.take 4)), rest.drop 4,
                ?_, ?_⟩
              · rw [lengthBound, hlong, if_neg Bool.false_ne_true]
                exact b.toNat_lt
              · rw [frameHeader, hlong, if_neg Bool.false_ne_true, toLE_ofNat_leNat hfour]
                simp

end Headers

/-! ### Frames inside the datagram -/

section Inside

variable {streamID : UInt8} {length count : ℕ} {pts : BitVec 32} {rest : List UInt8}

/-- **A frame that is there whole** is one of the frames of the bytes, and the others follow. -/
theorem wholeFrames_succ (h : length < lengthBound streamID) :
    WholeFrames (count + 1) (frameHeader streamID length pts ++ rest) ↔
      length ≤ rest.length ∧ WholeFrames count (rest.drop length) := by
  constructor
  · rintro ⟨frames, tail, hbytes, hframes⟩
    cases frames with
    | nil =>
        rcases hframes with hcount | ⟨-, hcut⟩
        · cases hcount
        · -- a header that is there is not cut
          have hread := readFrameHeader_append h pts [] rest
          rw [hbytes, List.flatMap_nil, List.nil_append, readFrameHeader_cut hcut] at hread
          cases hread
    | cons frame frames =>
        have hread := readFrameHeader_append h pts [] rest
        rw [hbytes, List.flatMap_cons, WireFrame.bytes, List.append_assoc, List.append_assoc,
          readFrameHeader_append frame.fits] at hread
        obtain ⟨hheader, hstream⟩ := Prod.mk.inj (Option.some.inj hread)
        have hrest := (BufferInputStream.mk.inj hstream).2
        have hlength : frame.data.length = length := by
          have hnat := congrArg BitVec.toNat (Prod.mk.inj hheader).1
          have hbound := lengthBound_le streamID
          have hbound' := lengthBound_le frame.streamID
          have hfits := frame.fits
          rw [BitVec.toNat_ofNat, BitVec.toNat_ofNat, Nat.mod_eq_of_lt (by omega),
            Nat.mod_eq_of_lt (by omega)] at hnat
          exact hnat
        rw [← hrest, ← hlength, List.drop_left, List.length_append]
        refine ⟨Nat.le_add_right _ _, frames, tail, rfl, ?_⟩
        simpa using hframes
  · rintro ⟨hle, frames, tail, hbytes, hframes⟩
    obtain ⟨data, rest, rfl, rfl⟩ : ∃ data rest', rest = data ++ rest' ∧ data.length = length :=
      ⟨_, _, (List.take_append_drop length rest).symm, List.length_take_of_le hle⟩
    rw [List.drop_left] at hbytes
    refine ⟨⟨streamID, pts, data, h⟩ :: frames, tail, ?_, by simpa using hframes⟩
    rw [List.flatMap_cons, WireFrame.bytes, List.append_assoc, List.append_assoc, ← hbytes]

/-- **The frames that are handed on lie inside the datagram if and only if** the bytes are whole
frames. -/
theorem framesInside_iff (count : ℕ) (s : BufferInputStream) :
    FramesInside (readFrames true count s).1 s.buffer.length ↔ WholeFrames count s.rest := by
  induction count generalizing s with
  | zero =>
      refine iff_of_true (fun frame hframe => by cases hframe) ⟨[], s.rest, rfl, .inl rfl⟩
  | succ count ih =>
      obtain ⟨before, bytes⟩ := s
      by_cases hcut : CutHeader bytes
      · rw [readFrames, readFrameHeader_cut hcut]
        exact iff_of_true (fun frame hframe => by cases hframe)
          ⟨[], bytes, rfl, .inr ⟨Nat.succ_pos _, hcut⟩⟩
      · obtain ⟨streamID, length, pts, rest, hlength, rfl⟩ := exists_frameHeader hcut
        have hbound := lengthBound_le streamID
        have hsdlen : (BitVec.ofNat 16 length).toNat = length := by
          rw [BitVec.toNat_ofNat, Nat.mod_eq_of_lt (by omega)]
        -- where the frame lies
        have hfirst : (⟨before ++ frameHeader streamID length pts, rest⟩ :
            BufferInputStream).offset + (BitVec.ofNat 16 length).toNat ≤
            (⟨before, frameHeader streamID length pts ++ rest⟩ : BufferInputStream).buffer.length ↔
            length ≤ rest.length := by
          simp only [BufferInputStream.offset, BufferInputStream.buffer, List.length_append, hsdlen]
          omega
        rw [readFrames, readFrameHeader_append hlength, wholeFrames_succ hlength]
        dsimp only
        split
        · next hlast =>
            subst hlast
            have hnone : WholeFrames 0 (rest.drop length) := ⟨[], _, rfl, .inl rfl⟩
            rw [if_pos rfl, FramesInside, List.forall_mem_singleton, hfirst]
            exact (and_iff_left hnone).symm
        · by_cases hle : length ≤ rest.length
          · obtain ⟨data, rest, rfl, rfl⟩ :
                ∃ data rest', rest = data ++ rest' ∧ data.length = length :=
              ⟨_, _, (List.take_append_drop length rest).symm, List.length_take_of_le hle⟩
            have hnext := ih ⟨before ++ frameHeader streamID data.length pts ++ data, rest⟩
            have hbuffer : (⟨before ++ frameHeader streamID data.length pts ++ data, rest⟩ :
                BufferInputStream).buffer = (⟨before, frameHeader streamID data.length pts ++
                (data ++ rest)⟩ : BufferInputStream).buffer := by
              simp [BufferInputStream.buffer]
            rw [hbuffer] at hnext
            rw [skip_append _ _ hsdlen.symm, List.drop_left, if_pos rfl, ← hnext, ← hfirst]
            exact List.forall_mem_cons
          · have hskip : skip (BitVec.ofNat 16 length).toNat
                ⟨before ++ frameHeader streamID length pts, rest⟩ = none := by
              simp [skip, readBytes, hsdlen, not_le.mp hle]
            rw [hskip, if_pos rfl, FramesInside, List.forall_mem_singleton, hfirst]
            exact iff_of_false hle fun hboth => hle hboth.1

/-- Without a jitter buffer no frame is handed on. -/
theorem readFrames_none (count : ℕ) (s : BufferInputStream) :
    (readFrames false count s).1 = [] := by
  induction count generalizing s with
  | zero => rfl
  | succ count ih =>
      rw [readFrames]
      split
      · rfl
      · dsimp only
        split
        · rfl
        · split
          · rfl
          · exact ih _

end Inside

/-! ### The assertion -/

/-- **The assertion does not hold** if and only if a long length is cut off. -/
theorem readTlLengthAsserting_iff (s : BufferInputStream) :
    readTlLengthAsserting s ≠ .error .assertion ↔ ¬ CutTlLength s.rest := by
  obtain ⟨before, bytes⟩ := s
  cases bytes with
  | nil => exact iff_of_true (fun h => by cases h) id
  | cons l rest =>
      rw [readTlLengthAsserting, readByte_cons, CutTlLength]
      dsimp only
      split
      · next hshort => exact iff_of_true (fun h => by cases h) fun h => UInt8.not_le.mpr hshort h.1
      · next hlong =>
          split
          · next hcut =>
              exact iff_of_false (fun h => h rfl) fun h => h ⟨UInt8.not_lt.mp hlong, hcut⟩
          · next hthere =>
              have hthree : ¬ (BufferInputStream.mk (before ++ [l]) rest).rest.length < 3 := hthere
              rw [readBytes, if_neg hthree]
              exact iff_of_true (fun h => by cases h) fun h => hthere h.2

/-- **Where the assertion holds or is not compiled, the length is the same.** -/
theorem readTlLength_eq (s : BufferInputStream) :
    readTlLength s = (readTlLengthAsserting s).toOption := by
  obtain ⟨before, bytes⟩ := s
  cases bytes with
  | nil => rfl
  | cons l rest =>
      rw [readTlLengthAsserting, readByte_cons, readTlLength, bind_read, readByte_cons]
      dsimp only [Option.bind_some]
      split
      · rfl
      · rw [bind_read]
        split
        · next hcut =>
            have hthree : (BufferInputStream.mk (before ++ [l]) rest).rest.length < 3 := hcut
            rw [readBytes, if_pos hthree]
            rfl
        · next hthere =>
            have hthree : ¬ (BufferInputStream.mk (before ++ [l]) rest).rest.length < 3 := hthere
            rw [readBytes, if_neg hthree]
            rfl

/-! ### The stream is the datagram -/

/-- A read leaves the stream as long as it is. -/
def KeepsLength {α : Type} (m : StreamReader α) : Prop :=
  ∀ s a s', m s = some (a, s') → s'.buffer.length = s.buffer.length

section Keeps

variable {α β : Type}

theorem KeepsLength.pure (a : α) : KeepsLength (Pure.pure a) := by
  intro s b s' h
  obtain ⟨rfl, rfl⟩ := Prod.mk.inj (Option.some.inj h)
  rfl

theorem KeepsLength.bind {m : StreamReader α} {f : α → StreamReader β} (hm : KeepsLength m)
    (hf : ∀ a, KeepsLength (f a)) : KeepsLength (m >>= f) := by
  intro s b s' h
  rw [bind_read] at h
  obtain ⟨⟨a, s''⟩, hread, hrest⟩ := Option.bind_eq_some_iff.mp h
  exact (hf a s'' b s' hrest).trans (hm s a s'' hread)

theorem KeepsLength.ite {c : Prop} {_ : Decidable c} {m n : StreamReader α} (hm : KeepsLength m)
    (hn : KeepsLength n) : KeepsLength (if c then m else n) := by
  split
  · exact hm
  · exact hn

theorem KeepsLength.map {m : StreamReader α} (f : α → β) (hm : KeepsLength m) :
    KeepsLength (f <$> m) := by
  intro s b s' h
  rw [map_read] at h
  obtain ⟨⟨a, s''⟩, hread, hrest⟩ := Option.bind_eq_some_iff.mp h
  obtain ⟨-, rfl⟩ := Prod.mk.inj (Option.some.inj hrest)
  exact hm s a s'' hread

theorem keepsLength_readBytes (count : ℕ) : KeepsLength (readBytes count) := by
  intro s bytes s' h
  rw [readBytes] at h
  split at h
  · cases h
  · obtain ⟨-, rfl⟩ := Prod.mk.inj (Option.some.inj h)
    simp only [BufferInputStream.buffer, List.append_assoc, List.take_append_drop]

theorem keepsLength_readByte : KeepsLength readByte := by
  rintro ⟨before, _ | ⟨b, rest⟩⟩ a s' h
  · cases h
  · obtain ⟨-, rfl⟩ := Prod.mk.inj (Option.some.inj h)
    simp [BufferInputStream.buffer]

theorem keepsLength_readInt32 : KeepsLength readInt32 :=
  (keepsLength_readBytes 4).bind fun _ => .pure _

theorem keepsLength_readInt64 : KeepsLength readInt64 :=
  (keepsLength_readBytes 8).bind fun _ => .pure _

theorem keepsLength_readTlLength : KeepsLength readTlLength :=
  keepsLength_readByte.bind fun _ =>
    .ite (.pure _) ((keepsLength_readBytes 3).bind fun _ => .pure _)

theorem keepsLength_skipTlString : KeepsLength skipTlString :=
  keepsLength_readTlLength.bind fun _ => (keepsLength_readBytes _).bind fun _ => .pure _

/-- An optional field, and what is read behind it. -/
theorem KeepsLength.optional {c : Prop} {_ : Decidable c} {m n : StreamReader α}
    {f : α → StreamReader β} (hm : KeepsLength m) (hn : KeepsLength n)
    (hf : ∀ a, KeepsLength (f a)) : KeepsLength (if c then m >>= f else n >>= f) :=
  .ite (hm.bind hf) (hn.bind hf)

/-- **The header is read in place.** -/
theorem keepsLength_readPacketHeader (callID : List UInt8) :
    KeepsLength (readPacketHeader callID) := by
  refine keepsLength_readInt32.bind fun tlid => ?_
  refine .ite ?_ (.ite ?_ (.pure _))
  · refine keepsLength_readInt64.bind fun _ => keepsLength_skipTlString.bind fun _ =>
      keepsLength_readInt32.bind fun flags => ?_
    refine .ite (.pure _) (.optional (keepsLength_readBytes 16) (.pure _) fun _ => ?_)
    refine .ite (.pure _) ?_
    refine keepsLength_readInt32.bind fun _ => keepsLength_readInt32.bind fun _ =>
      keepsLength_readInt32.bind fun _ => ?_
    refine .optional keepsLength_readInt32 (.pure _) fun _ => ?_
    refine .ite (.pure _) (.ite (keepsLength_skipTlString.bind fun _ => ?_) ?_)
    · exact .optional (keepsLength_readTlLength.map _) (.pure _) fun _ => .pure _
    · exact .optional (keepsLength_readTlLength.map _) (.pure _) fun _ => .pure _
  · refine keepsLength_readInt64.bind fun _ => keepsLength_skipTlString.bind fun _ =>
      keepsLength_readTlLength.bind fun _ => keepsLength_readByte.bind fun _ => ?_
    exact keepsLength_readInt32.bind fun _ => keepsLength_readInt32.bind fun _ =>
      keepsLength_readInt32.bind fun _ => .pure _

end Keeps

section Packets

variable {crypto : Crypto} {key : EncryptionKey} {isOutgoing : Bool} {src : DatagramEndpoint}
  {datagram : List UInt8} {header : PacketHeader} {s : BufferInputStream}

/-- Decrypting leaves as many bytes as there were. -/
theorem keepsLength_decryptPacket
    (hdecrypt : ∀ data key iv, (crypto.aesIgeDecrypt data key iv).length = data.length) :
    KeepsLength (decryptPacket crypto key isOutgoing) := by
  refine (keepsLength_readBytes 8).bind fun fingerprint =>
    (keepsLength_readBytes 16).bind fun _ => ?_
  refine .ite (.pure _) ?_
  refine KeepsLength.bind ?_ fun _ => keepsLength_readInt32.bind fun _ => ?_
  · intro s a s' h
    obtain ⟨-, rfl⟩ := Prod.mk.inj (Option.some.inj h)
    simp [BufferInputStream.buffer, hdecrypt]
  · refine KeepsLength.bind ?_ fun _ => .ite (.pure _) (.pure _)
    intro s a s' h
    obtain ⟨-, rfl⟩ := Prod.mk.inj (Option.some.inj h)
    rfl

/-- **The stream behind the header is the datagram**, as far as it fits into the buffer. -/
theorem length_receivePacket
    (hdecrypt : ∀ data key iv, (crypto.aesIgeDecrypt data key iv).length = data.length)
    (hreceived : receivePacket crypto key isOutgoing src datagram = .ok (header, s)) :
    s.buffer.length = (datagram.take 1024).length := by
  rw [receivePacket] at hreceived
  dsimp only at hreceived
  split at hreceived
  · cases hreceived
  · split at hreceived
    · cases hreceived
    · split at hreceived
      · cases hreceived
      · split at hreceived
        · cases hreceived
        · cases hreceived
        · next s' hdecrypted =>
            have hkept := keepsLength_decryptPacket hdecrypt _ _ _ hdecrypted
            split at hreceived
            · cases hreceived
            · cases hreceived
            · next hread =>
                obtain ⟨rfl, rfl⟩ := Prod.mk.inj (Except.ok.inj hreceived)
                rw [keepsLength_readPacketHeader _ _ _ _ hread, hkept, BufferInputStream.buffer,
                  List.take_append_drop]

/-- **The frames that are handed on from a packet lie inside the datagram if and only if** there is
no jitter buffer or the packet consists of whole frames, as many as its type says or up to the
header of one; **and a TL length does not trip the assertion if and only if** it is not a long one
that is cut off. -/
theorem receiveStreamData_inside_iff
    (hdecrypt : ∀ data key iv, (crypto.aesIgeDecrypt data key iv).length = data.length)
    (hreceived : receivePacket crypto key isOutgoing src datagram = .ok (header, s))
    (hstream : isStreamData header.type = true) (jitterBuffer : Bool) :
    (FramesInside (receiveStreamData jitterBuffer header.type s).1 (datagram.take 1024).length ↔
      (jitterBuffer = true → WholeFrames (frameCount header.type) s.rest)) ∧
    ∀ tl : BufferInputStream,
      (readTlLengthAsserting tl ≠ .error .assertion ↔ ¬ CutTlLength tl.rest) := by
  refine ⟨?_, readTlLengthAsserting_iff⟩
  rw [receiveStreamData, if_pos hstream, ← length_receivePacket hdecrypt hreceived]
  cases jitterBuffer with
  | false =>
      rw [readFrames_none]
      exact iff_of_true (fun frame hframe => by cases hframe) (fun h => by cases h)
  | true =>
      rw [framesInside_iff]
      exact ⟨fun h _ => h, fun h => h rfl⟩

end Packets

/-- The datagram in which a relay forwards the first packet of a call, a stream packet. -/
def streamDatagram (payload : List UInt8) : List UInt8 :=
  (sendPending plainCrypto zeroKey true false true true (freshHeader .waitInit) zeroRandom
    1 PKT_STREAM_DATA payload zeroRelay).getD []

/-- What is read off a packet that is received. -/
theorem receivePacket_of_map {α : Type} {x : Except Rejection (PacketHeader × BufferInputStream)}
    {f : PacketHeader × BufferInputStream → α} {a : α} (h : x.toOption.map f = some a) :
    ∃ header s, x = .ok (header, s) ∧ f (header, s) = a := by
  cases x with
  | error e => cases h
  | ok packet => exact ⟨packet.1, packet.2, rfl, Option.some.inj h⟩

/-- A frame of two bytes is handed on as it is. -/
theorem receiveStreamData_inside_frame :
    ∃ header s, receivePacket plainCrypto zeroKey false zeroRelay
        (streamDatagram [1, 2, 0, 0, 0, 0, 7, 8]) = .ok (header, s) ∧
      FramesInside (receiveStreamData true header.type s).1
        ((streamDatagram [1, 2, 0, 0, 0, 0, 7, 8]).take 1024).length := by
  obtain ⟨header, s, hreceived, hread⟩ := receivePacket_of_map (f := fun p => (p.1.type, p.2.rest))
    (x := receivePacket plainCrypto zeroKey false zeroRelay
      (streamDatagram [1, 2, 0, 0, 0, 0, 7, 8]))
    (a := (PKT_STREAM_DATA, [1, 2, 0, 0, 0, 0, 7, 8, 0, 0, 0, 0, 0, 0, 0, 0, 0, 0, 0]))
    (by decide +kernel)
  obtain ⟨htype, hrest⟩ := Prod.mk.inj hread
  refine ⟨header, s, hreceived, ?_⟩
  refine (receiveStreamData_inside_iff (fun _ _ _ => rfl) hreceived ?_ true).1.mpr fun _ => ?_
  · rw [htype]
    decide
  · rw [htype, hrest]
    exact ⟨[⟨1, 0, [7, 8], by decide⟩], List.replicate 11 0, by decide, .inl rfl⟩

/-- **A frame that declares more than there is** is handed on, and a TL length of which there is
one byte trips the assertion. -/
theorem not_receiveStreamData_inside :
    (∃ header s, receivePacket plainCrypto zeroKey false zeroRelay
        (streamDatagram [1, 255, 0, 0, 0, 0]) = .ok (header, s) ∧
      isStreamData header.type = true ∧
      ¬ FramesInside (receiveStreamData true header.type s).1
        ((streamDatagram [1, 255, 0, 0, 0, 0]).take 1024).length) ∧
    readTlLengthAsserting ⟨[], [254]⟩ = .error .assertion := by
  refine ⟨?_, rfl⟩
  obtain ⟨header, s, hreceived, hread⟩ := receivePacket_of_map
    (f := fun p => (isStreamData p.1.type, (receiveStreamData true p.1.type p.2).1.all fun frame =>
      frame.offset + frame.sdlen.toNat ≤ ((streamDatagram [1, 255, 0, 0, 0, 0]).take 1024).length))
    (x := receivePacket plainCrypto zeroKey false zeroRelay (streamDatagram [1, 255, 0, 0, 0, 0]))
    (a := (true, false)) (by decide +kernel)
  obtain ⟨htype, hframes⟩ := Prod.mk.inj hread
  refine ⟨header, s, hreceived, htype, fun hinside => ?_⟩
  have hall : ((receiveStreamData true header.type s).1.all fun frame =>
      frame.offset + frame.sdlen.toNat ≤
        ((streamDatagram [1, 255, 0, 0, 0, 0]).take 1024).length) = true :=
    List.all_eq_true.mpr fun frame hframe => decide_eq_true (hinside frame hframe)
  rw [hall] at hframes
  cases hframes

end Telegraph.VoIP
