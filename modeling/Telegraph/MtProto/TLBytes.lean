import Telegraph.MtProto.InputStream

/-!
# The Round Trip of TL Byte Strings

A TL byte string is its length, its bytes and zero padding to a multiple of four; the
length takes one byte below 254 and the byte 254 with three more from there on. The same
code writes it in `MTBuffer` and in `MTOutputStream`; `MTBufferReader` and
`MTInputStream` each have a decoder of their own.

## Main results

* `tlBytes_short` / `tlBytes_long`: the two forms of an encoded string.
* `bufferRoundTrip_iff` / `streamRoundTrip_iff`: **each pair round trips exactly below
  `2 ^ 23`**, where the decoders still read the length as a positive number.
* `tlBytes_roundTrip_iff`: the two together, for every string shorter than `2 ^ 24`.
-/

open Bytes

namespace Telegraph.MtProto

/-! ### The writers -/

/-- `roundUp`. -/
def roundUp (numToRound multiple : ℤ) : ℤ :=
  if multiple = 0 then numToRound
  else if numToRound.tmod multiple = 0 then numToRound
  else numToRound + multiple - numToRound.tmod multiple

/-- What `appendTLBytes:` appends, and `writeBytes:` writes, for a given `NSData`. From
`2 ^ 31` on the length can come out negative, and appending that many bytes raises. -/
def tlBytes (bytes : Option (List UInt8)) : Option (List UInt8) :=
  match bytes with
  | none => some (toLE 4 0)
  | some bytes =>
      let length : ℤ := (BitVec.ofNat 32 bytes.length).toInt
      if length = 0 then
        some (toLE 4 0)
      else if length ≥ 254 then
        let paddingBytes := roundUp length 4 - length
        some ([254] ++ toLE 3 length.toNat ++ bytes.take length.toNat ++
          List.replicate paddingBytes.toNat 0)
      else if length < 0 then
        none
      else
        let paddingBytes := roundUp (length + 1) 4 - (length + 1)
        some (toLE 1 length.toNat ++ bytes.take length.toNat ++
          List.replicate paddingBytes.toNat 0)

/-- An `MTBuffer`. -/
structure MTBuffer where
  data : List UInt8
deriving DecidableEq

/-- `appendTLBytes:`. -/
def MTBuffer.appendTLBytes (b : MTBuffer) (bytes : Option (List UInt8)) : Option MTBuffer :=
  (tlBytes bytes).map fun w => ⟨b.data ++ w⟩

/-- An `MTOutputStream`, with what its memory stream holds. -/
structure MTOutputStream where
  currentBytes : List UInt8
deriving DecidableEq

/-- `writeBytes:`. -/
def MTOutputStream.writeBytes (os : MTOutputStream) (data : Option (List UInt8)) :
    Option MTOutputStream :=
  (tlBytes data).map fun w => ⟨os.currentBytes ++ w⟩

theorem appendTLBytes_nil (bytes : Option (List UInt8)) :
    MTBuffer.appendTLBytes ⟨[]⟩ bytes = (tlBytes bytes).map MTBuffer.mk := rfl

theorem writeBytes_nil (data : Option (List UInt8)) :
    MTOutputStream.writeBytes ⟨[]⟩ data = (tlBytes data).map MTOutputStream.mk := rfl

theorem roundUp_eq (n m : ℤ) : roundUp n m = roundUpInput n m := rfl

/-- The padding of the short form. -/
def shortPadding (n : ℕ) : List UInt8 :=
  List.replicate ((4 - (n + 1) % 4) % 4) 0

/-- The padding of the long form. -/
def longPadding (n : ℕ) : List UInt8 :=
  List.replicate ((4 - n % 4) % 4) 0

/-- A string encoded with a length byte. -/
def shortForm (s : List UInt8) : List UInt8 :=
  toLE 1 s.length ++ s ++ shortPadding s.length

/-- A string encoded with three length bytes after 254. -/
def longForm (s : List UInt8) : List UInt8 :=
  [254] ++ toLE 3 s.length ++ s ++ longPadding s.length

/-- Below 254 the writers choose the short form. -/
theorem tlBytes_short {s : List UInt8} (h : s.length < 254) :
    tlBytes (some s) = some (shortForm s) := by
  have hlen : (BitVec.ofNat 32 s.length).toInt = s.length := toInt_length (by omega)
  by_cases h0 : s.length = 0
  · rw [List.length_eq_zero_iff.mp h0]
    rfl
  · have hzero : ¬ (s.length : ℤ) = 0 := by omega
    have hlong : ¬ (s.length : ℤ) ≥ 254 := by omega
    have hneg : ¬ (s.length : ℤ) < 0 := by omega
    have hpad := roundUpInput_sub (s.length + 1)
    push_cast at hpad
    simp only [tlBytes, hlen, if_neg hzero, if_neg hlong, if_neg hneg, Int.toNat_natCast,
      List.take_length, roundUp_eq, hpad, shortForm, shortPadding]
    norm_cast

/-- From 254 on they choose the long one. -/
theorem tlBytes_long {s : List UInt8} (h : 254 ≤ s.length) (hlt : s.length < 2 ^ 31) :
    tlBytes (some s) = some (longForm s) := by
  have hlen : (BitVec.ofNat 32 s.length).toInt = s.length := toInt_length hlt
  have hzero : ¬ (s.length : ℤ) = 0 := by omega
  have hlong : (s.length : ℤ) ≥ 254 := by omega
  simp only [tlBytes, hlen, if_neg hzero, if_pos hlong, Int.toNat_natCast,
    List.take_length, roundUp_eq, roundUpInput_sub, longForm, longPadding]

/-! ### The round trips -/

/-- Appending `s` to an empty buffer and reading it back with `t` behind it gives `s`, and
leaves the reader at `t`. -/
def BufferRoundTrip (s t : List UInt8) : Prop :=
  ∃ b : MTBuffer, MTBuffer.appendTLBytes ⟨[]⟩ (some s) = some b ∧
    ∃ as, readTLBytes (b.data ++ t) 0 = ⟨.value s, b.data.length, as⟩

/-- The same for the streams, with the `failed` flag left clear. -/
def StreamRoundTrip (s t : List UInt8) : Prop :=
  ∃ os : MTOutputStream, MTOutputStream.writeBytes ⟨[]⟩ (some s) = some os ∧
    MTInputStream.readBytes ⟨os.currentBytes ++ t⟩ false = ⟨some s, false, ⟨t⟩⟩

/-- A short string starts with its length. -/
theorem leNat_shortForm {s : List UInt8} (h : s.length < 254) (t : List UInt8) :
    leNat (((shortForm s ++ t).drop 0).take 1) = s.length := by
  rw [List.drop_zero, shortForm, List.append_assoc, List.append_assoc,
    List.take_left' (length_toLE 1 _)]
  exact leNat_toLE_of_lt (by omega)

/-- A long string has its length in the three bytes after 254. -/
theorem leNat_longForm {s : List UInt8} (h : s.length < 2 ^ 24) (t : List UInt8) :
    leNat (((longForm s ++ t).drop 1).take 3) = s.length := by
  rw [longForm, List.append_assoc, List.append_assoc, List.append_assoc,
    List.drop_left' (List.length_singleton), List.take_left' (length_toLE 3 _)]
  exact leNat_toLE_of_lt (by omega)

/-- The buffer reader on the short form. -/
theorem readTLBytes_short {s : List UInt8} (h : s.length < 254) (t : List UInt8) :
    ∃ as, readTLBytes (shortForm s ++ t) 0 = ⟨.value s, (shortForm s).length, as⟩ := by
  have hpad : (shortPadding s.length).length = (4 - (s.length + 1) % 4) % 4 :=
    List.length_replicate
  have hlen : 1 ≤ (shortForm s ++ t).length := by
    simp only [shortForm, List.length_append, length_toLE]
    omega
  obtain ⟨as, hbody⟩ := readTLBody_append (toLE 1 s.length) s (shortPadding s.length) t
    (by rw [length_toLE]; omega)
  rw [length_toLE, hpad] at hbody
  rw [readTLBytes_shortForm _ 0 hlen (by omega) (leNat_shortForm h t) (by omega)]
  refine ⟨[⟨0, 1, 1⟩] ++ as, ?_⟩
  simp only [shortForm, hbody, ReadResult.after_mk, List.length_append, length_toLE, hpad]

/-- The buffer reader on the long form, below `2 ^ 23`. -/
theorem readTLBytes_long {s : List UInt8} (h : s.length < 2 ^ 23) (t : List UInt8) :
    ∃ as, readTLBytes (longForm s ++ t) 0 = ⟨.value s, (longForm s).length, as⟩ := by
  have hpad : (longPadding s.length).length = (4 - s.length % 4) % 4 := List.length_replicate
  have hhead : ([254] ++ toLE 3 s.length : List UInt8).length = 4 := by simp
  have hlen : 4 ≤ (longForm s ++ t).length := by
    simp only [longForm, List.length_append, hhead]
    omega
  have htl : tlLength (((longForm s ++ t).drop (0 + 1)).take 3) = s.length := by
    have hn := leNat_longForm (s := s) (by omega) t
    rw [tlLength_of_lt (by rw [hn]; exact h), hn]
  obtain ⟨as, hbody⟩ := readTLBody_append ([254] ++ toLE 3 s.length) s (longPadding s.length) t
    (by rw [hhead]; omega)
  rw [hhead, hpad] at hbody
  rw [readTLBytes_longForm _ 0 hlen (by omega) rfl, htl, roundUpInput_sub]
  refine ⟨[⟨0, 1, 1⟩, ⟨1, 3, 4⟩] ++ as, ?_⟩
  simp only [longForm, hbody, ReadResult.after_mk, List.length_append, hhead, hpad]

/-- From `2 ^ 23` on the buffer reader has no value to give. -/
theorem readTLBytes_negative {s : List UInt8} (h : 2 ^ 23 ≤ s.length) (hlt : s.length < 2 ^ 24)
    (t bytes : List UInt8) : (readTLBytes (longForm s ++ t) 0).outcome ≠ .value bytes := by
  have hlen : 4 ≤ (longForm s ++ t).length := by
    simp only [longForm, List.length_append, length_toLE, List.length_singleton]
    omega
  have hn := leNat_longForm hlt t
  have hneg : tlLength (((longForm s ++ t).drop (0 + 1)).take 3) < 0 := by
    rw [tlLength_of_ge (by rw [hn]; exact h) (by rw [hn]; exact hlt), hn]
    omega
  rw [readTLBytes_longForm _ 0 hlen (by omega) rfl, ReadResult.after_outcome]
  exact readTLBody_negative_ne hneg bytes

/-- **The buffer pair round trips exactly below `2 ^ 23`.** -/
theorem bufferRoundTrip_iff {s : List UInt8} (hs : s.length < 2 ^ 24) (t : List UInt8) :
    BufferRoundTrip s t ↔ s.length < 2 ^ 23 := by
  constructor
  · rintro ⟨b, hb, as, hread⟩
    by_contra hge
    rw [appendTLBytes_nil, tlBytes_long (by omega) (by omega), Option.map_some] at hb
    obtain rfl := Option.some.inj hb
    refine readTLBytes_negative (not_lt.mp hge) hs t s ?_
    rw [hread]
  · intro h
    by_cases hshort : s.length < 254
    · refine ⟨⟨shortForm s⟩, ?_, readTLBytes_short hshort t⟩
      rw [appendTLBytes_nil, tlBytes_short hshort, Option.map_some]
    · refine ⟨⟨longForm s⟩, ?_, readTLBytes_long h t⟩
      rw [appendTLBytes_nil, tlBytes_long (not_lt.mp hshort) (by omega), Option.map_some]

/-- The stream reader on the short form. -/
theorem streamRead_short {s : List UInt8} (h : s.length < 254) (t : List UInt8) :
    MTInputStream.readBytes ⟨shortForm s ++ t⟩ false = ⟨some s, false, ⟨t⟩⟩ := by
  have hpad : roundUpInput ((s.length : ℤ) + 1) 4 - (s.length + 1) =
      (shortPadding s.length).length := by
    have hsub := roundUpInput_sub (s.length + 1)
    rw [shortPadding, List.length_replicate, ← hsub]
    push_cast
    rfl
  have hn := leNat_shortForm h t
  rw [List.drop_zero] at hn
  have hdrop : (shortForm s ++ t).drop 1 = s ++ shortPadding s.length ++ t := by
    rw [shortForm, List.append_assoc, List.append_assoc, List.drop_left' (length_toLE 1 _),
      List.append_assoc]
  have hne : s.length ≠ 254 := by omega
  simp only [MTInputStream.readBytes, MTInputStream.read, hn, if_neg hne, hdrop, hpad]
  exact readBody_append

/-- The stream reader takes the long form for a string of `tlLength` bytes. -/
theorem streamRead_longForm (s t : List UInt8) :
    MTInputStream.readBytes ⟨longForm s ++ t⟩ false =
      MTInputStream.readBody ⟨s ++ longPadding s.length ++ t⟩ false
        (tlLength (((longForm s ++ t).drop 1).take 3))
        (roundUpInput (tlLength (((longForm s ++ t).drop 1).take 3)) 4 -
          tlLength (((longForm s ++ t).drop 1).take 3)) := by
  have h254 : leNat ((longForm s ++ t).take 1) = 254 := rfl
  have hdrop : ((longForm s ++ t).drop 1).drop 3 = s ++ longPadding s.length ++ t := by
    rw [longForm, List.append_assoc, List.append_assoc, List.append_assoc,
      List.drop_left' (List.length_singleton), List.drop_left' (length_toLE 3 _),
      List.append_assoc]
  simp only [MTInputStream.readBytes, MTInputStream.read, h254, if_true, hdrop]

/-- The stream reader on the long form, below `2 ^ 23`. -/
theorem streamRead_long {s : List UInt8} (h : s.length < 2 ^ 23) (t : List UInt8) :
    MTInputStream.readBytes ⟨longForm s ++ t⟩ false = ⟨some s, false, ⟨t⟩⟩ := by
  have htl : tlLength (((longForm s ++ t).drop 1).take 3) = s.length := by
    have hn := leNat_longForm (s := s) (by omega) t
    rw [tlLength_of_lt (by rw [hn]; exact h), hn]
  have hpad : roundUpInput (s.length : ℤ) 4 - s.length = (longPadding s.length).length := by
    rw [roundUpInput_sub, longPadding, List.length_replicate]
  rw [streamRead_longForm, htl, hpad]
  exact readBody_append

/-- From `2 ^ 23` on the stream reader fails. -/
theorem streamRead_negative {s : List UInt8} (h : 2 ^ 23 ≤ s.length) (hlt : s.length < 2 ^ 24)
    (t : List UInt8) : (MTInputStream.readBytes ⟨longForm s ++ t⟩ false).failed = true := by
  have hneg : tlLength (((longForm s ++ t).drop 1).take 3) < 0 := by
    have hn := leNat_longForm hlt t
    rw [tlLength_of_ge (by rw [hn]; exact h) (by rw [hn]; exact hlt), hn]
    omega
  rw [streamRead_longForm]
  exact readBody_negative hneg

/-- **The stream pair round trips exactly below `2 ^ 23`.** -/
theorem streamRoundTrip_iff {s : List UInt8} (hs : s.length < 2 ^ 24) (t : List UInt8) :
    StreamRoundTrip s t ↔ s.length < 2 ^ 23 := by
  constructor
  · rintro ⟨os, hos, hread⟩
    by_contra hge
    rw [writeBytes_nil, tlBytes_long (by omega) (by omega), Option.map_some] at hos
    obtain rfl := Option.some.inj hos
    have hfailed := streamRead_negative (not_lt.mp hge) hs t
    rw [hread] at hfailed
    exact absurd hfailed Bool.false_ne_true
  · intro h
    by_cases hshort : s.length < 254
    · refine ⟨⟨shortForm s⟩, ?_, streamRead_short hshort t⟩
      rw [writeBytes_nil, tlBytes_short hshort, Option.map_some]
    · refine ⟨⟨longForm s⟩, ?_, streamRead_long h t⟩
      rw [writeBytes_nil, tlBytes_long (not_lt.mp hshort) (by omega), Option.map_some]

/-- **The round trip of TL byte strings.** For a string shorter than `2 ^ 24`, each of the
two writer and reader pairs gives it back, whatever follows, if and only if it is shorter
than `2 ^ 23`. -/
theorem tlBytes_roundTrip_iff (s t : List UInt8) (hs : s.length < 2 ^ 24) :
    (BufferRoundTrip s t ↔ s.length < 2 ^ 23) ∧ (StreamRoundTrip s t ↔ s.length < 2 ^ 23) :=
  ⟨bufferRoundTrip_iff hs t, streamRoundTrip_iff hs t⟩

/-- A one-byte string, with a byte behind it. -/
theorem tlBytes_roundTrip_byte :
    (BufferRoundTrip [7] [9] ↔ [(7 : UInt8)].length < 2 ^ 23) ∧
      (StreamRoundTrip [7] [9] ↔ [(7 : UInt8)].length < 2 ^ 23) :=
  tlBytes_roundTrip_iff [7] [9] (by decide)

/-- A string of `2 ^ 23` zero bytes comes back from neither reader. -/
theorem tlBytes_roundTrip_8MiB :
    ¬ BufferRoundTrip (List.replicate (2 ^ 23) 0) [] ∧
      ¬ StreamRoundTrip (List.replicate (2 ^ 23) 0) [] := by
  have hlen : (List.replicate (2 ^ 23) (0 : UInt8)).length = 2 ^ 23 := List.length_replicate
  constructor
  · rw [bufferRoundTrip_iff (by rw [hlen]; decide), hlen]
    exact lt_irrefl _
  · rw [streamRoundTrip_iff (by rw [hlen]; decide), hlen]
    exact lt_irrefl _

end Telegraph.MtProto
