import Telegraph.Coder.FieldScan
import Telegraph.MtProto.TLBytes

/-!
# The Streams of TL Objects

The categories of `NSOutputStream` and `NSInputStream` that write and read integers, data and TL
byte strings. Their code for byte strings is the one of `MTOutputStream` and `MTInputStream`. The
reads have no flag for a failure: only `readInt32` raises where the stream ends.

## Main results

* `readBytes_form`, `readString_form`: a byte string below `2 ^ 23` is read back, and what is behind
  it is left.
* `not_readBytes_of_not_fits`, `not_readString_of_not_fits`: **a byte string that does not fit is
  not read back.**
-/

open Bytes

namespace Telegraph.TL

open Telegraph.Coder (utf8 stringWithUTF8 stringWithUTF8_utf8)
open Telegraph.MtProto (tlBytes tlLength roundUpInput shortForm longForm shortPadding longPadding)

/-! ### The writers -/

/-- `writeInt32:`. -/
def writeInt32 (value : BitVec 32) : List UInt8 := toLE 4 value.toNat

/-- `writeInt64:`, and `writeDouble:` of the bits of a `double`. -/
def writeInt64 (value : BitVec 64) : List UInt8 := toLE 8 value.toNat

/-- `writeBytes:`, which is the one of `MTOutputStream`; `none` where it runs past the data. -/
def writeBytes (data : Option (List UInt8)) : Option (List UInt8) := tlBytes data

/-- `writeString:`. A string without UTF-8 bytes is written as `nil` is. -/
def writeString (string : Option String) : Option (List UInt8) := tlBytes (string.map utf8)

/-! ### The readers -/

/-- `readInt32`, which raises at the end of the stream. -/
def readInt32 (is : List UInt8) : Option (BitVec 32 × List UInt8) :=
  if is.length < 4 then none else some (BitVec.ofNat 32 (leNat (is.take 4)), is.drop 4)

/-- `readInt64`, and the bits of `readDouble`. What is missing stays zero. -/
def readInt64 (is : List UInt8) : BitVec 64 × List UInt8 :=
  (BitVec.ofNat 64 (leNat (is.take 8)), is.drop 8)

/-- `readData:`. Where the stream ends the rest of the buffer is what `malloc` left there, which is
no value. -/
def readData (length : ℕ) (is : List UInt8) : Option (List UInt8 × List UInt8) :=
  if is.length < length then none else some (is.take length, is.drop length)

/-- The length and the number of padding bytes of a byte string, and what is left. -/
def readLength (is : List UInt8) : ℤ × ℤ × List UInt8 :=
  if leNat (is.take 1) = 254 then
    let length := tlLength ((is.drop 1).take 3)
    (length, roundUpInput length 4 - length, (is.drop 1).drop 3)
  else
    let length : ℤ := leNat (is.take 1)
    (length, roundUpInput (length + 1) 4 - (length + 1), is.drop 1)

/-- `readBytes`. For a negative length there is no buffer. -/
def readBytes (is : List UInt8) : Option (List UInt8 × List UInt8) :=
  let (length, paddingBytes, is) := readLength is
  if length < 0 then none
  else (readData length.toNat is).map fun (data, is) => (data, is.drop paddingBytes.toNat)

/-- `readString`; without a positive length the string is empty. -/
def readString (is : List UInt8) : Option (Option String × List UInt8) :=
  let (length, paddingBytes, is) := readLength is
  if 0 < length then
    (readData length.toNat is).map fun (data, is) =>
      (stringWithUTF8 data, is.drop paddingBytes.toNat)
  else some (some "", is.drop paddingBytes.toNat)

/-! ### Integers and data -/

variable {s t data w : List UInt8}

/-- An `int32_t` is read back. -/
theorem readInt32_write (value : BitVec 32) (t : List UInt8) :
    readInt32 (writeInt32 value ++ t) = some (value, t) := by
  have hlength : (writeInt32 value).length = 4 := length_toLE 4 _
  rw [readInt32, if_neg (by rw [List.length_append, hlength]; omega), List.take_left' hlength,
    List.drop_left' hlength, writeInt32, leNat_toLE_of_lt (by have := value.isLt; omega),
    BitVec.ofNat_toNat, BitVec.setWidth_eq]

/-- An `int64_t` is read back. -/
theorem readInt64_write (value : BitVec 64) (t : List UInt8) :
    readInt64 (writeInt64 value ++ t) = (value, t) := by
  have hlength : (writeInt64 value).length = 8 := length_toLE 8 _
  rw [readInt64, List.take_left' hlength, List.drop_left' hlength, writeInt64,
    leNat_toLE_of_lt (by have := value.isLt; omega), BitVec.ofNat_toNat, BitVec.setWidth_eq]

/-- Data is read back. -/
theorem readData_append (s t : List UInt8) : readData s.length (s ++ t) = some (s, t) := by
  rw [readData, if_neg (by rw [List.length_append]; omega), List.take_left, List.drop_left]

/-- What a read of data leaves. -/
theorem readData_eq_some {length : ℕ} {is rest : List UInt8}
    (h : readData length is = some (data, rest)) : rest = is.drop length := by
  rw [readData] at h
  split at h
  · exact absurd h (Option.some_ne_none _).symm
  · exact (Prod.ext_iff.mp (Option.some.inj h)).2.symm

/-! ### Byte strings -/

/-- The length of the short form. -/
theorem readLength_shortForm (h : s.length < 254) (t : List UInt8) :
    readLength (shortForm s ++ t) =
      ((s.length : ℤ), ((shortPadding s.length).length : ℤ),
        s ++ (shortPadding s.length ++ t)) := by
  have hn := MtProto.leNat_shortForm h t
  rw [List.drop_zero] at hn
  have hpad : roundUpInput ((s.length : ℤ) + 1) 4 - (s.length + 1) =
      (shortPadding s.length).length := by
    have hsub := MtProto.roundUpInput_sub (s.length + 1)
    rw [shortPadding, List.length_replicate, ← hsub]
    push_cast
    rfl
  have hdrop : (shortForm s ++ t).drop 1 = s ++ (shortPadding s.length ++ t) := by
    rw [shortForm, List.append_assoc, List.append_assoc, List.drop_left' (length_toLE 1 _)]
  rw [readLength, hn, if_neg (by omega)]
  dsimp only
  rw [hpad, hdrop]

/-- The length of the long form. -/
theorem readLength_longForm (s t : List UInt8) :
    readLength (longForm s ++ t) =
      (tlLength (toLE 3 s.length), roundUpInput (tlLength (toLE 3 s.length)) 4 -
        tlLength (toLE 3 s.length), s ++ (longPadding s.length ++ t)) := by
  have hfirst : leNat ((longForm s ++ t).take 1) = 254 := rfl
  have hrest : (longForm s ++ t).drop 1 =
      toLE 3 s.length ++ (s ++ (longPadding s.length ++ t)) := by
    rw [longForm, List.append_assoc, List.append_assoc, List.append_assoc,
      List.drop_left' List.length_singleton]
  rw [readLength, hfirst, if_pos rfl, hrest, List.take_left' (length_toLE 3 _),
    List.drop_left' (length_toLE 3 _)]

/-- Seven padding bytes at most. -/
theorem padding_le (length : ℤ) : (roundUpInput length 4 - length).toNat ≤ 7 := by
  have hlow : -4 < length.tmod 4 := by
    have h := Int.lt_tmod_of_pos length (by omega : (0 : ℤ) < 4)
    omega
  have hmod : roundUpInput length 4 =
      if length.tmod 4 = 0 then length else length + 4 - length.tmod 4 := by
    rw [roundUpInput, if_neg (by omega)]
  rw [hmod]
  split <;> omega

/-- The length that three bytes announce. -/
theorem tlLength_toLE {n : ℕ} (h : n < 2 ^ 23) : tlLength (toLE 3 n) = n := by
  have hn : leNat (toLE 3 n) = n := leNat_toLE_of_lt (by omega)
  rw [MtProto.tlLength_of_lt (by rw [hn]; exact h), hn]

/-- From `2 ^ 23` on, three bytes announce less. -/
theorem tlLength_add_lt {n : ℕ} (h : 2 ^ 23 ≤ n) : tlLength (toLE 3 n) + 7 < n := by
  have hn : leNat (toLE 3 n) = n % 256 ^ 3 := leNat_toLE 3 n
  rcases lt_or_ge (n % 256 ^ 3) (2 ^ 23) with hlt | hge
  · rw [MtProto.tlLength_of_lt (by rw [hn]; exact hlt), hn]
    omega
  · rw [MtProto.tlLength_of_ge (by rw [hn]; exact hge) (by rw [hn]; omega)]
    omega

/-- A byte string in its form. -/
def IsForm (s w : List UInt8) : Prop :=
  s.length < 254 ∧ w = shortForm s ∨ 254 ≤ s.length ∧ w = longForm s

/-- A form has bytes. -/
theorem IsForm.ne_nil (hform : IsForm s w) : w ≠ [] := by
  rcases hform with ⟨-, rfl⟩ | ⟨-, rfl⟩
  · rintro ⟨⟩
  · rintro ⟨⟩

/-- What is read of a byte string below `2 ^ 23`. -/
theorem readLength_form (hform : IsForm s w) (h : s.length < 2 ^ 23) (t : List UInt8) :
    ∃ padding, readLength (w ++ t) =
      ((s.length : ℤ), ((padding : List UInt8).length : ℤ), s ++ (padding ++ t)) := by
  rcases hform with ⟨hshort, rfl⟩ | ⟨-, rfl⟩
  · exact ⟨_, readLength_shortForm hshort t⟩
  · refine ⟨longPadding s.length, ?_⟩
    have hpad : roundUpInput (s.length : ℤ) 4 - s.length = ((longPadding s.length).length : ℤ) := by
      rw [MtProto.roundUpInput_sub, longPadding, List.length_replicate]
    rw [readLength_longForm, tlLength_toLE h, hpad]

/-- Bytes below `2 ^ 23` are read back. -/
theorem readBytes_form (hform : IsForm s w) (h : s.length < 2 ^ 23) (t : List UInt8) :
    readBytes (w ++ t) = some (s, t) := by
  obtain ⟨padding, hlength⟩ := readLength_form hform h t
  rw [readBytes, hlength]
  dsimp only
  rw [if_neg (by omega), Int.toNat_natCast s.length, readData_append, Option.map_some,
    Int.toNat_natCast padding.length]
  dsimp only
  rw [List.drop_left]

/-- A string below `2 ^ 23` is read back, as far as its bytes are one. -/
theorem readString_form (hform : IsForm s w) (h : s.length < 2 ^ 23) (t : List UInt8) :
    readString (w ++ t) = some (stringWithUTF8 s, t) := by
  obtain ⟨padding, hlength⟩ := readLength_form hform h t
  rw [readString, hlength]
  dsimp only
  by_cases hpos : (0 : ℤ) < s.length
  · rw [if_pos hpos, Int.toNat_natCast s.length, readData_append, Option.map_some,
      Int.toNat_natCast padding.length]
    dsimp only
    rw [List.drop_left]
  · obtain rfl : s = [] := List.length_eq_zero_iff.mp (by omega)
    rw [if_neg hpos, Int.toNat_natCast, List.nil_append, List.drop_left]
    exact congrArg (fun string => some (string, t)) (stringWithUTF8_utf8 "").symm

/-- Of bytes from `2 ^ 23` on something is left. -/
theorem readBytes_ne (hlong : 2 ^ 23 ≤ s.length) (v t : List UInt8) :
    readBytes (longForm s ++ t) ≠ some (v, t) := by
  have hlt := tlLength_add_lt hlong
  have hle := padding_le (tlLength (toLE 3 s.length))
  rw [readBytes, readLength_longForm]
  dsimp only
  generalize tlLength (toLE 3 s.length) = length at hlt hle ⊢
  split
  · exact (Option.some_ne_none _).symm
  · intro h
    obtain ⟨⟨data, rest⟩, hdata, heq⟩ := Option.map_eq_some_iff.mp h
    have hrest := (Prod.ext_iff.mp heq).2
    dsimp only at hrest
    rw [readData_eq_some hdata] at hrest
    have hlen := congrArg List.length hrest
    simp only [List.length_drop, List.length_append] at hlen
    omega

/-- Of a string from `2 ^ 23` on something is left. -/
theorem readString_ne (hlong : 2 ^ 23 ≤ s.length) (v : Option String) (t : List UInt8) :
    readString (longForm s ++ t) ≠ some (v, t) := by
  have hlt := tlLength_add_lt hlong
  have hle := padding_le (tlLength (toLE 3 s.length))
  rw [readString, readLength_longForm]
  dsimp only
  generalize tlLength (toLE 3 s.length) = length at hlt hle ⊢
  intro h
  split at h
  · obtain ⟨⟨data, rest⟩, hdata, heq⟩ := Option.map_eq_some_iff.mp h
    have hrest := (Prod.ext_iff.mp heq).2
    dsimp only at hrest
    rw [readData_eq_some hdata] at hrest
    have hlen := congrArg List.length hrest
    simp only [List.length_drop, List.length_append] at hlen
    omega
  · have hrest := (Prod.ext_iff.mp (Option.some.inj h)).2
    have hlen := congrArg List.length hrest
    simp only [List.length_drop, List.length_append] at hlen
    omega

/-- What is written for bytes: an empty string, nothing, or as many of them as the length says that
is cast to `int32_t`. -/
theorem tlBytes_cases (d : List UInt8) :
    d.length % 2 ^ 32 = 0 ∧ tlBytes (some d) = some (shortForm []) ∨
      tlBytes (some d) = none ∧ 2 ^ 31 ≤ d.length ∧ d.length % 2 ^ 32 ≠ 0 ∨
        ∃ s w, tlBytes (some d) = some w ∧ IsForm s w ∧ 0 < s.length ∧
          s.length = d.length % 2 ^ 32 ∧ s = d.take s.length := by
  have hlt : d.length % 2 ^ 32 < 2 ^ 32 := Nat.mod_lt _ (by decide)
  have hle : d.length % 2 ^ 32 ≤ d.length := Nat.mod_le _ _
  have hint : (BitVec.ofNat 32 d.length).toInt =
      if d.length % 2 ^ 32 < 2 ^ 31 then ((d.length % 2 ^ 32 : ℕ) : ℤ)
      else ((d.length % 2 ^ 32 : ℕ) : ℤ) - 2 ^ 32 := by
    rw [BitVec.toInt_eq_toNat_cond, BitVec.toNat_ofNat]
    split <;> split <;> omega
  rcases Nat.eq_zero_or_pos (d.length % 2 ^ 32) with hzero | hpos
  · left
    refine ⟨hzero, ?_⟩
    rw [tlBytes, hint, hzero]
    rfl
  right
  rcases le_or_gt (2 ^ 31) (d.length % 2 ^ 32) with hneg | hfit
  · left
    refine ⟨?_, hneg.trans hle, by omega⟩
    rw [tlBytes, hint, if_neg (not_lt.mpr hneg)]
    dsimp only
    rw [if_neg (by omega), if_neg (by omega), if_pos (by omega)]
  · right
    have hs : (d.take (d.length % 2 ^ 32)).length = d.length % 2 ^ 32 := by
      rw [List.length_take, min_eq_left hle]
    have hsame : tlBytes (some d) = tlBytes (some (d.take (d.length % 2 ^ 32))) := by
      rw [tlBytes, tlBytes, hs, toInt_length hfit, hint, if_pos hfit]
      dsimp only
      rw [Int.toNat_natCast, List.take_take, min_self]
    rw [hsame]
    rcases lt_or_ge (d.length % 2 ^ 32) 254 with hshort | hlong
    · exact ⟨_, _, MtProto.tlBytes_short (by rw [hs]; exact hshort),
        Or.inl ⟨by rw [hs]; exact hshort, rfl⟩, by rw [hs]; exact hpos, hs, by rw [hs]⟩
    · exact ⟨_, _, MtProto.tlBytes_long (by rw [hs]; exact hlong) (by rw [hs]; exact hfit),
        Or.inr ⟨by rw [hs]; exact hlong, rfl⟩, by rw [hs]; exact hpos, hs, by rw [hs]⟩

/-! ### Byte strings that fit -/

/-- A byte string fits: it has less than `2 ^ 23` bytes, or its length as an `int32_t` is 0. -/
def Fits : Option (List UInt8) → Prop
  | none => True
  | some d => d.length < 2 ^ 23 ∨ d.length % 2 ^ 32 = 0

variable {d : Option (List UInt8)}

/-- A byte string that fits is written in a form of it, or as the empty one. -/
theorem tlBytes_of_fits (h : Fits d) :
    ∃ s w, tlBytes d = some w ∧ IsForm s w ∧ s.length < 2 ^ 23 ∧
      (s = [] ∧ (d.getD []).length % 2 ^ 32 = 0 ∨ d = some s) := by
  cases d with
  | none => exact ⟨[], _, rfl, Or.inl ⟨by decide, rfl⟩, by decide, Or.inl ⟨rfl, rfl⟩⟩
  | some d =>
      rcases tlBytes_cases d with ⟨hz, hw⟩ | ⟨-, hlong, hne⟩ | ⟨s, w, hw, hform, hpos, hs, htake⟩
      · exact ⟨[], _, hw, Or.inl ⟨by decide, rfl⟩, by decide, Or.inl ⟨rfl, hz⟩⟩
      · rcases h with h | h <;> omega
      · have hd : d.length < 2 ^ 23 := h.resolve_right (by omega)
        rw [Nat.mod_eq_of_lt (by omega)] at hs
        rw [hs, List.take_length] at htake
        exact ⟨s, w, hw, hform, by omega, Or.inr (congrArg some htake.symm)⟩

/-- A byte string that does not fit is written in a form of another one. -/
theorem tlBytes_of_not_fits (h : ¬ Fits d) (hw : tlBytes d = some w) :
    ∃ s, IsForm s w ∧ s ≠ [] ∧ (2 ^ 23 ≤ s.length ∨ d ≠ some s) := by
  cases d with
  | none => exact absurd trivial h
  | some d =>
      rw [Fits, not_or] at h
      rcases tlBytes_cases d with ⟨hzero, -⟩ | ⟨hnone, -⟩ | ⟨s, v, hv, hform, hpos, hs, -⟩
      · exact absurd hzero h.2
      · exact absurd (hnone.symm.trans hw) (Option.some_ne_none w).symm
      · obtain rfl := Option.some.inj (hv.symm.trans hw)
        refine ⟨s, hform, List.ne_nil_of_length_pos hpos, ?_⟩
        rcases le_or_gt (2 ^ 23) s.length with hlong | hshort
        · exact Or.inl hlong
        · refine Or.inr fun heq => ?_
          rw [Option.some.inj heq] at h
          exact h.1 hshort

/-- A string has the bytes that it was made of. -/
theorem utf8_of_stringWithUTF8 {string : String} (h : stringWithUTF8 s = some string) :
    utf8 string = s := by
  rw [stringWithUTF8, String.fromUTF8?] at h
  split at h
  · rw [← Option.some.inj h]
    rfl
  · exact absurd h (Option.some_ne_none _).symm

/-- **Bytes that do not fit are not read back.** -/
theorem not_readBytes_of_not_fits (h : ¬ Fits d) (hw : writeBytes d = some w) {v : List UInt8}
    (hread : readBytes (w ++ t) = some (v, t)) : v ≠ [] ∧ d ≠ some v := by
  obtain ⟨s, hform, hne, hlong | hother⟩ := tlBytes_of_not_fits h hw
  · rcases hform with ⟨hshort, -⟩ | ⟨-, rfl⟩
    · omega
    · exact absurd hread (readBytes_ne hlong v t)
  · rcases lt_or_ge s.length (2 ^ 23) with hshort | hlong
    · rw [readBytes_form hform hshort] at hread
      obtain rfl : s = v := (Prod.ext_iff.mp (Option.some.inj hread)).1
      exact ⟨hne, hother⟩
    · rcases hform with ⟨hshort, -⟩ | ⟨-, rfl⟩
      · omega
      · exact absurd hread (readBytes_ne hlong v t)

/-- **A string that does not fit is not read back.** -/
theorem not_readString_of_not_fits (h : ¬ Fits d) (hw : tlBytes d = some w) {v : String}
    (hread : readString (w ++ t) = some (some v, t)) : v ≠ "" ∧ d ≠ some (utf8 v) := by
  obtain ⟨s, hform, hne, hlong | hother⟩ := tlBytes_of_not_fits h hw
  · rcases hform with ⟨hshort, -⟩ | ⟨-, rfl⟩
    · omega
    · exact absurd hread (readString_ne hlong _ t)
  · rcases lt_or_ge s.length (2 ^ 23) with hshort | hlong
    · rw [readString_form hform hshort] at hread
      have hv := utf8_of_stringWithUTF8 (Prod.ext_iff.mp (Option.some.inj hread)).1
      rw [hv]
      refine ⟨?_, hother⟩
      rintro rfl
      exact hne hv.symm
    · rcases hform with ⟨hshort, -⟩ | ⟨-, rfl⟩
      · omega
      · exact absurd hread (readString_ne hlong _ t)

end Telegraph.TL
