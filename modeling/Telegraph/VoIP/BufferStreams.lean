import Telegraph.Lib.Bytes

/-!
# Buffer Streams

`BufferInputStream` reads integers and TL lengths off a packet. A read past the end throws
`std::out_of_range`, which the receive thread catches; here it is the failure of the
reading monad. `BufferOutputStream` is a list of bytes that only grows.

A stream is kept split at its offset, so that `Seek` and every read move bytes from one
side to the other.

## Main results

* `readBytes_append`, `readByte_cons`, `readInt32_append`, `skip_append`: reads of what is
  there.
* `readTlLength_tlLength`: a TL length is read back.
-/

open Bytes

namespace Telegraph.VoIP

/-! ### Reading -/

/-- `BufferInputStream`: the bytes before the offset, and those from it on. -/
structure BufferInputStream where
  before : List UInt8
  rest : List UInt8
deriving DecidableEq

/-- A new stream over `buffer`. -/
def BufferInputStream.init (buffer : List UInt8) : BufferInputStream :=
  ⟨[], buffer⟩

/-- The whole buffer. -/
def BufferInputStream.buffer (s : BufferInputStream) : List UInt8 :=
  s.before ++ s.rest

/-- `GetOffset`. -/
def BufferInputStream.offset (s : BufferInputStream) : ℕ :=
  s.before.length

/-- `Remaining`. -/
def BufferInputStream.remaining (s : BufferInputStream) : ℕ :=
  s.rest.length

/-- A computation that reads off a stream, and may throw `std::out_of_range`. -/
abbrev StreamReader (α : Type) : Type :=
  StateT BufferInputStream Option α

/-- `ReadBytes`. -/
def readBytes (count : ℕ) : StreamReader (List UInt8) := fun s =>
  if s.rest.length < count then none
  else some (s.rest.take count, ⟨s.before ++ s.rest.take count, s.rest.drop count⟩)

/-- `ReadByte`. -/
def readByte : StreamReader UInt8 := fun s =>
  match s.rest with
  | [] => none
  | b :: rest => some (b, ⟨s.before ++ [b], rest⟩)

/-- `ReadInt16`. -/
def readInt16 : StreamReader (BitVec 16) := do
  let bytes ← readBytes 2
  pure (BitVec.ofNat 16 (leNat bytes))

/-- `ReadInt32`. -/
def readInt32 : StreamReader (BitVec 32) := do
  let bytes ← readBytes 4
  pure (BitVec.ofNat 32 (leNat bytes))

/-- `ReadInt64`. -/
def readInt64 : StreamReader (BitVec 64) := do
  let bytes ← readBytes 8
  pure (BitVec.ofNat 64 (leNat bytes))

/-- `ReadTlLength`; where the assertion in it would fail the read throws. -/
def readTlLength : StreamReader ℕ := do
  let l ← readByte
  if l < 254 then pure l.toNat
  else do
    let bytes ← readBytes 3
    pure (leNat bytes)

/-- `Seek(GetOffset() + count)`. -/
def skip (count : ℕ) : StreamReader Unit := do
  let _ ← readBytes count
  pure ()

/-! ### Writing -/

/-- The TL length as `WritePacketHeader` writes it. -/
def tlLength (length : ℕ) : List UInt8 :=
  if length ≤ 253 then [UInt8.ofNat length] else 254 :: toLE 3 length

/-! ### Reading what is there -/

section Bind

variable {α β : Type} (s : BufferInputStream)

@[simp] theorem pure_read (a : α) : (pure a : StreamReader α) s = some (a, s) := rfl

@[simp] theorem get_read : (get : StreamReader BufferInputStream) s = some (s, s) := rfl

@[simp] theorem modify_read (f : BufferInputStream → BufferInputStream) :
    (modify f : StreamReader PUnit) s = some ((), f s) := rfl

@[simp] theorem bind_read (m : StreamReader α) (f : α → StreamReader β) :
    (m >>= f) s = (m s).bind fun p => f p.1 p.2 := rfl

@[simp] theorem map_read (f : α → β) (m : StreamReader α) :
    (f <$> m) s = (m s).bind fun p => some (f p.1, p.2) := rfl

end Bind

section Reads

variable (before rest : List UInt8)

@[simp] theorem readBytes_append {count : ℕ} {bytes : List UInt8} (h : bytes.length = count) :
    readBytes count ⟨before, bytes ++ rest⟩ = some (bytes, ⟨before ++ bytes, rest⟩) := by
  subst h
  simp [readBytes]

@[simp] theorem readByte_cons (b : UInt8) :
    readByte ⟨before, b :: rest⟩ = some (b, ⟨before ++ [b], rest⟩) := rfl

@[simp] theorem skip_append {count : ℕ} {bytes : List UInt8} (h : bytes.length = count) :
    skip count ⟨before, bytes ++ rest⟩ = some ((), ⟨before ++ bytes, rest⟩) := by
  simp [skip, h]

@[simp] theorem readInt32_append (v : BitVec 32) :
    readInt32 ⟨before, toLE 4 v.toNat ++ rest⟩ =
      some (v, ⟨before ++ toLE 4 v.toNat, rest⟩) := by
  have hv : leNat (toLE 4 v.toNat) = v.toNat := leNat_toLE_of_lt v.isLt
  simp [readInt32, hv]

@[simp] theorem readInt64_append (v : BitVec 64) :
    readInt64 ⟨before, toLE 8 v.toNat ++ rest⟩ =
      some (v, ⟨before ++ toLE 8 v.toNat, rest⟩) := by
  have hv : leNat (toLE 8 v.toNat) = v.toNat := leNat_toLE_of_lt v.isLt
  simp [readInt64, hv]

/-- **A TL length is read back**, in its short and in its long form. -/
@[simp] theorem readTlLength_tlLength {length : ℕ} (h : length < 2 ^ 24) :
    readTlLength ⟨before, tlLength length ++ rest⟩ =
      some (length, ⟨before ++ tlLength length, rest⟩) := by
  by_cases hshort : length ≤ 253
  · have hlt : UInt8.ofNat length < 254 := by
      rw [UInt8.lt_iff_toNat_lt, UInt8.toNat_ofNat']
      change length % 256 < 254
      omega
    have hval : (UInt8.ofNat length).toNat = length := by
      rw [UInt8.toNat_ofNat']
      omega
    simp [tlLength, hshort, readTlLength, hlt, hval]
  · have hval : leNat (toLE 3 length) = length := leNat_toLE_of_lt h
    have hge : ¬ (254 : UInt8) < 254 := by decide
    simp [tlLength, hshort, readTlLength, hge, hval]

end Reads

end Telegraph.VoIP
