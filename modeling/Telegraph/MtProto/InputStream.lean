import Telegraph.MtProto.BufferReader

/-!
# The Input Stream

`MTInputStream` reads integers and TL byte strings off an `NSInputStream` over data. Only
the reads with a `failed` flag are modelled; reads of single bytes go unchecked, so a
stream that ends inside a header leaves the rest of the header zero.

## Main results

* `readBody_append`: a string and its padding that are there.
* `readBody_negative`: a negative length sets the flag.
-/

open Bytes

namespace Telegraph.MtProto

/-- An `MTInputStream`, with what its data stream still holds. -/
structure MTInputStream where
  rest : List UInt8
deriving DecidableEq

/-- `read:maxLength:` of the wrapped stream. -/
def MTInputStream.read (is : MTInputStream) (maxLength : ℕ) : List UInt8 × MTInputStream :=
  (is.rest.take maxLength, ⟨is.rest.drop maxLength⟩)

/-- An integer of `n` bytes, its `failed` flag, and the stream left. -/
structure StreamInt (w : ℕ) where
  value : BitVec w
  failed : Bool
  stream : MTInputStream

/-- `readInt32:` and `readInt64:`: anything but `n` bytes read sets the flag. -/
def MTInputStream.readInt (is : MTInputStream) (n w : ℕ) (failed : Bool) : StreamInt w :=
  let r := is.read n
  if r.1.length ≠ n then ⟨0, true, r.2⟩ else ⟨BitVec.ofNat w (leNat r.1), failed, r.2⟩

/-- `readInt32:`. -/
def MTInputStream.readInt32 (is : MTInputStream) (failed : Bool) : StreamInt 32 :=
  is.readInt 4 32 failed

/-- `readInt64:`. -/
def MTInputStream.readInt64 (is : MTInputStream) (failed : Bool) : StreamInt 64 :=
  is.readInt 8 64 failed

/-- What `readBytes:` returns, its `failed` flag, and the stream it leaves. -/
structure StreamRead where
  result : Option (List UInt8)
  failed : Bool
  stream : MTInputStream
deriving DecidableEq

/-- The end of `readBytes:`, with the length and the padding decoded. A negative length
makes `malloc` fail, and nothing is read into the missing buffer. -/
def MTInputStream.readBody (is : MTInputStream) (failed : Bool) (length paddingBytes : ℤ) :
    StreamRead :=
  let r := if length < 0 then ([], is) else is.read length.toNat
  if (r.1.length : ℤ) ≠ length then
    ⟨none, true, r.2⟩
  else
    ⟨some r.1, failed, (fun is => (is.read 1).2)^[paddingBytes.toNat] r.2⟩

/-- `readBytes:` of `MTInputStream`. -/
def MTInputStream.readBytes (is : MTInputStream) (failed : Bool) : StreamRead :=
  let r := is.read 1
  if leNat r.1 = 254 then
    let r := r.2.read 3
    let length := tlLength r.1
    r.2.readBody failed length (roundUpInput length 4 - length)
  else
    let length : ℤ := leNat r.1
    r.2.readBody failed length (roundUpInput (length + 1) 4 - (length + 1))

/-- Reading byte by byte. -/
theorem iterate_read (n : ℕ) (is : MTInputStream) :
    (fun is : MTInputStream => (is.read 1).2)^[n] is = ⟨is.rest.drop n⟩ := by
  induction n generalizing is with
  | zero => rfl
  | succ n ih =>
      rw [Function.iterate_succ_apply, ih, MTInputStream.read, List.drop_drop, Nat.add_comm]

/-- The end of the stream reader over bytes that are there and their padding. -/
theorem readBody_append {s pad t : List UInt8} {failed : Bool} :
    MTInputStream.readBody ⟨s ++ pad ++ t⟩ failed s.length pad.length =
      ⟨some s, failed, ⟨t⟩⟩ := by
  have hneg : ¬ (s.length : ℤ) < 0 := by omega
  rw [MTInputStream.readBody, if_neg hneg, Int.toNat_natCast, Int.toNat_natCast,
    iterate_read]
  simp [MTInputStream.read]

/-- A negative length sets the `failed` flag. -/
theorem readBody_negative {is : MTInputStream} {failed : Bool} {length paddingBytes : ℤ}
    (h : length < 0) : (is.readBody failed length paddingBytes).failed = true := by
  have hne : (([] : List UInt8).length : ℤ) ≠ length := by
    simp only [List.length_nil]
    omega
  simp only [MTInputStream.readBody, if_pos h, if_pos hne]

/-- An integer that is there. -/
theorem readInt_append {bytes : List UInt8} {n : ℕ} (h : bytes.length = n) (t : List UInt8)
    (w : ℕ) (failed : Bool) :
    MTInputStream.readInt ⟨bytes ++ t⟩ n w failed =
      ⟨BitVec.ofNat w (leNat bytes), failed, ⟨t⟩⟩ := by
  subst h
  simp [MTInputStream.readInt, MTInputStream.read]

end Telegraph.MtProto
