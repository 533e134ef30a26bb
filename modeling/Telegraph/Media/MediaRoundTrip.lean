import Mathlib.Logic.Equiv.List
import Telegraph.Media.ActionAttachment
import Telegraph.Media.DocumentAttachment
import Telegraph.Media.PlainAttachments

/-!
# Media of a Message

`serializeMediaAttachments:` writes the media of a message one behind the other, each behind its
type, and `parseMediaAttachments:` reads them with the parsers that are registered for the types.
Nothing outside of the attachments says where one ends.

## Main results

* `appends_attachment`, `reads_attachment`: the two sides of an attachment, of whatever kind.
* `kept_of_roundTrips`: an attachment that comes back has entries that its format keeps.
* `roundTrips_of_kept`: these entries come back, as long as the data stay below `2 ^ 31` bytes.
* `mediaKept`: **both**.
-/

namespace Telegraph.Media

open Bytes Codec
open Telegraph.Coder (utf8 stringWithUTF8 stringWithUTF8_utf8)

/-! ### Attachments -/

/-- A `TGMediaAttachment` of one of six classes. `isMeta` is false for all of them. -/
inductive TGMediaAttachment (Object Attribute : Type) where
  | image (self : TGImageMediaAttachment Object)
  | document (self : TGDocumentMediaAttachment Attribute)
  | contact (self : TGContactMediaAttachment)
  | location (self : TGLocationMediaAttachment Object)
  | forwardedMessage (self : TGForwardedMessageMediaAttachment)
  | action (self : TGActionMediaAttachment Object)

/-- What is stored of an attachment. -/
inductive StoredAttachment (Object Attribute : Type) where
  | image (stored : StoredImage Object)
  | document (stored : StoredDocument Attribute)
  | contact (stored : StoredContact)
  | location (stored : TGLocationMediaAttachment Object)
  | forwardedMessage (stored : StoredForward)
  | action (actionType : BitVec 32) (stored : StoredAction Object)

variable {Object Attribute Other : Type} (runtime : Runtime Object Attribute Other)

namespace TGMediaAttachment

/-- `type`. -/
def type : TGMediaAttachment Object Attribute → BitVec 32
  | .image _ => 0x269BD8A8
  | .document _ => 0xE6C64318
  | .contact _ => 0xB90A5663
  | .location _ => 0x0C9ED06E
  | .forwardedMessage _ => 0xAA1050C1
  | .action _ => 0x1167E28B

/-- `serialize:`. -/
def serialize : TGMediaAttachment Object Attribute → Writer
  | .image self => self.serialize runtime
  | .document self => self.serialize runtime
  | .contact self => self.serialize
  | .location self => self.serialize runtime
  | .forwardedMessage self => self.serialize
  | .action self => self.serialize runtime

/-- What is stored of an attachment. -/
def stored : TGMediaAttachment Object Attribute → StoredAttachment Object Attribute
  | .image self => .image (self.stored runtime)
  | .document self => .document self.stored
  | .contact self => .contact self.stored
  | .location self => .location self
  | .forwardedMessage self => .forwardedMessage self.stored
  | .action self => .action (self.stored runtime).1 (self.stored runtime).2

/-- The bytes of an attachment. -/
def bytes : TGMediaAttachment Object Attribute → List UInt8
  | .image self => (self.stored runtime).bytes runtime
  | .document self => self.bytes runtime
  | .contact self => self.stored.bytes
  | .location self => self.bytes runtime
  | .forwardedMessage self => self.stored.bytes
  | .action self => self.bytes runtime

end TGMediaAttachment

/-- The format keeps the entries of an attachment; only an action can have others. -/
def StoredAttachment.Kept : StoredAttachment Object Attribute → Prop
  | .action _ stored => stored.Kept
  | _ => True

/-! ### Messages -/

/-- One attachment behind its type. -/
def appendAttachment (attachment : TGMediaAttachment Object Attribute) : Writer := do
  appendInt attachment.type
  attachment.serialize runtime

/-- The attachments behind their count, which is put in its place at the end. -/
def writeAttachments (attachments : List (TGMediaAttachment Object Attribute)) : Writer := do
  appendInt 0
  attachments.forM (appendAttachment runtime)
  replaceBytes 0 (BitVec.ofNat 32 attachments.length)

/-- `serializeMediaAttachments:attachments:`. -/
def serializeMediaAttachments (attachments : List (TGMediaAttachment Object Attribute)) :
    Option (List UInt8) :=
  if attachments.isEmpty then some []
  else do
    let (_, data) ← writeAttachments runtime attachments []
    pure data

/-- An attachment of one of the six classes, or of another one. -/
abbrev Parsed (Object Attribute Other : Type) := TGMediaAttachment Object Attribute ⊕ Other

/-- What a parser of one class gives as an attachment. -/
def parsing {α : Type} (attachment : α → Option (Parsed Object Attribute Other))
    (parse : Parser α) : Parser (Option (Parsed Object Attribute Other)) := do
  let parsed ← parse
  pure (attachment parsed)

/-- `mediaAttachmentParsers`, as they are registered when the application starts. -/
def parserOf (type : BitVec 32) : Option (Parser (Option (Parsed Object Attribute Other))) :=
  if type = 0x1167E28B then
    some (parsing (fun self => some (.inl (.action self))) (TGActionMediaAttachment.parse runtime))
  else if type = 0x269BD8A8 then
    some (parsing (fun self => some (.inl (.image self))) (TGImageMediaAttachment.parse runtime))
  else if type = 0x0C9ED06E then
    some (parsing (fun self => some (.inl (.location self)))
      (TGLocationMediaAttachment.parse runtime))
  else if type = 0xB90A5663 then
    some (parsing (fun self => some (.inl (.contact self)))
      (TGContactMediaAttachment.parse runtime))
  else if type = 0xAA1050C1 then
    some (parsing (fun self => some (.inl (.forwardedMessage self)))
      (TGForwardedMessageMediaAttachment.parse runtime))
  else if type = 0xE6C64318 then
    some (parsing (fun self => self.map fun self => .inl (.document self))
      (TGDocumentMediaAttachment.parse runtime))
  else (runtime.mediaAttachmentParsers type).map (parsing fun other => other.map .inr)

/-- The loop of `parseMediaAttachments:`, which ends without a result at an unknown type. -/
def readAttachments : ℕ → Parser (Option (List (Parsed Object Attribute Other)))
  | 0 => pure (some [])
  | count + 1 => do
      let type ← readInt
      match parserOf runtime type with
      | none => pure none
      | some parser => do
          let attachment ← parser
          let attachments ← readAttachments count
          pure (attachments.map (attachment.toList ++ ·))

/-- `parseMediaAttachments:`. An array has no negative capacity. -/
def parseMediaAttachments (data : List UInt8) :
    Option (List (Parsed Object Attribute Other)) :=
  if data.isEmpty then some []
  else do
    let (count, stream) ← readInt data
    if count.toInt < 0 then none
    else do
      let (attachments, _) ← readAttachments runtime count.toInt.toNat stream
      pure (attachments.getD [])

/-! ### The round trip -/

/-- One attachment after the other appends some bytes to the data, and the parser of its type takes
just these off the stream and gives an attachment with the same stored parts. -/
def InStep : List (TGMediaAttachment Object Attribute) → List UInt8 → List UInt8 → Prop
  | [], _, stream => stream = []
  | attachment :: attachments, data, stream => ∃ written rest parser parsed,
      attachment.serialize runtime (data ++ toLE 4 attachment.type.toNat) =
        some ((), data ++ toLE 4 attachment.type.toNat ++ written) ∧
      stream = toLE 4 attachment.type.toNat ++ (written ++ rest) ∧
      parserOf runtime attachment.type = some parser ∧
      parser (written ++ rest) = some (some (.inl parsed), rest) ∧
      parsed.stored runtime = attachment.stored runtime ∧
      InStep attachments (data ++ toLE 4 attachment.type.toNat ++ written) rest

/-- **The media of a message come back**, with the same stored parts, and no attachment is read
into the next one. -/
structure RoundTrips (attachments : List (TGMediaAttachment Object Attribute)) : Prop where
  parsed : ∃ (data : List UInt8) (parsed : List (TGMediaAttachment Object Attribute)),
    serializeMediaAttachments runtime attachments = some data ∧
    parseMediaAttachments runtime data = some (parsed.map .inl) ∧
    parsed.map (TGMediaAttachment.stored runtime) =
      attachments.map (TGMediaAttachment.stored runtime)
  inStep : attachments ≠ [] → ∃ stream,
    serializeMediaAttachments runtime attachments = some (toLE 4 attachments.length ++ stream) ∧
      InStep runtime attachments (toLE 4 0) stream

/-- The bytes of one attachment behind its type. -/
def attachmentBytes (attachment : TGMediaAttachment Object Attribute) : List UInt8 :=
  toLE 4 attachment.type.toNat ++ attachment.bytes runtime

/-- The bytes of the media of a message. -/
def mediaBytes (attachments : List (TGMediaAttachment Object Attribute)) : List UInt8 :=
  toLE 4 attachments.length ++ attachments.flatMap (attachmentBytes runtime)

/-! ### One attachment -/

/-- Every attachment appends its bytes. -/
theorem appends_attachment (attachment : TGMediaAttachment Object Attribute) :
    Appends 2147483648 (attachment.serialize runtime) (attachment.bytes runtime) := by
  cases attachment with
  | image self => exact self.appends_serialize runtime
  | document self => exact self.appends_serialize runtime
  | contact self => exact self.appends_serialize
  | location self => exact self.appends_serialize runtime
  | forwardedMessage self => exact self.appends_serialize
  | action self => exact self.appends_serialize runtime

/-- **Every attachment with kept entries is read back.** -/
theorem reads_attachment (attachment : TGMediaAttachment Object Attribute)
    (hkept : (attachment.stored runtime).Kept)
    (h : (attachment.bytes runtime).length < 2147483648) :
    ∃ parser parsed, parserOf runtime attachment.type = some parser ∧
      Reads parser (attachment.bytes runtime) (some (.inl parsed)) ∧
      parsed.stored runtime = attachment.stored runtime := by
  cases attachment with
  | image self =>
      obtain ⟨parsed, hread, hstored⟩ := self.reads_parse runtime h
      refine ⟨parsing (fun self => some (.inl (.image self))) _, .image parsed, ?_, hread.last,
        congrArg StoredAttachment.image hstored⟩
      rw [TGMediaAttachment.type, parserOf, if_neg (by decide), if_pos rfl]
  | document self =>
      obtain ⟨parsed, hread, hstored⟩ := self.reads_parse runtime h
      refine ⟨parsing (fun self : Option (TGDocumentMediaAttachment Attribute) =>
        self.map fun self => .inl (.document self)) _, .document parsed, ?_, hread.last,
        congrArg StoredAttachment.document hstored⟩
      rw [TGMediaAttachment.type, parserOf, if_neg (by decide), if_neg (by decide),
        if_neg (by decide), if_neg (by decide), if_neg (by decide), if_pos rfl]
  | contact self =>
      obtain ⟨parsed, hread, hstored⟩ := TGContactMediaAttachment.reads_parse runtime h
      refine ⟨parsing (fun self => some (.inl (.contact self))) _, .contact parsed, ?_, hread.last,
        congrArg StoredAttachment.contact hstored⟩
      rw [TGMediaAttachment.type, parserOf, if_neg (by decide), if_neg (by decide),
        if_neg (by decide), if_pos rfl]
  | location self =>
      refine ⟨parsing (fun self => some (.inl (.location self))) _, .location self, ?_,
        (self.reads_parse runtime h).last, rfl⟩
      rw [TGMediaAttachment.type, parserOf, if_neg (by decide), if_neg (by decide), if_pos rfl]
  | forwardedMessage self =>
      obtain ⟨parsed, hread, hstored⟩ := TGForwardedMessageMediaAttachment.reads_parse runtime h
      refine ⟨parsing (fun self => some (.inl (.forwardedMessage self))) _,
        .forwardedMessage parsed, ?_, hread.last,
        congrArg StoredAttachment.forwardedMessage hstored⟩
      rw [TGMediaAttachment.type, parserOf, if_neg (by decide), if_neg (by decide),
        if_neg (by decide), if_neg (by decide), if_pos rfl]
  | action self =>
      obtain ⟨parsed, hread, hstored⟩ := self.reads_parse runtime hkept h
      refine ⟨parsing (fun self => some (.inl (.action self))) _, .action parsed, ?_, hread.last,
        congrArg (fun stored : BitVec 32 × StoredAction Object =>
          StoredAttachment.action stored.1 stored.2) hstored⟩
      rw [TGMediaAttachment.type, parserOf, if_pos rfl]

/-! ### What is given -/

/-- An attachment of the six classes that was read has kept entries. -/
def KeptParsed (parsed : Option (Parsed Object Attribute Other)) : Prop :=
  ∀ attachment, parsed = some (.inl attachment) → (attachment.stored runtime).Kept

/-- What holds of the parsers of either branch. -/
theorem forall_parser_ite {α : Type} {P : Parser α → Prop} {c : Prop} [Decidable c]
    {x y : Option (Parser α)} (hx : ∀ parser, x = some parser → P parser)
    (hy : ∀ parser, y = some parser → P parser) :
    ∀ parser, (if c then x else y) = some parser → P parser := by
  split
  · exact hx
  · exact hy

/-- The parser of a class gives kept entries if all that its parser gives are kept. -/
theorem yields_parsing {α : Type} {P : α → Prop}
    {attachment : α → Option (Parsed Object Attribute Other)} {parse : Parser α}
    (hparse : Yields parse P) (h : ∀ a, P a → KeptParsed runtime (attachment a)) :
    ∀ parser, some (parsing attachment parse) = some parser →
      Yields parser (KeptParsed runtime) := by
  intro parser hparser
  rw [← Option.some.inj hparser]
  exact hparse.bind fun a ha => Yields.pure (h a ha)

/-- Only the entries of an action can be others than the kept ones. -/
theorem keptParsed_of_forall {parsed : Option (Parsed Object Attribute Other)}
    (h : ∀ action, parsed ≠ some (.inl (.action action))) : KeptParsed runtime parsed := by
  rintro (image | document | contact | location | forward | action) hattachment
  case action => exact absurd hattachment (h action)
  all_goals exact trivial

/-- **Every registered parser gives kept entries.** -/
theorem yields_parserOf (type : BitVec 32)
    (parser : Parser (Option (Parsed Object Attribute Other)))
    (h : parserOf runtime type = some parser) : Yields parser (KeptParsed runtime) := by
  revert parser
  rw [parserOf]
  refine forall_parser_ite (yields_parsing runtime
    (TGActionMediaAttachment.yields_parse runtime) ?_) (forall_parser_ite ?_
      (forall_parser_ite ?_ (forall_parser_ite ?_ (forall_parser_ite ?_
        (forall_parser_ite ?_ ?_)))))
  · rintro self hself attachment hattachment
    obtain rfl := Sum.inl.inj (Option.some.inj hattachment)
    exact hself
  · exact yields_parsing runtime (yields_true _) fun self _ =>
      keptParsed_of_forall runtime fun action h => by injections
  · exact yields_parsing runtime (yields_true _) fun self _ =>
      keptParsed_of_forall runtime fun action h => by injections
  · exact yields_parsing runtime (yields_true _) fun self _ =>
      keptParsed_of_forall runtime fun action h => by injections
  · exact yields_parsing runtime (yields_true _) fun self _ =>
      keptParsed_of_forall runtime fun action h => by injections
  · refine yields_parsing runtime (yields_true _) fun self _ =>
      keptParsed_of_forall runtime fun action h => ?_
    obtain ⟨document, -, hdocument⟩ := Option.map_eq_some_iff.mp h
    injections
  · intro parser hparser
    obtain ⟨parse, -, rfl⟩ := Option.map_eq_some_iff.mp hparser
    refine Yields.after fun other => Yields.pure (keptParsed_of_forall runtime fun action h => ?_)
    obtain ⟨value, -, hvalue⟩ := Option.map_eq_some_iff.mp h
    injections

/-- What the loop gives has kept entries. -/
theorem yields_readAttachments (count : ℕ) :
    Yields (readAttachments runtime count) fun attachments =>
      ∀ as, attachments = some as → ∀ parsed ∈ as, KeptParsed runtime (some parsed) := by
  induction count with
  | zero =>
      refine Yields.pure fun as has parsed hparsed => ?_
      rw [← Option.some.inj has] at hparsed
      exact absurd hparsed List.not_mem_nil
  | succ count ih =>
      refine Yields.after fun type => ?_
      cases hparser : parserOf runtime type with
      | none => exact Yields.pure fun as has => absurd has.symm (Option.some_ne_none as)
      | some parser =>
          refine (yields_parserOf runtime type parser hparser).bind fun attachment hattachment =>
            ih.bind fun attachments hattachments => Yields.pure fun as has parsed hparsed => ?_
          obtain ⟨rest, hrest, rfl⟩ := Option.map_eq_some_iff.mp has
          rcases List.mem_append.mp hparsed with hparsed | hparsed
          · rwa [← Option.mem_toList.mp hparsed]
          · exact hattachments rest hrest parsed hparsed

/-- What `parseMediaAttachments:` gives has kept entries. -/
theorem kept_of_parse {data : List UInt8} {as : List (Parsed Object Attribute Other)}
    (h : parseMediaAttachments runtime data = some as) :
    ∀ parsed ∈ as, KeptParsed runtime (some parsed) := by
  rw [parseMediaAttachments] at h
  split at h
  · rw [← Option.some.inj h]
    exact fun parsed hparsed => absurd hparsed List.not_mem_nil
  · obtain ⟨⟨count, stream⟩, -, h⟩ := Option.bind_eq_some_iff.mp h
    dsimp only at h
    split at h
    · exact absurd h.symm (Option.some_ne_none as)
    · obtain ⟨⟨attachments, rest⟩, hrun, h⟩ := Option.bind_eq_some_iff.mp h
      have hkept := yields_readAttachments runtime _ stream attachments rest hrun
      obtain rfl : attachments.getD [] = as := Option.some.inj h
      cases attachments with
      | none => exact fun parsed hparsed => absurd hparsed List.not_mem_nil
      | some as => exact hkept as rfl

/-! ### Media of a message -/

variable {attachments : List (TGMediaAttachment Object Attribute)}

/-- **An attachment that comes back has entries that its format keeps.** -/
theorem kept_of_roundTrips (h : RoundTrips runtime attachments) :
    ∀ attachment ∈ attachments, (attachment.stored runtime).Kept := by
  obtain ⟨data, parsed, -, hparse, hstored⟩ := h.parsed
  have hkept := kept_of_parse runtime hparse
  have hall : ∀ stored ∈ parsed.map (TGMediaAttachment.stored runtime), stored.Kept := by
    intro stored hmem
    obtain ⟨attachment, hattachment, rfl⟩ := List.mem_map.mp hmem
    exact hkept (.inl attachment) (List.mem_map_of_mem hattachment) attachment rfl
  intro attachment hattachment
  rw [hstored] at hall
  exact hall _ (List.mem_map_of_mem hattachment)

/-- One attachment behind its type. -/
theorem appends_appendAttachment (attachment : TGMediaAttachment Object Attribute) :
    Appends 2147483648 (appendAttachment runtime attachment)
      (attachmentBytes runtime attachment) :=
  (appends_int _).seq (appends_attachment runtime attachment)

/-- **Kept attachments are written and read in step.** -/
theorem inStep_of_kept (hkept : ∀ attachment ∈ attachments, (attachment.stored runtime).Kept)
    (data : List UInt8)
    (h : data.length + (attachments.flatMap (attachmentBytes runtime)).length < 2147483648) :
    InStep runtime attachments data (attachments.flatMap (attachmentBytes runtime)) := by
  induction attachments generalizing data with
  | nil => rfl
  | cons attachment attachments ih =>
      obtain ⟨hhead, htail⟩ := List.forall_mem_cons.mp hkept
      rw [List.flatMap_cons, attachmentBytes, List.append_assoc, List.length_append,
        List.length_append] at h
      have htyped : (data ++ toLE 4 attachment.type.toNat).length =
          data.length + (toLE 4 attachment.type.toNat).length := List.length_append
      obtain ⟨parser, parsed, hparser, hread, hstored⟩ :=
        reads_attachment runtime attachment hhead (by omega)
      refine ⟨attachment.bytes runtime, attachments.flatMap (attachmentBytes runtime), parser,
        parsed, ?_, ?_, hparser, hread _, hstored, ih htail _ ?_⟩
      · exact appends_attachment runtime attachment _ (by omega)
      · rw [List.flatMap_cons, attachmentBytes, List.append_assoc]
      · rw [List.length_append]
        omega

/-- What is in step is read by the loop. -/
theorem readAttachments_of_inStep {data stream : List UInt8}
    (h : InStep runtime attachments data stream) :
    ∃ parsed : List (TGMediaAttachment Object Attribute),
      readAttachments runtime attachments.length stream = some (some (parsed.map .inl), []) ∧
      parsed.map (TGMediaAttachment.stored runtime) =
        attachments.map (TGMediaAttachment.stored runtime) := by
  induction attachments generalizing data stream with
  | nil =>
      obtain rfl : stream = [] := h
      exact ⟨[], rfl, rfl⟩
  | cons attachment attachments ih =>
      obtain ⟨written, rest, parser, parsed, -, rfl, hparser, hread, hstored, htail⟩ := h
      obtain ⟨others, hothers, hstoreds⟩ := ih htail
      refine ⟨parsed :: others, ?_, ?_⟩
      · rw [List.length_cons, readAttachments, run_bind (reads_int attachment.type _),
          hparser]
        dsimp only
        rw [run_bind hread, run_bind hothers]
        rfl
      · rw [List.map_cons, List.map_cons, hstored, hstoreds]

/-- The data of some attachments are their bytes. -/
theorem serializeMediaAttachments_eq (hne : attachments ≠ [])
    (h : (mediaBytes runtime attachments).length < 2147483648) :
    serializeMediaAttachments runtime attachments = some (mediaBytes runtime attachments) := by
  rw [mediaBytes, List.length_append, length_toLE] at h
  have hwrite : Appends 2147483648 (attachments.forM (appendAttachment runtime))
      (attachments.flatMap (attachmentBytes runtime)) :=
    Appends.forM attachments fun attachment _ => appends_appendAttachment runtime attachment
  have hwritten := hwrite (toLE 4 0) (by rw [length_toLE]; exact h)
  have hreplaced : replaceBytes 0 (BitVec.ofNat 32 attachments.length)
      (toLE 4 0 ++ attachments.flatMap (attachmentBytes runtime)) =
        some ((), mediaBytes runtime attachments) := by
    have hcount : replaceBytes (BitVec.ofNat 32 ([] : List UInt8).length)
        (BitVec.ofNat 32 attachments.length)
        ([] ++ toLE 4 0 ++ attachments.flatMap (attachmentBytes runtime)) = some ((), [] ++ _) :=
      replaceBytes_of_lt _ (by decide) (length_toLE 4 0)
    rwa [BitVec.toNat_ofNat, show 2 ^ 32 = 256 ^ 4 from rfl, toLE_mod] at hcount
  have hfirst : appendInt 0 [] = some ((), toLE 4 0) := rfl
  rw [serializeMediaAttachments, if_neg (mt List.isEmpty_iff.mp hne), writeAttachments,
    run_bind hfirst, run_bind hwritten, hreplaced]
  rfl

/-- The data of some attachments are read as attachments with the same stored parts. -/
theorem parseMediaAttachments_mediaBytes
    (hkept : ∀ attachment ∈ attachments, (attachment.stored runtime).Kept)
    (h : (mediaBytes runtime attachments).length < 2147483648) :
    ∃ parsed : List (TGMediaAttachment Object Attribute),
      parseMediaAttachments runtime (mediaBytes runtime attachments) =
        some (parsed.map .inl) ∧
      parsed.map (TGMediaAttachment.stored runtime) =
        attachments.map (TGMediaAttachment.stored runtime) := by
  rw [mediaBytes, List.length_append, length_toLE] at h
  have hcount : attachments.length ≤ (attachments.flatMap (attachmentBytes runtime)).length :=
    length_le_flatMap fun attachment _ => List.cons_ne_nil _ _
  obtain ⟨parsed, hread, hstored⟩ := readAttachments_of_inStep runtime
    (inStep_of_kept runtime hkept (toLE 4 0) (by rw [length_toLE]; exact h))
  refine ⟨parsed, ?_, hstored⟩
  have hne : ¬ (mediaBytes runtime attachments).isEmpty := by
    rw [mediaBytes]
    exact Bool.false_ne_true
  rw [parseMediaAttachments, if_neg hne, mediaBytes, reads_length attachments.length]
  show (if (BitVec.ofNat 32 attachments.length).toInt < 0 then _ else _) = _
  rw [toInt_length (by omega), if_neg (by omega), Int.toNat_natCast, hread]
  rfl

/-- **Kept entries come back**, as long as the data stay below `2 ^ 31` bytes. -/
theorem roundTrips_of_kept
    (hkept : ∀ attachment ∈ attachments, (attachment.stored runtime).Kept)
    (h : (mediaBytes runtime attachments).length < 2147483648) :
    RoundTrips runtime attachments := by
  obtain ⟨parsed, hparse, hstored⟩ := parseMediaAttachments_mediaBytes runtime hkept h
  have hstream : (toLE 4 0).length + (attachments.flatMap (attachmentBytes runtime)).length <
      2147483648 := by
    rwa [mediaBytes, List.length_append, length_toLE] at h
  refine ⟨?_, fun hne => ⟨_, serializeMediaAttachments_eq runtime hne h,
    inStep_of_kept runtime hkept _ hstream⟩⟩
  rcases eq_or_ne attachments [] with rfl | hne
  · exact ⟨[], [], rfl, rfl, rfl⟩
  · exact ⟨mediaBytes runtime attachments, parsed, serializeMediaAttachments_eq runtime hne h,
      hparse, hstored⟩

/-! ### A plain system -/

/-- The name in an attribute as numbers. -/
def nameCode : DocumentAttribute Empty → Option (List ℕ)
  | .filename filename => filename.map fun name => (utf8 name).map UInt8.toNat
  | .other value => value.elim

/-- The attribute of a name in numbers. -/
def ofNameCode (code : Option (List ℕ)) : DocumentAttribute Empty :=
  .filename (code.bind fun numbers => stringWithUTF8 (numbers.map UInt8.ofNat))

theorem ofNameCode_nameCode (named : DocumentAttribute Empty) :
    ofNameCode (nameCode named) = named := by
  cases named with
  | other value => exact value.elim
  | filename filename =>
      cases filename with
      | none => rfl
      | some name =>
          have hbytes : ((utf8 name).map UInt8.toNat).map UInt8.ofNat = utf8 name := by
            rw [List.map_map]
            exact List.map_id'' (fun _ => UInt8.ofNat_toNat) _
          exact congrArg DocumentAttribute.filename
            ((congrArg stringWithUTF8 hbytes).trans (stringWithUTF8_utf8 name))

/-- A system with cleared memory, no archived objects, only file names in documents and no parsers
of other attachments; so many bytes stand for an array as its number says. -/
def plainRuntime : Runtime Empty Empty Empty where
  malloc size := List.replicate size 0
  length_malloc _ := List.length_replicate
  count object := object.elim
  archivedDataWithRootObject object := object.elim
  unarchiveObjectWithData _ := none
  unarchive_archived object := object.elim
  archived_ne_nil object := object.elim
  encodeArray attributes := List.replicate (Encodable.encode (attributes.map nameCode)) 0
  decodeArray data := ((Encodable.decode data.length).getD []).map ofNameCode
  decode_encode attributes := by
    rw [List.length_replicate, Encodable.encodek, Option.getD_some, List.map_map]
    exact List.map_id'' ofNameCode_nameCode _
  eq_nil_of_encode attributes h := by
    have hzero : Encodable.encode (attributes.map nameCode) =
        Encodable.encode ([] : List (Option (List ℕ))) :=
      (List.replicate_eq_nil_iff _).mp h
    exact List.map_eq_nil_iff.mp (Encodable.encode_injective hzero)
  mediaAttachmentParsers _ := none

/-! ### What comes back -/

/-- **The media of a message come back** only with entries that the format keeps, and do come back
with these, as long as the data stay below `2 ^ 31` bytes. -/
theorem mediaKept (attachments : List (TGMediaAttachment Object Attribute)) :
    (RoundTrips runtime attachments →
      ∀ attachment ∈ attachments, (attachment.stored runtime).Kept) ∧
    ((mediaBytes runtime attachments).length < 2147483648 →
      (RoundTrips runtime attachments ↔
        ∀ attachment ∈ attachments, (attachment.stored runtime).Kept)) :=
  ⟨kept_of_roundTrips runtime, fun h =>
    ⟨kept_of_roundTrips runtime, fun hkept => roundTrips_of_kept runtime hkept h⟩⟩

/-- The members that two messages tell of. -/
theorem mediaKept_plainRuntime : RoundTrips plainRuntime
    [.action ⟨2, { ActionData.empty with uid := some 7, uids := some [7, 8] }⟩,
      .action ⟨20, { ActionData.empty with uid := some 7 }⟩] := by
  have hfits : NSNumber.Fits 7 ∧ NSNumber.Fits 8 :=
    ⟨NSNumber.fits_ofInt 7, NSNumber.fits_ofInt 8⟩
  refine ((mediaKept plainRuntime _).2 (by decide)).mpr ?_
  rw [List.forall_mem_cons, List.forall_mem_singleton]
  refine ⟨⟨hfits.1, ?_⟩, hfits.1⟩
  show ∀ uid ∈ [7, 8], NSNumber.Fits uid
  rw [List.forall_mem_cons, List.forall_mem_singleton]
  exact hfits

/-- An action that took the photo of a chat away stores none, and no photo is read for it. -/
theorem not_roundTrips_chatDeletePhoto : ¬ RoundTrips plainRuntime
    [.action ⟨5, ActionData.empty⟩, .contact ⟨7, none, none, none⟩] := by
  intro h
  exact kept_of_roundTrips plainRuntime h _ List.mem_cons_self rfl

end Telegraph.Media
