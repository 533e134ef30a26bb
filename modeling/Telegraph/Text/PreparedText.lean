import Mathlib.Data.List.DropRight
import Mathlib.Data.Nat.ModEq

/-!
# Sending a Text in Parts

A text that is too long for one message is cut every 4096 UTF-16 units, and each part is prepared
as a message of its own. The entities, which mark ranges of the text, are given to every part as
they are.

## Main results

* `mem_placed_partsFrom`: the parts and where they start.
* `textKept_partsFrom_iff`: what becomes of a text that is cut.
* `textKept_iff`: **text and entities are kept exactly when the text is short, or no cut is inside
  of a surrogate pair and the entities are empty and near the start.**
-/

namespace Telegraph.Text

/-- `messagePartLimit`. -/
def messagePartLimit : ℕ := 4096

/-- A `TGMessageEntity`: its kind and its range. -/
structure TGMessageEntity (κ : Type*) where
  kind : κ
  location : ℕ
  length : ℕ
deriving DecidableEq

/-- A `TGPreparedTextMessage`: its text and its entities, which may be `nil`. -/
structure TGPreparedTextMessage (κ : Type*) where
  text : List UInt16
  entities : Option (List (TGMessageEntity κ))
deriving DecidableEq

variable {κ : Type*}

/-- `entitiesForMarkedUpText:resultingText:` of a release build: no entities and the text. -/
def entitiesForMarkedUpText (text : List UInt16) :
    Option (List (TGMessageEntity κ)) × List UInt16 := (none, text)

/-- The message of a part. -/
def preparedMessage (text : List UInt16) (entities : Option (List (TGMessageEntity κ))) :
    TGPreparedTextMessage κ :=
  match entities with
  | none =>
      let (parsedEntities, resultingText) := entitiesForMarkedUpText text
      ⟨resultingText, parsedEntities⟩
  | some entities => ⟨text, some entities⟩

/-- `substringWithRange:`. -/
def substringWithRange (text : List UInt16) (location length : ℕ) : List UInt16 :=
  (text.drop location).take length

/-- The loop over the parts. -/
def partsFrom (text : List UInt16) (entities : Option (List (TGMessageEntity κ))) (i : ℕ) :
    List (TGPreparedTextMessage κ) :=
  if i < text.length then
    preparedMessage (substringWithRange text i (min messagePartLimit (text.length - i))) entities ::
      partsFrom text entities (i + messagePartLimit)
  else []
termination_by text.length - i
decreasing_by
  rw [messagePartLimit]
  omega

/-- `stringByTrimmingCharactersInSet:`. -/
def trim (characterSet : UInt16 → Bool) (text : List UInt16) : List UInt16 :=
  (text.dropWhile characterSet).rdropWhile characterSet

/-- The text that is sent: without entities it is trimmed. -/
def sentText (whitespaceAndNewline : UInt16 → Bool) (text : List UInt16)
    (entities : Option (List (TGMessageEntity κ))) : List UInt16 :=
  if (entities.getD []).length = 0 then trim whitespaceAndNewline text else text

/-- `controllerWantsToSendTextMessage:entities:…`, as far as texts and entities go. -/
def preparedMessages (whitespaceAndNewline : UInt16 → Bool) (text : List UInt16)
    (entities : Option (List (TGMessageEntity κ))) : List (TGPreparedTextMessage κ) :=
  let text := sentText whitespaceAndNewline text entities
  if text.length ≠ 0 then
    if text.length ≤ messagePartLimit then [preparedMessage text entities]
    else partsFrom text entities 0
  else []

/-! ### What is to be kept -/

/-- The first unit of a surrogate pair. -/
def isHighSurrogate (unit : UInt16) : Bool := 0xd800 ≤ unit ∧ unit ≤ 0xdbff

/-- The second unit of a surrogate pair. -/
def isLowSurrogate (unit : UInt16) : Bool := 0xdc00 ≤ unit ∧ unit ≤ 0xdfff

/-- A place is inside of a surrogate pair. -/
def SplitsPair (text : List UInt16) (place : ℕ) : Prop :=
  0 < place ∧ (∃ high ∈ text[place - 1]?, isHighSurrogate high) ∧
    ∃ low ∈ text[place]?, isLowSurrogate low

/-- A place has an entity of a kind. -/
def Covered (entities : List (TGMessageEntity κ)) (kind : κ) (place : ℕ) : Prop :=
  ∃ entity ∈ entities, entity.kind = kind ∧ entity.location ≤ place ∧
    place < entity.location + entity.length

/-- The parts with the places where they start. -/
def placed : ℕ → List (TGPreparedTextMessage κ) → List (ℕ × TGPreparedTextMessage κ)
  | _, [] => []
  | place, part :: parts => (place, part) :: placed (place + part.text.length) parts

/-- The parts are short and make up the text, none starts inside of a surrogate pair, their entities
are inside of them, and each place has the entities that it has in the text. -/
structure TextKept (text : List UInt16) (entities : List (TGMessageEntity κ))
    (parts : List (TGPreparedTextMessage κ)) : Prop where
  short : ∀ part ∈ parts, part.text.length ≤ 4096
  joined : parts.flatMap TGPreparedTextMessage.text = text
  pairs : ∀ entry ∈ placed 0 parts, ¬ SplitsPair text entry.1
  inside : ∀ part ∈ parts, ∀ entity ∈ part.entities.getD [],
    entity.location + entity.length ≤ part.text.length
  covered : ∀ entry ∈ placed 0 parts, ∀ place < entry.2.text.length, ∀ kind,
    Covered entities kind (entry.1 + place) ↔ Covered (entry.2.entities.getD []) kind place

/-- A text can be cut every 4096 units: no cut is inside of a surrogate pair, and the entities are
empty and not behind the length of the last part. -/
structure Splittable (text : List UInt16) (entities : List (TGMessageEntity κ)) : Prop where
  pairs : ∀ place, 4096 ∣ place → ¬ SplitsPair text place
  empty : ∀ entity ∈ entities, entity.length = 0 ∧
    entity.location ≤ (text.length - 1) % 4096 + 1

variable {text : List UInt16} {entities : Option (List (TGMessageEntity κ))} {i : ℕ}

/-! ### The parts -/

/-- A part has its text and the entities. -/
@[simp] theorem preparedMessage_eq (text : List UInt16)
    (entities : Option (List (TGMessageEntity κ))) :
    preparedMessage text entities = ⟨text, entities⟩ := by
  cases entities <;> rfl

/-- The length of a part. -/
theorem length_substring (hi : i < text.length) :
    (substringWithRange text i (min messagePartLimit (text.length - i))).length =
      min 4096 (text.length - i) := by
  rw [substringWithRange, List.length_take, List.length_drop, messagePartLimit]
  omega

/-- The parts make up the text. -/
theorem flatMap_partsFrom (text : List UInt16) (entities : Option (List (TGMessageEntity κ)))
    (i : ℕ) : (partsFrom text entities i).flatMap TGPreparedTextMessage.text = text.drop i := by
  fun_induction partsFrom text entities i with
  | case1 i hi ih =>
      rw [List.flatMap_cons, ih, preparedMessage_eq, substringWithRange]
      rcases le_total (text.length - i) messagePartLimit with hlast | hfull
      · have hrest : text.drop (i + messagePartLimit) = [] := List.drop_eq_nil_of_le (by omega)
        rw [min_eq_right hlast, hrest, List.append_nil]
        exact List.take_of_length_le List.length_drop.le
      · rw [min_eq_left hfull, ← List.drop_drop, List.take_append_drop]
  | case2 i hi => exact (List.drop_eq_nil_of_le (not_lt.mp hi)).symm

/-- The part behind a full one starts behind the limit. -/
theorem placed_partsFrom_succ (text : List UInt16) (entities : Option (List (TGMessageEntity κ)))
    (i : ℕ) :
    placed (i + min 4096 (text.length - i)) (partsFrom text entities (i + messagePartLimit)) =
      placed (i + 4096) (partsFrom text entities (i + messagePartLimit)) := by
  rcases le_total (text.length - i) 4096 with hlast | hfull
  · rw [partsFrom, if_neg (by rw [messagePartLimit]; omega)]
    rfl
  · rw [min_eq_left hfull]

/-- **The parts and where they start.** -/
theorem mem_placed_partsFrom (hi : 4096 ∣ i) {entry : ℕ × TGPreparedTextMessage κ} :
    entry ∈ placed i (partsFrom text entities i) ↔
      4096 ∣ entry.1 ∧ i ≤ entry.1 ∧ entry.1 < text.length ∧
        entry.2 = ⟨substringWithRange text entry.1 (min messagePartLimit (text.length - entry.1)),
          entities⟩ := by
  fun_induction partsFrom text entities i with
  | case1 i hlt ih =>
      rw [preparedMessage_eq, placed, length_substring hlt, placed_partsFrom_succ,
        List.mem_cons]
      have hrest := ih (by rw [messagePartLimit]; omega)
      rw [messagePartLimit] at hrest ⊢
      rw [hrest]
      constructor
      · rintro (rfl | ⟨hdvd, hle, hentry, hpart⟩)
        · exact ⟨hi, le_rfl, hlt, rfl⟩
        · exact ⟨hdvd, by omega, hentry, hpart⟩
      · rintro ⟨hdvd, hle, hentry, hpart⟩
        rcases eq_or_ne entry.1 i with heq | hne
        · refine Or.inl (Prod.ext heq ?_)
          rw [hpart, heq]
        · exact Or.inr ⟨hdvd, by omega, hentry, hpart⟩
  | case2 i hlt =>
      refine iff_of_false List.not_mem_nil ?_
      rintro ⟨-, hle, hentry, -⟩
      omega

/-- Every part has a place. -/
theorem exists_placed {part : TGPreparedTextMessage κ} {parts : List (TGPreparedTextMessage κ)}
    (h : part ∈ parts) (i : ℕ) : ∃ place, (place, part) ∈ placed i parts := by
  induction parts generalizing i with
  | nil => exact absurd h List.not_mem_nil
  | cons first parts ih =>
      rcases List.mem_cons.mp h with rfl | hrest
      · exact ⟨i, List.mem_cons_self⟩
      · obtain ⟨place, hplace⟩ := ih hrest (i + first.text.length)
        exact ⟨place, List.mem_cons_of_mem _ hplace⟩

/-- What is placed is a part. -/
theorem mem_of_placed {entry : ℕ × TGPreparedTextMessage κ}
    {parts : List (TGPreparedTextMessage κ)} (h : entry ∈ placed i parts) : entry.2 ∈ parts := by
  induction parts generalizing i with
  | nil => exact absurd h List.not_mem_nil
  | cons first parts ih =>
      rcases List.mem_cons.mp h with rfl | hrest
      · exact List.mem_cons_self
      · exact List.mem_cons_of_mem _ (ih hrest)

/-- A part that is cut off, with its place. -/
theorem part_at (entities : Option (List (TGMessageEntity κ))) {place : ℕ} (hdvd : 4096 ∣ place)
    (hplace : place < text.length) :
    ∃ part, (place, part) ∈ placed 0 (partsFrom text entities 0) ∧ part.entities = entities ∧
      part.text.length = min 4096 (text.length - place) :=
  ⟨⟨substringWithRange text place (min messagePartLimit (text.length - place)), entities⟩,
    (mem_placed_partsFrom (Nat.dvd_zero 4096)).mpr ⟨hdvd, Nat.zero_le _, hplace, rfl⟩, rfl,
    length_substring hplace⟩

/-- What a part is. -/
theorem of_mem_parts {entry : ℕ × TGPreparedTextMessage κ}
    (h : entry ∈ placed 0 (partsFrom text entities 0)) :
    4096 ∣ entry.1 ∧ entry.1 < text.length ∧ entry.2.entities = entities ∧
      entry.2.text.length = min 4096 (text.length - entry.1) := by
  obtain ⟨hdvd, -, hlt, hpart⟩ := (mem_placed_partsFrom (Nat.dvd_zero 4096)).mp h
  refine ⟨hdvd, hlt, by rw [hpart], ?_⟩
  rw [hpart]
  exact length_substring hlt

/-! ### What is kept -/

/-- Behind the text there is no surrogate pair. -/
theorem lt_of_splitsPair {place : ℕ} (h : SplitsPair text place) : place < text.length := by
  obtain ⟨-, -, low, hlow, -⟩ := h
  exact (List.getElem?_eq_some_iff.mp hlow).1

/-- An empty entity covers nothing. -/
theorem not_covered_of_empty {list : List (TGMessageEntity κ)} {kind : κ} {place : ℕ}
    (h : ∀ entity ∈ list, entity.length = 0) : ¬ Covered list kind place := by
  rintro ⟨entity, hentity, -, hlow, hhigh⟩
  have hempty := h entity hentity
  omega

/-- **A text that is cut is kept exactly when it is splittable.** -/
theorem textKept_partsFrom_iff (hlong : 4096 < text.length) :
    TextKept text (entities.getD []) (partsFrom text entities 0) ↔
      Splittable text (entities.getD []) := by
  constructor
  · rintro ⟨-, -, hpairs, hinside, hcovered⟩
    have hlast : ∀ entity ∈ entities.getD [],
        entity.location + entity.length ≤ (text.length - 1) % 4096 + 1 := by
      intro entity hentity
      obtain ⟨part, hpart, hsame, hlength⟩ := part_at entities
        (Nat.dvd_mul_left 4096 ((text.length - 1) / 4096))
        (show (text.length - 1) / 4096 * 4096 < text.length by omega)
      have hle := hinside part (mem_of_placed hpart) entity (hsame ▸ hentity)
      omega
    refine ⟨fun place hdvd hsplits => ?_, fun entity hentity => ?_⟩
    · obtain ⟨part, hpart, -, -⟩ := part_at entities hdvd (lt_of_splitsPair hsplits)
      exact hpairs _ hpart hsplits
    · have hle := hlast entity hentity
      refine ⟨?_, by omega⟩
      by_contra hlength
      -- the entity is in the second part too, where the text has none that far
      obtain ⟨part, hpart, hsame, hpartLength⟩ := part_at entities
        (dvd_refl 4096) hlong
      have hiff := hcovered _ hpart entity.location (by dsimp only; omega) entity.kind
      rw [hsame] at hiff
      obtain ⟨other, hother, -, -, hbehind⟩ :=
        hiff.mpr ⟨entity, hentity, rfl, le_rfl, by omega⟩
      have hinLast := hlast other hother
      dsimp only at hbehind
      omega
  · rintro ⟨hpairs, hempty⟩
    have hcut : ∀ part ∈ partsFrom text entities 0, part.entities = entities ∧
        (text.length - 1) % 4096 + 1 ≤ part.text.length ∧ part.text.length ≤ 4096 := by
      intro part hpart
      obtain ⟨place, hplace⟩ := exists_placed hpart 0
      obtain ⟨hdvd, hlt, hsame, hlength⟩ := of_mem_parts hplace
      dsimp only at hdvd hlt hsame hlength
      exact ⟨hsame, by omega, by omega⟩
    refine ⟨fun part hpart => (hcut part hpart).2.2, flatMap_partsFrom text entities 0,
      fun entry hentry => hpairs _ (of_mem_parts hentry).1, fun part hpart entity hentity => ?_,
      fun entry hentry place _ kind => ?_⟩
    · obtain ⟨hsame, hle, -⟩ := hcut part hpart
      obtain ⟨hlength, hlocation⟩ := hempty entity (hsame ▸ hentity)
      omega
    · rw [(of_mem_parts hentry).2.2.1]
      exact iff_of_false (not_covered_of_empty fun entity hentity => (hempty entity hentity).1)
        (not_covered_of_empty fun entity hentity => (hempty entity hentity).1)

/-- A short text is kept as it is. -/
theorem textKept_singleton (hshort : text.length ≤ 4096)
    (hinside : ∀ entity ∈ entities.getD [], entity.location + entity.length ≤ text.length) :
    TextKept text (entities.getD []) [preparedMessage text entities] := by
  rw [preparedMessage_eq]
  refine ⟨fun part hpart => ?_, List.append_nil _, fun entry hentry hsplits => ?_,
    fun part hpart => ?_, fun entry hentry place _ kind => ?_⟩
  · rwa [List.mem_singleton.mp hpart]
  · obtain rfl := List.mem_singleton.mp hentry
    exact absurd hsplits.1 (lt_irrefl 0)
  · rwa [List.mem_singleton.mp hpart]
  · obtain rfl := List.mem_singleton.mp hentry
    rw [Nat.zero_add]

/-- A long text is cut. -/
theorem preparedMessages_of_long {whitespaceAndNewline : UInt16 → Bool}
    (hlong : 4096 < (sentText whitespaceAndNewline text entities).length) :
    preparedMessages whitespaceAndNewline text entities =
      partsFrom (sentText whitespaceAndNewline text entities) entities 0 := by
  rw [preparedMessages, if_pos (by omega), if_neg (by rw [messagePartLimit]; omega)]

/-- A short text is one message, or none if it is empty. -/
theorem preparedMessages_of_short {whitespaceAndNewline : UInt16 → Bool}
    (hshort : (sentText whitespaceAndNewline text entities).length ≤ 4096) :
    preparedMessages whitespaceAndNewline text entities =
      if (sentText whitespaceAndNewline text entities).length = 0 then []
      else [preparedMessage (sentText whitespaceAndNewline text entities) entities] := by
  rw [preparedMessages]
  by_cases hnone : (sentText whitespaceAndNewline text entities).length = 0
  · rw [if_neg (not_not.mpr hnone), if_pos hnone]
  · rw [if_pos hnone, if_pos (show _ ≤ messagePartLimit from hshort), if_neg hnone]

/-- **key result**: text and entities are kept exactly when the text is short or splittable. -/
theorem textKept_iff (whitespaceAndNewline : UInt16 → Bool) (text : List UInt16)
    (entities : Option (List (TGMessageEntity κ)))
    (hinside : ∀ entity ∈ entities.getD [], entity.location + entity.length ≤ text.length) :
    TextKept (sentText whitespaceAndNewline text entities) (entities.getD [])
        (preparedMessages whitespaceAndNewline text entities) ↔
      (sentText whitespaceAndNewline text entities).length ≤ 4096 ∨
        Splittable (sentText whitespaceAndNewline text entities) (entities.getD []) := by
  have hsent : ∀ entity ∈ entities.getD [],
      entity.location + entity.length ≤ (sentText whitespaceAndNewline text entities).length := by
    intro entity hentity
    rw [sentText, if_neg (List.length_pos_of_mem hentity).ne']
    exact hinside entity hentity
  rcases Nat.lt_or_ge 4096 (sentText whitespaceAndNewline text entities).length with
    hlong | hshort
  · rw [preparedMessages_of_long hlong, textKept_partsFrom_iff hlong, or_iff_right (by omega)]
  · refine iff_of_true ?_ (Or.inl hshort)
    rw [preparedMessages_of_short hshort]
    split
    case isTrue hnone =>
      rw [List.length_eq_zero_iff.mp hnone]
      exact ⟨nofun, rfl, nofun, nofun, nofun⟩
    case isFalse => exact textKept_singleton hshort hsent

/-- A short text with an entity is sent as it is. -/
theorem textKept_short :
    TextKept (sentText (fun _ => false) [104, 105] (some [⟨(), 0, 2⟩])) [⟨(), 0, 2⟩]
        (preparedMessages (fun _ => false) [104, 105] (some [⟨(), 0, 2⟩])) ↔
      (sentText (fun _ => false) [104, 105] (some [⟨(), 0, 2⟩])).length ≤ 4096 ∨
        Splittable (sentText (fun _ => false) [104, 105] (some [⟨(), 0, 2⟩])) [⟨(), 0, 2⟩] :=
  textKept_iff (fun _ => false) [104, 105] (some [⟨(), 0, 2⟩]) (by decide)

/-- An entity at the start of a long text is in every part of it. -/
theorem not_textKept_long :
    ¬ TextKept (sentText (fun _ => false) (List.replicate 4097 97) (some [⟨(), 0, 1⟩]))
      [⟨(), 0, 1⟩]
      (preparedMessages (fun _ => false) (List.replicate 4097 97) (some [⟨(), 0, 1⟩])) := by
  have hsent : sentText (fun _ => false) (List.replicate 4097 97) (some [⟨(), 0, 1⟩]) =
      List.replicate 4097 97 := rfl
  have hlong : 4096 < (List.replicate 4097 (97 : UInt16)).length := by
    rw [List.length_replicate]
    decide
  rw [preparedMessages_of_long (by rwa [hsent]), hsent]
  intro hkept
  have hsplittable : Splittable (List.replicate 4097 97) ((some [⟨(), 0, 1⟩]).getD []) :=
    (textKept_partsFrom_iff hlong).mp hkept
  have hempty := hsplittable.empty _ List.mem_cons_self
  exact absurd hempty.1 (by decide)

end Telegraph.Text
