import Telegraph.Lib.Runs
import Telegraph.Text.PreparedText

/-!
# Mentions, Hashtags and Commands in a Text

A text is first looked through for something worth a closer look. A scanner then goes over it and
remembers where a mention, a hashtag or a command started. It reports one when a character ends
it, and once more behind the loop, where the conditions are written out again.

## Main results

* `scannedResults_eq`: the scanner finds what the text says, one character at a time.
* `resultsOf_ordered`: the results are in order and inside of the text.
* `resultsStable_iff`: **the results do not depend on a space behind the text exactly when the text
  does not end in a mention or a hashtag of one character** (for a text whose length is an `int`).
-/

namespace Telegraph.Text

/-- The `unichar` of a character. -/
def unichar (c : Char) : UInt16 := c.toNat.toUInt16

/-- The types of a `TGTextCheckingResult` that the scanner reports. -/
inductive TGTextCheckingResultType where
  | mention
  | hashtag
  | command
deriving DecidableEq

/-- A `TGTextCheckingResult`: its range, its type and its contents. -/
structure TGTextCheckingResult where
  location : ℕ
  length : ℕ
  type : TGTextCheckingResultType
  contents : List UInt16
deriving DecidableEq

/-- A character set without the space and the three characters that start a token. -/
structure CharacterSet where
  characterIsMember : UInt16 → Bool
  space : characterIsMember (unichar ' ') = false
  atSign : characterIsMember (unichar '@') = false
  numberSign : characterIsMember (unichar '#') = false
  slash : characterIsMember (unichar '/') = false

variable {characterSet : CharacterSet}

/-! ### The characters -/

/-- A digit. -/
def isDigit (c : UInt16) : Bool := unichar '0' ≤ c ∧ c ≤ unichar '9'

/-- A character of a mention. -/
def isMentionChar (c : UInt16) : Bool :=
  isDigit c || (unichar 'a' ≤ c ∧ c ≤ unichar 'z') || (unichar 'A' ≤ c ∧ c ≤ unichar 'Z') ||
    c == unichar '_' || c == 0x200C

/-- A character of a hashtag. -/
def isHashtagChar (characterSet : CharacterSet) (c : UInt16) : Bool :=
  !(c == unichar ' ' ||
    (!characterSet.characterIsMember c && c != unichar '_' && c != 0x200C))

/-- A character of a command. -/
def isCommandChar (characterSet : CharacterSet) (c : UInt16) : Bool :=
  !(!characterSet.characterIsMember c && c != unichar '@' && c != unichar '_')

/-- The characters a mention may follow; 0 stands for the start of the text. -/
def mayPrecedeMention (previous : UInt16) : Bool :=
  previous == 0 || previous == unichar ' ' || previous == unichar '\n' ||
    previous == unichar '[' || previous == unichar ']' || previous == unichar '(' ||
    previous == unichar ')' || previous == unichar ':'

/-- The characters a command may follow. -/
def mayPrecedeCommand (previous : UInt16) : Bool :=
  previous == 0 || previous == unichar ' ' || previous == unichar '\n' || previous == unichar '\t'

/-! ### The first look -/

/-- What the first look counts. -/
structure Sequences where
  digitsInRow : ℕ
  schemeSequence : ℕ
  dotSequence : ℕ
  lastChar : UInt16

/-- One character of the first look; `none` where it stops because it found something. -/
def Sequences.next (highlightMentionsAndTags highlightCommands : Bool) (s : Sequences)
    (c : UInt16) : Option Sequences :=
  if highlightMentionsAndTags && (c == unichar '@' || c == unichar '#') then none
  else if isDigit c && 3 ≤ s.digitsInRow + 1 then none
  else
    let s :=
      if isDigit c then
        { s with digitsInRow := s.digitsInRow + 1, schemeSequence := 0, dotSequence := 0 }
      else if !(c != unichar ' ' && 0 < s.digitsInRow) then { s with digitsInRow := 0 } else s
    if c == unichar ':' then
      some { s with schemeSequence := if s.schemeSequence = 0 then 1 else 0, lastChar := c }
    else if c == unichar '/' then
      if highlightCommands then none
      else if s.schemeSequence = 2 then none
      else some { s with
        schemeSequence := if s.schemeSequence = 1 then s.schemeSequence + 1 else 0, lastChar := c }
    else if c == unichar '.' then
      some { s with
        dotSequence := if s.dotSequence = 0 ∧ s.lastChar ≠ unichar ' ' then s.dotSequence + 1 else 0
        lastChar := c }
    else if c != unichar ' ' && s.lastChar == unichar '.' && s.dotSequence = 1 then none
    else some { s with dotSequence := 0, lastChar := c }

/-- `containsSomething` behind the loop of the first look. -/
def containsSomething (highlightMentionsAndTags highlightCommands : Bool) :
    Sequences → List UInt16 → Bool
  | _, [] => false
  | s, c :: text =>
      match s.next highlightMentionsAndTags highlightCommands c with
      | none => true
      | some s => containsSomething highlightMentionsAndTags highlightCommands s text

/-! ### The scanner -/

/-- The variables of the scanner; a start of -1 is `none`. -/
structure Scanner where
  mentionStart : Option ℕ
  hashtagStart : Option ℕ
  commandStart : Option ℕ
  previous : UInt16
  results : List TGTextCheckingResult
deriving DecidableEq

/-- A mention from its start up to an end, if it is longer than a bound and no digit comes first. -/
def mentionResults (text : List UInt16) (start stop bound : ℕ) : List TGTextCheckingResult :=
  if !(stop - start ≤ bound || isDigit (text.getD (start + 1) 0)) then
    [⟨start, stop - start, .mention, substringWithRange text (start + 1) (stop - start - 1)⟩]
  else []

/-- A hashtag from its start up to an end. -/
def hashtagResult (text : List UInt16) (start stop : ℕ) : TGTextCheckingResult :=
  ⟨start, stop - start, .hashtag, substringWithRange text (start + 1) (stop - start - 1)⟩

/-- A command from its start up to an end. -/
def commandResult (text : List UInt16) (start stop : ℕ) : TGTextCheckingResult :=
  ⟨start, stop - start, .command, substringWithRange text start (stop - start)⟩

namespace Scanner

/-- A mention or a hashtag is ended. -/
def endMentionOrHashtag (characterSet : CharacterSet) (text : List UInt16) (s : Scanner)
    (c : UInt16) (i : ℕ) : Scanner :=
  match s.mentionStart, s.hashtagStart with
  | some mentionStart, _ =>
      if !isMentionChar c then
        { s with
          mentionStart := none
          results := s.results ++
            if mentionStart + 1 < i then mentionResults text mentionStart i 1 else [] }
      else s
  | none, some hashtagStart =>
      if !isHashtagChar characterSet c then
        { s with
          hashtagStart := none
          results := s.results ++
            if hashtagStart + 1 < i then [hashtagResult text hashtagStart i] else [] }
      else s
  | none, none => s

/-- A mention or a hashtag is started. -/
def startMentionOrHashtag (s : Scanner) (c : UInt16) (i : ℕ) : Scanner :=
  if c == unichar '@' then
    if mayPrecedeMention s.previous then { s with mentionStart := some i } else s
  else if c == unichar '#' then { s with hashtagStart := some i }
  else s

/-- A command is started. -/
def startCommand (s : Scanner) (c : UInt16) (i : ℕ) : Scanner :=
  if c == unichar '/' && mayPrecedeCommand s.previous then { s with commandStart := some i } else s

/-- A command is ended, or else started. -/
def endOrStartCommand (characterSet : CharacterSet) (text : List UInt16) (s : Scanner)
    (c : UInt16) (i : ℕ) : Scanner :=
  match s.commandStart with
  | some commandStart =>
      if !isCommandChar characterSet c then
        { s with
          commandStart := none
          results := s.results ++
            if 1 < i - commandStart then [commandResult text commandStart i] else [] }
      else s.startCommand c i
  | none => s.startCommand c i

/-- The block for mentions and hashtags. -/
def mentionsAndTags (highlightMentionsAndTags : Bool) (characterSet : CharacterSet)
    (text : List UInt16) (s : Scanner) (c : UInt16) (i : ℕ) : Scanner :=
  if highlightMentionsAndTags && s.commandStart.isNone then
    (s.endMentionOrHashtag characterSet text c i).startMentionOrHashtag c i
  else s

/-- The block for commands. -/
def commands (highlightCommands : Bool) (characterSet : CharacterSet) (text : List UInt16)
    (s : Scanner) (c : UInt16) (i : ℕ) : Scanner :=
  if highlightCommands && s.mentionStart.isNone && s.hashtagStart.isNone then
    s.endOrStartCommand characterSet text c i
  else s

/-- One character. -/
def step (highlightMentionsAndTags highlightCommands : Bool) (characterSet : CharacterSet)
    (text : List UInt16) (s : Scanner) (char : UInt16 × ℕ) : Scanner :=
  let s := s.mentionsAndTags highlightMentionsAndTags characterSet text char.1 char.2
  let s := s.commands highlightCommands characterSet text char.1 char.2
  { s with previous := char.1 }

/-- The results with what is open behind the loop. -/
def finish (text : List UInt16) (length : ℕ) (s : Scanner) : List TGTextCheckingResult :=
  s.results ++
    (match s.mentionStart with
      | some start => if start + 1 < length - 1 then mentionResults text start length 2 else []
      | none => []) ++
    (match s.hashtagStart with
      | some start => if start + 1 < length - 1 then [hashtagResult text start length] else []
      | none => []) ++
    match s.commandStart with
      | some start => if start + 1 < length then [commandResult text start length] else []
      | none => []

/-- The scanner before the loop. -/
def start : Scanner := ⟨none, none, none, 0, []⟩

end Scanner

/-- `(int)text.length`, as a bound of a loop that starts at 0. -/
def intLength (text : List UInt16) : ℕ := (BitVec.ofNat 32 text.length).toInt.toNat

/-- The results of the scanner. -/
def scannedResults (highlightMentionsAndTags highlightCommands : Bool)
    (characterSet : CharacterSet) (text : List UInt16) : List TGTextCheckingResult :=
  ((text.take (intLength text)).zipIdx.foldl
    (Scanner.step highlightMentionsAndTags highlightCommands characterSet text) .start).finish text
      (intLength text)

/-- `textCheckingResultsForText:highlightMentionsAndTags:highlightCommands:entities:` without
entities, less what the data detector finds; `none` is `nil`. -/
def textCheckingResultsForText (characterSet : CharacterSet) (text : List UInt16)
    (highlightMentionsAndTags highlightCommands : Bool) : Option (List TGTextCheckingResult) :=
  if containsSomething highlightMentionsAndTags highlightCommands ⟨0, 0, 0, 0⟩
      (text.take (intLength text)) then
    if highlightMentionsAndTags || highlightCommands then
      some (scannedResults highlightMentionsAndTags highlightCommands characterSet text)
    else some []
  else none

/-! ### What the text says -/

open Runs

/-- The last character of a text that is given backwards, or 0. -/
def lastOf (r : List UInt16) : UInt16 := r.headD 0

/-- The command that is open behind a text, without its slash; texts are given backwards. -/
def openCommand (characterSet : CharacterSet) : List UInt16 → Option (List UInt16) :=
  openRun (isCommandChar characterSet) fun run r c =>
    c == unichar '/' && mayPrecedeCommand (lastOf r) && run.isNone

/-- The mention that is open behind a text, without its at sign. -/
def openMention (characterSet : CharacterSet) : List UInt16 → Option (List UInt16) :=
  openRun isMentionChar fun _ r c =>
    c == unichar '@' && mayPrecedeMention (lastOf r) && (openCommand characterSet r).isNone

/-- The hashtag that is open behind a text, without its number sign. -/
def openHashtag (characterSet : CharacterSet) : List UInt16 → Option (List UInt16) :=
  openRun (isHashtagChar characterSet) fun _ r c =>
    c == unichar '#' && (openCommand characterSet r).isNone

/-- What is open, if it is enough for a result. -/
def emitted (run : Option (List UInt16)) (enough : List UInt16 → Bool)
    (result : List UInt16 → TGTextCheckingResult) : List TGTextCheckingResult :=
  ((run.filter enough).map result).toList

/-- The mention, hashtag or command that ends behind a text. -/
def resultOf (type : TGTextCheckingResultType) (sign r w : List UInt16) : TGTextCheckingResult :=
  ⟨r.length - 1 - w.length, w.length + 1, type, sign ++ w.reverse⟩

/-- A mention has enough characters, and no digit comes first. -/
def mentionEnough (least : ℕ) (w : List UInt16) : Bool :=
  least ≤ w.length && !isDigit (w.reverse.headD 0)

/-- The mention or the hashtag that a character ends. -/
def endedMentionOrHashtag (characterSet : CharacterSet) (r : List UInt16) (c : UInt16) :
    List TGTextCheckingResult :=
  (if isMentionChar c then []
    else emitted (openMention characterSet r) (mentionEnough 1) (resultOf .mention [] r)) ++
  if isHashtagChar characterSet c then []
  else emitted (openHashtag characterSet r) (1 ≤ ·.length) (resultOf .hashtag [] r)

/-- The command that a character ends. -/
def endedCommand (characterSet : CharacterSet) (r : List UInt16) (c : UInt16) :
    List TGTextCheckingResult :=
  if isCommandChar characterSet c then []
  else emitted (openCommand characterSet r) (1 ≤ ·.length) (resultOf .command [unichar '/'] r)

/-- The result that a character ends. -/
def endedBy (characterSet : CharacterSet) (r : List UInt16) (c : UInt16) :
    List TGTextCheckingResult :=
  endedMentionOrHashtag characterSet r c ++ endedCommand characterSet r c

/-- The results that are ended in a text. -/
def ended (characterSet : CharacterSet) : List UInt16 → List TGTextCheckingResult
  | [] => []
  | c :: r => ended characterSet r ++ endedBy characterSet r c

/-- The result that the end of the text ends. -/
def endedLast (characterSet : CharacterSet) (r : List UInt16) : List TGTextCheckingResult :=
  emitted (openMention characterSet r) (mentionEnough 2) (resultOf .mention [] r) ++
  emitted (openHashtag characterSet r) (2 ≤ ·.length) (resultOf .hashtag [] r) ++
  emitted (openCommand characterSet r) (1 ≤ ·.length) (resultOf .command [unichar '/'] r)

/-- The results that a text, given backwards, says it has. -/
def resultsOf (characterSet : CharacterSet) (r : List UInt16) : List TGTextCheckingResult :=
  ended characterSet r ++ endedLast characterSet r

/-! ### The signs -/

/-- Neither an at sign nor a number sign nor a slash is a character of a mention. -/
theorem isMentionChar_signs : isMentionChar (unichar '@') = false ∧
    isMentionChar (unichar '#') = false ∧ isMentionChar (unichar '/') = false := by
  decide

/-- Nor of a hashtag. -/
theorem isHashtagChar_signs : isHashtagChar characterSet (unichar '@') = false ∧
    isHashtagChar characterSet (unichar '#') = false ∧
    isHashtagChar characterSet (unichar '/') = false := by
  rw [isHashtagChar, isHashtagChar, isHashtagChar, characterSet.atSign, characterSet.numberSign,
    characterSet.slash]
  decide

/-- Only the at sign is one of a command. -/
theorem isCommandChar_signs : isCommandChar characterSet (unichar '@') = true ∧
    isCommandChar characterSet (unichar '#') = false ∧
    isCommandChar characterSet (unichar '/') = false := by
  rw [isCommandChar, isCommandChar, isCommandChar, characterSet.atSign, characterSet.numberSign,
    characterSet.slash]
  decide

/-- A space ends everything. -/
theorem isChar_space (characterSet : CharacterSet) : isMentionChar (unichar ' ') = false ∧
    isHashtagChar characterSet (unichar ' ') = false ∧
    isCommandChar characterSet (unichar ' ') = false := by
  rw [isHashtagChar, isCommandChar, characterSet.space]
  decide

/-! ### At most one thing is open -/

variable {r w : List UInt16} {c : UInt16} {text : List UInt16}

/-- The mention that is open behind one more character. -/
theorem openMention_cons (c : UInt16) (r : List UInt16) : openMention characterSet (c :: r) =
    if isMentionChar c then (openMention characterSet r).map (c :: ·)
    else if c == unichar '@' && mayPrecedeMention (lastOf r) && (openCommand characterSet r).isNone
    then some [] else none := rfl

/-- The hashtag that is open behind one more character. -/
theorem openHashtag_cons (c : UInt16) (r : List UInt16) : openHashtag characterSet (c :: r) =
    if isHashtagChar characterSet c then (openHashtag characterSet r).map (c :: ·)
    else if c == unichar '#' && (openCommand characterSet r).isNone then some [] else none := rfl

/-- The command that is open behind one more character. -/
theorem openCommand_cons (c : UInt16) (r : List UInt16) : openCommand characterSet (c :: r) =
    if isCommandChar characterSet c then (openCommand characterSet r).map (c :: ·)
    else if c == unichar '/' && mayPrecedeCommand (lastOf r) && (openCommand characterSet r).isNone
    then some [] else none := rfl

/-- A command that is open goes on, or the character is its slash. -/
theorem openCommand_cons_ne_none (h : openCommand characterSet (c :: r) ≠ none) :
    openCommand characterSet r ≠ none ∨ c = unichar '/' := by
  cases hrun : openCommand characterSet r with
  | some w => exact Or.inl (Option.some_ne_none w)
  | none =>
      rw [openCommand_cons, hrun] at h
      right
      by_contra hc
      rw [beq_false_of_ne hc] at h
      revert h
      split <;> exact fun h => h rfl

/-- In a command no mention and no hashtag is open. -/
theorem openMention_openHashtag_eq_none (h : openCommand characterSet r ≠ none) :
    openMention characterSet r = none ∧ openHashtag characterSet r = none := by
  induction r with
  | nil => exact ⟨rfl, rfl⟩
  | cons c r ih =>
      rw [openMention_cons, openHashtag_cons]
      rcases openCommand_cons_ne_none h with hrun | rfl
      · obtain ⟨hmention, hhashtag⟩ := ih hrun
        rw [hmention, hhashtag, Option.isNone_eq_false_iff.mpr (Option.ne_none_iff_isSome.mp hrun),
          Bool.and_false, Bool.and_false]
        constructor <;> split <;> rfl
      · rw [isMentionChar_signs.2.2, isHashtagChar_signs.2.2]
        exact ⟨rfl, rfl⟩

/-- Where a command is open, the next character starts no mention and no hashtag. -/
theorem openMention_openHashtag_cons_eq_none (h : openCommand characterSet r ≠ none) (c : UInt16) :
    openMention characterSet (c :: r) = none ∧ openHashtag characterSet (c :: r) = none := by
  obtain ⟨hmention, hhashtag⟩ := openMention_openHashtag_eq_none h
  rw [openMention_cons, openHashtag_cons, hmention, hhashtag,
    Option.isNone_eq_false_iff.mpr (Option.ne_none_iff_isSome.mp h), Bool.and_false, Bool.and_false]
  constructor <;> split <;> rfl

/-- In a mention no hashtag is open. -/
theorem openHashtag_eq_none (h : openMention characterSet r ≠ none) :
    openHashtag characterSet r = none := by
  induction r with
  | nil => rfl
  | cons c r ih =>
      rw [openMention_cons] at h
      rw [openHashtag_cons]
      cases hmention : isMentionChar c with
      | true =>
          rw [hmention, if_pos rfl] at h
          rw [ih fun hnone => h (by rw [hnone]; rfl)]
          have hc : c ≠ unichar '#' := by
            rintro rfl
            exact Bool.false_ne_true (isMentionChar_signs.2.1.symm.trans hmention)
          rw [beq_false_of_ne hc]
          split <;> rfl
      | false =>
          have hc : c = unichar '@' := by
            by_contra hc
            rw [hmention, beq_false_of_ne hc] at h
            exact h rfl
          rw [hc, isHashtagChar_signs.1]
          rfl

/-- The start of what is open. -/
def startOf (r : List UInt16) (run : Option (List UInt16)) : Option ℕ :=
  run.map fun w => r.length - 1 - w.length

/-- What is not open has no start. -/
@[simp] theorem startOf_none (r : List UInt16) : startOf r none = none := rfl

/-- Only what is open has a start. -/
theorem startOf_isNone (r : List UInt16) (run : Option (List UInt16)) :
    (startOf r run).isNone = run.isNone := by
  cases run <;> rfl

/-- What goes on keeps its start. -/
@[simp] theorem startOf_map (c : UInt16) (r : List UInt16) (run : Option (List UInt16)) :
    startOf (c :: r) (run.map (c :: ·)) = startOf r run := by
  cases run with
  | none => rfl
  | some w =>
      rw [startOf, startOf, Option.map_map, Option.map_some, Option.map_some, Function.comp_apply,
        List.length_cons, List.length_cons]
      congr 1
      omega

/-- What starts with a character starts at its place. -/
@[simp] theorem startOf_nil (c : UInt16) (r : List UInt16) :
    startOf (c :: r) (some []) = some r.length := rfl

/-- The contents of what is open, read from the text. -/
theorem substring_of_open {first : UInt16} {before rest : List UInt16}
    (htext : text = (w ++ first :: before).reverse ++ rest) :
    substringWithRange text before.length (w.length + 1) = first :: w.reverse ∧
      substringWithRange text (before.length + 1) w.length = w.reverse ∧
      (w ≠ [] → text.getD (before.length + 1) 0 = w.reverse.headD 0) := by
  have hdrop : text.drop before.length = first :: w.reverse ++ rest := by
    rw [htext, List.reverse_append, List.reverse_cons, List.append_assoc, List.append_assoc,
      List.drop_append_of_le_length (by rw [List.length_reverse])]
    rw [← List.length_reverse, List.drop_length]
    rfl
  have hnext : text.drop (before.length + 1) = w.reverse ++ rest := by
    rw [← List.drop_drop, hdrop]
    rfl
  refine ⟨?_, ?_, fun hw => ?_⟩
  · rw [substringWithRange, hdrop]
    exact List.take_left' (by rw [List.length_cons, List.length_reverse])
  · rw [substringWithRange, hnext]
    exact List.take_left' List.length_reverse
  · rw [List.getD_eq_getElem?_getD, ← Nat.add_zero (before.length + 1), ← List.getElem?_drop, hnext]
    cases hreverse : w.reverse with
    | nil => exact absurd (List.reverse_eq_nil_iff.mp hreverse) hw
    | cons second w => rfl

/-! ### The scanner finds what the text says -/

/-- What a run needs to be read back from the text: the text goes on behind it. -/
theorem exists_sign_of_open {continues : UInt16 → Bool}
    {starts : Option (List UInt16) → List UInt16 → UInt16 → Bool}
    (h : openRun continues starts r = some w) (htext : r.reverse <+: text) :
    ∃ first before rest, r.length = w.length + 1 + before.length ∧
      text = (w ++ first :: before).reverse ++ rest ∧
      starts (openRun continues starts before) before first = true := by
  obtain ⟨first, before, rfl, hstarts⟩ := exists_of_openRun h
  obtain ⟨rest, rfl⟩ := htext
  refine ⟨first, before, rest, ?_, rfl, hstarts⟩
  rw [List.length_append, List.length_cons]
  omega

/-- A mention that is read from the text, in the loop and behind it. -/
theorem mentionResults_eq {bound : ℕ} (hbound : 1 ≤ bound) {guard : Prop} [Decidable guard]
    (h : openMention characterSet r = some w) (htext : r.reverse <+: text)
    (hguard : guard ↔ bound ≤ w.length) :
    (if guard then mentionResults text (r.length - 1 - w.length) r.length bound else []) =
      emitted (some w) (mentionEnough bound) (resultOf .mention [] r) := by
  obtain ⟨first, before, rest, hlength, hsplit, -⟩ := exists_sign_of_open h htext
  have hstart : r.length - 1 - w.length = before.length := by omega
  have hstop : r.length - before.length = w.length + 1 := by omega
  obtain ⟨-, hcontents, hfirst⟩ := substring_of_open hsplit
  rw [emitted, Option.filter_some, mentionEnough, mentionResults, hstart, hstop, Nat.add_sub_cancel,
    hcontents]
  by_cases henough : bound ≤ w.length
  · have hw : w ≠ [] := List.ne_nil_of_length_pos (by omega)
    rw [if_pos (hguard.mpr henough), hfirst hw, decide_eq_false (by omega : ¬ w.length + 1 ≤ bound),
      decide_eq_true henough, Bool.false_or, Bool.true_and]
    cases isDigit (w.reverse.headD 0) with
    | true => rfl
    | false =>
        rw [Bool.not_false, if_pos rfl, if_pos rfl, Option.map_some, resultOf, hstart]
        rfl
  · rw [if_neg fun hg => henough (hguard.mp hg), decide_eq_false henough, Bool.false_and]
    rfl

/-- A hashtag that is read from the text, in the loop and behind it. -/
theorem hashtagResult_eq {least : ℕ} {guard : Prop} [Decidable guard]
    (h : openHashtag characterSet r = some w) (htext : r.reverse <+: text)
    (hguard : guard ↔ least ≤ w.length) :
    (if guard then [hashtagResult text (r.length - 1 - w.length) r.length] else []) =
      emitted (some w) (least ≤ ·.length) (resultOf .hashtag [] r) := by
  obtain ⟨first, before, rest, hlength, hsplit, -⟩ := exists_sign_of_open h htext
  have hstart : r.length - 1 - w.length = before.length := by omega
  have hstop : r.length - before.length = w.length + 1 := by omega
  obtain ⟨-, hcontents, -⟩ := substring_of_open hsplit
  rw [emitted, Option.filter_some, hashtagResult, hstart, hstop, Nat.add_sub_cancel, hcontents]
  by_cases henough : least ≤ w.length
  · rw [if_pos (hguard.mpr henough), if_pos (decide_eq_true henough), Option.map_some, resultOf,
      hstart]
    rfl
  · rw [if_neg fun hg => henough (hguard.mp hg), if_neg (by simpa using henough)]
    rfl

/-- A command that is read from the text, in the loop and behind it. -/
theorem commandResult_eq {guard : Prop} [Decidable guard]
    (h : openCommand characterSet r = some w) (htext : r.reverse <+: text)
    (hguard : guard ↔ 1 ≤ w.length) :
    (if guard then [commandResult text (r.length - 1 - w.length) r.length] else []) =
      emitted (some w) (1 ≤ ·.length) (resultOf .command [unichar '/'] r) := by
  obtain ⟨first, before, rest, hlength, hsplit, hsign⟩ := exists_sign_of_open h htext
  have hstart : r.length - 1 - w.length = before.length := by omega
  have hstop : r.length - before.length = w.length + 1 := by omega
  have hfirst : first = unichar '/' := by
    simp only [Bool.and_eq_true, beq_iff_eq] at hsign
    exact hsign.1.1
  obtain ⟨hcontents, -, -⟩ := substring_of_open hsplit
  rw [emitted, Option.filter_some, commandResult, hstart, hstop, hcontents, hfirst]
  by_cases henough : 1 ≤ w.length
  · rw [if_pos (hguard.mpr henough), if_pos (decide_eq_true henough), Option.map_some, resultOf,
      hstart]
    rfl
  · rw [if_neg fun hg => henough (hguard.mp hg), if_neg (by simpa using henough)]
    rfl

/-- The scanner behind a text that is given backwards. -/
def stateOf (characterSet : CharacterSet) (r : List UInt16) : Scanner where
  mentionStart := startOf r (openMention characterSet r)
  hashtagStart := startOf r (openHashtag characterSet r)
  commandStart := startOf r (openCommand characterSet r)
  previous := lastOf r
  results := ended characterSet r

/-- What the block for mentions and hashtags ends. -/
theorem endMentionOrHashtag_stateOf (htext : r.reverse <+: text) (c : UInt16) :
    (stateOf characterSet r).endMentionOrHashtag characterSet text c r.length =
      { stateOf characterSet r with
        mentionStart :=
          if isMentionChar c then startOf r (openMention characterSet r) else none
        hashtagStart :=
          if isHashtagChar characterSet c then startOf r (openHashtag characterSet r) else none
        results := ended characterSet r ++ endedMentionOrHashtag characterSet r c } := by
  rw [Scanner.endMentionOrHashtag, stateOf, endedMentionOrHashtag]
  cases hmention : openMention characterSet r with
  | some w =>
      have hlength := length_lt_of_openRun hmention
      have hhashtag : openHashtag characterSet r = none :=
        openHashtag_eq_none (by rw [hmention]; exact Option.some_ne_none w)
      rw [hhashtag]
      cases hc : isMentionChar c with
      | true => simp [startOf, emitted]
      | false =>
          have hresult := mentionResults_eq le_rfl hmention htext
            (show r.length - 1 - w.length + 1 < r.length ↔ 1 ≤ w.length by omega)
          simp only [startOf, Option.map_some, Bool.not_false, if_true, hresult]
          simp [emitted]
  | none =>
      cases hhashtag : openHashtag characterSet r with
      | some w =>
          have hlength := length_lt_of_openRun hhashtag
          cases hc : isHashtagChar characterSet c with
          | true => simp [startOf, emitted]
          | false =>
              have hresult := hashtagResult_eq hhashtag htext
                (show r.length - 1 - w.length + 1 < r.length ↔ 1 ≤ w.length by omega)
              simp only [startOf, Option.map_some, Option.map_none, Bool.not_false, if_true, hresult]
              simp [emitted]
      | none => simp [startOf, emitted]

/-- What the block for mentions and hashtags does. -/
theorem mentionsAndTags_stateOf (htext : r.reverse <+: text) (c : UInt16) :
    (stateOf characterSet r).mentionsAndTags true characterSet text c r.length =
      { stateOf characterSet r with
        mentionStart := startOf (c :: r) (openMention characterSet (c :: r))
        hashtagStart := startOf (c :: r) (openHashtag characterSet (c :: r))
        results := ended characterSet r ++ endedMentionOrHashtag characterSet r c } := by
  rw [Scanner.mentionsAndTags, Bool.true_and, openMention_cons, openHashtag_cons]
  cases hcommand : openCommand characterSet r with
  | some w =>
      obtain ⟨hmention, hhashtag⟩ := openMention_openHashtag_eq_none
        (by rw [hcommand]; exact Option.some_ne_none w : openCommand characterSet r ≠ none)
      simp [stateOf, hcommand, hmention, hhashtag, startOf, emitted, endedMentionOrHashtag]
  | none =>
      rw [if_pos (by rw [stateOf, hcommand]; rfl), endMentionOrHashtag_stateOf htext,
        Scanner.startMentionOrHashtag]
      rcases eq_or_ne c (unichar '@') with rfl | hat
      · rw [isMentionChar_signs.1, isHashtagChar_signs.1]
        have hne : unichar '@' ≠ unichar '#' := by decide
        cases hprevious : mayPrecedeMention (lastOf r) <;> simp [stateOf, hprevious, hne]
      · rcases eq_or_ne c (unichar '#') with rfl | hhash
        · rw [isMentionChar_signs.2.1, isHashtagChar_signs.2.1]
          simp [hat]
        · rw [if_neg (by simpa using hat), if_neg (by simpa using hhash)]
          simp only [beq_false_of_ne hat, beq_false_of_ne hhash, Bool.false_and]
          cases isMentionChar c <;> cases isHashtagChar characterSet c <;>
            simp

/-- What the block for commands does, where no mention and no hashtag is open. -/
theorem endOrStartCommand_stateOf (htext : r.reverse <+: text) (c : UInt16)
    (results : List TGTextCheckingResult) :
    Scanner.endOrStartCommand characterSet text
        ⟨none, none, startOf r (openCommand characterSet r), lastOf r, results⟩ c r.length =
      ⟨none, none, startOf (c :: r) (openCommand characterSet (c :: r)), lastOf r,
        results ++ endedCommand characterSet r c⟩ := by
  rw [Scanner.endOrStartCommand, openCommand_cons, endedCommand]
  cases hcommand : openCommand characterSet r with
  | some w =>
      have hlength := length_lt_of_openRun hcommand
      cases hc : isCommandChar characterSet c with
      | true =>
          have hslash : c ≠ unichar '/' := by
            rintro rfl
            exact Bool.false_ne_true (isCommandChar_signs.2.2.symm.trans hc)
          simp [startOf, Scanner.startCommand, hslash]
          omega
      | false =>
          have hresult := commandResult_eq hcommand htext
            (show 1 < r.length - (r.length - 1 - w.length) ↔ 1 ≤ w.length by omega)
          simp only [startOf, Option.map_some, Bool.not_false, if_true, hresult]
          simp
  | none =>
      rw [startOf_none, Scanner.startCommand]
      dsimp only
      cases hc : isCommandChar characterSet c with
      | true =>
          have hslash : c ≠ unichar '/' := by
            rintro rfl
            exact Bool.false_ne_true (isCommandChar_signs.2.2.symm.trans hc)
          simp [hslash]
      | false =>
          cases hstart : c == unichar '/' && mayPrecedeCommand (lastOf r) <;>
            simp [emitted]

/-- One step of the scanner. -/
theorem step_stateOf (characterSet : CharacterSet) (hr : (c :: r).reverse <+: text) :
    Scanner.step true true characterSet text (stateOf characterSet r) (c, r.length) =
      stateOf characterSet (c :: r) := by
  have htext : r.reverse <+: text := by
    rw [List.reverse_cons] at hr
    exact (List.prefix_append _ _).trans hr
  rw [Scanner.step, mentionsAndTags_stateOf htext, Scanner.commands, stateOf, stateOf, ended,
    endedBy]
  dsimp only
  by_cases hopen : openMention characterSet (c :: r) = none ∧
      openHashtag characterSet (c :: r) = none
  · have hrun : (true && (startOf (c :: r) (openMention characterSet (c :: r))).isNone &&
        (startOf (c :: r) (openHashtag characterSet (c :: r))).isNone) = true := by
      rw [hopen.1, hopen.2]
      rfl
    rw [hrun, if_pos rfl, hopen.1, hopen.2, startOf_none, endOrStartCommand_stateOf htext,
      List.append_assoc]
    rfl
  · have hbefore : openCommand characterSet r = none := by
      by_contra h
      exact hopen (openMention_openHashtag_cons_eq_none h c)
    have hbehind : openCommand characterSet (c :: r) = none := by
      by_contra h
      exact hopen (openMention_openHashtag_eq_none h)
    have hskip : (true && (startOf (c :: r) (openMention characterSet (c :: r))).isNone &&
        (startOf (c :: r) (openHashtag characterSet (c :: r))).isNone) = false := by
      rw [startOf_isNone, startOf_isNone, Bool.true_and, ← Bool.not_eq_true, Bool.and_eq_true,
        Option.isNone_iff_eq_none, Option.isNone_iff_eq_none]
      exact hopen
    have hcommand : endedCommand characterSet r c = [] := by
      rw [endedCommand, hbefore]
      split <;> rfl
    rw [hskip, hbefore, hbehind, hcommand, List.append_nil, startOf_none]
    rfl

/-- What is reported behind the loop. -/
theorem finish_stateOf (characterSet : CharacterSet) (htext : r.reverse <+: text) :
    (stateOf characterSet r).finish text r.length =
      ended characterSet r ++ endedLast characterSet r := by
  have hmentions : (match (stateOf characterSet r).mentionStart with
      | some start => if start + 1 < r.length - 1 then mentionResults text start r.length 2 else []
      | none => []) =
        emitted (openMention characterSet r) (mentionEnough 2) (resultOf .mention [] r) := by
    rw [stateOf]
    cases hmention : openMention characterSet r with
    | some w =>
        have hlength := length_lt_of_openRun hmention
        exact mentionResults_eq (Nat.le_succ 1) hmention htext (by dsimp only; omega)
    | none => rfl
  have hhashtags : (match (stateOf characterSet r).hashtagStart with
      | some start => if start + 1 < r.length - 1 then [hashtagResult text start r.length] else []
      | none => []) =
        emitted (openHashtag characterSet r) (2 ≤ ·.length) (resultOf .hashtag [] r) := by
    rw [stateOf]
    cases hhashtag : openHashtag characterSet r with
    | some w =>
        have hlength := length_lt_of_openRun hhashtag
        exact hashtagResult_eq hhashtag htext (by dsimp only; omega)
    | none => rfl
  have hcommands : (match (stateOf characterSet r).commandStart with
      | some start => if start + 1 < r.length then [commandResult text start r.length] else []
      | none => []) =
        emitted (openCommand characterSet r) (1 ≤ ·.length)
          (resultOf .command [unichar '/'] r) := by
    rw [stateOf]
    cases hcommand : openCommand characterSet r with
    | some w =>
        have hlength := length_lt_of_openRun hcommand
        exact commandResult_eq hcommand htext (by dsimp only; omega)
    | none => rfl
  rw [Scanner.finish, hmentions, hhashtags, hcommands, endedLast]
  simp only [List.append_assoc]
  rfl

/-- The length of a text as an `int`. -/
theorem intLength_eq (text : List UInt16) : intLength text =
    if text.length % 2 ^ 32 < 2 ^ 31 then text.length % 2 ^ 32 else 0 := by
  have hlt : text.length % 2 ^ 32 < 2 ^ 32 := Nat.mod_lt _ (by decide)
  rw [intLength, BitVec.toInt_eq_toNat_cond, BitVec.toNat_ofNat]
  split <;> split <;> omega

/-- **The scanner finds what the text says.** -/
theorem scannedResults_eq (text : List UInt16) :
    scannedResults true true characterSet text =
      resultsOf characterSet (text.take (intLength text)).reverse := by
  have hlength : (text.take (intLength text)).reverse.length = intLength text := by
    rw [List.length_reverse, List.length_take, intLength_eq]
    split <;> omega
  have htake : (text.take (intLength text)).reverse.reverse <+: text := by
    rw [List.reverse_reverse]
    exact List.take_prefix _ text
  have hloop := foldl_zipIdx_eq (text.take (intLength text)) fun r c hr =>
    step_stateOf characterSet (hr.trans (List.take_prefix _ text))
  have hfinish := finish_stateOf characterSet htake
  rw [hlength] at hfinish
  rw [scannedResults, show Scanner.start = stateOf characterSet [] from rfl, hloop, hfinish,
    resultsOf]

/-! ### The first look hides nothing -/

/-- The first look stops at a sign. -/
theorem next_eq_none (s : Sequences)
    (hc : c = unichar '@' ∨ c = unichar '#' ∨ c = unichar '/') : s.next true true c = none := by
  rcases hc with rfl | rfl | rfl
  · rfl
  · rfl
  · rfl

/-- A text with a sign contains something. -/
theorem containsSomething_of_sign (s : Sequences) (hmem : c ∈ text)
    (hc : c = unichar '@' ∨ c = unichar '#' ∨ c = unichar '/') :
    containsSomething true true s text = true := by
  induction text generalizing s with
  | nil => exact absurd hmem List.not_mem_nil
  | cons first text ih =>
      rw [containsSomething]
      rcases List.mem_cons.mp hmem with rfl | hrest
      · rw [next_eq_none s hc]
      · cases s.next true true first with
        | none => rfl
        | some s => exact ih s hrest

/-- In a text without a sign nothing is open. -/
theorem open_eq_none (h : ∀ c ∈ r, c ≠ unichar '@' ∧ c ≠ unichar '#' ∧ c ≠ unichar '/') :
    openMention characterSet r = none ∧ openHashtag characterSet r = none ∧
      openCommand characterSet r = none := by
  refine ⟨openRun_eq_none fun c hc _ before => ?_, openRun_eq_none fun c hc _ before => ?_,
    openRun_eq_none fun c hc _ before => ?_⟩
  · rw [beq_false_of_ne (h c hc).1, Bool.false_and, Bool.false_and]
  · rw [beq_false_of_ne (h c hc).2.1, Bool.false_and]
  · rw [beq_false_of_ne (h c hc).2.2, Bool.false_and, Bool.false_and]

/-- Nothing open is nothing to report. -/
@[simp] theorem emitted_none (enough : List UInt16 → Bool)
    (result : List UInt16 → TGTextCheckingResult) : emitted none enough result = [] := rfl

/-- What is open is reported if it is enough. -/
theorem emitted_some (w : List UInt16) (enough : List UInt16 → Bool)
    (result : List UInt16 → TGTextCheckingResult) :
    emitted (some w) enough result = if enough w then [result w] else [] := by
  rw [emitted, Option.filter_some]
  split <;> rfl

/-- A text without a sign has no results. -/
theorem resultsOf_eq_nil (h : ∀ c ∈ r, c ≠ unichar '@' ∧ c ≠ unichar '#' ∧ c ≠ unichar '/') :
    resultsOf characterSet r = [] := by
  have hended : ended characterSet r = [] := by
    induction r with
    | nil => rfl
    | cons c r ih =>
        have hr := fun d hd => h d (List.mem_cons_of_mem c hd)
        obtain ⟨hmention, hhashtag, hcommand⟩ := open_eq_none hr
        rw [ended, ih hr, endedBy, endedMentionOrHashtag, endedCommand, hmention, hhashtag,
          hcommand]
        simp
  obtain ⟨hmention, hhashtag, hcommand⟩ := open_eq_none h
  rw [resultsOf, hended, endedLast, hmention, hhashtag, hcommand]
  rfl

/-- **The results, with `nil` for none.** -/
theorem textCheckingResults_eq (text : List UInt16) :
    (textCheckingResultsForText characterSet text true true).getD [] =
      resultsOf characterSet (text.take (intLength text)).reverse := by
  rw [textCheckingResultsForText]
  cases hlook : containsSomething true true ⟨0, 0, 0, 0⟩ (text.take (intLength text)) with
  | true =>
      rw [if_pos rfl, Bool.true_or, if_pos rfl, Option.getD_some, scannedResults_eq]
  | false =>
      rw [if_neg Bool.false_ne_true, Option.getD_none, resultsOf_eq_nil]
      intro c hc
      have hmem := List.mem_reverse.mp hc
      refine ⟨?_, ?_, ?_⟩
      all_goals
        intro hsign
        have hfound := containsSomething_of_sign ⟨0, 0, 0, 0⟩ hmem (by simp [hsign])
        exact Bool.false_ne_true (hlook.symm.trans hfound)

/-! ### One more character -/

/-- A character behind the text changes its results: what is open is enough for a result, and the
character goes on with it, or it is a mention or a hashtag of one character. -/
def Changed (characterSet : CharacterSet) (r : List UInt16) (c : UInt16) : Prop :=
  (∃ w, openMention characterSet r = some w ∧ mentionEnough 1 w = true ∧
    (isMentionChar c = true ∨ w.length = 1)) ∨
  (∃ w, openHashtag characterSet r = some w ∧ w ≠ [] ∧
    (isHashtagChar characterSet c = true ∨ w.length = 1)) ∨
  ∃ w, openCommand characterSet r = some w ∧ isCommandChar characterSet c = true

/-- Something is open behind a text. -/
def IsOpen (characterSet : CharacterSet) (r w : List UInt16) : Prop :=
  openMention characterSet r = some w ∨ openHashtag characterSet r = some w ∨
    openCommand characterSet r = some w

/-- What has just been started is not reported. -/
theorem endedLast_eq_nil (h : ∀ w, IsOpen characterSet r w → w = []) :
    endedLast characterSet r = [] := by
  have hmention : emitted (openMention characterSet r) (mentionEnough 2)
      (resultOf .mention [] r) = [] := by
    cases hrun : openMention characterSet r with
    | none => rfl
    | some w => rw [h w (Or.inl hrun)]; rfl
  have hhashtag : emitted (openHashtag characterSet r) (2 ≤ ·.length)
      (resultOf .hashtag [] r) = [] := by
    cases hrun : openHashtag characterSet r with
    | none => rfl
    | some w => rw [h w (Or.inr (Or.inl hrun))]; rfl
  have hcommand : emitted (openCommand characterSet r) (1 ≤ ·.length)
      (resultOf .command [unichar '/'] r) = [] := by
    cases hrun : openCommand characterSet r with
    | none => rfl
    | some w => rw [h w (Or.inr (Or.inr hrun))]; rfl
  rw [endedLast, hmention, hhashtag, hcommand]
  rfl

/-- In a mention nothing else is open. -/
theorem open_of_mention (h : openMention characterSet r = some w) :
    openHashtag characterSet r = none ∧ openCommand characterSet r = none := by
  have hne : openMention characterSet r ≠ none := by
    rw [h]
    exact Option.some_ne_none w
  refine ⟨openHashtag_eq_none hne, ?_⟩
  by_contra hcommand
  exact hne (openMention_openHashtag_eq_none hcommand).1

/-- In a hashtag nothing else is open. -/
theorem open_of_hashtag (h : openHashtag characterSet r = some w) :
    openMention characterSet r = none ∧ openCommand characterSet r = none := by
  have hne : openHashtag characterSet r ≠ none := by
    rw [h]
    exact Option.some_ne_none w
  constructor
  · by_contra hmention
    exact hne (openHashtag_eq_none hmention)
  · by_contra hcommand
    exact hne (openMention_openHashtag_eq_none hcommand).2

/-- In a command nothing else is open. -/
theorem open_of_command (h : openCommand characterSet r = some w) :
    openMention characterSet r = none ∧ openHashtag characterSet r = none :=
  openMention_openHashtag_eq_none (by rw [h]; exact Option.some_ne_none w)

/-- What is open behind one more character was started by it, or the character goes on with it. -/
theorem isOpen_cons (h : IsOpen characterSet (c :: r) w) :
    w = [] ∨ ∃ v, w = c :: v ∧
      (openMention characterSet r = some v ∧ isMentionChar c = true ∨
        openHashtag characterSet r = some v ∧ isHashtagChar characterSet c = true ∨
          openCommand characterSet r = some v ∧ isCommandChar characterSet c = true) := by
  rcases h with h | h | h
  · obtain hw | ⟨hc, v, hw, hv⟩ := openRun_cons_eq_some h
    · exact Or.inl hw
    · exact Or.inr ⟨v, hw, Or.inl ⟨hv, hc⟩⟩
  · obtain hw | ⟨hc, v, hw, hv⟩ := openRun_cons_eq_some h
    · exact Or.inl hw
    · exact Or.inr ⟨v, hw, Or.inr (Or.inl ⟨hv, hc⟩)⟩
  · obtain hw | ⟨hc, v, hw, hv⟩ := openRun_cons_eq_some h
    · exact Or.inl hw
    · exact Or.inr ⟨v, hw, Or.inr (Or.inr ⟨hv, hc⟩)⟩

/-- A character that ends a mention goes on with nothing. -/
theorem open_cons_of_mention (h : openMention characterSet r = some w)
    (hc : isMentionChar c = false) (v : List UInt16) (hv : IsOpen characterSet (c :: r) v) :
    v = [] := by
  obtain ⟨hhashtag, hcommand⟩ := open_of_mention h
  rcases isOpen_cons hv with hnil | ⟨u, -, ⟨-, hm⟩ | ⟨hu, -⟩ | ⟨hu, -⟩⟩
  · exact hnil
  · exact absurd (hc.symm.trans hm) Bool.false_ne_true
  · exact absurd (hhashtag.symm.trans hu) (Option.some_ne_none u).symm
  · exact absurd (hcommand.symm.trans hu) (Option.some_ne_none u).symm

/-- A character that ends a hashtag goes on with nothing. -/
theorem open_cons_of_hashtag (h : openHashtag characterSet r = some w)
    (hc : isHashtagChar characterSet c = false) (v : List UInt16)
    (hv : IsOpen characterSet (c :: r) v) : v = [] := by
  obtain ⟨hmention, hcommand⟩ := open_of_hashtag h
  rcases isOpen_cons hv with hnil | ⟨u, -, ⟨hu, -⟩ | ⟨-, hm⟩ | ⟨hu, -⟩⟩
  · exact hnil
  · exact absurd (hmention.symm.trans hu) (Option.some_ne_none u).symm
  · exact absurd (hc.symm.trans hm) Bool.false_ne_true
  · exact absurd (hcommand.symm.trans hu) (Option.some_ne_none u).symm

/-- A character that ends a command goes on with nothing. -/
theorem open_cons_of_command (h : openCommand characterSet r = some w)
    (hc : isCommandChar characterSet c = false) (v : List UInt16)
    (hv : IsOpen characterSet (c :: r) v) : v = [] := by
  obtain ⟨hmention, hhashtag⟩ := open_of_command h
  rcases isOpen_cons hv with hnil | ⟨u, -, ⟨hu, -⟩ | ⟨hu, -⟩ | ⟨-, hm⟩⟩
  · exact hnil
  · exact absurd (hmention.symm.trans hu) (Option.some_ne_none u).symm
  · exact absurd (hhashtag.symm.trans hu) (Option.some_ne_none u).symm
  · exact absurd (hc.symm.trans hm) Bool.false_ne_true

/-- What a character ends in a mention. -/
theorem endedBy_of_mention (h : openMention characterSet r = some w) (c : UInt16) :
    endedBy characterSet r c =
      if isMentionChar c then []
      else if mentionEnough 1 w then [resultOf .mention [] r w] else [] := by
  obtain ⟨hhashtag, hcommand⟩ := open_of_mention h
  rw [endedBy, endedMentionOrHashtag, endedCommand, h, hhashtag, hcommand, emitted_some,
    emitted_none, emitted_none, ite_self, ite_self, List.append_nil, List.append_nil]

/-- What a character ends in a hashtag. -/
theorem endedBy_of_hashtag (h : openHashtag characterSet r = some w) (c : UInt16) :
    endedBy characterSet r c =
      if isHashtagChar characterSet c then []
      else if 1 ≤ w.length then [resultOf .hashtag [] r w] else [] := by
  obtain ⟨hmention, hcommand⟩ := open_of_hashtag h
  rw [endedBy, endedMentionOrHashtag, endedCommand, h, hmention, hcommand, emitted_some,
    emitted_none, emitted_none, ite_self, ite_self, List.append_nil, List.nil_append]
  simp only [decide_eq_true_eq]

/-- What a character ends in a command. -/
theorem endedBy_of_command (h : openCommand characterSet r = some w) (c : UInt16) :
    endedBy characterSet r c =
      if isCommandChar characterSet c then []
      else if 1 ≤ w.length then [resultOf .command [unichar '/'] r w] else [] := by
  obtain ⟨hmention, hhashtag⟩ := open_of_command h
  rw [endedBy, endedMentionOrHashtag, endedCommand, h, hmention, hhashtag, emitted_some,
    emitted_none, emitted_none, ite_self, ite_self, List.append_nil, List.nil_append]
  simp only [decide_eq_true_eq]

/-- Where nothing is open, nothing is ended. -/
theorem endedBy_of_none (h : ∀ w, ¬ IsOpen characterSet r w) (c : UInt16) :
    endedBy characterSet r c = [] := by
  have hmention := Option.eq_none_iff_forall_ne_some.mpr fun w hw => h w (Or.inl hw)
  have hhashtag := Option.eq_none_iff_forall_ne_some.mpr fun w hw => h w (Or.inr (Or.inl hw))
  have hcommand := Option.eq_none_iff_forall_ne_some.mpr fun w hw => h w (Or.inr (Or.inr hw))
  rw [endedBy, endedMentionOrHashtag, endedCommand, hmention, hhashtag, hcommand, emitted_none,
    emitted_none, emitted_none, ite_self, ite_self, ite_self]
  rfl

/-- Behind a mention. -/
theorem last_of_mention (h : openMention characterSet r = some w) :
    endedLast characterSet r =
      if mentionEnough 2 w then [resultOf .mention [] r w] else [] := by
  obtain ⟨hhashtag, hcommand⟩ := open_of_mention h
  rw [endedLast, h, hhashtag, hcommand, emitted_some, emitted_none, emitted_none, List.append_nil,
    List.append_nil]

/-- Behind a hashtag. -/
theorem last_of_hashtag (h : openHashtag characterSet r = some w) :
    endedLast characterSet r = if 2 ≤ w.length then [resultOf .hashtag [] r w] else [] := by
  obtain ⟨hmention, hcommand⟩ := open_of_hashtag h
  rw [endedLast, h, hmention, hcommand, emitted_some, emitted_none, emitted_none, List.append_nil,
    List.nil_append]
  simp

/-- Behind a command. -/
theorem last_of_command (h : openCommand characterSet r = some w) :
    endedLast characterSet r =
      if 1 ≤ w.length then [resultOf .command [unichar '/'] r w] else [] := by
  obtain ⟨hmention, hhashtag⟩ := open_of_command h
  rw [endedLast, h, hmention, hhashtag, emitted_some, emitted_none, emitted_none, List.append_nil,
    List.nil_append]
  simp

/-- A mention with one more character. -/
theorem mentionEnough_cons (c : UInt16) (w : List UInt16) :
    mentionEnough 2 (c :: w) = mentionEnough 1 w := by
  rw [mentionEnough, mentionEnough, List.reverse_cons, List.length_cons]
  cases hw : w.reverse with
  | nil =>
      rw [List.reverse_eq_nil_iff.mp hw]
      rfl
  | cons first rest => simp

/-- Two characters are enough where one is. -/
theorem mentionEnough_two (w : List UInt16) :
    mentionEnough 2 w = true ↔ mentionEnough 1 w = true ∧ w.length ≠ 1 := by
  simp only [mentionEnough, Bool.and_eq_true, decide_eq_true_eq]
  constructor
  · rintro ⟨hlength, hdigit⟩
    exact ⟨⟨by omega, hdigit⟩, by omega⟩
  · rintro ⟨⟨hlength, hdigit⟩, hne⟩
    exact ⟨by omega, hdigit⟩

/-- A result with one more character is another one. -/
theorem resultOf_cons_ne (type : TGTextCheckingResultType) (sign r w : List UInt16) (c : UInt16) :
    resultOf type sign (c :: r) (c :: w) ≠ resultOf type sign r w := by
  intro heq
  have hlength : w.length + 1 + 1 = w.length + 1 := congrArg TGTextCheckingResult.length heq
  omega

/-- One more character behind a mention. -/
theorem same_of_mention (h : openMention characterSet r = some w) (c : UInt16) :
    endedBy characterSet r c ++ endedLast characterSet (c :: r) = endedLast characterSet r ↔
      ¬ (mentionEnough 1 w = true ∧ (isMentionChar c = true ∨ w.length = 1)) := by
  rw [endedBy_of_mention h, last_of_mention h]
  cases hc : isMentionChar c with
  | true =>
      have hnext : openMention characterSet (c :: r) = some (c :: w) := by
        rw [openMention_cons, if_pos hc, h, Option.map_some]
      rw [if_pos rfl, List.nil_append, last_of_mention hnext, mentionEnough_cons]
      cases henough : mentionEnough 1 w with
      | true =>
          have hne := resultOf_cons_ne .mention [] r w c
          cases mentionEnough 2 w <;> simp [hne]
      | false =>
          have htwo : mentionEnough 2 w = false := by
            rw [← Bool.not_eq_true, mentionEnough_two, henough]
            exact fun hboth => Bool.false_ne_true hboth.1
          simp [htwo]
  | false =>
      rw [endedLast_eq_nil (open_cons_of_mention h hc), List.append_nil,
        if_neg Bool.false_ne_true]
      have htwo := mentionEnough_two w
      cases henough : mentionEnough 1 w with
      | true =>
          rw [henough] at htwo
          by_cases hone : w.length = 1
          · rw [if_neg fun h2 => (htwo.mp h2).2 hone]
            simp [hone]
          · rw [if_pos (htwo.mpr ⟨rfl, hone⟩)]
            simp [hone]
      | false =>
          rw [henough] at htwo
          rw [if_neg fun h2 => Bool.false_ne_true (htwo.mp h2).1]
          simp

/-- One more character behind a hashtag. -/
theorem same_of_hashtag (h : openHashtag characterSet r = some w) (c : UInt16) :
    endedBy characterSet r c ++ endedLast characterSet (c :: r) = endedLast characterSet r ↔
      ¬ (w ≠ [] ∧ (isHashtagChar characterSet c = true ∨ w.length = 1)) := by
  rw [endedBy_of_hashtag h, last_of_hashtag h, ← List.length_pos_iff_ne_nil]
  cases hc : isHashtagChar characterSet c with
  | true =>
      have hnext : openHashtag characterSet (c :: r) = some (c :: w) := by
        rw [openHashtag_cons, if_pos hc, h, Option.map_some]
      have hne := resultOf_cons_ne .hashtag [] r w c
      rw [if_pos rfl, List.nil_append, last_of_hashtag hnext, List.length_cons]
      by_cases htwo : 2 ≤ w.length
      · have hpos : 0 < w.length := by omega
        rw [if_pos htwo, if_pos (by omega)]
        simp [hne, hpos]
      · rw [if_neg htwo]
        by_cases hone : w.length = 1
        · simp [hone]
        · have hzero : w.length = 0 := by omega
          simp [hzero]
  | false =>
      rw [endedLast_eq_nil (open_cons_of_hashtag h hc), List.append_nil,
        if_neg Bool.false_ne_true]
      by_cases htwo : 2 ≤ w.length
      · have hone : w.length ≠ 1 := by omega
        simp [htwo, hone, (by omega : 1 ≤ w.length)]
      · rw [if_neg htwo]
        by_cases hone : w.length = 1
        · simp [hone]
        · have hzero : w.length = 0 := by omega
          simp [hzero]

/-- One more character behind a command. -/
theorem same_of_command (h : openCommand characterSet r = some w) (c : UInt16) :
    endedBy characterSet r c ++ endedLast characterSet (c :: r) = endedLast characterSet r ↔
      ¬ isCommandChar characterSet c = true := by
  rw [endedBy_of_command h, last_of_command h]
  cases hc : isCommandChar characterSet c with
  | true =>
      have hnext : openCommand characterSet (c :: r) = some (c :: w) := by
        rw [openCommand_cons, if_pos hc, h, Option.map_some]
      have hne := resultOf_cons_ne .command [unichar '/'] r w c
      rw [if_pos rfl, List.nil_append, last_of_command hnext, List.length_cons,
        if_pos (by omega)]
      split <;> simp [hne]
  | false =>
      rw [endedLast_eq_nil (open_cons_of_command h hc), List.append_nil,
        if_neg Bool.false_ne_true]
      simp

/-- A text where nothing is open. -/
theorem last_of_none (h : ∀ w, ¬ IsOpen characterSet r w) : endedLast characterSet r = [] :=
  endedLast_eq_nil fun w hw => absurd hw (h w)

/-- What is open behind a text, or that nothing is. -/
theorem open_cases (characterSet : CharacterSet) (r : List UInt16) :
    (∃ w, openMention characterSet r = some w) ∨ (∃ w, openHashtag characterSet r = some w) ∨
      (∃ w, openCommand characterSet r = some w) ∨ ∀ w, ¬ IsOpen characterSet r w := by
  by_cases hopen : ∃ w, IsOpen characterSet r w
  · obtain ⟨w, hw | hw | hw⟩ := hopen
    · exact Or.inl ⟨w, hw⟩
    · exact Or.inr (Or.inl ⟨w, hw⟩)
    · exact Or.inr (Or.inr (Or.inl ⟨w, hw⟩))
  · exact Or.inr (Or.inr (Or.inr (not_exists.mp hopen)))

/-- **What one more character changes.** -/
theorem same_iff (characterSet : CharacterSet) (r : List UInt16) (c : UInt16) :
    endedBy characterSet r c ++ endedLast characterSet (c :: r) = endedLast characterSet r ↔
      ¬ Changed characterSet r c := by
  rcases open_cases characterSet r with ⟨w, hw⟩ | ⟨w, hw⟩ | ⟨w, hw⟩ | hnone
  · obtain ⟨hhashtag, hcommand⟩ := open_of_mention hw
    rw [same_of_mention hw, Changed, hw, hhashtag, hcommand]
    simp
  · obtain ⟨hmention, hcommand⟩ := open_of_hashtag hw
    rw [same_of_hashtag hw, Changed, hw, hmention, hcommand]
    simp
  · obtain ⟨hmention, hhashtag⟩ := open_of_command hw
    rw [same_of_command hw, Changed, hw, hmention, hhashtag]
    simp
  · rw [endedBy_of_none hnone, last_of_none hnone, endedLast_eq_nil fun w hw => ?_]
    · refine iff_of_true rfl ?_
      rintro (⟨w, hw, -⟩ | ⟨w, hw, -⟩ | ⟨w, hw, -⟩)
      · exact hnone w (Or.inl hw)
      · exact hnone w (Or.inr (Or.inl hw))
      · exact hnone w (Or.inr (Or.inr hw))
    · rcases isOpen_cons hw with hnil | ⟨v, -, ⟨hv, -⟩ | ⟨hv, -⟩ | ⟨hv, -⟩⟩
      · exact hnil
      · exact absurd (Or.inl hv) (hnone v)
      · exact absurd (Or.inr (Or.inl hv)) (hnone v)
      · exact absurd (Or.inr (Or.inr hv)) (hnone v)

/-- The results of a text with one more character. -/
theorem resultsOf_cons_iff (characterSet : CharacterSet) (r : List UInt16) (c : UInt16) :
    resultsOf characterSet r = resultsOf characterSet (c :: r) ↔ ¬ Changed characterSet r c := by
  rw [resultsOf, resultsOf, ended, List.append_assoc, List.append_cancel_left_eq, eq_comm]
  exact same_iff characterSet r c

/-- A space changes the results of a text that ends in a mention or a hashtag of one character. -/
theorem changed_space_iff (characterSet : CharacterSet) (r : List UInt16) :
    Changed characterSet r (unichar ' ') ↔
      ∃ x, openMention characterSet r = some [x] ∧ isDigit x = false ∨
        openHashtag characterSet r = some [x] := by
  obtain ⟨hmention, hhashtag, hcommand⟩ := isChar_space characterSet
  rw [Changed, hmention, hhashtag, hcommand]
  constructor
  · rintro (⟨w, hw, henough, hc | hone⟩ | ⟨w, hw, -, hc | hone⟩ | ⟨w, -, hc⟩)
    · exact absurd hc Bool.false_ne_true
    · obtain ⟨x, rfl⟩ := List.length_eq_one_iff.mp hone
      refine ⟨x, Or.inl ⟨hw, ?_⟩⟩
      simpa [mentionEnough] using henough
    · exact absurd hc Bool.false_ne_true
    · obtain ⟨x, rfl⟩ := List.length_eq_one_iff.mp hone
      exact ⟨x, Or.inr hw⟩
    · exact absurd hc Bool.false_ne_true
  · rintro ⟨x, ⟨hx, hdigit⟩ | hx⟩
    · refine Or.inl ⟨[x], hx, ?_, Or.inr rfl⟩
      simpa [mentionEnough] using hdigit
    · exact Or.inr (Or.inl ⟨[x], hx, List.cons_ne_nil x [], Or.inr rfl⟩)

/-! ### The ranges -/

/-- What a character ends. -/
theorem endedBy_cases (characterSet : CharacterSet) (r : List UInt16) (c : UInt16) :
    endedBy characterSet r c = [] ∨
      ∃ type sign w, endedBy characterSet r c = [resultOf type sign r w] ∧
        IsOpen characterSet r w ∧ ∀ v, IsOpen characterSet (c :: r) v → v = [] := by
  rcases open_cases characterSet r with ⟨w, hw⟩ | ⟨w, hw⟩ | ⟨w, hw⟩ | hnone
  · rw [endedBy_of_mention hw]
    cases hc : isMentionChar c with
    | true => exact Or.inl rfl
    | false =>
        cases mentionEnough 1 w with
        | true => exact Or.inr ⟨_, _, w, rfl, Or.inl hw, open_cons_of_mention hw hc⟩
        | false => exact Or.inl rfl
  · rw [endedBy_of_hashtag hw]
    cases hc : isHashtagChar characterSet c with
    | true => exact Or.inl rfl
    | false =>
        by_cases hlength : 1 ≤ w.length
        · rw [if_pos hlength]
          exact Or.inr ⟨_, _, w, rfl, Or.inr (Or.inl hw), open_cons_of_hashtag hw hc⟩
        · rw [if_neg hlength]
          exact Or.inl rfl
  · rw [endedBy_of_command hw]
    cases hc : isCommandChar characterSet c with
    | true => exact Or.inl rfl
    | false =>
        by_cases hlength : 1 ≤ w.length
        · rw [if_pos hlength]
          exact Or.inr ⟨_, _, w, rfl, Or.inr (Or.inr hw), open_cons_of_command hw hc⟩
        · rw [if_neg hlength]
          exact Or.inl rfl
  · exact Or.inl (endedBy_of_none hnone c)

/-- What the end of the text ends. -/
theorem endedLast_cases (characterSet : CharacterSet) (r : List UInt16) :
    endedLast characterSet r = [] ∨
      ∃ type sign w, endedLast characterSet r = [resultOf type sign r w] ∧
        IsOpen characterSet r w := by
  rcases open_cases characterSet r with ⟨w, hw⟩ | ⟨w, hw⟩ | ⟨w, hw⟩ | hnone
  · rw [last_of_mention hw]
    cases mentionEnough 2 w with
    | true => exact Or.inr ⟨_, _, w, rfl, Or.inl hw⟩
    | false => exact Or.inl rfl
  · rw [last_of_hashtag hw]
    by_cases hlength : 2 ≤ w.length
    · rw [if_pos hlength]
      exact Or.inr ⟨_, _, w, rfl, Or.inr (Or.inl hw)⟩
    · rw [if_neg hlength]
      exact Or.inl rfl
  · rw [last_of_command hw]
    by_cases hlength : 1 ≤ w.length
    · rw [if_pos hlength]
      exact Or.inr ⟨_, _, w, rfl, Or.inr (Or.inr hw)⟩
    · rw [if_neg hlength]
      exact Or.inl rfl
  · exact Or.inl (last_of_none hnone)

/-- What is open is shorter than the text. -/
theorem length_lt_of_isOpen (h : IsOpen characterSet r w) : w.length < r.length := by
  rcases h with h | h | h
  · exact length_lt_of_openRun h
  · exact length_lt_of_openRun h
  · exact length_lt_of_openRun h

namespace TGTextCheckingResult

/-- The place behind the range. -/
def stop (result : TGTextCheckingResult) : ℕ := result.location + result.length

end TGTextCheckingResult

/-- A result ends where its text ends. -/
theorem stop_resultOf (type : TGTextCheckingResultType) (sign : List UInt16)
    (h : IsOpen characterSet r w) : (resultOf type sign r w).stop = r.length := by
  have hlength := length_lt_of_isOpen h
  exact (by omega : r.length - 1 - w.length + (w.length + 1) = r.length)

/-- The results that are ended are in order, and before what is open. -/
structure Ordered (characterSet : CharacterSet) (r : List UInt16) : Prop where
  pairwise : (ended characterSet r).Pairwise fun a b => a.stop ≤ b.location
  inside : ∀ a ∈ ended characterSet r, a.stop ≤ r.length
  before : ∀ w, IsOpen characterSet r w → ∀ a ∈ ended characterSet r,
    a.stop ≤ r.length - 1 - w.length

/-- The order is kept. -/
theorem ordered (characterSet : CharacterSet) (r : List UInt16) : Ordered characterSet r := by
  induction r with
  | nil => exact ⟨List.Pairwise.nil, fun a ha => absurd ha List.not_mem_nil,
      fun w _ a ha => absurd ha List.not_mem_nil⟩
  | cons c r ih =>
      rcases endedBy_cases characterSet r c with hnone | ⟨type, sign, w, hone, hw, hlast⟩
      · refine ⟨?_, ?_, fun w hw => ?_⟩
        all_goals rw [ended, hnone, List.append_nil]
        · exact ih.pairwise
        · exact fun a ha => (ih.inside a ha).trans (Nat.le_succ _)
        · intro a ha
          rw [List.length_cons]
          rcases isOpen_cons hw with rfl | ⟨v, rfl, hv⟩
          · exact ih.inside a ha
          · have hbefore := ih.before v (by
              rcases hv with hv | hv | hv
              · exact Or.inl hv.1
              · exact Or.inr (Or.inl hv.1)
              · exact Or.inr (Or.inr hv.1)) a ha
            rw [List.length_cons]
            omega
      · have hinside : ∀ a ∈ ended characterSet (c :: r), a.stop ≤ r.length := by
          intro a ha
          rw [ended, hone] at ha
          rcases List.mem_append.mp ha with ha | ha
          · exact ih.inside a ha
          · rw [List.mem_singleton.mp ha, stop_resultOf type sign hw]
        refine ⟨?_, fun a ha => (hinside a ha).trans (Nat.le_succ _), fun v hv a ha => ?_⟩
        · rw [ended, hone, List.pairwise_append]
          refine ⟨ih.pairwise, List.pairwise_singleton _ _, fun a ha b hb => ?_⟩
          rw [List.mem_singleton.mp hb]
          exact ih.before w hw a ha
        · rw [hlast v hv]
          exact hinside a ha

/-- **The results are in order and inside of the text.** -/
theorem resultsOf_ordered (characterSet : CharacterSet) (r : List UInt16) :
    (resultsOf characterSet r).Pairwise (fun a b => a.stop ≤ b.location) ∧
      ∀ a ∈ resultsOf characterSet r, a.stop ≤ r.length := by
  have hordered := ordered characterSet r
  rw [resultsOf]
  rcases endedLast_cases characterSet r with hnone | ⟨type, sign, w, hone, hw⟩
  · rw [hnone, List.append_nil]
    exact ⟨hordered.pairwise, hordered.inside⟩
  · rw [hone, List.pairwise_append]
    refine ⟨⟨hordered.pairwise, List.pairwise_singleton _ _, fun a ha b hb => ?_⟩,
      fun a ha => ?_⟩
    · rw [List.mem_singleton.mp hb]
      exact hordered.before w hw a ha
    · rcases List.mem_append.mp ha with ha | ha
      · exact hordered.inside a ha
      · rw [List.mem_singleton.mp ha, stop_resultOf type sign hw]

/-! ### A space behind the text -/

/-- The mentions, hashtags and commands of a text. -/
def tokenResults (characterSet : CharacterSet) (text : List UInt16) : List TGTextCheckingResult :=
  (textCheckingResultsForText characterSet text true true).getD []

/-- The results are those of the text with one space behind it, lie inside of the text and are
disjoint. -/
structure ResultsStable (characterSet : CharacterSet) (text : List UInt16) : Prop where
  same : tokenResults characterSet text = tokenResults characterSet (text ++ [unichar ' '])
  inside : ∀ a ∈ tokenResults characterSet text, a.stop ≤ text.length
  disjoint : (tokenResults characterSet text).Pairwise fun a b =>
    a.stop ≤ b.location ∨ b.stop ≤ a.location

/-- A character ends a mention, a hashtag or a command that is long enough. -/
def Ends (characterSet : CharacterSet) (r : List UInt16) (c : UInt16) : Prop :=
  (∃ w, openMention characterSet r = some w ∧ mentionEnough 1 w = true ∧
    isMentionChar c = false) ∨
  (∃ w, openHashtag characterSet r = some w ∧ 1 ≤ w.length ∧
    isHashtagChar characterSet c = false) ∨
  ∃ w, openCommand characterSet r = some w ∧ 1 ≤ w.length ∧ isCommandChar characterSet c = false

/-- The text ends with a mention, a hashtag or a command that is long enough. -/
def EndsLast (characterSet : CharacterSet) (r : List UInt16) : Prop :=
  (∃ w, openMention characterSet r = some w ∧ mentionEnough 2 w = true) ∨
  (∃ w, openHashtag characterSet r = some w ∧ 2 ≤ w.length) ∨
  ∃ w, openCommand characterSet r = some w ∧ 1 ≤ w.length

/-- Somewhere in a text a mention, a hashtag or a command ends. -/
def HasResult (characterSet : CharacterSet) (text : List UInt16) : Prop :=
  (∃ r c, (c :: r).reverse <+: text ∧ Ends characterSet r c) ∨ EndsLast characterSet text.reverse

/-- The results do not depend on a space behind the text. A text whose length is an `int` with room
for one more does not end in a mention or a hashtag of one character. Of a longer one only the
part is scanned that the length says, cast to `int`. -/
structure Unaffected (characterSet : CharacterSet) (text : List UInt16) : Prop where
  short : text.length + 1 < 2 ^ 31 → ¬ ∃ x,
    openMention characterSet text.reverse = some [x] ∧ isDigit x = false ∨
      openHashtag characterSet text.reverse = some [x]
  full : text.length % 2 ^ 32 + 1 = 2 ^ 31 → ¬ HasResult characterSet (text.take (2 ^ 31 - 1))
  long : 2 ^ 32 ≤ text.length → text.length % 2 ^ 32 + 1 < 2 ^ 31 →
    ¬ Changed characterSet (text.take (text.length % 2 ^ 32)).reverse
      (text.getD (text.length % 2 ^ 32) (unichar ' '))

/-- A character ends nothing. -/
theorem endedBy_eq_nil_iff (characterSet : CharacterSet) (r : List UInt16) (c : UInt16) :
    endedBy characterSet r c = [] ↔ ¬ Ends characterSet r c := by
  rcases open_cases characterSet r with ⟨w, hw⟩ | ⟨w, hw⟩ | ⟨w, hw⟩ | hnone
  · obtain ⟨hhashtag, hcommand⟩ := open_of_mention hw
    rw [endedBy_of_mention hw, Ends, hw, hhashtag, hcommand]
    cases isMentionChar c <;> cases henough : mentionEnough 1 w <;> simp [henough]
  · obtain ⟨hmention, hcommand⟩ := open_of_hashtag hw
    rw [endedBy_of_hashtag hw, Ends, hw, hmention, hcommand]
    cases isHashtagChar characterSet c <;> simp
  · obtain ⟨hmention, hhashtag⟩ := open_of_command hw
    rw [endedBy_of_command hw, Ends, hw, hmention, hhashtag]
    cases isCommandChar characterSet c <;> simp
  · refine iff_of_true (endedBy_of_none hnone c) ?_
    rintro (⟨w, hw, -⟩ | ⟨w, hw, -⟩ | ⟨w, hw, -⟩)
    · exact hnone w (Or.inl hw)
    · exact hnone w (Or.inr (Or.inl hw))
    · exact hnone w (Or.inr (Or.inr hw))

/-- The end of the text ends nothing. -/
theorem endedLast_eq_nil_iff (characterSet : CharacterSet) (r : List UInt16) :
    endedLast characterSet r = [] ↔ ¬ EndsLast characterSet r := by
  rcases open_cases characterSet r with ⟨w, hw⟩ | ⟨w, hw⟩ | ⟨w, hw⟩ | hnone
  · obtain ⟨hhashtag, hcommand⟩ := open_of_mention hw
    rw [last_of_mention hw, EndsLast, hw, hhashtag, hcommand]
    simp
  · obtain ⟨hmention, hcommand⟩ := open_of_hashtag hw
    rw [last_of_hashtag hw, EndsLast, hw, hmention, hcommand]
    simp
  · obtain ⟨hmention, hhashtag⟩ := open_of_command hw
    rw [last_of_command hw, EndsLast, hw, hmention, hhashtag]
    simp
  · refine iff_of_true (last_of_none hnone) ?_
    rintro (⟨w, hw, -⟩ | ⟨w, hw, -⟩ | ⟨w, hw, -⟩)
    · exact hnone w (Or.inl hw)
    · exact hnone w (Or.inr (Or.inl hw))
    · exact hnone w (Or.inr (Or.inr hw))

/-- Nothing is ended in a text exactly when no character ends anything. -/
theorem ended_eq_nil_iff (characterSet : CharacterSet) (s : List UInt16) :
    ended characterSet s = [] ↔
      ∀ r c, (c :: r).reverse <+: s.reverse → ¬ Ends characterSet r c := by
  induction s with
  | nil =>
      refine iff_of_true rfl fun r c hr => ?_
      have hnil := List.prefix_nil.mp hr
      exact absurd (List.reverse_eq_nil_iff.mp hnil) (List.cons_ne_nil c r)
  | cons d s ih =>
      rw [ended, List.append_eq_nil_iff, ih, endedBy_eq_nil_iff]
      constructor
      · rintro ⟨hbefore, hlast⟩ r c hr
        rw [List.reverse_cons (a := d), List.prefix_concat_iff] at hr
        rcases hr with heq | hr
        · rw [← List.reverse_cons, List.reverse_inj] at heq
          obtain ⟨rfl, rfl⟩ := List.cons.inj heq
          exact hlast
        · exact hbefore r c hr
      · intro h
        refine ⟨fun r c hr => h r c ?_, h s d (List.prefix_refl _)⟩
        rw [List.reverse_cons (a := d)]
        exact hr.trans (List.prefix_append _ _)

/-- **A text has no results exactly when nothing ends in it.** -/
theorem resultsOf_eq_nil_iff (characterSet : CharacterSet) (text : List UInt16) :
    resultsOf characterSet text.reverse = [] ↔ ¬ HasResult characterSet text := by
  rw [resultsOf, List.append_eq_nil_iff, ended_eq_nil_iff, endedLast_eq_nil_iff,
    List.reverse_reverse, HasResult, not_or]
  simp

/-- The results of the empty text. -/
theorem resultsOf_nil : resultsOf characterSet [] = [] := rfl

/-- The part of a longer text that is scanned. -/
theorem take_concat (text : List UInt16) (c : UInt16) {n : ℕ} (hn : n ≤ text.length) :
    (text ++ [c]).take (n + 1) = text.take n ++ [text.getD n c] := by
  rw [List.take_add_one, List.take_append_of_le_length hn, List.getD_eq_getElem?_getD]
  rcases hn.lt_or_eq with hlt | rfl
  · rw [List.getElem?_append_left hlt, List.getElem?_eq_getElem hlt]
    rfl
  · rw [List.getElem?_concat_length, List.getElem?_eq_none le_rfl]
    rfl

/-- The results of a text whose length is an `int` with room for one more. -/
theorem same_of_room {text : List UInt16} (hroom : text.length % 2 ^ 32 + 1 < 2 ^ 31) :
    tokenResults characterSet text = tokenResults characterSet (text ++ [unichar ' ']) ↔
      ¬ Changed characterSet (text.take (text.length % 2 ^ 32)).reverse
        (text.getD (text.length % 2 ^ 32) (unichar ' ')) := by
  have hmod := Nat.mod_le text.length (2 ^ 32)
  have hint : intLength text = text.length % 2 ^ 32 := by
    rw [intLength_eq, if_pos (by omega)]
  have hnext : intLength (text ++ [unichar ' ']) = text.length % 2 ^ 32 + 1 := by
    rw [intLength_eq, List.length_append, List.length_singleton, if_pos (by omega)]
    omega
  rw [tokenResults, tokenResults, textCheckingResults_eq, textCheckingResults_eq, hint, hnext,
    take_concat text _ hmod, List.reverse_append, List.reverse_singleton, List.singleton_append]
  exact resultsOf_cons_iff characterSet _ _

/-- The results of a text whose length is the greatest `int`. -/
theorem same_of_full {text : List UInt16} (hfull : text.length % 2 ^ 32 + 1 = 2 ^ 31) :
    tokenResults characterSet text = tokenResults characterSet (text ++ [unichar ' ']) ↔
      ¬ HasResult characterSet (text.take (2 ^ 31 - 1)) := by
  have hint : intLength text = 2 ^ 31 - 1 := by
    rw [intLength_eq, if_pos (by omega)]
    omega
  have hnext : intLength (text ++ [unichar ' ']) = 0 := by
    rw [intLength_eq, List.length_append, List.length_singleton, if_neg (by omega)]
  rw [tokenResults, tokenResults, textCheckingResults_eq, textCheckingResults_eq, hint, hnext,
    List.take_zero, List.reverse_nil, resultsOf_nil]
  exact resultsOf_eq_nil_iff characterSet _

/-- Of a text whose length is a negative `int` nothing is scanned. -/
theorem same_of_negative {text : List UInt16} (hnegative : 2 ^ 31 ≤ text.length % 2 ^ 32) :
    tokenResults characterSet text = tokenResults characterSet (text ++ [unichar ' ']) := by
  have hint : intLength text = 0 := by
    rw [intLength_eq, if_neg (by omega)]
  have hnext : intLength (text ++ [unichar ' ']) = 0 := by
    rw [intLength_eq, List.length_append, List.length_singleton]
    split <;> omega
  rw [tokenResults, tokenResults, textCheckingResults_eq, textCheckingResults_eq, hint, hnext,
    List.take_zero, List.take_zero]

/-- The results depend on a space behind the text unless the text is unaffected. -/
theorem same_iff_unaffected (characterSet : CharacterSet) (text : List UInt16) :
    tokenResults characterSet text = tokenResults characterSet (text ++ [unichar ' ']) ↔
      Unaffected characterSet text := by
  rcases lt_trichotomy (text.length % 2 ^ 32 + 1) (2 ^ 31) with hroom | hfull | hnegative
  · rw [same_of_room hroom]
    rcases lt_or_ge text.length (2 ^ 32) with hshort | hlong
    · rw [Nat.mod_eq_of_lt hshort] at hroom ⊢
      rw [List.take_length, List.getD_eq_getElem?_getD, List.getElem?_eq_none le_rfl,
        Option.getD_none, changed_space_iff]
      exact ⟨fun h => ⟨fun _ => h, fun hfull => by omega, fun hlong => by omega⟩,
        fun h => h.short hroom⟩
    · exact ⟨fun h => ⟨fun hshort => by omega, fun hfull => by omega, fun _ _ => h⟩,
        fun h => h.long hlong hroom⟩
  · rw [same_of_full hfull]
    exact ⟨fun h => ⟨fun hshort => by omega, fun _ => h, fun _ hroom => by omega⟩,
      fun h => h.full hfull⟩
  · exact iff_of_true (same_of_negative (by omega))
      ⟨fun hshort => by omega, fun hfull => by omega, fun _ hroom => by omega⟩

/-- **key result**: the results do not depend on a space behind the text exactly when the text is
unaffected, and in any case they are inside of the text and disjoint. -/
theorem resultsStable_iff (characterSet : CharacterSet) (text : List UInt16) :
    ResultsStable characterSet text ↔ Unaffected characterSet text := by
  rw [← same_iff_unaffected]
  refine ⟨ResultsStable.same, fun hsame => ?_⟩
  obtain ⟨hordered, hinside⟩ :=
    resultsOf_ordered characterSet (text.take (intLength text)).reverse
  rw [List.length_reverse, List.length_take] at hinside
  refine ⟨hsame, ?_, ?_⟩
  · rw [tokenResults, textCheckingResults_eq]
    exact fun a ha => (hinside a ha).trans (min_le_right _ _)
  · rw [tokenResults, textCheckingResults_eq]
    exact hordered.imp fun h => Or.inl h

/-- The letters and digits of ASCII. -/
def asciiAlphanumerics : CharacterSet where
  characterIsMember c := isDigit c || (unichar 'a' ≤ c ∧ c ≤ unichar 'z') ||
    (unichar 'A' ≤ c ∧ c ≤ unichar 'Z')
  space := by decide
  atSign := by decide
  numberSign := by decide
  slash := by decide

/-- A mention of one character is found only with a space behind it. -/
theorem not_resultsStable_mention :
    ¬ ResultsStable asciiAlphanumerics [unichar '@', unichar 'a'] := by
  intro h
  have hsame := h.same
  revert hsame
  decide +kernel

end Telegraph.Text
