import Telegraph.Messages.ChannelHoles
import Telegraph.Messages.Database
import Telegraph.Messages.SortKeys

/-!
# Holes Before New Messages

When the difference of a channel is too long, `addTrailingHoleToChannelAndDispatch:…` adds the
newest messages of the channel, with holes between them and down to the newest message that it
knew before. The gaps are taken between neighbours of the list, which has to go from the newest
message to the oldest; the list is sorted for that, but the sorted array is thrown away, and the
loop runs over the messages as they came.

## Main results

* `mid_knownEarlier`: the newest message known before.
* `covered_holesBelow`, `separate_holesBelow`: a list that descends gets the right holes.
* `descends_of_clear`: a list whose holes have none of its ids descends.
* `trailingHoles_exact`: **the holes are the missing ids exactly if the new messages come from
  the newest to the oldest.**
* `trailingHoles_ascending`: otherwise a hole is put over a message.
-/

namespace Telegraph.Messages

open Intervals

/-! ### The function -/

/-- A sum or difference in an `int32_t`. -/
def wrap (v : ℤ) : ℤ := v.bmod 4294967296

/-- A message of the difference: its id, an `int32_t`, and its date. -/
structure DifferenceMessage where
  mid : ℤ
  date : ℤ
  mid_fits : -2147483648 ≤ mid ∧ mid < 2147483648
deriving DecidableEq

/-- A row of the table of channel messages. -/
structure ChannelMessageRow where
  mid : ℤ
  sortKey : TGMessageSortKey

/-- Of two rows the one with the greater id. -/
def newerRow (newest : Option ChannelMessageRow) (row : ChannelMessageRow) :
    Option ChannelMessageRow :=
  match newest with
  | none => some row
  | some newest => if newest.mid < row.mid then some row else some newest

/-- Of the rows with ids up to `maxId`, the one with the greatest id: `ORDER BY mid DESC LIMIT 1`. -/
def newestRow (rows : List ChannelMessageRow) (maxId : ℤ) : Option ChannelMessageRow :=
  (rows.filter fun row => row.mid ≤ maxId).foldl newerRow none

/-- `_knownChannelEarlierMessageSortKey:maxId:`. -/
def knownChannelEarlierMessageSortKey (peerId : ℤ) (rows : List ChannelMessageRow) (maxId : ℤ) :
    TGMessageSortKey :=
  ((newestRow rows maxId).map ChannelMessageRow.sortKey).getD
    (TGMessageSortKeyLowerBound peerId TGMessageSpaceImportant)

/-- The hole between the id `earlierMid` and the message, if there is one. -/
def holeBetween (earlierMid earlierTimestamp : ℤ) (message : DifferenceMessage) :
    List TGMessageHole :=
  if h : wrap (earlierMid + 1) ≤ wrap (message.mid - 1) then
    [⟨wrap (earlierMid + 1), wrap (earlierTimestamp + 1), wrap (message.mid - 1), message.date, h⟩]
  else []

/-- The loop over the messages; the last one has a hole down to the message known before. -/
def holesBelow (earlierSortKey : TGMessageSortKey) : List DifferenceMessage → List TGMessageHole
  | [] => []
  | [message] =>
      holeBetween (TGMessageSortKeyMid earlierSortKey) (TGMessageSortKeyTimestamp earlierSortKey)
        message
  | message :: earlierMessage :: rest =>
      (if earlierMessage.mid ≠ wrap (message.mid - 1) then
        holeBetween earlierMessage.mid earlierMessage.date message
      else []) ++ holesBelow earlierSortKey (earlierMessage :: rest)

/-- The messages that are newer than those known before. -/
def filteredMessages (earlierSortKey : TGMessageSortKey) (messages : List DifferenceMessage) :
    List DifferenceMessage :=
  messages.filter fun message => message.mid > TGMessageSortKeyMid earlierSortKey

/-- What `addTrailingHoleToChannelAndDispatch:…` adds to the channel: messages and holes. The
result of `sortedArrayUsingComparator:` is not used. -/
def addTrailingHoleToChannel (peerId : ℤ) (rows : List ChannelMessageRow)
    (messages : List DifferenceMessage) : List DifferenceMessage × List TGMessageHole :=
  let earlierSortKey :=
    knownChannelEarlierMessageSortKey peerId rows (TGMessageLocalMidBaseline - 1)
  let filtered := filteredMessages earlierSortKey messages
  (filtered, holesBelow earlierSortKey filtered)

/-! ### The newest message known before -/

/-- Folding `newerRow` finds a row with the greatest id. -/
theorem foldl_newerRow (rows : List ChannelMessageRow) (row : ChannelMessageRow) :
    ∃ newest ∈ row :: rows, rows.foldl newerRow (some row) = some newest ∧
      ∀ other ∈ row :: rows, other.mid ≤ newest.mid := by
  induction rows generalizing row with
  | nil => exact ⟨row, List.mem_cons_self, rfl, fun other h => (List.mem_singleton.mp h ▸ le_refl _)⟩
  | cons next rows ih =>
      simp only [List.foldl_cons, newerRow]
      split
      · next hlt =>
          obtain ⟨newest, hmem, heq, hmax⟩ := ih next
          refine ⟨newest, List.mem_cons_of_mem _ hmem, heq, List.forall_mem_cons.mpr ⟨?_, hmax⟩⟩
          exact hlt.le.trans (hmax next List.mem_cons_self)
      · next hge =>
          obtain ⟨newest, hmem, heq, hmax⟩ := ih row
          obtain ⟨hrow, hrest⟩ := List.forall_mem_cons.mp hmax
          refine ⟨newest, ?_, heq, List.forall_mem_cons.mpr ⟨hrow, List.forall_mem_cons.mpr
            ⟨(not_lt.mp hge).trans hrow, hrest⟩⟩⟩
          rcases List.mem_cons.mp hmem with rfl | hmem
          · exact List.mem_cons_self
          · exact List.mem_cons_of_mem _ (List.mem_cons_of_mem _ hmem)

/-- The query finds a row with the greatest id up to `maxId`, if there is a row at all. -/
theorem newestRow_spec {rows : List ChannelMessageRow} {maxId : ℤ} {row : ChannelMessageRow}
    (hrow : row ∈ rows) (hle : row.mid ≤ maxId) :
    ∃ newest ∈ rows, newestRow rows maxId = some newest ∧ newest.mid ≤ maxId ∧
      ∀ other ∈ rows, other.mid ≤ maxId → other.mid ≤ newest.mid := by
  have hfound : row ∈ rows.filter fun row => row.mid ≤ maxId :=
    List.mem_filter.mpr ⟨hrow, decide_eq_true hle⟩
  rw [newestRow]
  rcases hrows : rows.filter fun row => row.mid ≤ maxId with _ | ⟨first, rest⟩
  · rw [hrows] at hfound
    exact absurd hfound List.not_mem_nil
  · obtain ⟨newest, hmem, heq, hmax⟩ := foldl_newerRow rest first
    rw [← hrows] at hmem hmax
    obtain ⟨hin, hbound⟩ := List.mem_filter.mp hmem
    refine ⟨newest, hin, ?_, of_decide_eq_true hbound, fun other hother hother_le => ?_⟩
    · rw [hrows, List.foldl_cons]
      exact heq
    · exact hmax other (List.mem_filter.mpr ⟨hother, decide_eq_true hother_le⟩)

/-- The sort key found is that of the newest message, and has its id. -/
theorem mid_knownEarlier {peerId : ℤ} {rows : List ChannelMessageRow} {maxId : ℤ}
    {row : ChannelMessageRow} (hrow : row ∈ rows) (hle : row.mid ≤ maxId)
    (hkeys : ∀ row ∈ rows, -2147483648 ≤ row.mid ∧ row.mid < 2147483648 ∧
      ∃ space timestamp, row.sortKey = TGMessageSortKeyMake peerId space timestamp row.mid) :
    ∃ newest ∈ rows, newest.mid ≤ maxId ∧
      (∀ other ∈ rows, other.mid ≤ maxId → other.mid ≤ newest.mid) ∧
      TGMessageSortKeyMid (knownChannelEarlierMessageSortKey peerId rows maxId) = newest.mid := by
  obtain ⟨newest, hmem, heq, hbound, hmax⟩ := newestRow_spec hrow hle
  obtain ⟨hlow, hhigh, space, timestamp, hkey⟩ := hkeys newest hmem
  refine ⟨newest, hmem, hbound, hmax, ?_⟩
  rw [knownChannelEarlierMessageSortKey, heq, Option.map_some, Option.getD_some, hkey,
    mid_make hlow hhigh]

/-! ### Holes of a list -/

section Holes

variable {earlierSortKey : TGMessageSortKey} {message : DifferenceMessage}
  {messages listed : List DifferenceMessage} {earlierMid earlierTimestamp x : ℤ}

theorem wrap_of_fits {v : ℤ} (hlow : -2147483648 ≤ v) (hhigh : v < 2147483648) : wrap v = v := by
  apply Int.bmod_eq_of_le <;> omega

theorem mid_ge (key : TGMessageSortKey) : -2147483648 ≤ TGMessageSortKeyMid key := by
  have h := Int.le_bmod (x := Bytes.leNat ((key.key.drop 13).take 4).reverse) (m := 4294967296)
    (by decide)
  exact h

/-- The hole above an id has the ids between. -/
theorem mem_holeBetween (hlow : -2147483648 ≤ earlierMid) (hlt : earlierMid < message.mid) :
    x ∈ covered TGMessageHole.minId TGMessageHole.maxId
      (holeBetween earlierMid earlierTimestamp message) ↔ earlierMid < x ∧ x < message.mid := by
  obtain ⟨hmin, hmax⟩ := message.mid_fits
  have hnext : wrap (earlierMid + 1) = earlierMid + 1 := wrap_of_fits (by omega) (by omega)
  have hprevious : wrap (message.mid - 1) = message.mid - 1 := wrap_of_fits (by omega) (by omega)
  rw [holeBetween]
  split
  · simp only [mem_covered_singleton, Within, hnext, hprevious]
    omega
  · next hnone =>
      rw [hnext, hprevious] at hnone
      simp only [covered_nil, Set.mem_empty_iff_false, false_iff]
      omega

/-- The hole below a message has the ids between the next message and it. -/
theorem mem_holeBelow {earlierMessage : DifferenceMessage} (hlt : earlierMessage.mid < message.mid) :
    x ∈ covered TGMessageHole.minId TGMessageHole.maxId
      (if earlierMessage.mid ≠ wrap (message.mid - 1) then
        holeBetween earlierMessage.mid earlierMessage.date message
      else []) ↔ earlierMessage.mid < x ∧ x < message.mid := by
  obtain ⟨hmin, hmax⟩ := message.mid_fits
  obtain ⟨hlow, -⟩ := earlierMessage.mid_fits
  split
  · exact mem_holeBetween hlow hlt
  · next hnext =>
      rw [not_not, wrap_of_fits (by omega) (by omega)] at hnext
      simp only [covered_nil, Set.mem_empty_iff_false, false_iff]
      omega

/-- The messages go from the newest to the oldest. -/
def Descends (messages : List DifferenceMessage) : Prop :=
  messages.Pairwise fun message earlier => earlier.mid < message.mid

instance : Decidable (Descends messages) := inferInstanceAs (Decidable (List.Pairwise _ _))

/-- **The holes of messages that descend** have the ids between them, and those above the id
known before. -/
theorem covered_holesBelow (hdesc : Descends messages)
    (habove : ∀ message ∈ messages, TGMessageSortKeyMid earlierSortKey < message.mid) :
    x ∈ covered TGMessageHole.minId TGMessageHole.maxId (holesBelow earlierSortKey messages) ↔
      TGMessageSortKeyMid earlierSortKey < x ∧ (∃ message ∈ messages, x ≤ message.mid) ∧
        ∀ message ∈ messages, x ≠ message.mid := by
  induction messages using holesBelow.induct with
  | case1 => simp [holesBelow]
  | case2 message =>
      rw [holesBelow, mem_holeBetween (mid_ge _) (habove message (List.mem_singleton.mpr rfl))]
      simp only [List.mem_singleton, exists_eq_left, forall_eq]
      omega
  | case3 message earlierMessage rest ih =>
      obtain ⟨hfirst, hrest⟩ := List.pairwise_cons.mp hdesc
      have hlt : earlierMessage.mid < message.mid := hfirst _ List.mem_cons_self
      have hbefore := habove earlierMessage (List.mem_cons_of_mem _ List.mem_cons_self)
      rw [holesBelow, covered_append, Set.mem_union, mem_holeBelow hlt,
        ih hrest fun message h => habove message (List.mem_cons_of_mem _ h)]
      constructor
      · rintro (⟨hgt, hx⟩ | ⟨hgt, ⟨other, hother, hx⟩, hnot⟩)
        · refine ⟨hbefore.trans hgt, ⟨message, List.mem_cons_self, hx.le⟩, fun other hother => ?_⟩
          rcases List.mem_cons.mp hother with rfl | hother
          · exact hx.ne
          · rcases List.mem_cons.mp hother with rfl | hother
            · exact hgt.ne'
            · exact ((List.pairwise_cons.mp hrest).1 other hother |>.trans hgt).ne'
        · have hle : x < message.mid := lt_of_le_of_lt hx (hfirst other hother)
          refine ⟨hgt, ⟨message, List.mem_cons_self, hle.le⟩, ?_⟩
          exact List.forall_mem_cons.mpr ⟨hle.ne, hnot⟩
      · rintro ⟨hgt, ⟨other, hother, hx⟩, hnot⟩
        obtain ⟨hne, hnot⟩ := List.forall_mem_cons.mp hnot
        rcases lt_or_ge earlierMessage.mid x with hlarge | hsmall
        · refine Or.inl ⟨hlarge, lt_of_le_of_ne ?_ hne⟩
          rcases List.mem_cons.mp hother with rfl | hother
          · exact hx
          · exact (hx.trans_lt (hfirst other hother)).le
        · exact Or.inr ⟨hgt, ⟨earlierMessage, List.mem_cons_self, hsmall⟩, hnot⟩

/-- The holes of messages that descend are separate. -/
theorem separate_holesBelow (hdesc : Descends messages)
    (habove : ∀ message ∈ messages, TGMessageSortKeyMid earlierSortKey < message.mid) :
    Separate TGMessageHole.minId TGMessageHole.maxId (holesBelow earlierSortKey messages) := by
  have hbetween (earlierMid earlierTimestamp : ℤ) (message : DifferenceMessage) :
      Separate TGMessageHole.minId TGMessageHole.maxId
        (holeBetween earlierMid earlierTimestamp message) := by
    rw [holeBetween]
    split
    · exact Separate.singleton (TGMessageHole.minId_le_maxId _)
    · exact Separate.nil
  induction messages using holesBelow.induct with
  | case1 => exact Separate.nil
  | case2 message => exact hbetween _ _ _
  | case3 message earlierMessage rest ih =>
      obtain ⟨hfirst, hrest⟩ := List.pairwise_cons.mp hdesc
      have hlt : earlierMessage.mid < message.mid := hfirst _ List.mem_cons_self
      have habove' : ∀ message ∈ earlierMessage :: rest,
          TGMessageSortKeyMid earlierSortKey < message.mid :=
        fun message h => habove message (List.mem_cons_of_mem _ h)
      rw [holesBelow]
      refine Separate.append ?_ (ih hrest habove') ?_
      · split
        · exact hbetween _ _ _
        · exact Separate.nil
      · intro hole hhole other hother
        have hlow := (mem_holeBelow (x := hole.minId) hlt).mp
          ⟨hole, hhole, le_refl _, hole.minId_le_maxId⟩
        obtain ⟨-, ⟨listed, hlisted, hhigh⟩, -⟩ :=
          (covered_holesBelow (x := other.maxId) hrest habove').mp
            ⟨other, hother, other.minId_le_maxId, le_refl _⟩
        refine Or.inr ?_
        rcases List.mem_cons.mp hlisted with rfl | hlisted
        · exact hhigh.trans_lt hlow.1
        · exact (hhigh.trans_lt ((List.pairwise_cons.mp hrest).1 listed hlisted)).trans hlow.1

/-- **If no hole has an id of the list, the messages descend**: seen from the end, every message
is the next one above those after it. -/
theorem descends_of_clear (hnodup : (messages.map DifferenceMessage.mid).Nodup)
    (hlisted : ∀ message ∈ messages, message ∈ listed)
    (habove : ∀ message ∈ listed, TGMessageSortKeyMid earlierSortKey < message.mid)
    (hclear : ∀ message ∈ listed, message.mid ∉
      covered TGMessageHole.minId TGMessageHole.maxId (holesBelow earlierSortKey messages)) :
    Descends messages ∧ ∀ message ∈ messages.head?, ∀ other ∈ listed,
      other.mid ∈ messages.map DifferenceMessage.mid ∨ message.mid < other.mid := by
  induction messages using holesBelow.induct with
  | case1 => exact ⟨List.Pairwise.nil, fun message h => absurd h (by simp)⟩
  | case2 message =>
      refine ⟨List.pairwise_singleton _ _, ?_⟩
      rintro _ ⟨⟩ other hother
      have hout := hclear other hother
      rw [holesBelow, mem_holeBetween (mid_ge _)
        (habove message (hlisted message (List.mem_singleton.mpr rfl)))] at hout
      have hgt := habove other hother
      simp only [List.map_cons, List.map_nil, List.mem_singleton]
      omega
  | case3 message earlierMessage rest ih =>
      obtain ⟨hnew, hnodup⟩ := List.nodup_cons.mp hnodup
      simp only [holesBelow, covered_append, Set.mem_union, not_or] at hclear
      obtain ⟨hdesc, hnext⟩ := ih hnodup
        (fun message h => hlisted message (List.mem_cons_of_mem _ h))
        (fun message h => (hclear message h).2)
      have hnext := hnext earlierMessage rfl
      have hlt : earlierMessage.mid < message.mid :=
        (hnext message (hlisted message List.mem_cons_self)).resolve_left hnew
      refine ⟨List.pairwise_cons.mpr ⟨fun later hlater => ?_, hdesc⟩, ?_⟩
      · rcases List.mem_cons.mp hlater with rfl | hlater
        · exact hlt
        · exact ((List.pairwise_cons.mp hdesc).1 later hlater).trans hlt
      · rintro _ ⟨⟩ other hother
        have hout := (hclear other hother).1
        rw [mem_holeBelow hlt] at hout
        rcases hnext other hother with hmem | hgt
        · exact Or.inl (List.mem_cons_of_mem _ hmem)
        · rcases lt_trichotomy other.mid message.mid with hless | heq | hmore
          · exact absurd ⟨hgt, hless⟩ hout
          · exact Or.inl (heq ▸ List.mem_cons_self)
          · exact Or.inr hmore

end Holes

/-! ### The holes of a difference -/

section Difference

variable {peerId : ℤ} {rows : List ChannelMessageRow} {messages : List DifferenceMessage} {x : ℤ}

/-- The newest id that is known before. -/
def knownMid (peerId : ℤ) (rows : List ChannelMessageRow) : ℤ :=
  TGMessageSortKeyMid
    (knownChannelEarlierMessageSortKey peerId rows (TGMessageLocalMidBaseline - 1))

/-- The ids above those known before, up to the greatest in the list, that are not in it. -/
def missingIds (known : ℤ) (messages : List DifferenceMessage) : Set ℤ :=
  {x | known < x ∧ (∃ message ∈ messages, x ≤ message.mid) ∧ ∀ message ∈ messages, x ≠ message.mid}

/-- The messages that were known before leave the missing ids as they are. -/
theorem mem_missingIds_filtered {earlierSortKey : TGMessageSortKey} :
    x ∈ missingIds (TGMessageSortKeyMid earlierSortKey) (filteredMessages earlierSortKey messages) ↔
      x ∈ missingIds (TGMessageSortKeyMid earlierSortKey) messages := by
  simp only [missingIds, filteredMessages, Set.mem_ofPred_eq, List.mem_filter, decide_eq_true_eq]
  constructor
  · rintro ⟨hgt, ⟨message, ⟨hmem, -⟩, hle⟩, hnot⟩
    refine ⟨hgt, ⟨message, hmem, hle⟩, fun other hother heq => ?_⟩
    exact hnot other ⟨hother, heq ▸ hgt⟩ heq
  · rintro ⟨hgt, ⟨message, hmem, hle⟩, hnot⟩
    exact ⟨hgt, ⟨message, ⟨hmem, hgt.trans_le hle⟩, hle⟩, fun other hother => hnot other hother.1⟩

/-- **The holes are separate and have the missing ids, exactly if the messages that are new come
from the newest to the oldest.** -/
theorem trailingHoles_exact (hnodup : (messages.map DifferenceMessage.mid).Nodup) :
    (Separate TGMessageHole.minId TGMessageHole.maxId
        (addTrailingHoleToChannel peerId rows messages).2 ∧
      covered TGMessageHole.minId TGMessageHole.maxId
        (addTrailingHoleToChannel peerId rows messages).2 =
          missingIds (knownMid peerId rows) messages) ↔
    Descends (messages.filter fun message => message.mid > knownMid peerId rows) := by
  have habove : ∀ message ∈ filteredMessages
      (knownChannelEarlierMessageSortKey peerId rows (TGMessageLocalMidBaseline - 1)) messages,
      knownMid peerId rows < message.mid :=
    fun message h => of_decide_eq_true (List.mem_filter.mp h).2
  constructor
  · rintro ⟨-, hcovered⟩
    refine (descends_of_clear ?_ (fun message h => h) habove fun message h hin => ?_).1
    · exact hnodup.sublist (List.filter_sublist.map _)
    · have hmissing := hcovered ▸ hin
      exact hmissing.2.2 message (List.mem_filter.mp h).1 rfl
  · intro hdesc
    refine ⟨separate_holesBelow hdesc habove, Set.ext fun x => ?_⟩
    rw [knownMid, ← mem_missingIds_filtered]
    exact covered_holesBelow hdesc habove

end Difference

/-- The message with id `mid`, for the runs below. -/
def messageOf (mid : ℕ) (h : mid < 2147483648) : DifferenceMessage := ⟨mid, 0, by omega⟩

/-- Two messages from the newest to the oldest. -/
theorem trailingHoles_descending :
    Separate TGMessageHole.minId TGMessageHole.maxId
        (addTrailingHoleToChannel 0 [] [messageOf 9 (by decide), messageOf 5 (by decide)]).2 ∧
      covered TGMessageHole.minId TGMessageHole.maxId
        (addTrailingHoleToChannel 0 [] [messageOf 9 (by decide), messageOf 5 (by decide)]).2 =
          missingIds (knownMid 0 []) [messageOf 9 (by decide), messageOf 5 (by decide)] :=
  (trailingHoles_exact (by decide)).mpr (by decide)

/-- Of two messages from the oldest to the newest, with nothing known before, a hole is put over
the first. -/
theorem trailingHoles_ascending :
    ¬ covered TGMessageHole.minId TGMessageHole.maxId
        (addTrailingHoleToChannel 0 [] [messageOf 1 (by decide), messageOf 2 (by decide)]).2 =
          missingIds (knownMid 0 []) [messageOf 1 (by decide), messageOf 2 (by decide)] := by
  intro hcovered
  have hin : (1 : ℤ) ∈ covered TGMessageHole.minId TGMessageHole.maxId
      (addTrailingHoleToChannel 0 [] [messageOf 1 (by decide), messageOf 2 (by decide)]).2 :=
    ⟨⟨1, 1, 1, 0, le_refl _⟩, by decide, by decide, by decide⟩
  rw [hcovered] at hin
  exact hin.2.2 (messageOf 1 (by decide)) List.mem_cons_self rfl

end Telegraph.Messages
